import GStore.Dict.Reclaim
import GStore.Foundation.Assoc
import GStore.Query.Exists
import GStore.Query.Group
import GStore.Store.TripleStore
import Mathlib.Logic.Function.Basic

/-! # Named graphs

`query/engine.rs`: a `GRAPH` with an IRI runs its pattern over the graph of that name, and one with
a variable runs it over every named graph and then writes the id of the graph into the slot of the
variable, whatever is there. -/

namespace GStore

/-! ## Kept elements -/

theorem map_eq_filterMap_iff {α β : Type*} {list : List α} {step : α → β} {choose : α → Option β} :
    list.map step = list.filterMap choose ↔
      ∀ element ∈ list, choose element = some (step element) := by
  induction list with
  | nil => simp
  | cons head tail induction =>
    rw [List.map_cons, List.filterMap_cons, List.forall_mem_cons, ← induction]
    cases chosen : choose head with
    | none =>
      refine iff_of_false (fun equal => ?_) fun both => by cases both.1
      dsimp only at equal
      have lengths := congrArg List.length equal
      have bounded := List.length_filterMap_le choose tail
      rw [List.length_cons, List.length_map] at lengths
      omega
    | some value =>
      dsimp only
      rw [List.cons.injEq, Option.some.injEq, eq_comm]

/-- The entries of one key are those that a lookup finds. -/
theorem flatMap_if_fst_eq {κ ν β : Type*} [DecidableEq κ] (entries : List (κ × ν))
    (unique : (entries.map Prod.fst).Nodup) (key : κ) (values : ν → List β) :
    (entries.flatMap fun entry => if entry.1 = key then values entry.2 else []) =
      match entries.lookup key with
      | some value => values value
      | none => [] := by
  induction entries with
  | nil => rfl
  | cons entry rest induction =>
    have parts := List.nodup_cons.mp unique
    rw [List.flatMap_cons, induction parts.2, lookup_cons_eq_ite]
    by_cases same : entry.1 = key
    · have absent : rest.lookup key = none := by
        cases found : rest.lookup key with
        | none => rfl
        | some value =>
          have member := List.mem_map_of_mem (f := Prod.fst) (mem_of_lookup_eq_some found)
          exact absurd (same ▸ member) parts.1
      rw [if_pos same, absent, List.append_nil, if_pos (beq_iff_eq.mpr same.symm)]
    · rw [if_neg same, List.nil_append, if_neg fun equal => same (eq_of_beq equal).symm]

end GStore

namespace GStore.Query

open Dict Store

/-! ## Evaluation -/

/-- An evaluator over the graphs of a dataset. -/
structure GraphEvaluator (Value Key : Type) extends Evaluator Value GraphPattern Key where
  valid : dict.Valid
  named : Option (List (UInt32 × TripleStore))
  /-- The map holds its graphs in the order of their ids. -/
  ascending : (named.getD []).Pairwise fun left right => left.1 < right.1
  isIri : ∀ graph ∈ named.getD [], ∃ iri : Text,
    dict.entityId (Term.iri iri).dictKey = some graph.1
  /-- `eval_pattern` of `graph_sub_evaluator`. -/
  evalIn : TripleStore → GraphPattern → VarLayout → List Solution
  fits : ∀ store inner layout, ∀ row ∈ evalIn store inner layout,
    row.length = layout.names.length

namespace GraphEvaluator

variable {Value Key : Type}

section Evaluate

variable (evaluator : GraphEvaluator Value Key)

/-- `eval_graph`. -/
def evalGraph (graph : GraphTerm) (inner : GraphPattern) (layout : VarLayout) :
    Eval (List Solution) :=
  match evaluator.named with
  | none => .ok []
  | some named =>
    match graph with
    | .iri iri =>
      match evaluator.dict.entityId (Term.iri iri).dictKey with
      | none => .ok []
      | some gid =>
        match named.lookup gid with
        | some store => .ok (evaluator.evalIn store inner layout)
        | none => .ok []
    | .var name =>
      match layout.index name with
      | none => .error .outOfBounds
      | some slot => .ok (named.flatMap fun graph =>
        (evaluator.evalIn graph.2 inner layout).map fun row =>
          row.set slot (some (.stored graph.1)))

/-! ## Solutions -/

/-- What a row says of each variable. -/
def denote (layout : VarLayout) (row : Solution) (name : Text) : Option Text := do
  let slot ← layout.index name
  let id ← row.getD slot none
  evaluator.resolveString id (layout.isPred.getD slot false)

/-- The solution with one more binding, if it is compatible with that. -/
def bindTo (name : Text) (text : Option Text) (solution : Text → Option Text) :
    Option (Text → Option Text) :=
  if solution name = none ∨ solution name = text then
    some (Function.update solution name text)
  else none

/-- The solutions over one graph that are compatible with its IRI for the variable. -/
def boundSolutions (name : Text) (text : Option Text) (store : TripleStore)
    (inner : GraphPattern) (layout : VarLayout) : List (Text → Option Text) :=
  ((evaluator.evalIn store inner layout).map (evaluator.denote layout)).filterMap
    (bindTo name text)

def graphSolutions (name : Text) (inner : GraphPattern) (layout : VarLayout) :
    List (Text → Option Text) :=
  (evaluator.named.getD []).flatMap fun graph =>
    evaluator.boundSolutions name (evaluator.dict.idToString graph.1) graph.2 inner layout

/-- `GRAPH ?g` has the solutions over the named graphs that are compatible with the IRI of the
graph, and `GRAPH <iri>` those among them with that IRI. -/
structure RangesOverGraphs (name : Text) (inner : GraphPattern) (layout : VarLayout) : Prop where
  solutions : ∃ rows, evaluator.evalGraph (.var name) inner layout = .ok rows ∧
    rows.map (evaluator.denote layout) = evaluator.graphSolutions name inner layout
  restriction : ∀ iri, ∃ rows only,
    evaluator.evalGraph (.var name) inner layout = .ok rows ∧
    evaluator.evalGraph (.iri iri) inner layout = .ok only ∧
    (rows.map (evaluator.denote layout)).filter
        (fun solution => solution name = some (Term.iri iri).dictKey) =
      (only.map (evaluator.denote layout)).filterMap
        (bindTo name (some (Term.iri iri).dictKey))

/-- No inner solution has another term for the variable than the IRI of the graph, and the slot
shows that IRI once it holds the id of the graph. -/
def Consistent (name : Text) (slot : Nat) (inner : GraphPattern) (layout : VarLayout) : Prop :=
  ∀ graph ∈ evaluator.named.getD [], ∀ row ∈ evaluator.evalIn graph.2 inner layout,
    (evaluator.denote layout row name = none ∨
      evaluator.denote layout row name = evaluator.dict.idToString graph.1) ∧
    evaluator.resolveString (.stored graph.1) (layout.isPred.getD slot false) =
      evaluator.dict.idToString graph.1

end Evaluate

variable {evaluator : GraphEvaluator Value Key} {layout : VarLayout} {name : Text} {slot : Nat}
  {inner : GraphPattern}

theorem nodup_named (evaluator : GraphEvaluator Value Key) :
    ((evaluator.named.getD []).map Prod.fst).Nodup := by
  refine List.Pairwise.map _ (fun left right less => ?_) evaluator.ascending
  exact UInt32.ne_of_lt less

theorem name_eq_of_index {other : Text} (first : layout.index name = some slot)
    (second : layout.index other = some slot) : other = name := by
  rw [VarLayout.index] at first second
  split at first
  case isFalse => cases first
  case isTrue known =>
      split at second
      case isFalse => cases second
      case isTrue knownOther =>
          refine (List.idxOf_inj knownOther).mp ?_
          exact (Option.some.inj second).trans (Option.some.inj first).symm

theorem slot_lt (isSlot : layout.index name = some slot) : slot < layout.names.length := by
  rw [VarLayout.index] at isSlot
  split at isSlot
  · rename_i known
    rw [← Option.some.inj isSlot]
    exact List.idxOf_lt_length_of_mem known
  · cases isSlot

/-- The row with an id in the slot of the variable. -/
theorem denote_set (isSlot : layout.index name = some slot) {row : Solution}
    (fits : row.length = layout.names.length) (id : SlotId) :
    evaluator.denote layout (row.set slot (some id)) =
      Function.update (evaluator.denote layout row) name
        (evaluator.resolveString id (layout.isPred.getD slot false)) := by
  have inside : slot < row.length := fits ▸ slot_lt isSlot
  funext other
  by_cases same : other = name
  · subst same
    rw [Function.update_self, denote, isSlot]
    simp [inside]
  · rw [Function.update_of_ne same, denote, denote]
    cases found : layout.index other with
    | none => rfl
    | some index =>
      have different : slot ≠ index := fun equal =>
        same (name_eq_of_index isSlot (equal ▸ found))
      simp [List.getElem?_set_ne different]

theorem bindTo_eq_some_iff {text written : Option Text} {solution : Text → Option Text} :
    bindTo name text solution = some (Function.update solution name written) ↔
      (solution name = none ∨ solution name = text) ∧ written = text := by
  rw [bindTo]
  split
  · rename_i compatible
    rw [Option.some.injEq, and_iff_right compatible]
    constructor
    · intro equal
      have values := congrFun equal name
      rwa [Function.update_self, Function.update_self, eq_comm] at values
    · intro same
      rw [same]
  · rename_i incompatible
    exact iff_of_false (Option.some_ne_none _).symm fun both => incompatible both.1

theorem bindTo_name {text : Option Text} {solution extended : Text → Option Text}
    (bound : bindTo name text solution = some extended) : extended name = text := by
  rw [bindTo] at bound
  split at bound
  · rw [← Option.some.inj bound, Function.update_self]
  · cases bound

/-! ## Assignment -/

/-- The inner solutions, each with its graph. -/
def answers (evaluator : GraphEvaluator Value Key) (inner : GraphPattern) (layout : VarLayout) :
    List ((UInt32 × TripleStore) × Solution) :=
  (evaluator.named.getD []).flatMap fun graph =>
    (evaluator.evalIn graph.2 inner layout).map fun row => (graph, row)

theorem mem_answers {answer : (UInt32 × TripleStore) × Solution} :
    answer ∈ evaluator.answers inner layout ↔
      answer.1 ∈ evaluator.named.getD [] ∧ answer.2 ∈ evaluator.evalIn answer.1.2 inner layout := by
  obtain ⟨graph, row⟩ := answer
  rw [answers, List.mem_flatMap]
  constructor
  · intro ⟨other, isGraph, member⟩
    obtain ⟨found, isRow, equal⟩ := List.mem_map.mp member
    obtain ⟨rfl, rfl⟩ := Prod.mk.inj equal
    exact ⟨isGraph, isRow⟩
  · intro ⟨isGraph, isRow⟩
    exact ⟨graph, isGraph, List.mem_map_of_mem isRow⟩

theorem graphSolutions_eq :
    evaluator.graphSolutions name inner layout =
      (evaluator.answers inner layout).filterMap fun answer =>
        bindTo name (evaluator.dict.idToString answer.1.1) (evaluator.denote layout answer.2) := by
  rw [answers, List.filterMap_flatMap]
  refine List.flatMap_congr fun graph _ => ?_
  rw [boundSolutions, List.filterMap_map, List.filterMap_map]
  rfl

theorem evalGraph_var (isSlot : layout.index name = some slot) :
    evaluator.evalGraph (.var name) inner layout =
      .ok ((evaluator.named.getD []).flatMap fun graph =>
        (evaluator.evalIn graph.2 inner layout).map fun row =>
          row.set slot (some (.stored graph.1))) := by
  rw [evalGraph]
  cases evaluator.named with
  | none => rfl
  | some named => simp [isSlot]

/-- The rows are the solutions exactly if the assignment changes no binding. -/
theorem map_denote_eq_iff (isSlot : layout.index name = some slot) :
    ((evaluator.named.getD []).flatMap fun graph =>
        (evaluator.evalIn graph.2 inner layout).map fun row =>
          row.set slot (some (.stored graph.1))).map (evaluator.denote layout) =
      evaluator.graphSolutions name inner layout ↔
    evaluator.Consistent name slot inner layout := by
  have rows : ((evaluator.named.getD []).flatMap fun graph =>
        (evaluator.evalIn graph.2 inner layout).map fun row =>
          row.set slot (some (.stored graph.1))).map (evaluator.denote layout) =
      (evaluator.answers inner layout).map fun answer =>
        evaluator.denote layout (answer.2.set slot (some (.stored answer.1.1))) := by
    rw [answers, List.map_flatMap, List.map_flatMap]
    refine List.flatMap_congr fun graph _ => ?_
    rw [List.map_map, List.map_map]
    rfl
  rw [rows, graphSolutions_eq, map_eq_filterMap_iff]
  have pointwise : ∀ answer ∈ evaluator.answers inner layout,
      (bindTo name (evaluator.dict.idToString answer.1.1) (evaluator.denote layout answer.2) =
          some (evaluator.denote layout (answer.2.set slot (some (.stored answer.1.1))))) ↔
        (evaluator.denote layout answer.2 name = none ∨
          evaluator.denote layout answer.2 name = evaluator.dict.idToString answer.1.1) ∧
        evaluator.resolveString (.stored answer.1.1) (layout.isPred.getD slot false) =
          evaluator.dict.idToString answer.1.1 := by
    intro answer member
    have isRow := (mem_answers.mp member).2
    rw [denote_set isSlot (evaluator.fits _ _ _ answer.2 isRow)]
    exact bindTo_eq_some_iff
  constructor
  · intro equal graph isGraph row isRow
    have member : (graph, row) ∈ evaluator.answers inner layout :=
      mem_answers.mpr ⟨isGraph, isRow⟩
    exact (pointwise _ member).mp (equal _ member)
  · intro consistent answer member
    obtain ⟨isGraph, isRow⟩ := mem_answers.mp member
    exact (pointwise answer member).mpr (consistent answer.1 isGraph answer.2 isRow)

/-- The solutions with the IRI of a graph are those over that graph. -/
theorem filter_graphSolutions (key : Text) :
    (evaluator.graphSolutions name inner layout).filter
        (fun solution => solution name = some key) =
      (evaluator.named.getD []).flatMap fun graph =>
        if evaluator.dict.idToString graph.1 = some key then
          evaluator.boundSolutions name (some key) graph.2 inner layout
        else [] := by
  rw [graphSolutions, List.filter_flatMap]
  refine List.flatMap_congr fun graph _ => ?_
  have named : ∀ solution ∈ evaluator.boundSolutions name (evaluator.dict.idToString graph.1)
      graph.2 inner layout, solution name = evaluator.dict.idToString graph.1 := by
    intro solution member
    obtain ⟨before, -, bound⟩ := List.mem_filterMap.mp member
    exact bindTo_name bound
  split
  · rename_i same
    rw [← same]
    refine List.filter_eq_self.mpr fun solution member => ?_
    rw [named solution member, decide_eq_true_eq]
  · rename_i different
    refine List.filter_eq_nil_iff.mpr fun solution member => ?_
    rwa [named solution member, decide_eq_true_eq]

/-- `GRAPH <iri>` looks at the graph that has the key of the IRI. -/
theorem evalGraph_iri (iri : Text) :
    ∃ only, evaluator.evalGraph (.iri iri) inner layout = .ok only ∧
      (only.map (evaluator.denote layout)).filterMap (bindTo name (some (Term.iri iri).dictKey)) =
        (evaluator.named.getD []).flatMap fun graph =>
          if evaluator.dict.idToString graph.1 = some (Term.iri iri).dictKey then
            evaluator.boundSolutions name (some (Term.iri iri).dictKey) graph.2 inner layout
          else [] := by
  have sameKey : ∀ graph ∈ evaluator.named.getD [],
      (evaluator.dict.idToString graph.1 = some (Term.iri iri).dictKey ↔
        evaluator.dict.entityId (Term.iri iri).dictKey = some graph.1) := by
    intro graph isGraph
    obtain ⟨other, known⟩ := evaluator.isIri graph isGraph
    constructor
    · intro shown
      rw [Dictionary.idToString_of_entityId evaluator.valid known, Option.some.injEq] at shown
      rwa [← shown]
    · exact Dictionary.idToString_of_entityId evaluator.valid
  cases isNamed : evaluator.named with
  | none => exact ⟨[], by rw [evalGraph, isNamed], by rw [Option.getD_none]; rfl⟩
  | some named =>
    rw [isNamed, Option.getD_some] at sameKey
    rw [Option.getD_some]
    cases known : evaluator.dict.entityId (Term.iri iri).dictKey with
    | none =>
      refine ⟨[], by simp [evalGraph, isNamed, known], ?_⟩
      rw [List.map_nil, List.filterMap_nil, eq_comm, List.flatMap_eq_nil_iff]
      intro graph isGraph
      rw [if_neg]
      rw [sameKey graph isGraph, known]
      exact (Option.some_ne_none _).symm
    | some gid =>
      have unique := evaluator.nodup_named
      rw [isNamed, Option.getD_some] at unique
      have pieces : (named.flatMap fun graph =>
            if evaluator.dict.idToString graph.1 = some (Term.iri iri).dictKey then
              evaluator.boundSolutions name (some (Term.iri iri).dictKey) graph.2 inner layout
            else []) =
          named.flatMap fun graph => if graph.1 = gid then
            evaluator.boundSolutions name (some (Term.iri iri).dictKey) graph.2 inner layout
          else [] := by
        refine List.flatMap_congr fun graph isGraph => ?_
        have same := sameKey graph isGraph
        rw [known, Option.some.injEq, eq_comm (a := gid)] at same
        simp only [same]
      rw [pieces, flatMap_if_fst_eq named unique gid fun store =>
        evaluator.boundSolutions name (some (Term.iri iri).dictKey) store inner layout]
      cases found : named.lookup gid with
      | none => exact ⟨[], by simp [evalGraph, isNamed, known, found], rfl⟩
      | some store =>
        exact ⟨_, by simp only [evalGraph, isNamed, known, found], rfl⟩

/-- `GRAPH ?g` ranges over the named graphs exactly if no inner solution binds the variable to
anything but the IRI of its graph. -/
theorem ranges_iff (isSlot : layout.index name = some slot) :
    evaluator.RangesOverGraphs name inner layout ↔
      evaluator.Consistent name slot inner layout := by
  rw [← map_denote_eq_iff isSlot]
  constructor
  · intro ranges
    obtain ⟨rows, evaluated, equal⟩ := ranges.solutions
    rw [evalGraph_var isSlot] at evaluated
    rwa [← Except.ok.inj evaluated] at equal
  · intro equal
    refine ⟨⟨_, evalGraph_var isSlot, equal⟩, fun iri => ?_⟩
    obtain ⟨only, evaluated, solutions⟩ :=
      @evalGraph_iri _ _ evaluator layout name inner iri
    refine ⟨_, only, evalGraph_var isSlot, evaluated, ?_⟩
    rw [equal, filter_graphSolutions, solutions]

/-! ## Inline values over one graph -/

theorem length_bindCell (dict : Dictionary) (layout : VarLayout) (row : Solution)
    (cell : Text × Option Term) : (bindCell dict layout row cell).length = row.length := by
  rw [bindCell]
  split
  · exact List.length_set
  · rfl

theorem length_evalValues {dict : Dictionary} {vars : List Text}
    {rows : List (List (Option Term))} {layout : VarLayout} {row : Solution}
    (member : row ∈ evalValues dict vars rows layout) : row.length = layout.names.length := by
  have along : ∀ (cells : List (Text × Option Term)) (start : Solution),
      (cells.foldl (bindCell dict layout) start).length = start.length := by
    intro cells
    induction cells with
    | nil => exact fun _ => rfl
    | cons cell rest induction =>
      intro start
      rw [List.foldl_cons, induction, length_bindCell]
  obtain ⟨cells, -, rfl⟩ := List.mem_map.mp member
  rw [along, List.length_replicate]

theorem onlyGraph_isIri : ∀ graph ∈ [((0 : UInt32), TripleStore.new)], ∃ iri : Text,
    (GroupEvaluator.dictOf [.iri "a".toList]).entityId (Term.iri iri).dictKey = some graph.1 := by
  intro graph isGraph
  rw [List.mem_singleton.mp isGraph]
  exact ⟨"a".toList, by decide⟩

/-- One graph without triples, of the name `<a>`. -/
def overGraph : GraphEvaluator Term Unit where
  toEvaluator := { overTerms with dict := GroupEvaluator.dictOf [.iri "a".toList] }
  valid := GroupEvaluator.dictOf_valid _
  named := some [(0, .new)]
  ascending := List.pairwise_singleton _ _
  isIri := onlyGraph_isIri
  evalIn := fun _ inner layout =>
    match inner, layout with
    | .values vars rows, layout =>
      evalValues (GroupEvaluator.dictOf [.iri "a".toList]) vars rows layout
    | _, _ => []
  fits := by
    intro store inner layout row member
    split at member
    · exact length_evalValues member
    · cases member

def valuesG (iri : String) : GraphPattern := .values ["g".toList] [[some (.iri iri.toList)]]

def layoutG : VarLayout := { names := ["g".toList], isPred := [false] }

theorem ranges_own_name : overGraph.RangesOverGraphs "g".toList (valuesG "a") layoutG := by
  have isSlot : layoutG.index "g".toList = some 0 := by decide
  refine (ranges_iff isSlot).mpr fun graph isGraph row isRow => ?_
  obtain rfl := List.mem_singleton.mp isGraph
  obtain rfl := List.mem_singleton.mp isRow
  decide

/-- `GRAPH ?g { VALUES ?g { <b> } }` answers `<a>`. -/
theorem other_name_overwritten :
    ¬ overGraph.RangesOverGraphs "g".toList (valuesG "b") layoutG := by
  intro ranges
  obtain ⟨rows, evaluated, equal⟩ := ranges.solutions
  have one : rows.length = 1 := by
    rw [← Except.ok.inj evaluated]
    decide
  have none_ : (overGraph.graphSolutions "g".toList (valuesG "b") layoutG).length = 0 := by
    decide
  rw [← equal, List.length_map, one] at none_
  cases none_

end GraphEvaluator

end GStore.Query
