import GStore.Query.Candidates
import GStore.Query.PushDown

/-! # Solutions of a basic graph pattern

Whatever the plan, the rows of a basic graph pattern are the assignments of ids to its variables
under which every pattern is a stored triple, each once. -/

namespace GStore.Query

open Dict GStore.Parser Store

variable {width : ℕ} {source : TripleSource} {triples : Finset IdTriple} {plan : PatPlan width}
  {plans : List (PatPlan width)} {cands : Candidates width} {binding row : Row width}
  {triple : IdTriple}

/-! ## Extension -/

/-- The row keeps the ids of the binding and has further ones only at some variables. -/
def Extends (fresh : Fin width → Prop) (binding row : Row width) : Prop :=
  ∀ index, row index = binding index ∨ (binding index = none ∧ fresh index)

theorem Extends.refl (fresh : Fin width → Prop) (row : Row width) : Extends fresh row row :=
  fun _ => .inl rfl

theorem Extends.trans {first second third : Row width} {some_ others : Fin width → Prop}
    (near : Extends some_ first second) (far : Extends others second third) :
    Extends (fun index => some_ index ∨ others index) first third := by
  intro index
  rcases far index with same | ⟨empty, fresh⟩
  · rw [same]
    exact (near index).imp_right (And.imp_right .inl)
  · rcases near index with same | ⟨before, -⟩
    · exact .inr ⟨same ▸ empty, .inr fresh⟩
    · exact .inr ⟨before, .inr fresh⟩

theorem Extends.keeps {fresh : Fin width → Prop} (extends_ : Extends fresh binding row)
    {index : Fin width} {id : UInt32} (held : binding index = some id) : row index = some id := by
  rcases extends_ index with same | ⟨empty, -⟩
  · rw [same, held]
  · rw [empty] at held
    cases held

theorem Extends.slotKnown {fresh : Fin width → Prop} (extends_ : Extends fresh binding row)
    {slot : Slot width} {id : UInt32} (known : slotKnown slot binding = some id) :
    slotKnown slot row = some id := by
  cases slot with
  | const value => exact known
  | var index => exact extends_.keeps known

theorem unify_eq_some_iff {slot : Slot width} {value : UInt32} :
    unify binding slot value = some row ↔
      slotKnown slot row = some value ∧ Extends (fun index => slot = .var index) binding row := by
  cases slot with
  | const id =>
    rw [unify, slotKnown, Option.some.injEq]
    constructor
    · intro unified
      split at unified
      · rename_i same
        obtain rfl := Option.some.inj unified
        exact ⟨same, .refl _ _⟩
      · cases unified
    · rintro ⟨same, extends_⟩
      rw [if_pos same, Option.some.injEq]
      funext index
      exact ((extends_ index).resolve_right fun fresh => by cases fresh.2).symm
  | var index =>
    rw [unify, slotKnown]
    constructor
    · intro unified
      split at unified
      · rename_i existing held
        split at unified
        · rename_i same
          obtain rfl := Option.some.inj unified
          exact ⟨same ▸ held, .refl _ _⟩
        · cases unified
      · rename_i empty
        obtain rfl := Option.some.inj unified
        refine ⟨Function.update_self _ _ _, fun other => ?_⟩
        by_cases same : other = index
        · exact .inr ⟨same ▸ empty, congrArg Slot.var same.symm⟩
        · exact .inl (Function.update_of_ne same _ _)
    · rintro ⟨held, extends_⟩
      have others : ∀ other, other ≠ index → row other = binding other := fun other different =>
        (extends_ other).resolve_right fun fresh => different (Slot.var.inj fresh.2).symm
      cases before : binding index with
      | some existing =>
        have kept := extends_.keeps before
        dsimp only
        rw [if_pos (Option.some.inj (kept.symm.trans held)), Option.some.injEq]
        funext other
        by_cases same : other = index
        · rw [same, before, kept]
        · exact (others other same).symm
      | none =>
        dsimp only
        rw [Option.some.injEq]
        funext other
        by_cases same : other = index
        · rw [same, Function.update_self, held]
        · rw [Function.update_of_ne same, others other same]

def PatPlan.Has (plan : PatPlan width) (index : Fin width) : Prop :=
  plan.s = .var index ∨ plan.p = .var index ∨ plan.o = .var index

/-- The row with the ids of another one at some variables. -/
theorem exists_between {some_ others : Fin width → Prop}
    (extends_ : Extends (fun index => some_ index ∨ others index) binding row) :
    ∃ middle, Extends some_ binding middle ∧ Extends others middle row ∧
      ∀ index, some_ index → middle index = row index := by
  classical
  refine ⟨fun index => if some_ index then row index else binding index, ?_, ?_, ?_⟩
  · intro index
    dsimp only
    by_cases inside : some_ index
    · rw [if_pos inside]
      exact (extends_ index).imp_right fun fresh => ⟨fresh.1, inside⟩
    · rw [if_neg inside]
      exact .inl rfl
  · intro index
    dsimp only
    by_cases inside : some_ index
    · rw [if_pos inside]
      exact .inl rfl
    · rw [if_neg inside]
      exact (extends_ index).imp_right fun fresh => ⟨fresh.1, fresh.2.resolve_left inside⟩
  · exact fun index inside => if_pos inside

theorem slotKnown_congr {slot : Slot width} {left right : Row width}
    (same : ∀ index, slot = .var index → left index = right index) :
    slotKnown slot left = slotKnown slot right := by
  cases slot with
  | const id => rfl
  | var index => exact same index rfl

/-- A triple extends a binding to the rows that make it of the pattern. -/
theorem unifyTriple_eq_some_iff : unifyTriple plan binding triple = some row ↔
      plan.Makes row triple ∧ Extends plan.Has binding row := by
  rw [unifyTriple]
  simp only [Option.bind_eq_bind, Option.bind_eq_some_iff, unify_eq_some_iff]
  constructor
  · rintro ⟨first, ⟨sub, near⟩, second, ⟨pred, middle⟩, obj, far⟩
    exact ⟨⟨far.slotKnown (middle.slotKnown sub), far.slotKnown pred, obj⟩,
      near.trans (middle.trans far)⟩
  · rintro ⟨makes, extends_⟩
    obtain ⟨first, near, rest, sameS⟩ := exists_between extends_
    obtain ⟨second, middle, far, sameP⟩ := exists_between rest
    refine ⟨first, ⟨?_, near⟩, second, ⟨?_, middle⟩, makes.o, far⟩
    · rw [slotKnown_congr sameS, makes.s]
    · rw [slotKnown_congr sameP, makes.p]

theorem PatPlan.Makes.unique {row : Row width} {left right : IdTriple}
    (first : plan.Makes row left) (second : plan.Makes row right) : left = right := by
  have sub := Option.some.inj (first.s.symm.trans second.s)
  have pred := Option.some.inj (first.p.symm.trans second.p)
  have obj := Option.some.inj (first.o.symm.trans second.o)
  cases left
  cases right
  exact congr (congr (congrArg IdTriple.mk sub) pred) obj

/-- The row makes the triple of the pattern, with a candidate as its subject and its object. -/
def PatPlan.Takes (plan : PatPlan width) (cands : Candidates width) (row : Row width)
    (triple : IdTriple) : Prop :=
  plan.Makes row triple ∧ (candOk plan.s triple.sub cands && candOk plan.o triple.obj cands) = true

variable (plan cands) in
/-- The extensions of a row are all rows that make a stored triple of candidates. -/
theorem extend_spec (describes : source.Describes triples) (binding : Row width) :
    (extend source plan cands binding).Nodup ∧
      ∀ row, row ∈ extend source plan cands binding ↔
        (∃ triple ∈ triples, plan.Takes cands row triple) ∧ Extends plan.Has binding row := by
  have perm := extend_perm plan cands describes binding
  have unified : ∀ triple row, extendBy plan cands binding triple = some row ↔
      plan.Takes cands row triple ∧ Extends plan.Has binding row := by
    intro triple row
    rw [extendBy, PatPlan.Takes]
    split
    · rename_i ok
      simp [unifyTriple_eq_some_iff, ok]
    · rename_i ok
      simp [ok]
  constructor
  · rw [perm.nodup_iff]
    refine triples.nodup_toList.filterMap ?_
    intro left right row isLeft isRight
    exact ((unified left row).mp isLeft).1.1.unique ((unified right row).mp isRight).1.1
  · intro row
    rw [perm.mem_iff, List.mem_filterMap]
    simp only [Finset.mem_toList, unified]
    constructor
    · rintro ⟨triple, stored, makes, extends_⟩
      exact ⟨⟨triple, stored, makes⟩, extends_⟩
    · rintro ⟨⟨triple, stored, makes⟩, extends_⟩
      exact ⟨triple, stored, makes, extends_⟩

/-! ## The pipeline -/

theorem solves_cons {row : Row width} :
    Solves triples (plan :: plans) row ↔
      (∃ triple ∈ triples, plan.Makes row triple) ∧ Solves triples plans row :=
  List.forall_mem_cons

/-- Every pattern is a triple of candidates under the row. -/
def SolvesAmong (triples : Finset IdTriple) (cands : Candidates width)
    (plans : List (PatPlan width)) (row : Row width) : Prop :=
  ∀ plan ∈ plans, ∃ triple ∈ triples, plan.Takes cands row triple

/-- The variables of a list of patterns. -/
def HasAny (plans : List (PatPlan width)) (index : Fin width) : Prop :=
  ∃ plan ∈ plans, plan.Has index

theorem hasAny_cons {index : Fin width} :
    HasAny (plan :: plans) index ↔ plan.Has index ∨ HasAny plans index := by
  rw [HasAny, List.exists_mem_cons_iff]
  rfl

/-- The rows have ids for the same variables. -/
def BindSame (rows : List (Row width)) (bound : Fin width → Prop) : Prop :=
  ∀ row ∈ rows, ∀ index, row index ≠ none ↔ bound index

theorem PatPlan.Makes.bound {row : Row width} (makes : plan.Makes row triple) {index : Fin width}
    (has : plan.Has index) : row index ≠ none := by
  intro empty
  rcases has with isSlot | isSlot | isSlot
  · have sub := makes.s
    rw [isSlot, slotKnown, empty] at sub
    cases sub
  · have pred := makes.p
    rw [isSlot, slotKnown, empty] at pred
    cases pred
  · have obj := makes.o
    rw [isSlot, slotKnown, empty] at obj
    cases obj

theorem PatPlan.Makes.congr {left right : Row width} (makes : plan.Makes right triple)
    (same : ∀ index, plan.Has index → left index = right index) : plan.Makes left triple where
  s := (slotKnown_congr fun index isSlot => same index (.inl isSlot)).trans makes.s
  p := (slotKnown_congr fun index isSlot => same index (.inr (.inl isSlot))).trans makes.p
  o := (slotKnown_congr fun index isSlot => same index (.inr (.inr isSlot))).trans makes.o

theorem PatPlan.Makes.extends_ {fresh : Fin width → Prop} (makes : plan.Makes binding triple)
    (extends_ : Extends fresh binding row) : plan.Makes row triple where
  s := extends_.slotKnown makes.s
  p := extends_.slotKnown makes.p
  o := extends_.slotKnown makes.o

variable (plan cands) in
/-- One step of the pipeline. -/
theorem flatMap_extend_spec (describes : source.Describes triples) {rows : List (Row width)}
    {bound : Fin width → Prop} (nodup : rows.Nodup) (same : BindSame rows bound) :
    (rows.flatMap (extend source plan cands)).Nodup ∧
      BindSame (rows.flatMap (extend source plan cands))
        fun index => bound index ∨ plan.Has index := by
  have spec := extend_spec plan cands describes
  constructor
  · refine List.nodup_flatMap.mpr ⟨fun binding _ => (spec binding).1, ?_⟩
    refine (List.Pairwise.and_mem.mp nodup).imp ?_
    intro left right ⟨inLeft, inRight, different⟩ row fromLeft fromRight
    have extendsLeft := (((spec left).2 row).mp fromLeft).2
    have extendsRight := (((spec right).2 row).mp fromRight).2
    refine different (funext fun index => ?_)
    have alike := (same left inLeft index).trans (same right inRight index).symm
    cases held : left index with
    | some id =>
      cases other : right index with
      | some value => rw [← extendsLeft.keeps held, ← extendsRight.keeps other]
      | none => exact absurd other (alike.mp (by rw [held]; exact Option.some_ne_none id))
    | none =>
      cases other : right index with
      | some value => exact absurd held (alike.mpr (by rw [other]; exact Option.some_ne_none value))
      | none => rfl
  · intro row member index
    obtain ⟨binding, inRows, extended⟩ := List.mem_flatMap.mp member
    obtain ⟨⟨triple, -, makes⟩, extends_⟩ := ((spec binding).2 row).mp extended
    dsimp only
    rw [← same binding inRows index]
    constructor
    · intro filled
      rcases extends_ index with unchanged | ⟨-, has⟩
      · exact .inl (unchanged ▸ filled)
      · exact .inr has
    · rintro (filled | has)
      · obtain ⟨id, held⟩ := Option.ne_none_iff_exists'.mp filled
        rw [extends_.keeps held]
        exact Option.some_ne_none id
      · exact makes.1.bound has

variable (cands) in
/-- The rows of the pipeline extend its first rows to solutions of the patterns. -/
theorem runOrder_spec (describes : source.Describes triples) (plans : List (PatPlan width))
    {rows : List (Row width)} {bound : Fin width → Prop} (nodup : rows.Nodup)
    (same : BindSame rows bound) :
    (runOrder source cands plans rows).Nodup ∧
      ∀ row, row ∈ runOrder source cands plans rows ↔
        SolvesAmong triples cands plans row ∧
          ∃ binding ∈ rows, Extends (HasAny plans) binding row := by
  induction plans generalizing rows bound with
  | nil =>
    refine ⟨nodup, fun row => ?_⟩
    rw [runOrder]
    constructor
    · exact fun member => ⟨List.forall_mem_nil _, row, member, .refl _ row⟩
    · rintro ⟨_, binding, member, extends_⟩
      have unchanged : row = binding := funext fun index =>
        (extends_ index).resolve_right fun fresh => by
          obtain ⟨_, inNil, -⟩ := fresh.2
          cases inNil
      exact unchanged ▸ member
  | cons plan rest induction =>
    obtain ⟨nextNodup, nextSame⟩ := flatMap_extend_spec plan cands describes nodup same
    obtain ⟨restNodup, restMem⟩ := induction nextNodup nextSame
    rw [runOrder_cons]
    refine ⟨restNodup, fun row => ?_⟩
    rw [restMem, SolvesAmong, SolvesAmong, List.forall_mem_cons]
    have fresh : HasAny (plan :: rest) = fun index => plan.Has index ∨ HasAny rest index :=
      funext fun index => propext hasAny_cons
    rw [fresh]
    have spec := extend_spec plan cands describes
    constructor
    · rintro ⟨solves, middle, member, far⟩
      obtain ⟨binding, inRows, extended⟩ := List.mem_flatMap.mp member
      obtain ⟨⟨triple, stored, makes⟩, near⟩ := ((spec binding).2 middle).mp extended
      exact ⟨⟨⟨triple, stored, makes.1.extends_ far, makes.2⟩, solves⟩, binding, inRows,
        near.trans far⟩
    · rintro ⟨⟨⟨triple, stored, makes, ok⟩, solves⟩, binding, inRows, extends_⟩
      obtain ⟨middle, near, far, unchanged⟩ := exists_between extends_
      refine ⟨solves, middle, List.mem_flatMap.mpr ⟨binding, inRows, ?_⟩, far⟩
      exact ((spec binding).2 middle).mpr ⟨⟨triple, stored, makes.congr unchanged, ok⟩, near⟩

/-! ## Plans -/

/-- The parts of a solution are candidates. -/
theorem solvesAmong_iff (keeps : Keeps triples plans cands) {row : Row width} :
    SolvesAmong triples cands plans row ↔ Solves triples plans row := by
  constructor
  · intro solves plan member
    obtain ⟨triple, stored, makes, -⟩ := solves plan member
    exact ⟨triple, stored, makes⟩
  · intro solves plan member
    obtain ⟨triple, stored, makes⟩ := solves plan member
    have candidate : ∀ {slot : Slot width} {value : UInt32},
        slotKnown slot row = some value → candOk slot value cands = true := by
      intro slot value known
      cases slot with
      | const id => rfl
      | var index => exact allowed_iff.mp (keeps row solves) index value known
    exact ⟨triple, stored, makes, by rw [candidate makes.s, candidate makes.o]; rfl⟩

/-- A plan returns the solutions of its patterns that bind their variables only, each once. -/
theorem runPlan_spec (describes : source.Describes triples) (keeps : Keeps triples plans cands)
    (chosen : ExecPlan plans.length) :
    (runPlan source cands plans chosen).Nodup ∧
      ∀ row, row ∈ runPlan source cands plans chosen ↔
        Solves triples plans row ∧ ∀ index, row index ≠ none → HasAny plans index := by
  have perm := runPlan_perm cands describes chosen
    ⟨List.finRange plans.length, none, .refl _, fun _ impossible => by cases impossible⟩
  change (runPlan source cands plans chosen).Perm
    (runOrder source cands ((List.finRange plans.length).map plans.get) [unboundRow width]) at perm
  rw [List.map_get_finRange] at perm
  have unbound : BindSame [unboundRow width] fun _ => False := by
    intro row member index
    simp [List.mem_singleton.mp member, unboundRow]
  obtain ⟨nodup, members⟩ := runOrder_spec cands describes plans
    (List.nodup_singleton (unboundRow width)) unbound
  refine ⟨perm.nodup_iff.mpr nodup, fun row => ?_⟩
  rw [perm.mem_iff, members, solvesAmong_iff keeps]
  refine and_congr_right fun _ => ?_
  simp only [List.mem_singleton, exists_eq_left]
  refine forall_congr' fun index => ?_
  by_cases empty : row index = none
  · simp [empty, unboundRow]
  · simp [empty, unboundRow]

/-! ## The patterns of a query -/

namespace BgpEngine

variable {Double Key : Type}

section Define

variable (engine : BgpEngine Double Key) (layout : VarLayout)

/-- The id of a subject or an object under a row. -/
def nodeId (row : Row layout.names.length) : PatternTerm → Option UInt32
  | .var name => (layout.slot? name).bind row
  | .term term => engine.base.dict.termId term

/-- The id of a predicate under a row. -/
def predicateId (row : Row layout.names.length) : PatternTerm → Option UInt32
  | .var name => (layout.slot? name).bind row
  | .term (.iri iri) => engine.base.dict.predicateId (Term.iri iri).dictKey
  | .term _ => none

/-- The pattern is the triple under the row. -/
structure Instantiates (row : Row layout.names.length) (pattern : TriplePattern)
    (triple : IdTriple) : Prop where
  subject : engine.nodeId layout row pattern.subject = some triple.sub
  predicate : engine.predicateId layout row pattern.predicate = some triple.pred
  object : engine.nodeId layout row pattern.object = some triple.obj

/-- Under the row every pattern is a stored triple, and no other variable has an id. -/
structure BgpSolution (patterns : List TriplePattern) (row : Row layout.names.length) : Prop where
  stored : ∀ pattern ∈ patterns, ∃ triple ∈ engine.triples,
    engine.Instantiates layout row pattern triple
  bound : ∀ index, row index ≠ none →
    ∃ pattern ∈ patterns, ∃ name ∈ pattern.vars, layout.slot? name = some index

noncomputable def bgpSolutions (patterns : List TriplePattern) :
    Multiset (Row layout.names.length) :=
  (Set.toFinite {row | engine.BgpSolution layout patterns row}).toFinset.val

/-- The engine with the candidates of the edges and of a signature index. -/
def withCandidates (selective : ℕ → ℕ → Bool)
    (filter : Signature → Option (List UInt32)) : BgpEngine Double Key :=
  { engine with
    candidates := fun plans =>
      refineWithVstree filter plans (generate engine.source selective plans) }

/-- No candidate set loses a solution. -/
def KeepsSolutions : Prop :=
  ∀ plans : List (PatPlan layout.names.length),
    Keeps engine.triples plans (engine.candidates plans)

end Define

section Compile

variable {engine : BgpEngine Double Key} {layout : VarLayout} {patterns : List TriplePattern}

theorem keepsSolutions_withCandidates (selective : ℕ → ℕ → Bool)
    {filter : Signature → Option (List UInt32)}
    (filters : Signature.Filters filter (Signature.vstreeEntries engine.source)) :
    (engine.withCandidates selective filter).KeepsSolutions layout :=
  fun plans => (generate_keeps engine.describes selective plans).refineWithVstree
    engine.describes filters

variable (engine layout) in
theorem compileNodeSlot_spec {term : PatternTerm}
    (known : ∀ name, term.var? = some name → name ∈ layout.names) :
    ∃ slot, engine.compileNodeSlot layout term = .ok slot ∧
      (∀ row, engine.nodeId layout row term = slot.bind (slotKnown · row)) ∧
      ∀ index, slot = some (.var index) ↔
        ∃ name, term.var? = some name ∧ layout.slot? name = some index := by
  cases term with
  | var name =>
    obtain ⟨slot, isSlot⟩ : ∃ slot, layout.slot? name = some slot := ⟨_, dif_pos (List.contains_iff_mem.mpr (known name rfl))⟩
    refine ⟨some (.var slot), ?_, fun row => ?_, fun index => ?_⟩
    · rw [compileNodeSlot, variableSlot, isSlot]
      rfl
    · rw [nodeId, isSlot]
      rfl
    · simp [PatternTerm.var?, isSlot]
  | term term =>
    refine ⟨(engine.base.dict.termId term).map .const, rfl, fun row => ?_, fun index => ?_⟩
    · rw [nodeId]
      cases engine.base.dict.termId term <;> rfl
    · simp [PatternTerm.var?]

variable (engine layout) in
theorem compilePredSlot_spec {term : PatternTerm}
    (known : ∀ name, term.var? = some name → name ∈ layout.names) :
    ∃ slot, engine.compilePredSlot layout term = .ok slot ∧
      (∀ row, engine.predicateId layout row term = slot.bind (slotKnown · row)) ∧
      ∀ index, slot = some (.var index) ↔
        ∃ name, term.var? = some name ∧ layout.slot? name = some index := by
  cases term with
  | var name => exact compileNodeSlot_spec engine layout known
  | term term =>
    cases term with
    | iri iri =>
      refine ⟨(engine.base.dict.predicateId (Term.iri iri).dictKey).map .const, rfl,
        fun row => ?_, fun index => ?_⟩
      · rw [predicateId]
        cases engine.base.dict.predicateId (Term.iri iri).dictKey <;> rfl
      · simp [PatternTerm.var?]
    | _ => exact ⟨none, rfl, fun row => rfl, fun index => by simp [PatternTerm.var?]⟩

/-- The plan stands for the pattern. -/
structure Compiles (engine : BgpEngine Double Key) (layout : VarLayout) (pattern : TriplePattern)
    (plan : PatPlan layout.names.length) : Prop where
  instantiates : ∀ row triple,
    engine.Instantiates layout row pattern triple ↔ plan.Makes row triple
  has : ∀ index, plan.Has index ↔ ∃ name ∈ pattern.vars, layout.slot? name = some index

theorem mem_vars {pattern : TriplePattern} {name : Text} :
    name ∈ pattern.vars ↔ pattern.subject.var? = some name ∨ pattern.predicate.var? = some name ∨
      pattern.object.var? = some name := by
  simp [TriplePattern.vars]

variable (engine) in
theorem compilePattern_spec {pattern : TriplePattern}
    (known : ∀ name ∈ pattern.vars, name ∈ layout.names) :
    (∃ plan, engine.compilePattern layout pattern = .ok (some plan) ∧
      engine.Compiles layout pattern plan) ∨
    (engine.compilePattern layout pattern = .ok none ∧
      ∀ row triple, ¬ engine.Instantiates layout row pattern triple) := by
  obtain ⟨s, isS, idS, varS⟩ := compileNodeSlot_spec engine layout
    fun name isVar => known name (mem_vars.mpr (.inl isVar))
  obtain ⟨p, isP, idP, varP⟩ := compilePredSlot_spec engine layout
    fun name isVar => known name (mem_vars.mpr (.inr (.inl isVar)))
  obtain ⟨o, isO, idO, varO⟩ := compileNodeSlot_spec engine layout
    fun name isVar => known name (mem_vars.mpr (.inr (.inr isVar)))
  rw [compilePattern, isS]
  cases s with
  | none =>
    refine .inr ⟨rfl, fun row triple instantiates => ?_⟩
    have subject := instantiates.subject
    rw [idS] at subject
    cases subject
  | some s =>
    change (∃ plan, (engine.compilePredSlot layout pattern.predicate >>= _) = _ ∧ _) ∨
      ((engine.compilePredSlot layout pattern.predicate >>= _) = _ ∧ _)
    rw [isP]
    cases p with
    | none =>
      refine .inr ⟨rfl, fun row triple instantiates => ?_⟩
      have predicate := instantiates.predicate
      rw [idP] at predicate
      cases predicate
    | some p =>
      change (∃ plan, (engine.compileNodeSlot layout pattern.object >>= _) = _ ∧ _) ∨
        ((engine.compileNodeSlot layout pattern.object >>= _) = _ ∧ _)
      rw [isO]
      cases o with
      | none =>
        refine .inr ⟨rfl, fun row triple instantiates => ?_⟩
        have object := instantiates.object
        rw [idO] at object
        cases object
      | some o =>
        refine .inl ⟨⟨s, p, o⟩, rfl, fun row triple => ?_, fun index => ?_⟩
        · constructor
          · rintro ⟨subject, predicate, object⟩
            exact ⟨(idS row).symm.trans subject, (idP row).symm.trans predicate,
              (idO row).symm.trans object⟩
          · rintro ⟨subject, predicate, object⟩
            exact ⟨(idS row).trans subject, (idP row).trans predicate,
              (idO row).trans object⟩
        · have slots : (⟨s, p, o⟩ : PatPlan layout.names.length).Has index ↔
              some s = some (.var index) ∨ some p = some (.var index) ∨
                some o = some (.var index) := by
            rw [Option.some.injEq, Option.some.injEq, Option.some.injEq]
            rfl
          rw [slots, varS, varP, varO]
          simp only [mem_vars, or_and_right, exists_or]

variable (engine) in
/-- The patterns are compiled one by one, or one of them has no instance. -/
theorem compilePatterns_spec
    (known : ∀ pattern ∈ patterns, ∀ name ∈ pattern.vars, name ∈ layout.names) :
    (∃ plans, engine.compilePatterns layout patterns = .ok (some plans) ∧
      List.Forall₂ (engine.Compiles layout) patterns plans) ∨
    (engine.compilePatterns layout patterns = .ok none ∧
      ∃ pattern ∈ patterns, ∀ row triple, ¬ engine.Instantiates layout row pattern triple) := by
  induction patterns with
  | nil => exact .inl ⟨[], rfl, .nil⟩
  | cons pattern rest induction =>
    have parts := List.forall_mem_cons.mp known
    rw [compilePatterns]
    rcases compilePattern_spec engine parts.1 with
      ⟨plan, isPlan, compiles⟩ | ⟨isNone, missing⟩
    · rw [isPlan]
      rcases induction parts.2 with ⟨plans, isPlans, all⟩ | ⟨isNone, unmatched⟩
      · refine .inl ⟨plan :: plans, ?_, .cons compiles all⟩
        change (engine.compilePatterns layout rest >>= _) = _
        rw [isPlans]
        rfl
      · refine .inr ⟨?_, ?_⟩
        · change (engine.compilePatterns layout rest >>= _) = _
          rw [isNone]
          rfl
        · rw [List.exists_mem_cons_iff]
          exact .inr unmatched
    · rw [isNone]
      exact .inr ⟨rfl, pattern, List.mem_cons_self, missing⟩

section All

variable {patterns : List TriplePattern} {plans : List (PatPlan layout.names.length)}
  (all : List.Forall₂ (engine.Compiles layout) patterns plans)

include all

theorem stored_iff_solves {row : Row layout.names.length} :
    (∀ pattern ∈ patterns, ∃ triple ∈ engine.triples,
      engine.Instantiates layout row pattern triple) ↔ Solves engine.triples plans row := by
  induction all with
  | nil => exact iff_of_true (List.forall_mem_nil _) (List.forall_mem_nil _)
  | cons compiles rest induction =>
    rw [List.forall_mem_cons, solves_cons, induction]
    simp only [compiles.instantiates]

theorem exists_vars_iff_hasAny {index : Fin layout.names.length} :
    (∃ pattern ∈ patterns, ∃ name ∈ pattern.vars, layout.slot? name = some index) ↔
      HasAny plans index := by
  induction all with
  | nil => exact iff_of_false (by simp) (by simp [HasAny])
  | cons compiles rest induction =>
    rw [List.exists_mem_cons_iff, hasAny_cons, induction, compiles.has]

theorem bgpSolution_iff {row : Row layout.names.length} :
    engine.BgpSolution layout patterns row ↔
      Solves engine.triples plans row ∧ ∀ index, row index ≠ none → HasAny plans index := by
  simp only [← stored_iff_solves all, ← exists_vars_iff_hasAny all]
  constructor
  · rintro ⟨stored, bound⟩
    exact ⟨stored, bound⟩
  · rintro ⟨stored, bound⟩
    exact ⟨stored, bound⟩

end All

theorem mem_bgpSolutions {row : Row layout.names.length} :
    row ∈ engine.bgpSolutions layout patterns ↔ engine.BgpSolution layout patterns row := by
  rw [bgpSolutions, Finset.mem_val, Set.Finite.mem_toFinset]
  rfl

/-- A basic graph pattern is evaluated to its solutions, each once. -/
theorem evalBgpConstrained_rows (keeps : engine.KeepsSolutions layout)
    (known : ∀ pattern ∈ patterns, ∀ name ∈ pattern.vars, name ∈ layout.names) :
    ∃ rows, engine.evalBgpConstrained layout patterns [] = .ok rows ∧ rows.Nodup ∧
      ∀ row, row ∈ rows ↔ engine.BgpSolution layout patterns row := by
  rcases compilePatterns_spec engine known with
    ⟨plans, compiled, all⟩ | ⟨compiled, pattern, member, missing⟩
  · refine ⟨_, evalBgpConstrained_eq compiled [], ?_⟩
    simp only [bgpSolution_iff all]
    rw [Option.elim_some, rowsOf]
    split
    · rename_i empty
      rw [List.isEmpty_iff.mp empty]
      refine ⟨List.nodup_singleton _, fun row => ?_⟩
      rw [List.mem_singleton]
      constructor
      · rintro rfl
        exact ⟨List.forall_mem_nil _, fun index filled => absurd rfl filled⟩
      · rintro ⟨_, bound⟩
        funext index
        by_contra filled
        obtain ⟨plan, inNil, -⟩ := bound index filled
        cases inNil
    · exact runPlan_spec engine.describes (keeps plans) _
  · refine ⟨[], evalBgpConstrained_eq compiled [], List.nodup_nil, fun row => ?_⟩
    refine iff_of_false List.not_mem_nil fun solution => ?_
    obtain ⟨triple, -, instantiates⟩ := solution.stored pattern member
    exact missing row triple instantiates

theorem evalBgpConstrained_solutions (keeps : engine.KeepsSolutions layout)
    (known : ∀ pattern ∈ patterns, ∀ name ∈ pattern.vars, name ∈ layout.names) :
    ∃ rows, engine.evalBgpConstrained layout patterns [] = .ok rows ∧
      (rows : Multiset _) = engine.bgpSolutions layout patterns := by
  obtain ⟨rows, evaluated, nodup, members⟩ := evalBgpConstrained_rows keeps known
  have once : (rows : Multiset (Row layout.names.length)).Nodup := Multiset.coe_nodup.mpr nodup
  refine ⟨rows, evaluated, (Multiset.Nodup.ext once (Finset.nodup _)).mpr fun row => ?_⟩
  exact (members row).trans mem_bgpSolutions.symm

/-- Neither the signature tree, nor the candidates of the edges, nor the plan and its joins change
the answer: whatever the optimizer chooses, the rows are the solutions in the store, each once. -/
theorem evalBgp_exact (engine : BgpEngine Double Key) (selective : ℕ → ℕ → Bool)
    (layout : VarLayout) {patterns : List TriplePattern}
    (known : ∀ pattern ∈ patterns, ∀ name ∈ pattern.vars, name ∈ layout.names) :
    ∃ rows, (engine.withCandidates selective
        (Signature.buildVstree engine.source).candidates).evalBgpConstrained layout patterns [] =
          .ok rows ∧
      rows.Nodup ∧ ∀ row, row ∈ rows ↔ engine.BgpSolution layout patterns row := by
  obtain ⟨rows, evaluated, nodup, members⟩ := evalBgpConstrained_rows
    (keepsSolutions_withCandidates selective (Signature.filters_candidates _)) known
  refine ⟨rows, evaluated, nodup, fun row => (members row).trans ?_⟩
  -- What a solution is has nothing to do with the candidates.
  have same : ∀ pattern triple, (engine.withCandidates selective
      (Signature.buildVstree engine.source).candidates).Instantiates layout row pattern triple ↔
        engine.Instantiates layout row pattern triple :=
    fun pattern triple => ⟨fun ⟨s, p, o⟩ => ⟨s, p, o⟩, fun ⟨s, p, o⟩ => ⟨s, p, o⟩⟩
  constructor
  · refine fun solution => ⟨fun pattern member => ?_, solution.bound⟩
    obtain ⟨triple, stored, instantiates⟩ := solution.stored pattern member
    exact ⟨triple, stored, (same pattern triple).mp instantiates⟩
  · refine fun solution => ⟨fun pattern member => ?_, solution.bound⟩
    obtain ⟨triple, stored, instantiates⟩ := solution.stored pattern member
    exact ⟨triple, stored, (same pattern triple).mpr instantiates⟩

/-- A variable may also stand for a predicate. -/
theorem evalBgp_exact_anyTriple : ∃ rows, ((sampleEngine [⟨0, 0, 1⟩] inOrder).withCandidates
      (fun _ _ => true) (Signature.buildVstree (sampleEngine [⟨0, 0, 1⟩] inOrder).source).candidates
      ).evalBgpConstrained layoutAny anyTriple [] = .ok rows ∧ rows.Nodup ∧
    ∀ row, row ∈ rows ↔ (sampleEngine [⟨0, 0, 1⟩] inOrder).BgpSolution layoutAny anyTriple row :=
  evalBgp_exact _ _ _ (by decide)

end Compile

end BgpEngine

end GStore.Query
