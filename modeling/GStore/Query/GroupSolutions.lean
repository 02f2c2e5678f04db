import GStore.Query.EvalPattern

/-! # The solutions of a group

A group is parsed and evaluated to the solutions of its algebra, unless an `OPTIONAL` takes the
`FILTER` of an inner group. -/

namespace GStore.Query

open GStore.Parser Store

/-! ## The parts of a text -/

mutual

/-- The triple patterns of a group and of all groups in it. -/
def GroupText.patterns : GroupText → List TriplePattern
  | .done => []
  | .dot rest | .filter _ rest => rest.patterns
  | .triples first others rest => first :: others ++ rest.patterns
  | .optional group rest | .minus group rest => group.patterns ++ rest.patterns
  | .groups groups rest => groups.patterns ++ rest.patterns

def GroupOrUnion.patterns : GroupOrUnion → List TriplePattern
  | .one group => group.patterns
  | .union left right => left.patterns ++ right.patterns

end

mutual

/-- The `FILTER`s of a group and of all groups in it. -/
def GroupText.constraints : GroupText → List (Expr GraphPattern)
  | .done => []
  | .dot rest | .triples _ _ rest => rest.constraints
  | .filter constraint rest => constraint :: rest.constraints
  | .optional group rest | .minus group rest => group.constraints ++ rest.constraints
  | .groups groups rest => groups.constraints ++ rest.constraints

def GroupOrUnion.constraints : GroupOrUnion → List (Expr GraphPattern)
  | .one group => group.constraints
  | .union left right => left.constraints ++ right.constraints

end

theorem filters_subset : ∀ group : GroupText, group.filters ⊆ group.constraints
  | .done => List.nil_subset _
  | .dot rest | .triples _ _ rest => filters_subset rest
  | .filter constraint rest => List.cons_subset_cons constraint (filters_subset rest)
  | .optional _ rest | .minus _ rest | .groups _ rest =>
    List.Subset.trans (filters_subset rest) (List.subset_append_right _ _)

section All

variable {P : TriplePattern → Prop} {Q : Expr GraphPattern → Prop}

/-- Every triple pattern and every filter of the tree has a property. -/
def AllOf (P : TriplePattern → Prop) (Q : Expr GraphPattern → Prop) (algebra : Algebra) : Prop :=
  algebra.All (fun patterns => ∀ pattern ∈ patterns, P pattern) Q

theorem allOf_unit : AllOf P Q .unit := trivial

theorem allOf_joinUnlessUnit {left right : Algebra} (inLeft : AllOf P Q left)
    (inRight : AllOf P Q right) : AllOf P Q (joinUnlessUnit left right) := by
  rw [joinUnlessUnit_eq]
  split
  · exact inRight
  · exact ⟨inLeft, inRight⟩

theorem allOf_closed {current : Algebra} {pending : List TriplePattern}
    (before : AllOf P Q current) (patterns : ∀ pattern ∈ pending, P pattern) :
    AllOf P Q (closed joinUnlessUnit current pending) := by
  rw [closed]
  split
  · exact before
  · exact allOf_joinUnlessUnit before patterns

theorem allOf_filtered {filters : List (Expr GraphPattern)} {inner : Algebra}
    (conditions : ∀ filter ∈ filters, Q filter) (all : AllOf P Q inner) :
    AllOf P Q (filtered filters inner) := by
  rw [filtered]
  split
  · exact all
  · exact ⟨conditions, all⟩

theorem allOf_conditionally {current group : Algebra} (before : AllOf P Q current)
    (inside : AllOf P Q group) : AllOf P Q (conditionally current group) := by
  cases group with
  | filter filters inner => exact ⟨before, inside.2, inside.1⟩
  | _ => exact ⟨before, inside, List.forall_mem_nil _⟩

mutual

theorem allOf_joined : ∀ (group : GroupText) {current : Algebra} {pending : List TriplePattern},
    AllOf P Q current → (∀ pattern ∈ pending, P pattern) → (∀ pattern ∈ group.patterns, P pattern) →
    (∀ filter ∈ group.constraints, Q filter) →
    AllOf P Q (group.joined joinUnlessUnit current pending)
  | .done, _, _, before, waiting, _, _ => allOf_closed before waiting
  | .dot rest, _, _, before, waiting, patterns, conditions =>
    allOf_joined rest before waiting patterns conditions
  | .filter _ rest, _, _, before, waiting, patterns, conditions =>
    allOf_joined rest before waiting patterns (List.forall_mem_cons.mp conditions).2
  | .triples first others rest, _, _, before, waiting, patterns, conditions => by
      have parts := List.forall_mem_append.mp patterns
      exact allOf_joined rest before (List.forall_mem_append.mpr ⟨waiting, parts.1⟩) parts.2
        conditions
  | .optional group rest, _, _, before, waiting, patterns, conditions => by
      have parts := List.forall_mem_append.mp patterns
      have filters := List.forall_mem_append.mp conditions
      have inner := allOf_joined group allOf_unit (List.forall_mem_nil _) parts.1
        filters.1
      exact allOf_joined rest (allOf_conditionally (allOf_closed before waiting)
        (allOf_filtered (fun filter member => filters.1 filter (filters_subset group member)) inner))
        (List.forall_mem_nil _) parts.2 filters.2
  | .minus group rest, _, _, before, waiting, patterns, conditions => by
      have parts := List.forall_mem_append.mp patterns
      have filters := List.forall_mem_append.mp conditions
      have inner := allOf_joined group allOf_unit (List.forall_mem_nil _) parts.1
        filters.1
      exact allOf_joined rest ⟨allOf_closed before waiting,
        allOf_filtered (fun filter member => filters.1 filter (filters_subset group member)) inner⟩
        (List.forall_mem_nil _) parts.2 filters.2
  | .groups groups rest, _, _, before, waiting, patterns, conditions => by
      have parts := List.forall_mem_append.mp patterns
      have filters := List.forall_mem_append.mp conditions
      exact allOf_joined rest (allOf_joinUnlessUnit (allOf_closed before waiting)
        (allOf_alternatives groups parts.1 filters.1)) (List.forall_mem_nil _) parts.2 filters.2

theorem allOf_alternatives : ∀ groups : GroupOrUnion, (∀ pattern ∈ groups.patterns, P pattern) →
    (∀ filter ∈ groups.constraints, Q filter) → AllOf P Q (groups.translate joinUnlessUnit)
  | .one group, patterns, conditions =>
    allOf_filtered (fun filter member => conditions filter (filters_subset group member))
      (allOf_joined group allOf_unit (List.forall_mem_nil _) patterns conditions)
  | .union left right, patterns, conditions => by
      have parts := List.forall_mem_append.mp patterns
      have filters := List.forall_mem_append.mp conditions
      have inner := allOf_joined right allOf_unit (List.forall_mem_nil _) parts.2
        filters.2
      exact ⟨allOf_alternatives left parts.1 filters.1,
        allOf_filtered (fun filter member => filters.2 filter (filters_subset right member)) inner⟩

end

/-- The tree has only triple patterns and filters of the text. -/
theorem allOf_tree {group : GroupText} (patterns : ∀ pattern ∈ group.patterns, P pattern)
    (conditions : ∀ filter ∈ group.constraints, Q filter) : AllOf P Q group.tree :=
  allOf_alternatives (.one group) patterns conditions

end All

/-! ## The layout of a tree -/

section Mentions

variable {name : Text}

/-- One of the patterns has the variable. -/
def InPatterns (name : Text) (patterns : List TriplePattern) : Prop :=
  ∃ pattern ∈ patterns, name ∈ pattern.vars

theorem inPatterns_append {left right : List TriplePattern} :
    InPatterns name (left ++ right) ↔ InPatterns name left ∨ InPatterns name right := by
  simp only [InPatterns, List.mem_append, or_and_right, exists_or]

theorem not_inPatterns_nil : ¬ InPatterns name [] := by
  rintro ⟨_, inNil, _⟩
  cases inNil

theorem mentions_joinUnlessUnit {left right : Algebra}
    (mentions : (patternOf left).Mentions name ∨ (patternOf right).Mentions name) :
    (patternOf (joinUnlessUnit left right)).Mentions name := by
  cases left with
  | unit => exact mentions.resolve_left id
  | _ => exact mentions

theorem mentions_closed {current : Algebra} {pending : List TriplePattern}
    (mentions : (patternOf current).Mentions name ∨ InPatterns name pending) :
    (patternOf (closed joinUnlessUnit current pending)).Mentions name := by
  rw [closed]
  split
  · rename_i empty
    rw [List.isEmpty_iff.mp empty] at mentions
    exact mentions.resolve_right not_inPatterns_nil
  · exact mentions_joinUnlessUnit (mentions.imp_right List.mem_flatMap.mpr)

theorem mentions_filtered {filters : List (Expr GraphPattern)} {inner : Algebra} :
    (patternOf (filtered filters inner)).Mentions name ↔ (patternOf inner).Mentions name := by
  rw [filtered]
  split
  · rfl
  · rfl

theorem mentions_conditionally {current group : Algebra}
    (mentions : (patternOf current).Mentions name ∨ (patternOf group).Mentions name) :
    (patternOf (conditionally current group)).Mentions name := by
  cases group <;> exact mentions

mutual

theorem mentions_joined : ∀ (group : GroupText) {current : Algebra} {pending : List TriplePattern},
    ((patternOf current).Mentions name ∨ InPatterns name pending) ∨
      InPatterns name group.patterns →
    (patternOf (group.joined joinUnlessUnit current pending)).Mentions name
  | .done, _, _, mentions => mentions_closed (mentions.resolve_right not_inPatterns_nil)
  | .dot rest, _, _, mentions => mentions_joined rest mentions
  | .filter _ rest, _, _, mentions => mentions_joined rest mentions
  | .triples first others rest, _, _, mentions => by
      rw [GroupText.patterns, inPatterns_append, or_assoc, ← or_assoc (b := InPatterns _ (_ :: _)),
        ← inPatterns_append, ← or_assoc] at mentions
      exact mentions_joined rest mentions
  | .optional group rest, _, _, mentions => by
      rw [GroupText.patterns, inPatterns_append, ← or_assoc] at mentions
      refine mentions_joined rest (mentions.imp_left fun here => .inl (mentions_conditionally ?_))
      refine here.imp mentions_closed fun inside => mentions_filtered.mpr ?_
      exact mentions_joined group (.inr inside)
  | .minus group rest, _, _, mentions => by
      rw [GroupText.patterns, inPatterns_append, ← or_assoc] at mentions
      refine mentions_joined rest (mentions.imp_left fun here => .inl ?_)
      refine here.imp mentions_closed fun inside => mentions_filtered.mpr ?_
      exact mentions_joined group (.inr inside)
  | .groups groups rest, _, _, mentions => by
      rw [GroupText.patterns, inPatterns_append, ← or_assoc] at mentions
      refine mentions_joined rest (mentions.imp_left fun here => .inl (mentions_joinUnlessUnit ?_))
      exact here.imp mentions_closed (mentions_alternatives groups)

theorem mentions_alternatives : ∀ groups : GroupOrUnion, InPatterns name groups.patterns →
    (patternOf (groups.translate joinUnlessUnit)).Mentions name
  | .one group, inside => mentions_filtered.mpr (mentions_joined group (.inr inside))
  | .union left right, inside => by
      rw [GroupOrUnion.patterns, inPatterns_append] at inside
      refine inside.imp (mentions_alternatives left) fun inRight => mentions_filtered.mpr ?_
      exact mentions_joined right (.inr inRight)

end

end Mentions

theorem collectTriples_of_allOf {P : TriplePattern → Prop} {Q : Expr GraphPattern → Prop} :
    ∀ {algebra : Algebra}, AllOf P Q algebra → ∀ triple ∈ (patternOf algebra).collectTriples,
      P triple
  | .unit, _ => List.forall_mem_nil _
  | .basic _, all => all
  | .join _ _, all | .union _ _, all | .minus _ _, all =>
    List.forall_mem_append.mpr ⟨collectTriples_of_allOf all.1, collectTriples_of_allOf all.2⟩
  | .filter _ inner, all => @collectTriples_of_allOf P Q inner all.2
  | .leftJoin _ _ _, all =>
    List.forall_mem_append.mpr ⟨collectTriples_of_allOf all.1, collectTriples_of_allOf all.2.1⟩

/-- Without a variable as a predicate the layout of the tree has none. -/
theorem isPred_build {group : GroupText}
    (nodes : ∀ pattern ∈ group.patterns, pattern.predicate.var? = none) (index : ℕ) :
    (VarLayout.build (patternOf group.tree)).isPred.getD index false = false := by
  have triples := collectTriples_of_allOf (allOf_tree (Q := fun _ => True) nodes fun _ _ => trivial)
  have unset : ∀ flag ∈ (VarLayout.build (patternOf group.tree)).isPred, flag = false := by
    intro flag member
    obtain ⟨name, -, rfl⟩ := List.mem_map.mp member
    rw [List.any_eq_false]
    intro triple inTree
    rw [triples triple inTree]
    simp
  rw [List.getD_eq_getElem?_getD]
  cases found : (VarLayout.build (patternOf group.tree)).isPred[index]? with
  | none => rfl
  | some flag => exact unset flag (List.mem_of_getElem? found)

namespace BgpEngine

variable {Double Key : Type}

/-- The layout has the variables of the group, none of which is a predicate, and no filter of the
group panics. -/
structure Fits (engine : BgpEngine Double Key) (layout : VarLayout) (group : GroupText) : Prop where
  placed : ∀ pattern ∈ group.patterns, Placed layout pattern
  noPred : ∀ index, layout.isPred.getD index false = false
  quiet : ∀ filter ∈ group.constraints, engine.Quiet layout filter

/-- The layout that a query builds for the tree fits. -/
theorem fits_build {engine : BgpEngine Double Key} {group : GroupText}
    (nodes : ∀ pattern ∈ group.patterns, pattern.predicate.var? = none)
    (quiet : ∀ filter ∈ group.constraints,
      engine.Quiet (VarLayout.build (patternOf group.tree)) filter) :
    engine.Fits (VarLayout.build (patternOf group.tree)) group where
  placed := fun pattern member =>
    { known := fun _ isVar => VarLayout.mem_build.mpr
        (mentions_alternatives (.one group) ⟨pattern, member, isVar⟩)
      predicate := nodes pattern member }
  noPred := fun index => isPred_build nodes index
  quiet := quiet

/-- The group is parsed, and its tree is evaluated to the solutions of the algebra. -/
def MeansAlgebra (engine : BgpEngine Double Key) (layout : VarLayout)
    (others : GraphPattern → Eval (List (Row layout.names.length))) (group : GroupText) : Prop :=
  ∃ tree rows, parseGroup group.write = .ok (tree, []) ∧
    engine.evalPattern layout others tree = .ok rows ∧
    (rows : Multiset (Row layout.names.length)) = group.algebra.solutions (engine.solving layout)

/-- A group means what the algebra says if no `OPTIONAL` takes the filter of an inner group. -/
theorem group_means_algebra (engine : BgpEngine Double Key) (selective : ℕ → ℕ → Bool)
    {filter : Signature → Option (List UInt32)}
    (filters : Signature.Filters filter (Signature.vstreeEntries engine.source))
    (layout : VarLayout) (others : GraphPattern → Eval (List (Row layout.names.length)))
    {group : GroupText} (fits : engine.Fits layout group) (keeps : group.keepsScopes = true) :
    (engine.withCandidates selective filter).MeansAlgebra layout others group := by
  have quiet : ∀ constraint ∈ group.constraints,
      (engine.withCandidates selective filter).Quiet layout constraint := fun constraint member =>
    ⟨(fits.quiet constraint member).hasArguments, (fits.quiet constraint member).evaluates⟩
  have evaluates : (engine.withCandidates selective filter).EvaluatesTo layout others
      (patternOf group.tree) (group.tree.solutions _) :=
    evaluatesTo_patternOf (keepsSolutions_withCandidates selective filters) fits.noPred
      (allOf_tree fits.placed quiet)
  obtain ⟨rows, _, _, evaluated, same, -⟩ := evaluates
  exact ⟨patternOf group.tree, rows, parseGroup_write group, congrArg Prod.fst evaluated,
    same.trans (solutions_tree keeps)⟩

/-! ## An inner filter -/

def boundFilter (name : String) : Expr GraphPattern := .builtin "BOUND".toList [.var name.toList]

/-- `BOUND` never panics. -/
theorem quiet_boundFilter (engine : BgpEngine Double Key) (layout : VarLayout) (name : String) :
    engine.Quiet layout (boundFilter name) where
  hasArguments := List.cons_ne_nil _ _
  evaluates := by
    intro row
    rw [boundFilter, Evaluator.evaluate, if_pos rfl, Evaluator.evalBound]
    dsimp only
    rw [VarLayout.index_eq]
    cases layout.slot? name.toList with
    | none => exact ⟨_, rfl⟩
    | some index =>
      have held : (row.solution)[index.val]? = some ((row index).map .stored) := by
        rw [Row.solution, List.getElem?_ofFn, dif_pos index.isLt]
      rw [Option.map_some]
      dsimp only
      rw [Scope.slot]
      dsimp only
      rw [held]
      exact ⟨_, rfl⟩

def edge (subject predicate object : String) : TriplePattern :=
  ⟨.var subject.toList, .term (.iri predicate.toList), .var object.toList⟩

/-- `?x <xyz> ?y OPTIONAL { inner }`. -/
def withOptional (inner : GroupText) : GroupText :=
  .triples (edge "x" "xyz" "y") [] (.optional inner .done)

/-- `?y <q> ?z FILTER(BOUND(?x))`. -/
def filteredEdge : GroupText :=
  .triples (edge "y" "q" "z") [] (.filter (boundFilter "x") .done)

/-- `{ ?y <q> ?z FILTER(BOUND(?x)) }`. -/
def bracedEdge : GroupText := .groups (.one filteredEdge) .done

/-- The triples `<aa> <xyz> <ab>` and `<ab> <q> <ac>`. -/
def edgeEngine : BgpEngine ℚ Unit :=
  sampleEngine [⟨0, 0, 1⟩, ⟨1, 1, 2⟩] inOrder

def unfiltered (_ : Signature) : Option (List UInt32) := none

theorem filters_unfiltered (entries : List (UInt32 × Signature)) :
    Signature.Filters unfiltered entries :=
  fun _ _ none_ => by cases none_

/-- The filter directly inside the `OPTIONAL` is its condition. -/
theorem group_means_algebra_optional :
    (edgeEngine.withCandidates (fun _ _ => true) unfiltered).MeansAlgebra
      (VarLayout.build (patternOf (withOptional filteredEdge).tree)) (fun _ => .ok [])
      (withOptional filteredEdge) := by
  refine group_means_algebra edgeEngine (fun _ _ => true) (filters_unfiltered _) _ _
    (fits_build (by decide) ?_) (by decide)
  intro filter member
  rw [List.mem_singleton.mp member]
  exact quiet_boundFilter _ _ "x"

def layoutEdges : VarLayout :=
  { names := ["x".toList, "y".toList, "z".toList], isPred := [false, false, false] }

theorem noPred_layoutEdges (index : ℕ) : layoutEdges.isPred.getD index false = false := by
  rcases index with _ | _ | _ | index
  · rfl
  · rfl
  · rfl
  · rfl

theorem placed_edges :
    (∀ pattern ∈ [edge "x" "xyz" "y"], Placed layoutEdges pattern) ∧
      ∀ pattern ∈ [edge "y" "q" "z"], Placed layoutEdges pattern := by
  constructor
  · intro pattern member
    rw [List.mem_singleton.mp member]
    exact ⟨by decide, rfl⟩
  · intro pattern member
    rw [List.mem_singleton.mp member]
    exact ⟨by decide, rfl⟩

/-- The inner group has no `?x`, but its filter is asked for the joined rows, which have one. -/
theorem braced_filter_sees_outer :
    ¬ (edgeEngine.withCandidates (fun _ _ => true) unfiltered).MeansAlgebra layoutEdges
      (fun _ => .ok []) (withOptional bracedEdge) := by
  rintro ⟨tree, rows, parsed, evaluated, same⟩
  obtain rfl := congrArg Prod.fst (Except.ok.inj ((parseGroup_write _).symm.trans parsed))
  have found : (edgeEngine.withCandidates (fun _ _ => true) unfiltered).evalPattern layoutEdges
      (fun _ => .ok []) (patternOf (withOptional bracedEdge).tree) =
      .ok [![some 0, some 1, some 2]] := by
    refine eq_ok_of_listed ?_
    decide +kernel
  have meant : (edgeEngine.withCandidates (fun _ _ => true) unfiltered).evalPattern layoutEdges
      (fun _ => .ok []) (patternOf (withOptional bracedEdge).algebra) =
      .ok [![some 0, some 1, none]] := by
    refine eq_ok_of_listed ?_
    decide +kernel
  have parts : AllOf (Placed layoutEdges)
      ((edgeEngine.withCandidates (fun _ _ => true) unfiltered).Quiet layoutEdges)
      (withOptional bracedEdge).algebra := by
    refine ⟨⟨trivial, placed_edges.1⟩, ⟨trivial, ?_, trivial, placed_edges.2⟩,
      List.forall_mem_nil _⟩
    intro filter member
    rw [List.mem_singleton.mp member]
    exact quiet_boundFilter _ _ "x"
  have evaluates : (edgeEngine.withCandidates (fun _ _ => true) unfiltered).EvaluatesTo layoutEdges
      (fun _ => .ok []) (patternOf (withOptional bracedEdge).algebra) _ :=
    evaluatesTo_patternOf (keepsSolutions_withCandidates _ (filters_unfiltered _))
      noPred_layoutEdges parts
  obtain ⟨others, _, _, isOthers, solutions, -⟩ := evaluates
  obtain rfl := Except.ok.inj (meant.symm.trans (congrArg Prod.fst isOthers))
  obtain rfl := Except.ok.inj (found.symm.trans evaluated)
  have rowsAgree := List.perm_singleton.mp (Multiset.coe_eq_coe.mp (same.trans solutions.symm))
  have ids := congrFun (List.singleton_injective rowsAgree) (2 : Fin 3)
  cases ids

end BgpEngine

end GStore.Query
