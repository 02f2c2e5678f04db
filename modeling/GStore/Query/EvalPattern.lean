import GStore.Query.BgpSolutions
import GStore.Query.GroupScope

/-! # Evaluation of graph patterns

`query/engine.rs`: the rows of a pattern are computed from those of its parts. The conjuncts of
nested joins are joined at once. -/

namespace GStore.Query

open GStore.Parser

variable {Double Key : Type} {width : ℕ}

/-! ## Minus -/

/-- The loop over the shared variables. -/
def overlaps (left right : Row width) : Bool → List (Fin width) → Bool
  | anyShared, [] => anyShared
  | anyShared, index :: rest =>
    match left index, right index with
    | some first, some second =>
      if first != second then false else overlaps left right true rest
    | _, _ => overlaps left right anyShared rest

def evalMinus (left : List (Row width)) (leftVars : List (Fin width)) (right : List (Row width))
    (rightVars : List (Fin width)) : List (Row width) :=
  let shared := leftVars.filter rightVars.contains
  if shared.isEmpty then left
  else left.filter fun row => !right.any fun other => overlaps row other false shared

/-- The variables that have ids. -/
def boundSlots (row : Row width) : Finset (Fin width) :=
  Finset.univ.filter fun index => row index ≠ none

theorem mem_boundSlots {row : Row width} {index : Fin width} :
    index ∈ boundSlots row ↔ row index ≠ none := by
  rw [boundSlots, Finset.mem_filter]
  exact and_iff_right (Finset.mem_univ index)

theorem overlaps_iff {left right : Row width} {anyShared : Bool} {shared : List (Fin width)} :
    overlaps left right anyShared shared = true ↔
      (∀ index ∈ shared, Agree (left index) (right index)) ∧
        (anyShared = true ∨ ∃ index ∈ shared, left index ≠ none ∧ right index ≠ none) := by
  induction shared generalizing anyShared with
  | nil => simp [overlaps]
  | cons index rest induction =>
    rw [overlaps, List.forall_mem_cons, List.exists_mem_cons_iff]
    cases first : left index with
    | none => simp [induction, Agree]
    | some one =>
      cases second : right index with
      | none => simp [induction, Agree]
      | some two =>
        by_cases same : one = two
        · simp [induction, Agree, same]
        · simp [Agree, same]

/-- The shared variables are all that can be bound on both sides. -/
theorem overlaps_iff_of_bound {left right : Row width} {shared : List (Fin width)}
    (covered : ∀ index, left index ≠ none → right index ≠ none → index ∈ shared) :
    overlaps left right false shared = true ↔
      ¬ (mergeBindings left right = none ∨ Disjoint (boundSlots left) (boundSlots right)) := by
  have compatible : (∀ index ∈ shared, Agree (left index) (right index)) ↔
      Compatible left right := by
    constructor
    · intro agree index
      by_cases leftBound : left index = none
      · exact .inl leftBound
      · by_cases rightBound : right index = none
        · exact .inr (.inl rightBound)
        · exact agree index (covered index leftBound rightBound)
    · exact fun agree index _ => agree index
  have merges : mergeBindings left right = none ↔ ¬ Compatible left right := by
    rw [mergeBindings_eq]
    split
    · rename_i agree
      exact iff_of_false (Option.some_ne_none _) (not_not_intro agree)
    · rename_i differ
      exact iff_of_true rfl differ
  rw [overlaps_iff, compatible, merges, not_or, not_not, Finset.not_disjoint_iff]
  refine and_congr_right fun _ => ?_
  simp only [Bool.false_eq_true, false_or, mem_boundSlots]
  constructor
  · exact fun ⟨index, _, leftBound, rightBound⟩ => ⟨index, leftBound, rightBound⟩
  · exact fun ⟨index, leftBound, rightBound⟩ =>
      ⟨index, covered index leftBound rightBound, leftBound, rightBound⟩

/-- The rows that stay are those without an overlapping row on the right. -/
theorem coe_evalMinus {left right : List (Row width)} {leftVars rightVars : List (Fin width)}
    (leftBound : ∀ row ∈ left, ∀ index, row index ≠ none → index ∈ leftVars)
    (rightBound : ∀ row ∈ right, ∀ index, row index ≠ none → index ∈ rightVars) :
    (evalMinus left leftVars right rightVars : Multiset (Row width)) =
      multisetMinus mergeBindings boundSlots left right := by
  have covered : ∀ row ∈ left, ∀ other ∈ right, ∀ index, row index ≠ none → other index ≠ none →
      index ∈ leftVars.filter rightVars.contains := by
    intro row inLeft other inRight index leftId rightId
    rw [List.mem_filter, List.contains_iff_mem]
    exact ⟨leftBound row inLeft index leftId, rightBound other inRight index rightId⟩
  have stays : ∀ row ∈ (left : Multiset (Row width)), (!right.any fun other =>
      overlaps row other false (leftVars.filter rightVars.contains)) = true ↔
      ∀ other ∈ (right : Multiset (Row width)), mergeBindings row other = none ∨
        Disjoint (boundSlots row) (boundSlots other) := by
    intro row inLeft
    rw [Bool.not_eq_true', List.any_eq_false]
    refine forall₂_congr fun other inRight => ?_
    rw [overlaps_iff_of_bound (covered row inLeft other inRight), not_not]
  have kept : (left.filter fun row => !right.any fun other =>
      overlaps row other false (leftVars.filter rightVars.contains)) =
      evalMinus left leftVars right rightVars := by
    rw [evalMinus]
    split
    · rename_i empty
      rw [List.isEmpty_iff.mp empty, List.filter_eq_self]
      intro row inLeft
      rw [Bool.not_eq_true', List.any_eq_false]
      exact fun other _ => Bool.false_ne_true
    · rfl
  have chosen : (evalMinus left leftVars right rightVars : Multiset (Row width)) =
      (left : Multiset (Row width)).filter fun row => (!right.any fun other =>
        overlaps row other false (leftVars.filter rightVars.contains)) = true := by
    rw [← kept, Multiset.filter_coe]
    simp only [Bool.decide_eq_true]
  rw [chosen, multisetMinus]
  -- the instance for all rows is not the one for the members of a multiset
  convert Multiset.filter_congr stays

/-! ## Patterns -/

section Patterns

variable (layout : VarLayout)

def patternVars (pattern : GraphPattern) : List (Fin layout.names.length) :=
  extendVars [] ((pattern.collectVars []).filterMap layout.slot?)

namespace BgpEngine

variable (engine : BgpEngine Double Key)

/-- `OPTIONAL`: the extensions of each row that pass the filters, or the row itself. -/
def evalLeftJoin (right : List (Row layout.names.length)) (filters : List (Expr GraphPattern)) :
    List (Row layout.names.length) → Eval (List (Row layout.names.length))
  | [] => .ok []
  | row :: rest => do
    let matched ← engine.retain layout filters (right.filterMap (mergeBindings row))
    let others ← evalLeftJoin right filters rest
    return (if matched.isEmpty then [row] else matched) ++ others

/-- `swap_remove` on no parts panics. -/
def joinConjuncts (parts : List (Part layout.names.length)) :
    Eval (List (Row layout.names.length)) :=
  match joinParts parts with
  | some rows => .ok rows
  | none => .error .outOfBounds

/-- A pattern that is no join is its own conjunct. -/
def alone (pattern : GraphPattern) (rows : Eval (List (Row layout.names.length))) :
    Eval (List (Row layout.names.length)) × Eval (List (Part layout.names.length)) :=
  (rows, rows.map fun rows => [⟨rows, patternVars layout pattern⟩])

variable (others : GraphPattern → Eval (List (Row layout.names.length)))

/-- The rows of a pattern, and those of the conjuncts that `flatten_join` finds in it. The patterns
that are no part of a group have evaluators of their own. -/
def evalBoth : GraphPattern →
    Eval (List (Row layout.names.length)) × Eval (List (Part layout.names.length))
  | .empty => alone layout .empty (.ok [unboundRow layout.names.length])
  | .bgp patterns => alone layout (.bgp patterns) (engine.evalBgpConstrained layout patterns [])
  | .join left right =>
    let parts := do
      let lefts ← (evalBoth left).2
      let rights ← (evalBoth right).2
      return lefts ++ rights
    (parts >>= joinConjuncts layout, parts)
  | .union left right => alone layout (.union left right) do
      let lefts ← (evalBoth left).1
      let rights ← (evalBoth right).1
      return lefts ++ rights
  | .filter filters inner => alone layout (.filter filters inner) <|
      match inner with
      | .bgp patterns => engine.evalFilterBgp layout filters patterns
      | _ => do
        let rows ← (evalBoth inner).1
        engine.retain layout filters rows
  | .leftJoin left right filters => alone layout (.leftJoin left right filters) do
      let lefts ← (evalBoth left).1
      let rights ← (evalBoth right).1
      engine.evalLeftJoin layout rights filters lefts
  | .minus left right => alone layout (.minus left right) do
      let lefts ← (evalBoth left).1
      let rights ← (evalBoth right).1
      return evalMinus lefts (patternVars layout left) rights (patternVars layout right)
  | other => alone layout other (others other)

def evalPattern (pattern : GraphPattern) : Eval (List (Row layout.names.length)) :=
  (engine.evalBoth layout others pattern).1

end BgpEngine

end Patterns

/-! ## The variables of a pattern -/

theorem mem_extendVars {known vars : List (Fin width)} {index : Fin width} :
    index ∈ extendVars known vars ↔ index ∈ known ∨ index ∈ vars := by
  induction vars generalizing known with
  | nil => simp [extendVars]
  | cons next rest induction =>
    rw [extendVars, List.foldl_cons, ← extendVars, induction, List.mem_cons]
    split
    · rename_i held
      rw [List.contains_iff_mem] at held
      constructor
      · exact Or.imp_right .inr
      · rintro (before | rfl | after)
        · exact .inl before
        · exact .inl held
        · exact .inr after
    · rw [List.mem_append, List.mem_singleton, or_assoc]

theorem mem_patternVars {layout : VarLayout} {pattern : GraphPattern}
    {index : Fin layout.names.length} :
    index ∈ patternVars layout pattern ↔
      ∃ name, pattern.Mentions name ∧ layout.slot? name = some index := by
  rw [patternVars, mem_extendVars, or_iff_right List.not_mem_nil, List.mem_filterMap]
  simp only [GraphPattern.mem_collectVars, List.not_mem_nil, false_or]

/-- The tree mentions the variables of its basic patterns. -/
theorem all_mentions : ∀ algebra : Algebra, algebra.All
    (fun patterns => ∀ name ∈ patterns.flatMap TriplePattern.vars,
      (patternOf algebra).Mentions name) fun _ => True
  | .unit => trivial
  | .basic _ => fun _ member => member
  | .join left right | .union left right | .minus left right =>
    ⟨(all_mentions left).imp (fun _ all name member => .inl (all name member)) fun _ => id,
      (all_mentions right).imp (fun _ all name member => .inr (all name member)) fun _ => id⟩
  | .filter _ inner => ⟨fun _ _ => trivial, all_mentions inner⟩
  | .leftJoin left right _ =>
    ⟨(all_mentions left).imp (fun _ all name member => .inl (all name member)) fun _ => id,
      (all_mentions right).imp (fun _ all name member => .inr (all name member)) fun _ => id,
      fun _ _ => trivial⟩

namespace BgpEngine

/-! ## What the patterns mean -/

/-- The solutions of patterns over a layout. -/
noncomputable def solving (engine : BgpEngine Double Key) (layout : VarLayout) :
    Solving (List TriplePattern) (Expr GraphPattern) (Fin layout.names.length)
      (Row layout.names.length) where
  merge := mergeBindings
  unit := unboundRow layout.names.length
  bound := boundSlots
  basic := engine.bgpSolutions layout
  holds := engine.passes layout
  merging := merging_mergeBindings
  bound_unit := by
    rw [boundSlots, Finset.filter_eq_empty_iff]
    exact fun _ _ bound => bound rfl
  bound_merge := by
    intro first second merged isMerged
    rw [mergeBindings_eq] at isMerged
    split at isMerged
    case isFalse => cases isMerged
    case isTrue =>
        rw [← Option.some.inj isMerged]
        ext index
        rw [Finset.mem_union, mem_boundSlots, mem_boundSlots, mem_boundSlots]
        cases first index <;> cases second index <;> simp

/-- The layout has the variables of the pattern, and its predicate is none of them. -/
structure Placed (layout : VarLayout) (pattern : TriplePattern) : Prop where
  known : ∀ name ∈ pattern.vars, name ∈ layout.names
  predicate : pattern.predicate.var? = none

/-- The filter does not panic. -/
structure Quiet (engine : BgpEngine Double Key) (layout : VarLayout) (expr : Expr GraphPattern) :
    Prop where
  hasArguments : HasArguments expr
  evaluates : ∀ row : Row layout.names.length,
    ∃ result, engine.evaluator.evaluate ⟨layout, row.solution⟩ expr = .ok result

section Evaluate

variable {engine : BgpEngine Double Key} {layout : VarLayout}
  {others : GraphPattern → Eval (List (Row layout.names.length))}
  {filters : List (Expr GraphPattern)}

/-- A solution has ids for variables of the tree only. -/
theorem bound_within {algebra : Algebra} {row : Row layout.names.length}
    (member : row ∈ algebra.solutions (engine.solving layout)) {index : Fin layout.names.length} (bound : row index ≠ none) :
    index ∈ patternVars layout (patternOf algebra) := by
  have within : ∀ patterns : List TriplePattern,
      (∀ name ∈ patterns.flatMap TriplePattern.vars, (patternOf algebra).Mentions name) →
      ∀ solution ∈ (engine.solving layout).basic patterns, boundSlots solution ⊆
        (patternVars layout (patternOf algebra)).toFinset := by
    intro patterns mentions solution isSolution other filled
    obtain ⟨pattern, inPatterns, name, isVar, isSlot⟩ :=
      (mem_bgpSolutions.mp isSolution).bound other (mem_boundSlots.mp filled)
    rw [List.mem_toFinset, mem_patternVars]
    exact ⟨name, mentions name (List.mem_flatMap.mpr ⟨pattern, inPatterns, isVar⟩), isSlot⟩
  have subset : boundSlots row ⊆ (patternVars layout (patternOf algebra)).toFinset :=
    PatternAlgebra.bound_subset ((all_mentions algebra).imp within fun _ => id) row member
  exact List.mem_toFinset.mp (subset (mem_boundSlots.mpr bound))

theorem keeps_of_quiet (quiet : ∀ filter ∈ filters, engine.Quiet layout filter)
    (row : Row layout.names.length) : ∃ kept, engine.keeps layout row filters = .ok kept := by
  induction filters with
  | nil => exact ⟨true, rfl⟩
  | cons expr rest induction =>
    have parts := List.forall_mem_cons.mp quiet
    obtain ⟨result, evaluated⟩ := parts.1.evaluates row
    obtain ⟨kept, isKept⟩ := induction parts.2
    rw [keeps, evaluated]
    by_cases true_ : result.2 = some true
    · exact ⟨kept, (if_pos true_).trans isKept⟩
    · exact ⟨false, if_neg true_⟩

theorem retain_of_quiet (quiet : ∀ filter ∈ filters, engine.Quiet layout filter)
    (rows : List (Row layout.names.length)) :
    engine.retain layout filters rows = .ok (rows.filter (engine.passes layout filters)) :=
  retain_eq_ok_iff.mpr ⟨fun row _ => keeps_of_quiet quiet row, rfl⟩

theorem evalLeftJoin_of_quiet (quiet : ∀ filter ∈ filters, engine.Quiet layout filter)
    (left right : List (Row layout.names.length)) : engine.evalLeftJoin layout right filters left =
      .ok (left.flatMap (extensions mergeBindings (engine.passes layout filters) right)) := by
  induction left with
  | nil => rfl
  | cons row rest induction =>
    rw [evalLeftJoin, retain_of_quiet quiet, induction, List.flatMap_cons]
    rfl

/-! ## Evaluation -/

variable (engine layout others) in
/-- The pattern is evaluated to the solutions, also as conjuncts of a join. -/
def EvaluatesTo (pattern : GraphPattern)
    (solutions : Multiset (Row layout.names.length)) : Prop :=
  ∃ rows first rest, engine.evalBoth layout others pattern = (.ok rows, .ok (first :: rest)) ∧
    (rows : Multiset _) = solutions ∧
    (rowSets rest).foldl (multisetJoin mergeBindings) first.rows = solutions

/-- A pattern that is no join. -/
theorem evaluatesTo_alone {pattern : GraphPattern} {rows : List (Row layout.names.length)}
    {solutions : Multiset (Row layout.names.length)}
    (evaluated : engine.evalBoth layout others pattern = alone layout pattern (.ok rows))
    (same : (rows : Multiset _) = solutions) :
    engine.EvaluatesTo layout others pattern solutions :=
  ⟨rows, _, [], evaluated, same, same⟩

theorem evaluatesTo_join {left right : GraphPattern}
    {leftSolutions rightSolutions : Multiset (Row layout.names.length)}
    (leftEvaluates : engine.EvaluatesTo layout others left leftSolutions)
    (rightEvaluates : engine.EvaluatesTo layout others right rightSolutions) :
    engine.EvaluatesTo layout others (.join left right)
      (multisetJoin mergeBindings leftSolutions rightSolutions) := by
  obtain ⟨_, first, front, isLeft, -, leftSame⟩ := leftEvaluates
  obtain ⟨_, second, back, isRight, -, rightSame⟩ := rightEvaluates
  obtain ⟨rows, joined, merged⟩ := coe_joinParts first (front ++ second :: back)
  have split : (rowSets (front ++ second :: back)).foldl (multisetJoin mergeBindings) first.rows =
      multisetJoin mergeBindings leftSolutions rightSolutions := by
    rw [rowSets, List.map_append, ← rowSets, List.foldl_append, leftSame,
      foldl_multisetJoin_eq merging_mergeBindings, List.map_cons, List.foldl_cons,
      multisetJoin_unit merging_mergeBindings, ← rowSets, rightSame]
  refine ⟨rows, first, front ++ second :: back, ?_, merged.trans split, split⟩
  rw [evalBoth, isLeft, isRight]
  change (joinConjuncts layout (first :: (front ++ second :: back)), _) = _
  rw [joinConjuncts, joined]
  rfl

theorem evalBoth_filter {inner : GraphPattern} (plain : ∀ patterns, inner ≠ .bgp patterns)
    (filters : List (Expr GraphPattern)) :
    engine.evalBoth layout others (.filter filters inner) =
      alone layout (.filter filters inner) (do
        let rows ← (engine.evalBoth layout others inner).1
        engine.retain layout filters rows) := by
  cases inner with
  | bgp patterns => exact absurd rfl (plain patterns)
  | _ => rfl

theorem coe_filter_passes (filters : List (Expr GraphPattern))
    (rows : List (Row layout.names.length)) :
    (rows.filter (engine.passes layout filters) : Multiset _) =
      (rows : Multiset _).filter (engine.passes layout filters ·) := by
  rw [Multiset.filter_coe]
  simp only [Bool.decide_eq_true]

/-- A filter over a basic graph pattern, with its substrings pushed down. -/
theorem evaluatesTo_filter_bgp (keeps : engine.KeepsSolutions layout)
    (noPred : ∀ index, layout.isPred.getD index false = false) {patterns : List TriplePattern}
    (quiet : ∀ filter ∈ filters, engine.Quiet layout filter)
    (placed : ∀ pattern ∈ patterns, Placed layout pattern) :
    engine.EvaluatesTo layout others (.filter filters (.bgp patterns))
      ((engine.bgpSolutions layout patterns).filter (engine.passes layout filters ·)) := by
  obtain ⟨rows, evaluated, same⟩ := evalBgpConstrained_solutions keeps
    fun pattern member => (placed pattern member).known
  have reference : engine.filterBgp layout filters patterns =
      .ok (rows.filter (engine.passes layout filters)) := by
    rw [filterBgp, evaluated]
    exact retain_of_quiet quiet rows
  have hasArguments : ∀ filter ∈ filters, HasArguments filter :=
    fun filter member => (quiet filter member).hasArguments
  obtain ⟨constraints, collected⟩ := filterStringConstraints_of_hasArguments
    engine layout hasArguments
  obtain ⟨pushed, isPushed, perm, -⟩ := retain_constrained
    ⟨hasArguments, fun _ _ _ _ constraint _ _ => noPred constraint.1⟩ collected reference
  have pushes : engine.evalFilterBgp layout filters patterns = .ok pushed := by
    rw [evalFilterBgp, collected]
    exact isPushed
  have evaluatedFilter : engine.evalBoth layout others (.filter filters (.bgp patterns)) =
      alone layout (.filter filters (.bgp patterns)) (.ok pushed) :=
    congrArg (alone layout _) pushes
  refine evaluatesTo_alone evaluatedFilter ?_
  rw [Multiset.coe_eq_coe.mpr perm, coe_filter_passes, same]

theorem evaluatesTo_filter {inner : GraphPattern} (plain : ∀ patterns, inner ≠ .bgp patterns)
    (quiet : ∀ filter ∈ filters, engine.Quiet layout filter)
    {solutions : Multiset (Row layout.names.length)}
    (evaluates : engine.EvaluatesTo layout others inner solutions) :
    engine.EvaluatesTo layout others (.filter filters inner)
      (solutions.filter (engine.passes layout filters ·)) := by
  obtain ⟨rows, _, _, evaluated, same, -⟩ := evaluates
  have evaluatedFilter : engine.evalBoth layout others (.filter filters inner) =
      alone layout (.filter filters inner) (.ok (rows.filter (engine.passes layout filters))) := by
    rw [evalBoth_filter plain, evaluated]
    exact congrArg (alone layout _) (retain_of_quiet quiet rows)
  refine evaluatesTo_alone evaluatedFilter ?_
  rw [coe_filter_passes, same]

/-- Every tree of a group is evaluated to its solutions. -/
theorem evaluatesTo_patternOf (keeps : engine.KeepsSolutions layout)
    (noPred : ∀ index, layout.isPred.getD index false = false) : ∀ {algebra : Algebra},
    algebra.All (fun patterns => ∀ pattern ∈ patterns, Placed layout pattern)
      (engine.Quiet layout) →
    engine.EvaluatesTo layout others (patternOf algebra)
      (algebra.solutions (engine.solving layout))
  | .unit, _ => evaluatesTo_alone rfl rfl
  | .basic patterns, placed => by
      obtain ⟨rows, evaluated, same⟩ := evalBgpConstrained_solutions keeps
        fun pattern member => (placed pattern member).known
      exact evaluatesTo_alone (congrArg (alone layout _) evaluated) same
  | .join left right, all =>
    evaluatesTo_join (evaluatesTo_patternOf keeps noPred all.1)
      (evaluatesTo_patternOf keeps noPred all.2)
  | .union left right, all => by
      obtain ⟨lefts, _, _, isLeft, leftSame, -⟩ := evaluatesTo_patternOf keeps noPred all.1
      obtain ⟨rights, _, _, isRight, rightSame, -⟩ := evaluatesTo_patternOf keeps noPred all.2
      have evaluated : engine.evalBoth layout others (patternOf (.union left right)) =
          alone layout (patternOf (.union left right)) (.ok (lefts ++ rights)) := by
        rw [patternOf, evalBoth, isLeft, isRight]
        rfl
      refine evaluatesTo_alone evaluated ?_
      rw [← Multiset.coe_add, leftSame, rightSame]
      rfl
  | .filter filters inner, all => by
      have evaluates := evaluatesTo_patternOf keeps noPred all.2
      cases inner with
      | basic patterns => exact evaluatesTo_filter_bgp keeps noPred all.1 all.2
      | _ => exact evaluatesTo_filter (fun _ same => by cases same) all.1 evaluates
  | .leftJoin left right filters, all => by
      obtain ⟨lefts, _, _, isLeft, leftSame, -⟩ := evaluatesTo_patternOf keeps noPred all.1
      obtain ⟨rights, _, _, isRight, rightSame, -⟩ := evaluatesTo_patternOf keeps noPred all.2.1
      have evaluated : engine.evalBoth layout others (patternOf (.leftJoin left right filters)) =
          alone layout (patternOf (.leftJoin left right filters)) (.ok (lefts.flatMap
            (extensions mergeBindings (engine.passes layout filters) rights))) := by
        rw [patternOf, evalBoth, isLeft, isRight]
        exact congrArg (alone layout _) (evalLeftJoin_of_quiet all.2.2 lefts rights)
      refine evaluatesTo_alone evaluated ?_
      rw [coe_flatMap_extensions, leftSame, rightSame]
      rfl
  | .minus left right, all => by
      obtain ⟨lefts, _, _, isLeft, leftSame, -⟩ := evaluatesTo_patternOf keeps noPred all.1
      obtain ⟨rights, _, _, isRight, rightSame, -⟩ := evaluatesTo_patternOf keeps noPred all.2
      have evaluated : engine.evalBoth layout others (patternOf (.minus left right)) =
          alone layout (patternOf (.minus left right)) (.ok (evalMinus lefts
            (patternVars layout (patternOf left)) rights
            (patternVars layout (patternOf right)))) := by
        rw [patternOf, evalBoth, isLeft, isRight]
        rfl
      have leftBound : ∀ row ∈ lefts, ∀ index, row index ≠ none →
          index ∈ patternVars layout (patternOf left) := by
        intro row member index bound
        rw [← Multiset.mem_coe, leftSame] at member
        exact bound_within member bound
      have rightBound : ∀ row ∈ rights, ∀ index, row index ≠ none →
          index ∈ patternVars layout (patternOf right) := by
        intro row member index bound
        rw [← Multiset.mem_coe, rightSame] at member
        exact bound_within member bound
      refine evaluatesTo_alone evaluated ?_
      rw [coe_evalMinus leftBound rightBound, leftSame, rightSame]
      rfl

end Evaluate

end BgpEngine

end GStore.Query
