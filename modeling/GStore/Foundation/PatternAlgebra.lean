import GStore.Foundation.PartialJoin

/-! # An algebra of patterns

A pattern stands for a multiset of solutions. A solution binds some variables, and two solutions
that agree can be merged. What a basic pattern and a condition mean is left open. -/

namespace GStore

universe u

inductive PatternAlgebra (Basic Condition : Type u) where
  | unit
  | basic (pattern : Basic)
  | join (left right : PatternAlgebra Basic Condition)
  | union (left right : PatternAlgebra Basic Condition)
  | filter (conditions : List Condition) (inner : PatternAlgebra Basic Condition)
  | leftJoin (left right : PatternAlgebra Basic Condition) (conditions : List Condition)
  | minus (left right : PatternAlgebra Basic Condition)

/-- What solutions are, and what basic patterns and conditions mean. -/
structure Solving (Basic Condition : Type u) (Var α : Type u) [DecidableEq Var] where
  merge : α → α → Option α
  unit : α
  bound : α → Finset Var
  basic : Basic → Multiset α
  holds : List Condition → α → Bool
  merging : Merging merge unit
  bound_unit : bound unit = ∅
  bound_merge : ∀ {first second merged}, merge first second = some merged →
    bound merged = bound first ∪ bound second

/-! ## Operations on multisets -/

section Operations

variable {α Var : Type u} [DecidableEq Var]

/-- The merges that pass the test, and the elements on the left that have none. -/
def multisetLeftJoin (merge : α → α → Option α) (test : α → Bool) (left right : Multiset α) :
    Multiset α :=
  (multisetJoin merge left right).filter (test ·) +
    left.filter fun first => ∀ second ∈ right, (merge first second).filter test = none

/-- The elements on the left without one on the right that agrees and has a variable in common. -/
def multisetMinus (merge : α → α → Option α) (bound : α → Finset Var) (left right : Multiset α) :
    Multiset α :=
  left.filter fun first => ∀ second ∈ right,
    merge first second = none ∨ Disjoint (bound first) (bound second)

/-- The merges of one element with those of a list that pass the test, or the element itself. -/
def extensions (merge : α → α → Option α) (test : α → Bool) (right : List α) (first : α) :
    List α :=
  let merged := (right.filterMap (merge first)).filter test
  if merged.isEmpty then [first] else merged

theorem coe_extensions {merge : α → α → Option α} {test : α → Bool} (right : List α) (first : α) :
    (extensions merge test right first : Multiset α) =
      multisetLeftJoin merge test {first} right := by
  have merged : (((right.filterMap (merge first)).filter test : List α) : Multiset α) =
      (multisetJoin merge {first} right).filter (test ·) := by
    rw [← Multiset.coe_singleton, ← coe_joinPairs, joinPairs, List.flatMap_cons, List.flatMap_nil,
      List.append_nil, Multiset.filter_coe]
    simp only [Bool.decide_eq_true]
  have alone : (right.filterMap (merge first)).filter test = [] ↔
      ∀ second ∈ (right : Multiset α), (merge first second).filter test = none := by
    rw [List.filter_filterMap, List.filterMap_eq_nil_iff]
    rfl
  rw [extensions, multisetLeftJoin, Multiset.filter_singleton, ← merged]
  split
  · rename_i empty
    rw [List.isEmpty_iff] at empty
    rw [if_pos (alone.mp empty), empty]
    exact (zero_add _).symm
  · rename_i filled
    rw [List.isEmpty_iff] at filled
    rw [if_neg fun none_ => filled (alone.mpr none_)]
    exact (add_zero _).symm

theorem multisetLeftJoin_cons {merge : α → α → Option α} {test : α → Bool} (first : α)
    (left right : Multiset α) :
    multisetLeftJoin merge test (first ::ₘ left) right =
      multisetLeftJoin merge test {first} right + multisetLeftJoin merge test left right := by
  rw [← Multiset.singleton_add]
  simp only [multisetLeftJoin, multisetJoin, Multiset.add_bind, Multiset.filter_add]
  rw [add_add_add_comm]

theorem coe_flatMap_extensions {merge : α → α → Option α} {test : α → Bool}
    (left right : List α) :
    (left.flatMap (extensions merge test right) : Multiset α) =
      multisetLeftJoin merge test left right := by
  induction left with
  | nil => rfl
  | cons first rest induction =>
    rw [List.flatMap_cons, ← Multiset.coe_add, coe_extensions, induction, ← Multiset.cons_coe,
      multisetLeftJoin_cons first rest]

end Operations

/-! ## Solutions -/

namespace PatternAlgebra

variable {Basic Condition Var α : Type u} [DecidableEq Var]
  (solving : Solving Basic Condition Var α)

def solutions : PatternAlgebra Basic Condition → Multiset α
  | .unit => {solving.unit}
  | .basic pattern => solving.basic pattern
  | .join left right => multisetJoin solving.merge left.solutions right.solutions
  | .union left right => left.solutions + right.solutions
  | .filter conditions inner => inner.solutions.filter (solving.holds conditions ·)
  | .leftJoin left right conditions =>
    multisetLeftJoin solving.merge (solving.holds conditions) left.solutions right.solutions
  | .minus left right =>
    multisetMinus solving.merge solving.bound left.solutions right.solutions

/-- Every basic pattern and every condition has a property. -/
def All (basics : Basic → Prop) (conditions : Condition → Prop) :
    PatternAlgebra Basic Condition → Prop
  | .unit => True
  | .basic pattern => basics pattern
  | .join left right | .union left right | .minus left right =>
    left.All basics conditions ∧ right.All basics conditions
  | .filter filters inner => (∀ filter ∈ filters, conditions filter) ∧ inner.All basics conditions
  | .leftJoin left right filters =>
    left.All basics conditions ∧ right.All basics conditions ∧
      ∀ filter ∈ filters, conditions filter

theorem All.imp {basics others : Basic → Prop} {conditions further : Condition → Prop}
    (onBasics : ∀ pattern, basics pattern → others pattern)
    (onConditions : ∀ filter, conditions filter → further filter) :
    ∀ {algebra : PatternAlgebra Basic Condition},
      algebra.All basics conditions → algebra.All others further
  | .unit, _ => trivial
  | .basic pattern, all => onBasics pattern all
  | .join _ _, all | .union _ _, all | .minus _ _, all =>
    ⟨all.1.imp onBasics onConditions, all.2.imp onBasics onConditions⟩
  | .filter _ _, all =>
    ⟨fun filter member => onConditions filter (all.1 filter member),
      all.2.imp onBasics onConditions⟩
  | .leftJoin _ _ _, all =>
    ⟨all.1.imp onBasics onConditions, all.2.1.imp onBasics onConditions,
      fun filter member => onConditions filter (all.2.2 filter member)⟩

variable {solving}

theorem solutions_join_unit (right : PatternAlgebra Basic Condition) :
    (join unit right).solutions solving = right.solutions solving :=
  multisetJoin_unit solving.merging _

/-- A solution binds only variables of the basic patterns. -/
theorem bound_subset {known : Finset Var} {conditions : Condition → Prop} :
    ∀ {algebra : PatternAlgebra Basic Condition},
    algebra.All (fun pattern => ∀ solution ∈ solving.basic pattern,
      solving.bound solution ⊆ known) conditions →
    ∀ solution ∈ algebra.solutions solving, solving.bound solution ⊆ known
  | .unit, _, solution, member => by
      rw [Multiset.mem_singleton.mp member, solving.bound_unit]
      exact Finset.empty_subset known
  | .basic pattern, within, solution, member => within solution member
  | .join left right, within, solution, member => by
      obtain ⟨first, inLeft, second, inRight, merged⟩ := mem_multisetJoin.mp member
      rw [solving.bound_merge merged]
      exact Finset.union_subset (bound_subset within.1 first inLeft)
        (bound_subset within.2 second inRight)
  | .union left right, within, solution, member => by
      rcases Multiset.mem_add.mp member with inLeft | inRight
      · exact bound_subset within.1 solution inLeft
      · exact bound_subset within.2 solution inRight
  | .filter _ inner, within, solution, member =>
    bound_subset within.2 solution (Multiset.mem_filter.mp member).1
  | .leftJoin left right _, within, solution, member => by
      rcases Multiset.mem_add.mp member with extended | alone
      · obtain ⟨first, inLeft, second, inRight, merged⟩ :=
          mem_multisetJoin.mp (Multiset.mem_filter.mp extended).1
        rw [solving.bound_merge merged]
        exact Finset.union_subset (bound_subset within.1 first inLeft)
          (bound_subset within.2.1 second inRight)
      · exact bound_subset within.1 solution (Multiset.mem_filter.mp alone).1
  | .minus left right, within, solution, member =>
    bound_subset within.1 solution (Multiset.mem_filter.mp member).1

end PatternAlgebra

end GStore
