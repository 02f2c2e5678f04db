import Mathlib

/-! # Joins over a partial merge

A merge of two elements that may fail, but is commutative, associative and has a unit, makes
the join of two collections: all merges of one element with another. As a multiset, the join of
many collections does not depend on their order. -/

namespace GStore

universe u

variable {α : Type u} {merge : α → α → Option α} {unit : α}

/-- The laws of a partial merge. -/
structure Merging (merge : α → α → Option α) (unit : α) : Prop where
  comm : ∀ first second, merge first second = merge second first
  assoc : ∀ first second third,
    (merge first second).bind (merge · third) = (merge second third).bind (merge first)
  unit_left : ∀ element, merge unit element = some element

/-- All merges, left-major. -/
def joinPairs (merge : α → α → Option α) (left right : List α) : List α :=
  left.flatMap fun first => right.filterMap fun second => merge first second

theorem flatMap_filter {β : Type*} (keep : α → Bool) (list : List α) (values : α → List β) :
    (list.filter keep).flatMap values =
      list.flatMap fun element => if keep element then values element else [] := by
  induction list with
  | nil => rfl
  | cons head tail induction =>
    rw [List.flatMap_cons, ← induction]
    cases kept : keep head with
    | true => rw [List.filter_cons_of_pos kept, List.flatMap_cons, if_pos rfl]
    | false =>
      rw [List.filter_cons_of_neg (ne_true_of_eq_false kept), if_neg Bool.false_ne_true,
        List.nil_append]

/-- A test that a merge passes exactly if both of its sides do can come before the join. -/
theorem filter_joinPairs {keep : α → Bool}
    (merged : ∀ {first second element}, merge first second = some element →
      keep element = (keep first && keep second)) (left right : List α) :
    (joinPairs merge left right).filter keep =
      joinPairs merge (left.filter keep) (right.filter keep) := by
  rw [joinPairs, joinPairs, List.filter_flatMap, flatMap_filter]
  refine List.flatMap_congr fun first _ => ?_
  rw [List.filter_filterMap, List.filterMap_filter]
  cases kept : keep first with
  | false =>
    rw [if_neg Bool.false_ne_true, List.filterMap_eq_nil_iff]
    intro second _
    cases found : merge first second with
    | none => rfl
    | some element =>
      have dropped := merged found
      rw [kept, Bool.false_and] at dropped
      rw [Option.filter_some, dropped]
      rfl
  | true =>
    rw [if_pos rfl]
    refine List.filterMap_congr fun second _ => ?_
    cases found : merge first second with
    | none => cases keep second <;> rfl
    | some element =>
      have same := merged found
      rw [kept, Bool.true_and] at same
      rw [Option.filter_some, same]

/-! ## Multisets -/

/-- What an option holds. -/
def chosen : Option α → Multiset α
  | none => 0
  | some element => {element}

theorem chosen_bind (option : Option α) (next : α → Option α) :
    (chosen option).bind (fun element => chosen (next element)) = chosen (option.bind next) := by
  cases option with
  | none => exact Multiset.zero_bind _
  | some element => exact Multiset.singleton_bind element _

theorem mem_chosen {option : Option α} {element : α} :
    element ∈ chosen option ↔ option = some element := by
  cases option with
  | none => simp [chosen]
  | some found => simp [chosen, eq_comm]

def multisetJoin (merge : α → α → Option α) (left right : Multiset α) : Multiset α :=
  left.bind fun first => right.bind fun second => chosen (merge first second)

theorem mem_multisetJoin {left right : Multiset α} {element : α} :
    element ∈ multisetJoin merge left right ↔
      ∃ first ∈ left, ∃ second ∈ right, merge first second = some element := by
  simp only [multisetJoin, Multiset.mem_bind, mem_chosen]

theorem coe_joinPairs (left right : List α) :
    (joinPairs merge left right : Multiset α) = multisetJoin merge left right := by
  rw [joinPairs, ← Multiset.coe_bind, multisetJoin]
  congr 1
  funext first
  induction right with
  | nil => rfl
  | cons second rest induction =>
    rw [List.filterMap_cons, ← Multiset.cons_coe, Multiset.cons_bind, ← induction]
    cases merge first second with
    | none => exact (zero_add _).symm
    | some merged => rfl

section Laws

variable (merging : Merging merge unit)

include merging

theorem multisetJoin_comm (left right : Multiset α) :
    multisetJoin merge left right = multisetJoin merge right left := by
  rw [multisetJoin, Multiset.bind_bind]
  simp only [merging.comm]
  rfl

theorem multisetJoin_assoc (first second third : Multiset α) :
    multisetJoin merge (multisetJoin merge first second) third =
      multisetJoin merge first (multisetJoin merge second third) := by
  have left : multisetJoin merge (multisetJoin merge first second) third =
      first.bind fun one => second.bind fun two => third.bind fun three =>
        chosen ((merge one two).bind (merge · three)) := by
    simp only [multisetJoin, Multiset.bind_assoc]
    congr 1
    funext one
    congr 1
    funext two
    rw [Multiset.bind_bind]
    simp only [chosen_bind]
  have right : multisetJoin merge first (multisetJoin merge second third) =
      first.bind fun one => second.bind fun two => third.bind fun three =>
        chosen ((merge two three).bind (merge one)) := by
    simp only [multisetJoin, Multiset.bind_assoc, chosen_bind]
  rw [left, right]
  simp only [merging.assoc]

theorem multisetJoin_unit (right : Multiset α) : multisetJoin merge {unit} right = right := by
  rw [multisetJoin, Multiset.singleton_bind]
  simp only [merging.unit_left]
  exact (Multiset.bind_singleton right id).trans (Multiset.map_id right)

/-- Joins in any order, from any start. -/
theorem foldl_multisetJoin_perm {first second : Multiset α} {rest others : List (Multiset α)}
    (perm : (first :: rest).Perm (second :: others)) :
    rest.foldl (multisetJoin merge) first = others.foldl (multisetJoin merge) second := by
  have commutes : RightCommutative (multisetJoin merge) := ⟨fun start one two => by
    rw [multisetJoin_assoc merging, multisetJoin_assoc merging, multisetJoin_comm merging one]⟩
  have fromUnit : (first :: rest).foldl (multisetJoin merge) {unit} =
      (second :: others).foldl (multisetJoin merge) {unit} := perm.foldl_eq {unit}
  simpa only [List.foldl_cons, multisetJoin_unit merging] using fromUnit

/-- The fold from any start is the fold from the unit, joined to the start. -/
theorem foldl_multisetJoin_eq (start : Multiset α) (rest : List (Multiset α)) :
    rest.foldl (multisetJoin merge) start =
      multisetJoin merge start (rest.foldl (multisetJoin merge) {unit}) := by
  induction rest generalizing start with
  | nil =>
    rw [List.foldl_nil, List.foldl_nil, multisetJoin_comm merging, multisetJoin_unit merging]
  | cons next rest induction =>
    rw [List.foldl_cons, List.foldl_cons, induction, induction (multisetJoin merge {unit} next),
      multisetJoin_unit merging, multisetJoin_assoc merging]

theorem foldl_multisetJoin_append (front back : List (Multiset α)) :
    (front ++ back).foldl (multisetJoin merge) {unit} =
      multisetJoin merge (front.foldl (multisetJoin merge) {unit})
        (back.foldl (multisetJoin merge) {unit}) := by
  rw [List.foldl_append]
  exact foldl_multisetJoin_eq merging _ back

end Laws

@[simp] theorem multisetJoin_zero (merge : α → α → Option α) (right : Multiset α) :
    multisetJoin merge 0 right = 0 :=
  Multiset.zero_bind _

theorem foldl_multisetJoin_zero (merge : α → α → Option α) (rest : List (Multiset α)) :
    rest.foldl (multisetJoin merge) 0 = 0 := by
  induction rest with
  | nil => rfl
  | cons next rest induction => rw [List.foldl_cons, multisetJoin_zero, induction]

end GStore
