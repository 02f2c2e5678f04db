import Mathlib.Data.List.Destutter
import Mathlib.Data.List.Sort
import Mathlib.Data.List.InsertIdx

/-! # Sorted slices

The slice operations of the standard library that the store builds its sorted
lists with: `partition_point`, `binary_search`, and `sort` followed by `dedup`.
Their documented behaviour is only fixed on slices that are sorted, so every
rule below takes the slice to be strictly ascending. -/

namespace GStore.SortedSlice

variable {α : Type*}

/-- `slice::partition_point`: the index of the first element at which the
predicate fails. -/
def partitionPoint (before : α → Bool) (slice : List α) : Nat :=
  slice.findIdx fun element => !before element

@[simp] theorem insertIdx_length_append (front back : List α) (element : α) :
    (front ++ back).insertIdx front.length element = front ++ element :: back := by
  induction front with
  | nil => simp
  | cons head tail induction => simp [induction]

@[simp] theorem eraseIdx_length_append (front back : List α) (element : α) :
    (front ++ element :: back).eraseIdx front.length = front ++ back := by
  induction front with
  | nil => simp
  | cons head tail induction => simp [induction]

@[simp] theorem modify_length_append (front back : List α) (element : α) (change : α → α) :
    (front ++ element :: back).modify front.length change = front ++ change element :: back := by
  induction front with
  | nil => simp
  | cons head tail induction => simp [induction]

theorem partitionPoint_append {before : α → Bool} {front back : List α}
    (frontBefore : ∀ element ∈ front, before element = true)
    (backAfter : ∀ element ∈ back, before element = false) :
    partitionPoint before (front ++ back) = front.length := by
  induction front with
  | nil =>
    cases back with
    | nil => rfl
    | cons head tail =>
      simp [partitionPoint, List.findIdx_cons, backAfter head (by simp)]
  | cons head tail induction =>
    have rest := induction fun element member =>
      frontBefore element (List.mem_cons_of_mem head member)
    have headBefore := frontBefore head (by simp)
    simp only [partitionPoint] at rest ⊢
    simp [List.findIdx_cons, headBefore, rest]

/-- A slice on which the predicate, once false, stays false falls into the
elements before the partition point and the others. -/
theorem exists_split (before : α → Bool) (slice : List α)
    (partitioned : slice.Pairwise fun left right =>
      before right = true → before left = true) :
    ∃ front back, slice = front ++ back ∧
      (∀ element ∈ front, before element = true) ∧
      (∀ element ∈ back, before element = false) := by
  induction slice with
  | nil => exact ⟨[], [], rfl, by simp, by simp⟩
  | cons head tail induction =>
    have parts := List.pairwise_cons.mp partitioned
    cases headBefore : before head with
    | true =>
      obtain ⟨front, back, equal, frontBefore, backAfter⟩ := induction parts.2
      refine ⟨head :: front, back, by rw [equal]; rfl, ?_, backAfter⟩
      intro element member
      rcases List.mem_cons.mp member with same | member
      · exact same ▸ headBefore
      · exact frontBefore element member
    | false =>
      refine ⟨[], head :: tail, rfl, by simp, ?_⟩
      intro element member
      rcases List.mem_cons.mp member with same | member
      · exact same ▸ headBefore
      · cases elementBefore : before element with
        | false => rfl
        | true => simp [parts.1 element member elementBefore] at headBefore

theorem partitionPoint_le_length (before : α → Bool) (slice : List α) :
    partitionPoint before slice ≤ slice.length :=
  List.findIdx_le_length

section LinearOrder

variable [LinearOrder α]

/-- `slice::binary_search`: the position of the target, or the position at
which inserting it keeps the slice sorted. -/
def binarySearch (slice : List α) (target : α) : Except Nat Nat :=
  let position := partitionPoint (fun element => decide (element < target)) slice
  if slice[position]? = some target then .ok position else .error position

theorem exists_split_lt (slice : List α) (sorted : slice.Pairwise (· < ·))
    (bound : α) :
    ∃ below above, slice = below ++ above ∧
      (∀ element ∈ below, element < bound) ∧
      (∀ element ∈ above, bound ≤ element) := by
  obtain ⟨below, above, equal, belowBound, aboveBound⟩ :=
    exists_split (fun element => decide (element < bound)) slice
      (sorted.imp fun less rightBelow => by
        simp only [decide_eq_true_eq] at rightBelow ⊢
        exact less.trans rightBelow)
  refine ⟨below, above, equal, ?_, ?_⟩
  · simpa using belowBound
  · simpa using aboveBound

/-- The two outcomes of a binary search, each with the shape of the slice
around the position it returns. -/
theorem binarySearch_cases (slice : List α) (sorted : slice.Pairwise (· < ·))
    (target : α) :
    (∃ below above, slice = below ++ target :: above ∧
      binarySearch slice target = .ok below.length ∧
      (∀ element ∈ below, element < target) ∧
      (∀ element ∈ above, target < element)) ∨
    (∃ below above, slice = below ++ above ∧
      binarySearch slice target = .error below.length ∧
      (∀ element ∈ below, element < target) ∧
      (∀ element ∈ above, target < element)) := by
  obtain ⟨below, above, equal, belowBound, aboveBound⟩ :=
    exists_split_lt slice sorted target
  have position : partitionPoint (fun element => decide (element < target)) slice =
      below.length := by
    rw [equal]
    apply partitionPoint_append
    · intro element member
      simpa using belowBound element member
    · intro element member
      simpa using aboveBound element member
  have abovePairwise : above.Pairwise (· < ·) :=
    (List.pairwise_append.mp (equal ▸ sorted)).2.1
  have search : binarySearch slice target =
      if above.head? = some target then .ok below.length else .error below.length := by
    simp only [binarySearch, position]
    rw [equal, List.getElem?_append_right (le_refl _), Nat.sub_self]
    cases above <;> simp
  cases above with
  | nil => exact .inr ⟨below, [], equal, by simp [search], belowBound, by simp⟩
  | cons head tail =>
    have headBelowTail := (List.pairwise_cons.mp abovePairwise).1
    by_cases same : head = target
    · subst same
      exact .inl ⟨below, tail, equal, by simp [search], belowBound, headBelowTail⟩
    · have targetLess : target < head :=
        lt_of_le_of_ne (aboveBound head (by simp)) (Ne.symm same)
      refine .inr ⟨below, head :: tail, equal, by simp [search, same], belowBound, ?_⟩
      intro element member
      rcases List.mem_cons.mp member with equalHead | member
      · exact equalHead ▸ targetLess
      · exact targetLess.trans (headBelowTail element member)

/-- The same for the keys of a slice of pairs. -/
theorem binarySearch_keys_cases {β : Type*} (slice : List (α × β))
    (sorted : slice.Pairwise fun left right => left.1 < right.1) (target : α) :
    (∃ below value above, slice = below ++ (target, value) :: above ∧
      binarySearch (slice.map Prod.fst) target = .ok below.length ∧
      (∀ element ∈ below, element.1 < target) ∧
      (∀ element ∈ above, target < element.1)) ∨
    (∃ below above, slice = below ++ above ∧
      binarySearch (slice.map Prod.fst) target = .error below.length ∧
      (∀ element ∈ below, element.1 < target) ∧
      (∀ element ∈ above, target < element.1)) := by
  rcases binarySearch_cases (slice.map Prod.fst) (List.pairwise_map.mpr sorted) target with
    ⟨below, above, equal, found, low, high⟩ | ⟨below, above, equal, missed, low, high⟩
  · obtain ⟨front, rest, sliceEq, belowEq, restEq⟩ := List.map_eq_append_iff.mp equal
    obtain ⟨pair, back, restCons, pairEq, aboveEq⟩ := List.map_eq_cons_iff.mp restEq
    subst belowEq aboveEq
    refine .inl ⟨front, pair.2, back, by rw [sliceEq, restCons, ← pairEq], ?_, ?_, ?_⟩
    · simpa using found
    · simpa using low
    · simpa using high
  · obtain ⟨front, back, sliceEq, belowEq, aboveEq⟩ := List.map_eq_append_iff.mp equal
    subst belowEq aboveEq
    refine .inr ⟨front, back, sliceEq, ?_, ?_, ?_⟩
    · simpa using missed
    · simpa using low
    · simpa using high

theorem binarySearch_isOk_iff (slice : List α) (sorted : slice.Pairwise (· < ·))
    (target : α) : (binarySearch slice target).isOk ↔ target ∈ slice := by
  rcases binarySearch_cases slice sorted target with
    ⟨below, above, equal, found, -, -⟩ | ⟨below, above, equal, missed, low, high⟩
  · rw [found, equal]
    simp [Except.isOk, Except.toBool]
  · have absent : target ∉ slice := by
      rw [equal, List.mem_append]
      rintro (member | member)
      · exact lt_irrefl _ (low target member)
      · exact lt_irrefl _ (high target member)
    rw [missed]
    simp [absent, Except.isOk, Except.toBool]

/-! `Vec::dedup` drops adjacent repetitions, which on an ascending vector are
all repetitions. -/

theorem mem_destutter {slice : List α} (ascending : slice.Pairwise (· ≤ ·))
    {element : α} : element ∈ slice.destutter (· ≠ ·) ↔ element ∈ slice := by
  rw [ascending.destutter_eq_dedup, List.mem_dedup]

theorem destutter_pairwise {slice : List α} (ascending : slice.Pairwise (· ≤ ·)) :
    (slice.destutter (· ≠ ·)).Pairwise (· < ·) := by
  rw [ascending.destutter_eq_dedup]
  have distinct : slice.dedup.Nodup := List.nodup_dedup slice
  exact ((ascending.sublist (List.dedup_sublist slice)).and distinct).imp
    fun order => lt_of_le_of_ne order.1 order.2

/-- `Vec::sort` followed by `Vec::dedup`. -/
def sortDedup (slice : List α) : List α :=
  (slice.insertionSort (· ≤ ·)).destutter (· ≠ ·)

@[simp] theorem mem_sortDedup {slice : List α} {element : α} :
    element ∈ sortDedup slice ↔ element ∈ slice := by
  rw [sortDedup, mem_destutter (List.pairwise_insertionSort (· ≤ ·) slice),
    List.mem_insertionSort]

theorem sortDedup_pairwise (slice : List α) :
    (sortDedup slice).Pairwise (· < ·) :=
  destutter_pairwise (List.pairwise_insertionSort (· ≤ ·) slice)

end LinearOrder

end GStore.SortedSlice
