import Mathlib.Data.List.Basic

/-! # Consecutive chunks of a list -/

namespace GStore

universe u

variable {α : Type u}

/-- The chunks, with fuel for the number of them. -/
@[grind =] def chunksFrom (size : Nat) : Nat → List α → List (List α)
  | 0, _ => []
  | _ + 1, [] => []
  | fuel + 1, first :: rest =>
    (first :: rest).take size :: chunksFrom size fuel ((first :: rest).drop size)

/-- Consecutive chunks of `size` elements, the last one possibly shorter. -/
def chunks (size : Nat) (list : List α) : List (List α) := chunksFrom size list.length list

theorem chunksFrom_map {β : Type*} (f : α → β) (size fuel : Nat) :
    ∀ list : List α, chunksFrom size fuel (list.map f) =
      (chunksFrom size fuel list).map (List.map f) := by
  induction fuel with
  | zero => intro list; rfl
  | succ fuel induction =>
    intro list
    cases list with
    | nil => rfl
    | cons first rest =>
      have further := induction ((first :: rest).drop size)
      rw [List.map_drop, List.map_cons] at further
      rw [List.map_cons, chunksFrom, chunksFrom, further, List.map_cons, List.map_take,
        List.map_cons]

theorem chunks_map {β : Type*} (f : α → β) (size : Nat) (list : List α) :
    chunks size (list.map f) = (chunks size list).map (List.map f) := by
  rw [chunks, List.length_map, chunksFrom_map]
  rfl

section Size

variable {size : Nat} (positive : 0 < size)

include positive

theorem flatten_chunksFrom (fuel : Nat) :
    ∀ list : List α, list.length ≤ fuel → (chunksFrom size fuel list).flatten = list := by
  induction fuel with
  | zero =>
    intro list short
    rw [List.eq_nil_of_length_eq_zero (Nat.le_zero.mp short)]
    rfl
  | succ fuel induction =>
    intro list short
    cases list with
    | nil => rfl
    | cons first rest =>
      rw [chunksFrom, List.flatten_cons, induction, List.take_append_drop]
      simp only [List.length_drop, List.length_cons] at short ⊢
      omega

theorem mem_chunksFrom (fuel : Nat) :
    ∀ list : List α, ∀ chunk ∈ chunksFrom size fuel list,
      chunk ≠ [] ∧ chunk.length ≤ size := by
  induction fuel with
  | zero => simp [chunksFrom]
  | succ fuel induction =>
    intro list chunk member
    cases list with
    | nil => simp [chunksFrom] at member
    | cons first rest =>
      rw [chunksFrom, List.mem_cons] at member
      rcases member with rfl | further
      · refine ⟨?_, List.length_take_le _ _⟩
        rw [ne_eq, List.take_eq_nil_iff]
        simp
        omega
      · exact induction _ chunk further

/-- Chunks of two or more are fewer than the elements. -/
theorem length_chunksFrom_le (fuel : Nat) :
    ∀ list : List α, (chunksFrom size fuel list).length ≤ (list.length + size - 1) / size := by
  induction fuel with
  | zero => simp [chunksFrom]
  | succ fuel induction =>
    intro list
    cases list with
    | nil => simp [chunksFrom]
    | cons first rest =>
      have further := induction ((first :: rest).drop size)
      rw [chunksFrom, List.length_cons]
      rw [List.length_drop] at further
      rw [Nat.le_div_iff_mul_le positive] at further ⊢
      have count : (first :: rest).length = rest.length + 1 := rfl
      rw [Nat.add_mul]
      by_cases whole : size ≤ (first :: rest).length
      · omega
      · have none : (first :: rest).length - size = 0 := by omega
        rw [none] at further
        have few : (chunksFrom size fuel ((first :: rest).drop size)).length = 0 := by
          rw [List.drop_eq_nil_of_le (by omega)]
          cases fuel <;> rfl
        rw [few]
        omega

theorem flatten_chunks (list : List α) : (chunks size list).flatten = list :=
  flatten_chunksFrom positive _ list (Nat.le_refl _)

theorem ne_nil_of_mem_chunks {list chunk : List α} (member : chunk ∈ chunks size list) :
    chunk ≠ [] :=
  (mem_chunksFrom positive _ list chunk member).1

theorem length_le_of_mem_chunks {list chunk : List α} (member : chunk ∈ chunks size list) :
    chunk.length ≤ size :=
  (mem_chunksFrom positive _ list chunk member).2

theorem length_chunks_le (list : List α) :
    (chunks size list).length ≤ (list.length + size - 1) / size :=
  length_chunksFrom_le positive _ list

/-- Fuel for the elements is enough. -/
theorem chunksFrom_eq (fuel : Nat) :
    ∀ (other : Nat) (list : List α), list.length ≤ fuel → list.length ≤ other →
      chunksFrom size fuel list = chunksFrom size other list := by
  induction fuel with
  | zero =>
    intro other list short _
    rw [List.eq_nil_of_length_eq_zero (Nat.le_zero.mp short)]
    cases other <;> rfl
  | succ fuel induction =>
    intro other list short otherShort
    cases list with
    | nil => cases other <;> rfl
    | cons first rest =>
      cases other with
      | zero => cases otherShort
      | succ other =>
        have shorter : ((first :: rest).drop size).length ≤ rest.length := by
          rw [List.length_drop, List.length_cons]
          omega
        rw [List.length_cons] at short otherShort
        rw [chunksFrom, chunksFrom, induction other _ (by omega) (by omega)]

theorem chunks_eq_cons {list : List α} (nonempty : list ≠ []) :
    chunks size list = list.take size :: chunks size (list.drop size) := by
  cases list with
  | nil => exact absurd rfl nonempty
  | cons first rest =>
    have shorter : ((first :: rest).drop size).length ≤ rest.length := by
      rw [List.length_drop, List.length_cons]
      omega
    rw [chunks, List.length_cons, chunksFrom, chunks,
      chunksFrom_eq positive rest.length _ _ shorter (Nat.le_refl _)]

theorem chunks_ne_nil {list : List α} (nonempty : list ≠ []) : chunks size list ≠ [] := by
  intro empty
  have rebuilt := flatten_chunks positive list
  rw [empty] at rebuilt
  exact nonempty rebuilt.symm

end Size

theorem length_chunks_lt {size : Nat} (two : 2 ≤ size) {list : List α} (many : 1 < list.length) :
    (chunks size list).length < list.length := by
  have bound := length_chunks_le (by omega : 0 < size) list
  rw [Nat.le_div_iff_mul_le (by omega)] at bound
  by_contra all
  have grown : list.length * size ≤ (chunks size list).length * size :=
    Nat.mul_le_mul_right size (by omega)
  have expand : list.length * 2 ≤ list.length * size := Nat.mul_le_mul_left _ two
  have split : list.length * size = (list.length - 1) * size + size := by
    rw [← Nat.succ_mul]
    congr 1
    omega
  have more : (list.length - 1) * 2 ≤ (list.length - 1) * size := Nat.mul_le_mul_left _ two
  omega

end GStore
