import Mathlib

/-! # The element with the greatest key

`Iterator::max_by_key` returns the last of the elements whose key is greatest. Over
an ascending list that is the greatest of them. -/

namespace GStore

variable {α β : Type*} [LinearOrder β]

/-- `Iterator::max_by_key`. -/
def maxByKey (key : α → β) : List α → Option α
  | [] => none
  | first :: rest =>
    some (rest.foldl (fun best next => if key best ≤ key next then next else best) first)

variable {key : α → β}

theorem maxByKey_isSome {list : List α} (nonempty : list ≠ []) :
    ∃ best, maxByKey key list = some best := by
  cases list with
  | nil => exact absurd rfl nonempty
  | cons first rest => exact ⟨_, rfl⟩

section Ascending

variable [LinearOrder α]

/-- The order of the choice: by key, then by place. -/
def Outranks (key : α → β) (best other : α) : Prop :=
  key other < key best ∨ (key other = key best ∧ other ≤ best)

theorem Outranks.antisymm {left right : α} (forward : Outranks key left right)
    (backward : Outranks key right left) : left = right := by
  rcases forward with less | ⟨same, below⟩ <;> rcases backward with greater | ⟨equal, above⟩
  · exact absurd (less.trans greater) (lt_irrefl _)
  · exact absurd less (by rw [equal]; exact lt_irrefl _)
  · exact absurd greater (by rw [same]; exact lt_irrefl _)
  · exact le_antisymm above below

theorem foldl_outranks (key : α → β) {rest : List α} :
    ∀ {first : α}, (∀ other ∈ rest, first < other) → rest.Pairwise (· < ·) →
      let best := rest.foldl (fun best next => if key best ≤ key next then next else best) first
      best ∈ first :: rest ∧ ∀ other ∈ first :: rest, Outranks key best other := by
  induction rest with
  | nil =>
    intro first _ _
    refine ⟨List.mem_singleton_self _, ?_⟩
    intro other member
    rw [List.mem_singleton.mp member]
    exact .inr ⟨rfl, le_refl _⟩
  | cons next rest induction =>
    intro first above ascending
    have parts := List.pairwise_cons.mp ascending
    have later : ∀ other ∈ rest, first < other := fun other member =>
      above other (List.mem_cons_of_mem _ member)
    rw [List.foldl_cons]
    split
    · rename_i overtaken
      rcases induction parts.1 parts.2 with ⟨member, best⟩
      refine ⟨List.mem_cons_of_mem _ member, ?_⟩
      intro other present
      rcases List.mem_cons.mp present with rfl | present
      · have nextBest := best next List.mem_cons_self
        have before := above next List.mem_cons_self
        rcases nextBest with less | ⟨same, below⟩
        · exact .inl (lt_of_le_of_lt overtaken less)
        · rcases lt_or_eq_of_le overtaken with less | equal
          · exact .inl (same ▸ less)
          · exact .inr ⟨equal.trans same, before.le.trans below⟩
      · exact best other present
    · rename_i kept
      rcases induction later parts.2 with ⟨member, best⟩
      refine ⟨?_, ?_⟩
      · rcases List.mem_cons.mp member with same | present
        · exact List.mem_cons.mpr (.inl same)
        · exact List.mem_cons_of_mem _ (List.mem_cons_of_mem _ present)
      · intro other present
        rcases List.mem_cons.mp present with rfl | present
        · exact best _ List.mem_cons_self
        · rcases List.mem_cons.mp present with rfl | present
          · rcases best first List.mem_cons_self with less | ⟨same, -⟩
            · exact .inl ((not_le.mp kept).trans less)
            · exact .inl (same ▸ not_le.mp kept)
          · exact best other (List.mem_cons_of_mem _ present)

/-- Over an ascending list the choice is the one that outranks all. -/
theorem maxByKey_eq_some_iff {list : List α} (ascending : list.Pairwise (· < ·)) {best : α} :
    maxByKey key list = some best ↔ best ∈ list ∧ ∀ other ∈ list, Outranks key best other := by
  cases list with
  | nil => simp [maxByKey]
  | cons first rest =>
    have parts := List.pairwise_cons.mp ascending
    have chosen := foldl_outranks key parts.1 parts.2
    rw [maxByKey, Option.some.injEq]
    constructor
    · rintro rfl
      exact chosen
    · rintro ⟨member, outranks⟩
      exact (chosen.2 best member).antisymm (outranks _ chosen.1)

/-- The choice from a list is the choice from any part of it that still has it. -/
theorem maxByKey_of_subset {part list : List α} (ascending : list.Pairwise (· < ·))
    (partAscending : part.Pairwise (· < ·)) (subset : part ⊆ list) {best : α}
    (chosen : maxByKey key list = some best) (kept : best ∈ part) :
    maxByKey key part = some best := by
  rw [maxByKey_eq_some_iff ascending] at chosen
  rw [maxByKey_eq_some_iff partAscending]
  exact ⟨kept, fun other member => chosen.2 other (subset member)⟩

end Ascending

end GStore
