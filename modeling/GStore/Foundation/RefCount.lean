import Mathlib.Data.Finset.Card
import Mathlib.Data.Finset.Image

/-! # Distinct values by reference counting

How many elements of a set have a value, and how many values they have. When an element
comes or goes, the number of values moves exactly when no other element has its value. -/

namespace GStore

variable {α β : Type*} [DecidableEq β]

/-- How many elements have the value. -/
def multiplicity (value : α → β) (chosen : β) (set : Finset α) : Nat :=
  (set.filter fun element => value element = chosen).card

/-- How many values the elements have. -/
def distinct (value : α → β) (set : Finset α) : Nat := (set.image value).card

variable {set : Finset α} {element : α}

theorem multiplicity_insert [DecidableEq α] (value : α → β) (chosen : β) (fresh : element ∉ set) :
    multiplicity value chosen (insert element set) =
      multiplicity value chosen set + if value element = chosen then 1 else 0 := by
  rw [multiplicity, Finset.filter_insert]
  by_cases same : value element = chosen
  · rw [if_pos same, if_pos same, Finset.card_insert_of_notMem, multiplicity]
    exact fun member => fresh (Finset.mem_of_mem_filter _ member)
  · rw [if_neg same, if_neg same, Nat.add_zero, multiplicity]

theorem multiplicity_eq_zero (value : α → β) (chosen : β) :
    multiplicity value chosen set = 0 ↔ ∀ element ∈ set, value element ≠ chosen := by
  rw [multiplicity, Finset.card_eq_zero, Finset.filter_eq_empty_iff]

theorem multiplicity_pos (value : α → β) (chosen : β) :
    0 < multiplicity value chosen set ↔ ∃ element ∈ set, value element = chosen := by
  rw [multiplicity, Finset.card_pos, Finset.filter_nonempty_iff]

theorem distinct_insert [DecidableEq α] (value : α → β) (element : α) (set : Finset α) :
    distinct value (insert element set) =
      distinct value set + if multiplicity value (value element) set = 0 then 1 else 0 := by
  by_cases shared : ∃ other ∈ set, value other = value element
  · have counted : multiplicity value (value element) set ≠ 0 := by
      rw [← Nat.pos_iff_ne_zero, multiplicity_pos]
      exact shared
    rw [distinct, Finset.image_insert, Finset.insert_eq_self.mpr (Finset.mem_image.mpr shared),
      if_neg counted, Nat.add_zero, distinct]
  · have alone : multiplicity value (value element) set = 0 := by
      rw [multiplicity_eq_zero]
      exact fun other member same => shared ⟨other, member, same⟩
    rw [distinct, Finset.image_insert, if_pos alone, distinct,
      Finset.card_insert_of_notMem (mt Finset.mem_image.mp shared)]

end GStore
