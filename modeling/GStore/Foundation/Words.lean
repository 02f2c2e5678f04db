import Mathlib.Order.Lex
import Mathlib.Order.Defs.LinearOrder
import Mathlib.Data.List.Nodup
import Mathlib.Data.List.Perm.Subperm
import Mathlib.Data.List.Range

/-! # Machine words as linear orders

The store compares ids and key bytes as unsigned machine words. The word types
already have their order relations; these instances only collect the laws. -/

namespace GStore

instance linearOrderUInt8 : LinearOrder UInt8 where
  le_refl := UInt8.le_refl
  le_trans _ _ _ := UInt8.le_trans
  le_antisymm _ _ := UInt8.le_antisymm
  lt_iff_le_not_ge left right := by
    rw [UInt8.not_le]
    exact ⟨fun less => ⟨UInt8.le_of_lt less, less⟩, And.right⟩
  le_total := UInt8.le_total
  toDecidableLE := inferInstance
  toDecidableEq := inferInstance
  toDecidableLT := inferInstance
  compare_eq_compareOfLessAndEq _ _ := rfl

instance linearOrderUInt32 : LinearOrder UInt32 where
  le_refl := UInt32.le_refl
  le_trans _ _ _ := UInt32.le_trans
  le_antisymm _ _ := UInt32.le_antisymm
  lt_iff_le_not_ge left right := by
    rw [UInt32.not_le]
    exact ⟨fun less => ⟨UInt32.le_of_lt less, less⟩, And.right⟩
  le_total := UInt32.le_total
  toDecidableLE := inferInstance
  toDecidableEq := inferInstance
  toDecidableLT := inferInstance
  compare_eq_compareOfLessAndEq _ _ := rfl

instance linearOrderUInt64 : LinearOrder UInt64 where
  le_refl := UInt64.le_refl
  le_trans _ _ _ := UInt64.le_trans
  le_antisymm _ _ := UInt64.le_antisymm
  lt_iff_le_not_ge left right := by
    rw [UInt64.not_le]
    exact ⟨fun less => ⟨UInt64.le_of_lt less, less⟩, And.right⟩
  le_total := UInt64.le_total
  toDecidableLE := inferInstance
  toDecidableEq := inferInstance
  toDecidableLT := inferInstance
  compare_eq_compareOfLessAndEq _ _ := rfl

instance lawfulBEqUInt64 : LawfulBEq UInt64 := inferInstance

/-- A list of different words is no longer than there are words. -/
theorem length_le_of_nodup_words {words : List UInt32} (nodup : words.Nodup) :
    words.length ≤ UInt32.size := by
  have below : words.map UInt32.toNat ⊆ List.range UInt32.size := by
    intro value member
    rcases List.mem_map.mp member with ⟨word, -, rfl⟩
    exact List.mem_range.mpr word.toNat_lt
  have distinct : (words.map UInt32.toNat).Nodup :=
    nodup.map fun _ _ same => UInt32.toNat_inj.mp same
  simpa using (distinct.subperm below).length_le

end GStore
