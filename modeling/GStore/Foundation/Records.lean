import GStore.Foundation.Bytes
import Mathlib.Data.List.GetD
import Mathlib.Logic.Function.Basic

/-! # Records of one width

A byte string that is an array: record `index` is the bytes from `index * width` on. -/

namespace GStore

/-- The records below `count`, one after the other. -/
def records (encode : Nat → Bytes) (count : Nat) : Bytes := (List.range count).flatMap encode

variable {encode other : Nat → Bytes} {width count index : Nat}

theorem records_succ (encode : Nat → Bytes) (count : Nat) :
    records encode (count + 1) = records encode count ++ encode count := by
  rw [records, List.range_succ, List.flatMap_append, List.flatMap_singleton]
  rfl

theorem length_records (lengths : ∀ index, (encode index).length = width) (count : Nat) :
    (records encode count).length = count * width := by
  rw [records, length_flatMap encode _ fun index _ => lengths index, List.length_range]

theorem records_congr (same : ∀ index < count, encode index = other index) :
    records encode count = records other count := by
  induction count with
  | zero => rfl
  | succ count induction =>
    rw [records_succ, records_succ, same count (Nat.lt_succ_self count),
      induction fun index below => same index (Nat.lt_succ_of_lt below)]

theorem getD_records (lengths : ∀ index, (encode index).length = width) {position : Nat}
    (within : position < count * width) : (records encode count).getD position 0 =
      (encode (position / width)).getD (position % width) 0 := by
  induction count with
  | zero => omega
  | succ count induction =>
    have length := length_records lengths count
    rw [Nat.add_mul, Nat.one_mul] at within
    rw [records_succ]
    by_cases before : position < count * width
    · rw [List.getD_append _ _ _ _ (by rw [length]; exact before)]
      exact induction before
    · have last : position / width = count := by
        rw [Nat.div_eq_iff (by omega)]
        omega
      have offset : position % width = position - count * width := by
        have parts := Nat.div_add_mod position width
        rw [last, Nat.mul_comm] at parts
        omega
      rw [List.getD_append_right _ _ _ _ (by rw [length]; omega), length, last, offset]

/-- A record is read back. -/
theorem slice_records (lengths : ∀ index, (encode index).length = width) (below : index < count) :
    slice (records encode count) (index * width) (index * width + width) = encode index := by
  have within : index < (List.range count).length := by rwa [List.length_range]
  rw [records, slice_flatMap encode _ index within fun index _ => lengths index,
    List.getElem_range]

/-- A record that is written over leaves the others as they are. -/
theorem writeAt_records (lengths : ∀ index, (encode index).length = width) (below : index < count)
    {data : Bytes} (length : data.length = width) :
    writeAt (records encode count) (index * width) data =
      records (Function.update encode index data) count := by
  have updated : ∀ position, (Function.update encode index data position).length = width := by
    intro position
    by_cases same : position = index
    · rw [same, Function.update_self, length]
    · rw [Function.update_of_ne same, lengths]
  have size := length_records lengths count
  have bound : index * width + width ≤ count * width := by
    rw [← Nat.succ_mul]
    exact Nat.mul_le_mul_right width below
  apply file_ext
  · rw [length_writeAt, size, length, length_records updated]
    omega
  · intro position
    rw [getD_writeAt, length]
    by_cases within : position < count * width
    · rw [getD_records lengths within, getD_records updated within]
      by_cases inside : index * width ≤ position ∧ position < index * width + width
      · have quotient : position / width = index := by
          rw [Nat.div_eq_iff (by omega)]
          omega
        have remainder : position % width = position - index * width := by
          have parts := Nat.div_add_mod position width
          rw [quotient, Nat.mul_comm] at parts
          omega
        rw [if_pos inside, quotient, remainder, Function.update_self]
      · have apart : position / width ≠ index := by
          rintro rfl
          have parts := Nat.div_add_mod position width
          have small := Nat.mod_lt position (y := width) (by grind)
          rw [Nat.mul_comm] at parts
          omega
        rw [if_neg inside, Function.update_of_ne apart]
    · rw [if_neg (by omega), List.getD_eq_default _ _ (by omega),
        List.getD_eq_default _ _ (by rw [length_records updated]; omega)]

/-- Records of zeros are zeros. -/
theorem records_zero (width count : Nat) :
    records (fun _ => List.replicate width 0) count = List.replicate (count * width) 0 := by
  induction count with
  | zero => simp [records]
  | succ count induction =>
    rw [records_succ, induction, ← List.replicate_add, Nat.add_mul, Nat.one_mul]

end GStore
