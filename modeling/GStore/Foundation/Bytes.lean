import Mathlib.Data.List.Basic
import Mathlib.Data.Nat.ModEq
import Mathlib.Tactic.Ring

/-! # Byte strings

Fixed-width little-endian integers, slices, and files as growable byte strings. -/

namespace GStore

abbrev Bytes := List UInt8

/-! ## Little-endian integers -/

def leBytes : Nat → Nat → Bytes
  | 0, _ => []
  | width + 1, value => UInt8.ofNat value :: leBytes width (value / 256)

def leValue : Bytes → Nat
  | [] => 0
  | byte :: rest => byte.toNat + 256 * leValue rest

@[simp] theorem length_leBytes (width : Nat) :
    ∀ value, (leBytes width value).length = width := by
  induction width with
  | zero => intro value; rfl
  | succ width induction =>
    intro value
    rw [leBytes, List.length_cons, induction]

theorem leValue_leBytes (width : Nat) :
    ∀ value, leValue (leBytes width value) = value % 256 ^ width := by
  induction width with
  | zero => intro value; simp [leBytes, leValue, Nat.mod_one]
  | succ width induction =>
    intro value
    rw [leBytes, leValue, induction, Nat.pow_succ, Nat.mul_comm _ 256, Nat.mod_mul]
    simp

/-- `u32::to_le_bytes` and back. -/
def le32 (value : UInt32) : Bytes := leBytes 4 value.toNat

def ofLe32 (bytes : Bytes) : UInt32 := UInt32.ofNat (leValue bytes)

@[simp] theorem length_le32 (value : UInt32) : (le32 value).length = 4 := length_leBytes 4 _

@[simp] theorem ofLe32_le32 (value : UInt32) : ofLe32 (le32 value) = value := by
  have bound := value.toNat_lt
  rw [ofLe32, le32, leValue_leBytes, Nat.mod_eq_of_lt (by simpa using bound)]
  exact UInt32.ofNat_toNat

/-- `u16::to_le_bytes` and back. -/
def le16 (value : Nat) : Bytes := leBytes 2 value

def ofLe16 (bytes : Bytes) : Nat := leValue bytes

@[simp] theorem length_le16 (value : Nat) : (le16 value).length = 2 := length_leBytes 2 _

theorem ofLe16_le16 {value : Nat} (small : value < 2 ^ 16) : ofLe16 (le16 value) = value := by
  rw [ofLe16, le16, leValue_leBytes]
  exact Nat.mod_eq_of_lt small

/-! ## Slices -/

/-- The bytes at positions `start ..< stop`. -/
def slice (bytes : Bytes) (start stop : Nat) : Bytes := (bytes.take stop).drop start

theorem slice_append {front middle back : Bytes} {start stop : Nat}
    (startEq : front.length = start) (stopEq : front.length + middle.length = stop) :
    slice (front ++ middle ++ back) start stop = middle := by
  subst startEq stopEq
  rw [slice, List.take_left' (by simp), List.drop_left]

theorem slice_append_right (front rest : Bytes) (start stop : Nat) :
    slice (front ++ rest) (front.length + start) (front.length + stop) =
      slice rest start stop := by
  rw [slice, slice, List.take_length_add_append, List.drop_length_add_append]

theorem slice_append_left {front : Bytes} (rest : Bytes) (start : Nat) {stop : Nat}
    (within : stop ≤ front.length) : slice (front ++ rest) start stop = slice front start stop := by
  rw [slice, slice, List.take_append_of_le_length within]

theorem slice_slice (bytes : Bytes) (start stop first last : Nat)
    (within : start + last ≤ stop) :
    slice (slice bytes start stop) first last = slice bytes (start + first) (start + last) := by
  rw [slice, slice, slice, List.take_drop, List.take_take, Nat.min_eq_left within,
    List.drop_drop]

/-- The chunk at `index` of a sequence of chunks of one length. -/
theorem slice_flatMap {α : Type*} (encode : α → Bytes) {width : Nat} :
    ∀ (values : List α) (index : Nat) (within : index < values.length),
      (∀ value ∈ values, (encode value).length = width) →
      slice (values.flatMap encode) (index * width) (index * width + width) =
        encode values[index] := by
  intro values
  induction values with
  | nil => intro index within; simp at within
  | cons value rest induction =>
    intro index within lengths
    have first := lengths value (List.mem_cons_self)
    cases index with
    | zero =>
      simp only [slice, List.flatMap_cons, Nat.zero_mul, Nat.zero_add, List.drop_zero]
      rw [List.take_left' first]
      rfl
    | succ index =>
      have further := induction index (by simpa using within)
        (fun other member => lengths other (List.mem_cons_of_mem _ member))
      simp only [slice, List.flatMap_cons, List.getElem_cons_succ] at further ⊢
      rw [← further]
      have split : (index + 1) * width = (encode value).length + index * width := by
        rw [first]
        ring
      rw [split, Nat.add_assoc, List.take_length_add_append, List.drop_length_add_append]

theorem length_flatMap {α : Type*} (encode : α → Bytes) {width : Nat} (values : List α)
    (lengths : ∀ value ∈ values, (encode value).length = width) :
    (values.flatMap encode).length = values.length * width := by
  induction values with
  | nil => simp
  | cons value rest induction =>
    rw [List.flatMap_cons, List.length_append, lengths value List.mem_cons_self,
      induction fun other member => lengths other (List.mem_cons_of_mem _ member),
      List.length_cons]
    ring

/-! ## Files -/

/-- Write `data` at `offset`, filling a gap past the end with zeros. -/
def writeAt (file : Bytes) (offset : Nat) (data : Bytes) : Bytes :=
  (file.take offset ++ List.replicate (offset - file.length) 0) ++ data ++
    file.drop (offset + data.length)

@[simp] theorem length_writeAt (file : Bytes) (offset : Nat) (data : Bytes) :
    (writeAt file offset data).length = max file.length (offset + data.length) := by
  simp [writeAt]
  omega

theorem getD_writeAt (file : Bytes) (offset : Nat) (data : Bytes) (position : Nat) :
    (writeAt file offset data).getD position 0 =
      if offset ≤ position ∧ position < offset + data.length then
        data.getD (position - offset) 0
      else
        file.getD position 0 := by
  have gap : (file.take offset ++ List.replicate (offset - file.length) 0).length = offset := by
    simp
    omega
  simp only [List.getD_eq_getElem?_getD, writeAt]
  by_cases before : position < offset
  · rw [List.append_assoc, List.getElem?_append_left (by omega), if_neg (by omega)]
    by_cases inside : position < file.length
    · rw [List.getElem?_append_left (by simp; omega), List.getElem?_take_of_lt before]
    · rw [List.getElem?_append_right (by simp; omega), List.getElem?_replicate,
        List.getElem?_eq_none (by omega : file.length ≤ position)]
      split <;> rfl
  · by_cases within : position < offset + data.length
    · rw [List.getElem?_append_left (by rw [List.length_append, gap]; omega),
        List.getElem?_append_right (by omega), gap, if_pos (by omega)]
    · rw [List.getElem?_append_right (by rw [List.length_append, gap]; omega),
        if_neg (by omega), List.length_append, gap, List.getElem?_drop]
      congr 2
      omega

/-- Two files are equal if they have one length and the same bytes. -/
theorem file_ext {left right : Bytes} (length : left.length = right.length)
    (bytes : ∀ position, left.getD position 0 = right.getD position 0) : left = right := by
  apply List.ext_getElem length
  intro position leftBound rightBound
  have same := bytes position
  simpa [List.getD_eq_getElem?_getD, leftBound, rightBound] using same

end GStore
