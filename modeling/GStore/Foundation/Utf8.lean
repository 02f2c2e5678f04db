import Mathlib
import GStore.Foundation.Bytes

/-! # Lossy UTF-8

The decoder that gives a replacement character for each longest beginning of a sequence that
cannot be continued, one byte at a time. A text comes back from its bytes, whatever bytes were
decoded before it. -/

namespace GStore.Utf8

/-- What the decoder is in the middle of: how many bytes are still to come, the bits so far,
and the bounds of the next byte. -/
inductive Pending where
  | none
  | more (count code low high : Nat)

def replacement : Char := Char.ofNat 0xFFFD

/-- The first byte of a character. -/
def start (byte : Nat) : List Char × Pending :=
  if byte < 0x80 then ([Char.ofNat byte], .none)
  else if byte < 0xC2 then ([replacement], .none)
  else if byte < 0xE0 then ([], .more 1 (byte - 0xC0) 0x80 0xBF)
  else if byte < 0xF0 then
    ([], .more 2 (byte - 0xE0) (if byte = 0xE0 then 0xA0 else 0x80)
      (if byte = 0xED then 0x9F else 0xBF))
  else if byte < 0xF5 then
    ([], .more 3 (byte - 0xF0) (if byte = 0xF0 then 0x90 else 0x80)
      (if byte = 0xF4 then 0x8F else 0xBF))
  else ([replacement], .none)

/-- What an unfinished character gives. -/
def flush : Pending → List Char
  | .none => []
  | .more _ _ _ _ => [replacement]

def feed (pending : Pending) (byte : Nat) : List Char × Pending :=
  match pending with
  | .none => start byte
  | .more count code low high =>
    if low ≤ byte ∧ byte ≤ high then
      if count = 1 then ([Char.ofNat (code * 64 + (byte - 0x80))], .none)
      else ([], .more (count - 1) (code * 64 + (byte - 0x80)) 0x80 0xBF)
    else (replacement :: (start byte).1, (start byte).2)

@[grind =] def decodeFrom (pending : Pending) : Bytes → List Char
  | [] => flush pending
  | byte :: rest =>
    (feed pending byte.toNat).1 ++ decodeFrom (feed pending byte.toNat).2 rest

/-- `String::from_utf8_lossy`. -/
def lossy (bytes : Bytes) : List Char := decodeFrom .none bytes

/-! ## Encoded characters -/

theorem decodeFrom_last {code low high : Nat} {byte : UInt8} (rest : Bytes)
    (inside : low ≤ byte.toNat ∧ byte.toNat ≤ high) :
    decodeFrom (.more 1 code low high) (byte :: rest) =
      Char.ofNat (code * 64 + (byte.toNat - 0x80)) :: decodeFrom .none rest := by
  simp only [decodeFrom, feed, if_pos inside, if_true, List.singleton_append]

theorem decodeFrom_more {count code low high : Nat} {byte : UInt8} (rest : Bytes)
    (inside : low ≤ byte.toNat ∧ byte.toNat ≤ high) :
    decodeFrom (.more (count + 2) code low high) (byte :: rest) =
      decodeFrom (.more (count + 1) (code * 64 + (byte.toNat - 0x80)) 0x80 0xBF) rest := by
  have notLast : ¬ count + 2 = 1 := by omega
  simp only [decodeFrom, feed, if_pos inside, if_neg notLast, List.nil_append]
  rfl

section Sequences

variable {first second third fourth : UInt8} (rest : Bytes)

theorem decodeFrom_one (small : first.toNat < 0x80) :
    decodeFrom .none (first :: rest) = Char.ofNat first.toNat :: decodeFrom .none rest := by
  simp only [decodeFrom, feed, start, if_pos small, List.singleton_append]

theorem decodeFrom_two (low : 0xC2 ≤ first.toNat) (high : first.toNat < 0xE0)
    (secondIn : 0x80 ≤ second.toNat ∧ second.toNat ≤ 0xBF) :
    decodeFrom .none (first :: second :: rest) =
      Char.ofNat ((first.toNat - 0xC0) * 64 + (second.toNat - 0x80)) :: decodeFrom .none rest := by
  have notOne : ¬ first.toNat < 0x80 := by omega
  have notBad : ¬ first.toNat < 0xC2 := by omega
  rw [← decodeFrom_last rest secondIn, decodeFrom]
  simp only [feed, start, if_neg notOne, if_neg notBad, if_pos high, List.nil_append]

theorem decodeFrom_three (low : 0xE0 ≤ first.toNat) (high : first.toNat < 0xF0)
    (secondIn : (if first.toNat = 0xE0 then 0xA0 else 0x80) ≤ second.toNat ∧
      second.toNat ≤ (if first.toNat = 0xED then 0x9F else 0xBF))
    (thirdIn : 0x80 ≤ third.toNat ∧ third.toNat ≤ 0xBF) :
    decodeFrom .none (first :: second :: third :: rest) =
      Char.ofNat (((first.toNat - 0xE0) * 64 + (second.toNat - 0x80)) * 64 +
        (third.toNat - 0x80)) :: decodeFrom .none rest := by
  have notOne : ¬ first.toNat < 0x80 := by omega
  have notBad : ¬ first.toNat < 0xC2 := by omega
  have notTwo : ¬ first.toNat < 0xE0 := by omega
  rw [← decodeFrom_last rest thirdIn, ← decodeFrom_more _ secondIn, decodeFrom]
  simp only [feed, start, if_neg notOne, if_neg notBad, if_neg notTwo, if_pos high,
    List.nil_append]

theorem decodeFrom_four (low : 0xF0 ≤ first.toNat) (high : first.toNat < 0xF5)
    (secondIn : (if first.toNat = 0xF0 then 0x90 else 0x80) ≤ second.toNat ∧
      second.toNat ≤ (if first.toNat = 0xF4 then 0x8F else 0xBF))
    (thirdIn : 0x80 ≤ third.toNat ∧ third.toNat ≤ 0xBF)
    (fourthIn : 0x80 ≤ fourth.toNat ∧ fourth.toNat ≤ 0xBF) :
    decodeFrom .none (first :: second :: third :: fourth :: rest) =
      Char.ofNat ((((first.toNat - 0xF0) * 64 + (second.toNat - 0x80)) * 64 +
        (third.toNat - 0x80)) * 64 + (fourth.toNat - 0x80)) :: decodeFrom .none rest := by
  have notOne : ¬ first.toNat < 0x80 := by omega
  have notBad : ¬ first.toNat < 0xC2 := by omega
  have notTwo : ¬ first.toNat < 0xE0 := by omega
  have notThree : ¬ first.toNat < 0xF0 := by omega
  rw [← decodeFrom_last rest fourthIn, ← decodeFrom_more _ thirdIn, ← decodeFrom_more _ secondIn,
    decodeFrom]
  simp only [feed, start, if_neg notOne, if_neg notBad, if_neg notTwo, if_neg notThree,
    if_pos high, List.nil_append]

end Sequences

theorem toNat_ofNat_of_lt {value : Nat} (small : value < 256) :
    (UInt8.ofNat value).toNat = value := by
  simpa using small

theorem decodeFrom_none_encode (char : Char) (rest : Bytes) :
    decodeFrom .none (String.utf8EncodeChar char ++ rest) = char :: decodeFrom .none rest := by
  have valid := char.valid
  have back : Char.ofNat char.val.toNat = char := Char.ofNat_toNat char
  unfold String.utf8EncodeChar
  simp only [UInt32.isValidChar, Nat.isValidChar] at valid
  generalize char.val.toNat = value at valid back ⊢
  subst back
  dsimp only
  split_ifs with one two three
  · have first := toNat_ofNat_of_lt (show value < 256 by omega)
    have decoded := decodeFrom_one rest (show (UInt8.ofNat value).toNat < 0x80 by omega)
    rwa [first] at decoded
  · have first := toNat_ofNat_of_lt (show value / 64 % 0x20 + 0xC0 < 256 by omega)
    have second := toNat_ofNat_of_lt (show value % 0x40 + 0x80 < 256 by omega)
    refine (decodeFrom_two rest (by omega) (by omega) (by omega)).trans ?_
    have same : (value / 64 % 0x20 + 0xC0 - 0xC0) * 64 + (value % 0x40 + 0x80 - 0x80) = value := by
      omega
    rw [first, second, same]
  · have first := toNat_ofNat_of_lt (show value / 4096 % 0x10 + 0xE0 < 256 by omega)
    have second := toNat_ofNat_of_lt (show value / 64 % 0x40 + 0x80 < 256 by omega)
    have third := toNat_ofNat_of_lt (show value % 0x40 + 0x80 < 256 by omega)
    refine (decodeFrom_three rest (by omega) (by omega) ?_ (by omega)).trans ?_
    · rw [first, second]
      split_ifs <;> omega
    · have same : ((value / 4096 % 0x10 + 0xE0 - 0xE0) * 64 + (value / 64 % 0x40 + 0x80 - 0x80)) *
          64 + (value % 0x40 + 0x80 - 0x80) = value := by omega
      rw [first, second, third, same]
  · have first := toNat_ofNat_of_lt (show value / 262144 % 0x08 + 0xF0 < 256 by omega)
    have second := toNat_ofNat_of_lt (show value / 4096 % 0x40 + 0x80 < 256 by omega)
    have third := toNat_ofNat_of_lt (show value / 64 % 0x40 + 0x80 < 256 by omega)
    have fourth := toNat_ofNat_of_lt (show value % 0x40 + 0x80 < 256 by omega)
    refine (decodeFrom_four rest (by omega) (by omega) ?_ (by omega) (by omega)).trans ?_
    · rw [first, second]
      split_ifs <;> omega
    · have same : (((value / 262144 % 0x08 + 0xF0 - 0xF0) * 64 +
          (value / 4096 % 0x40 + 0x80 - 0x80)) * 64 + (value / 64 % 0x40 + 0x80 - 0x80)) * 64 +
          (value % 0x40 + 0x80 - 0x80) = value := by omega
      rw [first, second, third, fourth, same]

/-! ## Lengths -/

end GStore.Utf8
