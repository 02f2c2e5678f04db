import GStore.Foundation.Chunks
import GStore.Http.Request

/-! # Base64

`server.rs`, `base64_decode`, with its 32-bit accumulator and its shifts, and `base64_encode` of
`gnlqa`, with its table. What the one writes the other reads. -/

namespace GStore.Http.Base64

open Request

/-! ## Decoding -/

/-- The loop of `base64_decode`. The outer `none` is a shift by the width of the accumulator. -/
def decodeFrom (acc : UInt32) (bits : Nat) : Bytes → Option (Option Bytes)
  | [] => some (some [])
  | byte :: rest =>
    match base64Digit byte with
    | some digit =>
      let acc := acc <<< 6 ||| UInt32.ofNat digit
      let bits := bits + 6
      if 8 ≤ bits then
        let bits := bits - 8
        if bits < 32 then
          (decodeFrom acc bits rest).map
            (Option.map ((acc >>> UInt32.ofNat bits).toUInt8 :: ·))
        else none
      else decodeFrom acc bits rest
    | none =>
      if byte = '='.toUInt8 then some (some [])
      else if base64Blank byte then decodeFrom acc bits rest
      else some none

def decode (text : Text) : Option (Option Bytes) := decodeFrom 0 0 (utf8 text)

theorem base64Digit_lt {byte : UInt8} {digit : Nat} (isDigit : base64Digit byte = some digit) :
    digit < 64 := by
  rw [base64Digit] at isDigit
  split_ifs at isDigit <;> cases isDigit <;> omega

theorem toNat_push {acc : UInt32} {digit : Nat} (small : digit < 64) :
    (acc <<< 6 ||| UInt32.ofNat digit).toNat = acc.toNat * 64 % 2 ^ 32 + digit := by
  have shifted : acc.toNat * 64 % 2 ^ 32 = 2 ^ 6 * (acc.toNat % 2 ^ 26) := by omega
  have width : digit < UInt32.size := lt_trans small (by decide)
  rw [UInt32.toNat_or, UInt32.toNat_shiftLeft, UInt32.toNat_ofNat_of_lt' width]
  change acc.toNat <<< 6 % 2 ^ 32 ||| digit = _
  rw [Nat.shiftLeft_eq, shifted, Nat.two_pow_add_eq_or_of_lt small]

theorem toUInt8_shift {acc : UInt32} {value bits : Nat} (few : bits < 8)
    (isValue : acc.toNat = value) :
    (acc >>> UInt32.ofNat bits).toUInt8 = UInt8.ofNat (value / 2 ^ bits % 256) := by
  have width : bits < UInt32.size := lt_trans few (by decide)
  apply UInt8.toNat_inj.mp
  rw [UInt32.toNat_toUInt8, UInt32.toNat_shiftRight, isValue, UInt32.toNat_ofNat_of_lt' width,
    Nat.mod_eq_of_lt (show bits < 32 by omega), Nat.shiftRight_eq_div_pow]
  simp

/-- The bits that are still to be written out are the low ones of the accumulator. -/
theorem pending_bits (acc digit : Nat) {bits : Nat} (few : bits < 8) (small : digit < 64) :
    (2 ≤ bits → (acc % 2 ^ bits * 64 + digit) / 2 ^ (bits - 2) =
        (acc * 64 % 2 ^ 32 + digit) / 2 ^ (bits - 2) % 256 ∧
      (acc % 2 ^ bits * 64 + digit) % 2 ^ (bits - 2) =
        (acc * 64 % 2 ^ 32 + digit) % 2 ^ (bits - 2)) ∧
    (bits < 2 → acc % 2 ^ bits * 64 + digit = (acc * 64 % 2 ^ 32 + digit) % 2 ^ (bits + 6)) := by
  interval_cases bits <;> norm_num <;> omega

/-- The accumulator is wide enough: the loop never shifts too far, and its high bits do not show. -/
theorem decodeFrom_eq (bytes : Bytes) : ∀ (acc : UInt32) (bits : Nat), bits < 8 →
    decodeFrom acc bits bytes = some (base64From (acc.toNat % 2 ^ bits) bits bytes) := by
  induction bytes with
  | nil => exact fun acc bits _ => rfl
  | cons byte rest induction =>
    intro acc bits few
    rw [decodeFrom, base64From]
    cases isDigit : base64Digit byte with
    | none =>
      dsimp only
      split_ifs
      · rfl
      · exact induction acc bits few
      · rfl
    | some digit =>
      have small := base64Digit_lt isDigit
      obtain ⟨writes, waits⟩ := pending_bits acc.toNat digit few small
      dsimp only
      by_cases full : 8 ≤ bits + 6
      · obtain ⟨byteSame, bitsSame⟩ := writes (by omega)
        have left : bits + 6 - 8 = bits - 2 := by omega
        rw [if_pos full, if_pos full, left, if_pos (by omega),
          induction _ (bits - 2) (by omega), toUInt8_shift (by omega) (toNat_push small),
          toNat_push small, bitsSame, ← byteSame]
        rfl
      · rw [if_neg full, if_neg full, induction _ (bits + 6) (by omega), toNat_push small,
          waits (by omega)]

theorem decode_eq (text : Text) : decode text = some (base64From 0 0 (utf8 text)) := by
  rw [decode, decodeFrom_eq _ 0 0 (by decide)]
  rfl

/-! ## Encoding -/

/-- `T`. -/
def table : Text := "ABCDEFGHIJKLMNOPQRSTUVWXYZabcdefghijklmnopqrstuvwxyz0123456789+/".toList

/-- One chunk; `none` is an index out of range. -/
def encodeChunk (chunk : Bytes) : Option Text := do
  let b0 ← chunk[0]?
  let b1 := (chunk[1]?).getD 0
  let b2 := (chunk[2]?).getD 0
  let first ← table[(b0 >>> 2).toNat]?
  let second ← table[((b0 &&& 0x3) <<< 4 ||| b1 >>> 4).toNat]?
  let third ← if 1 < chunk.length then table[((b1 &&& 0xf) <<< 2 ||| b2 >>> 6).toNat]? else some '='
  let fourth ← if 2 < chunk.length then table[(b2 &&& 0x3f).toNat]? else some '='
  return [first, second, third, fourth]

/-- `base64_encode`. -/
def encode (input : Bytes) : Option Text := ((chunks 3 input).mapM encodeChunk).map List.flatten

theorem table_digits : ∀ index < 64, (table[index]?).map
    (fun char => (String.utf8EncodeChar char).map base64Digit) = some [some index] := by
  decide

theorem exists_digit {index : Nat} (small : index < 64) :
    ∃ char byte, table[index]? = some char ∧ String.utf8EncodeChar char = [byte] ∧
      base64Digit byte = some index := by
  obtain ⟨char, found, coded⟩ := Option.map_eq_some_iff.mp (table_digits index small)
  obtain ⟨byte, single, isDigit⟩ := List.map_eq_singleton_iff.mp coded
  exact ⟨char, byte, found, single, isDigit⟩

section Sextets

variable (b0 b1 b2 : UInt8)

theorem sextet_first : (b0 >>> 2).toNat = b0.toNat / 4 := by
  rw [UInt8.toNat_shiftRight]
  exact Nat.shiftRight_eq_div_pow b0.toNat 2

theorem sextet_second : ((b0 &&& 0x3) <<< 4 ||| b1 >>> 4).toNat =
    b0.toNat % 4 * 16 + b1.toNat / 16 := by
  have small : b1.toNat / 16 < 2 ^ 4 := by
    have bound := b1.toNat_lt
    omega
  have masked : b0.toNat &&& 3 = b0.toNat % 4 := Nat.and_two_pow_sub_one_eq_mod b0.toNat 2
  rw [UInt8.toNat_or, UInt8.toNat_shiftLeft, UInt8.toNat_and, UInt8.toNat_shiftRight]
  change (b0.toNat &&& 3) <<< 4 % 2 ^ 8 ||| b1.toNat >>> 4 = _
  rw [masked, Nat.shiftLeft_eq, Nat.shiftRight_eq_div_pow, Nat.mod_eq_of_lt (by omega),
    Nat.mul_comm, ← Nat.two_pow_add_eq_or_of_lt small]

theorem sextet_third : ((b1 &&& 0xf) <<< 2 ||| b2 >>> 6).toNat =
    b1.toNat % 16 * 4 + b2.toNat / 64 := by
  have small : b2.toNat / 64 < 2 ^ 2 := by
    have bound := b2.toNat_lt
    omega
  have masked : b1.toNat &&& 15 = b1.toNat % 16 := Nat.and_two_pow_sub_one_eq_mod b1.toNat 4
  rw [UInt8.toNat_or, UInt8.toNat_shiftLeft, UInt8.toNat_and, UInt8.toNat_shiftRight]
  change (b1.toNat &&& 15) <<< 2 % 2 ^ 8 ||| b2.toNat >>> 6 = _
  rw [masked, Nat.shiftLeft_eq, Nat.shiftRight_eq_div_pow, Nat.mod_eq_of_lt (by omega),
    Nat.mul_comm, ← Nat.two_pow_add_eq_or_of_lt small]

theorem sextet_fourth : (b2 &&& 0x3f).toNat = b2.toNat % 64 := by
  rw [UInt8.toNat_and]
  exact Nat.and_two_pow_sub_one_eq_mod b2.toNat 6

end Sextets

/-! ## Round trip -/

section Groups

variable {acc bits digit : Nat} {byte : UInt8} {rest : Bytes}

theorem base64From_wait (isDigit : base64Digit byte = some digit) (few : bits + 6 < 8) :
    base64From acc bits (byte :: rest) = base64From (acc * 64 + digit) (bits + 6) rest := by
  rw [base64From, isDigit]
  exact if_neg (by omega)

theorem base64From_write (isDigit : base64Digit byte = some digit) (full : 8 ≤ bits + 6) :
    base64From acc bits (byte :: rest) = (base64From ((acc * 64 + digit) % 2 ^ (bits + 6 - 8))
      (bits + 6 - 8) rest).map (UInt8.ofNat ((acc * 64 + digit) / 2 ^ (bits + 6 - 8)) :: ·) := by
  rw [base64From, isDigit]
  exact if_pos full

theorem base64From_padding (acc bits : Nat) (rest : Bytes) :
    base64From acc bits ('='.toUInt8 :: rest) = some [] := rfl

/-- Two digits make a byte and leave four bits. -/
theorem base64From_one {first second : UInt8} {b0 low : Nat} (lowSmall : low < 16)
    (isFirst : base64Digit first = some (b0 / 4))
    (isSecond : base64Digit second = some (b0 % 4 * 16 + low)) :
    base64From 0 0 (first :: second :: rest) =
      (base64From low 4 rest).map (UInt8.ofNat b0 :: ·) := by
  have whole : ((0 * 64 + b0 / 4) * 64 + (b0 % 4 * 16 + low)) / 2 ^ 4 = b0 := by omega
  have left : ((0 * 64 + b0 / 4) * 64 + (b0 % 4 * 16 + low)) % 2 ^ 4 = low := by omega
  rw [base64From_wait isFirst (by decide), base64From_write isSecond (by decide)]
  change (base64From (((0 * 64 + b0 / 4) * 64 + (b0 % 4 * 16 + low)) % 2 ^ 4) 4 rest).map
    (UInt8.ofNat (((0 * 64 + b0 / 4) * 64 + (b0 % 4 * 16 + low)) / 2 ^ 4) :: ·) = _
  rw [whole, left]

theorem base64From_two {third : UInt8} {b1 low : Nat} (lowSmall : low < 4)
    (isThird : base64Digit third = some (b1 % 16 * 4 + low)) :
    base64From (b1 / 16) 4 (third :: rest) =
      (base64From low 2 rest).map (UInt8.ofNat b1 :: ·) := by
  have whole : (b1 / 16 * 64 + (b1 % 16 * 4 + low)) / 2 ^ 2 = b1 := by omega
  have left : (b1 / 16 * 64 + (b1 % 16 * 4 + low)) % 2 ^ 2 = low := by omega
  rw [base64From_write isThird (by decide)]
  change (base64From ((b1 / 16 * 64 + (b1 % 16 * 4 + low)) % 2 ^ 2) 2 rest).map
    (UInt8.ofNat ((b1 / 16 * 64 + (b1 % 16 * 4 + low)) / 2 ^ 2) :: ·) = _
  rw [whole, left]

theorem base64From_three {fourth : UInt8} {b2 : Nat}
    (isFourth : base64Digit fourth = some (b2 % 64)) :
    base64From (b2 / 64) 2 (fourth :: rest) =
      (base64From 0 0 rest).map (UInt8.ofNat b2 :: ·) := by
  have whole : (b2 / 64 * 64 + b2 % 64) / 2 ^ 0 = b2 := by omega
  have left : (b2 / 64 * 64 + b2 % 64) % 2 ^ 0 = 0 := by omega
  rw [base64From_write isFourth (by decide)]
  change (base64From ((b2 / 64 * 64 + b2 % 64) % 2 ^ 0) 0 rest).map
    (UInt8.ofNat ((b2 / 64 * 64 + b2 % 64) / 2 ^ 0) :: ·) = _
  rw [whole, left]

end Groups

/-- A chunk of three bytes is read as itself, whatever follows. -/
theorem decode_three (b0 b1 b2 : UInt8) : ∃ text, encodeChunk [b0, b1, b2] = some text ∧
    ∀ rest, base64From 0 0 (utf8 text ++ rest) = (base64From 0 0 rest).map ([b0, b1, b2] ++ ·) := by
  have bound0 := b0.toNat_lt
  have bound1 := b1.toNat_lt
  have bound2 := b2.toNat_lt
  obtain ⟨c0, y0, found0, coded0, digit0⟩ := exists_digit (show b0.toNat / 4 < 64 by omega)
  obtain ⟨c1, y1, found1, coded1, digit1⟩ :=
    exists_digit (show b0.toNat % 4 * 16 + b1.toNat / 16 < 64 by omega)
  obtain ⟨c2, y2, found2, coded2, digit2⟩ :=
    exists_digit (show b1.toNat % 16 * 4 + b2.toNat / 64 < 64 by omega)
  obtain ⟨c3, y3, found3, coded3, digit3⟩ := exists_digit (show b2.toNat % 64 < 64 by omega)
  refine ⟨[c0, c1, c2, c3], ?_, fun rest => ?_⟩
  · simp only [encodeChunk, List.getElem?_cons_zero, List.getElem?_cons_succ, Option.getD_some,
      Option.bind_eq_bind, Option.bind_some, sextet_first, sextet_second, sextet_third,
      sextet_fourth, found0, found1]
    simp [found2, found3]
  · have bytes : utf8 [c0, c1, c2, c3] ++ rest = y0 :: y1 :: y2 :: y3 :: rest := by
      simp [utf8, coded0, coded1, coded2, coded3]
    rw [bytes, base64From_one (by omega) digit0 digit1,
      base64From_two (by omega) digit2, base64From_three digit3, Option.map_map,
      Option.map_map, UInt8.ofNat_toNat, UInt8.ofNat_toNat, UInt8.ofNat_toNat]
    rfl

theorem decode_two (b0 b1 : UInt8) : ∃ text, encodeChunk [b0, b1] = some text ∧
    base64From 0 0 (utf8 text) = some [b0, b1] := by
  have bound0 := b0.toNat_lt
  have bound1 := b1.toNat_lt
  obtain ⟨c0, y0, found0, coded0, digit0⟩ := exists_digit (show b0.toNat / 4 < 64 by omega)
  obtain ⟨c1, y1, found1, coded1, digit1⟩ :=
    exists_digit (show b0.toNat % 4 * 16 + b1.toNat / 16 < 64 by omega)
  obtain ⟨c2, y2, found2, coded2, digit2⟩ :=
    exists_digit (show b1.toNat % 16 * 4 + 0 < 64 by omega)
  refine ⟨[c0, c1, c2, '='], ?_, ?_⟩
  · have third := sextet_third b1 0
    rw [show (0 : UInt8).toNat / 64 = 0 from rfl, Nat.add_zero] at third
    rw [Nat.add_zero] at found2
    simp only [encodeChunk, List.getElem?_cons_zero, List.getElem?_cons_succ, List.getElem?_nil,
      Option.getD_some, Option.getD_none, Option.bind_eq_bind, Option.bind_some, sextet_first,
      sextet_second, third, found0, found1]
    simp [found2]
  · have bytes : utf8 [c0, c1, c2, '='] = y0 :: y1 :: y2 :: ['='.toUInt8] := by
      simp [utf8, coded0, coded1, coded2]
      rfl
    rw [bytes, base64From_one (by omega) digit0 digit1,
      base64From_two (by omega) digit2, base64From_padding, UInt8.ofNat_toNat,
      UInt8.ofNat_toNat]
    rfl

theorem decode_one (b0 : UInt8) : ∃ text, encodeChunk [b0] = some text ∧
    base64From 0 0 (utf8 text) = some [b0] := by
  have bound0 := b0.toNat_lt
  obtain ⟨c0, y0, found0, coded0, digit0⟩ := exists_digit (show b0.toNat / 4 < 64 by omega)
  obtain ⟨c1, y1, found1, coded1, digit1⟩ :=
    exists_digit (show b0.toNat % 4 * 16 + 0 < 64 by omega)
  refine ⟨[c0, c1, '=', '='], ?_, ?_⟩
  · have second := sextet_second b0 0
    rw [show (0 : UInt8).toNat / 16 = 0 from rfl] at second
    simp only [encodeChunk, List.getElem?_cons_zero, List.getElem?_cons_succ, List.getElem?_nil,
      Option.getD_none, Option.bind_eq_bind, Option.bind_some, sextet_first, second, found0, found1]
    rfl
  · have bytes : utf8 [c0, c1, '=', '='] = y0 :: y1 :: ['='.toUInt8, '='.toUInt8] := by
      simp [utf8, coded0, coded1]
      rfl
    rw [bytes, base64From_one (by omega) digit0 digit1, base64From_padding,
      UInt8.ofNat_toNat]
    rfl

/-- What is written is read back. -/
theorem decode_encode (input : Bytes) : ∃ text, encode input = some text ∧
    base64From 0 0 (utf8 text) = some input := by
  induction same : input.length using Nat.strong_induction_on generalizing input with
  | _ size induction =>
    rcases input with _ | ⟨b0, _ | ⟨b1, _ | ⟨b2, rest⟩⟩⟩
    · exact ⟨[], rfl, rfl⟩
    · obtain ⟨text, encoded, decoded⟩ := decode_one b0
      have chunked : chunks 3 [b0] = [[b0]] := rfl
      refine ⟨text, ?_, decoded⟩
      rw [encode, chunked, List.mapM_cons, encoded]
      simp
    · obtain ⟨text, encoded, decoded⟩ := decode_two b0 b1
      have chunked : chunks 3 [b0, b1] = [[b0, b1]] := rfl
      refine ⟨text, ?_, decoded⟩
      rw [encode, chunked, List.mapM_cons, encoded]
      simp
    · obtain ⟨text, encoded, decoded⟩ := decode_three b0 b1 b2
      have shorter : rest.length < size := by
        rw [← same]
        simp only [List.length_cons]
        omega
      obtain ⟨later, restEncoded, restDecoded⟩ := induction rest.length shorter rest rfl
      have chunked : chunks 3 (b0 :: b1 :: b2 :: rest) = [b0, b1, b2] :: chunks 3 rest :=
        chunks_eq_cons (by decide) (List.cons_ne_nil _ _)
      obtain ⟨texts, isTexts, rfl⟩ := Option.map_eq_some_iff.mp restEncoded
      refine ⟨text ++ texts.flatten, ?_, ?_⟩
      · rw [encode, chunked, List.mapM_cons, encoded, isTexts]
        rfl
      · rw [utf8_append, decoded, restDecoded]
        rfl

end GStore.Http.Base64
