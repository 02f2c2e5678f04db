import Mathlib
import GStore.Foundation.Bytes
import GStore.Foundation.Words

/-! # Posting lists

`kvstore/vlist.rs`: an ascending list of ids is written as its length and its gaps, each number
in base 128 with a flag on every byte but the last. Reading answers the number and the bytes
that are left. -/

namespace GStore.Kvstore.VList

/-! ## Varints -/

@[grind =] def writeVarint (value : UInt32) : Bytes :=
  let byte := (value &&& 0x7f).toUInt8
  let value' := value >>> 7
  if value' = 0 then [byte] else (byte ||| 0x80) :: writeVarint value'
termination_by value.toNat
decreasing_by
  rename_i more
  have positive : (value >>> 7).toNat ≠ 0 := fun zero => more (UInt32.toNat_inj.mp zero)
  have shifted : (value >>> 7).toNat = value.toNat / 128 := by
    simp [Nat.shiftRight_eq_div_pow]
  change (value >>> 7).toNat < value.toNat
  omega

/-- The loop of `read_varint`. -/
@[grind =] def readFrom (result : UInt32) (shift : Nat) : Bytes → Option (UInt32 × Bytes)
  | [] => none
  | byte :: rest =>
    -- The fifth byte holds the four highest bits only.
    if 32 ≤ shift ∨ (shift = 28 ∧ 0x0f < byte) then none
    else
      let result := result ||| ((byte &&& 0x7f).toUInt32 <<< UInt32.ofNat shift)
      if byte &&& 0x80 = 0 then some (result, rest) else readFrom result (shift + 7) rest

def readVarint (bytes : Bytes) : Option (UInt32 × Bytes) := readFrom 0 0 bytes

/-! ## Lists -/

@[grind =] def encodeGaps (prev : UInt32) : List UInt32 → Bytes
  | [] => []
  | id :: rest => writeVarint (id - prev) ++ encodeGaps id rest

/-- The length is cut to 32 bits. -/
def encodeU32s (ids : List UInt32) : Bytes :=
  writeVarint (UInt32.ofNat ids.length) ++ encodeGaps 0 ids

/-- `u32::checked_add`. -/
def checkedAdd (first second : UInt32) : Option UInt32 :=
  if first.toNat + second.toNat < 2 ^ 32 then some (first + second) else none

@[grind =] def decodeGaps (prev : UInt32) : Nat → Bytes → Option (List UInt32)
  | 0, _ => some []
  | count + 1, bytes => do
    let (delta, bytes) ← readVarint bytes
    let id ← checkedAdd prev delta
    return id :: (← decodeGaps id count bytes)

def decodeU32s (bytes : Bytes) : Option (List UInt32) := do
  let (count, bytes) ← readVarint bytes
  decodeGaps 0 count.toNat bytes

/-! ## Numbers in base 128 -/

/-- The number that a run of bytes stands for, lowest digit first. -/
def varintValue : Bytes → Nat
  | [] => 0
  | byte :: rest => byte.toNat % 128 + 128 * varintValue rest

/-- Every byte but the last has the flag. -/
def Terminated (encoding : Bytes) : Prop :=
  ∃ front last, encoding = front ++ [last] ∧ (∀ byte ∈ front, 128 ≤ byte.toNat) ∧ last.toNat < 128

theorem terminated_singleton {byte : UInt8} (last : byte.toNat < 128) : Terminated [byte] :=
  ⟨[], byte, rfl, by simp, last⟩

theorem Terminated.cons {byte : UInt8} {encoding : Bytes} (flag : 128 ≤ byte.toNat)
    (terminated : Terminated encoding) : Terminated (byte :: encoding) := by
  rcases terminated with ⟨front, last, rfl, flags, ends⟩
  exact ⟨byte :: front, last, rfl, List.forall_mem_cons.mpr ⟨flag, flags⟩, ends⟩

theorem Terminated.cases {encoding : Bytes} (terminated : Terminated encoding) :
    ∃ byte rest, encoding = byte :: rest ∧
      (byte.toNat < 128 ∧ rest = [] ∨ 128 ≤ byte.toNat ∧ Terminated rest) := by
  rcases terminated with ⟨front, last, rfl, flags, ends⟩
  cases front with
  | nil => exact ⟨last, [], rfl, .inl ⟨ends, rfl⟩⟩
  | cons byte front =>
    have rest := List.forall_mem_cons.mp flags
    exact ⟨byte, front ++ [last], rfl, .inr ⟨rest.1, front, last, rfl, rest.2, ends⟩⟩

theorem flag_eq_zero_iff (byte : UInt8) : byte &&& 0x80 = 0 ↔ byte.toNat < 128 := by
  revert byte
  decide +kernel

theorem toNat_payload (byte : UInt8) : (byte &&& 0x7f).toUInt32.toNat = byte.toNat % 128 := by
  revert byte
  decide +kernel

/-! ## Writing -/

theorem writeVarint_eq (value : UInt32) :
    writeVarint value = if value.toNat / 128 = 0 then [UInt8.ofNat (value.toNat % 128)]
      else UInt8.ofNat (value.toNat % 128 + 128) :: writeVarint (value >>> 7) := by
  have shifted : (value >>> 7).toNat = value.toNat / 128 := by
    simp [Nat.shiftRight_eq_div_pow]
  have low : (value &&& 0x7f).toUInt8 = UInt8.ofNat (value.toNat % 128) := by
    apply UInt8.toNat_inj.mp
    rw [UInt32.toNat_toUInt8, UInt32.toNat_and, UInt8.toNat_ofNat']
    have mask : (0x7f : UInt32).toNat = 2 ^ 7 - 1 := rfl
    rw [mask, Nat.and_two_pow_sub_one_eq_mod]
  have flagged : ∀ digit : Fin 128, UInt8.ofNat digit.val ||| 0x80 = UInt8.ofNat (digit.val + 128) := by
    decide
  rw [writeVarint.eq_def]
  dsimp only
  by_cases last : value.toNat / 128 = 0
  · have zero : value >>> 7 = 0 := UInt32.toNat_inj.mp (shifted.trans last)
    rw [if_pos last, if_pos zero, low]
  · have more : value >>> 7 ≠ 0 := fun zero => last (by rw [← shifted, zero]; rfl)
    rw [if_neg last, if_neg more, low,
      flagged ⟨value.toNat % 128, Nat.mod_lt _ (by decide)⟩]

/-- A number takes a digit for each seven bits. -/
theorem writeVarint_spec (digits : Nat) (value : UInt32)
    (small : value.toNat < 128 ^ (digits + 1)) :
    Terminated (writeVarint value) ∧ (writeVarint value).length ≤ digits + 1 ∧
      varintValue (writeVarint value) = value.toNat := by
  induction digits generalizing value with
  | zero =>
    have last : value.toNat / 128 = 0 := by omega
    rw [writeVarint_eq, if_pos last]
    have digit : (UInt8.ofNat (value.toNat % 128)).toNat = value.toNat := by
      rw [UInt8.toNat_ofNat']
      omega
    refine ⟨terminated_singleton (by omega), by simp, ?_⟩
    rw [varintValue, digit, varintValue]
    omega
  | succ digits induction =>
    have shifted : (value >>> 7).toNat = value.toNat / 128 := by
      simp [Nat.shiftRight_eq_div_pow]
    rw [writeVarint_eq]
    by_cases last : value.toNat / 128 = 0
    · have digit : (UInt8.ofNat (value.toNat % 128)).toNat = value.toNat := by
        rw [UInt8.toNat_ofNat']
        omega
      rw [if_pos last]
      refine ⟨terminated_singleton (by omega), by simp, ?_⟩
      rw [varintValue, digit, varintValue]
      omega
    · have digit : (UInt8.ofNat (value.toNat % 128 + 128)).toNat = value.toNat % 128 + 128 := by
        rw [UInt8.toNat_ofNat']
        omega
      have rest := induction (value >>> 7) (by rw [shifted]; rw [Nat.pow_succ] at small; omega)
      rw [if_neg last]
      refine ⟨rest.1.cons (by omega), by simpa using rest.2.1, ?_⟩
      rw [varintValue, rest.2.2, digit, shifted]
      omega

/-! ## Reading -/

/-- One digit more, above those that are read. -/
theorem toNat_accumulate {result : UInt32} {shift : Nat} {byte : UInt8}
    (below : result.toNat < 2 ^ shift) (small : shift < 32)
    (fits : byte.toNat % 128 * 2 ^ shift < 2 ^ 32) :
    (result ||| ((byte &&& 0x7f).toUInt32 <<< UInt32.ofNat shift)).toNat =
      result.toNat + 2 ^ shift * (byte.toNat % 128) := by
  have amount : (UInt32.ofNat shift).toNat = shift := by
    rw [UInt32.toNat_ofNat']
    omega
  rw [UInt32.toNat_or, UInt32.toNat_shiftLeft, toNat_payload, amount, Nat.mod_eq_of_lt small,
    Nat.shiftLeft_eq, Nat.mod_eq_of_lt fits, Nat.or_comm, Nat.mul_comm,
    ← Nat.two_pow_add_eq_or_of_lt below, Nat.add_comm]

/-- One step of the loop, within the five bytes of a number of 32 bits. -/
theorem readFrom_cons {index : Nat} {result : UInt32} {byte : UInt8}
    (within : index < 4 ∨ index = 4 ∧ byte.toNat < 16) (below : result.toNat < 2 ^ (7 * index))
    (tail : Bytes) : ∃ next : UInt32,
      next.toNat = result.toNat + 2 ^ (7 * index) * (byte.toNat % 128) ∧
      readFrom result (7 * index) (byte :: tail) =
        if byte.toNat < 128 then some (next, tail) else readFrom next (7 * (index + 1)) tail := by
  have fits : byte.toNat % 128 * 2 ^ (7 * index) < 2 ^ 32 := by
    rcases within with early | ⟨rfl, low⟩
    · have power : 2 ^ (7 * index) ≤ 2 ^ 21 := Nat.pow_le_pow_right (by decide) (by omega)
      have digit : byte.toNat % 128 < 128 := Nat.mod_lt _ (by decide)
      calc byte.toNat % 128 * 2 ^ (7 * index) ≤ 127 * 2 ^ 21 :=
            Nat.mul_le_mul (Nat.le_of_lt_succ digit) power
        _ < 2 ^ 32 := by decide
    · omega
  refine ⟨_, toNat_accumulate below (by omega) fits, ?_⟩
  rw [readFrom, if_neg]
  · simp only [flag_eq_zero_iff]
    rfl
  · rw [UInt8.lt_iff_toNat_lt]
    have mask : (0x0f : UInt8).toNat = 15 := rfl
    omega

/-- A number is read exactly where a terminated run of bytes stands for one of 32 bits, of
which the bits below `7 * index` are read. -/
theorem readFrom_eq_some (bytes rest : Bytes) (value : UInt32) (index : Nat) (result : UInt32)
    (below : result.toNat < 2 ^ (7 * index)) :
    readFrom result (7 * index) bytes = some (value, rest) ↔
      ∃ encoding, bytes = encoding ++ rest ∧ Terminated encoding ∧ encoding.length + index ≤ 5 ∧
        value.toNat = result.toNat + 2 ^ (7 * index) * varintValue encoding := by
  induction bytes generalizing index result with
  | nil =>
    constructor
    · intro read
      cases read
    · rintro ⟨encoding, empty, terminated, -⟩
      rcases terminated.cases with ⟨byte, tail, rfl, -⟩
      cases empty
  | cons byte tail induction =>
    have deeper : 2 ^ (7 * (index + 1)) = 2 ^ (7 * index) * 128 := by
      rw [Nat.mul_add, Nat.pow_add]
    by_cases within : index < 4 ∨ index = 4 ∧ byte.toNat < 16
    · rcases readFrom_cons within below tail with ⟨next, nextEq, step⟩
      have digit : 2 ^ (7 * index) * (byte.toNat % 128) ≤ 2 ^ (7 * index) * 127 :=
        Nat.mul_le_mul_left _ (by omega)
      have nextBelow : next.toNat < 2 ^ (7 * (index + 1)) := by omega
      have longer : ∀ encoding, next.toNat + 2 ^ (7 * (index + 1)) * varintValue encoding =
          result.toNat + 2 ^ (7 * index) * varintValue (byte :: encoding) := by
        intro encoding
        rw [nextEq, deeper, varintValue]
        ring
      rw [step]
      by_cases last : byte.toNat < 128
      · rw [if_pos last]
        have alone : next.toNat = result.toNat + 2 ^ (7 * index) * varintValue [byte] := by
          simpa only [varintValue, Nat.mul_zero, Nat.add_zero] using longer []
        constructor
        · intro read
          cases read
          exact ⟨[byte], rfl, terminated_singleton last, by simp; omega, alone⟩
        · rintro ⟨encoding, parts, terminated, -, valueEq⟩
          rcases terminated.cases with ⟨first, others, rfl, ⟨-, rfl⟩ | ⟨flag, -⟩⟩
          · cases parts
            have same : value = next := UInt32.toNat_inj.mp (valueEq.trans alone.symm)
            rw [same]
            rfl
          · cases parts
            omega
      · rw [if_neg last, induction (index + 1) next nextBelow]
        constructor
        · rintro ⟨encoding, rfl, terminated, short, valueEq⟩
          refine ⟨byte :: encoding, rfl, terminated.cons (by omega), by simp; omega, ?_⟩
          rw [valueEq, longer]
        · rintro ⟨encoding, parts, terminated, short, valueEq⟩
          rcases terminated.cases with ⟨first, others, rfl, ⟨ends, -⟩ | ⟨-, more⟩⟩
          · cases parts
            omega
          · cases parts
            refine ⟨others, rfl, more, by simp at short; omega, ?_⟩
            rw [valueEq, longer]
    · rw [readFrom, if_pos]
      · constructor
        · intro read
          cases read
        · rintro ⟨encoding, parts, terminated, short, valueEq⟩
          rcases terminated.cases with ⟨first, others, rfl, ends⟩
          cases parts
          rw [List.length_cons] at short
          have fifth : index = 4 := by omega
          have alone : others = [] := List.eq_nil_of_length_eq_zero (by omega)
          subst fifth alone
          have bound := value.toNat_lt
          rw [varintValue, varintValue] at valueEq
          rcases ends with ⟨ends, -⟩ | ⟨-, more⟩
          · omega
          · rcases more.cases with ⟨other, more, absurd, -⟩
            cases absurd
      · rw [UInt8.lt_iff_toNat_lt]
        have mask : (0x0f : UInt8).toNat = 15 := rfl
        omega

theorem readVarint_eq_some {bytes rest : Bytes} {value : UInt32} :
    readVarint bytes = some (value, rest) ↔ ∃ encoding, bytes = encoding ++ rest ∧
      Terminated encoding ∧ encoding.length ≤ 5 ∧ value.toNat = varintValue encoding := by
  have spec := readFrom_eq_some bytes rest value 0 0 (by decide)
  have zero : (0 : UInt32).toNat = 0 := rfl
  rw [readVarint]
  simpa only [zero, Nat.mul_zero, Nat.pow_zero, Nat.one_mul, Nat.zero_add, Nat.add_zero] using spec

@[simp] theorem readVarint_writeVarint (value : UInt32) (rest : Bytes) :
    readVarint (writeVarint value ++ rest) = some (value, rest) := by
  have written := writeVarint_spec 4 value (value.toNat_lt.trans (by decide))
  exact readVarint_eq_some.mpr ⟨_, rfl, written.1, written.2.1, written.2.2.symm⟩

/-! ## Gaps -/

/-- What a list of gaps adds up to, without wrapping. -/
def sums (prev : Nat) : List UInt32 → List Nat
  | [] => []
  | delta :: rest => (prev + delta.toNat) :: sums (prev + delta.toNat) rest

theorem decodeGaps_encodeGaps {prev : UInt32} {ids : List UInt32}
    (ascending : (prev :: ids).Pairwise (· ≤ ·)) :
    decodeGaps prev ids.length (encodeGaps prev ids) = some ids := by
  induction ids generalizing prev with
  | nil => rfl
  | cons id rest induction =>
    have parts := List.pairwise_cons.mp ascending
    have above : prev.toNat ≤ id.toNat := UInt32.le_iff_toNat_le.mp (parts.1 id List.mem_cons_self)
    have gap : (id - prev).toNat = id.toNat - prev.toNat :=
      UInt32.toNat_sub_of_le _ _ (UInt32.le_iff_toNat_le.mpr above)
    have fits : prev.toNat + (id - prev).toNat < 2 ^ 32 := by
      have bound := id.toNat_lt
      omega
    have same : prev + (id - prev) = id := by
      rw [UInt32.add_comm, UInt32.sub_add_cancel]
    rw [encodeGaps, List.length_cons, decodeGaps, readVarint_writeVarint]
    simp only [Option.bind_eq_bind, Option.bind_some, checkedAdd, if_pos fits, same,
      induction parts.2]
    rfl

/-- What is decoded never falls, and is what its gaps add up to. -/
theorem decodeGaps_spec {prev : UInt32} {count : Nat} {bytes : Bytes} {ids : List UInt32}
    (decoded : decodeGaps prev count bytes = some ids) : (prev :: ids).Pairwise (· ≤ ·) ∧
      ∃ deltas, ids.map UInt32.toNat = sums prev.toNat deltas := by
  induction count generalizing prev bytes ids with
  | zero =>
    cases decoded
    exact ⟨List.pairwise_singleton _ _, [], rfl⟩
  | succ count induction =>
    rw [decodeGaps] at decoded
    rcases Option.bind_eq_some_iff.mp decoded with ⟨⟨delta, left⟩, read, decoded⟩
    rcases Option.bind_eq_some_iff.mp decoded with ⟨id, summed, decodedRest⟩
    rcases Option.bind_eq_some_iff.mp decodedRest with ⟨rest, later, same⟩
    cases same
    rw [checkedAdd] at summed
    split at summed
    · rename_i fits
      cases summed
      rcases induction later with ⟨ascending, deltas, total⟩
      have sum : (prev + delta).toNat = prev.toNat + delta.toNat := by
        rw [UInt32.toNat_add, Nat.mod_eq_of_lt fits]
      have above : prev ≤ prev + delta := by
        rw [UInt32.le_iff_toNat_le]
        omega
      refine ⟨List.pairwise_cons.mpr ⟨?_, ascending⟩, delta :: deltas, ?_⟩
      · intro id member
        rcases List.mem_cons.mp member with same | member
        · rw [same]
          exact above
        · exact UInt32.le_trans above ((List.pairwise_cons.mp ascending).1 id member)
      · rw [List.map_cons, sums, total, sum]
    · cases summed

/-! ## Lists -/

theorem decodeU32s_encodeU32s {ids : List UInt32} (ascending : ids.Pairwise (· ≤ ·))
    (short : ids.length < 2 ^ 32) : decodeU32s (encodeU32s ids) = some ids := by
  have count : (UInt32.ofNat ids.length).toNat = ids.length := by
    rw [UInt32.toNat_ofNat', Nat.mod_eq_of_lt short]
  have fromZero : (0 :: ids).Pairwise (· ≤ ·) :=
    List.pairwise_cons.mpr ⟨fun id _ => UInt32.le_iff_toNat_le.mpr (Nat.zero_le _), ascending⟩
  rw [decodeU32s, encodeU32s, readVarint_writeVarint]
  change decodeGaps 0 (UInt32.ofNat ids.length).toNat _ = _
  rw [count]
  exact decodeGaps_encodeGaps fromZero

/-- The length of the list of all ids is written as zero. -/
theorem decodeU32s_full {ids : List UInt32} (full : ids.length = 2 ^ 32) :
    decodeU32s (encodeU32s ids) = some [] := by
  rw [decodeU32s, encodeU32s, readVarint_writeVarint, full]
  rfl

/-- An ascending list comes back unless it holds every id; what is decoded never falls and
never wraps; and a number is read exactly where a terminated run of at most five bytes stands
for one of 32 bits. -/
theorem vlist_codec (ids : List UInt32) (ascending : ids.Pairwise (· < ·)) :
    (decodeU32s (encodeU32s ids) = some ids ↔ ids.length < 2 ^ 32) ∧
    (∀ bytes decoded, decodeU32s bytes = some decoded → decoded.Pairwise (· ≤ ·) ∧
      ∃ deltas, decoded.map UInt32.toNat = sums 0 deltas) ∧
    ∀ bytes value rest, readVarint bytes = some (value, rest) ↔ ∃ encoding,
      bytes = encoding ++ rest ∧ Terminated encoding ∧ encoding.length ≤ 5 ∧
        value.toNat = varintValue encoding := by
  refine ⟨?_, ?_, fun _ _ _ => readVarint_eq_some⟩
  · have bound := length_le_of_nodup_words (ascending.imp UInt32.ne_of_lt)
    have size : UInt32.size = 4294967296 := rfl
    constructor
    · intro decoded
      by_contra long
      have full : ids.length = 2 ^ 32 := by omega
      rw [decodeU32s_full full] at decoded
      cases decoded
      cases full
    · exact decodeU32s_encodeU32s (ascending.imp UInt32.le_of_lt)
  · intro bytes decoded read
    rcases Option.bind_eq_some_iff.mp read with ⟨⟨count, rest⟩, -, gaps⟩
    rcases decodeGaps_spec gaps with ⟨rising, deltas, total⟩
    exact ⟨(List.pairwise_cons.mp rising).2, deltas, total⟩

theorem vlist_codec_short : decodeU32s (encodeU32s [3, 300, 70000]) = some [3, 300, 70000] :=
  (vlist_codec [3, 300, 70000] (by decide)).1.mpr (by decide)

def everyId : List UInt32 := (List.range (2 ^ 32)).map UInt32.ofNat

/-- The list of all ids is ascending and comes back empty. -/
theorem everyId_lost : everyId.Pairwise (· < ·) ∧ decodeU32s (encodeU32s everyId) = some [] ∧
    everyId ≠ [] := by
  have full : everyId.length = 2 ^ 32 := by simp [everyId]
  refine ⟨?_, decodeU32s_full full, ?_⟩
  · rw [everyId, List.pairwise_map]
    refine List.pairwise_lt_range.imp_of_mem ?_
    intro first second here there less
    rw [UInt32.lt_iff_toNat_lt, UInt32.toNat_ofNat', UInt32.toNat_ofNat',
      Nat.mod_eq_of_lt (List.mem_range.mp here), Nat.mod_eq_of_lt (List.mem_range.mp there)]
    exact less
  · intro empty
    rw [empty] at full
    cases full

end GStore.Kvstore.VList
