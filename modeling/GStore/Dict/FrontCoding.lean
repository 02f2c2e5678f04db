import GStore.Kvstore.VList
import GStore.Model.Utf8

/-! # Front coding

`dict/prefix.rs`: each string of a block is written as the number of bytes that it shares with
the one before it and the bytes that follow. A panic of the source is the result `none`. -/

namespace GStore.Dict.FrontCoding

open Kvstore.VList

/-- The number is one byte on disk. -/
def maxSharedPrefix : Nat := 255

/-! ## Encoding -/

/-- The first loop of `shared_prefix_len`. -/
@[grind =] def sharedBytes : Nat → Bytes → Bytes → Nat
  | cap + 1, left :: lefts, right :: rights =>
    if left = right then sharedBytes cap lefts rights + 1 else 0
  | _, _, _ => 0

/-- The second one. -/
def roundDown (text : Text) : Nat → Nat
  | 0 => 0
  | length + 1 => if isCharBoundary text (length + 1) then length + 1 else roundDown text length

def sharedPrefixLen (prev cur : Text) : Nat :=
  roundDown cur (sharedBytes maxSharedPrefix (utf8 prev) (utf8 cur))

@[grind =] def encodeEntries (prev : Text) : List Text → Option Bytes
  | [] => some []
  | cur :: rest => do
    let shared := sharedPrefixLen prev cur
    let suffix ←
      if shared ≤ (utf8 cur).length then some ((utf8 cur).drop shared) else none
    let entries ← encodeEntries cur rest
    return UInt8.ofNat shared :: writeVarint (UInt32.ofNat suffix.length) ++ suffix ++ entries

def encodeBlock (sorted : List Text) : Option Bytes := do
  let entries ← encodeEntries [] sorted
  return writeVarint (UInt32.ofNat sorted.length) ++ entries

/-! ## Decoding -/

@[grind =] def decodeEntries (prev : Text) : Nat → Bytes → Option (Option (List Text))
  | 0, _ => some (some [])
  | count + 1, bytes =>
    match bytes with
    | [] => some none
    | shared :: bytes =>
      match readVarint bytes with
      | none => some none
      | some (suffixLen, bytes) =>
        if bytes.length < suffixLen.toNat then some none
        else if (utf8 prev).length < shared.toNat ∨ !isCharBoundary prev shared.toNat then
          some none
        else do
          let front ← sliceTo prev shared.toNat
          match fromUtf8 (bytes.take suffixLen.toNat) with
          | none => some none
          | some back =>
            let rest ← decodeEntries (front ++ back) count (bytes.drop suffixLen.toNat)
            return rest.map fun rest => (front ++ back) :: rest

def decodeBlock (bytes : Bytes) : Option (Option (List Text)) :=
  match readVarint bytes with
  | none => some none
  | some (count, bytes) => decodeEntries [] count.toNat bytes

/-! ## The shared bytes -/

theorem sharedBytes_le (cap : Nat) (left right : Bytes) : sharedBytes cap left right ≤ cap := by
  fun_induction sharedBytes cap left right <;> omega

/-- As many bytes are the same. -/
theorem take_sharedBytes (cap : Nat) (left right : Bytes) :
    ∃ rest, left = right.take (sharedBytes cap left right) ++ rest := by
  fun_induction sharedBytes cap left right with
  | case1 cap lefts right rights induction =>
    obtain ⟨rest, same⟩ := induction
    refine ⟨rest, ?_⟩
    rw [List.take_succ_cons, List.cons_append, ← same]
  | case2 => exact ⟨_, rfl⟩
  | case3 => exact ⟨_, rfl⟩

theorem roundDown_le (text : Text) (length : Nat) : roundDown text length ≤ length := by
  induction length with
  | zero => exact le_refl 0
  | succ length induction =>
    rw [roundDown]
    split
    · exact le_refl _
    · omega

theorem isCharBoundary_roundDown (text : Text) (length : Nat) :
    isCharBoundary text (roundDown text length) = true := by
  induction length with
  | zero => exact isCharBoundary_append [] text
  | succ length induction =>
    rw [roundDown]
    split
    · assumption
    · exact induction

/-- The shared part is a part of both texts. -/
theorem sharedPrefixLen_spec (prev cur : Text) : ∃ front before after,
    prev = front ++ before ∧ cur = front ++ after ∧
      (utf8 front).length = sharedPrefixLen prev cur ∧
      sharedPrefixLen prev cur ≤ maxSharedPrefix := by
  have capped := sharedBytes_le maxSharedPrefix (utf8 prev) (utf8 cur)
  obtain ⟨rest, same⟩ := take_sharedBytes maxSharedPrefix (utf8 prev) (utf8 cur)
  rw [sharedPrefixLen]
  generalize sharedBytes maxSharedPrefix (utf8 prev) (utf8 cur) = shared at capped same ⊢
  have below := roundDown_le cur shared
  obtain ⟨front, after, split, length⟩ := exists_of_isCharBoundary
    (isCharBoundary_roundDown cur shared)
  rw [← length] at below
  -- The bytes of the front begin those that are shared.
  have begins : utf8 prev = utf8 front ++
      ((utf8 after).take (shared - (utf8 front).length) ++ rest) := by
    rw [same, split, utf8_append, List.take_append, List.take_of_length_le below,
      List.append_assoc]
  obtain ⟨before, first, -⟩ := exists_of_utf8_prefix begins
  refine ⟨front, before, after, first, split, length, ?_⟩
  rw [← length]
  exact le_trans below capped

/-! ## Both ways -/

/-- A cut that the decoder takes is a boundary. -/
theorem sliceTo_ne_none {text : Text} {index : Nat} (boundary : isCharBoundary text index = true) :
    sliceTo text index ≠ none := by
  obtain ⟨front, back, split, length⟩ := exists_of_isCharBoundary boundary
  rw [split, ← length, sliceTo_append]
  exact Option.some_ne_none front

theorem decodeEntries_ne_none (prev : Text) (count : Nat) (bytes : Bytes) :
    decodeEntries prev count bytes ≠ none := by
  induction count generalizing prev bytes with
  | zero => exact Option.some_ne_none _
  | succ count induction =>
    cases bytes with
    | nil => exact Option.some_ne_none _
    | cons shared bytes =>
      rw [decodeEntries]
      split
      · exact Option.some_ne_none _
      · split_ifs with few off
        · exact Option.some_ne_none _
        · exact Option.some_ne_none _
        · have boundary : isCharBoundary prev shared.toNat = true := by
            by_contra missed
            exact off (.inr (by simp [missed]))
          obtain ⟨front, sliced⟩ := Option.ne_none_iff_exists'.mp (sliceTo_ne_none boundary)
          rw [sliced]
          dsimp only [Option.bind_eq_bind, Option.bind_some]
          split
          · exact Option.some_ne_none _
          · rename_i back _
            obtain ⟨rest, decoded⟩ :=
              Option.ne_none_iff_exists'.mp (induction (front ++ back) _)
            rw [decoded]
            exact Option.some_ne_none _

/-- What is decoded of the entries, however many are asked for. -/
theorem decodeEntries_encodeEntries {list : List Text} :
    ∀ {prev : Text} {count : Nat} {entries : Bytes}, count ≤ list.length →
    (∀ text ∈ list, (utf8 text).length < UInt32.size) → encodeEntries prev list = some entries →
    decodeEntries prev count entries = some (some (list.take count)) := by
  induction list with
  | nil =>
    intro prev count entries few _ _
    rw [Nat.le_zero.mp few]
    rfl
  | cons cur rest induction =>
    intro prev count entries few short encoded
    cases count with
    | zero => rfl
    | succ count =>
      obtain ⟨front, before, after, first, split, length, capped⟩ :=
        sharedPrefixLen_spec prev cur
      have bytes : utf8 cur = utf8 front ++ utf8 after := by rw [split, utf8_append]
      have within : sharedPrefixLen prev cur ≤ (utf8 cur).length := by
        rw [bytes, List.length_append]
        omega
      rw [encodeEntries] at encoded
      dsimp only at encoded
      rw [if_pos within, bytes, ← length, List.drop_left] at encoded
      dsimp only [Option.bind_eq_bind, Option.bind_some] at encoded
      obtain ⟨others, tail, same⟩ := Option.bind_eq_some_iff.mp encoded
      have entriesAre := (Option.some.inj same).symm
      have shared : (UInt8.ofNat (utf8 front).length).toNat = (utf8 front).length :=
        Utf8.toNat_ofNat_of_lt (by rw [length]; exact Nat.lt_succ_of_le capped)
      have size : (UInt32.ofNat (utf8 after).length).toNat = (utf8 after).length := by
        apply UInt32.toNat_ofNat_of_lt'
        have whole := short cur List.mem_cons_self
        rw [bytes, List.length_append] at whole
        omega
      rw [entriesAre, List.cons_append, List.cons_append, decodeEntries, List.append_assoc,
        readVarint_writeVarint]
      dsimp only
      have enough : ¬ (utf8 after ++ others).length <
          (UInt32.ofNat (utf8 after).length).toNat := by
        rw [size, List.length_append]
        omega
      have cut : ¬ ((utf8 prev).length < (UInt8.ofNat (utf8 front).length).toNat ∨
          !isCharBoundary prev (UInt8.ofNat (utf8 front).length).toNat) := by
        rw [shared, first, isCharBoundary_append, utf8_append, List.length_append]
        simp
      have sliced : sliceTo prev (UInt8.ofNat (utf8 front).length).toNat = some front := by
        rw [shared, first, sliceTo_append]
      rw [if_neg enough, if_neg cut, sliced]
      dsimp only [Option.bind_eq_bind, Option.bind_some]
      rw [size, List.take_left, List.drop_left, fromUtf8_utf8]
      dsimp only
      rw [← split, induction (Nat.le_of_succ_le_succ few)
        (fun text member => short text (List.mem_cons_of_mem cur member)) tail]
      rfl

theorem encodeEntries_ne_none (prev : Text) (list : List Text) :
    encodeEntries prev list ≠ none := by
  induction list generalizing prev with
  | nil => exact Option.some_ne_none _
  | cons cur rest induction =>
    obtain ⟨front, before, after, -, split, length, -⟩ := sharedPrefixLen_spec prev cur
    have within : sharedPrefixLen prev cur ≤ (utf8 cur).length := by
      rw [split, utf8_append, List.length_append]
      rw [split] at length
      omega
    obtain ⟨entries, encoded⟩ := Option.ne_none_iff_exists'.mp (induction cur)
    rw [encodeEntries]
    dsimp only
    rw [if_pos within, encoded]
    exact Option.some_ne_none _

/-- A block holds its strings up to the number that it begins with. -/
theorem decodeBlock_encodeBlock {list : List Text} {block : Bytes}
    (short : ∀ text ∈ list, (utf8 text).length < UInt32.size)
    (encoded : encodeBlock list = some block) :
    decodeBlock block = some (some (list.take (list.length % UInt32.size))) := by
  obtain ⟨entries, inner, same⟩ := Option.bind_eq_some_iff.mp encoded
  have count : (UInt32.ofNat list.length).toNat = list.length % UInt32.size :=
    UInt32.toNat_ofNat'
  rw [← Option.some.inj same, decodeBlock, readVarint_writeVarint]
  dsimp only
  rw [count]
  exact decodeEntries_encodeEntries (Nat.mod_le _ _) short inner

/-- Front coding keeps a list of fewer than 2^32 strings and no longer one, and decoding stops at
no bytes with a panic. -/
theorem front_coding (list : List Text) (short : ∀ text ∈ list, (utf8 text).length < UInt32.size) :
    ((∃ block, encodeBlock list = some block ∧ decodeBlock block = some (some list)) ↔
      list.length < UInt32.size) ∧
    (∃ block, encodeBlock list = some block) ∧
    ∀ bytes, decodeBlock bytes ≠ none := by
  have total : ∃ block, encodeBlock list = some block := by
    obtain ⟨entries, encoded⟩ := Option.ne_none_iff_exists'.mp (encodeEntries_ne_none [] list)
    refine ⟨writeVarint (UInt32.ofNat list.length) ++ entries, ?_⟩
    rw [encodeBlock, encoded]
    rfl
  refine ⟨⟨?_, ?_⟩, total, ?_⟩
  · rintro ⟨block, encoded, decoded⟩
    rw [decodeBlock_encodeBlock short encoded] at decoded
    have lengths := congrArg List.length (Option.some.inj (Option.some.inj decoded))
    rw [List.length_take] at lengths
    have below := Nat.mod_lt list.length (show 0 < UInt32.size by decide)
    omega
  · intro few
    obtain ⟨block, encoded⟩ := total
    refine ⟨block, encoded, ?_⟩
    rw [decodeBlock_encodeBlock short encoded, Nat.mod_eq_of_lt few, List.take_length]
  · intro bytes
    rw [decodeBlock]
    split
    · exact Option.some_ne_none _
    · exact decodeEntries_ne_none _ _ _

theorem front_coding_cafe :
    ∃ block, encodeBlock ["café-1".toList, "café-2".toList, "naïve".toList] = some block ∧
      decodeBlock block = some (some ["café-1".toList, "café-2".toList, "naïve".toList]) :=
  (front_coding ["café-1".toList, "café-2".toList, "naïve".toList] (by decide)).1.mpr (by decide)

/-- As many empty strings as the number at the beginning of a block cannot count. -/
def empties : List Text := List.replicate UInt32.size []

/-- The block of 2^32 strings says that there are none. -/
theorem empties_lost : (∀ text ∈ empties, (utf8 text).length < UInt32.size) ∧
    ∃ block, encodeBlock empties = some block ∧ decodeBlock block = some (some []) ∧
      empties ≠ [] := by
  have short : ∀ text ∈ empties, (utf8 text).length < UInt32.size := by
    intro text member
    rw [List.eq_of_mem_replicate member]
    decide
  obtain ⟨entries, inner⟩ := Option.ne_none_iff_exists'.mp (encodeEntries_ne_none [] empties)
  have length : empties.length = UInt32.size := List.length_replicate
  have encoded : encodeBlock empties =
      some (writeVarint (UInt32.ofNat empties.length) ++ entries) := by
    rw [encodeBlock, inner]
    rfl
  refine ⟨short, _, encoded, ?_, ?_⟩
  · rw [decodeBlock_encodeBlock short encoded, length, Nat.mod_self, List.take_zero]
  · intro none
    rw [none] at length
    cases length

end GStore.Dict.FrontCoding
