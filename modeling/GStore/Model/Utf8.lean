import GStore.Foundation.Utf8
import GStore.Model.Term

/-! # Text as bytes

A string of the source is its UTF-8 bytes. Here it is a list of characters, and its bytes are
computed: where one may be cut, and what the parts are. -/

namespace GStore

/-- `str::as_bytes`. -/
def utf8 (text : Text) : Bytes := text.flatMap String.utf8EncodeChar

/-- `std::str::from_utf8`. -/
def fromUtf8 (bytes : Bytes) : Option Text :=
  bytes.toByteArray.utf8Decode?.map Array.toList

@[simp] theorem fromUtf8_utf8 (text : Text) : fromUtf8 (utf8 text) = some text := by
  have same : (utf8 text).toByteArray = text.utf8Encode := rfl
  rw [fromUtf8, same, List.utf8Decode?_utf8Encode, Option.map_some]

/-- A byte of ASCII text is one of its characters. -/
theorem mem_utf8_of_ascii {text : Text} (ascii : ∀ char ∈ text, char.toNat < 128) {byte : UInt8}
    (member : byte ∈ utf8 text) : ∃ char ∈ text, byte = char.val.toUInt8 := by
  rcases List.mem_flatMap.mp member with ⟨char, here, encoded⟩
  have small : char.utf8Size = 1 := by
    rw [Char.utf8Size, if_pos]
    have below := ascii char here
    rw [UInt32.le_iff_toNat_le]
    exact Nat.le_of_lt_succ below
  rw [String.utf8EncodeChar_eq_singleton small, List.mem_singleton] at encoded
  exact ⟨char, here, encoded⟩

/-! ## Cuts -/

/-- A byte that goes on with a character. -/
def Continues (byte : UInt8) : Prop := 0x80 ≤ byte.toNat ∧ byte.toNat < 0xC0

instance (byte : UInt8) : Decidable (Continues byte) := inferInstanceAs (Decidable (_ ∧ _))

/-- `str::is_char_boundary`. -/
def isCharBoundary (text : Text) (index : Nat) : Bool :=
  match (utf8 text)[index]? with
  | some byte => index = 0 ∨ ¬ Continues byte
  | none => index = (utf8 text).length

/-- `&text[..index]`, a panic off the boundaries. -/
def sliceTo (text : Text) (index : Nat) : Option Text :=
  if isCharBoundary text index then fromUtf8 ((utf8 text).take index) else none

theorem utf8_nil : utf8 [] = [] := rfl

theorem utf8_cons (char : Char) (text : Text) :
    utf8 (char :: text) = String.utf8EncodeChar char ++ utf8 text := rfl

theorem utf8_append (left right : Text) : utf8 (left ++ right) = utf8 left ++ utf8 right :=
  List.flatMap_append

/-- Only the first byte of a character does not go on with one. -/
theorem continues_encode (char : Char) : ∃ byte rest, String.utf8EncodeChar char = byte :: rest ∧
    ¬ Continues byte ∧ ∀ further ∈ rest, Continues further := by
  have valid := char.valid
  unfold String.utf8EncodeChar
  simp only [UInt32.isValidChar, Nat.isValidChar] at valid
  generalize char.val.toNat = value at valid ⊢
  dsimp only [Continues]
  split_ifs with one two three
  · refine ⟨_, _, rfl, ?_, by simp⟩
    rw [Utf8.toNat_ofNat_of_lt (by omega)]
    omega
  · refine ⟨_, _, rfl, ?_, ?_⟩
    · rw [Utf8.toNat_ofNat_of_lt (by omega)]
      omega
    · intro further member
      rw [List.mem_singleton.mp member, Utf8.toNat_ofNat_of_lt (by omega)]
      omega
  · refine ⟨_, _, rfl, ?_, ?_⟩
    · rw [Utf8.toNat_ofNat_of_lt (by omega)]
      omega
    · intro further member
      simp only [List.mem_cons, List.not_mem_nil, or_false] at member
      rcases member with same | same
      all_goals
        rw [same, Utf8.toNat_ofNat_of_lt (by omega)]
        omega
  · refine ⟨_, _, rfl, ?_, ?_⟩
    · rw [Utf8.toNat_ofNat_of_lt (by omega)]
      omega
    · intro further member
      simp only [List.mem_cons, List.not_mem_nil, or_false] at member
      rcases member with same | same | same
      all_goals
        rw [same, Utf8.toNat_ofNat_of_lt (by omega)]
        omega

/-- A text may be cut between two characters. -/
theorem isCharBoundary_append (front back : Text) :
    isCharBoundary (front ++ back) (utf8 front).length = true := by
  rw [isCharBoundary, utf8_append]
  cases back with
  | nil =>
    rw [utf8_nil, List.append_nil, List.getElem?_eq_none (le_refl _)]
    exact decide_eq_true rfl
  | cons char rest =>
    obtain ⟨byte, more, encoded, leads, -⟩ := continues_encode char
    have found : (utf8 front ++ utf8 (char :: rest))[(utf8 front).length]? = some byte := by
      rw [List.getElem?_append_right (le_refl _), Nat.sub_self, utf8_cons, encoded]
      rfl
    rw [found]
    simp [leads]

/-- And nowhere else. -/
theorem exists_of_isCharBoundary : ∀ {text : Text} {index : Nat},
    isCharBoundary text index = true →
    ∃ front back, text = front ++ back ∧ (utf8 front).length = index := by
  intro text
  induction text with
  | nil =>
    intro index boundary
    refine ⟨[], [], rfl, ?_⟩
    change decide (index = 0) = true at boundary
    exact (of_decide_eq_true boundary).symm
  | cons char rest induction =>
    intro index boundary
    obtain ⟨byte, more, encoded, -, continues⟩ := continues_encode char
    by_cases start : index = 0
    · exact ⟨[], char :: rest, rfl, start.symm⟩
    · by_cases within : index < (String.utf8EncodeChar char).length
      · -- Inside the first character every byte goes on with it.
        exfalso
        rw [encoded] at within
        have position : index - 1 < more.length := by
          rw [List.length_cons] at within
          omega
        have found : (utf8 (char :: rest))[index]? = some more[index - 1] := by
          rw [utf8_cons, encoded, List.getElem?_append_left within]
          rw [List.getElem?_cons, if_neg start, List.getElem?_eq_getElem position]
        rw [isCharBoundary, found] at boundary
        have goesOn := continues _ (List.getElem_mem position)
        rcases of_decide_eq_true boundary with zero | leads
        · exact start zero
        · exact leads goesOn
      · obtain ⟨front, back, same, length⟩ :=
          @induction (index - (String.utf8EncodeChar char).length) (by
            rw [isCharBoundary] at boundary ⊢
            rw [utf8_cons, List.getElem?_append_right (Nat.le_of_not_lt within)] at boundary
            cases found : (utf8 rest)[index - (String.utf8EncodeChar char).length]? with
            | none =>
              rw [found] at boundary
              simp only [List.length_append, decide_eq_true_eq] at boundary ⊢
              omega
            | some next =>
              rw [found] at boundary
              simp only [start, false_or, decide_eq_true_eq] at boundary
              simp [boundary])
        refine ⟨char :: front, back, by rw [same, List.cons_append], ?_⟩
        rw [utf8_cons, List.length_append, length]
        omega

theorem sliceTo_append (front back : Text) :
    sliceTo (front ++ back) (utf8 front).length = some front := by
  rw [sliceTo, if_pos (isCharBoundary_append front back), utf8_append, List.take_left,
    fromUtf8_utf8]

/-- Texts whose bytes begin alike begin alike. -/
theorem exists_of_utf8_prefix : ∀ {front text : Text} {bytes : Bytes},
    utf8 text = utf8 front ++ bytes → ∃ back, text = front ++ back ∧ utf8 back = bytes := by
  intro front
  induction front with
  | nil =>
    intro text bytes same
    exact ⟨text, rfl, same⟩
  | cons char rest induction =>
    intro text bytes same
    -- Decoding gives the first characters.
    have decoded := Utf8.decodeFrom_none_encode char (utf8 rest ++ bytes)
    rw [utf8_cons, List.append_assoc] at same
    rw [← same] at decoded
    cases text with
    | nil =>
      change [] = _ at decoded
      cases decoded
    | cons first further =>
      rw [utf8_cons, Utf8.decodeFrom_none_encode] at decoded
      have equal : first = char := (List.cons.inj decoded).1
      rw [utf8_cons, equal, List.append_cancel_left_eq] at same
      obtain ⟨back, split, left⟩ := induction same
      exact ⟨back, by rw [equal, split, List.cons_append], left⟩

end GStore
