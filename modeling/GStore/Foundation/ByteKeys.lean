import Mathlib
import GStore.Foundation.Bytes
import GStore.Foundation.Words

/-! # Byte-ordered keys

Big-endian integers, whose byte order is the order of the values, and the scan of a
byte-ordered map from a stem. -/

namespace GStore

/-! ## Big-endian integers -/

def beBytes (value : Nat) : Nat → Bytes
  | 0 => []
  | width + 1 => UInt8.ofNat (value / 256 ^ width) :: beBytes value width

def beValue : Bytes → Nat
  | [] => 0
  | byte :: rest => byte.toNat * 256 ^ rest.length + beValue rest

@[simp] theorem length_beBytes (value width : Nat) : (beBytes value width).length = width := by
  induction width with
  | zero => rfl
  | succ width induction => rw [beBytes, List.length_cons, induction]

theorem beValue_beBytes (value width : Nat) :
    beValue (beBytes value width) = value % 256 ^ width := by
  induction width with
  | zero => rw [beBytes, beValue, pow_zero, Nat.mod_one]
  | succ width induction =>
    have byte : (UInt8.ofNat (value / 256 ^ width)).toNat = value / 256 ^ width % 256 := by simp
    rw [beBytes, beValue, induction, length_beBytes, byte, pow_succ, Nat.mod_mul]
    ring

theorem beValue_lt (bytes : Bytes) : beValue bytes < 256 ^ bytes.length := by
  induction bytes with
  | nil => exact Nat.one_pos
  | cons byte rest induction =>
    have small : byte.toNat + 1 ≤ 256 := byte.toNat_lt
    have scaled := Nat.mul_le_mul_right (256 ^ rest.length) small
    rw [beValue, List.length_cons, pow_succ]
    linarith

/-- Byte strings of one length are ordered as the numbers they stand for. -/
theorem lt_iff_beValue_lt : ∀ {left right : Bytes}, left.length = right.length →
    (left < right ↔ beValue left < beValue right)
  | [], [], _ => by simp [beValue]
  | first :: left, second :: right, lengths => by
      have shorter : left.length = right.length := by simpa using lengths
      have leftBound := beValue_lt left
      have rightBound := beValue_lt right
      rw [← shorter] at rightBound
      rw [List.cons_lt_cons_iff, lt_iff_beValue_lt shorter, beValue, beValue, ← shorter]
      rcases lt_trichotomy first second with less | same | greater
      · have step : first.toNat + 1 ≤ second.toNat := UInt8.lt_iff_toNat_lt.mp less
        have scaled := Nat.mul_le_mul_right (256 ^ left.length) step
        exact iff_of_true (.inl less) (by linarith)
      · simp [same]
      · have step : second.toNat + 1 ≤ first.toNat := UInt8.lt_iff_toNat_lt.mp greater
        have scaled := Nat.mul_le_mul_right (256 ^ left.length) step
        refine iff_of_false ?_ (by linarith)
        rintro (less | ⟨same, _⟩)
        · exact lt_asymm less greater
        · exact greater.ne' same

theorem append_lt_append_iff : ∀ {left right : Bytes} {leftRest rightRest : Bytes},
    left.length = right.length →
    (left ++ leftRest < right ++ rightRest ↔
      left < right ∨ left = right ∧ leftRest < rightRest)
  | [], [], _, _, _ => by simp
  | first :: left, second :: right, leftRest, rightRest, lengths => by
      have rest : left ++ leftRest < right ++ rightRest ↔ _ :=
        append_lt_append_iff (by simpa using lengths)
      simp only [List.cons_append, List.cons_lt_cons_iff, rest, List.cons.injEq]
      tauto

/-- The order of the keys of a map is the order of byte strings. -/
theorem compare_bytes_lt_iff : ∀ {left right : Bytes}, compare left right = .lt ↔ left < right
  | [], [] => by simp
  | [], _ :: _ => iff_of_true rfl (List.nil_lt_cons _ _)
  | _ :: _, [] => iff_of_false Ordering.noConfusion (List.not_lt_nil _)
  | first :: left, second :: right => by
      have lead : compare first second = .lt ↔ first < second := compare_lt_iff_lt
      rw [List.cons_lt_cons_iff, ← compare_bytes_lt_iff, List.compare_cons_cons,
        Ordering.then_eq_lt, lead, Std.compare_eq_iff_eq]

/-- `u32::to_be_bytes` and back. -/
def be32 (value : UInt32) : Bytes := beBytes value.toNat 4

def ofBe32 (bytes : Bytes) : UInt32 := UInt32.ofNat (beValue bytes)

@[simp] theorem length_be32 (value : UInt32) : (be32 value).length = 4 := length_beBytes _ _

theorem beValue_be32 (value : UInt32) : beValue (be32 value) = value.toNat := by
  rw [be32, beValue_beBytes]
  exact Nat.mod_eq_of_lt (by simpa using value.toNat_lt)

@[simp] theorem ofBe32_be32 (value : UInt32) : ofBe32 (be32 value) = value := by
  rw [ofBe32, beValue_be32]
  exact UInt32.ofNat_toNat

@[simp] theorem be32_inj {left right : UInt32} : be32 left = be32 right ↔ left = right :=
  ⟨fun same => by rw [← ofBe32_be32 left, same, ofBe32_be32], congrArg be32⟩

@[simp] theorem be32_lt_iff {left right : UInt32} : be32 left < be32 right ↔ left < right := by
  rw [lt_iff_beValue_lt (by simp), beValue_be32, beValue_be32]
  exact UInt32.lt_iff_toNat_lt.symm

@[simp] theorem be32_append_lt_iff {left right : UInt32} {leftRest rightRest : Bytes} :
    be32 left ++ leftRest < be32 right ++ rightRest ↔
      left < right ∨ left = right ∧ leftRest < rightRest := by
  rw [append_lt_append_iff (by simp), be32_lt_iff, be32_inj]

@[simp] theorem be32_append_inj {left right : UInt32} {leftRest rightRest : Bytes} :
    be32 left ++ leftRest = be32 right ++ rightRest ↔ left = right ∧ leftRest = rightRest := by
  constructor
  · intro same
    have parts := List.append_inj same (by simp)
    exact ⟨be32_inj.mp parts.1, parts.2⟩
  · rintro ⟨rfl, rfl⟩
    rfl

@[simp] theorem be32_append_prefix_iff {left right : UInt32} {leftRest rightRest : Bytes} :
    be32 left ++ leftRest <+: be32 right ++ rightRest ↔ left = right ∧ leftRest <+: rightRest := by
  constructor
  · rintro ⟨tail, whole⟩
    rw [List.append_assoc, be32_append_inj] at whole
    exact ⟨whole.1, tail, whole.2⟩
  · rintro ⟨same, tail, whole⟩
    exact ⟨tail, by rw [List.append_assoc, be32_append_inj]; exact ⟨same, whole⟩⟩

/-! ## Scans

In byte order the keys under a stem lie together and begin at the stem itself. -/

theorem not_prefix_of_lt : ∀ {key stem : Bytes}, key < stem → ¬ stem <+: key
  | [], _ :: _, _ => by simp
  | first :: key, second :: stem, less => by
      rw [List.cons_lt_cons_iff] at less
      rw [List.cons_prefix_cons]
      rintro ⟨same, under⟩
      rcases less with less | ⟨_, less⟩
      · exact less.ne' same
      · exact not_prefix_of_lt less under

/-- A key past the stem that is not under it has no later key under it. -/
theorem not_prefix_of_passed : ∀ {key later stem : Bytes}, ¬ key < stem → ¬ stem <+: key →
    key < later → ¬ stem <+: later
  | key, _, [], _, outside, _ => absurd List.nil_prefix outside
  | [], _, _ :: _, past, _, _ => absurd (List.nil_lt_cons _ _) past
  | _ :: _, [], _ :: _, _, _, order => absurd order (List.not_lt_nil _)
  | first :: key, second :: later, third :: stem, past, outside, order => by
      rw [List.cons_lt_cons_iff] at past order
      rw [List.cons_prefix_cons] at outside ⊢
      rintro ⟨same, under⟩
      subst same
      rcases order with less | ⟨same, further⟩
      · exact past (.inl less)
      · subst same
        refine not_prefix_of_passed (fun less => past (.inr ⟨rfl, less⟩)) ?_ further under
        exact fun under => outside ⟨rfl, under⟩

/-- The keys under a stem, ascending: the scan starts at the stem and ends with the first
key that is not under it. -/
def scanFrom (keys : List Bytes) (stem : Bytes) : List Bytes :=
  (keys.dropWhile fun key => decide (key < stem)).takeWhile (stem.isPrefixOf ·)

theorem scanFrom_eq_filter {keys : List Bytes} {stem : Bytes} (ascending : keys.Pairwise (· < ·)) :
    scanFrom keys stem = keys.filter (stem.isPrefixOf ·) := by
  have passed : ∀ {rest : List Bytes}, rest.Pairwise (· < ·) → (∀ key ∈ rest, ¬ key < stem) →
      rest.takeWhile (stem.isPrefixOf ·) = rest.filter (stem.isPrefixOf ·) := by
    intro rest ordered past
    induction rest with
    | nil => rfl
    | cons key rest induction =>
      rcases List.pairwise_cons.mp ordered with ⟨before, orderedRest⟩
      by_cases under : stem.isPrefixOf key
      · rw [List.takeWhile_cons_of_pos under, List.filter_cons_of_pos under,
          induction orderedRest fun other member => past other (List.mem_cons_of_mem _ member)]
      · rw [List.takeWhile_cons_of_neg under, List.filter_cons_of_neg under, eq_comm,
          List.filter_eq_nil_iff]
        intro later member
        rw [List.isPrefixOf_iff_prefix] at under ⊢
        exact not_prefix_of_passed (past key List.mem_cons_self) under (before later member)
  induction keys with
  | nil => rfl
  | cons key rest induction =>
    rcases List.pairwise_cons.mp ascending with ⟨before, orderedRest⟩
    by_cases early : key < stem
    · have outside : ¬ stem.isPrefixOf key = true := by
        rw [List.isPrefixOf_iff_prefix]
        exact not_prefix_of_lt early
      rw [scanFrom, List.dropWhile_cons_of_pos (by simpa using early),
        List.filter_cons_of_neg outside]
      exact induction orderedRest
    · rw [scanFrom, List.dropWhile_cons_of_neg (by simpa using early)]
      apply passed ascending
      intro later member
      rcases List.mem_cons.mp member with same | further
      · rwa [same]
      · intro less
        exact early ((before later further).trans less)

end GStore
