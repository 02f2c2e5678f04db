import Mathlib
import GStore.Foundation.Bytes
import GStore.Foundation.CoverTree
import GStore.Dict.Dictionary

/-! # Entity signatures

`signature/mod.rs`: a fixed-width bit string that stands for the edges of an
entity. Containment of bit strings is an order and union its join, which is all
that the signature tree uses of them. -/

namespace GStore.Signature

/-! ## Geometry -/

def strSigLiteral : Nat := 200
def strSigEntity : Nat := strSigLiteral * 2
def strSigLength : Nat := strSigEntity + strSigLiteral
def edgeSigIntervalNumHalf : Nat := 10
def edgeSigIntervalBase : Nat := 10
def edgeSigLength : Nat := 2 * edgeSigIntervalNumHalf * edgeSigIntervalBase
def strAndEdgeIntervalBase : Nat := 48
def strAndEdgeIntervalNum : Nat := 3
def strAndEdgeSigLength : Nat := strAndEdgeIntervalBase * strAndEdgeIntervalNum

/-- Total signature width in bits. -/
def entitySigLength : Nat := strSigLength + edgeSigLength + strAndEdgeSigLength

/-- Number of 64-bit limbs backing a signature. -/
def limbs : Nat := (entitySigLength + 63) / 64

/-- Raw byte width of the limbs. -/
def sigBytes : Nat := limbs * 8

inductive EdgeDir where
  /-- The entity is the subject. -/
  | out
  /-- The entity is the object. -/
  | in
deriving DecidableEq, Repr

end Signature

structure Signature where
  bits : Vector UInt64 Signature.limbs
deriving DecidableEq

namespace Signature

def new : Signature := { bits := Vector.replicate limbs 0 }

/-- Every encoder stays inside the signature, so its bits are indices. -/
abbrev Bit := Fin entitySigLength

theorem Bit.limb_lt (bit : Bit) : bit.val / 64 < limbs := by
  have inside := bit.isLt
  have width : entitySigLength = 944 := rfl
  have count : limbs = 15 := rfl
  omega

def set (signature : Signature) (bit : Bit) : Signature where
  bits := signature.bits.set (bit.val / 64)
    (signature.bits.get ⟨bit.val / 64, bit.limb_lt⟩ ||| (1 <<< UInt64.ofNat (bit.val % 64)))
    bit.limb_lt

def test (signature : Signature) (bit : Bit) : Bool :=
  signature.bits.get ⟨bit.val / 64, bit.limb_lt⟩ &&& (1 <<< UInt64.ofNat (bit.val % 64)) != 0

def unionWith (signature other : Signature) : Signature where
  bits := signature.bits.zipWith (· ||| ·) other.bits

/-- Whether `signature` has every bit of `other`. -/
def contains (signature other : Signature) : Bool :=
  (List.finRange limbs).all fun limb =>
    other.bits.get limb &&& ~~~ signature.bits.get limb == 0

def isEmpty (signature : Signature) : Bool := signature.bits.all (· == 0)

/-- `u64::count_ones`. -/
def countOnes (word : UInt64) : Nat :=
  (List.range 64).countP fun bit => word.toBitVec.getLsbD bit

/-- Sum over the limbs. -/
def sumLimbs (count : Fin limbs → Nat) : Nat := ((List.finRange limbs).map count).sum

def popcount (signature : Signature) : Nat :=
  sumLimbs fun limb => countOnes (signature.bits.get limb)

/-- The bits in which two signatures differ. -/
def distance (signature other : Signature) : Nat :=
  sumLimbs fun limb => countOnes (signature.bits.get limb ^^^ other.bits.get limb)

/-- The bits of `other` that `signature` lacks. -/
def addedBits (signature other : Signature) : Nat :=
  sumLimbs fun limb => countOnes (other.bits.get limb &&& ~~~ signature.bits.get limb)

/-! ## The order of containment -/

/-- One bit of one limb. -/
def Has (signature : Signature) (limb : Fin limbs) (bit : Nat) : Prop :=
  (signature.bits.get limb).toBitVec.getLsbD bit = true

theorem eq_of_has_iff {left right : Signature}
    (same : ∀ limb bit, left.Has limb bit ↔ right.Has limb bit) : left = right := by
  rcases left with ⟨left⟩
  rcases right with ⟨right⟩
  congr 1
  apply Vector.ext
  intro limb inside
  rw [← UInt64.toBitVec_inj]
  apply BitVec.eq_of_getLsbD_eq
  intro bit _
  exact Bool.eq_iff_iff.mpr (same ⟨limb, inside⟩ bit)

theorem and_not_eq_zero_iff (left right : UInt64) :
    left &&& ~~~ right = 0 ↔
      ∀ bit, left.toBitVec.getLsbD bit = true → right.toBitVec.getLsbD bit = true := by
  rw [← UInt64.toBitVec_inj]
  constructor
  · intro empty bit leftHas
    have inside := BitVec.lt_of_getLsbD leftHas
    have bits := congrArg (fun word : BitVec 64 => word.getLsbD bit) empty
    simpa [leftHas, inside] using bits
  · intro below
    apply BitVec.eq_of_getLsbD_eq
    intro bit inside
    have known := below bit
    cases leftHas : left.toBitVec.getLsbD bit <;> simp_all

theorem contains_iff {signature other : Signature} :
    signature.contains other = true ↔
      ∀ limb bit, other.Has limb bit → signature.Has limb bit := by
  simp only [contains, List.all_eq_true, List.mem_finRange, true_implies, beq_iff_eq,
    and_not_eq_zero_iff, Has]

theorem has_unionWith {signature other : Signature} {limb : Fin limbs} {bit : Nat} :
    (signature.unionWith other).Has limb bit ↔ signature.Has limb bit ∨ other.Has limb bit := by
  simp [Has, unionWith, Vector.get_eq_getElem]

theorem not_has_new (limb : Fin limbs) (bit : Nat) : ¬ new.Has limb bit := by
  simp [Has, new, Vector.get_eq_getElem]

/-- `left ≤ right` when `right` has every bit of `left`. -/
instance : LE Signature where
  le left right := right.contains left = true

instance : DecidableLE Signature := fun left right =>
  inferInstanceAs (Decidable (right.contains left = true))

theorem le_iff {left right : Signature} :
    left ≤ right ↔ ∀ limb bit, left.Has limb bit → right.Has limb bit := contains_iff

theorem le_iff_contains {left right : Signature} : left ≤ right ↔ right.contains left = true :=
  Iff.rfl

instance : SemilatticeSup Signature where
  le_refl signature := le_iff.mpr fun _ _ has => has
  le_trans first second third lower upper :=
    le_iff.mpr fun limb bit has => le_iff.mp upper limb bit (le_iff.mp lower limb bit has)
  le_antisymm left right lower upper :=
    eq_of_has_iff fun limb bit => ⟨le_iff.mp lower limb bit, le_iff.mp upper limb bit⟩
  sup := unionWith
  le_sup_left left right := le_iff.mpr fun _ _ has => has_unionWith.mpr (.inl has)
  le_sup_right left right := le_iff.mpr fun _ _ has => has_unionWith.mpr (.inr has)
  sup_le first second bound lower upper := le_iff.mpr fun limb bit has =>
    (has_unionWith.mp has).elim (le_iff.mp lower limb bit) (le_iff.mp upper limb bit)

instance : OrderBot Signature where
  bot := new
  bot_le _ := le_iff.mpr fun limb bit has => absurd has (not_has_new limb bit)

theorem sup_eq (left right : Signature) : left ⊔ right = left.unionWith right := rfl

/-! ## Encoding edges -/

/-- `is_literal_id`. -/
def isLiteralId (id : UInt32) : Bool :=
  decide (Dict.literalFirstId ≤ id.toNat) && decide (id.toNat ≠ 2 ^ 32 - 1)

/-- `is_entity_id`. -/
def isEntityId (id : UInt32) : Bool := decide (id.toNat < Dict.literalFirstId)

def predicateBit (pred : UInt32) (dir : EdgeDir) : Bit :=
  let id := pred.toNat
  let seedNum := id % edgeSigIntervalNumHalf +
    if dir = .out then edgeSigIntervalNumHalf else 0
  let seed := id * 5003 % 49957
  ⟨seed % edgeSigIntervalBase + strSigLength + edgeSigIntervalBase * seedNum, by
    simp only [edgeSigIntervalBase, strSigLength, edgeSigIntervalNumHalf, entitySigLength,
      strSigEntity, strSigLiteral, edgeSigLength, strAndEdgeSigLength, strAndEdgeIntervalBase,
      strAndEdgeIntervalNum, seedNum]
    split <;> omega⟩

def strBit (neighbor : UInt32) (dir : EdgeDir) : Bit :=
  let seed := neighbor.toNat % strSigLiteral
  ⟨seed + if isLiteralId neighbor then strSigEntity else if dir = .out then strSigLiteral else 0, by
    simp only [edgeSigIntervalBase, strSigLength, edgeSigIntervalNumHalf, entitySigLength,
      strSigEntity, strSigLiteral, edgeSigLength, strAndEdgeSigLength, strAndEdgeIntervalBase,
      strAndEdgeIntervalNum, seed]
    split <;> [omega; split <;> omega]⟩

/-- Cantor pairing, folded into the interval. -/
def combinedBit (pred neighbor : UInt32) (dir : EdgeDir) : Bit :=
  let x := pred.toNat % strAndEdgeIntervalBase
  let y := neighbor.toNat % strAndEdgeIntervalBase
  let seed := (x + (x + y + 1) * (x + y) / 2) % strAndEdgeIntervalBase
  ⟨seed + (strSigLength + edgeSigLength) +
      if isLiteralId neighbor then strAndEdgeIntervalBase * 2
      else if dir = .out then strAndEdgeIntervalBase else 0, by
    have below : seed < 48 := Nat.mod_lt _ (by decide)
    simp only [edgeSigIntervalBase, strSigLength, edgeSigIntervalNumHalf, entitySigLength,
      strSigEntity, strSigLiteral, edgeSigLength, strAndEdgeSigLength, strAndEdgeIntervalBase,
      strAndEdgeIntervalNum]
    split <;> [omega; split <;> omega]⟩

def encodePredicate (signature : Signature) (pred : UInt32) (dir : EdgeDir) : Signature :=
  signature.set (predicateBit pred dir)

def encodeStr (signature : Signature) (neighbor : UInt32) (dir : EdgeDir) : Signature :=
  signature.set (strBit neighbor dir)

def encodeCombined (signature : Signature) (pred neighbor : UInt32) (dir : EdgeDir) :
    Signature :=
  signature.set (combinedBit pred neighbor dir)

/-- Encode a fully known edge of an entity. -/
def encodeEdge (signature : Signature) (pred neighbor : UInt32) (dir : EdgeDir) : Signature :=
  ((signature.encodePredicate pred dir).encodeStr neighbor dir).encodeCombined pred neighbor dir

/-- Encode the known parts of a query edge. -/
def encodeQueryEdge (signature : Signature) (pred neighbor : Option UInt32) (dir : EdgeDir) :
    Signature :=
  let signature := match pred with
    | some pred => signature.encodePredicate pred dir
    | none => signature
  let signature := match neighbor with
    | some neighbor => signature.encodeStr neighbor dir
    | none => signature
  match pred, neighbor with
  | some pred, some neighbor => signature.encodeCombined pred neighbor dir
  | _, _ => signature

/-! ## Encoding as a join

Setting a bit joins it to the signature, so an encoder joins the bits of its
edge, in whatever order the edges come. -/

theorem has_set {signature : Signature} {bit : Bit} {limb : Fin limbs} {index : Nat} :
    (signature.set bit).Has limb index ↔
      signature.Has limb index ∨ (bit.val / 64 = limb.val ∧ index = bit.val % 64) := by
  have small : bit.val % 64 < 64 := Nat.mod_lt _ (by decide)
  rcases limb with ⟨limb, inside⟩
  by_cases same : bit.val / 64 = limb
  · subst same
    simp only [Has, set, Vector.get_eq_getElem, Vector.getElem_set_self, UInt64.toBitVec_or,
      BitVec.getLsbD_or, Bool.or_eq_true, true_and]
    refine or_congr_right ?_
    simp
    omega
  · simp [Has, set, Vector.get_eq_getElem, Vector.getElem_set_ne, same]

/-- The signature with one bit. -/
def single (bit : Bit) : Signature := new.set bit

theorem set_eq (signature : Signature) (bit : Bit) : signature.set bit = signature ⊔ single bit := by
  apply eq_of_has_iff
  intro limb index
  rw [sup_eq, has_unionWith, single, has_set, has_set, or_iff_right (not_has_new limb index)]

/-- The bits of a fully known edge. -/
def edgeBits (pred neighbor : UInt32) (dir : EdgeDir) : Signature :=
  single (predicateBit pred dir) ⊔ single (strBit neighbor dir) ⊔
    single (combinedBit pred neighbor dir)

/-- An edge agrees with the known parts of a query edge. -/
def MatchesEdge (pred neighbor : UInt32) (queryPred queryNeighbor : Option UInt32) : Prop :=
  (∀ known ∈ queryPred, known = pred) ∧ ∀ known ∈ queryNeighbor, known = neighbor

theorem encodeEdge_eq (signature : Signature) (pred neighbor : UInt32) (dir : EdgeDir) :
    signature.encodeEdge pred neighbor dir = signature ⊔ edgeBits pred neighbor dir := by
  simp only [encodeEdge, encodeCombined, encodeStr, encodePredicate, set_eq, edgeBits, sup_assoc]

/-- A query edge asks for no bit that a matching edge lacks. -/
theorem encodeQueryEdge_le {signature bound : Signature} {pred neighbor : UInt32}
    {queryPred queryNeighbor : Option UInt32} {dir : EdgeDir}
    (agrees : MatchesEdge pred neighbor queryPred queryNeighbor) (lower : signature ≤ bound)
    (edge : edgeBits pred neighbor dir ≤ bound) :
    signature.encodeQueryEdge queryPred queryNeighbor dir ≤ bound := by
  have predicate : single (predicateBit pred dir) ≤ bound :=
    le_trans (le_trans le_sup_left le_sup_left) edge
  have string : single (strBit neighbor dir) ≤ bound :=
    le_trans (le_trans le_sup_right le_sup_left) edge
  have combined : single (combinedBit pred neighbor dir) ≤ bound := le_trans le_sup_right edge
  cases queryPred with
  | none =>
    cases queryNeighbor with
    | none => exact lower
    | some known =>
      rw [agrees.2 known rfl]
      simp only [encodeQueryEdge, encodeStr, set_eq]
      exact sup_le lower string
  | some knownPred =>
    rw [agrees.1 knownPred rfl]
    cases queryNeighbor with
    | none =>
      simp only [encodeQueryEdge, encodePredicate, set_eq]
      exact sup_le lower predicate
    | some known =>
      rw [agrees.2 known rfl]
      simp only [encodeQueryEdge, encodeCombined, encodeStr, encodePredicate, set_eq]
      exact sup_le (sup_le (sup_le lower predicate) string) combined

/-! ## Bytes -/

/-- The limbs, little-endian. -/
def writeLe (signature : Signature) : Bytes :=
  signature.bits.toList.flatMap fun limb => leBytes 8 limb.toNat

/-- Rebuild a signature from its bytes; what lies behind them is not read. -/
def readLe (bytes : Bytes) : Signature where
  bits := Vector.ofFn fun limb : Fin limbs =>
    UInt64.ofNat (leValue (slice bytes (limb.val * 8) (limb.val * 8 + 8)))

theorem length_writeLe (signature : Signature) : signature.writeLe.length = sigBytes := by
  rw [writeLe, length_flatMap (fun limb : UInt64 => leBytes 8 limb.toNat) _
    fun limb _ => length_leBytes 8 limb.toNat]
  simp [sigBytes]

theorem readLe_writeLe (signature : Signature) (rest : Bytes) :
    readLe (signature.writeLe ++ rest) = signature := by
  rcases signature with ⟨bits⟩
  simp only [readLe]
  congr 1
  apply Vector.ext
  intro limb inside
  have stored := slice_flatMap (fun word : UInt64 => leBytes 8 word.toNat) bits.toList limb
    (by simpa using inside) fun word _ => length_leBytes 8 word.toNat
  have fits : limb * 8 + 8 ≤ (writeLe ⟨bits⟩).length := by
    rw [length_writeLe, sigBytes]
    omega
  have bound := (bits[limb]).toNat_lt
  rw [Vector.getElem_ofFn, slice_append_left rest _ fits, writeLe, stored, leValue_leBytes,
    Vector.getElem_toList, Nat.mod_eq_of_lt (by simpa using bound)]
  exact UInt64.ofNat_toNat

end Signature

end GStore
