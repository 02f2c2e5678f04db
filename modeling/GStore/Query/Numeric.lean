import GStore.Query.Value

/-! # The numeric tower

What numbers denote. The operations are exact where no machine integer stands in their way, and
the conditions say where one does. -/

namespace GStore.Query

open Reason FixedPoint Http

variable {Double : Type} {decimal first second : Decimal}

/-- Only digits. -/
def Digits (text : Text) : Prop := ∀ char ∈ text, char.isDigit = true

theorem Digits.append {front back : Text} (left : Digits front) (right : Digits back) :
    Digits (front ++ back) := by
  intro char member
  rcases List.mem_append.mp member with inFront | inBack
  · exact left char inFront
  · exact right char inBack

theorem Digits.not_mem {text : Text} (digits : Digits text) {char : Char}
    (other : char.isDigit = false) : char ∉ text := by
  intro member
  rw [digits char member] at other
  cases other

theorem Digits.head?_ne {text : Text} (digits : Digits text) {char : Char}
    (other : char.isDigit = false) : text.head? ≠ some char :=
  fun same => digits.not_mem other (List.mem_of_mem_head? same)

theorem Digits.parseSigned {text : Text} (digits : Digits text) (nonempty : text ≠ [])
    (bits : ℕ) :
    parseSigned bits text = Signed.narrow bits (Nat.ofDigitChars 10 text 0) := by
  have plus : text.head? ≠ some '+' := digits.head?_ne (by decide)
  have minus : text.head? ≠ some '-' := digits.head?_ne (by decide)
  have all : text.all Char.isDigit = true := List.all_eq_true.mpr digits
  unfold Query.parseSigned
  simp only [plus, minus, or_self, if_false]
  rw [if_pos ⟨nonempty, all⟩]

def Decimal.number (decimal : Decimal) : ℚ := FixedPoint.number 10 decimal.mant decimal.scale

/-- A number at the larger of two scales. -/
def Decimal.mantAt (decimal : Decimal) (target : ℕ) : ℤ := decimal.mant * 10 ^ (target - decimal.scale)

/-- The digits of zero that the larger scale asks for, and the mantissa with them, are within
`i128`. -/
structure Decimal.Reaches (decimal : Decimal) (target : ℕ) : Prop where
  factor : InWidth 128 (10 ^ (target - decimal.scale))
  mant : InWidth 128 (decimal.mantAt target)

/-- The mantissa of the exact result at its scale. -/
def ArithOp.mant (first second : Decimal) : ArithOp → ℤ
  | .add => first.mantAt (max first.scale second.scale) + second.mantAt (max first.scale second.scale)
  | .sub => first.mantAt (max first.scale second.scale) - second.mantAt (max first.scale second.scale)
  | .mul => first.mant * second.mant
  | .div => 0

def ArithOp.scale (first second : Decimal) : ArithOp → ℕ
  | .mul => first.scale + second.scale
  | _ => max first.scale second.scale

namespace RuntimeValue

/-- What a value denotes, given what the doubles do. -/
def number (value : Double → Option ℚ) : RuntimeValue Double → Option ℚ
  | .int integer => some integer.1
  | .bigInt integer => some integer.1
  | .decimal exactly => some exactly.number
  | .double inner => value inner
  | _ => none

variable {floats : Floats Double} {value : Double → Option ℚ} {left right : RuntimeValue Double}
  {op : ArithOp} {integer : Signed 128}

/-- The double that a sum has instead of an exact result. -/
def fallback (floats : Floats Double) (op : ArithOp) (left right : RuntimeValue Double) :
    Option Double := do
  return floats.apply op (← left.asF64 floats) (← right.asF64 floats)

/-- What the doubles are relied on for: a sign is changed exactly, and the least `i128`, a power of
two, is converted exactly. -/
structure Sound (floats : Floats Double) (value : Double → Option ℚ) : Prop where
  neg : ∀ double, value (floats.neg double) = (value double).map Neg.neg
  least : value (floats.ofInt (-2 ^ 127)) = some (-2 ^ 127)

/-- Rationals in the place of doubles, which are the same where nothing is rounded. -/
def unrounded : Floats ℚ where
  ofInt := fun value => value
  parse := fun _ => none
  format := fun _ => []
  powi := fun exponent => 10 ^ exponent
  neg := fun value => -value
  add := fun left right => left + right
  sub := fun left right => left - right
  mul := fun left right => left * right
  div := fun left right => left / right
  isNan := fun _ => false
  partialCmp := fun left right => some (compare left right)

end RuntimeValue

end GStore.Query
