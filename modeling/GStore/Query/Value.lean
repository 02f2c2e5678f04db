import GStore.Foundation.FixedPoint
import GStore.Http.Form
import GStore.Query.DateTime
import GStore.Query.Select

/-! # Runtime values

`query/value.rs`: what terms are worth in an expression, and the numeric tower. Integers and
decimals are exact; the arithmetic of `f64` is a parameter. A step of the source that does not
check its overflow has no outcome where it overflows: the first of two nested options. -/

namespace GStore.Query

open Reason FixedPoint Http

/-! ## Machine integers and doubles -/

abbrev Signed (bits : ℕ) : Type := {value : ℤ // InWidth bits value}

def Signed.narrow (bits : ℕ) (value : ℤ) : Option (Signed bits) :=
  if inside : InWidth bits value then some ⟨value, inside⟩ else none

/-- `str::parse` of a signed type. -/
def parseSigned (bits : ℕ) (text : Text) : Option (Signed bits) :=
  let digits := if text.head? = some '+' ∨ text.head? = some '-' then text.tail else text
  if digits ≠ [] ∧ digits.all Char.isDigit then
    let magnitude := Nat.ofDigitChars 10 digits 0
    Signed.narrow bits (if text.head? = some '-' then -magnitude else magnitude)
  else none

/-- `to_string` of an integer. -/
def intText (value : ℤ) : Text :=
  let digits := Nat.toDigits 10 value.natAbs
  if value < 0 then '-' :: digits else digits

/-- What the source uses of `f64`. -/
structure Floats (Double : Type) where
  /-- `as f64`. -/
  ofInt : ℤ → Double
  parse : Text → Option Double
  /-- `format_double`. -/
  format : Double → Text
  /-- `10f64.powi`. -/
  powi : ℤ → Double
  neg : Double → Double
  add : Double → Double → Double
  sub : Double → Double → Double
  mul : Double → Double → Double
  div : Double → Double → Double
  isNan : Double → Bool
  partialCmp : Double → Double → Option Ordering

variable {Double : Type}

def Floats.eq (floats : Floats Double) (left right : Double) : Bool :=
  floats.partialCmp left right == some .eq

/-- `apply_f64`. -/
def Floats.apply (floats : Floats Double) : ArithOp → Double → Double → Double
  | .add => floats.add
  | .sub => floats.sub
  | .mul => floats.mul
  | .div => floats.div

/-! ## Decimals -/

/-- `mant × 10⁻ˢᶜᵃˡᵉ`. -/
structure Decimal where
  mant : ℤ
  scale : ℕ
  inside : InWidth 128 mant
  scale_lt : scale < UInt32.size
deriving DecidableEq

namespace Decimal

def fromI128 (value : Signed 128) : Decimal := ⟨value.1, 0, value.2, by decide⟩

def narrow (mant : ℤ) (scale : ℕ) (scale_lt : scale < UInt32.size) : Option Decimal :=
  if inside : InWidth 128 mant then some ⟨mant, scale, inside, scale_lt⟩ else none

/-- The scale as an `i32`, where the upper half is negative. -/
def scaleI32 (decimal : Decimal) : ℤ :=
  if decimal.scale < 2147483648 then decimal.scale else decimal.scale - UInt32.size

def toF64 (floats : Floats Double) (decimal : Decimal) : Double :=
  floats.div (floats.ofInt decimal.mant) (floats.powi decimal.scaleI32)

/-- `saturating_neg`. -/
def saturatingNeg (value : Signed 128) : Signed 128 :=
  if least : value.1 = -2 ^ 127 then ⟨2 ^ 127 - 1, by decide⟩
  else ⟨-value.1, by
    have inside := value.2
    unfold InWidth at inside ⊢
    omega⟩

def negated (decimal : Decimal) : Decimal :=
  ⟨(saturatingNeg ⟨decimal.mant, decimal.inside⟩).1, decimal.scale,
    (saturatingNeg ⟨decimal.mant, decimal.inside⟩).2, decimal.scale_lt⟩

/-- The digits after the sign. The length of the fraction is cut to a `u32`. -/
def parseDigits (neg : Bool) (rest : Text) : Option Decimal :=
  let (intPart, fracPart) := (splitOnce '.' rest).getD (rest, [])
  if intPart = [] ∧ fracPart = [] then none
  else if ¬ (intPart.all Char.isDigit ∧ fracPart.all Char.isDigit) then none
  else do
    let mant ← parseSigned 128 (intPart ++ fracPart)
    narrow (if neg then -mant.1 else mant.1) (fracPart.length % UInt32.size)
      (Nat.mod_lt _ (by decide))

def parse (text : Text) : Option Decimal :=
  match trim text with
  | [] => none
  | '+' :: rest => parseDigits false rest
  | '-' :: rest => parseDigits true rest
  | rest => parseDigits false rest

/-- The digits of a magnitude with the point before the last `scale` of them. -/
def body (digits : Text) (scale : ℕ) : Text :=
  if scale < digits.length then
    digits.take (digits.length - scale) ++ '.' :: digits.drop (digits.length - scale)
  else '0' :: '.' :: (List.replicate (scale - digits.length) '0' ++ digits)

def lexical (decimal : Decimal) : Text :=
  if decimal.scale = 0 then intText decimal.mant
  else
    let text := body (Nat.toDigits 10 decimal.mant.natAbs) decimal.scale
    if decimal.mant < 0 then '-' :: text else text

def tenPow : ℕ → ℤ
  | 0 => 1
  | exponent + 1 => 10 * tenPow exponent

/-- The mantissa at a larger scale. -/
def rescaled (decimal : Decimal) (target : ℕ) : Option ℤ := do
  let factor ← checked 128 (tenPow (target - decimal.scale))
  checked 128 (decimal.mant * factor)

def cmpExact (left right : Decimal) : Option Ordering := do
  let first ← left.rescaled (max left.scale right.scale)
  let second ← right.rescaled (max left.scale right.scale)
  return compare first second

def add (left right : Decimal) : Option Decimal := do
  let first ← left.rescaled (max left.scale right.scale)
  let second ← right.rescaled (max left.scale right.scale)
  narrow (first + second) (max left.scale right.scale) (max_lt left.scale_lt right.scale_lt)

def sub (left right : Decimal) : Option Decimal := do
  let first ← left.rescaled (max left.scale right.scale)
  let second ← right.rescaled (max left.scale right.scale)
  narrow (first - second) (max left.scale right.scale) (max_lt left.scale_lt right.scale_lt)

/-- The sum of the scales is not checked. -/
def mul (left right : Decimal) : Option (Option Decimal) :=
  if inside : InWidth 128 (left.mant * right.mant) then
    if scale_lt : left.scale + right.scale < UInt32.size then
      some (some ⟨left.mant * right.mant, left.scale + right.scale, inside, scale_lt⟩)
    else none
  else some none

/-- `==`, by value. -/
def eq (floats : Floats Double) (left right : Decimal) : Bool :=
  match left.cmpExact right with
  | some order => order == .eq
  | none => floats.eq (left.toF64 floats) (right.toF64 floats)

/-- Division is not one of the exact operations. -/
def arith (left right : Decimal) : ArithOp → Option (Option Decimal)
  | .add => some (left.add right)
  | .sub => some (left.sub right)
  | .mul => left.mul right
  | .div => some none

end Decimal

/-! ## Values -/

inductive RuntimeValue (Double : Type) where
  | iri (text : Text)
  | blank (text : Text)
  | int (value : Signed 64)
  | bigInt (value : Signed 128)
  | decimal (value : Decimal)
  | double (value : Double)
  | bool (value : Bool)
  | str (value : Text) (lang : Option Text)
  | typed (value datatype : Text)
deriving DecidableEq

def xsd (name : String) : Text := "http://www.w3.org/2001/XMLSchema#".toList ++ name.toList

def intTypes : List Text :=
  [xsd "integer", xsd "int", xsd "long", xsd "short", xsd "byte", xsd "nonNegativeInteger",
    xsd "positiveInteger", xsd "unsignedInt", xsd "unsignedLong"]

def floatTypes : List Text := [xsd "double", xsd "float"]

namespace RuntimeValue

def fromBoolean (value : Text) : Option (RuntimeValue Double) :=
  if trim value = "true".toList ∨ trim value = "1".toList then some (.bool true)
  else if trim value = "false".toList ∨ trim value = "0".toList then some (.bool false)
  else none

def fromInteger (value : Text) : Option (RuntimeValue Double) :=
  match parseSigned 64 (trim value) with
  | some value => some (.int value)
  | none => (parseSigned 128 (trim value)).map .bigInt

def fromDecimal (floats : Floats Double) (value : Text) : Option (RuntimeValue Double) :=
  match Decimal.parse (trim value) with
  | some value => some (.decimal value)
  | none => (floats.parse (trim value)).map .double

/-- A literal whose form is not one of its datatype keeps both as they are. -/
def fromTyped (floats : Floats Double) (value datatype : Text) : RuntimeValue Double :=
  let known :=
    if intTypes.contains datatype then fromInteger value
    else if datatype = xsd "decimal" then fromDecimal floats value
    else if floatTypes.contains datatype then (floats.parse (trim value)).map .double
    else if datatype = xsd "boolean" then fromBoolean value
    else if datatype = xsd "string" then some (.str value none)
    else none
  known.getD (.typed value datatype)

def fromTerm (floats : Floats Double) : Term → RuntimeValue Double
  | .iri text => .iri text
  | .blank text => .blank text
  | .literal value _ (some lang) => .str value (some lang)
  | .literal value none none => .str value none
  | .literal value (some datatype) none => fromTyped floats value datatype

def asF64 (floats : Floats Double) : RuntimeValue Double → Option Double
  | .int value => some (floats.ofInt value.1)
  | .bigInt value => some (floats.ofInt value.1)
  | .decimal value => some (value.toF64 floats)
  | .double value => some value
  | _ => none

def asI128 : RuntimeValue Double → Option (Signed 128)
  | .int value => some ⟨value.1, by
      have inside := value.2
      unfold InWidth at inside ⊢
      omega⟩
  | .bigInt value => some value
  | _ => none

def asDecimal (value : RuntimeValue Double) : Option Decimal :=
  match value with
  | .decimal value => some value
  | value => value.asI128.map Decimal.fromI128

def lexical (floats : Floats Double) : RuntimeValue Double → Text
  | .iri text | .blank text => text
  | .int value => intText value.1
  | .bigInt value => intText value.1
  | .decimal value => value.lexical
  | .double value => floats.format value
  | .bool value => (toString value).toList
  | .str value _ => value
  | .typed value _ => value

/-- `value_to_term`. -/
def toTerm (floats : Floats Double) (value : RuntimeValue Double) : Term :=
  let typedAs (name : String) : Term := .literal (value.lexical floats) (some (xsd name)) none
  match value with
  | .iri text => .iri text
  | .blank text => .blank text
  | .int _ | .bigInt _ => typedAs "integer"
  | .decimal _ => typedAs "decimal"
  | .double _ => typedAs "double"
  | .bool _ => typedAs "boolean"
  | .str text lang => .literal text none lang
  | .typed text datatype => .literal text (some datatype) none

/-- The effective boolean value. -/
def ebv (floats : Floats Double) : RuntimeValue Double → Option Bool
  | .bool value => some value
  | .int value => some (value.1 != 0)
  | .bigInt value => some (value.1 != 0)
  | .decimal value => some (value.mant != 0)
  | .double value => some (!floats.eq value (floats.ofInt 0) && !floats.isNan value)
  | .str value _ => some (!value.isEmpty)
  | _ => none

/-- `parse_xsd_datetime`. -/
def parseXsdDatetime (floats : Floats Double) (text : Text) : Option (Option Double) :=
  match DateTime.parseDateTimeParts text with
  | none => some none
  | some parts => do
    let secs ← DateTime.instantSecs parts
    let fraction := if parts.frac = [] then none
      else (fromUtf8 parts.frac).bind fun digits => floats.parse ('.' :: digits)
    return some (floats.add (floats.ofInt secs) (fraction.getD (floats.ofInt 0)))

def datetimeInstant (floats : Floats Double) : RuntimeValue Double → Option (Option Double)
  | .typed value datatype =>
    if datatype = xsd "dateTime" ∨ datatype = xsd "date" then parseXsdDatetime floats value
    else some none
  | _ => some none

/-- The first test that applies to two numbers. -/
def numericEq (floats : Floats Double) (left right : RuntimeValue Double) : Option Bool :=
  match left.asI128, right.asI128 with
  | some first, some second => some (first.1 == second.1)
  | _, _ =>
    match left.asDecimal, right.asDecimal with
    | some first, some second => some (first.eq floats second)
    | _, _ => return floats.eq (← left.asF64 floats) (← right.asF64 floats)

/-- The same for the order, which two doubles need not have. -/
def numericCmp (floats : Floats Double) (left right : RuntimeValue Double) :
    Option (Option Ordering) :=
  match left.asI128, right.asI128 with
  | some first, some second => some (some (compare first.1 second.1))
  | _, _ =>
    match left.asDecimal, right.asDecimal, left.asF64 floats, right.asF64 floats with
    | some first, some second, some leftDouble, some rightDouble =>
      match first.cmpExact second with
      | some order => some (some order)
      | none => some (floats.partialCmp leftDouble rightDouble)
    | _, _, some leftDouble, some rightDouble =>
      some (floats.partialCmp leftDouble rightDouble)
    | _, _, _, _ => none

def plainEq : RuntimeValue Double → RuntimeValue Double → Option Bool
  | .iri left, .iri right => some (left == right)
  | .blank left, .blank right => some (left == right)
  | .bool left, .bool right => some (left == right)
  | .str left leftLang, .str right rightLang => some (left == right && leftLang == rightLang)
  | .typed left leftType, .typed right rightType => some (left == right && leftType == rightType)
  | _, _ => none

def plainCmp : RuntimeValue Double → RuntimeValue Double → Option Ordering
  | .str left _, .str right _ => some (compare (utf8 left) (utf8 right))
  | .bool left, .bool right => some (compare left right)
  | .iri left, .iri right => some (compare (utf8 left) (utf8 right))
  | _, _ => none

/-- `=`. -/
def sparqlEq (floats : Floats Double) (left right : RuntimeValue Double) :
    Option (Option Bool) :=
  match left.numericEq floats right with
  | some same => some (some same)
  | none => do
    match ← left.datetimeInstant floats, ← right.datetimeInstant floats with
    | some first, some second => return some (floats.eq first second)
    | _, _ => return left.plainEq right

/-- `<` and the like. -/
def sparqlCmp (floats : Floats Double) (left right : RuntimeValue Double) :
    Option (Option Ordering) :=
  match left.numericCmp floats right with
  | some order => some order
  | none => do
    match ← left.datetimeInstant floats, ← right.datetimeInstant floats with
    | some first, some second => return floats.partialCmp first second
    | _, _ => return left.plainCmp right

/-- An integer at the end of its type goes on in the next one. -/
def negate (floats : Floats Double) : RuntimeValue Double → Option (RuntimeValue Double)
  | .int value =>
    match Signed.narrow 64 (-value.1) with
    | some opposite => some (.int opposite)
    | none => (Signed.narrow 128 (-value.1)).map .bigInt
  | .bigInt value =>
    match Signed.narrow 128 (-value.1) with
    | some opposite => some (.bigInt opposite)
    | none => some (.double (floats.neg (floats.ofInt value.1)))
  | .decimal value => some (.decimal value.negated)
  | .double value => some (.double (floats.neg value))
  | _ => none

/-- The smallest type that holds an integer. -/
def intValue (value : Signed 128) : RuntimeValue Double :=
  match Signed.narrow 64 value.1 with
  | some value => .int value
  | none => .bigInt value

/-- The operation on doubles, where the exact one has no result. -/
def arithF64 (floats : Floats Double) (op : ArithOp) (left right : RuntimeValue Double) :
    Option (RuntimeValue Double) := do
  let first ← left.asF64 floats
  let second ← right.asF64 floats
  return .double (floats.apply op first second)

/-- Division is not one of the exact operations. -/
def checkedInt (left right : Signed 128) : ArithOp → Option (Signed 128)
  | .add => Signed.narrow 128 (left.1 + right.1)
  | .sub => Signed.narrow 128 (left.1 - right.1)
  | .mul => Signed.narrow 128 (left.1 * right.1)
  | .div => none

def divide (floats : Floats Double) (left right : RuntimeValue Double) :
    Option (RuntimeValue Double) := do
  let first ← left.asF64 floats
  let second ← right.asF64 floats
  if floats.eq second (floats.ofInt 0) then none else return .double (floats.div first second)

/-- The exact operations, on integers, then on decimals, then on doubles. -/
def exactArith (floats : Floats Double) (op : ArithOp) (left right : RuntimeValue Double) :
    Option (Option (RuntimeValue Double)) :=
  match left.asI128, right.asI128 with
  | some first, some second =>
    match checkedInt first second op with
    | some value => some (some (intValue value))
    | none => some (left.arithF64 floats op right)
  | _, _ =>
    match left.asDecimal, right.asDecimal with
    | some first, some second => do
      match ← first.arith second op with
      | some value => return some (.decimal value)
      | none => return left.arithF64 floats op right
    | _, _ => some (left.arithF64 floats op right)

def arith (floats : Floats Double) (left : RuntimeValue Double) (op : ArithOp)
    (right : RuntimeValue Double) : Option (Option (RuntimeValue Double)) :=
  match op with
  | .div => some (left.divide floats right)
  | op => exactArith floats op left right

def compareValues (floats : Floats Double) (op : CompareOp) (left right : RuntimeValue Double) :
    Option (Option Bool) :=
  match op with
  | .eq => left.sparqlEq floats right
  | .ne => (left.sparqlEq floats right).map (Option.map Bool.not)
  | .lt => (left.sparqlCmp floats right).map (Option.map Ordering.isLT)
  | .gt => (left.sparqlCmp floats right).map (Option.map Ordering.isGT)
  | .le => (left.sparqlCmp floats right).map (Option.map Ordering.isLE)
  | .ge => (left.sparqlCmp floats right).map (Option.map Ordering.isGE)

end RuntimeValue

end GStore.Query
