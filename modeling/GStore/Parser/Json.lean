import GStore.Parser.NTriples

/-! # JSON

`JsonReader` of `parser/jsonld.rs`. A value is read by a recursion as deep as the value is nested;
`depth` is how deep it may go, `level` how deep it is by the reader's own count. -/

namespace GStore.Parser

/-- `Json`; numbers keep their spelling, objects the order of their members. -/
inductive Json where
  | null
  | bool (value : Bool)
  | num (text : Text)
  | str (text : Text)
  | arr (items : List Json)
  | obj (pairs : List (Text × Json))

end GStore.Parser

namespace GStore.Parser.JsonReader

open Reason

/-- `MAX_JSON_DEPTH`. -/
def maxJsonDepth : Nat := 256

/-! ## Problems -/

inductive Problem where
  | trailing
  | tooDeep
  | value
  | key
  | colon
  | members
  | items
  | string
  | lowSurrogateEscape
  | lowSurrogate
  | surrogatePair
  | highSurrogate
  | codePoint
  | escape (char : Char)
  | backslash
  | truncated
  | badHexDigit (char : Char)
  | number (text : Text)
  | literal
  /-- A recursion of the model went too deep; the source has no such error. -/
  | exhausted
deriving DecidableEq

/-- An error, with what is left of the document. -/
structure Failure where
  problem : Problem
  rest : Text
deriving DecidableEq

def skipWs (rest : Text) : Text := rest.dropWhile isWhite

/-! ## Strings -/

/-- `read_hex4`. -/
def readHex : Nat → Nat → Text → Except Failure (Nat × Text)
  | 0, code, rest => .ok (code, rest)
  | _ + 1, _, [] => .error ⟨.truncated, []⟩
  | count + 1, code, char :: rest =>
    match hexDigit char with
    | some digit => readHex count (code * 16 + digit) rest
    | none => .error ⟨.badHexDigit char, rest⟩

def character (code : Nat) (problem : Problem) (rest : Text) : Except Failure (Char × Text) :=
  if code.isValidChar then .ok (Char.ofNat code, rest) else .error ⟨problem, rest⟩

/-- After `\u`. -/
def readUnicode (rest : Text) : Except Failure (Char × Text) := do
  let (code, rest) ← readHex 4 0 rest
  if 0xD800 ≤ code ∧ code ≤ 0xDBFF then
    if rest.head? ≠ some '\\' then throw ⟨.highSurrogate, rest⟩
    else if rest.tail.head? ≠ some 'u' then throw ⟨.lowSurrogateEscape, rest.drop 2⟩
    else
      let (low, rest) ← readHex 4 0 (rest.drop 2)
      if low < 0xDC00 ∨ 0xDFFF < low then throw ⟨.lowSurrogate, rest⟩
      else character (0x10000 + (code - 0xD800) * 1024 + (low - 0xDC00)) .surrogatePair rest
  else character code .codePoint rest

def escaped (char : Char) : Option Char :=
  match char with
  | '"' => some '"'
  | '\\' => some '\\'
  | '/' => some '/'
  | 'b' => some (Char.ofNat 0x08)
  | 'f' => some (Char.ofNat 0x0C)
  | 'n' => some '\n'
  | 'r' => some '\r'
  | 't' => some '\t'
  | _ => none

/-- After a backslash. -/
def readEscape : Text → Except Failure (Char × Text)
  | [] => .error ⟨.backslash, []⟩
  | char :: rest =>
    match escaped char with
    | some char => .ok (char, rest)
    | none => if char = 'u' then readUnicode rest else .error ⟨.escape char, rest⟩

/-- `parse_string`, after its opening quote. -/
def readString : Nat → Text → Text → Except Failure (Text × Text)
  | 0, _, rest => .error ⟨.exhausted, rest⟩
  | _ + 1, _, [] => .error ⟨.string, []⟩
  | fuel + 1, text, char :: rest =>
    if char = '"' then .ok (text, rest)
    else if char = '\\' then do
      let (char, rest) ← readEscape rest
      readString fuel (text ++ [char]) rest
    else readString fuel (text ++ [char]) rest

def parseString (rest : Text) : Except Failure (Text × Text) :=
  readString (rest.length + 1) [] rest.tail

/-! ## Scalars -/

def withoutSign (text : Text) : Text :=
  if text.head? = some '+' ∨ text.head? = some '-' then text.tail else text

def isExponent : Text → Bool
  | [] => true
  | char :: digits =>
    (char == 'e' || char == 'E') && withoutSign digits ≠ [] &&
      (withoutSign digits).all Char.isDigit

/-- What `f64` is read from, other than the names of infinities and of no number. -/
def isFloat (text : Text) : Bool :=
  let text := withoutSign text
  let whole := text.takeWhile Char.isDigit
  let rest := text.dropWhile Char.isDigit
  let point := rest.head? = some '.'
  let fraction := if point then rest.tail.takeWhile Char.isDigit else []
  let exponent := if point then rest.tail.dropWhile Char.isDigit else rest
  (whole ≠ [] || fraction ≠ []) && isExponent exponent

def isNumberChar (char : Char) : Bool :=
  char.isDigit || char == '-' || char == '+' || char == '.' || char == 'e' || char == 'E'

/-- `parse_number`, at a digit or a minus sign. -/
def parseNumber (rest : Text) : Except Failure (Json × Text) :=
  let text := rest.takeWhile isNumberChar
  let rest := rest.dropWhile isNumberChar
  if isFloat text then .ok (.num text, rest) else .error ⟨.number text, rest⟩

def matchWord (word : String) (json : Json) (rest : Text) : Except Failure (Json × Text) :=
  if word.toList.isPrefixOf rest then .ok (json, rest.drop word.length)
  else .error ⟨.literal, rest⟩

def parseBool (rest : Text) : Except Failure (Json × Text) :=
  if "true".toList.isPrefixOf rest then .ok (.bool true, rest.drop 4)
  else matchWord "false" (.bool false) rest

/-! ## Values -/

/-- The members of `parse_object`; `read` reads a value. -/
def parseMembers (read : Text → Except Failure (Json × Text)) :
    Nat → List (Text × Json) → Text → Except Failure (Json × Text)
  | 0, _, rest => .error ⟨.exhausted, rest⟩
  | fuel + 1, pairs, rest =>
    let rest := skipWs rest
    if rest.head? ≠ some '"' then .error ⟨.key, rest⟩
    else do
      let (key, rest) ← parseString rest
      let rest := skipWs rest
      if rest.head? ≠ some ':' then throw ⟨.colon, rest.tail⟩
      else
        let (value, rest) ← read rest.tail
        let pairs := pairs ++ [(key, value)]
        let rest := skipWs rest
        if rest.head? = some ',' then parseMembers read fuel pairs rest.tail
        else if rest.head? = some '\x7d' then return (.obj pairs, rest.tail)
        else throw ⟨.members, rest.tail⟩

/-- `parse_object`, at its brace. -/
def parseObject (read : Text → Except Failure (Json × Text)) (rest : Text) :
    Except Failure (Json × Text) :=
  let rest := skipWs rest.tail
  if rest.head? = some '\x7d' then .ok (.obj [], rest.tail)
  else parseMembers read (rest.length + 1) [] rest

/-- The items of `parse_array`. -/
def parseItems (read : Text → Except Failure (Json × Text)) :
    Nat → List Json → Text → Except Failure (Json × Text)
  | 0, _, rest => .error ⟨.exhausted, rest⟩
  | fuel + 1, items, rest => do
    let (value, rest) ← read rest
    let items := items ++ [value]
    let rest := skipWs rest
    if rest.head? = some ',' then parseItems read fuel items rest.tail
    else if rest.head? = some ']' then return (.arr items, rest.tail)
    else throw ⟨.items, rest.tail⟩

/-- `parse_array`, at its bracket. -/
def parseArray (read : Text → Except Failure (Json × Text)) (rest : Text) :
    Except Failure (Json × Text) :=
  let rest := skipWs rest.tail
  if rest.head? = some ']' then .ok (.arr [], rest.tail)
  else parseItems read (rest.length + 1) [] rest

/-- `parse_value`. -/
def parseValue : Nat → Nat → Text → Except Failure (Json × Text)
  | 0, _, rest => .error ⟨.exhausted, rest⟩
  | depth + 1, level, rest =>
    if maxJsonDepth < level then .error ⟨.tooDeep, rest⟩
    else
      let rest := skipWs rest
      match rest.head? with
      | some '\x7b' => parseObject (parseValue depth (level + 1)) rest
      | some '[' => parseArray (parseValue depth (level + 1)) rest
      | some '"' => (parseString rest).map fun (text, rest) => (.str text, rest)
      | some 't' => parseBool rest
      | some 'f' => parseBool rest
      | some 'n' => matchWord "null" .null rest
      | some char =>
        if char = '-' ∨ char.isDigit then parseNumber rest else .error ⟨.value, rest⟩
      | none => .error ⟨.value, rest⟩

/-- `parse`: a whole document. -/
def parse (depth : Nat) (content : Text) : Except Failure Json := do
  let (json, rest) ← parseValue depth 0 (skipWs content)
  let rest := skipWs rest
  if rest ≠ [] then throw ⟨.trailing, rest⟩ else return json

/-- How deep the reader goes: the value that is refused, and those around it. -/
def readerDepth : Nat := maxJsonDepth + 2

end GStore.Parser.JsonReader
