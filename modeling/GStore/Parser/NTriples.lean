import GStore.Reason.Rules

/-! # N-Triples

`parser/ntriples.rs`, and the scanners that `parser/turtle.rs` has in common with
it. A scanner answers what it read and what is left. Every loop of a scanner moves on by a character at least, so the length of
what is left is fuel enough. -/

namespace GStore

open Reason

/-- `str::split_whitespace`, from inside a word. -/
def splitWhitespace (word : Text) : Text → List Text
  | [] => if word = [] then [] else [word]
  | char :: rest =>
    if isWhite char then
      if word = [] then splitWhitespace [] rest else word :: splitWhitespace [] rest
    else splitWhitespace (word ++ [char]) rest

end GStore

namespace GStore.Parser

open Reason

/-- `char::is_alphanumeric`; what it accepts beyond ASCII is left open. -/
structure Alphanumeric where
  accepts : Char → Bool
  ascii : ∀ char : Char, char.toNat < 128 → accepts char = char.isAlphanum
  white : ∀ char, isWhite char = true → accepts char = false

/-- Letters and digits of ASCII only. -/
def asciiOnly : Alphanumeric where
  accepts := Char.isAlphanum
  ascii _ _ := rfl
  white := by
    intro char white
    rw [Bool.eq_false_iff]
    intro letter
    simp only [Char.isAlphanum, Char.isAlpha, Char.isUpper, Char.isLower, Char.isDigit,
      Bool.or_eq_true, Bool.and_eq_true, decide_eq_true_eq, UInt32.le_iff_toNat_le, ge_iff_le]
      at letter
    simp only [isWhite, Bool.or_eq_true, Bool.and_eq_true, decide_eq_true_eq, beq_iff_eq] at white
    have code : char.toNat = char.val.toNat := rfl
    have upper : 'A'.val.toNat = 65 ∧ 'Z'.val.toNat = 90 := ⟨rfl, rfl⟩
    have lower : 'a'.val.toNat = 97 ∧ 'z'.val.toNat = 122 := ⟨rfl, rfl⟩
    have digits : '0'.val.toNat = 48 ∧ '9'.val.toNat = 57 := ⟨rfl, rfl⟩
    omega

/-- What an error reports. -/
inductive Problem where
  | expectedTerm (found : Option Char)
  | unterminatedIri
  | iriEscape (found : Option Char)
  | stringEscape (found : Option Char)
  | truncatedEscape
  | hexDigit (found : Char)
  | codePoint (code : Nat)
  | blankPrefix
  | emptyLabel
  | unterminatedLiteral
  | datatypeMarker
  | datatypeIri
  | emptyLanguage
  | trailing (found : Option Char)
  | expected (char : Char) (found : Option Char)
  | directive (word : Text)
  | prefixColon
  | nesting
  | unterminatedCollection
  | undefinedPrefix (name : Text)
  | expectedName (found : Char)
  | datatypeTerm (found : Term)
  | numeric
  /-- A recursion of the model went too deep; the source has no such error. -/
  | exhausted
deriving DecidableEq

/-- An error, with what is left of the document. -/
structure Failure where
  problem : Problem
  rest : Text
deriving DecidableEq

theorem bind_eq_ok {ε α β : Type} {first : Except ε α} {next : α → Except ε β} {result : β} :
    (first >>= next) = .ok result ↔ ∃ value, first = .ok value ∧ next value = .ok result := by
  cases first with
  | error failure => simp [bind, Except.bind]
  | ok value => simp [bind, Except.bind]

theorem map_eq_ok {ε α β : Type} {first : Except ε α} {next : α → β} {result : β} :
    first.map next = .ok result ↔ ∃ value, first = .ok value ∧ next value = result := by
  cases first with
  | error failure => simp [Except.map]
  | ok value => simp [Except.map]

theorem toOption_bind {ε α β : Type} (first : Except ε α) (next : α → Except ε β) :
    (first >>= next).toOption = first.toOption.bind fun value => (next value).toOption := by
  cases first <;> rfl

theorem toOption_eq_some_iff {ε α : Type} {result : Except ε α} {value : α} :
    result.toOption = some value ↔ result = .ok value := by
  cases result <;> simp [Except.toOption]

/-! ## Escapes -/

def hexDigit (char : Char) : Option Nat :=
  if '0' ≤ char ∧ char ≤ '9' then some (char.toNat - 48)
  else if 'a' ≤ char ∧ char ≤ 'f' then some (char.toNat - 87)
  else if 'A' ≤ char ∧ char ≤ 'F' then some (char.toNat - 55)
  else none

/-- `read_hex`: so many digits, and the character they are the code point of. -/
def readHex : Nat → Nat → Text → Except Failure (Char × Text)
  | 0, code, rest =>
    if code.isValidChar then .ok (Char.ofNat code, rest) else .error ⟨.codePoint code, rest⟩
  | _ + 1, _, [] => .error ⟨.truncatedEscape, []⟩
  | digits + 1, code, char :: rest =>
    match hexDigit char with
    | some digit => readHex digits (code * 16 + digit) rest
    | none => .error ⟨.hexDigit char, rest⟩

/-- `read_unicode_escape`, after the backslash. -/
def readUnicodeEscape (problem : Option Char → Problem) : Text → Except Failure (Char × Text)
  | 'u' :: rest => readHex 4 0 rest
  | 'U' :: rest => readHex 8 0 rest
  | char :: rest => .error ⟨problem (some char), rest⟩
  | [] => .error ⟨problem none, []⟩

/-- `read_string_escape`, after the backslash. -/
def readStringEscape : Text → Except Failure (Char × Text)
  | 't' :: rest => .ok ('\t', rest)
  | 'n' :: rest => .ok ('\n', rest)
  | 'r' :: rest => .ok ('\r', rest)
  | 'b' :: rest => .ok (Char.ofNat 8, rest)
  | 'f' :: rest => .ok (Char.ofNat 12, rest)
  | '"' :: rest => .ok ('"', rest)
  | '\'' :: rest => .ok ('\'', rest)
  | '\\' :: rest => .ok ('\\', rest)
  | rest => readUnicodeEscape .stringEscape rest

/-! ## Scanners -/

/-- What an IRI holds, after its opening bracket. -/
def scanIri : Nat → Text → Text → Except Failure (Text × Text)
  | fuel + 1, value, char :: rest =>
    if char = '>' then .ok (value.reverse, rest)
    else if char = '\\' then do
      let (char, rest) ← readUnicodeEscape .iriEscape rest
      scanIri fuel (char :: value) rest
    else scanIri fuel (char :: value) rest
  | _, _, rest => .error ⟨.unterminatedIri, rest⟩

/-- The value of a literal, after its opening quote or, when it is `long`, after
its three opening quotes. -/
def scanString (quote : Char) (long : Bool) : Nat → Text → Text → Except Failure (Text × Text)
  | fuel + 1, value, char :: rest =>
    if char = '\\' then do
      let (char, rest) ← readStringEscape rest
      scanString quote long fuel (char :: value) rest
    else if char = quote ∧ (long = false ∨ rest.take 2 = [quote, quote]) then
      .ok (value.reverse, if long then rest.drop 2 else rest)
    else scanString quote long fuel (char :: value) rest
  | _, _, rest => .error ⟨.unterminatedLiteral, rest⟩

def isLangChar (char : Char) : Bool := char.isAlphanum || char == '-'

/-- A character of a blank node label. -/
def isLabelChar (unicode : Alphanumeric) (char : Char) : Bool :=
  unicode.accepts char || char == '_' || char == '-' || char == '.'

/-! ## Surface forms read back -/

/-- A text in which an IRI may be written as it is. -/
def PlainIri (text : Text) : Prop := ∀ char ∈ text, char ≠ '>' ∧ char ≠ '\\'

theorem scanIri_plain {iri : Text} (plain : PlainIri iri) (rest : Text) :
    ∀ {fuel : Nat} (value : Text), iri.length < fuel →
      scanIri fuel value (iri ++ '>' :: rest) = .ok (value.reverse ++ iri, rest) := by
  induction iri with
  | nil =>
    intro fuel value enough
    cases fuel with
    | zero => cases enough
    | succ fuel => simp [scanIri]
  | cons char iri induction =>
    intro fuel value enough
    cases fuel with
    | zero => cases enough
    | succ fuel =>
      have here := plain char List.mem_cons_self
      have later : PlainIri iri := fun other member => plain other (List.mem_cons_of_mem _ member)
      rw [List.cons_append, scanIri, if_neg here.1, if_neg here.2,
        induction later (char :: value) (Nat.lt_of_succ_lt_succ enough)]
      simp

/-- A character of a value, escaped, reads back. -/
theorem scanString_escapeChar (char : Char) (fuel : Nat) (value rest : Text) :
    scanString '"' false (fuel + 1) value (Term.escapeChar char ++ rest) =
      scanString '"' false fuel (char :: value) rest := by
  unfold Term.escapeChar
  split
  case h_6 =>
    rename_i backslash quote _ _ _
    rw [List.singleton_append, scanString, if_neg backslash, if_neg (fun both => quote both.1)]
  all_goals rfl

theorem scanString_escapeLiteral (text rest : Text) :
    ∀ {fuel : Nat} (value : Text), text.length < fuel →
      scanString '"' false fuel value (Term.escapeLiteral text ++ '"' :: rest) =
        .ok (value.reverse ++ text, rest) := by
  induction text with
  | nil =>
    intro fuel value enough
    cases fuel with
    | zero => cases enough
    | succ fuel => simp [Term.escapeLiteral, scanString]
  | cons char text induction =>
    intro fuel value enough
    cases fuel with
    | zero => cases enough
    | succ fuel =>
      rw [Term.escapeLiteral, List.flatMap_cons, List.append_assoc, scanString_escapeChar]
      change scanString _ _ _ _ (Term.escapeLiteral text ++ _) = _
      rw [induction (char :: value) (Nat.lt_of_succ_lt_succ enough)]
      simp

/-- An escaped value is no shorter. -/
theorem length_le_escapeLiteral (text : Text) : text.length ≤ (Term.escapeLiteral text).length := by
  induction text with
  | nil => exact Nat.zero_le _
  | cons char text induction =>
    have here : 1 ≤ (Term.escapeChar char).length := by
      unfold Term.escapeChar
      split <;> simp
    rw [Term.escapeLiteral, List.flatMap_cons, List.length_append, List.length_cons]
    change _ ≤ _ + (Term.escapeLiteral text).length
    omega

theorem takeWhile_dropWhile_of_stop {test : Char → Bool} {text rest : Text}
    (all : ∀ char ∈ text, test char = true) (stops : rest.head?.all (!test ·) = true) :
    (text ++ rest).takeWhile test = text ∧ (text ++ rest).dropWhile test = rest := by
  have stop : rest.takeWhile test = [] ∧ rest.dropWhile test = rest := by
    cases rest with
    | nil => exact ⟨rfl, rfl⟩
    | cons char rest =>
      have here : test char = false := by simpa using stops
      simp [here]
  rw [List.takeWhile_append_of_pos all, List.dropWhile_append_of_pos all, stop.1, stop.2]
  simp

/-! ## Lines -/

namespace NTriples

def skipWs (text : Text) : Text :=
  text.dropWhile fun char => char == ' ' || char == '\t' || char == '\r'

def parseIri (rest : Text) : Except Failure (Text × Text) := scanIri (rest.length + 1) [] rest

/-- After the `_`. -/
def parseBlank (unicode : Alphanumeric) : Text → Except Failure (Term × Text)
  | ':' :: rest =>
    let label := rest.takeWhile (isLabelChar unicode)
    let rest := rest.dropWhile (isLabelChar unicode)
    if label = [] then .error ⟨.emptyLabel, rest⟩ else .ok (.blank label, rest)
  | rest => .error ⟨.blankPrefix, rest.tail⟩

/-- After the opening quote. -/
def parseLiteral (rest : Text) : Except Failure (Term × Text) := do
  let (value, rest) ← scanString '"' false (rest.length + 1) [] rest
  match rest with
  | '^' :: rest =>
    match rest with
    | '^' :: rest =>
      match skipWs rest with
      | '<' :: rest => do
        let (datatype, rest) ← parseIri rest
        return (.literal value (some datatype) none, rest)
      | rest => .error ⟨.datatypeIri, rest⟩
    | rest => .error ⟨.datatypeMarker, rest.tail⟩
  | '@' :: rest =>
    let lang := rest.takeWhile isLangChar
    let rest := rest.dropWhile isLangChar
    if lang = [] then .error ⟨.emptyLanguage, rest⟩
    else .ok (.literal value none (some lang), rest)
  | rest => .ok (.literal value none none, rest)

/-- `Scanner::parse_term`. -/
def scanTerm (unicode : Alphanumeric) (text : Text) : Except Failure (Term × Text) :=
  match skipWs text with
  | '<' :: rest => do
    let (iri, rest) ← parseIri rest
    return (.iri iri, rest)
  | '"' :: rest => parseLiteral rest
  | '_' :: rest => parseBlank unicode rest
  | rest => .error ⟨.expectedTerm rest.head?, rest⟩

/-- Parse a single term from its surface form. -/
def parseTerm (unicode : Alphanumeric) (text : Text) : Except Problem Term :=
  match scanTerm unicode (trim text) with
  | .error failure => .error failure.problem
  | .ok (term, rest) =>
    if skipWs rest = [] then .ok term else .error (.trailing none)

/-- Parse one line; there is nothing on a blank line or a comment. -/
def parseLine (unicode : Alphanumeric) (line : Text) : Except Failure (Option Triple) :=
  let trimmed := trim line
  if trimmed = [] ∨ trimmed.head? = some '#' then .ok none
  else do
    let (subject, rest) ← scanTerm unicode trimmed
    let (predicate, rest) ← scanTerm unicode rest
    let (object, rest) ← scanTerm unicode rest
    let rest := skipWs rest
    let rest := skipWs (if rest.head? = some '.' then rest.tail else rest)
    match rest with
    | char :: rest =>
      if char = '#' then return some { subject, predicate, object }
      else .error ⟨.trailing (some char), char :: rest⟩
    | [] => return some { subject, predicate, object }

/-- `str::lines`: a line ends in `\n` or `\r\n`, the last one perhaps in neither. -/
def lines (content : Text) : List Text :=
  let pieces := content.splitOn '\n'
  let ended := pieces.dropLast.map fun line =>
    if line.getLast? = some '\r' then line.dropLast else line
  let last := pieces.getLastD []
  if last = [] then ended else ended ++ [last]

/-- Parse a document; an error comes with the number of its line. -/
def parseStr (unicode : Alphanumeric) (content : Text) : Except (Nat × Problem) (List Triple) :=
  ((lines content).zipIdx 1).foldlM (fun triples (line, number) =>
    match parseLine unicode line with
    | .ok triple => .ok (triples ++ triple.toList)
    | .error failure => .error (number, failure.problem)) []

end NTriples

end GStore.Parser
