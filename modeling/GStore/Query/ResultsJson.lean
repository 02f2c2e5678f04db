import GStore.Parser.RoundTrip

/-! # Query results as JSON

`sparql_results.rs` writes a result table, `http_client.rs` reads the answer of an endpoint with a
JSON reader of its own. What is written is read back, whatever characters the values hold. -/

namespace GStore.Query

open GStore.Parser

/-! ## The writer -/

/-- A table; each row has one cell per column, and `none` is unbound. -/
structure ResultSet where
  vars : List Text
  rows : List (List (Option Text))
  aligned : ∀ row ∈ rows, row.length = vars.length

/-- What a loop writes that puts a comma before each item but the first. -/
def commaSeparated : List Text → Text
  | [] => []
  | first :: rest => first ++ rest.flatMap (',' :: ·)

/-- `\x7b:04x\x7d` of a code point below `0x10000`. -/
def hexDigits (code : Nat) : Text :=
  [code / 4096 % 16, code / 256 % 16, code / 16 % 16, code % 16].map Nat.digitChar

def escapeJson (char : Char) : Text :=
  if char = '"' then ['\\', '"']
  else if char = '\\' then ['\\', '\\']
  else if char = '\n' then ['\\', 'n']
  else if char = '\r' then ['\\', 'r']
  else if char = '\t' then ['\\', 't']
  else if char.toNat < 0x20 then '\\' :: 'u' :: hexDigits char.toNat
  else [char]

/-- `json_str`: quote and escape a string. -/
def jsonStr (text : Text) : Text := '"' :: (text.flatMap escapeJson ++ ['"'])

/-- The object of a term. -/
def termJson : Term → Text
  | .iri text => "\x7b\"type\":\"uri\",\"value\":".toList ++ (jsonStr text ++ ['\x7d'])
  | .blank label => "\x7b\"type\":\"bnode\",\"value\":".toList ++ (jsonStr label ++ ['\x7d'])
  | .literal value _ (some lang) =>
    "\x7b\"type\":\"literal\",\"value\":".toList ++
      (jsonStr value ++ (",\"xml:lang\":".toList ++ (jsonStr lang ++ ['\x7d'])))
  | .literal value (some datatype) none =>
    "\x7b\"type\":\"literal\",\"value\":".toList ++
      (jsonStr value ++ (",\"datatype\":".toList ++ (jsonStr datatype ++ ['\x7d'])))
  | .literal value none none =>
    "\x7b\"type\":\"literal\",\"value\":".toList ++ (jsonStr value ++ ['\x7d'])

/-- `binding_json`: a cell that is not a term is written as a plain literal. -/
def bindingJson (unicode : Alphanumeric) (cell : Text) : Text :=
  match NTriples.parseTerm unicode cell with
  | .ok term => termJson term
  | .error _ => termJson (.literal cell none none)

/-- One row; an unbound cell is left out. -/
def rowJson (unicode : Alphanumeric) (vars : List Text) (row : List (Option Text)) : Text :=
  let cells := (vars.zip row).filterMap fun (name, cell) =>
    cell.map fun text => jsonStr name ++ ':' :: bindingJson unicode text
  '\x7b' :: (commaSeparated cells ++ ['\x7d'])

def writeSelectJson (unicode : Alphanumeric) (results : ResultSet) : Text :=
  "\x7b\"head\":\x7b\"vars\":[".toList ++ (commaSeparated (results.vars.map jsonStr) ++
    ("]\x7d,\"results\":\x7b\"bindings\":[".toList ++
      (commaSeparated (results.rows.map (rowJson unicode results.vars)) ++ "]\x7d\x7d".toList)))

/-! ## The reader -/

/-- A JSON value, over the numbers of the host. -/
inductive Json (φ : Type) where
  | null
  | bool (value : Bool)
  | num (value : φ)
  | str (text : Text)
  | arr (items : List (Json φ))
  | obj (fields : List (Text × Json φ))

namespace Json

variable {φ : Type}

def get (json : Json φ) (key : Text) : Option (Json φ) :=
  match json with
  | .obj fields => fields.lookup key
  | _ => none

def asArray : Json φ → Option (List (Json φ))
  | .arr items => some items
  | _ => none

def asObject : Json φ → Option (List (Text × Json φ))
  | .obj fields => some fields
  | _ => none

def asStr : Json φ → Option Text
  | .str text => some text
  | _ => none

end Json

inductive JsonError where
  /-- `unexpected token {found}`. -/
  | unexpected (found : Option Char)
  /-- `expected ',' or {close}, found {found}`. -/
  | separator (close : Char) (found : Option Char)
  /-- `expected {char}, found {found}`. -/
  | expected (char : Char) (found : Option Char)
  | unterminatedEscape
  | badHexDigit (found : Char)
  | badEscape (found : Option Char)
  | unterminatedString
  | badNumber (text : Text)
  | invalidLiteral
  | trailing
  /-- The source goes on; more fuel gives its answer. -/
  | outOfFuel

abbrev JsonRead (α : Type) := Text → Except JsonError (α × Text)

def skipJsonWs (text : Text) : Text :=
  text.dropWhile fun char => char == ' ' || char == '\t' || char == '\n' || char == '\r'

def expectChar (char : Char) (text : Text) : Except JsonError Text :=
  if text.head? = some char then .ok text.tail else .error (.expected char text.head?)

/-- So many hex digits. -/
def readCode : Nat → Nat → JsonRead Nat
  | 0, code, rest => .ok (code, rest)
  | _ + 1, _, [] => .error .unterminatedEscape
  | digits + 1, code, char :: rest =>
    match hexDigit char with
    | some digit => readCode digits (code * 16 + digit) rest
    | none => .error (.badHexDigit char)

/-- What stands behind a backslash; a surrogate is replaced. -/
def readJsonEscape : JsonRead Char
  | '"' :: rest => .ok ('"', rest)
  | '\\' :: rest => .ok ('\\', rest)
  | '/' :: rest => .ok ('/', rest)
  | 'n' :: rest => .ok ('\n', rest)
  | 't' :: rest => .ok ('\t', rest)
  | 'r' :: rest => .ok ('\r', rest)
  | 'b' :: rest => .ok (Char.ofNat 8, rest)
  | 'f' :: rest => .ok (Char.ofNat 12, rest)
  | 'u' :: rest => do
    let (code, rest) ← readCode 4 0 rest
    return (if code.isValidChar then Char.ofNat code else Char.ofNat 0xFFFD, rest)
  | rest => .error (.badEscape rest.head?)

/-- A string, behind its opening quote. -/
def scanJsonString : Nat → Text → JsonRead Text
  | fuel + 1, value, char :: rest =>
    if char = '"' then .ok (value.reverse, rest)
    else if char = '\\' then do
      let (char, rest) ← readJsonEscape rest
      scanJsonString fuel (char :: value) rest
    else scanJsonString fuel (char :: value) rest
  | _, _, _ => .error .unterminatedString

def readJsonString : JsonRead Text := fun text => do
  let rest ← expectChar '"' text
  scanJsonString (rest.length + 1) [] rest

def isNumberChar (char : Char) : Bool :=
  char == '-' || char == '+' || char == '.' || char == 'e' || char == 'E' || char.isDigit

section Values

-- `str::parse::<f64>`
variable {φ : Type} (parseFloat : Text → Option φ)

def readNumber : JsonRead (Json φ) := fun text =>
  let number := text.takeWhile isNumberChar
  match parseFloat number with
  | some value => .ok (.num value, text.dropWhile isNumberChar)
  | none => .error (.badNumber number)

def consumeWord (word : String) (text : Text) : Option Text :=
  if word.toList.isPrefixOf text then some (text.drop word.length) else none

def readBoolean : JsonRead (Json φ) := fun text =>
  match consumeWord "true" text, consumeWord "false" text with
  | some rest, _ => .ok (.bool true, rest)
  | none, some rest => .ok (.bool false, rest)
  | none, none => .error .invalidLiteral

def readNull : JsonRead (Json φ) := fun text =>
  match consumeWord "null" text with
  | some rest => .ok (.null, rest)
  | none => .error .invalidLiteral

/-- Items up to the closing character, at least one of them. -/
def readItems {α : Type} (close : Char) (item : JsonRead α) : Nat → JsonRead (List α)
  | 0, _ => .error .outOfFuel
  | fuel + 1, text => do
    let (first, rest) ← item text
    match skipJsonWs rest with
    | [] => .error (.separator close none)
    | char :: rest =>
      if char = ',' then do
        let (others, rest) ← readItems close item fuel rest
        return (first :: others, rest)
      else if char = close then return ([first], rest)
      else .error (.separator close (some char))

/-- Items behind an opening character. -/
def readSequence {α : Type} (close : Char) (item : JsonRead α) : JsonRead (List α) := fun text =>
  let rest := skipJsonWs text
  if rest.head? = some close then .ok ([], rest.tail)
  else readItems close item (rest.length + 1) rest

def readField (value : JsonRead (Json φ)) : JsonRead (Text × Json φ) := fun text => do
  let (key, rest) ← readJsonString (skipJsonWs text)
  let rest ← expectChar ':' (skipJsonWs rest)
  let (value, rest) ← value rest
  return ((key, value), rest)

/-- The fuel bounds the depth. -/
def readValue : Nat → JsonRead (Json φ)
  | 0, _ => .error .outOfFuel
  | fuel + 1, text =>
    match skipJsonWs text with
    | [] => .error (.unexpected none)
    | char :: rest =>
      if char = '\x7b' then do
        let (fields, rest) ← readSequence '\x7d' (readField (readValue fuel)) rest
        return (.obj fields, rest)
      else if char = '[' then do
        let (items, rest) ← readSequence ']' (readValue fuel) rest
        return (.arr items, rest)
      else if char = '"' then do
        let (text, rest) ← readJsonString (char :: rest)
        return (.str text, rest)
      else if char = 't' ∨ char = 'f' then readBoolean (char :: rest)
      else if char = 'n' then readNull (char :: rest)
      else if char = '-' ∨ char.isDigit then readNumber parseFloat (char :: rest)
      else .error (.unexpected (some char))

/-- `Json::parse`. -/
def parseJson (text : Text) : Except JsonError (Json φ) := do
  let (json, rest) ← readValue parseFloat (text.length + 1) text
  if skipJsonWs rest = [] then return json else .error .trailing

end Values

inductive ClientError where
  /-- `bad JSON: {error}`. -/
  | badJson (error : JsonError)
  | noBindings
  | notObject
  | missingType
  | missingValue

section Client

variable {φ : Type}

def rdfTermFromJson (cell : Json φ) : Except ClientError Term :=
  match (cell.get "type".toList).bind Json.asStr with
  | none => .error .missingType
  | some type_ =>
    match (cell.get "value".toList).bind Json.asStr with
    | none => .error .missingValue
    | some value =>
      if type_ = "uri".toList then .ok (.iri value)
      else if type_ = "bnode".toList then .ok (.blank value)
      else .ok (.literal value ((cell.get "datatype".toList).bind Json.asStr)
        ((cell.get "xml:lang".toList).bind Json.asStr))

def solutionFromJson (row : Json φ) : Except ClientError (List (Text × Term)) :=
  match row.asObject with
  | none => .error .notObject
  | some fields => fields.mapM fun (name, cell) => do
    let term ← rdfTermFromJson cell
    return (name, term)

/-- `parse_sparql_json`. -/
def parseSparqlJson (parseFloat : Text → Option φ) (body : Text) :
    Except ClientError (List (List (Text × Term))) :=
  match parseJson parseFloat body with
  | .error error => .error (.badJson error)
  | .ok json =>
    match ((json.get "results".toList).bind fun results =>
        results.get "bindings".toList).bind Json.asArray with
    | none => .error .noBindings
    | some bindings => bindings.mapM solutionFromJson

end Client

/-! ## Strings -/

theorem hexDigit_digitChar : ∀ digit < 16, hexDigit (Nat.digitChar digit) = some digit := by decide

theorem readCode_hexDigits {code : Nat} (small : code < 65536) (rest : Text) :
    readCode 4 0 (hexDigits code ++ rest) = .ok (code, rest) := by
  have digit : ∀ part : Nat, hexDigit (Nat.digitChar (part % 16)) = some (part % 16) := fun part =>
    hexDigit_digitChar _ (Nat.mod_lt _ (by decide))
  have sum : (((0 * 16 + code / 4096 % 16) * 16 + code / 256 % 16) * 16 + code / 16 % 16) * 16 +
      code % 16 = code := by omega
  simp only [hexDigits, List.map_cons, List.map_nil, List.cons_append, List.nil_append, readCode,
    digit, sum]

theorem scanJsonString_escape (char : Char) (fuel : Nat) (value rest : Text) :
    scanJsonString (fuel + 1) value (escapeJson char ++ rest) =
      scanJsonString fuel (char :: value) rest := by
  rw [escapeJson]
  split
  · rename_i same
    rw [same]
    rfl
  · rename_i notQuote
    split
    · rename_i same
      rw [same]
      rfl
    · rename_i notBackslash
      split
      · rename_i same
        rw [same]
        rfl
      · split
        · rename_i same
          rw [same]
          rfl
        · split
          · rename_i same
            rw [same]
            rfl
          · split
            · rename_i control
              have code := readCode_hexDigits (show char.toNat < 65536 by omega) rest
              have valid : char.toNat.isValidChar := char.valid
              have escape : readJsonEscape ('u' :: (hexDigits char.toNat ++ rest)) =
                  .ok (char, rest) := by
                rw [readJsonEscape, code]
                dsimp only [bind, Except.bind]
                rw [if_pos valid, Char.ofNat_toNat]
                rfl
              rw [List.cons_append, List.cons_append, scanJsonString, if_neg (by decide),
                if_pos rfl, escape]
              rfl
            · rw [List.singleton_append, scanJsonString, if_neg notQuote, if_neg notBackslash]

theorem scanJsonString_text (text rest : Text) : ∀ {fuel : Nat} (value : Text), text.length < fuel →
    scanJsonString fuel value (text.flatMap escapeJson ++ '"' :: rest) =
      .ok (value.reverse ++ text, rest) := by
  induction text with
  | nil =>
    intro fuel value enough
    cases fuel with
    | zero => cases enough
    | succ fuel => simp [scanJsonString]
  | cons char text induction =>
    intro fuel value enough
    cases fuel with
    | zero => cases enough
    | succ fuel =>
      rw [List.flatMap_cons, List.append_assoc, scanJsonString_escape,
        induction (char :: value) (Nat.lt_of_succ_lt_succ enough)]
      simp

theorem length_le_escaped (text : Text) : text.length ≤ (text.flatMap escapeJson).length := by
  induction text with
  | nil => exact Nat.zero_le _
  | cons char text induction =>
    have here : 1 ≤ (escapeJson char).length := by
      unfold escapeJson
      split_ifs <;> simp
    rw [List.flatMap_cons, List.length_append, List.length_cons]
    omega

/-- A string is read back, whatever characters it holds. -/
theorem readJsonString_jsonStr (text rest : Text) :
    readJsonString (jsonStr text ++ rest) = .ok (text, rest) := by
  have whole : jsonStr text ++ rest = '"' :: (text.flatMap escapeJson ++ '"' :: rest) := by
    simp [jsonStr]
  have enough : text.length < (text.flatMap escapeJson ++ '"' :: rest).length + 1 := by
    have escaped := length_le_escaped text
    rw [List.length_append]
    omega
  rw [whole, readJsonString, expectChar, List.head?_cons, if_pos rfl]
  exact scanJsonString_text text rest [] enough

/-! ## Values -/

/-- The first character of a value that is written. -/
def Starts (text : Text) : Prop :=
  ∃ char tail, text = char :: tail ∧ (char = '"' ∨ char = '\x7b' ∨ char = '[')

theorem starts_jsonStr (text : Text) : Starts (jsonStr text) := ⟨'"', _, rfl, .inl rfl⟩

theorem Starts.append {text : Text} (starts : Starts text) (rest : Text) :
    Starts (text ++ rest) := by
  obtain ⟨char, tail, rfl, isChar⟩ := starts
  exact ⟨char, tail ++ rest, rfl, isChar⟩

theorem Starts.skipJsonWs {text : Text} (starts : Starts text) : skipJsonWs text = text := by
  obtain ⟨char, tail, rfl, rfl | rfl | rfl⟩ := starts <;> rfl

theorem commaSeparated_cons (first second : Text) (rest : List Text) :
    commaSeparated (first :: second :: rest) = first ++ ',' :: commaSeparated (second :: rest) := by
  simp [commaSeparated]

theorem length_le_commaSeparated {texts : List Text} (starts : ∀ text ∈ texts, Starts text) :
    texts.length ≤ (commaSeparated texts).length := by
  induction texts with
  | nil => exact Nat.zero_le _
  | cons first rest induction =>
    obtain ⟨char, tail, same, -⟩ := starts first List.mem_cons_self
    have later := induction fun text member => starts text (List.mem_cons_of_mem _ member)
    cases rest with
    | nil => simp [commaSeparated, same]
    | cons second rest =>
      have nonempty : 1 ≤ first.length := by
        rw [same, List.length_cons]
        omega
      rw [commaSeparated_cons]
      simp only [List.length_append, List.length_cons] at later ⊢
      omega

section Sequences

variable {α : Type} {item : JsonRead α} {close : Char}

/-- The item is read from its text, whatever follows. -/
def ReadsItem (item : JsonRead α) (entry : Text × α) : Prop :=
  ∀ rest, item (entry.1 ++ rest) = .ok (entry.2, rest)

theorem readItems_commaSeparated (bracket : close = ']' ∨ close = '\x7d') (rest : Text)
    (entries : List (Text × α)) : ∀ {fuel : Nat}, entries ≠ [] →
      (∀ entry ∈ entries, ReadsItem item entry) → entries.length ≤ fuel →
      readItems close item fuel (commaSeparated (entries.map Prod.fst) ++ close :: rest) =
        .ok (entries.map Prod.snd, rest) := by
  induction entries with
  | nil => exact fun nonempty => absurd rfl nonempty
  | cons first others induction =>
    intro fuel _ reads enough
    cases fuel with
    | zero => cases enough
    | succ fuel =>
      have here := reads first List.mem_cons_self
      cases others with
      | nil =>
        have text : commaSeparated (List.map Prod.fst [first]) = first.1 := by
          simp [commaSeparated]
        have stays : skipJsonWs (close :: rest) = close :: rest := by
          rcases bracket with rfl | rfl <;> rfl
        have notComma : close ≠ ',' := by
          rcases bracket with rfl | rfl <;> decide
        rw [readItems, text, here]
        dsimp only [bind, Except.bind]
        rw [stays]
        dsimp only
        rw [if_neg notComma, if_pos rfl]
        rfl
      | cons second others =>
        have later := induction (List.cons_ne_nil second others)
          (fun entry member => reads entry (List.mem_cons_of_mem _ member))
          (Nat.le_of_succ_le_succ enough)
        have text : commaSeparated ((first :: second :: others).map Prod.fst) ++
            close :: rest = first.1 ++ (',' :: (commaSeparated
              ((second :: others).map Prod.fst) ++ close :: rest)) := by
          rw [List.map_cons, List.map_cons, commaSeparated_cons, List.append_assoc]
          rfl
        have stays : ∀ text : Text, skipJsonWs (',' :: text) = ',' :: text := fun _ => rfl
        rw [readItems, text, here]
        dsimp only [bind, Except.bind]
        rw [stays]
        dsimp only
        rw [if_pos rfl, later]
        rfl

theorem readSequence_commaSeparated (bracket : close = ']' ∨ close = '\x7d') (rest : Text)
    {entries : List (Text × α)} (starts : ∀ entry ∈ entries, Starts entry.1)
    (reads : ∀ entry ∈ entries, ReadsItem item entry) :
    readSequence close item (commaSeparated (entries.map Prod.fst) ++ close :: rest) =
      .ok (entries.map Prod.snd, rest) := by
  cases entries with
  | nil =>
    have stays : skipJsonWs (close :: rest) = close :: rest := by
      rcases bracket with rfl | rfl <;> rfl
    rw [List.map_nil, commaSeparated, List.nil_append, readSequence, stays]
    exact if_pos rfl
  | cons first others =>
    have nonempty : Starts (commaSeparated ((first :: others).map Prod.fst) ++ close :: rest) :=
      ((starts first List.mem_cons_self).append _).append _
    have apart : (commaSeparated ((first :: others).map Prod.fst) ++ close :: rest).head? ≠
        some close := by
      obtain ⟨char, tail, same, isChar⟩ := nonempty
      rw [same, List.head?_cons]
      rcases bracket with rfl | rfl <;> rcases isChar with rfl | rfl | rfl <;> decide
    have enough : (first :: others).length ≤
        (commaSeparated ((first :: others).map Prod.fst) ++ close :: rest).length + 1 := by
      have each : ∀ text ∈ (first :: others).map Prod.fst, Starts text := by
        intro text member
        obtain ⟨entry, isEntry, rfl⟩ := List.mem_map.mp member
        exact starts entry isEntry
      have length := length_le_commaSeparated each
      rw [List.length_map] at length
      rw [List.length_append]
      omega
    rw [readSequence, nonempty.skipJsonWs, if_neg apart]
    exact readItems_commaSeparated bracket rest _ (List.cons_ne_nil _ _) reads enough

end Sequences

section Documents

variable {φ : Type} (parseFloat : Text → Option φ)

/-- From so much depth on, the value is read from its text. -/
def Reads (depth : Nat) (text : Text) (json : Json φ) : Prop :=
  Starts text ∧ ∀ fuel, depth ≤ fuel → ReadsItem (readValue parseFloat fuel) (text, json)

variable {parseFloat} {depth : Nat}

theorem Reads.mono {text : Text} {json : Json φ} (reads : Reads parseFloat depth text json)
    {more : Nat} (below : depth ≤ more) : Reads parseFloat more text json :=
  ⟨reads.1, fun fuel enough => reads.2 fuel (below.trans enough)⟩

theorem reads_str (text : Text) : Reads parseFloat 1 (jsonStr text) (.str text) := by
  refine ⟨starts_jsonStr text, fun fuel enough rest => ?_⟩
  cases fuel with
  | zero => cases enough
  | succ fuel =>
    have string := readJsonString_jsonStr text rest
    rw [readValue, ((starts_jsonStr text).append rest).skipJsonWs]
    change (readJsonString (jsonStr text ++ rest) >>= _) = _
    rw [string]
    rfl

theorem readsItem_field {text : Text} {json : Json φ} (reads : Reads parseFloat depth text json)
    (key : Text) {fuel : Nat} (enough : depth ≤ fuel) :
    ReadsItem (readField (readValue parseFloat fuel))
      (jsonStr key ++ ':' :: text, (key, json)) := by
  intro rest
  have value := reads.2 fuel enough rest
  have shape : jsonStr key ++ ':' :: text ++ rest = jsonStr key ++ ':' :: (text ++ rest) := by
    rw [List.append_assoc]
    rfl
  have stays : skipJsonWs (':' :: (text ++ rest)) = ':' :: (text ++ rest) := rfl
  rw [readField, shape, ((starts_jsonStr key).append _).skipJsonWs, readJsonString_jsonStr]
  dsimp only [bind, Except.bind]
  rw [stays, expectChar, List.head?_cons, if_pos rfl]
  dsimp only [List.tail_cons]
  rw [value]
  rfl

/-- An object of members, each a key and the text of its value. -/
def objectText (members : List (Text × Text)) : Text :=
  '\x7b' :: (commaSeparated (members.map fun (key, text) => jsonStr key ++ ':' :: text) ++ ['\x7d'])

def arrayText (items : List Text) : Text := '[' :: (commaSeparated items ++ [']'])

theorem reads_object {members : List (Text × Text × Json φ)}
    (values : ∀ member ∈ members, Reads parseFloat depth member.2.1 member.2.2) :
    Reads parseFloat (depth + 1) (objectText (members.map fun member => (member.1, member.2.1)))
      (.obj (members.map fun member => (member.1, member.2.2))) := by
  refine ⟨⟨'\x7b', _, rfl, .inr (.inl rfl)⟩, fun fuel enough rest => ?_⟩
  cases fuel with
  | zero => cases enough
  | succ fuel =>
    have deep : depth ≤ fuel := Nat.le_of_succ_le_succ enough
    let entries := members.map fun member =>
      (jsonStr member.1 ++ ':' :: member.2.1, (member.1, member.2.2))
    have starts : ∀ entry ∈ entries, Starts entry.1 := by
      intro entry isEntry
      obtain ⟨member, isMember, rfl⟩ := List.mem_map.mp isEntry
      exact (starts_jsonStr member.1).append _
    have reads : ∀ entry ∈ entries, ReadsItem (readField (readValue parseFloat fuel)) entry := by
      intro entry isEntry
      obtain ⟨member, isMember, rfl⟩ := List.mem_map.mp isEntry
      exact readsItem_field (values member isMember) member.1 deep
    have sequence := readSequence_commaSeparated (.inr rfl) rest starts reads
    have texts : entries.map Prod.fst = (members.map fun member => (member.1, member.2.1)).map
        fun (key, text) => jsonStr key ++ ':' :: text := by
      rw [List.map_map, List.map_map]
      rfl
    have fields : entries.map Prod.snd = members.map fun member => (member.1, member.2.2) :=
      List.map_map
    rw [texts, fields] at sequence
    have shape : ∀ text : Text, '\x7b' :: (text ++ ['\x7d']) ++ rest =
        '\x7b' :: (text ++ '\x7d' :: rest) := by
      intro text
      simp
    rw [objectText, shape, readValue]
    change (readSequence _ _ _ >>= _) = _
    rw [sequence]
    rfl

theorem reads_array {items : List (Text × Json φ)}
    (values : ∀ item ∈ items, Reads parseFloat depth item.1 item.2) :
    Reads parseFloat (depth + 1) (arrayText (items.map Prod.fst)) (.arr (items.map Prod.snd)) := by
  refine ⟨⟨'[', _, rfl, .inr (.inr rfl)⟩, fun fuel enough rest => ?_⟩
  cases fuel with
  | zero => cases enough
  | succ fuel =>
    have sequence := readSequence_commaSeparated (.inl rfl) rest
      (fun item member => (values item member).1)
      fun item member => (values item member).2 fuel (Nat.le_of_succ_le_succ enough)
    have shape : ∀ text : Text, '[' :: (text ++ [']']) ++ rest =
        '[' :: (text ++ ']' :: rest) := by
      intro text
      simp
    rw [arrayText, shape, readValue]
    change (readSequence _ _ _ >>= _) = _
    rw [sequence]
    rfl

/-- A document is read as long as its text is longer than it is deep. -/
theorem parseJson_of_reads {text : Text} {json : Json φ} (reads : Reads parseFloat depth text json)
    (shallow : depth ≤ text.length + 1) : parseJson parseFloat text = .ok json := by
  have whole := reads.2 _ shallow []
  rw [List.append_nil] at whole
  rw [parseJson, whole]
  rfl

/-! ## Terms -/

/-- The keys and strings in the object of a term. -/
def termMembers : Term → List (Text × Text)
  | .iri text => [("type".toList, "uri".toList), ("value".toList, text)]
  | .blank label => [("type".toList, "bnode".toList), ("value".toList, label)]
  | .literal value _ (some lang) =>
    [("type".toList, "literal".toList), ("value".toList, value), ("xml:lang".toList, lang)]
  | .literal value (some datatype) none =>
    [("type".toList, "literal".toList), ("value".toList, value), ("datatype".toList, datatype)]
  | .literal value none none => [("type".toList, "literal".toList), ("value".toList, value)]

def termObject (term : Term) : Json φ :=
  .obj ((termMembers term).map fun (key, text) => (key, .str text))

theorem jsonStr_keys :
    jsonStr "type".toList = "\"type\"".toList ∧ jsonStr "value".toList = "\"value\"".toList ∧
    jsonStr "xml:lang".toList = "\"xml:lang\"".toList ∧
    jsonStr "datatype".toList = "\"datatype\"".toList ∧ jsonStr "uri".toList = "\"uri\"".toList ∧
    jsonStr "bnode".toList = "\"bnode\"".toList ∧
    jsonStr "literal".toList = "\"literal\"".toList := by decide

theorem termJson_eq (term : Term) :
    termJson term = objectText ((termMembers term).map fun (key, text) => (key, jsonStr text)) := by
  obtain ⟨type_, value, lang, datatype, uri, bnode, literal⟩ := jsonStr_keys
  rw [objectText, List.map_map]
  cases term with
  | iri text =>
    unfold termJson
    simp only [termMembers, List.map_cons, List.map_nil, Function.comp_apply, type_, value, uri,
      commaSeparated, List.flatMap_cons, List.flatMap_nil]
    simp
  | blank label =>
    unfold termJson
    simp only [termMembers, List.map_cons, List.map_nil, Function.comp_apply, type_, value, bnode,
      commaSeparated, List.flatMap_cons, List.flatMap_nil]
    simp
  | literal text iri tag =>
    cases tag with
    | some tag =>
      unfold termJson
      simp only [termMembers, List.map_cons, List.map_nil, Function.comp_apply, type_, value,
        literal, lang, commaSeparated, List.flatMap_cons, List.flatMap_nil]
      simp
    | none =>
      cases iri with
      | some iri =>
        unfold termJson
        simp only [termMembers, List.map_cons, List.map_nil, Function.comp_apply, type_,
          value, literal, datatype, commaSeparated, List.flatMap_cons, List.flatMap_nil]
        simp
      | none =>
        unfold termJson
        simp only [termMembers, List.map_cons, List.map_nil, Function.comp_apply, type_,
          value, literal, commaSeparated, List.flatMap_cons, List.flatMap_nil]
        simp

theorem reads_term (term : Term) : Reads parseFloat 2 (termJson term) (termObject term) := by
  have object := @reads_object φ parseFloat 1
    ((termMembers term).map fun (key, text) => (key, jsonStr text, .str text))
    fun member isMember => by
      obtain ⟨entry, -, rfl⟩ := List.mem_map.mp isMember
      exact reads_str entry.2
  rw [List.map_map, List.map_map] at object
  rw [termJson_eq]
  exact object

/-- The object of a term is decoded to that term. -/
theorem rdfTermFromJson_termObject {term : Term} (one : OneSuffix term) :
    rdfTermFromJson (termObject term : Json φ) = .ok term := by
  cases term with
  | iri text =>
    simp [rdfTermFromJson, termObject, termMembers, Json.get, Json.asStr, List.lookup]
  | blank label =>
    simp [rdfTermFromJson, termObject, termMembers, Json.get, Json.asStr, List.lookup]
  | literal value datatype lang =>
    cases lang with
    | some lang =>
      obtain rfl : datatype = none := one.resolve_right (Option.some_ne_none _)
      simp [rdfTermFromJson, termObject, termMembers, Json.get, Json.asStr, List.lookup]
    | none =>
      cases datatype with
      | some datatype =>
        simp [rdfTermFromJson, termObject, termMembers, Json.get, Json.asStr, List.lookup]
      | none =>
        simp [rdfTermFromJson, termObject, termMembers, Json.get, Json.asStr, List.lookup]

theorem oneSuffix_of_parseLiteral {text after : Text} {term : Term}
    (ran : NTriples.parseLiteral text = .ok (term, after)) : OneSuffix term := by
  rw [NTriples.parseLiteral] at ran
  obtain ⟨pair, -, ran⟩ := bind_eq_ok.mp ran
  dsimp only at ran
  split at ran
  · split at ran
    · split at ran
      · obtain ⟨iri, -, result⟩ := bind_eq_ok.mp ran
        cases result
        exact .inr rfl
      · cases ran
    · cases ran
  · split at ran
    · cases ran
    · cases ran
      exact .inl rfl
  · cases ran
    exact .inl rfl

theorem oneSuffix_of_scanTerm {unicode : Alphanumeric} {text after : Text} {term : Term}
    (ran : NTriples.scanTerm unicode text = .ok (term, after)) : OneSuffix term := by
  rw [NTriples.scanTerm] at ran
  split at ran
  · obtain ⟨iri, -, result⟩ := bind_eq_ok.mp ran
    cases result
    trivial
  · exact oneSuffix_of_parseLiteral ran
  · unfold NTriples.parseBlank at ran
    split at ran
    · dsimp only at ran
      split at ran
      · cases ran
      · cases ran
        trivial
    · cases ran
  · cases ran

/-- What is read as one term has a datatype or a tag, not both. -/
theorem oneSuffix_of_parseTerm {unicode : Alphanumeric} {text : Text} {term : Term}
    (parsed : NTriples.parseTerm unicode text = .ok term) : OneSuffix term := by
  rw [NTriples.parseTerm] at parsed
  split at parsed
  · cases parsed
  · rename_i ran
    split at parsed
    · cases parsed
      exact oneSuffix_of_scanTerm ran
    · cases parsed

/-! ## Rows -/

/-- The bound variables of a row, each with its term. -/
def boundTerms (vars : List Text) (row : List (Option Term)) : List (Text × Term) :=
  (vars.zip row).filterMap fun (name, term) => term.map fun term => (name, term)

def rowObject (bound : List (Text × Term)) : Json φ :=
  .obj (bound.map fun (name, term) => (name, termObject term))

variable {unicode : Alphanumeric}

/-- The term of every bound cell of a row is read back from its surface form. -/
def Reread (unicode : Alphanumeric) (row : List (Option Term)) : Prop :=
  ∀ term, some term ∈ row → NTriples.parseTerm unicode term.display = .ok term

theorem rowJson_eq (vars : List Text) {row : List (Option Term)} (reread : Reread unicode row) :
    rowJson unicode vars (row.map (Option.map Term.display)) =
      objectText ((boundTerms vars row).map fun (name, term) => (name, termJson term)) := by
  have cells : ((vars.zip (row.map (Option.map Term.display))).filterMap fun (name, cell) =>
      cell.map fun text => jsonStr name ++ ':' :: bindingJson unicode text) =
      (boundTerms vars row).map fun (name, term) => jsonStr name ++ ':' :: termJson term := by
    rw [List.zip_map_right, List.filterMap_map, boundTerms, List.map_filterMap]
    apply List.filterMap_congr
    intro pair isPair
    obtain ⟨name, cell⟩ := pair
    cases cell with
    | none => rfl
    | some term =>
      have parsed := reread term (List.of_mem_zip isPair).2
      simp [bindingJson, parsed]
  rw [rowJson, cells, objectText, List.map_map]
  rfl

theorem reads_row (bound : List (Text × Term)) :
    Reads parseFloat 3 (objectText (bound.map fun (name, term) => (name, termJson term)))
      (rowObject bound) := by
  have object := @reads_object φ parseFloat 2
    (bound.map fun (name, term) => (name, termJson term, termObject term)) fun member isMember => by
      obtain ⟨entry, -, rfl⟩ := List.mem_map.mp isMember
      exact reads_term entry.2
  rw [List.map_map, List.map_map] at object
  exact object

theorem mapM_ok {α β ε : Type} {run : α → Except ε β} {value : α → β} {items : List α}
    (each : ∀ item ∈ items, run item = .ok (value item)) :
    items.mapM run = .ok (items.map value) := by
  induction items with
  | nil => rfl
  | cons item items induction =>
    rw [List.mapM_cons, each item List.mem_cons_self,
      induction fun other member => each other (List.mem_cons_of_mem _ member)]
    rfl

theorem solutionFromJson_rowObject {bound : List (Text × Term)}
    (one : ∀ pair ∈ bound, OneSuffix pair.2) :
    solutionFromJson (rowObject bound : Json φ) = .ok bound := by
  have decoded : ∀ pair ∈ bound, (do
      let term ← rdfTermFromJson (termObject pair.2 : Json φ)
      return (pair.1, term)) = .ok pair := by
    intro pair member
    rw [rdfTermFromJson_termObject (one pair member)]
    rfl
  change (bound.map fun (name, term) => (name, termObject term)).mapM _ = _
  rw [List.mapM_map]
  have whole := mapM_ok decoded
  rw [List.map_id'] at whole
  exact whole

theorem mem_of_mem_boundTerms {vars : List Text} {row : List (Option Term)} {pair : Text × Term}
    (member : pair ∈ boundTerms vars row) : some pair.2 ∈ row := by
  obtain ⟨cell, isCell, same⟩ := List.mem_filterMap.mp member
  obtain ⟨term, isTerm, rfl⟩ := Option.map_eq_some_iff.mp same
  rw [← isTerm]
  exact (List.of_mem_zip isCell).2

theorem writeSelectJson_eq (results : ResultSet) :
    writeSelectJson unicode results = objectText
      [("head".toList, objectText [("vars".toList, arrayText (results.vars.map jsonStr))]),
        ("results".toList, objectText
          [("bindings".toList, arrayText (results.rows.map (rowJson unicode results.vars)))])] := by
  have keys : jsonStr "head".toList = "\"head\"".toList ∧
      jsonStr "vars".toList = "\"vars\"".toList ∧
      jsonStr "results".toList = "\"results\"".toList ∧
      jsonStr "bindings".toList = "\"bindings\"".toList := by decide
  obtain ⟨head, vars, tables, bindings⟩ := keys
  unfold writeSelectJson
  simp only [objectText, arrayText, List.map_cons, List.map_nil, head, vars, tables, bindings,
    commaSeparated, List.flatMap_cons, List.flatMap_nil]
  simp

theorem reads_vars (vars : List Text) :
    Reads parseFloat 2 (arrayText (vars.map jsonStr)) (.arr (vars.map .str)) := by
  have array := @reads_array φ parseFloat 1 (vars.map fun name => (jsonStr name, .str name))
    fun item isItem => by
      obtain ⟨name, -, rfl⟩ := List.mem_map.mp isItem
      exact reads_str name
  rw [List.map_map, List.map_map] at array
  exact array

theorem reads_rows (vars : List Text) {terms : List (List (Option Term))}
    (reread : ∀ row ∈ terms, Reread unicode row) :
    Reads parseFloat 4
      (arrayText ((terms.map (List.map (Option.map Term.display))).map (rowJson unicode vars)))
      (.arr (terms.map fun row => rowObject (boundTerms vars row))) := by
  have array := @reads_array φ parseFloat 3
    (terms.map fun row => (rowJson unicode vars (row.map (Option.map Term.display)),
      rowObject (boundTerms vars row))) fun item isItem => by
      obtain ⟨row, member, rfl⟩ := List.mem_map.mp isItem
      rw [rowJson_eq vars (reread row member)]
      exact reads_row _
  rw [List.map_map, List.map_map] at array
  rw [List.map_map]
  exact array

theorem reads_member {key text : Text} {json : Json φ} (reads : Reads parseFloat depth text json) :
    Reads parseFloat (depth + 1) (objectText [(key, text)]) (.obj [(key, json)]) :=
  @reads_object φ parseFloat depth [(key, text, json)] fun member isMember => by
    rw [List.mem_singleton.mp isMember]
    exact reads

/-- What a result table is written as is read back, row by row: each bound variable with its
term. -/
theorem parseSparqlJson_writeSelectJson (results : ResultSet) (terms : List (List (Option Term)))
    (cells : results.rows = terms.map (List.map (Option.map Term.display)))
    (reread : ∀ row ∈ terms, Reread unicode row) :
    parseSparqlJson parseFloat (writeSelectJson unicode results) =
      .ok (terms.map (boundTerms results.vars)) := by
  let members : List (Text × Text × Json φ) := [
    ("head".toList, objectText [("vars".toList, arrayText (results.vars.map jsonStr))],
      .obj [("vars".toList, .arr (results.vars.map .str))]),
    ("results".toList, objectText [("bindings".toList,
        arrayText (results.rows.map (rowJson unicode results.vars)))],
      .obj [("bindings".toList,
        .arr (terms.map fun row => rowObject (boundTerms results.vars row)))])]
  have text : writeSelectJson unicode results =
      objectText (members.map fun member => (member.1, member.2.1)) := writeSelectJson_eq results
  have values : ∀ member ∈ members, Reads parseFloat 5 member.2.1 member.2.2 := by
    intro member isMember
    rcases List.mem_cons.mp isMember with rfl | later
    · exact (reads_member (reads_vars results.vars)).mono (by decide)
    · rw [List.mem_singleton.mp later, cells]
      exact reads_member (reads_rows results.vars reread)
  have long : 6 ≤ (writeSelectJson unicode results).length + 1 := by
    have start : "\x7b\"head\":\x7b\"vars\":[".toList.length = 17 := by decide
    unfold writeSelectJson
    rw [List.length_append]
    omega
  have found : ((Json.get (.obj (members.map fun member => (member.1, member.2.2)))
      "results".toList).bind fun results => results.get "bindings".toList).bind Json.asArray =
      some (terms.map fun row => rowObject (boundTerms results.vars row)) := by
    simp [members, Json.get, List.lookup, Json.asArray]
  rw [text] at long ⊢
  rw [parseSparqlJson, parseJson_of_reads (reads_object values) long]
  dsimp only
  rw [found]
  dsimp only
  rw [List.mapM_map]
  apply mapM_ok
  intro row member
  apply solutionFromJson_rowObject
  intro pair isPair
  exact oneSuffix_of_parseTerm (reread row member _ (mem_of_mem_boundTerms isPair))

end Documents

/-- A row whose literal holds a control character, a quote and a letter outside ASCII. -/
def controlTerms : List (List (Option Term)) :=
  [[some (.literal ['\x01', '"', 'é', '\n'] none (some ['e', 'n'])), none],
    [none, some (.blank ['b'])]]

theorem controlTerms_aligned :
    ∀ row ∈ controlTerms.map (List.map (Option.map Term.display)), row.length = 2 := by decide

def controlResults : ResultSet where
  vars := [['"'], ['ü']]
  rows := controlTerms.map (List.map (Option.map Term.display))
  aligned := controlTerms_aligned

theorem parseSparqlJson_controlResults :
    parseSparqlJson (fun _ => (none : Option Unit)) (writeSelectJson asciiOnly controlResults) =
      .ok [[(['"'], .literal ['\x01', '"', 'é', '\n'] none (some ['e', 'n']))],
        [(['ü'], .blank ['b'])]] := by
  have first : NTriples.parseTerm asciiOnly
      (Term.literal ['\x01', '"', 'é', '\n'] none (some ['e', 'n'])).display =
      .ok (.literal ['\x01', '"', 'é', '\n'] none (some ['e', 'n'])) := rfl
  have second : NTriples.parseTerm asciiOnly (Term.blank ['b']).display = .ok (.blank ['b']) := rfl
  apply parseSparqlJson_writeSelectJson controlResults controlTerms rfl
  intro row isRow term isTerm
  simp only [controlTerms, List.mem_cons, List.not_mem_nil, or_false] at isRow
  rcases isRow with rfl | rfl
  · simp only [List.mem_cons, Option.some.injEq, reduceCtorEq, List.not_mem_nil, or_false] at isTerm
    rw [isTerm]
    exact first
  · simp only [List.mem_cons, Option.some.injEq, reduceCtorEq, List.not_mem_nil, or_false,
      false_or] at isTerm
    rw [isTerm]
    exact second

end GStore.Query
