import GStore.Model.Utf8
import GStore.Parser.NTriples

/-! # XML

The scanner of `parser/rdfxml.rs`: elements with their attributes and contents, entities decoded. An
element is read by a recursion as deep as the element is nested; `depth` is how deep it may go. -/

namespace GStore.Parser.Xml

open Reason

/-- `XmlChild`, an element with its fields. -/
inductive Child where
  | element (name : Text) (attrs : List (Text × Text)) (children : List Child)
  | text (value : Text)

/-- `XmlElement`. -/
structure Element where
  name : Text
  attrs : List (Text × Text)
  children : List Child

def Element.child (element : Element) : Child :=
  .element element.name element.attrs element.children

/-- `elements`. -/
def elements (children : List Child) : List Element :=
  children.filterMap fun
    | .element name attrs children => some { name, attrs, children }
    | .text _ => none

/-- `text`. -/
def texts (children : List Child) : Text :=
  children.flatMap fun
    | .element .. => []
    | .text value => value

def hasElementChildren (children : List Child) : Bool := !(elements children).isEmpty

mutual

def Child.decEq : (first second : Child) → Decidable (first = second)
  | .element name attrs children, .element other others inner =>
    have := decEqs children inner
    decidable_of_iff (name = other ∧ attrs = others ∧ children = inner)
      (Child.element.injEq ..).to_iff.symm
  | .text value, .text other =>
    decidable_of_iff (value = other) ⟨congrArg Child.text, Child.text.inj⟩
  | .element .., .text _ => isFalse Child.noConfusion
  | .text _, .element .. => isFalse Child.noConfusion

def decEqs : (first second : List Child) → Decidable (first = second)
  | [], [] => isTrue rfl
  | [], child :: rest => isFalse (List.cons_ne_nil child rest).symm
  | child :: rest, [] => isFalse (List.cons_ne_nil child rest)
  | child :: rest, other :: others =>
    have := Child.decEq child other
    have := decEqs rest others
    decidable_of_iff (child = other ∧ rest = others) (List.cons.injEq ..).to_iff.symm

end

instance : DecidableEq Child := Child.decEq
deriving instance DecidableEq for Element

/-! ## Heights -/

mutual

/-- How deep an element is nested. -/
def Child.height : Child → Nat
  | .element _ _ children => heights children + 1
  | .text _ => 0

def heights : List Child → Nat
  | [] => 0
  | child :: rest => max child.height (heights rest)

end

def Element.height (element : Element) : Nat := heights element.children + 1

/-! ## Problems -/

inductive Problem where
  | instruction
  | comment
  | doctype
  | noRoot
  | opening
  | emptyName
  | startTag (name : Text)
  | endOfInput (name : Text)
  | endTag (close : Text)
  | mismatched (name close : Text)
  | cdata
  | attribute
  | equals (name : Text)
  | quoted (name : Text)
  | attributeValue
  | entity
  | reference (name : Text)
  | codePoint (name : Text)
  | unknownEntity (name : Text)
  /-- A recursion of the model went too deep; the source has no such error. -/
  | exhausted
deriving DecidableEq

/-- An error, with what is left of the document. -/
structure Failure where
  problem : Problem
  rest : Text
deriving DecidableEq

/-! ## Characters -/

def skipWs (rest : Text) : Text := rest.dropWhile isWhite

/-- What follows the first such mark. -/
def skipPast (mark : Text) : Text → Option Text
  | [] => none
  | char :: rest =>
    if mark.isPrefixOf (char :: rest) then some ((char :: rest).drop mark.length)
    else skipPast mark rest

/-- What stands before the first such mark, and what follows it. -/
def splitMark (mark : Text) : Text → Option (Text × Text)
  | [] => none
  | char :: rest =>
    if mark.isPrefixOf (char :: rest) then some ([], (char :: rest).drop mark.length)
    else (splitMark mark rest).map fun (front, back) => (char :: front, back)

/-- After `<!DOCTYPE`: up to a `>` outside brackets. -/
def skipDoctype (depth : Int) : Text → Except Failure Text
  | [] => .error ⟨.doctype, []⟩
  | char :: rest =>
    if char = '[' then skipDoctype (depth + 1) rest
    else if char = ']' then skipDoctype (depth - 1) rest
    else if char = '>' ∧ depth ≤ 0 then .ok rest
    else skipDoctype depth rest

def skipComment (rest : Text) : Except Failure Text :=
  match skipPast "-->".toList (rest.drop 4) with
  | some rest => .ok rest
  | none => .error ⟨.comment, []⟩

/-- `skip_misc`: instructions, comments and a document type. -/
def skipMisc : Nat → Text → Except Failure Text
  | 0, rest => .error ⟨.exhausted, rest⟩
  | fuel + 1, rest =>
    let rest := skipWs rest
    if "<?".toList.isPrefixOf rest then
      match skipPast "?>".toList rest with
      | some rest => skipMisc fuel rest
      | none => .error ⟨.instruction, []⟩
    else if "<!--".toList.isPrefixOf rest then do skipMisc fuel (← skipComment rest)
    else if "<!DOCTYPE".toList.isPrefixOf rest then do
      skipMisc fuel (← skipDoctype 0 (rest.drop 9))
    else .ok rest

def isNameEnd (char : Char) : Bool := isWhite char || char == '>' || char == '/' || char == '='

/-- `read_name`. -/
def readName (rest : Text) : Text × Text :=
  (rest.takeWhile (!isNameEnd ·), rest.dropWhile (!isNameEnd ·))

/-! ## Entities -/

/-- `u32::from_str_radix`. -/
def parseU32 (radix : Nat) (text : Text) : Option Nat :=
  let digits := if text.head? = some '+' then text.tail else text
  let values := digits.map fun char => (hexDigit char).filter (· < radix)
  if digits = [] then none
  else do
    let values ← values.mapM id
    let value := values.foldl (fun value digit => value * radix + digit) 0
    if value < 2 ^ 32 then some value else none

/-- What stands before the semicolon, after the ampersand. -/
def entityName (name : Text) : Text → Except Failure (Text × Text)
  | [] => .ok (name, [])
  | char :: rest =>
    if char = ';' then .ok (name, rest)
    else if 32 < (utf8 (name ++ [char])).length then .error ⟨.entity, rest⟩
    else entityName (name ++ [char]) rest

def characterReference (radix : Nat) (name digits rest : Text) : Except Failure (Char × Text) :=
  match parseU32 radix digits with
  | some code =>
    if code.isValidChar then .ok (Char.ofNat code, rest) else .error ⟨.codePoint name, rest⟩
  | none => .error ⟨.reference name, rest⟩

/-- `read_entity`, after the ampersand. -/
def readEntity (rest : Text) : Except Failure (Char × Text) := do
  let (name, rest) ← entityName [] rest
  if name = "lt".toList then return ('<', rest)
  if name = "gt".toList then return ('>', rest)
  if name = "amp".toList then return ('&', rest)
  if name = "quot".toList then return ('"', rest)
  if name = "apos".toList then return ('\'', rest)
  if "#x".toList.isPrefixOf name ∨ "#X".toList.isPrefixOf name then
    characterReference 16 name (name.drop 2) rest
  else if name.head? = some '#' then characterReference 10 name name.tail rest
  else throw ⟨.unknownEntity name, rest⟩

/-! ## Attributes -/

/-- The value of an attribute, after its opening quote. -/
def readValue (quote : Char) : Nat → Text → Text → Except Failure (Text × Text)
  | 0, _, rest => .error ⟨.exhausted, rest⟩
  | _ + 1, _, [] => .error ⟨.attributeValue, []⟩
  | fuel + 1, value, char :: rest =>
    if char = '&' then do
      let (char, rest) ← readEntity rest
      readValue quote fuel (value ++ [char]) rest
    else if char = quote then .ok (value, rest)
    else readValue quote fuel (value ++ [char]) rest

def isQuote (char : Char) : Bool := char == '"' || char == '\''

/-- `read_attrs`. -/
def readAttrs : Nat → List (Text × Text) → Text →
    Except Failure (List (Text × Text) × Text)
  | 0, _, rest => .error ⟨.exhausted, rest⟩
  | fuel + 1, attrs, rest =>
    let rest := skipWs rest
    if rest.head?.all fun char => char == '>' || char == '/' then .ok (attrs, rest)
    else
      let (name, rest) := readName rest
      if name = [] then .error ⟨.attribute, rest⟩
      else
        let rest := skipWs rest
        if rest.head? ≠ some '=' then .error ⟨.equals name, rest.tail⟩
        else
          match skipWs rest.tail with
          | quote :: rest =>
            if isQuote quote then do
              let (value, rest) ← readValue quote (rest.length + 1) [] rest
              readAttrs fuel (attrs ++ [(name, value)]) rest
            else .error ⟨.quoted name, rest⟩
          | [] => .error ⟨.quoted name, []⟩

/-! ## Elements -/

/-- A text that was collected, as a child. -/
def flush (text : Text) (children : List Child) : List Child :=
  if text = [] then children else children ++ [.text text]

/-- After `</`: the end tag of an element of this name. -/
def closeTag (name rest : Text) : Except Failure Text :=
  let (close, rest) := readName rest
  let rest := skipWs rest
  if rest.head? ≠ some '>' then .error ⟨.endTag close, rest.tail⟩
  else if close ≠ name then .error ⟨.mismatched name close, rest.tail⟩
  else .ok rest.tail

/-- `parse_content`; `read` reads an element inside it. -/
def parseContent (read : Text → Except Failure (Element × Text)) (name : Text) :
    Nat → List Child → Text → Text → Except Failure (List Child × Text)
  | 0, _, _, rest => .error ⟨.exhausted, rest⟩
  | _ + 1, _, _, [] => .error ⟨.endOfInput name, []⟩
  | fuel + 1, children, text, char :: rest =>
    if char = '<' then
      let children := flush text children
      let here := char :: rest
      if "</".toList.isPrefixOf here then do
        let rest ← closeTag name (here.drop 2)
        return (children, rest)
      else if "<!--".toList.isPrefixOf here then do
        parseContent read name fuel children [] (← skipComment here)
      else if "<![CDATA[".toList.isPrefixOf here then
        match splitMark "]]>".toList (here.drop 9) with
        | some (cdata, rest) => parseContent read name fuel (children ++ [.text cdata]) [] rest
        | none => .error ⟨.cdata, []⟩
      else do
        let (element, rest) ← read here
        parseContent read name fuel (children ++ [element.child]) [] rest
    else if char = '&' then do
      let (char, rest) ← readEntity rest
      parseContent read name fuel children (text ++ [char]) rest
    else parseContent read name fuel children (text ++ [char]) rest

/-- `parse_element`, at its `<`. -/
def parseElement : Nat → Text → Except Failure (Element × Text)
  | 0, rest => .error ⟨.exhausted, rest⟩
  | depth + 1, rest =>
    if rest.head? ≠ some '<' then .error ⟨.opening, rest.tail⟩
    else
      let (name, rest) := readName rest.tail
      if name = [] then .error ⟨.emptyName, rest⟩
      else do
        let (attrs, rest) ← readAttrs (rest.length + 1) [] rest
        let rest := skipWs rest
        if "/>".toList.isPrefixOf rest then return ({ name, attrs, children := [] }, rest.drop 2)
        else if rest.head? ≠ some '>' then throw ⟨.startTag name, rest.tail⟩
        else
          let (children, rest) ←
            parseContent (parseElement depth) name (rest.length + 1) [] [] rest.tail
          return ({ name, attrs, children }, rest)

/-- `parse_document`; what follows the root is not looked at. -/
def parseDocument (depth : Nat) (content : Text) : Except Failure Element := do
  let rest ← skipMisc (content.length + 1) content
  if rest.head? ≠ some '<' then throw ⟨.noRoot, rest⟩
  else
    let (root, _) ← parseElement depth rest
    return root

end GStore.Parser.Xml
