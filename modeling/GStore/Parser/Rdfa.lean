import GStore.Foundation.Assoc
import GStore.Parser.BlankLabels
import GStore.Parser.RelativeIris
import GStore.Parser.Xml

/-! # RDFa

`parser/rdfa.rs`: a lenient scanner of (X)HTML, the tree that it is built up to, and the walk of
`Extractor` over that tree. -/

namespace GStore.Parser.Rdfa

open Reason Turtle Xml

/-! ## Tokens -/

inductive Token where
  | start (name : Text) (attrs : List (Text × Text)) (selfClosing : Bool)
  | finish (name : Text)
  | text (value : Text)

def lower (text : Text) : Text := text.map Char.toLower

/-- `skip_until`, after so many characters of the mark that opens. -/
def skipUntil (mark : String) (opening : Nat) (rest : Text) : Text :=
  (skipPast mark.toList (rest.drop opening)).getD []

/-- `skip_to_gt`. -/
def skipToGt (rest : Text) : Text := skipUntil ">" 0 rest

/-- The name of an entity, and what follows its semicolon; nothing if there is no such name. -/
def entityName (name : Text) : Text → Option (Text × Text)
  | [] => some (name, [])
  | char :: rest =>
    if char = ';' then some (name, rest)
    else if isWhite char || char == '&' || char == '<' || 32 < (utf8 name).length then none
    else entityName (name ++ [char]) rest

def namedCharacter (name : Text) : Option Char :=
  if name = "lt".toList then some '<'
  else if name = "gt".toList then some '>'
  else if name = "amp".toList then some '&'
  else if name = "quot".toList then some '"'
  else if name = "apos".toList then some '\''
  else if name = "nbsp".toList then some (Char.ofNat 0xA0)
  else none

/-- The character of a code point, or the one that stands for none. -/
def codePoint (radix : Nat) (digits : Text) : Char :=
  match (parseU32 radix digits).filter fun code => decide code.isValidChar with
  | some code => Char.ofNat code
  | none => Char.ofNat 0xFFFD

/-- `read_entity`, after the ampersand. -/
def readEntity (rest : Text) : Char × Text :=
  match entityName [] rest with
  | none => ('&', rest)
  | some (name, after) =>
    match namedCharacter name with
    | some char => (char, after)
    | none =>
      if "#x".toList.isPrefixOf name ∨ "#X".toList.isPrefixOf name then
        (codePoint 16 (name.drop 2), after)
      else if name.head? = some '#' then (codePoint 10 name.tail, after)
      else ('&', rest)

/-- Text up to a character where it ends, entities decoded. -/
def readText (ends : Char → Bool) : Nat → Text → Text → Text × Text
  | 0, text, rest => (text, rest)
  | _ + 1, text, [] => (text, [])
  | fuel + 1, text, char :: rest =>
    if ends char then (text, char :: rest)
    else if char = '&' then
      let (char, rest) := readEntity rest
      readText ends fuel (text ++ [char]) rest
    else readText ends fuel (text ++ [char]) rest

/-- `read_attr_value`. -/
def readAttrValue (rest : Text) : Text × Text :=
  match rest with
  | [] => ([], [])
  | quote :: inner =>
    if isQuote quote then
      let (value, rest) := readText (· == quote) (rest.length + 1) [] inner
      (value, rest.tail)
    else
      readText (fun char => isWhite char || char == '>' || char == '/') (rest.length + 1) [] rest

/-- `read_attrs`. -/
def readAttrs : Nat → List (Text × Text) → Text → List (Text × Text) × Text
  | 0, attrs, rest => (attrs, rest)
  | fuel + 1, attrs, rest =>
    let rest := skipWs rest
    if rest.head?.all fun char => char == '>' || char == '/' then (attrs, rest)
    else
      let (name, rest) := readName rest
      if name = [] then readAttrs fuel attrs rest.tail
      else
        let rest := skipWs rest
        if rest.head? = some '=' then
          let (value, rest) := readAttrValue (skipWs rest.tail)
          readAttrs fuel (attrs ++ [(lower name, value)]) rest
        else readAttrs fuel (attrs ++ [(lower name, [])]) rest

def isRaw (name : Text) : Bool := name == "script".toList || name == "style".toList

/-- `starts_with_ci`. -/
def startsWithCi (mark rest : Text) : Bool := (lower mark).isPrefixOf (lower rest)

/-- The content of a raw element is not looked at. -/
def skipRaw (close : Text) : Text → Text
  | [] => []
  | char :: rest =>
    if startsWithCi close (char :: rest) then skipToGt ((char :: rest).drop close.length)
    else skipRaw close rest

/-- At a `<`: the tokens up to the end of the tag, and what follows it. -/
def readTag (rest : Text) : List Token × Text :=
  if "<!--".toList.isPrefixOf rest then ([], skipUntil "-->" 4 rest)
  else if "<![CDATA[".toList.isPrefixOf rest then
    let (text, rest) := (splitMark "]]>".toList (rest.drop 9)).getD (rest.drop 9, [])
    (if text = [] then [] else [.text text], rest)
  else if "<!".toList.isPrefixOf rest ∨ "<?".toList.isPrefixOf rest then
    ([], skipUntil ">" 2 rest)
  else if "</".toList.isPrefixOf rest then
    let (name, rest) := readName (rest.drop 2)
    ([.finish (lower name)], skipToGt rest)
  else
    let (name, rest) := readName rest.tail
    let name := lower name
    if name = [] then ([.text ['<']], rest)
    else
      let (attrs, rest) := readAttrs (rest.length + 1) [] rest
      let rest := skipWs rest
      let selfClosing := rest.head? == some '/'
      let rest := skipToGt rest
      if isRaw name && !selfClosing then
        ([.start name attrs selfClosing, .finish name], skipRaw ('<' :: '/' :: name) rest)
      else ([.start name attrs selfClosing], rest)

/-- `tokenize`. -/
def tokenize : Nat → Text → List Token
  | 0, _ => []
  | _ + 1, [] => []
  | fuel + 1, char :: rest =>
    if char = '<' then
      let (tokens, rest) := readTag (char :: rest)
      tokens ++ tokenize fuel rest
    else
      let (text, rest) := readText (· == '<') (rest.length + 2) [] (char :: rest)
      .text text :: tokenize fuel rest

/-! ## Tree -/

def attr (attrs : List (Text × Text)) (name : String) : Option Text := attrs.lookup name.toList

def isVoidElement (name : Text) : Bool :=
  ["area", "base", "br", "col", "embed", "hr", "img", "input", "link", "meta", "param", "source",
    "track", "wbr"].any fun void => name == void.toList

/-- `MAX_TREE_DEPTH`. -/
def maxTreeDepth : Nat := 256

/-- A child of the element on top of the stack. -/
def attach (child : Child) : List Element → List Element
  | [] => []
  | top :: below => { top with children := top.children ++ [child] } :: below

/-- The element on top of the stack is complete. -/
def closeTop : List Element → List Element
  | [] => []
  | top :: below => attach top.child below

/-- One token; the element on top of the stack comes first. -/
def place (stack : List Element) : Token → List Element
  | .start name attrs selfClosing =>
    if selfClosing || isVoidElement name then attach (.element name attrs []) stack
    else if maxTreeDepth ≤ stack.length then attach (.element name attrs []) stack
    else { name, attrs, children := [] } :: stack
  | .finish name =>
    let above := stack.findIdx (·.name == name)
    -- The root of the document is never closed.
    if above + 1 < stack.length then closeTop^[above + 1] stack else stack
  | .text value => attach (.text value) stack

def emptyRoot : Element where
  name := []
  attrs := []
  children := []

/-- `build_tree`. -/
def buildTree (tokens : List Token) : Element :=
  let stack := tokens.foldl place [emptyRoot]
  (closeTop^[stack.length - 1] stack).headD emptyRoot

inductive Problem where
  /-- A recursion of the model went too deep; the source has no such error. -/
  | exhausted
deriving DecidableEq

/-- `collect_text`. -/
def collectText : Nat → List Child → Except Problem Text
  | 0, _ => .error .exhausted
  | depth + 1, children =>
    children.foldlM (fun text child =>
      match child with
      | .text value => .ok (text ++ value)
      | .element _ _ inner => (collectText depth inner).map (text ++ ·)) []

/-- `find_base`. -/
def findBase : Nat → Element → Except Problem (Option Text)
  | 0, _ => .error .exhausted
  | depth + 1, el =>
    match if el.name = "base".toList then attr el.attrs "href" else none with
    | some href => .ok (some href)
    | none => (elements el.children).foldlM (fun found child =>
      if found.isSome then .ok found else findBase depth child) none

/-! ## Names -/

/-- `LocalCtx`. -/
structure Local where
  base : Text
  vocab : Option Text
  prefixes : List (Text × Text)

/-- The rest of a value in brackets. -/
def bracketed (value : Text) : Option Text :=
  match value with
  | '[' :: rest => if rest.getLast? = some ']' then some rest.dropLast else none
  | _ => none

/-- `resolve_iri`. -/
def resolveIri (base reference : Text) : Text :=
  let reference := trim reference
  if reference = [] then base
  else if RdfXml.isAbsolute reference then reference
  else if base = [] then reference
  else if reference.head? = some '#' then base.takeWhile (· ≠ '#') ++ reference
  else if reference.head? = some '/' then
    match splitMark "://".toList base with
    | some (scheme, rest) => scheme ++ "://".toList ++ rest.takeWhile (· ≠ '/') ++ reference
    | none => reference
  else
    match beforeLast '/' base with
    | some before => before ++ '/' :: reference
    | none => reference

/-- `resolve_curie`. -/
def resolveCurie (labels : Labels) (scope : Local) (inner : Text) : Option Term :=
  let inner := trim inner
  if inner = [] then none
  else
    match splitFirst ':' inner with
    | some (head, tail) =>
      if head = ['_'] then some (.blank (labels.named tail))
      else
        match scope.prefixes.lookup head with
        | some ns => some (.iri (ns ++ tail))
        | none => if RdfXml.isAbsolute inner then some (.iri inner) else none
    | none => scope.vocab.map fun vocab => .iri (vocab ++ inner)

/-- `resolve_resource`. -/
def resolveResource (labels : Labels) (scope : Local) (value : Text) : Option Term :=
  let value := trim value
  if value = [] then none
  else
    match bracketed value with
    | some inner => resolveCurie labels scope inner
    | none =>
      match splitFirst ':' value with
      | some (head, tail) =>
        if head = ['_'] then some (.blank (labels.named tail))
        else if "//".toList.isPrefixOf tail then some (.iri value)
        else
          match scope.prefixes.lookup head with
          | some ns => some (.iri (ns ++ tail))
          | none =>
            if RdfXml.isAbsolute value then some (.iri value)
            else some (.iri (resolveIri scope.base value))
      | none => some (.iri (resolveIri scope.base value))

def xhv : Text := "http://www.w3.org/1999/xhtml/vocab#".toList

/-- `default_term`. -/
def defaultTerm (term : Text) : Option Text :=
  if ["alternate", "appendix", "bookmark", "chapter", "contents", "copyright", "first", "glossary",
      "help", "icon", "index", "last", "license", "meta", "next", "prev", "previous", "section",
      "start", "stylesheet", "subsection", "top", "up", "describedby", "role"].any
        fun known => term == known.toList then
    some (xhv ++ term)
  else none

/-- `resolve_term_or_curie`. -/
def resolveTermOrCurie (labels : Labels) (scope : Local) (value : Text) : Option Term :=
  let value := trim value
  if value = [] then none
  else
    match bracketed value with
    | some inner => resolveCurie labels scope inner
    | none =>
      match splitFirst ':' value with
      | some (head, tail) =>
        if "//".toList.isPrefixOf tail then some (.iri value)
        else
          match scope.prefixes.lookup head with
          | some ns => some (.iri (ns ++ tail))
          | none => if RdfXml.isAbsolute value then some (.iri value) else none
      | none =>
        match scope.vocab with
        | some vocab => some (.iri (vocab ++ value))
        | none => (defaultTerm value).map Term.iri

/-- The terms of an attribute that holds a list of them. -/
def termsOf (labels : Labels) (scope : Local) (value : Option Text) : List Term :=
  ((value.map (splitWhitespace [])).getD []).filterMap (resolveTermOrCurie labels scope)

/-- `datatype_iri`: no text for a datatype that is empty. -/
def datatypeIri (labels : Labels) (scope : Local) (value : Text) : Option Text :=
  if trim value = [] then some []
  else
    match resolveTermOrCurie labels scope (trim value) with
    | some (.iri text) => some text
    | _ => none

/-! ## Evaluation context -/

/-- `EvalContext`. -/
structure EvalContext where
  scope : Local
  parentSubject : Term
  parentObject : Option Term
  lang : Option Text
  /-- Predicates that wait for a subject below; those of `@rev` the other way round. -/
  incomplete : List (Term × Bool)

def initialPrefixes : List (Text × Text) :=
  [("rdf", "http://www.w3.org/1999/02/22-rdf-syntax-ns#"),
    ("rdfs", "http://www.w3.org/2000/01/rdf-schema#"),
    ("xsd", "http://www.w3.org/2001/XMLSchema#"),
    ("owl", "http://www.w3.org/2002/07/owl#"),
    ("dc", "http://purl.org/dc/elements/1.1/"),
    ("dcterms", "http://purl.org/dc/terms/"),
    ("foaf", "http://xmlns.com/foaf/0.1/"),
    ("skos", "http://www.w3.org/2004/02/skos/core#"),
    ("schema", "http://schema.org/"),
    ("xhv", "http://www.w3.org/1999/xhtml/vocab#"),
    ("og", "http://ogp.me/ns#"),
    ("vcard", "http://www.w3.org/2006/vcard/ns#")].map fun (name, ns) => (name.toList, ns.toList)

def EvalContext.root (base : Text) : EvalContext where
  scope := { base, vocab := none, prefixes := initialPrefixes }
  parentSubject := .iri base
  parentObject := none
  lang := none
  incomplete := []

/-- The subject that an element inherits. -/
def EvalContext.inherited (ctx : EvalContext) : Term := ctx.parentObject.getD ctx.parentSubject

/-- `parse_prefix_attr`. -/
def parsePrefixAttr : List Text → List (Text × Text) → List (Text × Text)
  | word :: iri :: rest, prefixes =>
    if word.getLast? = some ':' then
      parsePrefixAttr rest (assocInsert word.dropLast iri prefixes)
    else parsePrefixAttr (iri :: rest) prefixes
  | _, prefixes => prefixes

/-- A text that takes away what is inherited if it is empty. -/
def orNone (value : Text) : Option Text := if value = [] then none else some value

/-- Steps 2 and 3: the vocabulary and the prefixes of an element, and its base. -/
def Local.child (scope : Local) (attrs : List (Text × Text)) : Local where
  base := (attr attrs "xml:base").getD scope.base
  vocab := (attr attrs "vocab").elim scope.vocab orNone
  prefixes :=
    attrs.foldl (fun prefixes (name, value) =>
      if "xmlns:".toList.isPrefixOf name then assocInsert (name.drop 6) value prefixes
      else prefixes)
      (parsePrefixAttr ((attr attrs "prefix").elim [] (splitWhitespace [])) scope.prefixes)

/-- Step 4. -/
def childLang (lang : Option Text) (attrs : List (Text × Text)) : Option Text :=
  ((attr attrs "xml:lang") <|> (attr attrs "lang")).elim lang orNone

/-! ## Subjects -/

/-- What an element establishes. -/
structure Subjects where
  newSubject : Option Term
  currentObject : Option Term
  typedResource : Option Term
  skip : Bool

def has (attrs : List (Text × Text)) (name : String) : Bool := (attr attrs name).isSome

def hasLink (attrs : List (Text × Text)) : Bool := has attrs "rel" || has attrs "rev"

/-- The resource that `@href` or `@src` points to. -/
def linked (scope : Local) (attrs : List (Text × Text)) : Option Term :=
  ((attr attrs "href") <|> (attr attrs "src")).map fun reference =>
    .iri (resolveIri scope.base reference)

/-- The resource of the first of these attributes that there is, which may be none. -/
def pointed (labels : Labels) (scope : Local) (attrs : List (Text × Text)) :
    Option (Option Term) :=
  match attr attrs "resource" with
  | some resource => some (resolveResource labels scope resource)
  | none => (linked scope attrs).map some

def aboutOf (labels : Labels) (scope : Local) (attrs : List (Text × Text)) :
    Option (Option Term) :=
  (attr attrs "about").map (resolveResource labels scope)

/-- Step 5.1: `@property` alone. -/
def establishProperty (labels : Labels) (scope : Local) (ctx : EvalContext)
    (attrs : List (Text × Text)) (isRoot : Bool) (s : Extractor) : Subjects × Extractor :=
  let newSubject := (aboutOf labels scope attrs).getD
    (some (if isRoot then .iri scope.base else ctx.inherited))
  if has attrs "typeof" then
    match (aboutOf labels scope attrs) <|> (pointed labels scope attrs) with
    | some typed => (⟨newSubject, typed, typed, false⟩, s)
    | none =>
      let (fresh, s) := s.freshBlank labels
      (⟨newSubject, some fresh, some fresh, false⟩, s)
  else (⟨newSubject, none, none, false⟩, s)

/-- Step 5.2. -/
def establishResource (labels : Labels) (scope : Local) (ctx : EvalContext)
    (attrs : List (Text × Text)) (isRoot : Bool) (s : Extractor) : Subjects × Extractor :=
  let typed (newSubject : Option Term) : Option Term :=
    if has attrs "typeof" then newSubject else none
  match (aboutOf labels scope attrs) <|> (pointed labels scope attrs) with
  | some newSubject => (⟨newSubject, none, typed newSubject, false⟩, s)
  | none =>
    if isRoot then
      (⟨some (.iri scope.base), none, typed (some (.iri scope.base)), false⟩, s)
    else if has attrs "typeof" then
      let (fresh, s) := s.freshBlank labels
      (⟨some fresh, none, some fresh, false⟩, s)
    else (⟨some ctx.inherited, none, none, !has attrs "property"⟩, s)

/-- Step 6, and what of steps 8 and 9 mints a blank node. -/
def establishLink (labels : Labels) (scope : Local) (ctx : EvalContext)
    (attrs : List (Text × Text)) (isRoot : Bool) (s : Extractor) : Subjects × Extractor :=
  let newSubject := (aboutOf labels scope attrs).getD
    (some (if isRoot then .iri scope.base else ctx.inherited))
  let object := ((attr attrs "resource").bind (resolveResource labels scope)) <|>
    (linked scope attrs)
  if has attrs "typeof" then
    if has attrs "about" then (⟨newSubject, object, newSubject, false⟩, s)
    else
      match object with
      | some object => (⟨newSubject, some object, some object, false⟩, s)
      | none =>
        let (fresh, s) := s.freshBlank labels
        (⟨newSubject, some fresh, some fresh, false⟩, s)
  else (⟨newSubject, object, none, false⟩, s)

/-- Steps 5 and 6. -/
def establish (labels : Labels) (scope : Local) (ctx : EvalContext) (attrs : List (Text × Text))
    (isRoot : Bool) (s : Extractor) : Subjects × Extractor :=
  if hasLink attrs then establishLink labels scope ctx attrs isRoot s
  else if has attrs "property" && !has attrs "content" && !has attrs "datatype" then
    establishProperty labels scope ctx attrs isRoot s
  else establishResource labels scope ctx attrs isRoot s

/-! ## Triples -/

def iriType : Term := .iri (rdf "type")

/-- Triples with these predicates. -/
def pushAll (subject object : Term) (predicates : List Term) (s : Extractor) : Extractor :=
  predicates.foldl (fun s predicate => s.push subject predicate object) s

/-- Step 7. -/
def emitTypes (labels : Labels) (scope : Local) (attrs : List (Text × Text))
    (typedResource : Option Term) (s : Extractor) : Extractor :=
  match typedResource with
  | some subject => (termsOf labels scope (attr attrs "typeof")).foldl
      (fun s object => s.push subject iriType object) s
  | none => s

/-- Steps 8 and 9: the triples of links; without an object, a blank node and what waits for it. -/
def emitLinks (labels : Labels) (scope : Local) (attrs : List (Text × Text))
    (newSubject currentObject : Option Term) (s : Extractor) :
    (Option Term × List (Term × Bool)) × Extractor :=
  let rel := termsOf labels scope (attr attrs "rel")
  let rev := termsOf labels scope (attr attrs "rev")
  if hasLink attrs then
    match currentObject with
    | some object =>
      match newSubject with
      | some subject =>
        ((some object, []), pushAll object subject rev (pushAll subject object rel s))
      | none => ((some object, []), s)
    | none =>
      let (fresh, s) := s.freshBlank labels
      ((some fresh, rel.map (·, false) ++ rev.map (·, true)), s)
  else ((currentObject, []), s)

/-- Step 10. -/
def completeTriples (ctx : EvalContext) (subject : Term) (s : Extractor) : Extractor :=
  ctx.incomplete.foldl (fun s (predicate, reverse) =>
    if reverse then s.push subject predicate ctx.parentSubject
    else s.push ctx.parentSubject predicate subject) s

/-- `make_literal`. -/
def makeLiteral (value : Text) (datatype lang : Option Text) : Term :=
  match datatype.filter (· ≠ []) with
  | some datatype => .literal value (some datatype) none
  | none => .literal value none lang

/-- `property_object`; `text` is the text of the element. -/
def propertyObject (labels : Labels) (scope : Local) (attrs : List (Text × Text))
    (lang : Option Text) (typedResource : Option Term) (text : Text) : Option Term :=
  let datatype := (attr attrs "datatype").bind (datatypeIri labels scope)
  match attr attrs "content" with
  | some content => some (makeLiteral content datatype lang)
  | none =>
    if has attrs "datatype" then some (makeLiteral text datatype lang)
    else
      match if hasLink attrs then none else pointed labels scope attrs with
      | some object => object
      | none =>
        if !hasLink attrs && has attrs "typeof" && !has attrs "about" then typedResource
        else some (makeLiteral text none lang)

/-- Step 11. -/
def emitProperty (labels : Labels) (scope : Local) (attrs : List (Text × Text))
    (lang : Option Text) (subjects : Subjects) (text : Text) (s : Extractor) : Extractor :=
  subjects.newSubject.elim s fun subject =>
    (propertyObject labels scope attrs lang subjects.typedResource text).elim s fun object =>
      pushAll subject object (termsOf labels scope (attr attrs "property")) s

/-- What the children of an element inherit. -/
def EvalContext.child (ctx : EvalContext) (scope : Local) (lang : Option Text)
    (subjects : Subjects) (object : Option Term) (incomplete : List (Term × Bool)) :
    EvalContext :=
  if subjects.skip then { ctx with scope, lang }
  else
    let parentSubject := subjects.newSubject.getD ctx.parentSubject
    { scope, lang, incomplete, parentSubject
      parentObject := some ((object <|> subjects.newSubject).getD parentSubject) }

/-- Steps 5 to 10: what an element establishes, the object and the waiting predicates that its
children get, and the triples so far. -/
def head (labels : Labels) (scope : Local) (ctx : EvalContext) (attrs : List (Text × Text))
    (isRoot : Bool) (s : Extractor) : (Subjects × Option Term × List (Term × Bool)) × Extractor :=
  let (subjects, s) := establish labels scope ctx attrs isRoot s
  let s := emitTypes labels scope attrs subjects.typedResource s
  let ((object, incomplete), s) :=
    emitLinks labels scope attrs subjects.newSubject subjects.currentObject s
  let s := if subjects.skip then s
    else subjects.newSubject.elim s fun subject => completeTriples ctx subject s
  ((subjects, object, incomplete), s)

/-! ## Walk -/

/-- `process`. -/
def process (labels : Labels) : Nat → Element → EvalContext → Bool → Extractor →
    Except Problem Extractor
  | 0, _, _, _, _ => .error .exhausted
  | depth + 1, el, ctx, isRoot, s => do
    let scope := ctx.scope.child el.attrs
    let lang := childLang ctx.lang el.attrs
    let ((subjects, object, incomplete), s) := head labels scope ctx el.attrs isRoot s
    let text ← collectText depth el.children
    let s := if has el.attrs "property" then
        emitProperty labels scope el.attrs lang subjects text s
      else s
    (elements el.children).foldlM (fun s child =>
      process labels depth child (ctx.child scope lang subjects object incomplete) false s) s

/-- The walk over a document. -/
def run (labels : Labels) (depth : Nat) (root : Element) : Except Problem Extractor := do
  let base ← findBase depth root
  (elements root.children).foldlM (fun s child =>
    process labels depth child (.root (base.getD [])) true s) .new

/-- The labels of the source. -/
def sourceLabels : Labels := .marked "rdfa~"

/-- The tree of a document. -/
def treeOf (content : Text) : Element := buildTree (tokenize (content.length + 1) content)

/-- How deep the walk goes. -/
def walkDepth : Nat := maxTreeDepth + 2

/-- `parse_str`, which refuses nothing. -/
def parseStr (content : Text) : Except Problem (List Triple) :=
  (run sourceLabels walkDepth (treeOf content)).map Extractor.triples

end GStore.Parser.Rdfa
