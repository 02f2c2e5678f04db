import GStore.Foundation.Assoc
import GStore.Parser.BlankLabels
import GStore.Parser.RelativeIris
import GStore.Parser.Xml

/-! # RDF/XML

`parser/rdfxml.rs`, `Extractor`: the walk over an element tree, node elements and property elements
in turns. -/

namespace GStore.Parser.RdfXml

open Reason Turtle Xml

/-! ## Names -/

def rdfNs : Text := rdf ""

def xmlNs : Text := "http://www.w3.org/XML/1998/namespace".toList

inductive Problem where
  | undefinedPrefix (name : Text)
  /-- A recursion of the model went too deep; the source has no such error. -/
  | exhausted
deriving DecidableEq

/-- What an element inherits. -/
structure Ctx where
  ns : List (Text × Text)
  lang : Option Text
  base : Text

def Ctx.root : Ctx where
  ns := [("xml".toList, xmlNs)]
  lang := none
  base := []

/-- Whether an attribute declares a prefix. -/
def declaresPrefix (name : Text) : Bool := "xmlns:".toList.isPrefixOf name

/-- One attribute of `child_ctx`. -/
def Ctx.declare (ctx : Ctx) (attr : Text × Text) : Ctx :=
  if attr.1 = "xmlns".toList then { ctx with ns := assocInsert [] attr.2 ctx.ns }
  else if declaresPrefix attr.1 then { ctx with ns := assocInsert (attr.1.drop 6) attr.2 ctx.ns }
  else if attr.1 = "xml:base".toList then { ctx with base := attr.2 }
  else if attr.1 = "xml:lang".toList then
    { ctx with lang := if attr.2 = [] then none else some attr.2 }
  else ctx

def Ctx.child (parent : Ctx) (attrs : List (Text × Text)) : Ctx := attrs.foldl Ctx.declare parent

/-- A name with a prefix; `bare` is the namespace of one without. -/
def expandQName (bare : Text) (ns : List (Text × Text)) (name : Text) :
    Except Problem (Text × Text) :=
  match splitFirst ':' name with
  | some (head, localName) =>
    match ns.lookup head with
    | some iri => .ok (iri, localName)
    | none => .error (.undefinedPrefix head)
  | none => .ok (bare, name)

/-- `expand_name`. -/
def expandName (ns : List (Text × Text)) (name : Text) : Except Problem (Text × Text) :=
  expandQName ((ns.lookup []).getD []) ns name

/-- `expand_attr_name`: the default namespace is not an attribute's. -/
def expandAttrName (ns : List (Text × Text)) (name : Text) : Except Problem (Text × Text) :=
  expandQName [] ns name

/-- Whether an expanded name is the one of the RDF syntax that is sought, or its unprefixed
spelling. -/
def matchesRdf (want : String) (name : Text × Text) : Bool :=
  (name.1 == rdfNs && name.2 == want.toList) || (name.1 == [] && name.2 == want.toList)

/-- `attr_value`, in the namespace of RDF. -/
def attrValue (ns : List (Text × Text)) (want : String) :
    List (Text × Text) → Except Problem (Option Text)
  | [] => .ok none
  | (raw, value) :: rest => do
    let name ← expandAttrName ns raw
    if matchesRdf want name then return some value else attrValue ns want rest

/-- Whether an expanded name belongs to the syntax. -/
def isSyntaxName (name : Text × Text) : Bool :=
  name.1 == xmlNs ||
    (name.1 == rdfNs && ["about", "ID", "nodeID", "resource", "datatype", "parseType", "type"].any
      fun word => name.2 == word.toList) ||
    (name.1 == [] && ["about", "ID", "nodeID", "resource"].any fun word => name.2 == word.toList)

def isSyntaxAttr (raw : Text) (name : Text × Text) : Bool :=
  raw == "xmlns".toList || declaresPrefix raw || isSyntaxName name

def iriType : Term := .iri (rdf "type")

/-! ## Walk -/

/-- What stands on both kinds of elements: an attribute that is a property of `subject`; `typed`
allows `rdf:type`. -/
def propertyAttr (typed : Bool) (subject : Term) (ctx : Ctx) (s : Extractor) (attr : Text × Text) :
    Except Problem Extractor := do
  let name ← expandAttrName ctx.ns attr.1
  if isSyntaxAttr attr.1 name then
    if typed && name == (rdfNs, "type".toList) then
      return s.push subject iriType (.iri (resolve ctx.base attr.2))
    else return s
  else return s.push subject (.iri (name.1 ++ name.2)) (.literal attr.2 none ctx.lang)

/-- The predicate of a property element, and the next number of a member. -/
def predicateOf (name : Text × Text) (li : Nat) : Term × Nat :=
  if name = (rdfNs, "li".toList) then
    (.iri (rdfNs ++ '_' :: Nat.toDigits 10 li), li + 1)
  else (.iri (name.1 ++ name.2), li)

/-- The subject of a node element. -/
def subjectOf (labels : Labels) (attrs : List (Text × Text)) (ctx : Ctx) (s : Extractor) :
    Except Problem (Term × Extractor) := do
  if let some about ← attrValue ctx.ns "about" attrs then
    return (.iri (resolve ctx.base about), s)
  if let some id ← attrValue ctx.ns "ID" attrs then
    return (.iri (resolve ctx.base ('#' :: id)), s)
  if let some label ← attrValue ctx.ns "nodeID" attrs then
    return (.blank (labels.named label), s)
  return s.freshBlank labels

mutual

/-- A node element; the answer is its subject. -/
def node (labels : Labels) : Nat → Element → Ctx → Extractor → Except Problem (Term × Extractor)
  | 0, _, _, _ => .error .exhausted
  | depth + 1, el, parent, s => do
    let ctx := parent.child el.attrs
    let name ← expandName ctx.ns el.name
    let (subject, s) ← subjectOf labels el.attrs ctx s
    let s := if name = (rdfNs, "Description".toList) then s
      else s.push subject iriType (.iri (name.1 ++ name.2))
    let s ← el.attrs.foldlM (propertyAttr true subject ctx) s
    let (s, _) ← (elements el.children).foldlM
      (fun (s, li) pe => property labels depth subject pe ctx li s) (s, 1)
    return (subject, s)

/-- A property element of a subject. -/
def property (labels : Labels) :
    Nat → Term → Element → Ctx → Nat → Extractor → Except Problem (Extractor × Nat)
  | 0, _, _, _, _, _ => .error .exhausted
  | depth + 1, subject, pe, parent, li, s => do
    let ctx := parent.child pe.attrs
    let name ← expandName ctx.ns pe.name
    let (predicate, li) := predicateOf name li
    if let some resource ← attrValue ctx.ns "resource" pe.attrs then
      return (s.push subject predicate (.iri (resolve ctx.base resource)), li)
    if let some label ← attrValue ctx.ns "nodeID" pe.attrs then
      return (s.push subject predicate (.blank (labels.named label)), li)
    let parseType ← attrValue ctx.ns "parseType" pe.attrs
    if parseType = some "Resource".toList then
      let (object, s) := s.freshBlank labels
      let s := s.push subject predicate object
      let s ← pe.attrs.foldlM (propertyAttr false object ctx) s
      let (s, _) ← (elements pe.children).foldlM
        (fun (s, li) inner => property labels depth object inner ctx li s) (s, 1)
      return (s, li)
    if parseType = some "Literal".toList then
      return (s.push subject predicate
        (.literal (texts pe.children) (some (rdf "XMLLiteral")) none), li)
    if hasElementChildren pe.children then
      let s ← (elements pe.children).foldlM (fun s child => do
        let (object, s) ← node labels depth child ctx s
        return s.push subject predicate object) s
      return (s, li)
    let datatype ← attrValue ctx.ns "datatype" pe.attrs
    let lang := if datatype.isSome then none else ctx.lang
    return (s.push subject predicate (.literal (trim (texts pe.children)) datatype lang), li)

end

/-- `run`: the node elements of `rdf:RDF`, or a single one. -/
def run (labels : Labels) (root : Element) : Except Problem Extractor := do
  let ctx := Ctx.root.child root.attrs
  let name ← expandName ctx.ns root.name
  if name = (rdfNs, "RDF".toList) then
    (elements root.children).foldlM
      (fun s child => (node labels root.height child ctx s).map Prod.snd) .new
  else (node labels (root.height + 1) root ctx .new).map Prod.snd

/-- The labels of the source. -/
def sourceLabels : Labels := .marked "rx"

inductive DocumentProblem where
  | xml (line : Nat) (problem : Xml.Problem)
  | rdf (problem : Problem)
deriving DecidableEq

/-- `parse_str`. -/
def parseStr (content : Text) : Except DocumentProblem (List Triple) :=
  match parseDocument (content.length + 1) content with
  | .error failure =>
    let read := content.take (content.length - failure.rest.length)
    .error (.xml (read.count '\n' + 1) failure.problem)
  | .ok root =>
    match run sourceLabels root with
    | .error problem => .error (.rdf problem)
    | .ok s => .ok s.triples

end GStore.Parser.RdfXml
