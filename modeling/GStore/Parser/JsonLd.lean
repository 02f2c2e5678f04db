import GStore.Foundation.Assoc
import GStore.Parser.BlankLabels
import GStore.Parser.Json
import GStore.Parser.RelativeIris

/-! # JSON-LD

`parser/jsonld.rs`: contexts, and the walk of `Processor` over node objects. -/

namespace GStore.Parser.JsonLd

open Reason Turtle

/-! ## Contexts -/

/-- A term or prefix that a context defines. -/
structure TermDef where
  id : Option Text
  type_ : Option Text
  container : Option Text
  language : Option Text

def TermDef.empty : TermDef where
  id := none
  type_ := none
  container := none
  language := none

/-- The active context: what an IRI is expanded by, and how the values of a term are read. -/
structure Active where
  base : Option Text
  vocab : Option Text
  language : Option Text
  terms : List (Text × TermDef)

def Active.empty : Active where
  base := none
  vocab := none
  language := none
  terms := []

/-- What an IRI is expanded by. -/
def Active.iris (ctx : Active) : Context where
  base := ctx.base
  vocab := ctx.vocab
  terms := ctx.terms.map fun (term, definition) => (term, definition.id)

/-- `expand_iri` of a name of the vocabulary. -/
def Active.expandVocab (ctx : Active) (value : Text) : Text := expandIri ctx.iris value true false

/-- `expand_iri` of an identifier of the document. -/
def Active.expandId (ctx : Active) (value : Text) : Text := expandIri ctx.iris value false true

def get (pairs : List (Text × Json)) (key : String) : Option Json := pairs.lookup key.toList

def asOptString : Json → Option Text
  | .str text => some text
  | _ => none

def getString (pairs : List (Text × Json)) (key : String) : Option Text :=
  (get pairs key).bind asOptString

/-- `build_term_def`. -/
def buildTermDef (ctx : Active) : Json → TermDef
  | .str text => { TermDef.empty with id := some (ctx.expandVocab text) }
  | .obj pairs =>
    { id := (getString pairs "@id").map ctx.expandVocab
      type_ := (getString pairs "@type").map fun type_ =>
        if type_ = "@id".toList ∨ type_ = "@vocab".toList then type_ else ctx.expandVocab type_
      container := getString pairs "@container"
      language := getString pairs "@language" }
  | _ => .empty

def isNull : Json → Bool
  | .null => true
  | _ => false

def isKeyword (key : Text) : Bool := key.head? == some '@'

/-- One member of a context. -/
def Active.define (ctx : Active) (member : Text × Json) : Active :=
  if member.1 = "@base".toList then { ctx with base := asOptString member.2 }
  else if member.1 = "@vocab".toList then { ctx with vocab := asOptString member.2 }
  else if member.1 = "@language".toList then { ctx with language := asOptString member.2 }
  else if isKeyword member.1 then ctx
  else if isNull member.2 then { ctx with terms := assocErase member.1 ctx.terms }
  else { ctx with terms := assocInsert member.1 (buildTermDef ctx member.2) ctx.terms }

inductive Problem where
  | document
  | nestedList
  | scalar
  /-- A recursion of the model went too deep; the source has no such error. -/
  | exhausted
deriving DecidableEq

/-- `build_context`. -/
def buildContext : Nat → Active → Json → Except Problem Active
  | 0, _, _ => .error .exhausted
  | depth + 1, ctx, json =>
    match json with
    | .null => .ok .empty
    | .arr items => items.foldlM (buildContext depth) ctx
    | .obj members => .ok (members.foldl Active.define ctx)
    | _ => .ok ctx

/-- `active_context`. -/
def activeContext (depth : Nat) (parent : Active) (pairs : List (Text × Json)) :
    Except Problem Active :=
  match get pairs "@context" with
  | some json => buildContext depth parent json
  | none => .ok parent

/-! ## Terms -/

/-- `to_term`. -/
def toTerm (labels : Labels) (expanded : Text) : Term :=
  if "_:".toList.isPrefixOf expanded then .blank (labels.named (expanded.drop 2))
  else .iri expanded

def typed (value datatype : Text) : Term := .literal value (some datatype) none

def makePlain (value : Text) (lang : Option Text) : Term := .literal value none lang

def numberToLiteral (text : Text) : Term :=
  typed text (if text.any fun char => char == '.' || char == 'e' || char == 'E' then xsd "double"
    else xsd "integer")

def boolLexical (value : Bool) : Text := if value then "true".toList else "false".toList

def boolToLiteral (value : Bool) : Term := typed (boolLexical value) (xsd "boolean")

/-- `item_refs`. -/
def itemRefs : Json → List Json
  | .arr items => items.filter (!isNull ·)
  | .null => []
  | json => [json]

/-- What stands as a value: the items of an array, or the one. -/
def valuesOf : Json → List Json
  | .arr items => items
  | json => [json]

/-- `string_to_term`. -/
def stringToTerm (labels : Labels) (ctx : Active) (definition : TermDef) (text : Text) : Term :=
  match definition.type_ with
  | some type_ =>
    if type_ = "@id".toList then toTerm labels (ctx.expandId text)
    else if type_ = "@vocab".toList then toTerm labels (ctx.expandVocab text)
    else typed text type_
  | none => makePlain text (definition.language <|> ctx.language)

/-- The text of a scalar, as `@value` takes it. -/
def scalarText : Json → Option Text
  | .str text => some text
  | .num text => some text
  | .bool value => some (boolLexical value)
  | .null => some []
  | _ => none

/-- `value_object_to_literal`. -/
def valueObjectToLiteral (ctx : Active) (definition : TermDef) (pairs : List (Text × Json))
    (json : Json) : Except Problem Term :=
  match scalarText json with
  | none => .error .scalar
  | some value =>
    match getString pairs "@type", getString pairs "@language" with
    | some type_, _ => .ok (typed value (ctx.expandVocab type_))
    | none, some lang => .ok (.literal value none (some lang))
    | none, none =>
      match json with
      | .num text => .ok (numberToLiteral text)
      | .bool value => .ok (boolToLiteral value)
      | _ => .ok (makePlain value (definition.language <|> ctx.language))

def iriType : Term := .iri (rdf "type")
def iriNil : Term := .iri (rdf "nil")
def iriFirst : Term := .iri (rdf "first")
def iriRest : Term := .iri (rdf "rest")

/-! ## Walk -/

/-- One name in `@type`. -/
def typeTriple (labels : Labels) (ctx : Active) (subject : Term) (s : Extractor) :
    Json → Extractor
  | .str text =>
    let iri := ctx.expandVocab text
    if isAbsoluteIri iri || "_:".toList.isPrefixOf iri then
      s.push subject iriType (toTerm labels iri)
    else s
  | _ => s

/-- The subject of a node object. -/
def subjectOf (labels : Labels) (ctx : Active) (pairs : List (Text × Json)) (s : Extractor) :
    Term × Extractor :=
  match getString pairs "@id" with
  | some id => (toTerm labels (ctx.expandId id), s)
  | none => s.freshBlank labels

/-- The items of `build_list` at a node of the chain; `read` makes an item a term. -/
def chain (labels : Labels) (read : Json → Extractor → Except Problem (Term × Extractor)) :
    List Json → Term → Extractor → Except Problem Extractor
  | [], _, s => .ok s
  | [last], current, s => do
    let (object, s) ← read last s
    return (s.push current iriFirst object).push current iriRest iriNil
  | item :: rest, current, s => do
    let (object, s) ← read item s
    let (next, s) := (s.push current iriFirst object).freshBlank labels
    chain labels read rest next (s.push current iriRest next)

/-- `build_list`. -/
def buildList (labels : Labels) (read : Json → Extractor → Except Problem (Term × Extractor))
    (items : List Json) (s : Extractor) : Except Problem (Term × Extractor) :=
  if items.isEmpty then .ok (iriNil, s)
  else do
    let (head, s) := s.freshBlank labels
    let s ← chain labels read items head s
    return (head, s)

/-- The kinds of an object that stands as a value. -/
inductive ValueObject where
  | value (json : Json)
  | list (json : Json)
  | node

def valueObject (pairs : List (Text × Json)) : ValueObject :=
  match get pairs "@value", get pairs "@list" with
  | some json, _ => .value json
  | none, some json => .list json
  | none, none => .node

/-- The nodes of `@graph`. -/
def graphNodes : Json → List (List (Text × Json))
  | .arr items => items.filterMap fun
      | .obj pairs => some pairs
      | _ => none
  | .obj pairs => [pairs]
  | _ => []

def isList : Json → Bool
  | .obj pairs => (get pairs "@list").isSome
  | _ => false

/-- One property of a node; `readGraph` and `readValues` read what it holds. -/
def readMember (ctx : Active) (readGraph : Json → Extractor → Except Problem Extractor)
    (readValues : Term → Json → TermDef → Extractor → Except Problem Extractor) (s : Extractor)
    (member : Text × Json) : Except Problem Extractor :=
  let (key, json) := member
  if isKeyword key then if key = "@graph".toList then readGraph json s else .ok s
  else
    let predicate := ctx.expandVocab key
    if isAbsoluteIri predicate then
      readValues (.iri predicate) json ((ctx.terms.lookup key).getD .empty) s
    else .ok s

mutual

/-- `process_node`; the answer is its subject. -/
def node (labels : Labels) :
    Nat → List (Text × Json) → Active → Extractor → Except Problem (Term × Extractor)
  | 0, _, _, _ => .error .exhausted
  | depth + 1, pairs, parent, s => do
    let ctx ← activeContext depth parent pairs
    let (subject, s) := subjectOf labels ctx pairs s
    let s := ((get pairs "@type").elim [] itemRefs).foldl (typeTriple labels ctx subject) s
    let s ← pairs.foldlM (readMember ctx (fun json s => graph labels depth json ctx s)
      (fun predicate json definition s =>
        emitValues labels depth subject predicate json ctx definition s)) s
    return (subject, s)

/-- `process_graph`. -/
def graph (labels : Labels) : Nat → Json → Active → Extractor → Except Problem Extractor
  | 0, _, _, _ => .error .exhausted
  | depth + 1, json, ctx, s =>
    (graphNodes json).foldlM
      (fun s pairs => (node labels depth pairs ctx s).map Prod.snd) s

/-- `emit_values`. -/
def emitValues (labels : Labels) :
    Nat → Term → Term → Json → Active → TermDef → Extractor → Except Problem Extractor
  | 0, _, _, _, _, _, _ => .error .exhausted
  | depth + 1, subject, predicate, json, ctx, definition, s =>
    if definition.container = some "@list".toList ∧ isList json = false then do
      let (head, s) ← buildList labels
        (fun item s => listItemTerm labels depth item ctx definition s) (itemRefs json) s
      return s.push subject predicate head
    else
      (valuesOf json).foldlM (fun s item =>
        emitSingle labels depth subject predicate item ctx definition s) s

/-- `emit_single`. -/
def emitSingle (labels : Labels) :
    Nat → Term → Term → Json → Active → TermDef → Extractor → Except Problem Extractor
  | 0, _, _, _, _, _, _ => .error .exhausted
  | depth + 1, subject, predicate, json, ctx, definition, s =>
    match json with
    | .obj pairs =>
      match valueObject pairs with
      | .value value => do
        let literal ← valueObjectToLiteral ctx definition pairs value
        return s.push subject predicate literal
      | .list list => do
        let (head, s) ← buildList labels
          (fun item s => listItemTerm labels depth item ctx definition s) (itemRefs list) s
        return s.push subject predicate head
      | .node => do
        let (object, s) ← node labels depth pairs ctx s
        return s.push subject predicate object
    | .str text => .ok (s.push subject predicate (stringToTerm labels ctx definition text))
    | .num text => .ok (s.push subject predicate (numberToLiteral text))
    | .bool value => .ok (s.push subject predicate (boolToLiteral value))
    | .null => .ok s
    | .arr items => emitValues labels depth subject predicate (.arr items) ctx definition s

/-- `list_item_term`. -/
def listItemTerm (labels : Labels) :
    Nat → Json → Active → TermDef → Extractor → Except Problem (Term × Extractor)
  | 0, _, _, _, _ => .error .exhausted
  | depth + 1, json, ctx, definition, s =>
    match json with
    | .obj pairs =>
      match valueObject pairs with
      | .value value => do
        let literal ← valueObjectToLiteral ctx definition pairs value
        return (literal, s)
      | .list list => buildList labels
          (fun item s => listItemTerm labels depth item ctx definition s) (itemRefs list) s
      | .node => node labels depth pairs ctx s
    | .str text => .ok (stringToTerm labels ctx definition text, s)
    | .num text => .ok (numberToLiteral text, s)
    | .bool value => .ok (boolToLiteral value, s)
    | .null => .ok (iriNil, s)
    | .arr _ => .error .nestedList

end

/-- `process_top`. The context of a node at the top is taken up twice. -/
def processTop (labels : Labels) : Nat → Json → Extractor → Except Problem Extractor
  | 0, _, _ => .error .exhausted
  | depth + 1, json, s =>
    match json with
    | .arr items => items.foldlM (fun s item => processTop labels depth item s) s
    | .obj pairs => do
      let ctx ← activeContext depth .empty pairs
      let (_, s) ← node labels depth pairs ctx s
      return s
    | _ => .error .document

/-- The labels of the source. -/
def sourceLabels : Labels := .marked "jld~"

/-- How deep the walk goes over a value that the reader accepts: four calls for a level. -/
def walkDepth : Nat := 4 * (JsonReader.readerDepth + 1)

inductive DocumentProblem where
  | json (problem : JsonReader.Problem) (line : Nat)
  | rdf (problem : Problem)
deriving DecidableEq

/-- `parse_str`. -/
def parseStr (content : Text) : Except DocumentProblem (List Triple) :=
  match JsonReader.parse JsonReader.readerDepth content with
  | .error failure =>
    let read := content.take (content.length - failure.rest.length)
    .error (.json failure.problem (read.count '\n' + 1))
  | .ok json =>
    match processTop sourceLabels walkDepth json .new with
    | .error problem => .error (.rdf problem)
    | .ok s => .ok s.triples

end GStore.Parser.JsonLd
