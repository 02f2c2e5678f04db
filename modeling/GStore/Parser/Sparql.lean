import GStore.Foundation.Assoc
import GStore.Parser.Turtle
import GStore.Query.Pattern

/-! # The SPARQL parser

`parser/sparql/mod.rs` over the tokens of `lexer.rs`: the cursor, terms, property paths and triples.
A parser takes a cursor and leaves another one. The loops of the source stop at the end of the
tokens; fuel bounds them here. -/

namespace GStore.Parser.Sparql

open Dict Query

inductive Token where
  | iri (text : Text)
  | pname (head tail : Text)
  | var (name : Text)
  | blank (label : Text)
  | str (value : Text) (lang : Option Text)
  /-- A string literal with a datatype, which is resolved later. -/
  | typedStr (value : Text) (datatype : Token)
  | integer (text : Text)
  | decimal (text : Text)
  | double (text : Text)
  | word (text : Text)
  | lbrace | rbrace | lparen | rparen | lbracket | rbracket
  | dot | comma | semicolon | star | plus | minus | slash
  | eq | ne | lt | gt | le | ge | and | or | not | caret | pipe | question
  | eof
deriving DecidableEq

inductive SparqlError where
  /-- `expected {what}, found {token}`. -/
  | expected (what : String) (found : Token)
  /-- `cannot use {token} as a term`. -/
  | notTerm (found : Token)
  /-- `invalid datatype {token}`. -/
  | invalidDatatype (found : Token)
  | undeclaredDefault
  | undefinedPrefix (head : Text)
  /-- `path predicate must be an IRI, got {term}`. -/
  | pathPredicate (found : Term)
  | negatedPath (found : Term)
  /-- `GRAPH expects an IRI or variable, got {term}`. -/
  | graphTerm (found : Term)
  /-- `variable ?{name} graph is not allowed in DATA`. -/
  | variableGraph (name : Text)
  /-- `variable ?{name} is not allowed in a DATA block`. -/
  | variableInData (name : Text)
  /-- `unsupported update operation {keyword}`. -/
  | unsupportedUpdate (keyword : Option Text)
  | message (text : String)
  /-- The source goes on; more fuel gives its answer. -/
  | outOfFuel

/-! ## The cursor -/

structure Cursor where
  /-- The tokens that are left, without the final `Eof`. -/
  tokens : List Token
  prefixes : List (Text × Text)
  base : Option Text

abbrev Parse (α : Type) := Cursor → Except SparqlError (α × Cursor)

def upper (text : Text) : Text := text.map Char.toUpper

namespace Cursor

def peek (c : Cursor) : Token := c.tokens.headD .eof

def bump (c : Cursor) : Cursor := { c with tokens := c.tokens.tail }

def keyword (c : Cursor) : Option Text :=
  match c.peek with
  | .word text => some (upper text)
  | _ => none

def eatKeyword (c : Cursor) (keyword : String) : Bool × Cursor :=
  if c.keyword = some keyword.toList then (true, c.bump) else (false, c)

def expect (c : Cursor) (token : Token) (what : String) : Except SparqlError Cursor :=
  if c.peek = token then .ok c.bump else .error (.expected what c.peek)

def expectKeyword (c : Cursor) (keyword : String) : Except SparqlError Cursor :=
  if c.keyword = some keyword.toList then .ok c.bump
  else .error (.expected ("keyword " ++ keyword) c.peek)

/-- The next token is a word that equals the keyword up to case. -/
def atWord (c : Cursor) (keyword : String) : Bool := c.keyword == some keyword.toList

end Cursor

/-! ## Terms -/

def isAbsoluteIri (text : Text) : Bool :=
  match Turtle.splitFirst ':' text with
  | some (scheme, _) => scheme ≠ [] && scheme.all fun char =>
    char.isAlphanum || char == '+' || char == '-' || char == '.'
  | none => false

/-- Resolve a possibly relative IRI against the base, if one is set. -/
def Cursor.resolveIri (c : Cursor) (text : Text) : Text :=
  match c.base with
  | some base => if isAbsoluteIri text then text else base ++ text
  | none => text

def Cursor.expandPname (c : Cursor) (head tail : Text) : Except SparqlError Text :=
  match c.prefixes.lookup head with
  | some namespace_ => .ok (namespace_ ++ tail)
  | none => if head = [] then .error .undeclaredDefault else .error (.undefinedPrefix head)

def Cursor.datatypeIri (c : Cursor) : Token → Except SparqlError Text
  | .iri text => .ok (c.resolveIri text)
  | .pname head tail => c.expandPname head tail
  | other => .error (.invalidDatatype other)

def rdfType : Text := Turtle.rdf "type"

def Cursor.tokenToTerm (c : Cursor) : Token → Except SparqlError Term
  | .iri text => .ok (.iri (c.resolveIri text))
  | .pname head tail => (c.expandPname head tail).map .iri
  | .blank label => .ok (.blank label)
  | .integer text => .ok (.literal text (some (Turtle.xsd "integer")) none)
  | .decimal text => .ok (.literal text (some (Turtle.xsd "decimal")) none)
  | .double text => .ok (.literal text (some (Turtle.xsd "double")) none)
  | .str value lang => .ok (.literal value none lang)
  | .typedStr value datatype =>
    (c.datatypeIri datatype).map fun iri => .literal value (some iri) none
  | .word text => if text = ['a'] then .ok (.iri rdfType) else .error (.notTerm (.word text))
  | other => .error (.notTerm other)

/-- A triple-pattern position: a variable or a concrete term. -/
def parsePatternTerm : Parse PatternTerm := fun c =>
  match c.peek with
  | .var name => .ok (.var name, c.bump)
  | token => (c.tokenToTerm token).map fun term => (.term term, c.bump)

/-- A `GRAPH` pattern's reference: a variable or a constant IRI. -/
def parseGraphTerm : Parse GraphTerm := fun c =>
  let reference := fun token => do
    match ← c.tokenToTerm token with
    | .iri text => return (.iri text, c.bump)
    | other => .error (.graphTerm other)
  match c.peek with
  | .var name => .ok (.var name, c.bump)
  | .iri text => reference (.iri text)
  | .pname head tail => reference (.pname head tail)
  | other => .error (.expected "GRAPH expects an IRI or variable" other)

/-! ## Property paths -/

/-- The postfix modifiers of a path. -/
def pathModifiers : PathExpr → List Token → PathExpr × List Token
  | path, .star :: rest => pathModifiers (.zeroOrMore path) rest
  | path, .plus :: rest => pathModifiers (.oneOrMore path) rest
  | path, .question :: rest => pathModifiers (.zeroOrOne path) rest
  | path, rest => (path, rest)

/-- One member of a negated set, with a flag for the inverse direction. -/
def readNegated : Parse (Text × Bool) := fun c =>
  let inverse := c.peek == .caret
  let c := if inverse then c.bump else c
  if c.peek = .word ['a'] then .ok ((rdfType, inverse), c.bump)
  else do
    match ← c.tokenToTerm c.peek with
    | .iri text => return ((text, inverse), c.bump)
    | other => .error (.negatedPath other)

/-- What follows a separator, over and over. -/
def separated {α : Type} (separator : Token) (item : Parse α) : Nat → Parse (List α)
  | 0, _ => .error .outOfFuel
  | fuel + 1, c =>
    if c.peek = separator then do
      let (value, c) ← item c.bump
      let (values, c) ← separated separator item fuel c
      return (value :: values, c)
    else .ok ([], c)

def parseNegatedPathSet : Parse PathExpr := fun c =>
  if c.peek = .lparen then
    let c := c.bump
    if c.peek = .rparen then .ok (.negatedSet [], c.bump)
    else do
      let (first, c) ← readNegated c
      let (others, c) ← separated .pipe readNegated (c.tokens.length + 1) c
      let c ← c.expect .rparen "')'"
      return (.negatedSet (first :: others), c)
  else do
    let (only, c) ← readNegated c
    return (.negatedSet [only], c)

section Path

variable (inner : Parse PathExpr)

/-- The other parser is that of a path in parentheses. -/
def parsePathPrimary : Parse PathExpr := fun c =>
  let predicate := fun token => do
    match ← c.tokenToTerm token with
    | .iri text => return (.pred text, c.bump)
    | other => .error (.pathPredicate other)
  match c.peek with
  | .lparen => do
    let (path, c) ← inner c.bump
    let c ← c.expect .rparen "')'"
    return (path, c)
  | .not => parseNegatedPathSet c.bump
  | .word text =>
    if text = ['a'] then .ok (.pred rdfType, c.bump)
    else .error (.expected "a path predicate" (.word text))
  | .iri text => predicate (.iri text)
  | .pname head tail => predicate (.pname head tail)
  | other => .error (.expected "a path predicate" other)

def parsePathElt : Parse PathExpr := fun c => do
  let (path, c) ← parsePathPrimary inner c
  let (path, tokens) := pathModifiers path c.tokens
  return (path, { c with tokens })

def parsePathEltOrInverse : Parse PathExpr := fun c =>
  if c.peek = .caret then do
    let (path, c) ← parsePathElt inner c.bump
    return (.inverse path, c)
  else parsePathElt inner c

def parsePathSeq : Parse PathExpr := fun c => do
  let (first, c) ← parsePathEltOrInverse inner c
  let (others, c) ← separated .slash (parsePathEltOrInverse inner) (c.tokens.length + 1) c
  return (others.foldl .seq first, c)

end Path

/-- The fuel bounds the parentheses. -/
def parsePath : Nat → Parse PathExpr
  | 0, _ => .error .outOfFuel
  | fuel + 1, c => do
    let (first, c) ← parsePathSeq (parsePath fuel) c
    let (others, c) ← separated .pipe (parsePathSeq (parsePath fuel)) (c.tokens.length + 1) c
    return (others.foldl .alt first, c)

/-! ## Triples -/

inductive VerbKind where
  | simple (predicate : PatternTerm)
  | path (path : PathExpr)

/-- A predicate that is either a plain term or a property path. -/
def parsePathOrVerb : Parse VerbKind := fun c =>
  match c.peek with
  | .var name => .ok (.simple (.var name), c.bump)
  | _ => do
    match ← parsePath (c.tokens.length + 1) c with
    | (.pred iri, c) => return (.simple (.term (.iri iri)), c)
    | (path, c) => return (.path path, c)

/-- Whether the next token can begin a verb. -/
def Cursor.startsVerb (c : Cursor) : Bool :=
  match c.peek with
  | .var _ | .iri _ | .pname _ _ | .caret | .not | .lparen => true
  | .word text => text == ['a']
  | _ => false

/-- The triples of one subject, and those of its paths. -/
structure SubjectTriples where
  triples : List TriplePattern
  paths : List PathPattern

def SubjectTriples.append (first second : SubjectTriples) : SubjectTriples :=
  { triples := first.triples ++ second.triples, paths := first.paths ++ second.paths }

def SubjectTriples.empty : SubjectTriples := { triples := [], paths := [] }

/-- The triples of one verb. -/
def verbTriples (subject : PatternTerm) (verb : VerbKind) (objects : List PatternTerm) :
    SubjectTriples :=
  match verb with
  | .simple predicate =>
    { triples := objects.map fun object => { subject, predicate, object }, paths := [] }
  | .path path => { triples := [], paths := objects.map fun object => { subject, path, object } }

/-- `verb objlist (';' verb objlist)*`. -/
def parseVerbs (subject : PatternTerm) : Nat → Parse SubjectTriples
  | 0, _ => .error .outOfFuel
  | fuel + 1, c => do
    let (verb, c) ← parsePathOrVerb c
    let (object, c) ← parsePatternTerm c
    let (objects, c) ← separated .comma parsePatternTerm (c.tokens.length + 1) c
    let here := verbTriples subject verb (object :: objects)
    if c.peek = .semicolon then
      let c := c.bump
      if c.startsVerb then do
        let (further, c) ← parseVerbs subject fuel c
        return (here.append further, c)
      else return (here, c)
    else return (here, c)

/-- The triples that the source pushes; a failed parse keeps none. -/
def parseTriplesSameSubject : Parse SubjectTriples := fun c => do
  let (subject, c) ← parsePatternTerm c
  parseVerbs subject (c.tokens.length + 1) c

end GStore.Parser.Sparql
