import GStore.Db.Session
import GStore.Parser.Sparql
import GStore.Query.Template

/-! # The parser of update requests

`parser/sparql/mod.rs`, the updates. The parser of a `WHERE` pattern is a parameter: nothing here
depends on what it reads. -/

namespace GStore.Parser.Sparql

open Db Query

/-! ## Names -/

/-- `expect_graph_iri`. -/
def expectGraphIri : Parse Text := fun c =>
  match c.peek with
  | .iri text => .ok (c.resolveIri text, c.bump)
  | .pname head tail => (c.expandPname head tail).map fun iri => (iri, c.bump)
  | other => .error (.expected "a graph <iri>" other)

/-- `USING [NAMED] <iri>`, over and over; the graphs that it names are not looked at. -/
def skipUsingClauses : Nat → Cursor → Except SparqlError Cursor
  | 0, _ => .error .outOfFuel
  | fuel + 1, c =>
    let (using_, c) := c.eatKeyword "USING"
    if using_ then do
      let (_, c) ← expectGraphIri (c.eatKeyword "NAMED").2
      skipUsingClauses fuel c
    else .ok c

/-- `(DEFAULT | NAMED | ALL | GRAPH <iri>)`; `NAMED` is an empty name. -/
def parseGraphTarget : Parse GraphTarget := fun c =>
  if c.atWord "DEFAULT" then .ok (.default, c.bump)
  else if c.atWord "ALL" then .ok (.all, c.bump)
  else if c.atWord "NAMED" then .ok (.named [], c.bump)
  else if c.atWord "GRAPH" then do
    let (name, c) ← expectGraphIri c.bump
    return (.named name, c)
  else .error (.message "expected DEFAULT, NAMED, ALL, or GRAPH <iri>")

/-- The prologue; a later declaration of a prefix replaces an earlier one. -/
def parsePrologue : Nat → Cursor → Except SparqlError Cursor
  | 0, _ => .error .outOfFuel
  | fuel + 1, c =>
    if c.atWord "PREFIX" then
      let c := c.bump
      match c.peek with
      | .pname head _ =>
        let c := c.bump
        match c.peek with
        | .iri iri =>
          parsePrologue fuel { c.bump with prefixes := assocInsert head iri c.prefixes }
        | other => .error (.expected "<IRI>" other)
      | other => .error (.expected "'prefix:' " other)
    else if c.atWord "BASE" then
      let c := c.bump
      match c.peek with
      | .iri iri => parsePrologue fuel { c.bump with base := some iri }
      | other => .error (.expected "<IRI>" other)
    else .ok c

/-! ## Blocks -/

/-- The triples up to a closing brace. -/
def triplesUntilBrace (unclosed : String) : Nat → Parse SubjectTriples
  | 0, _ => .error .outOfFuel
  | fuel + 1, c =>
    match c.peek with
    | .rbrace => .ok (.empty, c.bump)
    | .dot => triplesUntilBrace unclosed fuel c.bump
    | .eof => .error (.message unclosed)
    | _ => do
      let (here, c) ← parseTriplesSameSubject c
      let (further, c) ← triplesUntilBrace unclosed fuel c
      return (here.append further, c)

/-- A block of triple templates: variables, but no paths. -/
def parseTripleTemplateBlock : Parse (List TriplePattern) := fun c => do
  let c ← c.expect .lbrace "'\x7b'"
  let (block, c) ← triplesUntilBrace "unexpected end of template block" (c.tokens.length + 1) c
  if block.paths.isEmpty then return (block.triples, c)
  else .error (.message "property paths are not allowed in an INSERT/DELETE template")

def requireGround : PatternTerm → Except SparqlError Term
  | .term term => .ok term
  | .var name => .error (.variableInData name)

def groundTriple (graph : Option Text) (pattern : TriplePattern) :
    Except SparqlError GroundTriple := do
  let subject ← requireGround pattern.subject
  let predicate ← requireGround pattern.predicate
  let object ← requireGround pattern.object
  return { triple := { subject, predicate, object }, graph }

/-- The triples of one subject, as quads of a graph. -/
def parseGroundSubject (graph : Option Text) : Parse (List GroundTriple) := fun c => do
  let (block, c) ← parseTriplesSameSubject c
  if block.paths.isEmpty then do
    let triples ← block.triples.mapM (groundTriple graph)
    return (triples, c)
  else .error (.message "property paths are not allowed in a DATA block")

/-- What stands between the braces of a `GRAPH` block. -/
def groundGraphBlock (graph : Text) : Nat → Parse (List GroundTriple)
  | 0, _ => .error .outOfFuel
  | fuel + 1, c =>
    match c.peek with
    | .rbrace => .ok ([], c.bump)
    | .dot => groundGraphBlock graph fuel c.bump
    | .eof => .error (.message "unterminated GRAPH block")
    | _ => do
      let (here, c) ← parseGroundSubject (some graph) c
      let (further, c) ← groundGraphBlock graph fuel c
      return (here ++ further, c)

/-- `GRAPH <iri> { … }`, behind the keyword. -/
def parseGroundGraph : Parse (List GroundTriple) := fun c => do
  let (reference, c) ← parseGraphTerm c
  match reference with
  | .var name => .error (.variableGraph name)
  | .iri graph => do
    let c ← c.expect .lbrace "'\x7b'"
    groundGraphBlock graph (c.tokens.length + 1) c

/-- Bare triples go to the default graph, those of `GRAPH` blocks to the graph of the block. -/
def groundBlockLoop : Nat → Parse (List GroundTriple)
  | 0, _ => .error .outOfFuel
  | fuel + 1, c =>
    if c.peek = .rbrace then .ok ([], c.bump)
    else if c.peek = .dot then groundBlockLoop fuel c.bump
    else if c.atWord "GRAPH" then do
      let (here, c) ← parseGroundGraph c.bump
      let (further, c) ← groundBlockLoop fuel c
      return (here ++ further, c)
    else if c.peek = .eof then .error (.message "unexpected end of query in DATA block")
    else do
      let (here, c) ← parseGroundSubject none c
      let (further, c) ← groundBlockLoop fuel c
      return (here ++ further, c)

def parseGroundBlock : Parse (List GroundTriple) := fun c => do
  let c ← c.expect .lbrace "'\x7b'"
  groundBlockLoop (c.tokens.length + 1) c

/-! ## Operations -/

section Operations

variable (group : Parse GraphPattern)

/-- What follows the templates of a modification. -/
def parseWhere (delete insert : List TriplePattern) :
    Parse (UpdateOp (Modify GraphPattern)) := fun c => do
  let c ← skipUsingClauses (c.tokens.length + 1) c
  let c ← c.expectKeyword "WHERE"
  let (pattern, c) ← group c
  return (.modify { delete, insert, pattern }, c)

/-- Behind `INSERT`. -/
def parseInsert : Parse (UpdateOp (Modify GraphPattern)) := fun c =>
  let (data, c) := c.eatKeyword "DATA"
  if data then do
    let (triples, c) ← parseGroundBlock c
    return (.insertData triples, c)
  else do
    let (insert, c) ← parseTripleTemplateBlock c
    parseWhere group [] insert c

/-- Behind `DELETE`. -/
def parseDelete : Parse (UpdateOp (Modify GraphPattern)) := fun c =>
  let (data, c) := c.eatKeyword "DATA"
  if data then do
    let (triples, c) ← parseGroundBlock c
    return (.deleteData triples, c)
  else
    let (where_, c) := c.eatKeyword "WHERE"
    if where_ then do
      let (triples, c) ← parseTripleTemplateBlock c
      return (.modify { delete := triples, insert := [], pattern := .bgp triples }, c)
    else do
      let (delete, c) ← parseTripleTemplateBlock c
      let (insert_, c) := c.eatKeyword "INSERT"
      if insert_ then do
        let (insert, c) ← parseTripleTemplateBlock c
        parseWhere group delete insert c
      else parseWhere group delete [] c

/-- Behind `LOAD`; the graph after `INTO` is read and dropped. -/
def parseLoad : Parse (UpdateOp (Modify GraphPattern)) := fun c => do
  let (silent, c) := c.eatKeyword "SILENT"
  let (source, c) ← expectGraphIri c
  let (into, c) := c.eatKeyword "INTO"
  if into then do
    let c ← c.expectKeyword "GRAPH"
    let (_, c) ← expectGraphIri c
    return (.load source silent, c)
  else return (.load source silent, c)

/-- Behind `CLEAR` or `DROP`. -/
def parseTargeted (op : GraphTarget → Bool → UpdateOp (Modify GraphPattern)) :
    Parse (UpdateOp (Modify GraphPattern)) := fun c => do
  let (silent, c) := c.eatKeyword "SILENT"
  let (target, c) ← parseGraphTarget c
  return (op target silent, c)

/-- Behind `CREATE`. -/
def parseCreate : Parse (UpdateOp (Modify GraphPattern)) := fun c => do
  let (silent, c) := c.eatKeyword "SILENT"
  let c ← c.expectKeyword "GRAPH"
  let (name, c) ← expectGraphIri c
  return (.create name silent, c)

/-- `parse_update_op`; the graph of a `WITH` is read and dropped. -/
def parseUpdateOp : Nat → Parse (UpdateOp (Modify GraphPattern))
  | 0, _ => .error .outOfFuel
  | fuel + 1, c =>
    if c.atWord "INSERT" then parseInsert group c.bump
    else if c.atWord "DELETE" then parseDelete group c.bump
    else if c.atWord "WITH" then do
      let (_, c) ← expectGraphIri c.bump
      parseUpdateOp fuel c
    else if c.atWord "LOAD" then parseLoad c.bump
    else if c.atWord "CLEAR" then parseTargeted .clear c.bump
    else if c.atWord "DROP" then parseTargeted .drop c.bump
    else if c.atWord "CREATE" then parseCreate c.bump
    else .error (.unsupportedUpdate c.keyword)

/-- The operations of a request, each behind a prologue of its own. -/
def updateLoop : Nat → Parse (List (UpdateOp (Modify GraphPattern)))
  | 0, _ => .error .outOfFuel
  | fuel + 1, c => do
    let c ← parsePrologue (c.tokens.length + 1) c
    if c.peek = .eof then return ([], c)
    else do
      let (op, c) ← parseUpdateOp group (c.tokens.length + 1) c
      if c.peek = .semicolon then do
        let (further, c) ← updateLoop fuel c.bump
        return (op :: further, c)
      else return ([op], c)

def parseUpdateSequence : Parse (List (UpdateOp (Modify GraphPattern))) := fun c => do
  let (ops, c) ← updateLoop group (c.tokens.length + 1) c
  if ops.isEmpty then .error (.message "empty UPDATE request") else return (ops, c)

/-- `parse_request`, where the first keyword is that of an update. -/
def parseUpdateRequest (tokens : List Token) :
    Except SparqlError (List (UpdateOp (Modify GraphPattern))) := do
  let c ← parsePrologue (tokens.length + 1) { tokens, prefixes := [], base := none }
  let (ops, c) ← parseUpdateSequence group c
  let _ ← c.expect .eof "end of query"
  return ops

end Operations

end GStore.Parser.Sparql
