import GStore.Db.Session
import GStore.Parser.Turtle
import GStore.Query.Template

/-! # What a database asks

The requests of a database with the parser and the templates that answer them in
the source. The SPARQL parser, the files and the solutions of a pattern are left
open. -/

namespace GStore.Db

open Dict GStore.Parser Query Reason Store

/-- What the solutions of a pattern are sought in. -/
structure Evaluator (Function : Type) where
  dict : Dictionary
  store : TripleSource
  named : Option NamedGraphs
  functions : List (Text × Function)

structure Engine (Pattern Function : Type) where
  unicode : Alphanumeric
  parse : Text → Except Text (List (UpdateOp (Modify Pattern)))
  /-- `fs::read_to_string`. -/
  readFile : Text → Except Text Text
  /-- The depth at which the model of the Turtle parser gives up. -/
  fuel : Nat
  /-- The text of an error of the Turtle parser. -/
  describe : Nat × Problem → Text
  /-- `eval_pattern`, over the layout that the pattern has. -/
  solve : Evaluator Function → Pattern → Solutions
  appendsUpdateLog : Bool

variable {Pattern Function : Type}

namespace Engine

/-- `turtle::parse_file`. -/
def parseFile (engine : Engine Pattern Function) (path : Text) : Except Text (List Triple) :=
  match engine.readFile path with
  | .error message => .error message
  | .ok content =>
    match Turtle.parseStr engine.unicode engine.fuel content with
    | .error problem => .error (engine.describe problem)
    | .ok triples => .ok triples

/-- The solutions of the pattern of a modification: named graphs and functions
are not handed on. -/
def solveUpdate (engine : Engine Pattern Function) (dict : Dictionary) (store : TripleSource)
    (pattern : Pattern) : Solutions :=
  engine.solve { dict, store, named := none, functions := [] } pattern

def host (engine : Engine Pattern Function) : Host (Modify Pattern) where
  parse := engine.parse
  parseFile := engine.parseFile
  modify dict store request :=
    evalUpdateModify dict engine.unicode (engine.solveUpdate dict store request.pattern) request
  appendsUpdateLog := engine.appendsUpdateLog

theorem predicate_of_parseFile {engine : Engine Pattern Function} {path : Text}
    {triples : List Triple} (parsed : engine.parseFile path = .ok triples) :
    ∀ triple ∈ triples, triple.predicate.isLiteral = false := by
  rw [parseFile] at parsed
  split at parsed
  · cases parsed
  · split at parsed
    · cases parsed
    · rename_i read
      cases parsed
      exact Turtle.predicate_of_parseStr read

end Engine

/-! ## Builds -/

inductive Document where
  | turtle (content : Text)
  | ntriples (content : Text)

/-- The triples of a document that its parser accepts. -/
def Document.triples (unicode : Alphanumeric) (fuel : Nat) : Document → Option (List Triple)
  | .turtle content => (Turtle.parseStr unicode fuel content).toOption
  | .ntriples content => (NTriples.parseStr unicode content).toOption

def encodeAll : Dictionary → List Triple → Option (Dictionary × List IdTriple)
  | dict, [] => some (dict, [])
  | dict, triple :: rest => do
    let (dict, id) ← dict.encodeTriple triple
    let (dict, ids) ← encodeAll dict rest
    return (dict, id :: ids)

/-- `build_from_str`, `build_from_ntriples_str_parallel`: encode, then load in
bulk. -/
def Session.build (triples : List Triple) : Option Session :=
  (encodeAll .empty triples).map fun (dict, ids) =>
    { Session.new false false with dict, store := TripleStore.new.bulkLoad ids }

/-! ## Calls -/

/-- What a client calls. -/
inductive Call (Pattern Function : Type) where
  | request (engine : Engine Pattern Function) (sparql : Text)
  | insertTriple (triple : Triple)
  | removeTriple (triple : Triple)
  | materializeRdfs
  | runRules (fuel : Nat) (rules : List Rule)
  | reclaimUnused

def Call.mutation : Call Pattern Function → Mutation (Modify Pattern)
  | .request engine sparql => .request engine.host sparql
  | .insertTriple triple => .insertTriple triple
  | .removeTriple triple => .removeTriple triple
  | .materializeRdfs => .materializeRdfs
  | .runRules fuel rules => .runRules fuel rules
  | .reclaimUnused => .reclaimUnused

end GStore.Db
