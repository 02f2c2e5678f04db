import GStore.Db.Engine
import GStore.Http.Users

/-! # The databases of the API server

`http_api.rs`: the named databases that an `ApiServer` keeps, with its open transactions, and
the endpoints that work on them. A database is reached through a handle, which a deferred query
may still hold when the name stands for another one. The result `none` is a panic. -/

namespace GStore.Http

open Db Reason

/-! ## Surroundings -/

/-- A parsed request; `α` is what an update modifies, `Read` any other query. -/
inductive Statement (α Read : Type) where
  | read (query : Read)
  | update (ops : List (UpdateOp α))

/-- What `save` writes of a database, but for the signature index. -/
structure Image where
  dict : Dict.Dictionary
  store : Store.TripleStore
  named : NamedGraphs

/-- Directories by path; one that does not load has the error of the attempt. -/
abbrev Disk := List (Text × Except Text Image)

def exportQuery : Text := "CONSTRUCT \x7b ?s ?p ?o \x7d WHERE \x7b ?s ?p ?o \x7d".toList

/-- The parsers, the query engine and the file system. -/
structure ApiHost (α Read Answer : Type) where
  /-- `sparql::parse`. -/
  parse : Text → Except Text (Statement α Read)
  /-- `Evaluator::evaluate`. -/
  evaluate : Session → Read → Except Text Answer
  modify : Dict.Dictionary → Store.TripleSource → α → List Triple × List Triple
  /-- `turtle::parse_file`. -/
  parseFile : Text → Except Text (List Triple)
  /-- `parse_file_by_ext`. -/
  parseFileByExt : Text → Except Text (List Triple)
  /-- `turtle::parse_str`. -/
  parseTurtle : Text → Except Text (List Triple)
  /-- The parsers of `parse_rdf`, by format. -/
  parseRdf : Text → Text → Except Text (List Triple)
  /-- The root directory of the server. -/
  root : Text
  /-- The directory that a path stands for. -/
  directory : Text → Text
  hashPassword : Text → UInt64 → UInt64
  /-- The query of an export is no update. -/
  exports : ∀ ops, parse exportQuery ≠ .ok (.update ops)

inductive QueryResult (Answer : Type) where
  | rows (answer : Answer)
  | update (changed : Nat)

variable {α Read Answer : Type}

namespace ApiHost

def updates (host : ApiHost α Read Answer) (ops : List (UpdateOp α)) : Host α where
  parse _ := .ok ops
  parseFile := host.parseFile
  modify := host.modify
  appendsUpdateLog := true

/-- `Database::query`. -/
def query (host : ApiHost α Read Answer) (s : Session) (sparql : Text) :
    Option (Except Text (QueryResult Answer) × Session) :=
  match host.parse sparql with
  | .error message => some (.error message, s)
  | .ok (.read query) => some ((host.evaluate s query).map .rows, s)
  | .ok (.update ops) =>
    (s.query (host.updates ops) sparql).map fun (outcome, s) =>
      ((outcome.map .update).mapError DbError.message, s)

def isUpdateSparql (host : ApiHost α Read Answer) (sparql : Text) : Bool :=
  match host.parse sparql with
  | .ok (.update _) => true
  | _ => false

def databaseDir (host : ApiHost α Read Answer) (name : Text) : Text :=
  host.directory (host.root ++ '/' :: name ++ ".db".toList)

end ApiHost

/-! ## Responses -/

/-- The body of a response; what the monitoring endpoints list is left out. -/
inductive Body (Answer : Type) where
  | message (text : Text)
  | error (text : Text)
  | result (result : QueryResult Answer)
  | batch (text : Text) (changed : Nat)
  | upload (name format : Text) (parsed inserted : Nat)
  | transaction (tid : Nat)
  | backup (path : Text)
  | graph (answer : Answer) (inline : Bool)
  | login (token user : Text) (privileges : Finset Privilege)
  | listing

structure Resp (Answer : Type) where
  status : Nat
  body : Body Answer

namespace Resp

def ok (message : Text) : Resp Answer := { status := 200, body := .message message }

def fail (status : Nat) (message : Text) : Resp Answer := { status, body := .message message }

/-- `render_result`, and the error of a query. -/
def ofQuery : Except Text (QueryResult Answer) → Resp Answer
  | .ok result => { status := 200, body := .result result }
  | .error message => { status := 400, body := .error message }

end Resp

/-! ## State -/

abbrev Handle := Nat

structure Txn where
  db : Text

structure Registry where
  /-- Loaded databases by name. -/
  dbs : List (Text × Handle)
  /-- Open transactions by id. -/
  txns : List (Nat × Txn)
  /-- The open transaction of a database, if any. -/
  dbTxn : List (Text × Nat)
  /-- The databases that handles point to. -/
  heap : List Session
  disk : Disk

/-- An answer with the registry that the request leaves. -/
abbrev Reply (Answer : Type) := Resp Answer × Registry

/-- What a request meets on the disk: whether the last write or removal fails, and what it
leaves then. -/
abbrev Io := Option (Text × Except Text Image)

namespace Registry

def empty (disk : Disk) : Registry := { dbs := [], txns := [], dbTxn := [], heap := [], disk }

/-- The database of a handle. -/
def database (registry : Registry) (name : Text) : Option (Handle × Session) := do
  let handle ← registry.dbs.lookup name
  let session ← registry.heap[handle]?
  return (handle, session)

def put (registry : Registry) (handle : Handle) (session : Session) : Registry :=
  { registry with heap := registry.heap.set handle session }

/-- Bind a name to a new database. -/
def install (registry : Registry) (name : Text) (session : Session) : Registry :=
  { registry with
    dbs := assocInsert name registry.heap.length registry.dbs
    heap := registry.heap ++ [session] }

def image (session : Session) : Image :=
  { dict := session.dict, store := session.store, named := session.named }

/-- `Database::load`. -/
def ofImage (image : Image) : Session :=
  { Session.new false false with dict := image.dict, store := image.store, named := image.named }

/-- `Database::save`. -/
def save (registry : Registry) (path : Text) (session : Session) (io : Io) :
    Except Text Unit × Registry :=
  match io with
  | none => (.ok (), { registry with disk := assocInsert path (.ok (image session)) registry.disk })
  | some (message, left) => (.error message, { registry with disk := assocInsert path left registry.disk })

/-! ## Parameters -/

def validDbName (name : Text) : Bool :=
  name ≠ [] && (utf8 name).length ≤ 64 &&
    name.all fun char => char.isAlphanum || char == '_' || char == '-'

/-- A name that is given, or the only loaded one. -/
def pickDb (registry : Registry) (request : Request) : Option Text :=
  match (request.param "db_name").orElse fun _ => request.param "db" with
  | some name => if validDbName name then some name else none
  | none =>
    match registry.dbs with
    | [entry] => some entry.1
    | _ => none

def reqDbName (request : Request) : Option Text :=
  ((request.param "db_name").orElse fun _ =>
    (request.param "name").orElse fun _ => request.param "db").filter validDbName

def txnId (request : Request) : Option Nat :=
  ((request.param "tid").orElse fun _ => request.param "txn").bind fun text =>
    Request.parseUsize (trim text)

/-- The number drawn, or one that is free when it is taken. -/
def newId (drawn : Nat) (taken : List Nat) : Nat :=
  if drawn ∈ taken then taken.foldl max 0 + 1 else drawn

def missingName : Text := "missing or invalid db_name".toList

def missingDb : Text := "missing or ambiguous db parameter".toList

def busy : Text := "database is busy in a transaction".toList

def notLoaded (name : Text) : Text := UserStore.quoted "database " name " is not loaded"

/-! ## Lifecycle -/

section Handlers

variable (host : ApiHost α Read Answer) (io : Io) (request : Request) (registry : Registry)

/-- The triples of `/build`: a file on the server, or the body. -/
def buildSource : Except Text (List Triple) :=
  match (request.param "db_path").orElse fun _ => request.param "path" with
  | some path => host.parseFileByExt path
  | none => host.parseTurtle request.bodyStr

def handleBuild : Option (Reply Answer) :=
  match reqDbName request with
  | none => some (.fail 400 missingName, registry)
  | some name =>
    if (registry.dbTxn.lookup name).isSome then some (.fail 409 busy, registry)
    else
      match buildSource host request with
      | .error message => some (.fail 400 ("build failed: ".toList ++ message), registry)
      | .ok triples =>
        (Session.build triples).map fun session =>
          match registry.save (host.databaseDir name) session io with
          | (.error message, registry) =>
            (.fail 500 ("save failed: ".toList ++ message), registry)
          | (.ok (), registry) =>
            (.ok (UserStore.quoted "database " name " built"), registry.install name session)

def handleLoad : Reply Answer :=
  match reqDbName request with
  | none => (.fail 400 missingName, registry)
  | some name =>
    match registry.disk.lookup (host.databaseDir name) with
    | none => (.fail 404 (UserStore.quoted "database " name " not found on disk"), registry)
    | some (.error message) => (.fail 500 ("load failed: ".toList ++ message), registry)
    | some (.ok image) =>
      (.ok (UserStore.quoted "database " name " loaded"),
        registry.install name (ofImage image))

def uploadFormat : Text :=
  match request.param "format" with
  | some format => Request.toAsciiLower (trim format)
  | none =>
    match request.header "content-type".toList with
    | none => "turtle".toList
    | some value =>
      let media := String.ofList
        (Request.toAsciiLower (trim (value.takeWhile (· != ';'))))
      if media = "application/n-triples" then "ntriples".toList
      else if media = "application/n-quads" then "nquads".toList
      else if media = "application/rdf+xml" then "rdfxml".toList
      else if media = "application/trig" then "trig".toList
      else "turtle".toList

/-- The database that `/upload` adds to: a loaded one, one on disk, or an empty one. -/
def openForUpload (name : Text) : Option (Except Text Registry) :=
  if (registry.dbs.lookup name).isSome then some (.ok registry)
  else
    match registry.disk.lookup (host.databaseDir name) with
    | some (.error message) => some (.error message)
    | some (.ok image) => some (.ok (registry.install name (ofImage image)))
    | none =>
      match host.parseTurtle [] with
      | .error message => some (.error message)
      | .ok triples => (Session.build triples).map fun session => .ok (registry.install name session)

def handleUpload : Option (Reply Answer) :=
  match reqDbName request with
  | none => some (.fail 400 missingName, registry)
  | some name =>
    if (registry.dbTxn.lookup name).isSome then some (.fail 409 busy, registry)
    else
      let format := uploadFormat request
      match host.parseRdf format request.bodyStr with
      | .error message => some (.fail 400 ("upload parse failed (".toList ++ format ++
          "): ".toList ++ message), registry)
      | .ok triples => do
        match ← openForUpload host registry name with
        | .error message => return (.fail 500
            ("upload failed to open database: ".toList ++ message), registry)
        | .ok registry =>
          let (handle, session) ← registry.database name
          let (session, inserted) ← session.insertAll (triples.map Session.inDefault)
          return ({ status := 200, body := .upload name format triples.length inserted },
            registry.put handle session)

def handleUnload : Reply Answer :=
  match reqDbName request with
  | none => (.fail 400 missingName, registry)
  | some name =>
    if (registry.dbTxn.lookup name).isSome then (.fail 409 busy, registry)
    else if (registry.dbs.lookup name).isNone then (.fail 404 (notLoaded name), registry)
    else (.ok (UserStore.quoted "database " name " unloaded"),
      { registry with dbs := assocErase name registry.dbs })

def handleDrop : Reply Answer :=
  match reqDbName request with
  | none => (.fail 400 missingName, registry)
  | some name =>
    if (registry.dbTxn.lookup name).isSome then (.fail 409 busy, registry)
    else
      let unloaded := { registry with dbs := assocErase name registry.dbs }
      if (registry.disk.lookup (host.databaseDir name)).isNone then
        if (registry.dbs.lookup name).isNone then
          (.fail 404 (UserStore.quoted "database " name " does not exist"), unloaded)
        else (.ok (UserStore.quoted "database " name " dropped"), unloaded)
      else
        match io with
        | none => (.ok (UserStore.quoted "database " name " dropped"),
            { unloaded with disk := assocErase (host.databaseDir name) registry.disk })
        | some (message, left) => (.fail 500 ("drop failed: ".toList ++ message),
            { unloaded with disk := assocInsert (host.databaseDir name) left registry.disk })

def handleRestore : Reply Answer :=
  match reqDbName request with
  | none => (.fail 400 missingName, registry)
  | some name =>
    match (request.param "path").orElse fun _ => request.param "backup_path" with
    | none => (.fail 400 "missing backup path".toList, registry)
    | some path =>
      if (registry.dbTxn.lookup name).isSome then (.fail 409 busy, registry)
      else
        match registry.disk.lookup (host.directory path) with
        | none => (.fail 500 "restore failed: no such directory".toList, registry)
        | some (.error message) => (.fail 500 ("restore failed: ".toList ++ message), registry)
        | some (.ok image) =>
          match registry.save (host.databaseDir name) (ofImage image) io with
          | (.error message, registry) =>
            (.fail 500 ("restore persist failed: ".toList ++ message), registry)
          | (.ok (), registry) =>
            (.ok (UserStore.quoted "database " name " restored"),
              registry.install name (ofImage image))

/-! ## Transactions -/

def handleBegin (draws : Draws) : Reply Answer :=
  match pickDb registry request with
  | none => (.fail 400 missingDb, registry)
  | some name =>
    match registry.database name with
    | none => (.fail 404 (notLoaded name), registry)
    | some (handle, session) =>
      if (registry.dbTxn.lookup name).isSome then
        (.fail 409 "a transaction is already open on this database".toList, registry)
      else
        match session.begin with
        | (.error error, _) => (.fail 500 ("begin failed: ".toList ++ error.message), registry)
        | (.ok (), session) =>
          let tid := newId draws.id (registry.txns.map Prod.fst)
          ({ status := 200, body := .transaction tid },
            { registry.put handle session with
              txns := assocInsert tid { db := name } registry.txns
              dbTxn := assocInsert name tid registry.dbTxn })

/-- The text of a statement of `/tquery`. -/
def tqueryText : Option Text :=
  (request.param "sparql").orElse fun _ => request.queryString.orElse fun _ =>
    if trim request.bodyStr = [] then none else some request.bodyStr

/-- The statement of a transaction runs at once. -/
def runInTxn (name sparql : Text) : Option (Reply Answer) :=
  match registry.database name with
  | none => some (.fail 404 (notLoaded name), registry)
  | some (handle, session) =>
    (host.query session sparql).map fun (outcome, session) =>
      (.ofQuery outcome, registry.put handle session)

def endTxn (commit : Bool) (session : Session) : Outcome Unit :=
  if commit then session.commit else session.rollback

def handleTxnEnd (commit : Bool) : Reply Answer :=
  let verb : Text := if commit then "commit".toList else "rollback".toList
  match txnId request with
  | none => (.fail 400 "missing or malformed tid/txn parameter".toList, registry)
  | some tid =>
    match registry.txns.lookup tid with
    | none => (.fail 404 ("no open transaction ".toList ++ Nat.toDigits 10 tid), registry)
    | some txn =>
      let closed : Registry := { registry with
        txns := assocErase tid registry.txns
        dbTxn := assocErase txn.db registry.dbTxn }
      match registry.database txn.db with
      | none => (.fail 404 (notLoaded txn.db), closed)
      | some (handle, session) =>
        match endTxn commit session with
        | (.ok (), session) =>
          (.ok ("transaction ".toList ++ Nat.toDigits 10 tid ++ ' ' :: verb ++
            " done".toList), closed.put handle session)
        | (.error error, session) =>
          (.fail 500 (verb ++ " failed: ".toList ++ error.message),
            closed.put handle session)

def handleCheckpoint : Reply Answer :=
  match pickDb registry request with
  | none => (.fail 400 missingDb, registry)
  | some name =>
    match registry.database name with
    | none => (.fail 404 (notLoaded name), registry)
    | some (_, session) =>
      match registry.save (host.databaseDir name) session io with
      | (.ok (), registry) =>
        (.ok (UserStore.quoted "database " name " checkpointed"), registry)
      | (.error message, registry) =>
        (.fail 500 ("checkpoint failed: ".toList ++ message), registry)

/-- Where `/backup` writes. -/
def backupPath (name : Text) : Text :=
  ((request.param "path").orElse fun _ => request.param "backup_path").getD
    (host.root ++ '/' :: name ++ ".backup".toList)

def handleBackup : Reply Answer :=
  match pickDb registry request with
  | none => (.fail 400 missingDb, registry)
  | some name =>
    match registry.database name with
    | none => (.fail 404 (notLoaded name), registry)
    | some (_, session) =>
      let path := backupPath host request name
      match registry.save (host.directory path) session io with
      | (.ok (), registry) => ({ status := 200, body := .backup path }, registry)
      | (.error message, registry) =>
        (.fail 500 ("backup failed: ".toList ++ message), registry)

/-- Whether an export is rendered inline: a falsy `download`. -/
def wantsInline : Bool :=
  match (request.param "download").map String.ofList with
  | some value => value = "0" || value = "false" || value = "no" || value = "off"
  | none => false

def handleExport : Option (Reply Answer) :=
  match pickDb registry request with
  | none => some (.fail 400 missingDb, registry)
  | some name =>
    match registry.database name with
    | none => some (.fail 404 (notLoaded name), registry)
    | some (handle, session) =>
      (host.query session exportQuery).map fun (outcome, session) =>
        let resp : Resp Answer := match outcome with
          | .ok (.rows answer) =>
            { status := 200, body := .graph answer (wantsInline request) }
          | .ok (.update _) => .fail 500 "export produced an unexpected result".toList
          | .error message => .fail 500 ("export failed: ".toList ++ message)
        (resp, registry.put handle session)

/-- The triples of a batch in a `DATA` block. -/
def batchStatement (insert : Bool) (triples : Text) : Text :=
  (if insert then "INSERT DATA \x7b ".toList else "DELETE DATA \x7b ".toList) ++ triples ++ " \x7d".toList

def handleBatch (insert : Bool) : Option (Reply Answer) :=
  match pickDb registry request with
  | none => some (.fail 400 missingDb, registry)
  | some name =>
    let triples := trim ((request.param "triples").getD request.bodyStr)
    if triples = [] then some (.fail 400 "no triples supplied".toList, registry)
    else
      match registry.database name with
      | none => some (.fail 404 (notLoaded name), registry)
      | some (handle, session) =>
        (host.query session (batchStatement insert triples)).map fun (outcome, session) =>
          let message := if insert then "batch inserted".toList else "batch removed".toList
          let resp : Resp Answer := match outcome with
            | .ok (.update changed) => { status := 200, body := .batch message changed }
            | .ok (.rows _) => .fail 400 "batch statement did not produce an update".toList
            | .error message => .fail 400 ("batch failed: ".toList ++ message)
          (resp, registry.put handle session)

end Handlers

end Registry

end GStore.Http
