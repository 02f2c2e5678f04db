import GStore.Db.Database
import GStore.Dict.Reclaim
import GStore.Foundation.UndoLog
import GStore.Reason.Closure
import GStore.Reason.Rules

/-! # The database with its transaction and its logs

`db/mod.rs`: the mutations of a database, the undo log of its transaction and
the records of its redo and update logs. The signature index, the query cache
and the functions are left out: no mutation reads them. A file that cannot be
appended to is met in the update log only. The result `none` is a panic, or rules
that never come to rest. -/

namespace GStore.Db

open Dict Reason Store

/-! ## State -/

/-- Named graphs: graph-IRI entity id to its triple store. -/
abbrev NamedGraphs := Std.TreeMap UInt32 TripleStore

/-- The action that reverses a triple mutation, in a graph (`none` = default). -/
abbrev UndoOp := UndoEntry (Option UInt32) IdTriple

inductive RedoOp where
  | insert
  | delete
deriving DecidableEq

/-- One redo record; the triple is its N-Triples text. -/
structure RedoRec where
  op : RedoOp
  graph : Option Text
  triple : Text
deriving DecidableEq

/-- One record of the update log, without its time stamp. -/
structure UpdateRec where
  changed : Nat
  statement : Text

structure Session where
  dict : Dictionary
  store : TripleStore
  named : NamedGraphs
  /-- The undo log of the active transaction, oldest entry first. -/
  txn : Option (List UndoOp)
  /-- What the redo log file holds while redo logging is on. -/
  redoLog : Option (List RedoRec)
  redoPending : List RedoRec
  /-- What the update log file holds while update logging is on. -/
  updateLog : Option (List UpdateRec)

inductive DbError where
  | transactionActive
  | noTransaction
  | remoteSource (source : Text)
  | parse (message : Text)
  | appendUpdateLog
deriving DecidableEq

def DbError.message : DbError → Text
  | .transactionActive => "a transaction is already active".toList
  | .noTransaction => "no active transaction".toList
  | .remoteSource source => "LOAD of remote source '".toList ++ source ++
      "' is not supported (no network); use a local file path or file:// IRI".toList
  | .parse message => message
  | .appendUpdateLog => "append to the update log".toList

/-- An answer, and the state that the call leaves. -/
abbrev Outcome (α : Type) := Except DbError α × Session

structure GroundTriple where
  triple : Triple
  graph : Option Text

inductive GraphTarget where
  | default
  | named (name : Text)
  | all

/-- An update operation; `α` is the templates and the pattern of a modification. -/
inductive UpdateOp (α : Type) where
  | insertData (triples : List GroundTriple)
  | deleteData (triples : List GroundTriple)
  | modify (request : α)
  | load (source : Text) (silent : Bool)
  | clear (target : GraphTarget) (silent : Bool)
  | drop (target : GraphTarget) (silent : Bool)
  | create (name : Text) (silent : Bool)

/-- What the parsers, the query engine and the file system answer. -/
structure Host (α : Type) where
  /-- `sparql::parse`, for an update request. -/
  parse : Text → Except Text (List (UpdateOp α))
  /-- `turtle::parse_file`. -/
  parseFile : Text → Except Text (List Triple)
  /-- `Evaluator::eval_update_modify`: the triples to delete and to insert. -/
  modify : Dictionary → TripleSource → α → List Triple × List Triple
  /-- Whether the update log can be appended to. -/
  appendsUpdateLog : Bool

namespace Session

/-- The state of an open database that logs to empty files. -/
def new (redo update : Bool) : Session where
  dict := .empty
  store := .new
  named := ∅
  txn := none
  redoLog := if redo then some [] else none
  redoPending := []
  updateLog := if update then some [] else none

/-! ## Logs -/

/-- Strip a leading `<` and a trailing `>`. -/
def stripAngle (text : Text) : Text := (stripBrackets text).getD text

/-- The text `s p o .` of a triple all of whose ids are known. -/
def tripleText (dict : Dictionary) (id : IdTriple) : Option Text :=
  match dict.idToString id.sub, dict.predicateToString id.pred, dict.idToString id.obj with
  | some sub, some pred, some obj => some (sub ++ ' ' :: pred ++ ' ' :: obj ++ [' ', '.'])
  | _, _, _ => none

/-- `log.push`, inside a transaction. -/
def pushUndo (s : Session) (ops : List UndoOp) : Session :=
  { s with txn := s.txn.map (· ++ ops) }

def flushRedo (s : Session) : Session :=
  { s with redoLog := s.redoLog.map (· ++ s.redoPending), redoPending := [] }

/-- Record one mutation: written through in auto-commit mode, buffered inside a
transaction. -/
def recordRedo (s : Session) (op : RedoOp) (graph : Option UInt32) (id : IdTriple) : Session :=
  if s.redoLog.isNone then s
  else
    match tripleText s.dict id with
    | none => s
    | some triple =>
      let graph := (graph.bind s.dict.idToString).map stripAngle
      let recorded := { s with redoPending := s.redoPending ++ [{ op, graph, triple }] }
      if s.txn.isNone then recorded.flushRedo else recorded

section Logs

variable {s : Session} {op : RedoOp} {graph : Option UInt32} {id : IdTriple}

/-- Inside a transaction the log file stays as it is; outside, nothing is pending. -/
theorem recordRedo_cases (s : Session) (op : RedoOp) (graph : Option UInt32) (id : IdTriple) :
    ∃ redoLog redoPending, s.recordRedo op graph id = { s with redoLog, redoPending } ∧
      (s.txn.isSome → redoLog = s.redoLog) ∧
      (s.txn = none → s.redoPending = [] → redoPending = []) := by
  rw [recordRedo]
  split
  · exact ⟨_, _, rfl, fun _ => rfl, fun _ quiet => quiet⟩
  · split
    · exact ⟨_, _, rfl, fun _ => rfl, fun _ quiet => quiet⟩
    · dsimp only
      split
      · rename_i auto
        refine ⟨_, _, rfl, ?_, fun _ _ => rfl⟩
        intro active
        rw [Option.isNone_iff_eq_none.mp auto] at active
        cases active
      · rename_i active
        refine ⟨_, _, rfl, fun _ => rfl, ?_⟩
        intro auto
        rw [auto] at active
        exact absurd rfl active

@[simp] theorem recordRedo_dict : (s.recordRedo op graph id).dict = s.dict := by
  rcases recordRedo_cases s op graph id with ⟨_, _, same, -⟩
  rw [same]

@[simp] theorem recordRedo_store : (s.recordRedo op graph id).store = s.store := by
  rcases recordRedo_cases s op graph id with ⟨_, _, same, -⟩
  rw [same]

@[simp] theorem recordRedo_named : (s.recordRedo op graph id).named = s.named := by
  rcases recordRedo_cases s op graph id with ⟨_, _, same, -⟩
  rw [same]

@[simp] theorem recordRedo_txn : (s.recordRedo op graph id).txn = s.txn := by
  rcases recordRedo_cases s op graph id with ⟨_, _, same, -⟩
  rw [same]

theorem recordRedo_redoLog (active : s.txn.isSome) :
    (s.recordRedo op graph id).redoLog = s.redoLog := by
  rcases recordRedo_cases s op graph id with ⟨_, _, same, kept, -⟩
  rw [same]
  exact kept active

theorem recordRedo_pending (auto : s.txn = none) (quiet : s.redoPending = []) :
    (s.recordRedo op graph id).redoPending = [] := by
  rcases recordRedo_cases s op graph id with ⟨_, _, same, -, none⟩
  rw [same]
  exact none auto quiet

end Logs

/-! ## Mutations -/

def insertTriple (s : Session) (triple : Triple) : Option (Session × Bool) :=
  (s.dict.encodeTriple triple).map fun (dict, id) =>
    let inserted := s.store.insert id
    let after := { s with dict, store := inserted.1 }
    if inserted.2 then ((after.pushUndo [.del none id]).recordRedo .insert none id, true)
    else (after, false)

def removeTriple (s : Session) (triple : Triple) : Session × Bool :=
  match s.dict.lookup triple with
  | none => (s, false)
  | some id =>
    let removed := s.store.remove id
    let after := { s with store := removed.1 }
    if removed.2 then ((after.pushUndo [.add none id]).recordRedo .delete none id, true)
    else (after, false)

def insertQuad (s : Session) (triple : Triple) : Option Text → Option (Session × Bool)
  | none => s.insertTriple triple
  | some graph => do
    let (dict, gid) ← s.dict.internEntity (Term.iri graph).dictKey
    let (dict, id) ← dict.encodeTriple triple
    let inserted := (s.named.getD gid TripleStore.new).insert id
    let after := { s with dict, named := s.named.insert gid inserted.1 }
    if inserted.2 then
      return ((after.pushUndo [.del (some gid) id]).recordRedo .insert (some gid) id, true)
    else return (after, false)

def deleteQuad (s : Session) (triple : Triple) : Option Text → Session × Bool
  | none => s.removeTriple triple
  | some graph =>
    match s.dict.entityId (Term.iri graph).dictKey, s.dict.lookup triple with
    | some gid, some id =>
      match s.named[gid]? with
      | none => (s, false)
      | some held =>
        let removed := held.remove id
        let after := { s with named := s.named.insert gid removed.1 }
        if removed.2 then
          ((after.pushUndo [.add (some gid) id]).recordRedo .delete (some gid) id, true)
        else (after, false)
    | _, _ => (s, false)

/-- Insert in order, and count the triples that were new. -/
def insertAll : Session → List GroundTriple → Option (Session × Nat)
  | s, [] => some (s, 0)
  | s, ground :: rest => do
    let (s, changed) ← s.insertQuad ground.triple ground.graph
    let (s, count) ← insertAll s rest
    return (s, if changed then count + 1 else count)

/-- Remove in order, and count the triples that were there. -/
def deleteAll : Session → List GroundTriple → Session × Nat
  | s, [] => (s, 0)
  | s, ground :: rest =>
    let (s, changed) := s.deleteQuad ground.triple ground.graph
    let (s, count) := deleteAll s rest
    (s, if changed then count + 1 else count)

/-- A triple of the default graph. -/
def inDefault (triple : Triple) : GroundTriple := { triple, graph := none }

/-- The triples that a reasoner added, recorded for rollback. -/
def recordInferred (s : Session) (added : List IdTriple) : Session :=
  if added = [] then s else s.pushUndo (added.map (.del none))

def materializeRdfs (s : Session) : Option (Session × Nat) :=
  (materialize s.dict s.store).map fun (dict, store, added) =>
    ({ s with dict, store }.recordInferred added, added.length)

def runRules (s : Session) (fuel : Nat) (rules : List Rule) : Option (Session × Nat) :=
  (applyRuleSet fuel rules s.dict s.store).map fun (_, run) =>
    ({ s with dict := run.dict, store := run.store }.recordInferred run.added, run.added.length)

def clearDefault (s : Session) : Session × Nat :=
  let count := s.store.tripleCount
  if 0 < count then
    ({ s with store := .new }.pushUndo (s.store.iterAll.map (.add none)), count)
  else (s, count)

def clearNamed (s : Session) (graph : Text) : Session × Nat :=
  match s.dict.entityId (Term.iri graph).dictKey with
  | none => (s, 0)
  | some gid =>
    let held := s.named.getD gid TripleStore.new
    let count := held.tripleCount
    if 0 < count then
      ({ s with named := s.named.erase gid }.pushUndo (held.iterAll.map (.add (some gid))), count)
    else (s, count)

/-- The undo entries of every named graph, in the order of the map. -/
def namedUndo (named : NamedGraphs) : List UndoOp :=
  named.toList.flatMap fun graph => graph.2.iterAll.map (.add (some graph.1))

def clearAllNamed (s : Session) : Session × Nat :=
  let total := (s.named.toList.map fun graph => graph.2.tripleCount).sum
  if 0 < total then ({ s with named := ∅ }.pushUndo (namedUndo s.named), total) else (s, total)

/-- The ids of subjects and objects, and of named graphs. -/
def usedEntLit (s : Session) (id : UInt32) : Bool :=
  s.store.subjectKeys.contains id || s.store.objectKeys.contains id ||
    s.named.toList.any fun graph => graph.1 == id || graph.2.subjectKeys.contains id ||
      graph.2.objectKeys.contains id

def usedPred (s : Session) (id : UInt32) : Bool :=
  s.store.predicates.contains id ||
    s.named.toList.any fun graph => graph.2.predicates.contains id

def reclaimUnused (s : Session) : Session × Nat :=
  let reclaimed := s.dict.reclaimUnused s.usedEntLit s.usedPred
  ({ s with dict := reclaimed.1 }, reclaimed.2)

/-! ## Transactions -/

def begin (s : Session) : Outcome Unit :=
  match s.txn with
  | some _ => (.error .transactionActive, s)
  | none => (.ok (), { s with txn := some [] })

def commit (s : Session) : Outcome Unit :=
  match s.txn with
  | none => (.error .noTransaction, s)
  | some _ => (.ok (), { s with txn := none }.flushRedo)

/-- Undo one logged mutation. -/
def undo (s : Session) : UndoOp → Session
  | .add none id => { s with store := (s.store.insert id).1 }
  | .del none id => { s with store := (s.store.remove id).1 }
  | .add (some gid) id =>
    { s with named := s.named.insert gid ((s.named.getD gid TripleStore.new).insert id).1 }
  | .del (some gid) id =>
    match s.named[gid]? with
    | some held => { s with named := s.named.insert gid (held.remove id).1 }
    | none => s

def rollback (s : Session) : Outcome Unit :=
  match s.txn with
  | none => (.error .noTransaction, s)
  | some log => (.ok (), log.reverse.foldl undo { s with txn := none, redoPending := [] })

/-! ## Update requests -/

def isRemote (source : Text) : Bool :=
  "http://".toList.isPrefixOf source || "https://".toList.isPrefixOf source

/-- A `file://` IRI or a bare path. -/
def localPath (source : Text) : Text :=
  if "file://".toList.isPrefixOf source then source.drop 7 else source

/-- `load_rdf_source`. -/
def loadRdfSource {α : Type} (host : Host α) (s : Session) (source : Text) :
    Option (Outcome Nat) :=
  if isRemote source then some (.error (.remoteSource source), s)
  else
    match host.parseFile (localPath source) with
    | .error message => some (.error (.parse message), s)
    | .ok triples =>
      (s.insertAll (triples.map inDefault)).map fun (s, count) => (.ok count, s)

def clearTarget (s : Session) : GraphTarget → Session × Nat
  | .default => s.clearDefault
  | .all =>
    let (s, default) := s.clearDefault
    let (s, named) := s.clearAllNamed
    (s, default + named)
  | .named name => if name = [] then s.clearAllNamed else s.clearNamed name

/-- Deletes before inserts. -/
def applyModify (s : Session) (dels ins : List Triple) : Option (Outcome Nat) := do
  let (s, deleted) := s.deleteAll (dels.map inDefault)
  let (s, inserted) ← s.insertAll (ins.map inDefault)
  return (.ok (deleted + inserted), s)

def execUpdateOp {α : Type} (host : Host α) (s : Session) : UpdateOp α → Option (Outcome Nat)
  | .insertData triples => (s.insertAll triples).map fun (s, count) => (.ok count, s)
  | .deleteData triples =>
    let (s, count) := s.deleteAll triples
    some (.ok count, s)
  | .modify request =>
    let answer := host.modify s.dict s.store.source request
    s.applyModify answer.1 answer.2
  | .load source silent => do
    match ← s.loadRdfSource host source with
    | (.ok count, s) => return (.ok count, s)
    | (.error error, s) => return (if silent then .ok 0 else .error error, s)
  | .clear target _ | .drop target _ =>
    let (s, count) := s.clearTarget target
    some (.ok count, s)
  | .create _ _ => some (.ok 0, s)

/-- The operations in order, up to the first that fails. -/
def execOps {α : Type} (host : Host α) : Session → List (UpdateOp α) → Option (Outcome Nat)
  | s, [] => some (.ok 0, s)
  | s, op :: rest => do
    match ← s.execUpdateOp host op with
    | (.error error, s) => return (.error error, s)
    | (.ok changed, s) =>
      match ← execOps host s rest with
      | (.error error, s) => return (.error error, s)
      | (.ok further, s) => return (.ok (changed + further), s)

section Operations

variable {α : Type} {host : Host α} {s after : Session} {outcome : Except DbError Nat}

theorem insertAll_cons {ground : GroundTriple} {rest : List GroundTriple} {count : Nat}
    (ran : s.insertAll (ground :: rest) = some (after, count)) :
    ∃ middle changed further, s.insertQuad ground.triple ground.graph = some (middle, changed) ∧
      middle.insertAll rest = some (after, further) := by
  simp only [insertAll, Option.bind_eq_bind, Option.bind_eq_some_iff, Prod.exists] at ran
  rcases ran with ⟨middle, changed, inserted, last, further, later, result⟩
  cases result
  exact ⟨middle, changed, further, inserted, later⟩

/-- The quads that an operation deletes. -/
def deletes (host : Host α) (s : Session) : UpdateOp α → List GroundTriple
  | .deleteData triples => triples
  | .modify request => (host.modify s.dict s.store.source request).1.map inDefault
  | _ => []

/-- The quads that it inserts after that; those of a file that can be read. -/
def inserts (host : Host α) (s : Session) : UpdateOp α → List GroundTriple
  | .insertData triples => triples
  | .modify request => (host.modify s.dict s.store.source request).2.map inDefault
  | .load source _ =>
    if isRemote source then []
    else ((host.parseFile (localPath source)).toOption.getD []).map inDefault
  | _ => []

def clears : UpdateOp α → Bool
  | .clear _ _ | .drop _ _ => true
  | _ => false

/-- An operation clears, or it deletes and then inserts. -/
theorem execUpdateOp_cases {op : UpdateOp α}
    (ran : s.execUpdateOp host op = some (outcome, after)) :
    (∃ target silent, (op = .clear target silent ∨ op = .drop target silent) ∧
      after = (s.clearTarget target).1) ∨
    clears op = false ∧ ∃ count,
      (s.deleteAll (s.deletes host op)).1.insertAll (s.inserts host op) = some (after, count) := by
  cases op with
  | insertData triples =>
    rcases Option.map_eq_some_iff.mp ran with ⟨⟨last, count⟩, inserted, result⟩
    cases result
    exact .inr ⟨rfl, count, inserted⟩
  | deleteData triples =>
    cases ran
    exact .inr ⟨rfl, 0, rfl⟩
  | modify request =>
    simp only [execUpdateOp, applyModify, Option.bind_eq_bind, Option.bind_eq_some_iff,
      Prod.exists] at ran
    rcases ran with ⟨last, count, added, result⟩
    cases result
    exact .inr ⟨rfl, count, added⟩
  | load source silent =>
    simp only [execUpdateOp, Option.bind_eq_bind, Option.bind_eq_some_iff, Prod.exists] at ran
    rcases ran with ⟨answer, last, loaded, result⟩
    have same : last = after := by
      cases answer <;> cases result <;> rfl
    subst same
    refine .inr ⟨rfl, ?_⟩
    rw [loadRdfSource] at loaded
    rw [inserts]
    split at loaded
    · rename_i remote
      cases loaded
      exact ⟨0, by rw [if_pos remote]; rfl⟩
    · rename_i near
      rw [if_neg near]
      split at loaded
      · rename_i message read
        cases loaded
        exact ⟨0, by rw [read]; rfl⟩
      · rename_i triples read
        rcases Option.map_eq_some_iff.mp loaded with ⟨⟨_, count⟩, inserted, result⟩
        cases result
        exact ⟨count, by rw [read]; exact inserted⟩
  | clear target silent =>
    cases ran
    exact .inl ⟨target, silent, .inl rfl, rfl⟩
  | drop target silent =>
    cases ran
    exact .inl ⟨target, silent, .inr rfl, rfl⟩
  | create name silent =>
    cases ran
    exact .inr ⟨rfl, 0, rfl⟩

/-- The first operation, and the rest if it succeeds. -/
theorem execOps_cases {op : UpdateOp α} {rest : List (UpdateOp α)}
    (ran : s.execOps host (op :: rest) = some (outcome, after)) :
    (∃ error, s.execUpdateOp host op = some (.error error, after)) ∨
    ∃ changed middle further, s.execUpdateOp host op = some (.ok changed, middle) ∧
      middle.execOps host rest = some (further, after) := by
  simp only [execOps, Option.bind_eq_bind, Option.bind_eq_some_iff, Prod.exists] at ran
  rcases ran with ⟨answer, middle, here, ran⟩
  cases answer with
  | error error =>
    cases ran
    exact .inl ⟨error, here⟩
  | ok changed =>
    simp only [Option.bind_eq_some_iff, Prod.exists] at ran
    rcases ran with ⟨further, last, later, result⟩
    refine .inr ⟨changed, middle, further, here, ?_⟩
    cases further <;> cases result <;> exact later

end Operations

/-- `Database::query` on an update request. -/
def query {α : Type} (host : Host α) (s : Session) (sparql : Text) : Option (Outcome Nat) :=
  match host.parse sparql with
  | .error message => some (.error (.parse message), s)
  | .ok ops => do
    match ← s.execOps host ops with
    | (.error error, s) => return (.error error, s)
    | (.ok changed, s) =>
      match s.updateLog with
      | none => return (.ok changed, s)
      | some log =>
        if host.appendsUpdateLog then
          let log := log ++ [{ changed, statement := sparql }]
          return (.ok changed, { s with updateLog := some log })
        else return (.error .appendUpdateLog, s)

/-- A request runs its operations; the update log is no part of the database. -/
theorem query_cases {α : Type} {host : Host α} {s after : Session} {sparql : Text}
    {outcome : Except DbError Nat} (ran : s.query host sparql = some (outcome, after)) :
    (after = s ∧ ∃ message, host.parse sparql = .error message) ∨
    ∃ ops answer last updateLog, host.parse sparql = .ok ops ∧
      s.execOps host ops = some (answer, last) ∧ after = { last with updateLog } ∧
      ((∃ error, outcome = .error error) → after = last) := by
  rw [query] at ran
  split at ran
  · rename_i message parsed
    cases ran
    exact .inl ⟨rfl, message, parsed⟩
  · rename_i ops parsed
    simp only [Option.bind_eq_bind, Option.bind_eq_some_iff, Prod.exists] at ran
    rcases ran with ⟨answer, last, applied, ran⟩
    refine .inr ⟨ops, answer, last, after.updateLog, parsed, applied, ?_⟩
    cases answer with
    | error error =>
      cases ran
      exact ⟨rfl, fun _ => rfl⟩
    | ok changed =>
      dsimp only at ran
      split at ran
      · cases ran
        exact ⟨rfl, fun _ => rfl⟩
      · split at ran
        · cases ran
          exact ⟨rfl, fun failed => by cases failed.choose_spec⟩
        · cases ran
          exact ⟨rfl, fun _ => rfl⟩

end Session

/-! ## Runs -/

/-- What changes a database. -/
inductive Mutation (α : Type) where
  | request (host : Host α) (sparql : Text)
  | insertTriple (triple : Triple)
  | removeTriple (triple : Triple)
  | materializeRdfs
  | runRules (fuel : Nat) (rules : List Rule)
  | reclaimUnused

namespace Session

/-- The state that a mutation leaves, whatever it answers. -/
def apply {α : Type} (s : Session) : Mutation α → Option Session
  | .request host sparql => (s.query host sparql).map Prod.snd
  | .insertTriple triple => (s.insertTriple triple).map Prod.fst
  | .removeTriple triple => some (s.removeTriple triple).1
  | .materializeRdfs => s.materializeRdfs.map Prod.fst
  | .runRules fuel rules => (s.runRules fuel rules).map Prod.fst
  | .reclaimUnused => some s.reclaimUnused.1

def run {α : Type} : Session → List (Mutation α) → Option Session
  | s, [] => some s
  | s, mutation :: rest => (s.apply mutation).bind fun after => after.run rest

end Session

end GStore.Db
