import GStore.Db.Database
import GStore.Foundation.Assoc
import GStore.Foundation.Trace

/-! # Optimistic transactions over snapshots

`concurrent.rs`. Writers hold the writer lock and the bookkeeping lock, and a
snapshot, once published, never changes, so every call below is one atomic step.
Versions are `u64` in the source; a run would need `2 ^ 64` commits to leave that
range, and they are natural numbers here. The result `none` of a step is a panic
of the source. -/

namespace GStore.Concurrent

open Db Dict Store

inductive IsolationLevel where
  | readUncommitted
  | readCommitted
  | repeatableRead
  | serializable
deriving DecidableEq, Repr

namespace IsolationLevel

/-- Reads resolve against the snapshot taken at `begin`. -/
def stableSnapshot : IsolationLevel → Bool
  | .repeatableRead | .serializable => true
  | _ => false

def checksWriteWrite : IsolationLevel → Bool
  | .repeatableRead | .serializable => true
  | _ => false

def checksReadWrite : IsolationLevel → Bool
  | .serializable => true
  | _ => false

end IsolationLevel

structure Snapshot where
  db : Database
  version : Nat

namespace Snapshot

def contains (snapshot : Snapshot) (triple : Triple) : Bool := snapshot.db.contains triple

end Snapshot

inductive TxnOp where
  | insert (triple : RdfTriple)
  | delete (triple : RdfTriple)
deriving DecidableEq

namespace TxnOp

def triple : TxnOp → RdfTriple
  | .insert triple => triple
  | .delete triple => triple

/-- Apply one buffered write to the authoritative database. -/
def apply (db : Database) : TxnOp → Option Database
  | .insert triple => (db.insertTriple triple.toTriple).map Prod.fst
  | .delete triple => some (db.removeTriple triple.toTriple).1

end TxnOp

/-! ## Commit bookkeeping -/

def u64Max : Nat := 2 ^ 64 - 1

structure OccState where
  /-- The keys written at each version, oldest first. -/
  history : List (Nat × Finset Text)
  /-- How many live transactions and views started at each version. -/
  liveStarts : Std.TreeMap Nat Nat
  lastLegacyVersion : Nat

namespace OccState

def new : OccState := { history := [], liveStarts := ∅, lastLegacyVersion := 0 }

def register (occ : OccState) (version : Nat) : OccState :=
  { occ with liveStarts := occ.liveStarts.insert version (occ.liveStarts.getD version 0 + 1) }

def deregister (occ : OccState) (version : Nat) : OccState :=
  match occ.liveStarts[version]? with
  | some count =>
    if count - 1 = 0 then
      { occ with liveStarts := occ.liveStarts.erase version }
    else
      { occ with liveStarts := occ.liveStarts.insert version (count - 1) }
  | none => occ

@[irreducible] def gcFloor (occ : OccState) : Nat := occ.liveStarts.keys.head?.getD u64Max

def gc (occ : OccState) : OccState :=
  { occ with history := occ.history.filter fun entry => decide (occ.gcFloor < entry.1) }

end OccState

/-! ## Version chains -/

inductive ChainOp where
  | insert
  | tombstone
deriving DecidableEq

structure VersionRecord where
  version : Nat
  op : ChainOp
deriving DecidableEq

structure Chain where
  triple : RdfTriple
  records : List VersionRecord

/-- The position of the last element that satisfies the test. -/
def rposition {α : Type} (test : α → Bool) (list : List α) : Option Nat :=
  (list.reverse.findIdx? test).map fun fromEnd => list.length - 1 - fromEnd

namespace Chain

def visible (chain : Chain) (version : Nat) : Option VersionRecord :=
  chain.records.reverse.find? fun record => decide (record.version ≤ version)

/-- Drain the records before the last one that is not above the floor. -/
def drain (chain : Chain) (floor : Nat) : Chain :=
  match rposition (fun record => decide (record.version ≤ floor)) chain.records with
  | some anchor => { chain with records := chain.records.drop anchor }
  | none => chain

/-- Whether the drained chain is worth keeping over the base snapshot. -/
def retained (base : Snapshot) (chain : Chain) : Bool :=
  match chain.records with
  | [] => false
  | [only] => decide (only.op = .insert) != base.contains chain.triple.toTriple
  | _ => true

/-- What collection leaves of a chain. -/
def collect (floor : Nat) (base : Snapshot) (chain : Chain) : Option Chain :=
  (some (chain.drain floor)).filter (retained base)

end Chain

/-- One chain for each key ever written. The source keeps them in a hash map; no
reader depends on their order. -/
abbrev VersionedStore := List (Text × Chain)

namespace VersionedStore

def record (store : VersionedStore) (version : Nat) (triple : RdfTriple) (op : ChainOp) :
    VersionedStore :=
  let chain := (store.lookup triple.key).getD { triple, records := [] }
  assocInsert triple.key { chain with records := chain.records ++ [{ version, op }] } store

def visiblePresent (store : VersionedStore) (key : Text) (version : Nat) : Option Bool :=
  ((store.lookup key).bind fun chain => chain.visible version).map
    fun record => decide (record.op = .insert)

def gc (store : VersionedStore) (floor : Nat) (base : Snapshot) : VersionedStore :=
  store.filterMap fun entry => (entry.2.collect floor base).map (Prod.mk entry.1)

end VersionedStore

/-! ## The database and its transactions -/

structure ConcurrentDb where
  writer : Database
  current : Snapshot
  occ : OccState
  base : Snapshot
  versioned : VersionedStore

structure Txn where
  snapshot : Snapshot
  startVersion : Nat
  ops : List TxnOp
  keys : Finset Text
  reads : Finset Text
  level : IsolationLevel

inductive ConflictKind where
  | legacyWrite
  | readWrite
  | writeWrite
deriving DecidableEq, Repr

namespace ConflictKind

def text : ConflictKind → String
  | .legacyWrite => "non-transactional write"
  | .readWrite => "committed transaction wrote a key this transaction read"
  | .writeWrite => "committed transaction"

/-- The text of `GStoreError::Conflict`. -/
def message (kind : ConflictKind) (startVersion : Nat) : String :=
  "conflict: a " ++ kind.text ++ " after version " ++ toString startVersion ++
    " may overlap this transaction"

end ConflictKind

namespace Txn

/-- A transaction that starts at the current snapshot. -/
def start (current : Snapshot) (level : IsolationLevel) : Txn :=
  { snapshot := current, startVersion := current.version, ops := [], keys := ∅, reads := ∅, level }

def insert (txn : Txn) (triple : RdfTriple) : Txn :=
  { txn with keys := Insert.insert triple.key txn.keys, ops := txn.ops ++ [.insert triple] }

def delete (txn : Txn) (triple : RdfTriple) : Txn :=
  { txn with keys := Insert.insert triple.key txn.keys, ops := txn.ops ++ [.delete triple] }

/-- The effect of one buffered write on the presence of a key. -/
def overlay (key : Text) (present : Bool) : TxnOp → Bool
  | .insert triple => if triple.key = key then true else present
  | .delete triple => if triple.key = key then false else present

/-- Whether the transaction sees a triple: its base state, `current` being the
latest snapshot, under its own buffered writes. -/
def contains (txn : Txn) (current : Snapshot) (triple : RdfTriple) : Bool :=
  let present :=
    if txn.level.stableSnapshot then
      txn.snapshot.contains triple.toTriple
    else
      current.contains triple.toTriple
  txn.ops.foldl (overlay triple.key) present

/-- A tracked read: the answer of `contains`, and the key joins the read set. -/
def read (txn : Txn) (current : Snapshot) (triple : RdfTriple) : Txn × Bool :=
  let txn := { txn with reads := Insert.insert triple.key txn.reads }
  (txn, txn.contains current triple)

/-- Some commit after `start` wrote one of the keys. -/
def overlaps (history : List (Nat × Finset Text)) (start : Nat) (keys : Finset Text) : Bool :=
  (history.filter fun entry => decide (start + 1 ≤ entry.1)).any
    fun entry => !decide (Disjoint keys entry.2)

/-- The conflict checks of `commit`. -/
def validate (history : List (Nat × Finset Text)) (lastLegacyVersion : Nat) (txn : Txn) :
    Option ConflictKind :=
  let ww := txn.level.checksWriteWrite
  let rw := txn.level.checksReadWrite
  let legacyDuring := ww && decide (txn.startVersion < lastLegacyVersion)
  let wwConflict := ww && !legacyDuring && overlaps history txn.startVersion txn.keys
  let rwConflict := rw && !legacyDuring && !wwConflict &&
    overlaps history txn.startVersion txn.reads
  if legacyDuring || wwConflict || rwConflict then
    if legacyDuring then some .legacyWrite
    else if rwConflict then some .readWrite
    else some .writeWrite
  else
    none

/-- The net state of each written key: a later write supersedes an earlier one. -/
def net (ops : List TxnOp) : List (Text × RdfTriple × ChainOp) :=
  ops.foldl (fun entries op =>
    match op with
    | .insert triple => assocInsert triple.key (triple, .insert) entries
    | .delete triple => assocInsert triple.key (triple, .tombstone) entries) []

end Txn

namespace ConcurrentDb

def new (db : Database) : ConcurrentDb :=
  { writer := db, current := ⟨db, 1⟩, occ := .new, base := ⟨db, 1⟩, versioned := [] }

def publish (self : ConcurrentDb) (db : Database) : ConcurrentDb :=
  { self with writer := db, current := ⟨db, self.current.version + 1⟩ }

/-- A successful `update` or `write`: whatever it made of the database is
published as a legacy version. -/
def legacyWrite (self : ConcurrentDb) (db : Database) : ConcurrentDb :=
  let self := self.publish db
  { self with occ := { self.occ with lastLegacyVersion := self.current.version } }

def beginWith (self : ConcurrentDb) (level : IsolationLevel) : ConcurrentDb × Txn :=
  ({ self with occ := self.occ.register self.current.version },
    .start self.current level)

/-- `version_view`: the version the view is pinned at. -/
def versionView (self : ConcurrentDb) : ConcurrentDb × Nat :=
  ({ self with occ := self.occ.register self.current.version }, self.current.version)

/-- Leave the live registry and collect what nobody can reach any more. -/
def retire (self : ConcurrentDb) (version : Nat) : ConcurrentDb :=
  let occ := (self.occ.deregister version).gc
  { self with occ, versioned := self.versioned.gc occ.gcFloor self.base }

/-- Append the version records of a commit and its write set. -/
def recordCommit (self : ConcurrentDb) (txn : Txn) : ConcurrentDb :=
  let version := self.current.version
  { self with
    versioned := (Txn.net txn.ops).foldl
      (fun store entry => store.record version entry.2.1 entry.2.2) self.versioned
    occ := { self.occ with history := self.occ.history ++ [(version, txn.keys)] } }

/-- The new version, or the conflict. -/
def commit (self : ConcurrentDb) (txn : Txn) : Option (ConcurrentDb × Except ConflictKind Nat) :=
  match txn.validate self.occ.history self.occ.lastLegacyVersion with
  | some kind => some (self.retire txn.startVersion, .error kind)
  | none =>
    match txn.ops.foldlM TxnOp.apply self.writer with
    | some db =>
      let self := self.publish db
      some ((self.recordCommit txn).retire txn.startVersion, .ok self.current.version)
    | none => none

/-- `VersionView::contains`. -/
def viewContains (self : ConcurrentDb) (version : Nat) (triple : RdfTriple) : Bool :=
  match self.versioned.visiblePresent triple.key version with
  | some present => present
  | none => self.base.contains triple.toTriple

end ConcurrentDb

/-! ## Clients -/

/-- What a client holds: a transaction, or a version-pinned view. -/
inductive Handle where
  | txn (txn : Txn)
  | view (version : Nat)

namespace Handle

/-- The version a handle keeps alive. -/
def pin : Handle → Nat
  | .txn held => held.startVersion
  | .view version => version

end Handle

def txnAt (handles : List (Option Handle)) (handle : Nat) : Option Txn :=
  match handles[handle]? with
  | some (some (.txn txn)) => some txn
  | _ => none

def viewAt (handles : List (Option Handle)) (handle : Nat) : Option Nat :=
  match handles[handle]? with
  | some (some (.view version)) => some version
  | _ => none

theorem getElem?_of_txnAt {handles : List (Option Handle)} {handle : Nat} {txn : Txn}
    (found : txnAt handles handle = some txn) : handles[handle]? = some (some (.txn txn)) := by
  unfold txnAt at found
  split at found
  · rename_i entry
    cases found
    exact entry
  · cases found

theorem getElem?_of_viewAt {handles : List (Option Handle)} {handle version : Nat}
    (found : viewAt handles handle = some version) :
    handles[handle]? = some (some (.view version)) := by
  unfold viewAt at found
  split at found
  · rename_i entry
    cases found
    exact entry
  · cases found

/-- A shared database and the handles its clients have opened, `none` once
closed. -/
structure System where
  db : ConcurrentDb
  handles : List (Option Handle)

inductive Action where
  | begin (level : IsolationLevel)
  | insert (handle : Nat) (triple : RdfTriple)
  | delete (handle : Nat) (triple : RdfTriple)
  | contains (handle : Nat) (triple : RdfTriple)
  | read (handle : Nat) (triple : RdfTriple)
  | commit (handle : Nat)
  | abort (handle : Nat)
  | openView
  | closeView (handle : Nat)
  | legacyWrite (db : Database)

inductive Output where
  | opened (handle : Nat)
  | done
  | answer (present : Bool)
  | committed (version : Nat)
  | conflict (kind : ConflictKind) (message : String)

namespace System

def new (db : Database) : System := { db := .new db, handles := [] }

def setTxn (system : System) (handle : Nat) (txn : Txn) : System :=
  { system with handles := system.handles.set handle (some (.txn txn)) }

/-- Drop a handle. -/
def close (system : System) (handle : Nat) (db : ConcurrentDb) : System :=
  { db, handles := system.handles.set handle none }

/-- One call by one client. A call on a handle that is closed or of the other
kind does not exist. -/
def step (system : System) : Action → Option (Output × System)
  | .begin level =>
    let (db, txn) := system.db.beginWith level
    some (.opened system.handles.length, { db, handles := system.handles ++ [some (.txn txn)] })
  | .insert handle triple => do
    let txn ← txnAt system.handles handle
    return (.done, system.setTxn handle (txn.insert triple))
  | .delete handle triple => do
    let txn ← txnAt system.handles handle
    return (.done, system.setTxn handle (txn.delete triple))
  | .contains handle triple => do
    let txn ← txnAt system.handles handle
    return (.answer (txn.contains system.db.current triple), system)
  | .read handle triple => do
    let txn ← txnAt system.handles handle
    let (txn, present) := txn.read system.db.current triple
    return (.answer present, system.setTxn handle txn)
  | .commit handle => do
    let txn ← txnAt system.handles handle
    match ← system.db.commit txn with
    | (db, .ok version) => return (.committed version, system.close handle db)
    | (db, .error kind) =>
      return (.conflict kind (kind.message txn.startVersion), system.close handle db)
  | .abort handle => do
    let txn ← txnAt system.handles handle
    return (.done, system.close handle (system.db.retire txn.startVersion))
  | .openView =>
    let (db, version) := system.db.versionView
    some (.opened system.handles.length, { db, handles := system.handles ++ [some (.view version)] })
  | .closeView handle => do
    let version ← viewAt system.handles handle
    return (.done, system.close handle (system.db.retire version))
  | .legacyWrite db => some (.done, { system with db := system.db.legacyWrite db })

end System

end GStore.Concurrent
