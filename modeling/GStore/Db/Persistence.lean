import GStore.Db.Engine
import GStore.Signature.QueryNode

/-! # Snapshots in a directory

`db/mod.rs`, `save` and `load`: five files, written one after the other, each as a
whole. The metadata counts what the dictionary and the store hold; nothing tells
which files were written together. -/

namespace GStore.Dict

/-- The strings that are not freed. -/
def Interner.len (interner : Interner) : Nat := interner.forward.length

namespace Dictionary

def entityNum (dict : Dictionary) : Nat := dict.entities.len

def literalNum (dict : Dictionary) : Nat := dict.literals.len

def predicateNum (dict : Dictionary) : Nat := dict.predicates.len

end Dictionary

end GStore.Dict

namespace GStore.Db

open Dict GStore.Parser Query Signature Store

/-! ## Files -/

structure Meta where
  name : Text
  tripleNum : Nat
  entityNum : Nat
  literalNum : Nat
  predicateNum : Nat
deriving DecidableEq

/-- The files of a directory; `none` is one that is absent or cannot be read. -/
structure Directory where
  metadata : Option Meta
  dict : Option Dictionary
  store : Option TripleStore
  named : Option NamedGraphs
  vstree : Option VsTree

inductive LoadError where
  | metadata
  | dict
  | store
  | triples (expected held : Nat)
  | entities (expected held : Nat)
  | literals (expected held : Nat)
  | predicates (expected held : Nat)

/-- What a query reads of a database. -/
structure Contents where
  dict : Dictionary
  store : TripleStore
  named : NamedGraphs
  vstree : VsTree

structure Snapshot extends Contents where
  name : Text

namespace Snapshot

def metadata (snapshot : Snapshot) : Meta where
  name := snapshot.name
  tripleNum := snapshot.store.tripleCount
  entityNum := snapshot.dict.entityNum
  literalNum := snapshot.dict.literalNum
  predicateNum := snapshot.dict.predicateNum

/-- The file writes of `save`, in order. -/
def writes (snapshot : Snapshot) : List (Directory → Directory) :=
  [fun directory => { directory with dict := some snapshot.dict },
    fun directory => { directory with store := some snapshot.store },
    fun directory => { directory with named := some snapshot.named },
    fun directory => { directory with metadata := some snapshot.metadata },
    fun directory => { directory with vstree := some snapshot.vstree }]

end Snapshot

namespace Directory

def write (directory : Directory) (writes : List (Directory → Directory)) : Directory :=
  writes.foldl (fun directory write => write directory) directory

def save (directory : Directory) (snapshot : Snapshot) : Directory :=
  directory.write snapshot.writes

/-- `save`, interrupted after so many writes. -/
def interrupted (directory : Directory) (snapshot : Snapshot) (cut : Nat) : Directory :=
  directory.write (snapshot.writes.take cut)

def empty : Directory where
  metadata := none
  dict := none
  store := none
  named := none
  vstree := none

/-- Named graphs are optional, and a tree that is not there is built. -/
def load (directory : Directory) : Except LoadError Snapshot :=
  match directory.metadata, directory.dict, directory.store with
  | none, _, _ => .error .metadata
  | _, none, _ => .error .dict
  | _, _, none => .error .store
  | some metadata, some dict, some store =>
    if store.tripleCount ≠ metadata.tripleNum then
      .error (.triples metadata.tripleNum store.tripleCount)
    else if dict.entityNum ≠ metadata.entityNum then
      .error (.entities metadata.entityNum dict.entityNum)
    else if dict.literalNum ≠ metadata.literalNum then
      .error (.literals metadata.literalNum dict.literalNum)
    else if dict.predicateNum ≠ metadata.predicateNum then
      .error (.predicates metadata.predicateNum dict.predicateNum)
    else
      .ok { name := metadata.name, dict, store, named := directory.named.getD ∅
            vstree := directory.vstree.getD (buildVstree store.source) }

end Directory

/-! ## Crashes -/

section Crash

variable {Query Answer : Type} (answer : Contents → Query → Answer) (old new : Snapshot)

end Crash

section Load

variable {old new snapshot : Snapshot} {directory : Directory}

end Load

end GStore.Db
