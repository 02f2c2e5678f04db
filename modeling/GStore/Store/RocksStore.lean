import GStore.Foundation.ByteKeys
import GStore.Store.TripleSource

/-! # The RocksDB triple store

`backend/rocks.rs`: three families of 12-byte keys that hold every triple once each, and a
family of counters. A column family is a byte-ordered map and a write batch is applied
whole. The counters are `u64` in the source and natural numbers here; the result `none` is
the panic of a counter that would go below zero. -/

namespace GStore.Store

open SortedSlice

abbrev ColumnFamily (ν : Type) := Std.TreeMap Bytes ν

/-- What RocksDB keeps on disk. The values of the triple families are empty. -/
structure RocksDb where
  spo : ColumnFamily Unit
  pos : ColumnFamily Unit
  osp : ColumnFamily Unit
  stats : ColumnFamily Nat

/-- The store caches the four global counters. -/
structure RocksStore where
  db : RocksDb
  tripleCount : Nat
  numPredicates : Nat
  distinctSubjects : Nat
  distinctObjects : Nat

/-! ## Keys -/

def kTriples : Bytes := ['T'.toUInt8]
def kPreds : Bytes := ['P'.toUInt8]
def kSubjects : Bytes := ['S'.toUInt8]
def kObjects : Bytes := ['O'.toUInt8]

def tCard : UInt8 := 'c'.toUInt8
def tPsubj : UInt8 := 'u'.toUInt8
def tPobj : UInt8 := 'v'.toUInt8
def tSub : UInt8 := 's'.toUInt8
def tObj : UInt8 := 'o'.toUInt8
def tPs : UInt8 := 'x'.toUInt8
def tPo : UInt8 := 'y'.toUInt8

def key3 (first second third : UInt32) : Bytes := be32 first ++ (be32 second ++ be32 third)

def key2 (first second : UInt32) : Bytes := be32 first ++ be32 second

def tag1 (tag : UInt8) (id : UInt32) : Bytes := tag :: be32 id

def tag2 (tag : UInt8) (first second : UInt32) : Bytes := tag :: (be32 first ++ be32 second)

/-- Decode the id at an offset of a key. -/
def de (key : Bytes) (offset : Nat) : UInt32 := ofBe32 (slice key offset (offset + 4))

/-! ## Batches -/

inductive WriteOp where
  | putSpo (key : Bytes)
  | putPos (key : Bytes)
  | putOsp (key : Bytes)
  | deleteSpo (key : Bytes)
  | deletePos (key : Bytes)
  | deleteOsp (key : Bytes)
  | putStat (key : Bytes) (value : Nat)
  | deleteStat (key : Bytes)

abbrev WriteBatch := List WriteOp

namespace RocksDb

def empty : RocksDb := { spo := ∅, pos := ∅, osp := ∅, stats := ∅ }

def apply (db : RocksDb) : WriteOp → RocksDb
  | .putSpo key => { db with spo := db.spo.insert key () }
  | .putPos key => { db with pos := db.pos.insert key () }
  | .putOsp key => { db with osp := db.osp.insert key () }
  | .deleteSpo key => { db with spo := db.spo.erase key }
  | .deletePos key => { db with pos := db.pos.erase key }
  | .deleteOsp key => { db with osp := db.osp.erase key }
  | .putStat key value => { db with stats := db.stats.insert key value }
  | .deleteStat key => { db with stats := db.stats.erase key }

def write (db : RocksDb) (batch : WriteBatch) : RocksDb := batch.foldl apply db

def getU64 (db : RocksDb) (key : Bytes) : Nat := db.stats.getD key 0

end RocksDb

/-- Collect every key that starts with the stem; an empty stem scans the family. -/
def scanKeys {ν : Type} (family : ColumnFamily ν) (stem : Bytes) : List Bytes :=
  if stem.isEmpty then family.keys.takeWhile (stem.isPrefixOf ·) else scanFrom family.keys stem

/-! ## Counters -/

/-- One step of a counter, up or down. -/
def stepped (up : Bool) (count : Nat) : Option Nat :=
  if up then some (count + 1) else if count = 0 then none else some (count - 1)

/-- Step the counter at `key`, deleting it at zero, with its old and new value. The old
value is read before the batch. -/
def RocksDb.step (db : RocksDb) (batch : WriteBatch) (key : Bytes) (up : Bool) :
    Option (WriteBatch × Nat × Nat) := do
  let old := db.getU64 key
  let new ← stepped up old
  let op := if new = 0 then .deleteStat key else .putStat key new
  return (batch ++ [op], old, new)

def setGlobal (batch : WriteBatch) (key : Bytes) (value : Nat) : WriteBatch :=
  batch ++ [.putStat key value]

/-- Step the counter at `key` and, if it left or reached zero, the global one. -/
def RocksDb.stepGlobal (db : RocksDb) (batch : WriteBatch) (key : Bytes) (up : Bool)
    (globalKey : Bytes) (global : Nat) : Option (WriteBatch × Nat) := do
  let (batch, old, new) ← db.step batch key up
  if (if up then old else new) = 0 then
    let global ← stepped up global
    return (setGlobal batch globalKey global, global)
  else
    return (batch, global)

/-- Step the counter at `key` and, if it left or reached zero, the one at `distinctKey`. -/
def RocksDb.stepDistinct (db : RocksDb) (batch : WriteBatch) (key : Bytes) (up : Bool)
    (distinctKey : Bytes) : Option WriteBatch := do
  let (batch, old, new) ← db.step batch key up
  if (if up then old else new) = 0 then
    let (batch, _, _) ← db.step batch distinctKey up
    return batch
  else
    return batch

namespace RocksStore

/-- `open` reloads the cached counters. -/
def «open» (db : RocksDb) : RocksStore where
  db
  tripleCount := db.getU64 kTriples
  numPredicates := db.getU64 kPreds
  distinctSubjects := db.getU64 kSubjects
  distinctObjects := db.getU64 kObjects

/-! ## Mutation -/

def containsIds (store : RocksStore) (triple : IdTriple) : Bool :=
  store.db.spo.contains (key3 triple.sub triple.pred triple.obj)

/-- The part of an insertion and a removal that moves the counters and writes the batch. -/
def recount (store : RocksStore) (batch : WriteBatch) (triple : IdTriple) (up : Bool) :
    Option RocksStore := do
  let db := store.db
  let tripleCount ← stepped up store.tripleCount
  let batch := setGlobal batch kTriples tripleCount
  let (batch, numPredicates) ←
    db.stepGlobal batch (tag1 tCard triple.pred) up kPreds store.numPredicates
  let (batch, distinctSubjects) ←
    db.stepGlobal batch (tag1 tSub triple.sub) up kSubjects store.distinctSubjects
  let (batch, distinctObjects) ←
    db.stepGlobal batch (tag1 tObj triple.obj) up kObjects store.distinctObjects
  let batch ← db.stepDistinct batch (tag2 tPs triple.pred triple.sub) up (tag1 tPsubj triple.pred)
  let batch ← db.stepDistinct batch (tag2 tPo triple.pred triple.obj) up (tag1 tPobj triple.pred)
  return { db := db.write batch, tripleCount, numPredicates, distinctSubjects, distinctObjects }

def putTriple (triple : IdTriple) : WriteBatch :=
  [.putSpo (key3 triple.sub triple.pred triple.obj),
    .putPos (key3 triple.pred triple.obj triple.sub),
    .putOsp (key3 triple.obj triple.sub triple.pred)]

def deleteTriple (triple : IdTriple) : WriteBatch :=
  [.deleteSpo (key3 triple.sub triple.pred triple.obj),
    .deletePos (key3 triple.pred triple.obj triple.sub),
    .deleteOsp (key3 triple.obj triple.sub triple.pred)]

def insertIds (store : RocksStore) (triple : IdTriple) : Option (RocksStore × Bool) :=
  if store.containsIds triple then
    some (store, false)
  else
    (store.recount (putTriple triple) triple true).map (·, true)

def removeIds (store : RocksStore) (triple : IdTriple) : Option (RocksStore × Bool) :=
  if store.containsIds triple then
    (store.recount (deleteTriple triple) triple false).map (·, true)
  else
    some (store, false)

def bulkLoad (store : RocksStore) : List IdTriple → Option RocksStore
  | [] => some store
  | triple :: rest => do
    let (store, _) ← store.insertIds triple
    store.bulkLoad rest

/-! ## Access patterns -/

/-- `sort_unstable` on pairs of ids. -/
def sortPairs (pairs : List (UInt32 × UInt32)) : List (UInt32 × UInt32) :=
  ((pairs.map toLex).insertionSort (· ≤ ·)).map ofLex

/-- The ids under a tag of the counters. -/
def idsUnder (store : RocksStore) (tag : UInt8) : List UInt32 :=
  (scanKeys store.db.stats [tag]).map (de · 1)

def predicates (store : RocksStore) : List UInt32 := store.idsUnder tCard

def poByS (store : RocksStore) (sub : UInt32) : List (UInt32 × UInt32) :=
  (scanKeys store.db.spo (be32 sub)).map fun key => (de key 4, de key 8)

def oBySp (store : RocksStore) (sub pred : UInt32) : List UInt32 :=
  (scanKeys store.db.spo (key2 sub pred)).map (de · 8)

def pBySo (store : RocksStore) (sub obj : UInt32) : List UInt32 :=
  (scanKeys store.db.osp (key2 obj sub)).map (de · 8)

def psByO (store : RocksStore) (obj : UInt32) : List (UInt32 × UInt32) :=
  sortPairs ((scanKeys store.db.osp (be32 obj)).map fun key => (de key 8, de key 4))

def sByPo (store : RocksStore) (pred obj : UInt32) : List UInt32 :=
  (scanKeys store.db.pos (key2 pred obj)).map (de · 8)

def soByP (store : RocksStore) (pred : UInt32) : List (UInt32 × UInt32) :=
  sortPairs ((scanKeys store.db.pos (be32 pred)).map fun key => (de key 8, de key 4))

/-- Subjects of a predicate, with repetition. -/
def sByPoAll (store : RocksStore) (pred : UInt32) : List UInt32 :=
  (scanKeys store.db.pos (be32 pred)).map (de · 8)

def subsByP (store : RocksStore) (pred : UInt32) : List UInt32 :=
  sortDedup (store.sByPoAll pred)

def objsByP (store : RocksStore) (pred : UInt32) : List UInt32 :=
  sortDedup ((scanKeys store.db.pos (be32 pred)).map (de · 4))

def subjectKeys (store : RocksStore) : List UInt32 :=
  (store.idsUnder tSub).insertionSort (· ≤ ·)

def objectKeys (store : RocksStore) : List UInt32 :=
  (store.idsUnder tObj).insertionSort (· ≤ ·)

def iterAll (store : RocksStore) : List IdTriple :=
  (scanKeys store.db.spo []).map fun key => ⟨de key 0, de key 4, de key 8⟩

/-- `impl TripleSource for RocksStore`. -/
def source (store : RocksStore) : TripleSource where
  «exists» sub pred obj := store.containsIds ⟨sub, pred, obj⟩
  poByS := store.poByS
  oBySp := store.oBySp
  pBySo := store.pBySo
  psByO := store.psByO
  sByPo := store.sByPo
  soByP := store.soByP
  subsByP := store.subsByP
  objsByP := store.objsByP
  subjectKeys := store.subjectKeys
  objectKeys := store.objectKeys
  tripleCount := store.tripleCount
  distinctSubjects := store.distinctSubjects
  distinctObjects := store.distinctObjects
  numPredicates := store.numPredicates
  predCard pred := store.db.getU64 (tag1 tCard pred)
  predDistinctSubj pred := store.db.getU64 (tag1 tPsubj pred)
  predDistinctObj pred := store.db.getU64 (tag1 tPobj pred)
  iterAll := store.iterAll

end RocksStore

end GStore.Store
