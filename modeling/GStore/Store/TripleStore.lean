import Mathlib
import GStore.Foundation.Words
import GStore.Foundation.SortedSlice

/-! # The six-way triple index

`store/mod.rs`: three sorted adjacency maps that hold every triple once each,
and the access patterns and statistics read from them. Ids are `u32`; the
triple counter is a `u64` in the source and a natural number here. -/

namespace GStore

/-- A triple of ids (`model::IdTriple`). -/
structure IdTriple where
  sub : UInt32
  pred : UInt32
  obj : UInt32
deriving DecidableEq, Repr, Inhabited

theorem IdTriple.exists_iff {holds : IdTriple → Prop} :
    (∃ triple, holds triple) ↔ ∃ sub pred obj, holds ⟨sub, pred, obj⟩ :=
  ⟨fun ⟨triple, found⟩ => ⟨triple.sub, triple.pred, triple.obj, found⟩,
    fun ⟨sub, pred, obj, found⟩ => ⟨⟨sub, pred, obj⟩, found⟩⟩

namespace Store

open SortedSlice

/-- The `(u32, u32)` values of an adjacency list, compared lexicographically. -/
abbrev Pair := UInt32 ×ₗ UInt32

def Pair.mk (first second : UInt32) : Pair := toLex (first, second)

/-- A sorted, de-duplicated adjacency map. -/
abbrev AdjMap := Std.TreeMap UInt32 (List Pair)

structure TripleStore where
  s2po : AdjMap
  o2ps : AdjMap
  p2so : AdjMap
  tripleCount : Nat

/-- Insert into a sorted vector if absent; the flag tells whether it was. -/
def sortedInsert (vec : List Pair) (value : Pair) : List Pair × Bool :=
  match binarySearch vec value with
  | .ok _ => (vec, false)
  | .error position => (vec.insertIdx position value, true)

/-- Remove from a sorted vector if present; the flag tells whether it was. -/
def sortedRemove (vec : List Pair) (value : Pair) : List Pair × Bool :=
  match binarySearch vec value with
  | .ok position => (vec.eraseIdx position, true)
  | .error _ => (vec, false)

/-- The part of a sorted vector whose first component is `first`. -/
def rangeByFirst (vec : List Pair) (first : UInt32) : List Pair :=
  let lo := partitionPoint (fun pair => decide ((ofLex pair).1 < first)) vec
  let hi := partitionPoint (fun pair => decide ((ofLex pair).1 ≤ first)) vec
  (vec.take hi).drop lo

namespace AdjMap

/-- `sorted_insert(map.entry(key).or_default(), value)`. -/
def sortedInsert (index : AdjMap) (key : UInt32) (value : Pair) : AdjMap × Bool :=
  let (vec, inserted) := Store.sortedInsert (index.getD key []) value
  (index.insert key vec, inserted)

/-- `map.get_mut(&key)` followed by `sorted_remove`; a missing key changes
nothing. -/
def sortedRemove (index : AdjMap) (key : UInt32) (value : Pair) : AdjMap × Bool :=
  match index[key]? with
  | some vec =>
    let (vec, removed) := Store.sortedRemove vec value
    (index.insert key vec, removed)
  | none => (index, false)

/-- Drop the entry of a key whose list has become empty. -/
def prune (index : AdjMap) (key : UInt32) : AdjMap :=
  if index[key]? = some [] then index.erase key else index

/-- `map.entry(key).or_default().push(value)`. -/
def push (index : AdjMap) (key : UInt32) (value : Pair) : AdjMap :=
  index.insert key (index.getD key [] ++ [value])

/-- Sort and de-duplicate every list. -/
def normalize (index : AdjMap) : AdjMap :=
  index.map fun _ vec => sortDedup vec

end AdjMap

namespace TripleStore

def new : TripleStore :=
  { s2po := ∅, o2ps := ∅, p2so := ∅, tripleCount := 0 }

/-! ## Mutation -/

def insert (store : TripleStore) (triple : IdTriple) : TripleStore × Bool :=
  let (s2po, inserted) :=
    AdjMap.sortedInsert store.s2po triple.sub (.mk triple.pred triple.obj)
  if inserted then
    ({ s2po
       o2ps := (AdjMap.sortedInsert store.o2ps triple.obj
         (.mk triple.pred triple.sub)).1
       p2so := (AdjMap.sortedInsert store.p2so triple.pred
         (.mk triple.sub triple.obj)).1
       tripleCount := store.tripleCount + 1 }, true)
  else
    ({ store with s2po }, false)

def pruneEmpty (store : TripleStore) (triple : IdTriple) : TripleStore :=
  { store with
    s2po := AdjMap.prune store.s2po triple.sub
    o2ps := AdjMap.prune store.o2ps triple.obj
    p2so := AdjMap.prune store.p2so triple.pred }

def remove (store : TripleStore) (triple : IdTriple) : TripleStore × Bool :=
  let (s2po, existed) :=
    AdjMap.sortedRemove store.s2po triple.sub (.mk triple.pred triple.obj)
  if existed then
    let pruned := pruneEmpty
      { s2po
        o2ps := (AdjMap.sortedRemove store.o2ps triple.obj
          (.mk triple.pred triple.sub)).1
        p2so := (AdjMap.sortedRemove store.p2so triple.pred
          (.mk triple.sub triple.obj)).1
        tripleCount := store.tripleCount } triple
    ({ pruned with tripleCount := pruned.tripleCount - 1 }, true)
  else
    ({ store with s2po }, false)

/-- The first loop of `bulk_load`: append without sorting. -/
def pushTriple (store : TripleStore) (triple : IdTriple) : TripleStore :=
  { store with
    s2po := AdjMap.push store.s2po triple.sub (.mk triple.pred triple.obj)
    o2ps := AdjMap.push store.o2ps triple.obj (.mk triple.pred triple.sub)
    p2so := AdjMap.push store.p2so triple.pred (.mk triple.sub triple.obj) }

def bulkLoad (store : TripleStore) (triples : List IdTriple) : TripleStore :=
  let pushed := triples.foldl pushTriple store
  let s2po := AdjMap.normalize pushed.s2po
  { s2po
    o2ps := AdjMap.normalize pushed.o2ps
    p2so := AdjMap.normalize pushed.p2so
    tripleCount := (s2po.toList.map fun entry => entry.2.length).sum }

/-! ## Access patterns -/

def «exists» (store : TripleStore) (sub pred obj : UInt32) : Bool :=
  match store.s2po[sub]? with
  | some vec => (binarySearch vec (.mk pred obj)).isOk
  | none => false

def poByS (store : TripleStore) (sub : UInt32) : List (UInt32 × UInt32) :=
  (store.s2po.getD sub []).map ofLex

def oBySp (store : TripleStore) (sub pred : UInt32) : List UInt32 :=
  match store.s2po[sub]? with
  | some vec => (rangeByFirst vec pred).map fun pair => (ofLex pair).2
  | none => []

def pBySo (store : TripleStore) (sub obj : UInt32) : List UInt32 :=
  match store.s2po[sub]? with
  | some vec =>
    ((vec.filter fun pair => decide ((ofLex pair).2 = obj)).map
      fun pair => (ofLex pair).1).destutter (· ≠ ·)
  | none => []

def psByO (store : TripleStore) (obj : UInt32) : List (UInt32 × UInt32) :=
  (store.o2ps.getD obj []).map ofLex

def sByPo (store : TripleStore) (pred obj : UInt32) : List UInt32 :=
  match store.o2ps[obj]? with
  | some vec => (rangeByFirst vec pred).map fun pair => (ofLex pair).2
  | none => []

def soByP (store : TripleStore) (pred : UInt32) : List (UInt32 × UInt32) :=
  (store.p2so.getD pred []).map ofLex

def subsByP (store : TripleStore) (pred : UInt32) : List UInt32 :=
  ((store.soByP pred).map Prod.fst).destutter (· ≠ ·)

def objsByP (store : TripleStore) (pred : UInt32) : List UInt32 :=
  sortDedup ((store.soByP pred).map Prod.snd)

def iterAll (store : TripleStore) : List IdTriple :=
  store.p2so.toList.flatMap fun entry =>
    entry.2.map fun pair => ⟨(ofLex pair).1, entry.1, (ofLex pair).2⟩

def predicates (store : TripleStore) : List UInt32 := store.p2so.keys

def subjectKeys (store : TripleStore) : List UInt32 := store.s2po.keys

def objectKeys (store : TripleStore) : List UInt32 := store.o2ps.keys

/-! ## Statistics -/

def distinctSubjects (store : TripleStore) : Nat := store.s2po.size

def distinctObjects (store : TripleStore) : Nat := store.o2ps.size

def numPredicates (store : TripleStore) : Nat := store.p2so.size

def predCard (store : TripleStore) (pred : UInt32) : Nat :=
  (store.soByP pred).length

/-- Count the transitions of the first component along the sorted pairs. -/
def predDistinctSubj (store : TripleStore) (pred : UInt32) : Nat :=
  ((store.soByP pred).foldl
    (fun (state : Nat × Option UInt32) pair =>
      if state.2 ≠ some pair.1 then (state.1 + 1, some pair.1) else state)
    (0, none)).1

def predDistinctObj (store : TripleStore) (pred : UInt32) : Nat :=
  (sortDedup ((store.soByP pred).map Prod.snd)).length

end TripleStore

end Store

end GStore
