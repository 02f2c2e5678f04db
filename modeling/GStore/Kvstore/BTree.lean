import GStore.Foundation.SortedSlice
import GStore.Foundation.Words
import GStore.Kvstore.Node
import Mathlib.Data.List.Lex

/-! # The B+ tree

`bptree.rs`: variable-length byte keys and values over pager pages. A page is parsed
into a node, the node is changed and written back. -/

namespace GStore.Kvstore

open SortedSlice

/-! ## Nodes in pages -/

def readNode (id : PageId) : PageM Node := do
  let page ← readPage id
  orPanic (Node.parse page)

def writeNode (id : PageId) (node : Node) : PageM Unit := do
  let page ← orPanic node.serialize
  writePage id page

/-- How many separators are at or below `key`. -/
def childIndex (entries : List (Bytes × PageId)) (key : Bytes) : Nat :=
  partitionPoint (fun separator => decide (separator ≤ key)) (entries.map Prod.fst)

/-- The full child vector, `keys.len() + 1` long. -/
def childrenVec (link : PageId) (entries : List (Bytes × PageId)) : List PageId :=
  link :: entries.map Prod.snd

/-- Internal: the child page to descend into for `key`. -/
def childFor (link : PageId) (entries : List (Bytes × PageId)) (key : Bytes) : Option PageId :=
  let i := childIndex entries key
  if i = 0 then some link else (entries.map Prod.snd)[i - 1]?

/-- Leaf: insert or replace. -/
def upsert (entries : List (Bytes × Bytes)) (key val : Bytes) : List (Bytes × Bytes) :=
  match binarySearch (entries.map Prod.fst) key with
  | .ok i => entries.modify i fun entry => (entry.1, val)
  | .error i => entries.insertIdx i (key, val)

/-- A non-root node below this size is underfull. -/
def underflowBytes : Nat := pageSize / 4

/-- A handle to one B+ tree, rooted at a header slot. -/
structure BTree where
  rootSlot : RootSlot
deriving DecidableEq

namespace BTree

/-! ## Insertion -/

def splitLeaf (page : PageId) (link : PageId) (entries : List (Bytes × Bytes)) :
    PageM (Option (Bytes × PageId)) := do
  let mid := entries.length / 2
  let rightEntries := entries.drop mid
  let first ← orPanic rightEntries.head?
  let rightId ← alloc
  writeNode rightId (.leaf link rightEntries)
  writeNode page (.leaf rightId (entries.take mid))
  return some (first.1, rightId)

def splitInternal (page : PageId) (link : PageId) (entries : List (Bytes × PageId)) :
    PageM (Option (Bytes × PageId)) := do
  -- One separator moves up, so a node with a single one cannot be split.
  if entries.length < 2 then
    .fail .separatorTooLarge
  else
    let mid := entries.length / 2
    let median ← orPanic entries[mid]?
    let rightId ← alloc
    writeNode rightId (.internal median.2 (entries.drop (mid + 1)))
    writeNode page (.internal link (entries.take mid))
    return some (median.1, rightId)

def insertRec : Nat → PageId → Bytes → Bytes → PageM (Option (Bytes × PageId))
  | 0, _, _, _ => .fail .endless
  | fuel + 1, page, key, val => do
    match ← readNode page with
    | .leaf link entries =>
      let entries := upsert entries key val
      if (Node.leaf link entries).size ≤ pageSize then
        writeNode page (.leaf link entries)
        return none
      else
        splitLeaf page link entries
    | .internal link entries =>
      let child ← orPanic (childFor link entries key)
      let pos := childIndex entries key
      match ← insertRec fuel child key val with
      | some (sep, right) =>
        let entries := entries.insertIdx pos (sep, right)
        if (Node.internal link entries).size ≤ pageSize then
          writeNode page (.internal link entries)
          return none
        else
          splitInternal page link entries
      | none => return none

/-- The tree's root page, 0 for an empty tree. -/
def root (tree : BTree) : PageM PageId := do
  let value ← Kvstore.root tree.rootSlot
  return value.toUInt32

def setRoot (tree : BTree) (id : PageId) : PageM Unit :=
  Kvstore.setRoot tree.rootSlot id.toUInt64

/-- Insert or replace `key → val`. -/
def insert (tree : BTree) (key val : Bytes) : PageM Unit := do
  if 7 + 2 + key.length + 2 + val.length > pageSize then
    .fail (.entryTooLarge key.length val.length)
  else
    let root ← tree.root
    if root = 0 then
      let id ← alloc
      writeNode id (.leaf 0 [(key, val)])
      tree.setRoot id
    else
      match ← insertRec pageLimit root key val with
      | some (sep, right) =>
        let newRoot ← alloc
        writeNode newRoot (.internal root [(sep, right)])
        tree.setRoot newRoot
      | none => return ()

/-! ## Lookup -/

def getLoop : Nat → PageId → Bytes → PageM (Option Bytes)
  | 0, _, _ => .fail .endless
  | fuel + 1, page, key => do
    match ← readNode page with
    | .leaf _ entries =>
      match binarySearch (entries.map Prod.fst) key with
      | .ok i => return (entries[i]?).map Prod.snd
      | .error _ => return none
    | .internal link entries =>
      let child ← orPanic (childFor link entries key)
      getLoop fuel child key

def get (tree : BTree) (key : Bytes) : PageM (Option Bytes) := do
  let page ← tree.root
  if page = 0 then return none else getLoop pageLimit page key

/-- The leaf and position of the first key `≥ key`. -/
def findLeafLoop : Nat → PageId → Bytes → PageM (PageId × Nat)
  | 0, _, _ => .fail .endless
  | fuel + 1, page, key => do
    match ← readNode page with
    | .leaf _ entries =>
      return (page,
        partitionPoint (fun other => decide (other < key)) (entries.map Prod.fst))
    | .internal link entries =>
      let child ← orPanic (childFor link entries key)
      findLeafLoop fuel child key

def findLeafGe (tree : BTree) (key : Bytes) : PageM (Option (PageId × Nat)) := do
  let page ← tree.root
  if page = 0 then return none
  else
    let found ← findLeafLoop pageLimit page key
    return some found

/-- The inner loop of a scan: the entries that start with `start`, and whether the
scan is over. -/
def scanEntries (start : Bytes) : List (Bytes × Bytes) → List (Bytes × Bytes) × Bool
  | [] => ([], false)
  | entry :: rest =>
    if start.isPrefixOf entry.1 then
      let (found, stopped) := scanEntries start rest
      (entry :: found, stopped)
    else if start < entry.1 then
      ([], true)
    else
      scanEntries start rest

def scanLoop (start : Bytes) :
    Nat → PageId → Nat → List (Bytes × Bytes) → PageM (List (Bytes × Bytes))
  | 0, _, _, _ => .fail .endless
  | fuel + 1, page, idx, out => do
    match ← readNode page with
    | .leaf link entries =>
      let (found, stopped) := scanEntries start (entries.drop idx)
      if stopped ∨ link = 0 then return out ++ found
      else scanLoop start fuel link 0 (out ++ found)
    -- The chain holds leaves only.
    | .internal _ _ => .fail .panic

/-- All entries whose key starts with `start`, in key order. -/
def scanPrefix (tree : BTree) (start : Bytes) : PageM (List (Bytes × Bytes)) := do
  match ← tree.findLeafGe start with
  | none => return []
  | some (page, idx) => scanLoop start pageLimit page idx []

/-- All entries in key order. -/
def iterAll (tree : BTree) : PageM (List (Bytes × Bytes)) := tree.scanPrefix []

def countLoop (start : Bytes) : Nat → PageId → Nat → Nat → PageM Nat
  | 0, _, _, _ => .fail .endless
  | fuel + 1, page, idx, n => do
    match ← readNode page with
    | .leaf link entries =>
      let (found, stopped) := scanEntries start (entries.drop idx)
      if stopped ∨ link = 0 then return n + found.length
      else countLoop start fuel link 0 (n + found.length)
    | .internal _ _ => .fail .panic

/-- Number of entries whose key starts with `start`. -/
def countPrefix (tree : BTree) (start : Bytes) : PageM Nat := do
  match ← tree.findLeafGe start with
  | none => return 0
  | some (page, idx) => countLoop start pageLimit page idx 0

def existsLoop (start : Bytes) : Nat → PageId → Nat → PageM Bool
  | 0, _, _ => .fail .endless
  | fuel + 1, page, idx => do
    match ← readNode page with
    | .leaf link entries =>
      match entries[idx]? with
      | some entry => return start.isPrefixOf entry.1
      | none => if link = 0 then return false else existsLoop start fuel link 0
    | .internal _ _ => .fail .panic

/-- Whether any entry has a key starting with `start`. -/
def prefixExists (tree : BTree) (start : Bytes) : PageM Bool := do
  match ← tree.findLeafGe start with
  | none => return false
  | some (page, idx) => existsLoop start pageLimit page idx

/-! ## Deletion -/

/-- Serialized size of the entry at index `i`. -/
def boundaryBytes (node : Node) (i : Nat) : Option Nat :=
  match node with
  | .leaf _ entries => (entries[i]?).map Node.leafEntrySize
  | .internal _ entries => (entries[i]?).map Node.internalEntrySize

/-- The separator at `i` replaced by `key`. -/
def setSeparator (entries : List (Bytes × PageId)) (i : Nat) (key : Bytes) :
    List (Bytes × PageId) :=
  entries.modify i fun entry => (key, entry.2)

/-- Move the left sibling's last entry into the front of child `ci`. Siblings are of one
kind, since every leaf has the same depth. Gives the parent's entries. -/
def borrowFromLeft (link : PageId) (entries : List (Bytes × PageId)) (ci : Nat) :
    PageM (List (Bytes × PageId)) := do
  let lp ← orPanic (childrenVec link entries)[ci - 1]?
  let cp ← orPanic (childrenVec link entries)[ci]?
  let left ← readNode lp
  let child ← readNode cp
  match left, child with
  | .leaf leftLink leftEntries, .leaf childLink childEntries =>
    let moved ← orPanic leftEntries.getLast?
    writeNode lp (.leaf leftLink leftEntries.dropLast)
    writeNode cp (.leaf childLink (moved :: childEntries))
    return setSeparator entries (ci - 1) moved.1
  | .internal leftLink leftEntries, .internal childLink childEntries =>
    let sep ← orPanic entries[ci - 1]?
    let moved ← orPanic leftEntries.getLast?
    writeNode lp (.internal leftLink leftEntries.dropLast)
    writeNode cp (.internal moved.2 ((sep.1, childLink) :: childEntries))
    return setSeparator entries (ci - 1) moved.1
  | _, _ => .fail .panic

/-- Move the right sibling's first entry onto the end of child `ci`. -/
def borrowFromRight (link : PageId) (entries : List (Bytes × PageId)) (ci : Nat) :
    PageM (List (Bytes × PageId)) := do
  let cp ← orPanic (childrenVec link entries)[ci]?
  let rp ← orPanic (childrenVec link entries)[ci + 1]?
  let child ← readNode cp
  let right ← readNode rp
  match child, right with
  | .leaf childLink childEntries, .leaf rightLink rightEntries =>
    let moved ← orPanic rightEntries.head?
    let first ← orPanic rightEntries.tail.head?
    writeNode cp (.leaf childLink (childEntries ++ [moved]))
    writeNode rp (.leaf rightLink rightEntries.tail)
    return setSeparator entries ci first.1
  | .internal childLink childEntries, .internal rightLink rightEntries =>
    let sep ← orPanic entries[ci]?
    let first ← orPanic rightEntries.head?
    writeNode cp (.internal childLink (childEntries ++ [(sep.1, rightLink)]))
    writeNode rp (.internal first.2 rightEntries.tail)
    return setSeparator entries ci first.1
  | _, _ => .fail .panic

/-- Merge child `ci` into its left sibling; free child `ci`'s page. -/
def mergeIntoLeft (link : PageId) (entries : List (Bytes × PageId)) (ci : Nat) :
    PageM (List (Bytes × PageId)) := do
  let lp ← orPanic (childrenVec link entries)[ci - 1]?
  let cp ← orPanic (childrenVec link entries)[ci]?
  let left ← readNode lp
  let child ← readNode cp
  match left, child with
  | .leaf _ leftEntries, .leaf childLink childEntries =>
    writeNode lp (.leaf childLink (leftEntries ++ childEntries))
    free cp
    return entries.eraseIdx (ci - 1)
  | .internal leftLink leftEntries, .internal childLink childEntries =>
    let sep ← orPanic entries[ci - 1]?
    writeNode lp (.internal leftLink (leftEntries ++ (sep.1, childLink) :: childEntries))
    free cp
    return entries.eraseIdx (ci - 1)
  | _, _ => .fail .panic

/-- Merge the right sibling into child `ci`; free the right page. -/
def mergeRightInto (link : PageId) (entries : List (Bytes × PageId)) (ci : Nat) :
    PageM (List (Bytes × PageId)) := do
  let cp ← orPanic (childrenVec link entries)[ci]?
  let rp ← orPanic (childrenVec link entries)[ci + 1]?
  let child ← readNode cp
  let right ← readNode rp
  match child, right with
  | .leaf _ childEntries, .leaf rightLink rightEntries =>
    writeNode cp (.leaf rightLink (childEntries ++ rightEntries))
    free rp
    return entries.eraseIdx ci
  | .internal childLink childEntries, .internal rightLink rightEntries =>
    let sep ← orPanic entries[ci]?
    writeNode cp (.internal childLink (childEntries ++ (sep.1, rightLink) :: rightEntries))
    free rp
    return entries.eraseIdx ci
  | _, _ => .fail .panic

/-- Whether the sibling can spare the entry at `boundary`, next to separator `si`. -/
def canBorrow (sibling child : Node) (boundary : Nat) (entries : List (Bytes × PageId))
    (si : Nat) : PageM Bool := do
  if sibling.keys.length ≥ 2 then
    let entry ← orPanic (boundaryBytes sibling boundary)
    let sep ← orPanic entries[si]?
    let childGain := if child.isLeaf then entry else 6 + sep.1.length
    return decide (sibling.size - entry ≥ underflowBytes ∧ child.size + childGain ≤ pageSize)
  else
    return false

/-- Whether the two siblings around separator `si` fit into one page. -/
def canMerge (left right child : Node) (entries : List (Bytes × PageId)) (si : Nat) :
    PageM Bool := do
  let sep ← orPanic entries[si]?
  let merged :=
    if child.isLeaf then left.size + right.size - 7
    else left.size + right.size - 1 + sep.1.length
  return decide (merged ≤ pageSize)

/-- What the left sibling of child `ci` answers, false if there is none. -/
def askLeft (all : List PageId) (ci : Nat) (question : Node → PageM Bool) : PageM Bool :=
  if ci > 0 then do
    let left ← readNode (← orPanic all[ci - 1]?)
    question left
  else
    pure false

/-- What the right sibling of child `ci` answers, false if there is none. -/
def askRight (all : List PageId) (ci : Nat) (question : Node → PageM Bool) : PageM Bool :=
  if ci + 1 < all.length then do
    let right ← readNode (← orPanic all[ci + 1]?)
    question right
  else
    pure false

/-- Merge the underfull child `ci` with a sibling, if a page can hold both. -/
def rebalanceMerge (parentPage link : PageId) (entries : List (Bytes × PageId)) (ci : Nat)
    (child : Node) : PageM Unit := do
  let all := childrenVec link entries
  let mergeLeft ← askLeft all ci fun left => canMerge left child child entries (ci - 1)
  if mergeLeft then
    let entries ← mergeIntoLeft link entries ci
    writeNode parentPage (.internal link entries)
  else
    let mergeRight ← askRight all ci fun right => canMerge child right child entries ci
    if mergeRight then
      let entries ← mergeRightInto link entries ci
      writeNode parentPage (.internal link entries)
    else
      -- No feasible rebalance: leave the node underfull.
      return ()

/-- Repair an underfull child at index `ci` of the parent's full child vector: borrow
from a sibling, else merge with one. -/
def rebalance (parentPage link : PageId) (entries : List (Bytes × PageId)) (ci : Nat) :
    PageM Unit := do
  let all := childrenVec link entries
  let child ← readNode (← orPanic all[ci]?)
  let borrowLeft ← askLeft all ci fun left =>
    canBorrow left child (left.keys.length - 1) entries (ci - 1)
  if borrowLeft then
    let entries ← borrowFromLeft link entries ci
    writeNode parentPage (.internal link entries)
  else
    let borrowRight ← askRight all ci fun right => canBorrow right child 0 entries ci
    if borrowRight then
      let entries ← borrowFromRight link entries ci
      writeNode parentPage (.internal link entries)
    else
      rebalanceMerge parentPage link entries ci child

def deleteRec : Nat → PageId → Bytes → PageM Bool
  | 0, _, _ => .fail .endless
  | fuel + 1, page, key => do
    match ← readNode page with
    | .leaf link entries =>
      match binarySearch (entries.map Prod.fst) key with
      | .ok i =>
        writeNode page (.leaf link (entries.eraseIdx i))
        return true
      | .error _ => return false
    | .internal link entries =>
      let ci := childIndex entries key
      let childPage ← orPanic (childFor link entries key)
      let removed ← deleteRec fuel childPage key
      if removed then
        let child ← readNode childPage
        if child.size < underflowBytes then
          rebalance page link entries ci
          return true
        else
          return true
      else
        return false

/-- Remove `key`. Whether it was present. -/
def delete (tree : BTree) (key : Bytes) : PageM Bool := do
  let root ← tree.root
  if root = 0 then return false
  else
    let removed ← deleteRec pageLimit root key
    if removed then
      match ← readNode root with
      | .leaf _ entries =>
        if entries = [] then
          free root
          tree.setRoot 0
          return true
        else
          return true
      | .internal link entries =>
        if entries = [] then
          tree.setRoot link
          free root
          return true
        else
          return true
    else
      return false

end BTree

end GStore.Kvstore
