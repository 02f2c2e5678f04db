import GStore.Foundation.SearchTree
import GStore.Kvstore.BTree

/-! # The tree that the pages of a B+ tree hold

Pages name each other; the tree they hold does not. Here the operations of the B+ tree
are functions on that tree, with the pages that `alloc` will hand out passed along.
`TreeHeap` proves that the programs on pages compute them. -/

namespace GStore.Kvstore

open SearchTree SortedSlice

/-- The tree of pages: keys and values are byte strings, and a block is labelled with its
page. -/
abbrev PageTree (height : Nat) : Type := Tree Bytes Bytes PageId height

abbrev PagePayload (height : Nat) : Type := Payload Bytes Bytes PageId height

abbrev PageItems (height : Nat) : Type := List (Bytes × PagePayload height)

/-! ## The node of a block -/

/-- The children of a branch with their bounds. -/
def links {height : Nat} (items : PageItems (height + 1)) : List (Bytes × PageId) :=
  items.map fun item => (item.1, item.2.label)

/-- The first bound is the branch's own and is not stored. -/
def branchNode : List (Bytes × PageId) → Node
  | [] => .internal 0 []
  | first :: rest => .internal first.2 rest

/-- `next` is the leaf after the block, which only a leaf stores. -/
def blockNode : (height : Nat) → PageId → PageItems height → Node
  | 0, next, items => .leaf next items
  | _ + 1, _, items => branchNode (links items)

def blockSize (height : Nat) (items : PageItems height) : Nat := (blockNode height 0 items).size

/-! ## Insertion -/

/-- What an insertion leaves of a block. -/
inductive Grown (height : Nat) where
  | one (tree : PageTree height)
  | two (left : PageTree height) (separator : Bytes) (right : PageTree height)

/-- The items in the place of the block whose bound was `low`. -/
def Grown.items {height : Nat} (low : Bytes) : Grown height → PageItems (height + 1)
  | .one tree => [(low, tree)]
  | .two left separator right => [(low, left), (separator, right)]

/-- What the insertion reports to the parent. -/
def Grown.split {height : Nat} : Grown height → Option (Bytes × PageId)
  | .one _ => none
  | .two _ separator right => some (separator, right.label)

/-- How many items of an overfull block stay. -/
def cutIndex (height : Nat) (items : PageItems height) : Nat :=
  match height with
  | 0 => items.length / 2
  | _ + 1 => (items.length - 1) / 2 + 1

/-- A branch needs two separators, since one moves up. -/
def splittable (height : Nat) (items : PageItems height) : Bool :=
  match height with
  | 0 => true
  | _ + 1 => decide (3 ≤ items.length)

/-- Split an overfull block. -/
def grow {height : Nat} (tree : PageTree height) (supply : List PageId) :
    Except StoreError (Grown height × List PageId) :=
  if blockSize height tree.items ≤ pageSize then
    .ok (.one tree, supply)
  else if splittable height tree.items then
    match tree.items.drop (cutIndex height tree.items), supply with
    | [], _ => .error .panic
    | _ :: _, [] => .error .pageCountOverflow
    | first :: rest, id :: supply =>
      let left := tree.items.take (cutIndex height tree.items)
      if blockSize height (first :: rest) ≤ pageSize ∧ blockSize height left ≤ pageSize then
        .ok (.two ⟨tree.label, left⟩ first.1 ⟨id, first :: rest⟩, supply)
      else
        .error .panic
  else
    .error .separatorTooLarge

def treeInsert : (height : Nat) → PageTree height → Bytes → Bytes → List PageId →
    Except StoreError (Grown height × List PageId)
  | 0, tree, key, val, supply => grow ⟨tree.label, upsert tree.items key val⟩ supply
  | height + 1, tree, key, val, supply =>
    match tree.items.splitAt (route tree.items key) with
    | (front, item :: back) =>
      match treeInsert height item.2 key val supply with
      | .ok (grown, supply) => grow ⟨tree.label, front ++ grown.items item.1 ++ back⟩ supply
      | .error error => .error error
    | (_, []) => .error .panic

/-! ## Deletion -/

/-- Whether the sibling can spare the entry at `boundary`. -/
def lends (sibling child : Node) (boundary : Nat) (separator : Bytes) : Bool :=
  match BTree.boundaryBytes sibling boundary with
  | some entry =>
    decide (2 ≤ sibling.keys.length ∧ underflowBytes ≤ sibling.size - entry ∧
      child.size + (if child.isLeaf then entry else 6 + separator.length) ≤ pageSize)
  | none => false

/-- Whether two siblings fit into one page. -/
def merges (left right : Node) (separator : Bytes) : Bool :=
  decide ((if right.isLeaf then left.size + right.size - 7
    else left.size + right.size - 1 + separator.length) ≤ pageSize)

section Rebalance

variable {height : Nat} (front : PageItems (height + 1)) (low : Bytes) (child : PageTree height)
  (back : PageItems (height + 1))

/-- The children up to the underfull one, with the last entry of its left sibling moved. -/
def borrowLeft : Option (PageItems (height + 1)) :=
  match front.getLast? with
  | none => none
  | some (bound, left) =>
    match left.items.getLast? with
    | none => none
    | some moved =>
      let node := blockNode height 0 left.items
      if lends node (blockNode height 0 child.items) (node.keys.length - 1) low then
        some (front.dropLast ++ [(bound, ⟨left.label, left.items.dropLast⟩),
          (moved.1, ⟨child.label, moved :: child.items⟩)])
      else
        none

/-- The children from the underfull one on, with the first entry of its right sibling
moved. -/
def borrowRight : Option (PageItems (height + 1)) :=
  match back with
  | [] => none
  | (bound, right) :: rest =>
    match right.items with
    | moved :: first :: others =>
      if lends (blockNode height 0 right.items) (blockNode height 0 child.items) 0 bound then
        some ((low, ⟨child.label, child.items ++ [moved]⟩) ::
          (first.1, ⟨right.label, first :: others⟩) :: rest)
      else
        none
    | _ => none

/-- The children up to the underfull one, merged into its left sibling. -/
def mergeLeft : Option (PageItems (height + 1)) :=
  match front.getLast? with
  | none => none
  | some (bound, left) =>
    if merges (blockNode height 0 left.items) (blockNode height 0 child.items) low then
      some (front.dropLast ++ [(bound, ⟨left.label, left.items ++ child.items⟩)])
    else
      none

/-- The children from the underfull one on, with its right sibling merged into it, and the
sibling's page. -/
def mergeRight : Option (PageItems (height + 1) × PageId) :=
  match back with
  | [] => none
  | (bound, right) :: rest =>
    if merges (blockNode height 0 child.items) (blockNode height 0 right.items) bound then
      some ((low, ⟨child.label, child.items ++ right.items⟩) :: rest, right.label)
    else
      none

/-- The parent's items once the underfull child is repaired. -/
def rebalanced (supply : List PageId) : PageItems (height + 1) × List PageId :=
  match borrowLeft front low child with
  | some run => (run ++ back, supply)
  | none =>
    match borrowRight low child back with
    | some run => (front ++ run, supply)
    | none =>
      match mergeLeft front low child with
      | some run => (run ++ back, child.label :: supply)
      | none =>
        match mergeRight low child back with
        | some (run, freed) => (front ++ run, freed :: supply)
        | none => (front ++ Grown.items low (.one child) ++ back, supply)

end Rebalance

/-- `none` when the key is absent. -/
def treeDelete : (height : Nat) → PageTree height → Bytes → List PageId →
    Except StoreError (Option (PageTree height × List PageId))
  | 0, tree, key, supply =>
    match binarySearch (tree.items.map Prod.fst) key with
    | .ok i => .ok (some (⟨tree.label, tree.items.eraseIdx i⟩, supply))
    | .error _ => .ok none
  | height + 1, tree, key, supply =>
    match tree.items.splitAt (route tree.items key) with
    | (front, item :: back) =>
      match treeDelete height item.2 key supply with
      | .ok (some (child, supply)) =>
        if blockSize height child.items < underflowBytes then
          let (items, supply) := rebalanced front item.1 child back supply
          if blockSize (height + 1) items ≤ pageSize then
            .ok (some (⟨tree.label, items⟩, supply))
          else
            .error .panic
        else
          .ok (some (⟨tree.label, front ++ Grown.items item.1 (.one child) ++ back⟩, supply))
      | .ok none => .ok none
      | .error error => .error error
    | (_, []) => .error .panic

/-! ## The whole tree -/

/-- The tree below a root slot, `none` for an empty one. -/
abbrev Rooted : Type := Option (Σ height, PageTree height)

def Rooted.entries : Rooted → List (Bytes × Bytes)
  | none => []
  | some ⟨_, tree⟩ => tree.entries

def Rooted.labels : Rooted → List PageId
  | none => []
  | some ⟨_, tree⟩ => tree.labels

def Rooted.page : Rooted → PageId
  | none => 0
  | some ⟨_, tree⟩ => tree.label

def Rooted.insert (rooted : Rooted) (key val : Bytes) (supply : List PageId) :
    Except StoreError (Rooted × List PageId) :=
  if 7 + 2 + key.length + 2 + val.length > pageSize then
    .error (.entryTooLarge key.length val.length)
  else
    match rooted with
    | none =>
      match supply with
      | [] => .error .pageCountOverflow
      | id :: supply => .ok (some ⟨0, id, [(key, val)]⟩, supply)
    | some ⟨height, tree⟩ =>
      match treeInsert height tree key val supply with
      | .error error => .error error
      | .ok (.one tree, supply) => .ok (some ⟨height, tree⟩, supply)
      | .ok (.two left separator right, []) => .error .pageCountOverflow
      | .ok (.two left separator right, id :: supply) =>
        let items := Grown.items [] (.two left separator right)
        if blockSize (height + 1) items ≤ pageSize then
          .ok (some ⟨height + 1, id, items⟩, supply)
        else
          .error .panic

/-- The root gives way to its only child, and an empty leaf to the empty tree. -/
def shrinkRoot : (height : Nat) → PageTree height → List PageId → Rooted × List PageId
  | 0, tree, supply =>
    match tree.items with
    | [] => (none, tree.label :: supply)
    | _ => (some ⟨0, tree⟩, supply)
  | height + 1, tree, supply =>
    match tree.items with
    | [item] => (some ⟨height, item.2⟩, tree.label :: supply)
    | _ => (some ⟨height + 1, tree⟩, supply)

def Rooted.delete (rooted : Rooted) (key : Bytes) (supply : List PageId) :
    Except StoreError (Bool × Rooted × List PageId) :=
  match rooted with
  | none => .ok (false, none, supply)
  | some ⟨height, tree⟩ =>
    match treeDelete height tree key supply with
    | .error error => .error error
    | .ok none => .ok (false, some ⟨height, tree⟩, supply)
    | .ok (some (tree, supply)) => .ok (true, shrinkRoot height tree supply)

end GStore.Kvstore
