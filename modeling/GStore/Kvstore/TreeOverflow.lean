import GStore.Kvstore.TreeDelete

/-! # Borrowing and the page of the parent

A deletion checks that the page of the child can take what it borrows. The separator between the
two siblings changes as well, and the new one may be longer than the old one. Nothing checks that
the page of the parent can take the difference. -/

namespace GStore.Kvstore

open SearchTree SortedSlice PageM

variable {height : Nat}

/-! ## The size of the parent -/

section Sizes

variable {before after : PageItems (height + 1)} {bound old new : Bytes}
  {left right other another : PagePayload (height + 1)}

end Sizes

/-! ## The separator that a borrow changes -/

section Rebalance

variable (front : PageItems (height + 1)) (low : Bytes) (child : PageTree height)
  (back : PageItems (height + 1))

/-- The separator that a borrow replaces, and the key that takes its place: the last key of the
left sibling, or the second key of the right one. -/
def borrowed : Option (Bytes × Bytes) :=
  if (borrowLeft front low child).isSome then
    (front.getLast?.bind fun left => left.2.items.getLast?).map fun moved => (low, moved.1)
  else if (borrowRight low child back).isSome then
    back.head?.bind fun right => right.2.items[1]?.map fun second => (right.1, second.1)
  else none

variable {front low child back}

end Rebalance

/-! ## Deletion -/

/-- Wherever the deletion borrows, the page of the parent has room for what the new separator is
longer than the old one. -/
def BorrowsFit : (height : Nat) → PageTree height → Bytes → List PageId → Prop
  | 0, _, _, _ => True
  | height + 1, tree, key, supply =>
    match tree.items.splitAt (route tree.items key) with
    | (front, item :: back) =>
      BorrowsFit height item.2 key supply ∧
        ∀ child after, treeDelete height item.2 key supply = .ok (some (child, after)) →
          blockSize height child.items < underflowBytes →
          ∀ old new, borrowed front item.1 child back = some (old, new) →
            blockSize (height + 1) tree.items + new.length ≤ pageSize + old.length
    | (_, []) => True

def Rooted.BorrowsFit (rooted : Rooted) (key : Bytes) (supply : List PageId) : Prop :=
  match rooted with
  | none => True
  | some ⟨height, tree⟩ => Kvstore.BorrowsFit height tree key supply

/-- The heaps that completed insertions and deletions lead to from an empty tree. -/
inductive Grows (btree : BTree) : Heap → Prop
  | empty {heap : Heap} (valid : heap.Valid) (root : heap.roots btree.rootSlot = 0) :
      Grows btree heap
  | insert {heap after : Heap} {key val : Bytes} (grows : Grows btree heap)
      (returns : (btree.insert key val).Returns heap () after) : Grows btree after
  | delete {heap after : Heap} {key : Bytes} {removed : Bool} (grows : Grows btree heap)
      (returns : (btree.delete key).Returns heap removed after) : Grows btree after

theorem represents_empty {heap : Heap} {slot : RootSlot} (root : heap.roots slot = 0) :
    Represents heap slot none where
  root := root
  holds := by simp [Holds, Rooted.cells]
  nodup := List.nodup_nil
  ordered := trivial

theorem Represents.inserted {heap after : Heap} {btree : BTree} {rooted : Rooted}
    {key val : Bytes} (represents : Represents heap btree.rootSlot rooted) (valid : heap.Valid)
    (returns : (btree.insert key val).Returns heap () after) :
    ∃ grown supply, rooted.insert key val heap.supply = .ok (grown, supply) ∧
      after.supply = supply ∧ Represents after btree.rootSlot grown := by
  have spec := insert_represents represents valid key val
  cases inserted : rooted.insert key val heap.supply with
  | error error =>
    rw [inserted] at spec
    rcases spec with ⟨other, failed⟩
    rw [PageM.Returns, failed] at returns
    cases returns
  | ok result =>
    rw [inserted] at spec
    rcases spec with ⟨other, again, supply, grown, -⟩
    rw [(again.unique returns).2] at supply grown
    exact ⟨result.1, result.2, rfl, supply, grown⟩

theorem Represents.deleted {heap after : Heap} {btree : BTree} {rooted : Rooted} {key : Bytes}
    {removed : Bool} (represents : Represents heap btree.rootSlot rooted) (valid : heap.Valid)
    (returns : (btree.delete key).Returns heap removed after) :
    ∃ changed supply, rooted.delete key heap.supply = .ok (removed, changed, supply) ∧
      Represents after btree.rootSlot changed := by
  have spec := delete_represents represents valid key
  cases deleted : rooted.delete key heap.supply with
  | error error =>
    rw [deleted] at spec
    rcases spec with ⟨other, failed⟩
    rw [PageM.Returns, failed] at returns
    cases returns
  | ok result =>
    rw [deleted] at spec
    rcases spec with ⟨other, again, -, changed, -⟩
    have same := again.unique returns
    rw [same.2] at changed
    exact ⟨result.2.1, result.2.2, by rw [← same.1], changed⟩

/-- Every page of a tree that is reached holds a node that fits. -/
theorem Grows.represents {btree : BTree} {heap : Heap} (grows : Grows btree heap) :
    heap.Valid ∧ ∃ rooted, Represents heap btree.rootSlot rooted := by
  induction grows with
  | empty valid root => exact ⟨valid, none, represents_empty root⟩
  | insert _ returns induction =>
    rcases induction with ⟨valid, rooted, represents⟩
    rcases represents.inserted valid returns with ⟨grown, supply, -, -, after⟩
    exact ⟨returns.valid valid, grown, after⟩
  | delete _ returns induction =>
    rcases induction with ⟨valid, rooted, represents⟩
    rcases represents.deleted valid returns with ⟨changed, supply, -, after⟩
    exact ⟨returns.valid valid, changed, after⟩

/-- A heap without pages. -/
def freshHeap : Heap where
  page := fun _ => none
  supply := [1, 2, 3, 4, 5]
  roots := fun _ => 0

theorem valid_freshHeap : freshHeap.Valid where
  supply_nodup := by decide
  supply_free := fun _ _ => rfl
  supply_ne_zero := by simp [freshHeap]
  header_free := rfl

/-- The tree below the first root slot. -/
def firstTree : BTree := ⟨0⟩

/-- Insertions one after the other. -/
def Rooted.insertAll (rooted : Rooted) (supply : List PageId) :
    List (Bytes × Bytes) → Except StoreError (Rooted × List PageId)
  | [] => .ok (rooted, supply)
  | entry :: rest =>
    match rooted.insert entry.1 entry.2 supply with
    | .ok (grown, after) => grown.insertAll after rest
    | .error error => .error error

theorem Grows.insertAll {btree : BTree} (entries : List (Bytes × Bytes)) {heap : Heap}
    {rooted grown : Rooted} {supply : List PageId} (grows : Grows btree heap)
    (represents : Represents heap btree.rootSlot rooted)
    (inserted : rooted.insertAll heap.supply entries = .ok (grown, supply)) :
    ∃ after, Grows btree after ∧ Represents after btree.rootSlot grown ∧
      after.supply = supply := by
  induction entries generalizing heap rooted with
  | nil =>
    cases inserted
    exact ⟨heap, grows, represents, rfl⟩
  | cons entry rest induction =>
    have valid := grows.represents.1
    have spec := insert_represents represents valid entry.1 entry.2
    rw [Rooted.insertAll] at inserted
    cases first : rooted.insert entry.1 entry.2 heap.supply with
    | error error =>
      rw [first] at inserted
      cases inserted
    | ok result =>
      rw [first] at inserted spec
      rcases spec with ⟨after, returns, remaining, kept, -⟩
      refine induction (grows.insert returns) kept ?_
      rw [remaining]
      exact inserted

end GStore.Kvstore
