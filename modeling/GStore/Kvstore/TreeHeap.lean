import GStore.Kvstore.TreeOrder

/-! # A tree in the heap -/

namespace GStore.Kvstore

open SearchTree SortedSlice PageM

/-! ## Nodes in the heap -/

/-- The page at `id` holds the node. -/
def Stored (heap : Heap) (id : PageId) (node : Node) : Prop :=
  node.size ≤ pageSize ∧ heap.page id = some (Page.ofBytes node.body)

/-- The heap with the node at `id`. -/
def Heap.put (heap : Heap) (id : PageId) (node : Node) : Heap :=
  heap.set id (Page.ofBytes node.body)

variable {heap after : Heap} {id other : PageId} {node : Node}

@[simp] theorem supply_put (heap : Heap) (id : PageId) (node : Node) :
    (heap.put id node).supply = heap.supply := rfl

@[simp] theorem roots_put (heap : Heap) (id : PageId) (node : Node) :
    (heap.put id node).roots = heap.roots := rfl

theorem page_put_self (heap : Heap) (id : PageId) (node : Node) :
    (heap.put id node).page id = some (Page.ofBytes node.body) :=
  Function.update_self _ _ _

theorem page_put_of_ne (apart : other ≠ id) (heap : Heap) (node : Node) :
    (heap.put id node).page other = heap.page other :=
  Function.update_of_ne apart _ _

theorem stored_put (fits : node.size ≤ pageSize) (heap : Heap) (id : PageId) :
    Stored (heap.put id node) id node :=
  ⟨fits, page_put_self heap id node⟩

theorem Stored.put {kept : Node} (stored : Stored heap other kept) (apart : other ≠ id)
    (node : Node) : Stored (heap.put id node) other kept :=
  ⟨stored.1, (page_put_of_ne apart heap node).trans stored.2⟩

theorem Stored.live (stored : Stored heap id node) : heap.page id ≠ none := by
  rw [stored.2]
  exact Option.some_ne_none _

theorem returns_orPanic {α : Type} {value : Option α} {result : α} (present : value = some result)
    (heap : Heap) : (orPanic value).Returns heap result heap := by
  rw [present]
  rfl

theorem returns_readNode (stored : Stored heap id node) :
    (readNode id).Returns heap node heap := by
  apply (returns_readPage stored.2).bind
  exact returns_orPanic (Node.parse_serialize (Node.serialize_of_fits stored.1)) heap

theorem returns_writeNode (live : heap.page id ≠ none) (fits : node.size ≤ pageSize) :
    (writeNode id node).Returns heap () (heap.put id node) := by
  obtain ⟨old, oldEq⟩ := Option.ne_none_iff_exists'.mp live
  apply (returns_orPanic (Node.serialize_of_fits fits) heap).bind
  exact returns_writePage oldEq _

theorem fails_writeNode (overflows : pageSize < node.size) (heap : Heap) (id : PageId) :
    (writeNode id node).Fails heap .panic := by
  refine ⟨heap, ?_⟩
  rw [writeNode, Node.serialize_eq_none overflows]
  rfl

/-! ## The pages of a tree -/

/-- The first leaf below a block. -/
def firstLeaf : {height : Nat} → PageTree height → PageId
  | 0, tree => tree.label
  | _ + 1, tree =>
    match tree.items with
    | [] => 0
    | item :: _ => firstLeaf item.2

/-- The first leaf below a list of items, `next` if there is none. -/
def headLeaf : (height : Nat) → PageItems height → PageId → PageId
  | 0, _, next => next
  | _ + 1, [], next => next
  | _ + 1, item :: _, _ => firstLeaf item.2

/-- The cells below each item in turn, each with the leaf that follows it. -/
def chainCells {β : Type} (below : PageId → β → List (PageId × Node))
    (first : List (Bytes × β) → PageId → PageId) :
    List (Bytes × β) → PageId → List (PageId × Node)
  | [], _ => []
  | item :: rest, next => below (first rest next) item.2 ++ chainCells below first rest next

/-- The pages below a list of items with their nodes; `next` is the leaf after the last. -/
def itemCells : (height : Nat) → PageId → PageItems height → List (PageId × Node)
  | 0, _, _ => []
  | height + 1, next, items =>
    chainCells
      (fun next child =>
        (child.label, blockNode height next child.items) :: itemCells height next child.items)
      (headLeaf (height + 1)) items next

/-- The pages of a tree with their nodes; `next` is the leaf after the last. -/
def cells {height : Nat} (next : PageId) (tree : PageTree height) : List (PageId × Node) :=
  (tree.label, blockNode height next tree.items) :: itemCells height next tree.items

variable {height : Nat} {next : PageId}

@[simp] theorem headLeaf_nil (height : Nat) (next : PageId) :
    headLeaf height [] next = next := by
  cases height <;> rfl

@[simp] theorem headLeaf_append (height : Nat) (left right : PageItems height) (next : PageId) :
    headLeaf height (left ++ right) next = headLeaf height left (headLeaf height right next) := by
  cases height with
  | zero => rfl
  | succ height => cases left <;> simp [headLeaf]

/-- The first leaf of a branch is the first leaf below its items. -/
theorem firstLeaf_branch (tree : PageTree (height + 1)) (notEmpty : tree.items ≠ [])
    (next : PageId) : firstLeaf tree = headLeaf (height + 1) tree.items next := by
  rw [firstLeaf]
  split
  · next none => exact absurd none notEmpty
  · next item rest some => rw [some, headLeaf]

@[simp] theorem itemCells_nil (height : Nat) (next : PageId) :
    itemCells height next [] = [] := by
  cases height <;> rfl

@[simp] theorem itemCells_cons_succ (next : PageId) (item : Bytes × PagePayload (height + 1))
    (rest : PageItems (height + 1)) :
    itemCells (height + 1) next (item :: rest) =
      cells (headLeaf (height + 1) rest next) item.2 ++ itemCells (height + 1) next rest := rfl

@[simp] theorem itemCells_append (height : Nat) (next : PageId)
    (left right : PageItems height) :
    itemCells height next (left ++ right) =
      itemCells height (headLeaf height right next) left ++ itemCells height next right := by
  cases height with
  | zero => rfl
  | succ height =>
    induction left with
    | nil => simp
    | cons item rest induction => simp [induction]

theorem map_fst_itemCells : ∀ (height : Nat) (next : PageId) (items : PageItems height),
    (itemCells height next items).map Prod.fst = itemLabels height items := by
  intro height
  induction height with
  | zero => intro next items; rfl
  | succ height below =>
    intro next items
    induction items with
    | nil => simp
    | cons item rest induction => simp [cells, below, induction]

theorem map_fst_cells (next : PageId) (tree : PageTree height) :
    (cells next tree).map Prod.fst = tree.labels := by
  rw [cells, List.map_cons, map_fst_itemCells]
  rfl

/-! ## What a tree occupies -/

/-- Every cell holds its node. -/
def Holds (heap : Heap) (cells : List (PageId × Node)) : Prop :=
  ∀ cell ∈ cells, Stored heap cell.1 cell.2

/-- Only the given pages may differ, and no root does. -/
structure Within (pages : List PageId) (heap after : Heap) : Prop where
  outside : ∀ id, id ∉ pages → after.page id = heap.page id
  roots : after.roots = heap.roots

theorem Within.refl (pages : List PageId) (heap : Heap) : Within pages heap heap :=
  ⟨fun _ _ => rfl, rfl⟩

theorem Within.trans {pages : List PageId} {middle : Heap} (first : Within pages heap middle)
    (second : Within pages middle after) : Within pages heap after :=
  ⟨fun id absent => (second.outside id absent).trans (first.outside id absent),
    second.roots.trans first.roots⟩

theorem Within.mono {pages wider : List PageId} (within : Within pages heap after)
    (subset : ∀ id ∈ pages, id ∈ wider) : Within wider heap after :=
  ⟨fun id absent => within.outside id fun member => absent (subset id member), within.roots⟩

theorem within_put (heap : Heap) (node : Node) {pages : List PageId} (member : id ∈ pages) :
    Within pages heap (heap.put id node) := by
  refine ⟨?_, rfl⟩
  intro other absent
  apply page_put_of_ne
  intro same
  rw [same] at absent
  exact absent member

theorem holds_append {left right : List (PageId × Node)} :
    Holds heap (left ++ right) ↔ Holds heap left ∧ Holds heap right := by
  simp [Holds, or_imp, forall_and]

theorem holds_cons {cell : PageId × Node} {rest : List (PageId × Node)} :
    Holds heap (cell :: rest) ↔ Stored heap cell.1 cell.2 ∧ Holds heap rest := by
  simp [Holds]

/-- Cells away from the changed pages hold what they held. -/
theorem Holds.within {pages : List PageId} {kept : List (PageId × Node)}
    (holds : Holds heap kept) (within : Within pages heap after)
    (apart : ∀ id ∈ kept.map Prod.fst, id ∉ pages) : Holds after kept := by
  intro cell member
  have away := apart cell.1 (List.mem_map_of_mem member)
  exact ⟨(holds cell member).1, (within.outside cell.1 away).trans (holds cell member).2⟩

/-- What is stored is not free. -/
theorem Holds.not_mem_supply {kept : List (PageId × Node)} (holds : Holds heap kept)
    (valid : heap.Valid) : ∀ id ∈ kept.map Prod.fst, id ∉ heap.supply := by
  intro id member free
  obtain ⟨cell, cellMember, same⟩ := List.mem_map.mp member
  have live := (holds cell cellMember).live
  rw [same] at live
  exact live (valid.supply_free id free)

/-! ## Splitting a block -/

/-- The writes that every split ends with. -/
def writeHalves (page : PageId) (separator : Bytes) (left : PageId → Node) (right : Node) :
    PageM (Option (Bytes × PageId)) := do
  let rightId ← alloc
  writeNode rightId right
  writeNode page (left rightId)
  return some (separator, rightId)

theorem fails_writeHalves_overflow {page : PageId} {separator : Bytes} {left : PageId → Node}
    {right : Node} (supply : heap.supply = []) :
    (writeHalves page separator left right).Fails heap .pageCountOverflow :=
  (fails_alloc supply).bind _

section Halves

variable {page : PageId} {separator : Bytes} {left : PageId → Node} {right : Node}
  {rest : List PageId}

/-- The heap once the right half's page is allocated. -/
theorem page_of_alloc (valid : heap.Valid) (supply : heap.supply = id :: rest)
    (live : heap.page page ≠ none) : page ≠ id := by
  intro same
  rw [same] at live
  apply live
  apply valid.supply_free
  rw [supply]
  exact List.mem_cons_self

theorem returns_writeHalves (separator : Bytes) (left : PageId → Node) (valid : heap.Valid)
    (live : heap.page page ≠ none)
    (supply : heap.supply = id :: rest) (rightFits : right.size ≤ pageSize)
    (leftFits : (left id).size ≤ pageSize) :
    ∃ after, (writeHalves page separator left right).Returns heap (some (separator, id)) after ∧
      after.supply = rest ∧ Within (page :: heap.supply) heap after ∧
      Stored after id right ∧ Stored after page (left id) := by
  have apart := page_of_alloc valid supply live
  let allocated : Heap := { heap.set id Page.zero with supply := rest }
  have liveRight : allocated.page id ≠ none := by
    rw [show allocated.page id = some Page.zero from Function.update_self _ _ _]
    exact Option.some_ne_none _
  have livePage : (allocated.put id right).page page ≠ none := by
    rw [page_put_of_ne apart,
      show allocated.page page = heap.page page from Function.update_of_ne apart _ _]
    exact live
  refine ⟨(allocated.put id right).put page (left id), ?_, rfl, ?_, ?_, ?_⟩
  · apply (returns_alloc supply).bind
    apply (returns_writeNode liveRight rightFits).bind
    apply (returns_writeNode livePage leftFits).bind
    exact returns_pure _ _
  · have member : id ∈ page :: heap.supply := by simp [supply]
    have taken : Within (page :: heap.supply) heap allocated := by
      refine ⟨?_, rfl⟩
      intro other absent
      apply Function.update_of_ne
      intro same
      rw [same] at absent
      exact absent member
    exact (taken.trans (within_put _ right member)).trans
      (within_put _ (left id) List.mem_cons_self)
  · exact (stored_put rightFits allocated id).put apart.symm (left id)
  · exact stored_put leftFits _ page

theorem fails_writeHalves_panic (supply : heap.supply = id :: rest)
    (overflows : ¬ (right.size ≤ pageSize ∧ (left id).size ≤ pageSize)) :
    (writeHalves page separator left right).Fails heap .panic := by
  apply (returns_alloc supply).bind_fails
  by_cases rightFits : right.size ≤ pageSize
  · have liveRight : ({ heap.set id Page.zero with supply := rest } : Heap).page id ≠ none := by
      change Function.update heap.page id (some Page.zero) id ≠ none
      rw [Function.update_self]
      exact Option.some_ne_none _
    apply (returns_writeNode liveRight rightFits).bind_fails
    have leftOverflows : pageSize < (left id).size := by
      by_contra small
      exact overflows ⟨rightFits, by omega⟩
    exact (fails_writeNode leftOverflows _ page).bind _
  · exact (fails_writeNode (by omega) _ id).bind _

end Halves

/-- The split of an overfull block, of either kind. -/
def splitBlock (height : Nat) (page next : PageId) (items : PageItems height) :
    PageM (Option (Bytes × PageId)) :=
  match blockNode height next items with
  | .leaf link entries => BTree.splitLeaf page link entries
  | .internal link entries => BTree.splitInternal page link entries

/-- What an insertion does with the block it has changed. -/
def growBlock (height : Nat) (page next : PageId) (items : PageItems height) :
    PageM (Option (Bytes × PageId)) :=
  if (blockNode height next items).size ≤ pageSize then do
    writeNode page (blockNode height next items)
    return none
  else
    splitBlock height page next items

theorem drop_cutIndex_ne_nil {items : PageItems height}
    (overflows : pageSize < blockSize height items) (split : splittable height items = true) :
    items.drop (cutIndex height items) ≠ [] := by
  cases height with
  | zero =>
    cases items with
    | nil => exact absurd overflows (by decide)
    | cons item rest =>
      rw [Ne, List.drop_eq_nil_iff, cutIndex, List.length_cons]
      omega
  | succ height =>
    have long : 3 ≤ items.length := of_decide_eq_true split
    rw [Ne, List.drop_eq_nil_iff, cutIndex]
    omega

theorem splitLeaf_eq {entries rest : List (Bytes × Bytes)} {first : Bytes × Bytes}
    (dropped : entries.drop (entries.length / 2) = first :: rest) (page next : PageId) :
    BTree.splitLeaf page next entries =
      writeHalves page first.1
        (fun rightId => .leaf rightId (entries.take (entries.length / 2)))
        (.leaf next (first :: rest)) := by
  unfold BTree.splitLeaf
  dsimp only
  rw [dropped]
  rfl

theorem splitInternal_eq {entries : List (Bytes × PageId)} {median : Bytes × PageId}
    (long : 2 ≤ entries.length) (middle : entries[entries.length / 2]? = some median)
    (page link : PageId) :
    BTree.splitInternal page link entries =
      writeHalves page median.1 (fun _ => .internal link (entries.take (entries.length / 2)))
        (.internal median.2 (entries.drop (entries.length / 2 + 1))) := by
  unfold BTree.splitInternal
  rw [if_neg (by omega)]
  dsimp only
  rw [middle]
  rfl

theorem splitBlock_eq {items rest : PageItems height} {first : Bytes × PagePayload height}
    (split : splittable height items = true)
    (dropped : items.drop (cutIndex height items) = first :: rest) (page next : PageId) :
    splitBlock height page next items =
      writeHalves page first.1
        (fun rightId => blockNode height rightId (items.take (cutIndex height items)))
        (blockNode height next (first :: rest)) := by
  cases height with
  | zero => exact splitLeaf_eq dropped page next
  | succ height =>
    have long : 3 ≤ items.length := of_decide_eq_true split
    cases items with
    | nil => cases dropped
    | cons item others =>
      have length : (links others).length = (item :: others).length - 1 := by simp [links]
      have drops : (links others).drop ((links others).length / 2) =
          links (first :: rest) := by
        rw [length, links, ← List.map_drop]
        rw [cutIndex, List.drop_succ_cons] at dropped
        rw [dropped]
        rfl
      have median : (links others)[(links others).length / 2]? =
          some (first.1, first.2.label) := by
        rw [← List.head?_drop, drops]
        rfl
      have right : (links others).drop ((links others).length / 2 + 1) = links rest := by
        rw [← List.tail_drop, drops]
        rfl
      have left : (links others).take ((links others).length / 2) =
          links (others.take (((item :: others).length - 1) / 2)) := by
        rw [length, links, links, List.map_take]
      have halves := splitInternal_eq (by omega) median page item.2.label
      rw [right, left] at halves
      exact halves

theorem splitBlock_fails {items : PageItems height} (split : splittable height items = false)
    (notEmpty : items ≠ []) (page next : PageId) (heap : Heap) :
    (splitBlock height page next items).Fails heap .separatorTooLarge := by
  cases height with
  | zero => cases split
  | succ height =>
    have short : ¬ 3 ≤ items.length := of_decide_eq_false split
    cases items with
    | nil => exact absurd rfl notEmpty
    | cons item others =>
      have few : (links others).length < 2 := by
        rw [links, List.length_map]
        rw [List.length_cons] at short
        omega
      change (BTree.splitInternal page item.2.label (links others)).Fails heap _
      rw [BTree.splitInternal, if_pos few]
      exact ⟨heap, rfl⟩

/-- The blocks that an insertion leaves are stored. -/
def GrownStored (heap : Heap) (next : PageId) : {height : Nat} → Grown height → Prop
  | height, .one tree => Stored heap tree.label (blockNode height next tree.items)
  | height, .two left _ right =>
    Stored heap left.label (blockNode height (firstLeaf right) left.items) ∧
      Stored heap right.label (blockNode height next right.items)

/-- A branch's node does not depend on the next leaf, and a leaf is its own first leaf. -/
theorem blockNode_firstLeaf (items : PageItems height) (tree : PageTree height) :
    blockNode height (firstLeaf tree) items = blockNode height tree.label items := by
  cases height <;> rfl

/-- The program on the block's page computes `grow`. -/
theorem growBlock_runs (tree : PageTree height) (valid : heap.Valid)
    (live : heap.page tree.label ≠ none) (next : PageId) :
    match grow tree heap.supply with
    | .ok (grown, supply) =>
      ∃ after, (growBlock height tree.label next tree.items).Returns heap grown.split after ∧
        after.supply = supply ∧ Within (tree.label :: heap.supply) heap after ∧
        GrownStored after next grown
    | .error error => (growBlock height tree.label next tree.items).Fails heap error := by
  unfold grow
  rw [growBlock, size_blockNode]
  by_cases fits : blockSize height tree.items ≤ pageSize
  · rw [if_pos fits, if_pos fits]
    have nodeFits : (blockNode height next tree.items).size ≤ pageSize := by
      rw [size_blockNode]
      exact fits
    refine ⟨heap.put tree.label (blockNode height next tree.items), ?_, rfl,
      within_put heap _ List.mem_cons_self, stored_put nodeFits heap tree.label⟩
    exact (returns_writeNode live nodeFits).bind (returns_pure _ _)
  · rw [if_neg fits, if_neg fits]
    by_cases split : splittable height tree.items = true
    · rw [if_pos split]
      obtain ⟨first, rest, dropped⟩ :=
        List.exists_cons_of_ne_nil (drop_cutIndex_ne_nil (by omega) split)
      rw [splitBlock_eq split dropped, dropped]
      cases supply : heap.supply with
      | nil => exact fails_writeHalves_overflow supply
      | cons id others =>
        dsimp only
        by_cases halves : blockSize height (first :: rest) ≤ pageSize ∧
            blockSize height (tree.items.take (cutIndex height tree.items)) ≤ pageSize
        · rw [if_pos halves]
          obtain ⟨after, returns, remaining, within, rightStored, leftStored⟩ :=
            returns_writeHalves first.1
              (fun rightId => blockNode height rightId
                (tree.items.take (cutIndex height tree.items)))
              valid live supply
              ((size_blockNode height next (first :: rest)).trans_le halves.1)
              ((size_blockNode height id _).trans_le halves.2)
          rw [supply] at within
          refine ⟨after, returns, remaining, within, ?_, rightStored⟩
          rw [blockNode_firstLeaf]
          exact leftStored
        · rw [if_neg halves]
          apply fails_writeHalves_panic supply
          rw [size_blockNode, size_blockNode]
          exact halves
    · rw [if_neg split]
      apply splitBlock_fails (by simpa using split)
      intro none
      rw [none, blockSize_nil] at fits
      exact fits (by decide)

end GStore.Kvstore
