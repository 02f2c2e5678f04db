import GStore.Kvstore.TreeHeap

/-! # Insertion on pages computes insertion on the tree -/

namespace GStore.Kvstore

open SearchTree SortedSlice PageM

variable {height : Nat} {heap : Heap} {next : PageId} {tree : PageTree height}
  {supply after : List PageId} {grown : Grown height}

/-! ## No page is lost -/

theorem grow_labels (low : Bytes) (result : grow tree supply = .ok (grown, after)) :
    (itemLabels (height + 1) (grown.items low) ++ after).Perm (tree.labels ++ supply) := by
  rcases grow_cases result with
    ⟨-, rfl, rfl⟩ | ⟨left, first, rest, id, -, equal, -, -, -, rfl, -, -, rfl⟩
  · simp [Grown.items, Block.labels]
  · rw [List.perm_iff_count]
    intro other
    rw [Block.labels, equal]
    simp only [Grown.items, itemLabels_cons_succ, itemLabels_append, itemLabels_nil,
      List.count_append, List.count_cons, List.append_nil, List.cons_append]
    omega

theorem treeInsert_labels : ∀ {height : Nat} {tree : PageTree height} {key val : Bytes}
    {supply after : List PageId} {grown : Grown height} (low : Bytes),
    treeInsert height tree key val supply = .ok (grown, after) →
    (itemLabels (height + 1) (grown.items low) ++ after).Perm (tree.labels ++ supply) := by
  intro height
  induction height with
  | zero =>
    intro tree key val supply after grown low result
    rw [treeInsert_leaf] at result
    have labels := grow_labels low result
    exact labels
  | succ height induction =>
    intro tree key val supply after grown low result
    obtain ⟨front, item, back, child, middle, items, -, inserted, grew⟩ :=
      treeInsert_cases result
    have inner := induction item.1 inserted
    refine (grow_labels low grew).trans ?_
    rw [List.perm_iff_count] at inner ⊢
    intro other
    have count := inner other
    simp only [Block.labels, items, itemLabels_append, itemLabels_cons_succ,
      List.count_append, List.count_cons, List.cons_append] at count ⊢
    omega

/-! ## The first page and the first leaf stay -/

/-- The page of the first block that an insertion leaves. -/
def Grown.label : Grown height → PageId
  | .one tree => tree.label
  | .two left _ _ => left.label

theorem grow_label (result : grow tree supply = .ok (grown, after)) : grown.label = tree.label := by
  rcases grow_cases result with ⟨-, rfl, -⟩ | ⟨left, first, rest, id, -, -, -, -, -, -, -, -, rfl⟩
  · rfl
  · rfl

theorem grow_firstLeaf (low : Bytes) (next : PageId)
    (result : grow tree supply = .ok (grown, after)) :
    headLeaf (height + 1) (grown.items low) next = firstLeaf tree := by
  rcases grow_cases result with
    ⟨-, rfl, -⟩ | ⟨left, first, rest, id, -, equal, notFirst, -, -, -, -, -, rfl⟩
  · rfl
  · change firstLeaf _ = firstLeaf tree
    cases height with
    | zero => rfl
    | succ height =>
      rw [firstLeaf_branch tree (by rw [equal]; simp) next,
        firstLeaf_branch _ notFirst (headLeaf (height + 1) (first :: rest) next), equal,
        headLeaf_append]

theorem treeInsert_label {key val : Bytes}
    (result : treeInsert height tree key val supply = .ok (grown, after)) :
    grown.label = tree.label := by
  cases height with
  | zero =>
    rw [treeInsert_leaf] at result
    have label := grow_label result
    exact label
  | succ height =>
    obtain ⟨front, item, back, child, middle, -, -, -, grew⟩ := treeInsert_cases result
    have label := grow_label grew
    exact label

theorem treeInsert_firstLeaf : ∀ {height : Nat} {tree : PageTree height} {key val : Bytes}
    {supply after : List PageId} {grown : Grown height} (low : Bytes) (next : PageId),
    treeInsert height tree key val supply = .ok (grown, after) →
    headLeaf (height + 1) (grown.items low) next = firstLeaf tree := by
  intro height
  induction height with
  | zero =>
    intro tree key val supply after grown low next result
    rw [treeInsert_leaf] at result
    have first := grow_firstLeaf low next result
    exact first
  | succ height induction =>
    intro tree key val supply after grown low next result
    obtain ⟨front, item, back, child, middle, items, -, inserted, grew⟩ :=
      treeInsert_cases result
    have inner := induction item.1 (headLeaf (height + 1) back next) inserted
    have notEmpty : front ++ child.items item.1 ++ back ≠ [] := by
      cases child <;> simp [Grown.items]
    rw [grow_firstLeaf low next grew, firstLeaf_branch _ notEmpty next,
      firstLeaf_branch tree (by simp [items]) next, items]
    simp only [headLeaf_append, inner]
    rfl

/-! ## Insertion below a page -/

/-- The blocks that a split leaves hold the cells of the block it split. -/
theorem holds_grown {supply remaining : List PageId} {after : Heap} (low : Bytes)
    (result : grow tree supply = .ok (grown, remaining)) (blocks : GrownStored after next grown)
    (below : Holds after (itemCells height next tree.items)) :
    Holds after (itemCells (height + 1) next (grown.items low)) := by
  rcases grow_cases result with
    ⟨-, rfl, -⟩ | ⟨left, first, rest, id, -, equal, -, -, -, -, -, -, rfl⟩
  · simp only [Grown.items, itemCells_cons_succ, itemCells_nil, List.append_nil, headLeaf_nil]
    exact holds_cons.mpr ⟨blocks, below⟩
  · rw [equal, itemCells_append] at below
    have leaves : itemCells height (headLeaf height (first :: rest) next) left =
        itemCells height (firstLeaf (⟨id, first :: rest⟩ : PageTree height)) left := by
      cases height with
      | zero => rfl
      | succ height => rfl
    rw [leaves] at below
    simp only [Grown.items, itemCells_cons_succ, itemCells_nil, List.append_nil, headLeaf_nil]
    rw [holds_append] at below ⊢
    exact ⟨holds_cons.mpr ⟨blocks.1, below.1⟩, holds_cons.mpr ⟨blocks.2, below.2⟩⟩

theorem nodup_owned (holds : Holds heap (cells next tree)) (valid : heap.Valid)
    (nodup : tree.labels.Nodup) : (tree.labels ++ heap.supply).Nodup := by
  rw [List.nodup_append]
  refine ⟨nodup, valid.supply_nodup, ?_⟩
  intro id member other otherMember same
  rw [← map_fst_cells next tree] at member
  rw [← same] at otherMember
  exact holds.not_mem_supply valid id member otherMember

/-- The items are a front, one item and the rest, and the pages beside the item's are
neither its own nor free. -/
theorem apart_of_nodup {α : Type} {before inside behind free : List α}
    (nodup : (before ++ (inside ++ behind) ++ free).Nodup) :
    ∀ id ∈ before ++ behind, id ∉ inside ++ free := by
  intro id member other
  simp only [List.nodup_append, List.mem_append] at nodup member other
  grind

theorem childIndex_links (first : Bytes × PagePayload (height + 1))
    (rest : PageItems (height + 1)) (key : Bytes) :
    childIndex (links rest) key = route (first :: rest) key := by
  rw [childIndex, route, links, List.map_map]
  rfl

theorem childFor_links {first item : Bytes × PagePayload (height + 1)}
    {rest front back : PageItems (height + 1)} {key : Bytes}
    (equal : first :: rest = front ++ item :: back)
    (position : front.length = route (first :: rest) key) :
    childFor first.2.label (links rest) key = some item.2.label := by
  rw [childFor, childIndex_links first, ← position]
  cases front with
  | nil =>
    rw [List.nil_append, List.cons.injEq] at equal
    simp [equal.1]
  | cons head tail =>
    rw [List.cons_append, List.cons.injEq] at equal
    simp [equal.2, links]

/-- The parent's entries once its child has been split. -/
theorem insertIdx_links {first item : Bytes × PagePayload (height + 1)}
    {rest front back : PageItems (height + 1)} {left : PageTree height}
    (equal : first :: rest = front ++ item :: back) (label : left.label = item.2.label)
    (separator : Bytes) (right : PageTree height) :
    branchNode (links (front ++ Grown.items item.1 (.two left separator right) ++ back)) =
      .internal first.2.label
        ((links rest).insertIdx front.length (separator, right.label)) := by
  cases front with
  | nil =>
    rw [List.nil_append, List.cons.injEq] at equal
    simp [links, branchNode, Grown.items, equal, label]
  | cons head tail =>
    rw [List.cons_append, List.cons.injEq] at equal
    have inserted := insertIdx_length_append (links (tail ++ [item])) (links back)
      (separator, right.label)
    have length : (links (tail ++ [item])).length = tail.length + 1 := by simp [links]
    rw [length] at inserted
    have parts : links rest = links (tail ++ [item]) ++ links back := by
      rw [equal.2]
      simp [links]
    rw [parts, List.length_cons, inserted]
    simp [links, branchNode, Grown.items, equal.1, label]

theorem branchNode_one {item : Bytes × PagePayload (height + 1)}
    {front back : PageItems (height + 1)} {child : PageTree height}
    (label : child.label = item.2.label) :
    branchNode (links (front ++ Grown.items item.1 (.one child) ++ back)) =
      branchNode (links (front ++ item :: back)) := by
  simp [links, Grown.items, label]

section Child

variable {tree : PageTree (height + 1)} {front back : PageItems (height + 1)}
  {item : Bytes × PagePayload (height + 1)}

theorem cells_of_items (equal : tree.items = front ++ item :: back) (next : PageId) :
    cells next tree =
      (tree.label, blockNode (height + 1) next tree.items) ::
        (itemCells (height + 1) (firstLeaf item.2) front ++
          (cells (headLeaf (height + 1) back next) item.2 ++
            itemCells (height + 1) next back)) := by
  rw [cells, equal, itemCells_append, itemCells_cons_succ]
  rfl

theorem labels_of_items (equal : tree.items = front ++ item :: back) :
    tree.labels = tree.label :: itemLabels (height + 1) front ++
      (item.2.labels ++ itemLabels (height + 1) back) := by
  rw [Block.labels, equal, itemLabels_append, itemLabels_cons_succ]
  rfl

/-- What a change below one child leaves of the block above it. -/
theorem holds_replaced {middle : Heap} {run : PageItems (height + 1)}
    (equal : tree.items = front ++ item :: back) (holds : Holds heap (cells next tree))
    (valid : heap.Valid) (nodup : tree.labels.Nodup)
    (within : Within (item.2.labels ++ heap.supply) heap middle)
    (first : headLeaf (height + 1) run (headLeaf (height + 1) back next) = firstLeaf item.2)
    (replaced : Holds middle (itemCells (height + 1) (headLeaf (height + 1) back next) run)) :
    Stored middle tree.label (blockNode (height + 1) next tree.items) ∧
      Holds middle (itemCells (height + 1) next (front ++ run ++ back)) := by
  have owned := nodup_owned holds valid nodup
  rw [labels_of_items equal] at owned
  have apart := apart_of_nodup owned
  rw [cells_of_items equal] at holds
  obtain ⟨root, frontHolds, -, backHolds⟩ :
      _ ∧ Holds heap _ ∧ Holds heap _ ∧ Holds heap _ := by
    simpa only [holds_cons, holds_append] using holds
  have rootKept : Holds middle [(tree.label, blockNode (height + 1) next tree.items)] := by
    refine (holds_cons.mpr ⟨root, by simp [Holds]⟩ : Holds heap [_]).within within ?_
    intro id member
    apply apart
    simp only [List.map_cons, List.map_nil, List.mem_singleton] at member
    simp [member]
  have frontKept := frontHolds.within within fun id member => by
    rw [map_fst_itemCells] at member
    apply apart
    simp [member]
  have backKept := backHolds.within within fun id member => by
    rw [map_fst_itemCells] at member
    apply apart
    simp [member]
  refine ⟨(holds_cons.mp rootKept).1, ?_⟩
  rw [itemCells_append, itemCells_append, first, holds_append, holds_append]
  exact ⟨⟨frontKept, replaced⟩, backKept⟩

end Child

/-- The code after the child's split is `growBlock` of the parent. -/
theorem growBlock_branch {items : PageItems (height + 1)} {link : PageId}
    {entries : List (Bytes × PageId)} (node : branchNode (links items) = .internal link entries)
    (page next : PageId) :
    growBlock (height + 1) page next items =
      if (Node.internal link entries).size ≤ pageSize then do
        writeNode page (.internal link entries)
        return none
      else
        BTree.splitInternal page link entries := by
  have same : blockNode (height + 1) next items = .internal link entries := node
  rw [growBlock, splitBlock, same]

/-- Where the search for `key` goes on below the page of a branch. -/
structure Descent (heap : Heap) (key : Bytes) (next : PageId) (high : WithTop Bytes)
    (tree : PageTree (height + 1)) (front : PageItems (height + 1))
    (item : Bytes × PagePayload (height + 1)) (back : PageItems (height + 1))
    (first : Bytes × PagePayload (height + 1)) (rest : PageItems (height + 1)) : Prop where
  equal : tree.items = front ++ item :: back
  position : front.length = route tree.items key
  lowKey : item.1 ≤ key
  keyHigh : (key : WithTop Bytes) < bound back high
  ordered : Ordered height item.1 (bound back high) item.2.items
  holds : Holds heap (cells (headLeaf (height + 1) back next) item.2)
  items : tree.items = first :: rest
  stored : Stored heap tree.label (.internal first.2.label (links rest))
  child : childFor first.2.label (links rest) key = some item.2.label
  index : childIndex (links rest) key = front.length

theorem descent {tree : PageTree (height + 1)} {low key : Bytes} {high : WithTop Bytes}
    (ordered : Ordered (height + 1) low high tree.items) (lowKey : low ≤ key)
    (keyHigh : (key : WithTop Bytes) < high) (holds : Holds heap (cells next tree)) :
    ∃ front item back first rest, Descent heap key next high tree front item back first rest := by
  obtain ⟨front, item, back, equal, position, itemKey, keyBack⟩ := ordered.route lowKey keyHigh
  obtain ⟨first, rest, items⟩ := List.exists_cons_of_ne_nil (by simp [equal] : tree.items ≠ [])
  have whole : Ordered (height + 1) low high (front ++ item :: [] ++ back) := by
    rw [equal] at ordered
    simpa using ordered
  have stored := (holds_cons.mp holds).1
  rw [items] at stored
  rw [cells_of_items equal, holds_cons, holds_append, holds_append] at holds
  refine ⟨front, item, back, first, rest, equal, position, itemKey, keyBack,
    (ordered_single.mp whole.run).1, holds.2.2.1, items, stored, ?_, ?_⟩
  · rw [items] at equal position
    exact childFor_links equal position
  · rw [childIndex_links first, ← items, position]

/-- Insertion below a page computes `treeInsert` and touches only the tree's pages and
those it allocates. -/
theorem insertRec_runs : ∀ {height : Nat} {tree : PageTree height} {heap : Heap} {low : Bytes}
    {high : WithTop Bytes} {key : Bytes} {next : PageId} (val : Bytes) {fuel : Nat},
    height < fuel → Ordered height low high tree.items → low ≤ key →
    (key : WithTop Bytes) < high → heap.Valid → Holds heap (cells next tree) →
    tree.labels.Nodup →
    match treeInsert height tree key val heap.supply with
    | .ok (grown, supply) =>
      ∃ after, (BTree.insertRec fuel tree.label key val).Returns heap grown.split after ∧
        after.supply = supply ∧ Within (tree.labels ++ heap.supply) heap after ∧
        Holds after (itemCells (height + 1) next (grown.items low))
    | .error error => (BTree.insertRec fuel tree.label key val).Fails heap error := by
  intro height
  induction height with
  | zero =>
    intro tree heap low high key next val fuel enough ordered lowKey keyHigh valid holds nodup
    obtain ⟨fuel, rfl⟩ := Nat.exists_eq_succ_of_ne_zero (by omega : fuel ≠ 0)
    have stored : Stored heap tree.label (.leaf next tree.items) := (holds_cons.mp holds).1
    have changed := growBlock_runs (⟨tree.label, upsert tree.items key val⟩ : PageTree 0)
      valid stored.live next
    rw [treeInsert_leaf]
    rcases grew : grow (⟨tree.label, upsert tree.items key val⟩ : PageTree 0) heap.supply with
      error | ⟨grown, supply⟩
    · rw [grew] at changed
      exact (returns_readNode stored).bind_fails changed
    · rw [grew] at changed
      obtain ⟨after, returns, remaining, within, blocks⟩ := changed
      refine ⟨after, ?_, remaining, within, ?_⟩
      · exact (returns_readNode stored).bind returns
      · have leaf := holds_grown low grew blocks (by simp [itemCells, Holds])
        exact leaf
  | succ height induction =>
    intro tree heap low high key next val fuel enough ordered lowKey keyHigh valid holds nodup
    obtain ⟨fuel, rfl⟩ := Nat.exists_eq_succ_of_ne_zero (by omega : fuel ≠ 0)
    obtain ⟨front, item, back, first, rest, equal, position, itemKey, keyBack, inChild, childHolds,
      items, stored, descend, pos⟩ := descent ordered lowKey keyHigh holds
    have childNodup : item.2.labels.Nodup := by
      rw [labels_of_items equal, List.nodup_append, List.nodup_append] at nodup
      exact nodup.2.1.1
    have child := induction val (by omega : height < fuel) inChild itemKey keyBack valid
      childHolds childNodup
    rw [treeInsert, splitAt_route equal position]
    dsimp only
    cases inserted : treeInsert height item.2 key val heap.supply with
    | error error =>
      rw [inserted] at child
      apply (returns_readNode stored).bind_fails
      apply (returns_orPanic descend heap).bind_fails
      exact child.bind _
    | ok result =>
      obtain ⟨grown, middleSupply⟩ := result
      rw [inserted] at child
      dsimp only
      obtain ⟨middle, returns, remaining, within, replaced⟩ := child
      have firstKept := treeInsert_firstLeaf item.1 (headLeaf (height + 1) back next) inserted
      obtain ⟨rootStored, below⟩ :=
        holds_replaced equal holds valid nodup within firstKept replaced
      have conserved : (tree.label ::
          itemLabels (height + 1) (front ++ grown.items item.1 ++ back) ++ middleSupply).Perm
          (tree.labels ++ heap.supply) := by
        have inner := treeInsert_labels item.1 inserted
        rw [List.perm_iff_count] at inner ⊢
        intro id
        have count := inner id
        simp only [labels_of_items equal, itemLabels_append, List.count_append,
          List.count_cons, List.cons_append] at count ⊢
        omega
      have middleNodup := conserved.nodup_iff.mpr (nodup_owned holds valid nodup)
      have wider : ∀ id ∈ item.2.labels ++ heap.supply, id ∈ tree.labels ++ heap.supply := by
        intro id member
        rw [labels_of_items equal]
        simp only [List.mem_append] at member ⊢
        tauto
      cases grown with
      | one child =>
        have label : child.label = item.2.label := treeInsert_label inserted
        have node : blockNode (height + 1) next
            (front ++ Grown.items item.1 (.one child) ++ back) =
            blockNode (height + 1) next tree.items := by
          rw [equal]
          exact branchNode_one label
        have fits : blockSize (height + 1)
            (front ++ Grown.items item.1 (.one child) ++ back) ≤ pageSize := by
          rw [← size_blockNode (height + 1) next, node]
          exact rootStored.1
        have grew : grow (⟨tree.label, front ++ Grown.items item.1 (.one child) ++ back⟩ :
            PageTree (height + 1)) middleSupply = .ok (.one _, middleSupply) := if_pos fits
        rw [grew]
        refine ⟨middle, ?_, remaining, within.mono wider, ?_⟩
        · apply (returns_readNode stored).bind
          apply (returns_orPanic descend heap).bind
          exact returns.bind (returns_pure _ _)
        · rw [← node] at rootStored
          exact holds_grown low grew rootStored below
      | two left separator right =>
        have label : left.label = item.2.label := treeInsert_label inserted
        have node := insertIdx_links (items ▸ equal) label separator right
        have changed := growBlock_runs (⟨tree.label,
          front ++ Grown.items item.1 (.two left separator right) ++ back⟩ :
          PageTree (height + 1)) (returns.valid valid) rootStored.live next
        rw [growBlock_branch node, ← pos, remaining] at changed
        rcases grew : grow (⟨tree.label,
            front ++ Grown.items item.1 (.two left separator right) ++ back⟩ :
            PageTree (height + 1)) middleSupply with
          error | ⟨grown, supply⟩
        · rw [grew] at changed
          apply (returns_readNode stored).bind_fails
          apply (returns_orPanic descend heap).bind_fails
          exact returns.bind_fails changed
        · rw [grew] at changed
          obtain ⟨after, writes, rest, changes, blocks⟩ := changed
          refine ⟨after, ?_, rest, (within.mono wider).trans (changes.mono ?_), ?_⟩
          · apply (returns_readNode stored).bind
            apply (returns_orPanic descend heap).bind
            exact returns.bind writes
          · intro id member
            apply conserved.subset
            simp only [List.mem_cons, List.cons_append, List.mem_append] at member ⊢
            tauto
          · refine holds_grown low grew blocks (below.within changes ?_)
            intro id member
            rw [map_fst_itemCells] at member
            simp only [List.cons_append, List.nodup_cons, List.nodup_append] at middleNodup
            simp only [List.mem_cons, not_or]
            grind

/-! ## The whole tree -/

def Rooted.cells : Rooted → List (PageId × Node)
  | none => []
  | some ⟨_, tree⟩ => Kvstore.cells 0 tree

def Rooted.Ordered : Rooted → Prop
  | none => True
  | some ⟨height, tree⟩ => SearchTree.Ordered height [] ⊤ tree.items

/-- The heap holds the tree below the root slot. -/
structure Represents (heap : Heap) (slot : RootSlot) (rooted : Rooted) : Prop where
  root : heap.roots slot = rooted.page.toUInt64
  holds : Holds heap rooted.cells
  nodup : rooted.labels.Nodup
  ordered : rooted.Ordered

/-- Only the given pages and the given root slot may differ. -/
structure Touches (pages : List PageId) (slot : RootSlot) (heap after : Heap) : Prop where
  outside : ∀ id, id ∉ pages → after.page id = heap.page id
  roots : ∀ other, other ≠ slot → after.roots other = heap.roots other

theorem Within.touches {pages : List PageId} {after : Heap} (within : Within pages heap after)
    (slot : RootSlot) : Touches pages slot heap after :=
  ⟨within.outside, fun other _ => congrFun within.roots other⟩

theorem height_lt_length_labels : ∀ {height : Nat} {low : Bytes} {high : WithTop Bytes}
    {items : PageItems height}, Ordered height low high items →
    height ≤ (itemLabels height items).length := by
  intro height
  induction height with
  | zero => intro low high items ordered; omega
  | succ height induction =>
    intro low high items ordered
    cases items with
    | nil => cases ordered.1
    | cons item rest =>
      have below := induction ordered.2.1
      rw [itemLabels_cons_succ, List.length_append, List.length_cons]
      omega

/-- The fuel suffices: a path has no page twice. -/
theorem height_lt_pageLimit {low : Bytes} {high : WithTop Bytes}
    (ordered : Ordered height low high tree.items) (nodup : tree.labels.Nodup) :
    height < pageLimit := by
  have bound := length_le_pageLimit nodup
  have below := height_lt_length_labels ordered
  rw [Block.labels, List.length_cons] at bound
  omega

section Root

variable {btree : BTree} {rooted : Rooted}

theorem Represents.returns_root (represents : Represents heap btree.rootSlot rooted) :
    btree.root.Returns heap rooted.page heap := by
  apply (Kvstore.returns_root btree.rootSlot).bind
  rw [represents.root, UInt32.toUInt32_toUInt64]
  exact returns_pure _ _

theorem Represents.page_ne_zero {tree : PageTree height}
    (represents : Represents heap btree.rootSlot (some ⟨height, tree⟩)) (valid : heap.Valid) :
    tree.label ≠ 0 := by
  intro zero
  have stored := (holds_cons.mp represents.holds).1
  have live := stored.live
  rw [zero] at live
  exact live valid.header_free

theorem nil_le_bytes (key : Bytes) : ([] : Bytes) ≤ key := by
  cases key with
  | nil => exact le_refl _
  | cons head tail => exact le_of_lt (List.nil_lt_cons head tail)

theorem Rooted.insert_labels {after : Rooted} {key val : Bytes} {supply remaining : List PageId}
    (result : rooted.insert key val supply = .ok (after, remaining)) :
    (after.labels ++ remaining).Perm (rooted.labels ++ supply) := by
  unfold Rooted.insert at result
  split at result
  · cases result
  · split at result
    · split at result
      · cases result
      · cases result
        exact List.Perm.refl _
    · next height tree =>
        split at result
        · cases result
        · next grown middle inserted =>
            cases result
            simpa [Grown.items, Rooted.labels, Block.labels] using treeInsert_labels [] inserted
        · cases result
        · next left separator right id middle inserted =>
            dsimp only at result
            split at result
            · cases result
              refine List.Perm.trans ?_ (treeInsert_labels [] inserted)
              rw [List.perm_iff_count]
              intro other
              simp only [Rooted.labels, Block.labels, Grown.items, List.count_append,
                List.count_cons, List.cons_append]
              omega
            · cases result

/-- A new root page. -/
def plantRoot (btree : BTree) (node : Node) : PageM Unit := do
  let id ← alloc
  writeNode id node
  btree.setRoot id

theorem returns_plantRoot {node : Node} {id : PageId} {rest : List PageId} (btree : BTree)
    (supply : heap.supply = id :: rest) (fits : node.size ≤ pageSize) :
    ∃ after, (plantRoot btree node).Returns heap () after ∧ after.supply = rest ∧
      Stored after id node ∧ after.roots btree.rootSlot = id.toUInt64 ∧
      Touches [id] btree.rootSlot heap after := by
  let allocated : Heap := { heap.set id Page.zero with supply := rest }
  have live : allocated.page id ≠ none := by
    rw [show allocated.page id = some Page.zero from Function.update_self _ _ _]
    exact Option.some_ne_none _
  let written := allocated.put id node
  refine ⟨{ written with roots := Function.update written.roots btree.rootSlot id.toUInt64 },
    ?_, rfl, stored_put fits allocated id, Function.update_self _ _ _, ?_, ?_⟩
  · apply (returns_alloc supply).bind
    exact (returns_writeNode live fits).bind (returns_setRoot _ _)
  · intro other absent
    have apart : other ≠ id := by simpa using absent
    exact (page_put_of_ne apart allocated node).trans (Function.update_of_ne apart _ _)
  · intro other apart
    exact Function.update_of_ne apart _ _

theorem fails_plantRoot_overflow (btree : BTree) (node : Node) (supply : heap.supply = []) :
    (plantRoot btree node).Fails heap .pageCountOverflow :=
  (fails_alloc supply).bind _

theorem fails_plantRoot_panic {node : Node} {id : PageId} {rest : List PageId} (btree : BTree)
    (supply : heap.supply = id :: rest) (overflows : pageSize < node.size) :
    (plantRoot btree node).Fails heap .panic := by
  apply (returns_alloc supply).bind_fails
  exact (fails_writeNode overflows _ id).bind _

theorem Touches.mono {pages wider : List PageId} {slot : RootSlot} {after : Heap}
    (touches : Touches pages slot heap after) (subset : ∀ id ∈ pages, id ∈ wider) :
    Touches wider slot heap after :=
  ⟨fun id absent => touches.outside id fun member => absent (subset id member), touches.roots⟩

theorem Touches.trans {pages : List PageId} {slot : RootSlot} {middle after : Heap}
    (first : Touches pages slot heap middle) (second : Touches pages slot middle after) :
    Touches pages slot heap after :=
  ⟨fun id absent => (second.outside id absent).trans (first.outside id absent),
    fun other apart => (second.roots other apart).trans (first.roots other apart)⟩

theorem Holds.touches {pages : List PageId} {slot : RootSlot} {after : Heap}
    {kept : List (PageId × Node)} (holds : Holds heap kept)
    (touches : Touches pages slot heap after)
    (apart : ∀ id ∈ kept.map Prod.fst, id ∉ pages) : Holds after kept := by
  intro cell member
  have away := apart cell.1 (List.mem_map_of_mem member)
  exact ⟨(holds cell member).1, (touches.outside cell.1 away).trans (holds cell member).2⟩

/-- The root that a split of the old one asks for. -/
theorem newRoot_runs (btree : BTree) {tree left right : PageTree height} {separator : Bytes}
    {pages supply : List PageId} {middle : Heap} (label : left.label = tree.label)
    (within : Within pages heap middle) (remaining : middle.supply = supply)
    (holds : Holds middle
      (itemCells (height + 1) 0 (Grown.items [] (.two left separator right))))
    (conserved : (itemLabels (height + 1) (Grown.items [] (.two left separator right)) ++
      supply).Perm pages) (nodup : pages.Nodup) :
    match supply with
    | [] => (plantRoot btree (.internal tree.label [(separator, right.label)])).Fails middle
        .pageCountOverflow
    | id :: rest =>
      if blockSize (height + 1) (Grown.items [] (.two left separator right)) ≤ pageSize then
        ∃ after, (plantRoot btree (.internal tree.label [(separator, right.label)])).Returns
            middle () after ∧ after.supply = rest ∧
          Holds after (cells 0 (⟨id, Grown.items [] (.two left separator right)⟩ :
            PageTree (height + 1))) ∧
          after.roots btree.rootSlot = id.toUInt64 ∧ Touches pages btree.rootSlot heap after
      else
        (plantRoot btree (.internal tree.label [(separator, right.label)])).Fails middle
          .panic := by
  have node : blockNode (height + 1) 0 (Grown.items [] (.two left separator right)) =
      .internal tree.label [(separator, right.label)] := by
    rw [← label]
    rfl
  rw [← node]
  cases supply with
  | nil => exact fails_plantRoot_overflow btree _ remaining
  | cons id rest =>
    dsimp only
    split
    · next fits =>
        obtain ⟨after, returns, rest, stored, root, touches⟩ :=
          returns_plantRoot btree remaining fits
        refine ⟨after, returns, rest, ?_, root, ?_⟩
        · refine holds_cons.mpr ⟨stored, holds.touches touches ?_⟩
          intro other member inside
          rw [map_fst_itemCells] at member
          have distinct := (List.nodup_append.mp (conserved.nodup_iff.mpr nodup)).2.2
          exact distinct other member id List.mem_cons_self (List.mem_singleton.mp inside)
        · refine (within.touches btree.rootSlot).trans (touches.mono ?_)
          intro other member
          apply conserved.subset
          simp [List.mem_singleton.mp member]
    · next overflows => exact fails_plantRoot_panic btree remaining (Nat.lt_of_not_le overflows)

/-- Insertion computes `Rooted.insert` and touches only the tree's pages, those it
allocates and its root slot. -/
theorem insert_runs (represents : Represents heap btree.rootSlot rooted) (valid : heap.Valid)
    (key val : Bytes) :
    match rooted.insert key val heap.supply with
    | .ok (grown, supply) =>
      ∃ after, (btree.insert key val).Returns heap () after ∧ after.supply = supply ∧
        Holds after grown.cells ∧ after.roots btree.rootSlot = grown.page.toUInt64 ∧
        Touches (rooted.labels ++ heap.supply) btree.rootSlot heap after
    | .error error => (btree.insert key val).Fails heap error := by
  unfold Rooted.insert
  rw [BTree.insert]
  by_cases large : 7 + 2 + key.length + 2 + val.length > pageSize
  · rw [if_pos large, if_pos large]
    exact ⟨heap, rfl⟩
  · rw [if_neg large, if_neg large]
    cases rooted with
    | none =>
      have noRoot : (Rooted.page none) = 0 := rfl
      cases supply : heap.supply with
      | nil =>
        apply represents.returns_root.bind_fails
        rw [if_pos noRoot]
        exact fails_plantRoot_overflow btree _ supply
      | cons id rest =>
        have fits : (Node.leaf 0 [(key, val)]).size ≤ pageSize := by
          simp only [Node.size, List.map_cons, List.map_nil, List.sum_cons, List.sum_nil,
            Node.leafEntrySize]
          omega
        obtain ⟨after, returns, remaining, stored, root, touches⟩ :=
          returns_plantRoot btree supply fits
        refine ⟨after, ?_, remaining, holds_cons.mpr ⟨stored, by simp [Holds, itemCells]⟩,
          root, touches.mono (by simp)⟩
        apply represents.returns_root.bind
        rw [if_pos noRoot]
        exact returns
    | some pair =>
      obtain ⟨height, tree⟩ := pair
      have hasRoot : ¬ Rooted.page (some ⟨height, tree⟩) = 0 := represents.page_ne_zero valid
      have inserted := insertRec_runs val
        (height_lt_pageLimit represents.ordered represents.nodup) represents.ordered
        (nil_le_bytes key) (WithTop.coe_lt_top key) valid represents.holds represents.nodup
      dsimp only
      split at inserted
      · next grown supply grew =>
          obtain ⟨middle, returns, remaining, within, holds⟩ := inserted
          rw [grew]
          cases grown with
          | one grown =>
            have label : grown.label = tree.label := treeInsert_label grew
            refine ⟨middle, ?_, remaining, ?_, ?_, within.touches btree.rootSlot⟩
            · apply represents.returns_root.bind
              rw [if_neg hasRoot]
              exact returns.bind (returns_pure _ _)
            · simpa [Grown.items, Rooted.cells] using holds
            · rw [within.roots, represents.root]
              exact congrArg UInt32.toUInt64 label.symm
          | two left separator right =>
            have planted := newRoot_runs btree (treeInsert_label grew) within
              remaining holds (treeInsert_labels [] grew)
              (nodup_owned represents.holds valid represents.nodup)
            cases supply with
            | nil =>
              apply represents.returns_root.bind_fails
              rw [if_neg hasRoot]
              exact returns.bind_fails planted
            | cons id rest =>
              dsimp only at planted ⊢
              by_cases fits : blockSize (height + 1)
                  (Grown.items [] (.two left separator right)) ≤ pageSize
              · rw [if_pos fits] at planted ⊢
                obtain ⟨after, plants, post⟩ := planted
                refine ⟨after, ?_, post⟩
                apply represents.returns_root.bind
                rw [if_neg hasRoot]
                exact returns.bind plants
              · rw [if_neg fits] at planted ⊢
                apply represents.returns_root.bind_fails
                rw [if_neg hasRoot]
                exact returns.bind_fails planted
      · next error failed =>
          rw [failed]
          apply represents.returns_root.bind_fails
          rw [if_neg hasRoot]
          exact inserted.bind _

theorem Rooted.insert_spec {after : Rooted} {key val : Bytes} {supply remaining : List PageId}
    (ordered : rooted.Ordered) (result : rooted.insert key val supply = .ok (after, remaining)) :
    after.Ordered ∧
      ∀ entry, entry ∈ after.entries ↔
        entry = (key, val) ∨ entry ∈ rooted.entries ∧ entry.1 ≠ key := by
  unfold Rooted.insert at result
  split at result
  · cases result
  · split at result
    · split at result
      · cases result
      · cases result
        refine ⟨⟨List.pairwise_singleton _ _, ?_⟩, ?_⟩
        · intro item member
          exact ⟨nil_le_bytes _, WithTop.coe_lt_top _⟩
        · intro entry
          change entry ∈ [(key, val)] ↔ _
          simp [Rooted.entries]
    · next height tree =>
        split at result
        · cases result
        · next grown middle inserted =>
            cases result
            have grownSpec := treeInsert_spec ordered (nil_le_bytes key)
              (WithTop.coe_lt_top key) inserted
            refine ⟨(ordered_single.mp grownSpec.1).1, ?_⟩
            intro entry
            have members := grownSpec.2 entry
            simp only [Grown.items, itemEntries_cons_succ, itemEntries_nil,
              List.append_nil] at members
            exact members
        · cases result
        · next left separator right id middle inserted =>
            dsimp only at result
            split at result
            · cases result
              exact treeInsert_spec ordered (nil_le_bytes key) (WithTop.coe_lt_top key) inserted
            · cases result

/-- Insertion computes `Rooted.insert`, on the representation. -/
theorem insert_represents (represents : Represents heap btree.rootSlot rooted)
    (valid : heap.Valid) (key val : Bytes) :
    match rooted.insert key val heap.supply with
    | .ok (grown, supply) =>
      ∃ after, (btree.insert key val).Returns heap () after ∧ after.supply = supply ∧
        Represents after btree.rootSlot grown ∧
        Touches (rooted.labels ++ heap.supply) btree.rootSlot heap after
    | .error error => (btree.insert key val).Fails heap error := by
  have runs := insert_runs represents valid key val
  split at runs
  · next grown supply result =>
      obtain ⟨after, returns, remaining, holds, root, touches⟩ := runs
      have nodup : (rooted.labels ++ heap.supply).Nodup := by
        cases rooted with
        | none => exact valid.supply_nodup
        | some pair => exact nodup_owned represents.holds valid represents.nodup
      have conserved := (Rooted.insert_labels result).nodup_iff.mpr nodup
      exact ⟨after, returns, remaining, ⟨root, holds, (List.nodup_append.mp conserved).1,
        (Rooted.insert_spec represents.ordered result).1⟩, touches⟩
  · exact runs

end Root

end GStore.Kvstore
