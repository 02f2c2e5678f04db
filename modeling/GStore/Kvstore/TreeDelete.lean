import GStore.Kvstore.TreeInsert

/-! # Deletion on pages computes deletion on the tree -/

namespace GStore.Kvstore

open SearchTree SortedSlice PageM

variable {height : Nat} {heap : Heap} {next : PageId} {low : Bytes} {high : WithTop Bytes}
  {separator : Bytes} {leftNext rightNext : PageId}

/-! ## The first leaf stays -/

/-- A branch has children. -/
theorem leaf_or_ne_nil {items : PageItems height} (ordered : Ordered height low high items) :
    height = 0 ∨ items ≠ [] := by
  cases height with
  | zero => exact .inl rfl
  | succ height =>
    refine .inr fun none => ?_
    rw [none] at ordered
    cases ordered.1

theorem firstLeaf_append {items : PageItems height} (label : PageId)
    (notEmpty : height = 0 ∨ items ≠ []) (more : PageItems height) :
    firstLeaf (⟨label, items ++ more⟩ : PageTree height) =
      firstLeaf (⟨label, items⟩ : PageTree height) := by
  cases height with
  | zero => rfl
  | succ height =>
    have some : items ≠ [] := notEmpty.resolve_left (by omega)
    rw [firstLeaf_branch ⟨label, items ++ more⟩ (by simp [some]) 0,
      firstLeaf_branch ⟨label, items⟩ some (headLeaf (height + 1) more 0), headLeaf_append]

/-- What follows the items of a branch's left neighbour. -/
theorem itemCells_firstLeaf {tree : PageTree height} (notEmpty : height = 0 ∨ tree.items ≠ [])
    (next : PageId) (items : PageItems height) :
    itemCells height (firstLeaf tree) items =
      itemCells height (headLeaf height tree.items next) items := by
  cases height with
  | zero => rfl
  | succ height => rw [firstLeaf_branch tree (notEmpty.resolve_left (by omega)) next]

/-! ## Two neighbouring children -/

section Pair

variable {before after : PageItems (height + 1)} {first : Bytes × PagePayload (height + 1)}
  {rest : PageItems (height + 1)} {bound separator : Bytes} {left right : PagePayload (height + 1)}

theorem childrenVec_links (first : Bytes × PagePayload (height + 1))
    (rest : PageItems (height + 1)) :
    childrenVec first.2.label (links rest) = (first :: rest).map fun item => item.2.label := by
  simp [childrenVec, links]

theorem childrenVec_left (equal : first :: rest = before ++ (bound, left) :: (separator, right) :: after) :
    (childrenVec first.2.label (links rest))[before.length]? = some left.label := by
  rw [childrenVec_links, equal]
  simp

theorem childrenVec_right (equal : first :: rest = before ++ (bound, left) :: (separator, right) :: after) :
    (childrenVec first.2.label (links rest))[before.length + 1]? = some right.label := by
  rw [childrenVec_links, equal]
  simp

/-- The entries of the parent around the separator of the two children. -/
theorem links_pair (equal : first :: rest = before ++ (bound, left) :: (separator, right) :: after) :
    ∃ front : List (Bytes × PageId), front.length = before.length ∧
      links rest = front ++ (separator, right.label) :: links after ∧
      ∀ (other : PagePayload (height + 1)) (behind : PageItems (height + 1)),
        other.label = left.label →
        branchNode (links (before ++ (bound, other) :: behind)) =
          .internal first.2.label (front ++ links behind) := by
  cases before with
  | nil =>
    rw [List.nil_append, List.cons.injEq] at equal
    refine ⟨[], rfl, by simp [equal.2, links], ?_⟩
    intro other behind label
    simp [links, branchNode, equal.1, label]
  | cons head tail =>
    rw [List.cons_append, List.cons.injEq] at equal
    refine ⟨links (tail ++ [(bound, left)]), by simp [links], by simp [equal.2, links], ?_⟩
    intro other behind label
    simp [links, branchNode, equal.1, label]

theorem separator_pair (equal : first :: rest = before ++ (bound, left) :: (separator, right) :: after) :
    (links rest)[before.length]? = some (separator, right.label) := by
  obtain ⟨front, length, entries, -⟩ := links_pair equal
  rw [entries, ← length]
  simp

theorem setSeparator_pair (equal : first :: rest = before ++ (bound, left) :: (separator, right) :: after)
    (leftItems rightItems : PageItems height) (key : Bytes) :
    branchNode (links (before ++
        ((bound, ⟨left.label, leftItems⟩) : Bytes × PagePayload (height + 1)) ::
          (key, ⟨right.label, rightItems⟩) :: after)) =
      .internal first.2.label (BTree.setSeparator (links rest) before.length key) := by
  obtain ⟨front, length, entries, node⟩ := links_pair equal
  refine (node (⟨left.label, leftItems⟩ : PageTree height) _ rfl).trans ?_
  rw [entries, ← length, BTree.setSeparator, modify_length_append]
  simp [links]

theorem eraseIdx_pair (equal : first :: rest = before ++ (bound, left) :: (separator, right) :: after)
    (items : PageItems height) :
    branchNode (links (before ++
        ((bound, ⟨left.label, items⟩) : Bytes × PagePayload (height + 1)) :: after)) =
      .internal first.2.label ((links rest).eraseIdx before.length) := by
  obtain ⟨front, length, entries, node⟩ := links_pair equal
  refine (node (⟨left.label, items⟩ : PageTree height) _ rfl).trans ?_
  rw [entries, ← length, eraseIdx_length_append]

/-- The cells of two neighbours, with what lies below them taken together. -/
theorem holds_pair (notEmpty : height = 0 ∨ right.items ≠ []) :
    Holds heap (itemCells (height + 1) next
        (before ++ (bound, left) :: (separator, right) :: after)) ↔
      Holds heap (itemCells (height + 1) (firstLeaf left) before) ∧
      Stored heap left.label (blockNode height (firstLeaf right) left.items) ∧
      Stored heap right.label
        (blockNode height (headLeaf (height + 1) after next) right.items) ∧
      Holds heap (itemCells height (headLeaf (height + 1) after next)
        (left.items ++ right.items)) ∧
      Holds heap (itemCells (height + 1) next after) := by
  have leftBelow := itemCells_firstLeaf notEmpty (headLeaf (height + 1) after next) left.items
  have firstOfLeft : headLeaf (height + 1) ((bound, left) :: (separator, right) :: after) next =
      firstLeaf left := rfl
  have firstOfRight : headLeaf (height + 1) ((separator, right) :: after) next =
      firstLeaf right := rfl
  rw [itemCells_append, itemCells_append, itemCells_cons_succ, itemCells_cons_succ, firstOfLeft,
    firstOfRight]
  unfold cells
  rw [leftBelow]
  simp only [List.cons_append, holds_append, holds_cons]
  tauto

theorem holds_single :
    Holds heap (itemCells (height + 1) next (before ++ (bound, left) :: after)) ↔
      Holds heap (itemCells (height + 1) (firstLeaf left) before) ∧
      Stored heap left.label (blockNode height (headLeaf (height + 1) after next) left.items) ∧
      Holds heap (itemCells height (headLeaf (height + 1) after next) left.items) ∧
      Holds heap (itemCells (height + 1) next after) := by
  have firstOfLeft : headLeaf (height + 1) ((bound, left) :: after) next = firstLeaf left := rfl
  rw [itemCells_append, itemCells_cons_succ, firstOfLeft]
  unfold cells
  simp only [List.cons_append, holds_append, holds_cons]

end Pair

/-! ## Moving an entry, and merging -/

section Siblings

variable {link leftPage rightPage leftNext rightNext : PageId} {entries : List (Bytes × PageId)}
  {ci : Nat} {separator : Bytes} {moved : Bytes × PagePayload height}
  {leftItems rightItems : PageItems height}

theorem links_concat (items : PageItems (height + 1)) (last : Bytes × PagePayload (height + 1)) :
    links (items ++ [last]) = links items ++ [(last.1, last.2.label)] := by
  simp [links]

theorem borrowFromLeft_runs (ci : Nat)
    (leftAt : (childrenVec link entries)[ci - 1]? = some leftPage)
    (rightAt : (childrenVec link entries)[ci]? = some rightPage)
    (separatorAt : entries[ci - 1]? = some (separator, rightPage))
    (leftStored : Stored heap leftPage (blockNode height leftNext (leftItems ++ [moved])))
    (rightStored : Stored heap rightPage (blockNode height rightNext rightItems))
    (leftSome : leftItems ≠ [])
    (head : height = 0 ∨ (rightItems.head?).map Prod.fst = some separator)
    (apart : leftPage ≠ rightPage) (leftFits : blockSize height leftItems ≤ pageSize)
    (rightFits : blockSize height (moved :: rightItems) ≤ pageSize) :
    (BTree.borrowFromLeft link entries ci).Returns heap
      (BTree.setSeparator entries (ci - 1) moved.1)
      ((heap.put leftPage (blockNode height leftNext leftItems)).put rightPage
        (blockNode height rightNext (moved :: rightItems))) := by
  have leftWrite := returns_writeNode leftStored.live
    ((size_blockNode height leftNext leftItems).trans_le leftFits)
  have rightLive := (rightStored.put apart.symm (blockNode height leftNext leftItems)).live
  have rightWrite := returns_writeNode rightLive
    ((size_blockNode height rightNext (moved :: rightItems)).trans_le rightFits)
  apply (returns_orPanic leftAt heap).bind
  apply (returns_orPanic rightAt heap).bind
  apply (returns_readNode leftStored).bind
  apply (returns_readNode rightStored).bind
  cases height with
  | zero =>
    have last : (leftItems ++ [moved]).getLast? = some moved := List.getLast?_concat
    have init : (leftItems ++ [moved]).dropLast = leftItems := List.dropLast_concat
    apply (returns_orPanic last heap).bind
    change (writeNode leftPage (.leaf leftNext (leftItems ++ [moved]).dropLast) >>= _).Returns
      heap _ _
    rw [init]
    exact leftWrite.bind (rightWrite.bind (returns_pure _ _))
  | succ height =>
    cases leftItems with
    | nil => exact absurd rfl leftSome
    | cons first rest =>
      cases rightItems with
      | nil => cases head.resolve_left (by omega)
      | cons child others =>
        have same : child.1 = separator := by simpa using head
        have last : (links (rest ++ [moved])).getLast? = some (moved.1, moved.2.label) := by
          rw [links_concat, List.getLast?_concat]
        have init : (links (rest ++ [moved])).dropLast = links rest := by
          rw [links_concat, List.dropLast_concat]
        apply (returns_orPanic separatorAt heap).bind
        apply (returns_orPanic last heap).bind
        change (writeNode leftPage (.internal first.2.label
          (links (rest ++ [moved])).dropLast) >>= _).Returns heap _ _
        rw [init, ← same]
        exact leftWrite.bind (rightWrite.bind (returns_pure _ _))

theorem borrowFromRight_runs (leftAt : (childrenVec link entries)[ci]? = some leftPage)
    (rightAt : (childrenVec link entries)[ci + 1]? = some rightPage)
    (separatorAt : entries[ci]? = some (separator, rightPage))
    {first : Bytes × PagePayload height}
    (leftStored : Stored heap leftPage (blockNode height leftNext leftItems))
    (rightStored : Stored heap rightPage
      (blockNode height rightNext (moved :: first :: rightItems)))
    (leftSome : height = 0 ∨ leftItems ≠ []) (head : height = 0 ∨ moved.1 = separator)
    (apart : leftPage ≠ rightPage) (leftFits : blockSize height (leftItems ++ [moved]) ≤ pageSize)
    (rightFits : blockSize height (first :: rightItems) ≤ pageSize) :
    (BTree.borrowFromRight link entries ci).Returns heap
      (BTree.setSeparator entries ci first.1)
      ((heap.put leftPage (blockNode height leftNext (leftItems ++ [moved]))).put rightPage
        (blockNode height rightNext (first :: rightItems))) := by
  have leftWrite := returns_writeNode leftStored.live
    ((size_blockNode height leftNext (leftItems ++ [moved])).trans_le leftFits)
  have rightLive :=
    (rightStored.put apart.symm (blockNode height leftNext (leftItems ++ [moved]))).live
  have rightWrite := returns_writeNode rightLive
    ((size_blockNode height rightNext (first :: rightItems)).trans_le rightFits)
  apply (returns_orPanic leftAt heap).bind
  apply (returns_orPanic rightAt heap).bind
  apply (returns_readNode leftStored).bind
  apply (returns_readNode rightStored).bind
  cases height with
  | zero => exact leftWrite.bind (rightWrite.bind (returns_pure _ _))
  | succ height =>
    cases leftItems with
    | nil => exact absurd rfl (leftSome.resolve_left (by omega))
    | cons child others =>
      have same : moved.1 = separator := head.resolve_left (by omega)
      apply (returns_orPanic separatorAt heap).bind
      have node : Node.internal child.2.label (links others ++ [(separator, moved.2.label)]) =
          blockNode (height + 1) leftNext (child :: others ++ [moved]) := by
        rw [← same, ← links_concat]
        rfl
      change (writeNode leftPage
        (.internal child.2.label (links others ++ [(separator, moved.2.label)])) >>= _).Returns
        heap _ _
      rw [node]
      exact leftWrite.bind (rightWrite.bind (returns_pure _ _))

/-- The heap without the page at `id`. -/
def release (heap : Heap) (id : PageId) : Heap :=
  { heap with page := Function.update heap.page id none, supply := id :: heap.supply }

/-- The writes that every merge ends with. -/
theorem returns_merge {node : Node} {result : List (Bytes × PageId)} {leftNode rightNode : Node}
    (leftStored : Stored heap leftPage leftNode) (rightStored : Stored heap rightPage rightNode)
    (apart : leftPage ≠ rightPage) (fits : node.size ≤ pageSize) :
    (do writeNode leftPage node; free rightPage; return result : PageM _).Returns heap result
      (release (heap.put leftPage node) rightPage) := by
  have rightKept := rightStored.put apart.symm node
  apply (returns_writeNode leftStored.live fits).bind
  exact (returns_free rightKept.2).bind (returns_pure _ _)

theorem mergeIntoLeft_runs (ci : Nat)
    (leftAt : (childrenVec link entries)[ci - 1]? = some leftPage)
    (rightAt : (childrenVec link entries)[ci]? = some rightPage)
    (separatorAt : entries[ci - 1]? = some (separator, rightPage))
    (leftStored : Stored heap leftPage (blockNode height leftNext leftItems))
    (rightStored : Stored heap rightPage (blockNode height rightNext rightItems))
    (leftSome : height = 0 ∨ leftItems ≠ [])
    (head : height = 0 ∨ (rightItems.head?).map Prod.fst = some separator)
    (apart : leftPage ≠ rightPage) (fits : blockSize height (leftItems ++ rightItems) ≤ pageSize) :
    (BTree.mergeIntoLeft link entries ci).Returns heap (entries.eraseIdx (ci - 1))
      (release (heap.put leftPage (blockNode height rightNext (leftItems ++ rightItems)))
        rightPage) := by
  have nodeFits := (size_blockNode height rightNext (leftItems ++ rightItems)).trans_le fits
  apply (returns_orPanic leftAt heap).bind
  apply (returns_orPanic rightAt heap).bind
  apply (returns_readNode leftStored).bind
  apply (returns_readNode rightStored).bind
  cases height with
  | zero => exact returns_merge leftStored rightStored apart nodeFits
  | succ height =>
    cases leftItems with
    | nil => exact absurd rfl (leftSome.resolve_left (by omega))
    | cons first rest =>
      cases rightItems with
      | nil => cases head.resolve_left (by omega)
      | cons child others =>
        have same : child.1 = separator := by simpa using head
        apply (returns_orPanic separatorAt heap).bind
        have node : Node.internal first.2.label
            (links rest ++ (separator, child.2.label) :: links others) =
            blockNode (height + 1) rightNext (first :: rest ++ child :: others) := by
          rw [← same]
          simp [blockNode, links, branchNode]
        rw [← node] at nodeFits ⊢
        exact returns_merge leftStored rightStored apart nodeFits

theorem mergeRightInto_runs (leftAt : (childrenVec link entries)[ci]? = some leftPage)
    (rightAt : (childrenVec link entries)[ci + 1]? = some rightPage)
    (separatorAt : entries[ci]? = some (separator, rightPage))
    (leftStored : Stored heap leftPage (blockNode height leftNext leftItems))
    (rightStored : Stored heap rightPage (blockNode height rightNext rightItems))
    (leftSome : height = 0 ∨ leftItems ≠ [])
    (head : height = 0 ∨ (rightItems.head?).map Prod.fst = some separator)
    (apart : leftPage ≠ rightPage) (fits : blockSize height (leftItems ++ rightItems) ≤ pageSize) :
    (BTree.mergeRightInto link entries ci).Returns heap (entries.eraseIdx ci)
      (release (heap.put leftPage (blockNode height rightNext (leftItems ++ rightItems)))
        rightPage) :=
  -- The two merges are one program: child `ci` into `ci - 1`, or `ci + 1` into `ci`.
  mergeIntoLeft_runs (ci + 1) leftAt rightAt separatorAt leftStored rightStored leftSome
    head apart fits

end Siblings

/-! ## The parent of two siblings -/

/-- A branch in the heap, with all that lies below it. -/
structure Branch (heap : Heap) (page next : PageId) (items : PageItems (height + 1)) : Prop where
  stored : Stored heap page (blockNode (height + 1) next items)
  below : Holds heap (itemCells (height + 1) next items)
  nodup : (page :: itemLabels (height + 1) items ++ heap.supply).Nodup
  ordered : ∃ low high, Ordered (height + 1) low high items

section Recut

variable {page : PageId} {before after : PageItems (height + 1)} {bound separator : Bytes}
  {left right : PagePayload (height + 1)}

theorem Branch.ordered_pair
    (branch : Branch heap page next (before ++ (bound, left) :: (separator, right) :: after)) :
    ∃ high, Ordered height bound separator left.items ∧ bound ≤ separator ∧
      Ordered height separator high right.items ∧ (separator : WithTop Bytes) ≤ high := by
  obtain ⟨low, high, ordered⟩ := branch.ordered
  have whole : Ordered (height + 1) low high
      (before ++ (bound, left) :: [(separator, right)] ++ after) := by simpa using ordered
  exact ⟨_, SearchTree.ordered_pair.mp whole.run⟩

/-- The three pages that a change of two siblings writes, and the others. -/
theorem Branch.apart
    (branch : Branch heap page next (before ++ (bound, left) :: (separator, right) :: after)) :
    (page ≠ left.label ∧ page ≠ right.label ∧ left.label ≠ right.label) ∧
      ∀ id ∈ itemLabels (height + 1) before ++ itemLabels height (left.items ++ right.items) ++
        itemLabels (height + 1) after ++ heap.supply, id ∉ [page, left.label, right.label] := by
  have same : (page :: itemLabels (height + 1)
      (before ++ (bound, left) :: (separator, right) :: after) ++ heap.supply).Perm
      ((itemLabels (height + 1) before ++ itemLabels height (left.items ++ right.items) ++
        itemLabels (height + 1) after ++ heap.supply) ++ [page, left.label, right.label]) := by
    rw [List.perm_iff_count]
    intro id
    simp only [itemLabels_append, itemLabels_cons_succ, List.count_append, List.count_cons,
      List.cons_append, List.count_nil]
    omega
  have parts := List.nodup_append.mp (same.nodup_iff.mp branch.nodup)
  refine ⟨?_, fun id member inside => parts.2.2 id member id inside rfl⟩
  have pages := parts.2.1
  simp only [List.nodup_cons, List.mem_cons, List.not_mem_nil, or_false, not_or] at pages
  exact ⟨pages.1.1, pages.1.2, pages.2.1⟩

/-- What lies before, below and after the two siblings is not written. -/
theorem Branch.around {final : Heap}
    (branch : Branch heap page next (before ++ (bound, left) :: (separator, right) :: after))
    (within : Within [page, left.label, right.label] heap final) :
    Holds final (itemCells (height + 1) (firstLeaf left) before) ∧
      Holds final (itemCells height (headLeaf (height + 1) after next)
        (left.items ++ right.items)) ∧
      Holds final (itemCells (height + 1) next after) := by
  obtain ⟨-, others⟩ := branch.apart
  obtain ⟨bounds, -, -, rightOrdered, -⟩ := branch.ordered_pair
  obtain ⟨beforeHolds, -, -, belowHolds, afterHolds⟩ :=
    (holds_pair (leaf_or_ne_nil rightOrdered)).mp branch.below
  refine ⟨beforeHolds.within within ?_, belowHolds.within within ?_,
    afterHolds.within within ?_⟩
  all_goals
    intro id member
    rw [map_fst_itemCells] at member
    apply others
    simp only [List.mem_append, member, true_or, or_true]

/-- Two siblings share their items otherwise, and the parent is written. -/
theorem Branch.recut {leftItems rightItems : PageItems height}
    {item : Bytes × PagePayload height}
    (branch : Branch heap page next (before ++ (bound, left) :: (separator, right) :: after))
    (same : left.items ++ right.items = leftItems ++ item :: rightItems)
    (leftSome : leftItems ≠ []) (leftFits : blockSize height leftItems ≤ pageSize)
    (rightFits : blockSize height (item :: rightItems) ≤ pageSize)
    (fits : blockSize (height + 1) (before ++
      ((bound, ⟨left.label, leftItems⟩) : Bytes × PagePayload (height + 1)) ::
        (item.1, ⟨right.label, item :: rightItems⟩) :: after) ≤ pageSize) :
    let middle := (heap.put left.label (blockNode height (firstLeaf right) leftItems)).put
      right.label (blockNode height (headLeaf (height + 1) after next) (item :: rightItems))
    let items := before ++ ((bound, ⟨left.label, leftItems⟩) : Bytes × PagePayload (height + 1)) ::
      (item.1, ⟨right.label, item :: rightItems⟩) :: after
    ∃ final, (writeNode page (blockNode (height + 1) next items)).Returns middle () final ∧
      final.supply = heap.supply ∧ Within [page, left.label, right.label] heap final ∧
      Stored final page (blockNode (height + 1) next items) ∧
      Holds final (itemCells (height + 1) next items) := by
  intro middle items
  obtain ⟨⟨pageLeft, pageRight, leftRight⟩, -⟩ := branch.apart
  obtain ⟨bounds, leftOrdered, -⟩ := branch.ordered_pair
  have nodeFits : (blockNode (height + 1) next items).size ≤ pageSize :=
    (size_blockNode (height + 1) next items).trans_le fits
  have live : middle.page page ≠ none :=
    ((branch.stored.put pageLeft _).put pageRight _).live
  have within : Within [page, left.label, right.label] heap
      (middle.put page (blockNode (height + 1) next items)) :=
    ((within_put heap _ (by simp)).trans (within_put _ _ (by simp))).trans
      (within_put _ _ (by simp))
  refine ⟨middle.put page (blockNode (height + 1) next items), returns_writeNode live nodeFits,
    rfl, within, stored_put nodeFits middle page, ?_⟩
  obtain ⟨beforeHolds, belowHolds, afterHolds⟩ := branch.around within
  have firstKept : firstLeaf (⟨left.label, leftItems⟩ : PageTree height) = firstLeaf left := by
    have joined := firstLeaf_append left.label (leaf_or_ne_nil leftOrdered) right.items
    rw [same, firstLeaf_append left.label (.inr leftSome)] at joined
    exact joined
  apply (holds_pair (.inr (by simp))).mpr
  refine ⟨?_, ?_, ?_, ?_, ?_⟩
  · rw [firstKept]
    exact beforeHolds
  · have node : blockNode height (firstLeaf right) leftItems = blockNode height
        (firstLeaf (⟨right.label, item :: rightItems⟩ : PageTree height)) leftItems :=
      (blockNode_firstLeaf leftItems right).trans
        (blockNode_firstLeaf leftItems
          (⟨right.label, item :: rightItems⟩ : PageTree height)).symm
    have written := stored_put
      ((size_blockNode height (firstLeaf right) leftItems).trans_le leftFits) heap left.label
    have final := (written.put leftRight (blockNode height (headLeaf (height + 1) after next)
      (item :: rightItems))).put pageLeft.symm (blockNode (height + 1) next items)
    exact (congrArg (Stored _ _) node).mp final
  · have written := stored_put
      ((size_blockNode height (headLeaf (height + 1) after next) (item :: rightItems)).trans_le
        rightFits) (heap.put left.label (blockNode height (firstLeaf right) leftItems))
      right.label
    exact written.put pageRight.symm _
  · rw [← same]
    exact belowHolds
  · exact afterHolds

/-- The right sibling is merged into the left one, and the parent is written. -/
theorem Branch.merge
    (branch : Branch heap page next (before ++ (bound, left) :: (separator, right) :: after))
    (mergedFits : blockSize height (left.items ++ right.items) ≤ pageSize)
    (fits : blockSize (height + 1) (before ++
      ((bound, ⟨left.label, left.items ++ right.items⟩) : Bytes × PagePayload (height + 1)) ::
        after) ≤ pageSize) :
    let middle := release (heap.put left.label
      (blockNode height (headLeaf (height + 1) after next) (left.items ++ right.items))) right.label
    let items := before ++
      ((bound, ⟨left.label, left.items ++ right.items⟩) : Bytes × PagePayload (height + 1)) :: after
    ∃ final, (writeNode page (blockNode (height + 1) next items)).Returns middle () final ∧
      final.supply = right.label :: heap.supply ∧
      Within [page, left.label, right.label] heap final ∧
      Stored final page (blockNode (height + 1) next items) ∧
      Holds final (itemCells (height + 1) next items) := by
  intro middle items
  obtain ⟨⟨pageLeft, pageRight, leftRight⟩, -⟩ := branch.apart
  obtain ⟨bounds, leftOrdered, -⟩ := branch.ordered_pair
  have nodeFits : (blockNode (height + 1) next items).size ≤ pageSize :=
    (size_blockNode (height + 1) next items).trans_le fits
  have released : ∀ {id : PageId} {node : Node} {heap : Heap}, Stored heap id node →
      id ≠ right.label → Stored (release heap right.label) id node :=
    fun stored apart => ⟨stored.1, (Function.update_of_ne apart _ _).trans stored.2⟩
  have live : middle.page page ≠ none :=
    (released (branch.stored.put pageLeft _) pageRight).live
  have within : Within [page, left.label, right.label] heap
      (middle.put page (blockNode (height + 1) next items)) := by
    have written : Within [page, left.label, right.label] heap (heap.put left.label
        (blockNode height (headLeaf (height + 1) after next) (left.items ++ right.items))) :=
      within_put heap _ (by simp)
    have freed : Within [page, left.label, right.label] (heap.put left.label
        (blockNode height (headLeaf (height + 1) after next) (left.items ++ right.items)))
        middle := by
      refine ⟨?_, rfl⟩
      intro id absent
      have apart : id ≠ right.label := by
        intro same
        simp [same] at absent
      exact Function.update_of_ne apart _ _
    exact (written.trans freed).trans (within_put middle _ List.mem_cons_self)
  refine ⟨middle.put page (blockNode (height + 1) next items), returns_writeNode live nodeFits,
    rfl, within, stored_put nodeFits middle page, ?_⟩
  obtain ⟨beforeHolds, belowHolds, afterHolds⟩ := branch.around within
  apply holds_single.mpr
  refine ⟨?_, ?_, ?_, ?_⟩
  · have firstKept := firstLeaf_append left.label (leaf_or_ne_nil leftOrdered) right.items
    rw [firstKept]
    exact beforeHolds
  · have written := stored_put
      ((size_blockNode height (headLeaf (height + 1) after next)
        (left.items ++ right.items)).trans_le mergedFits) heap left.label
    exact (released written leftRight).put pageLeft.symm _
  · exact belowHolds
  · exact afterHolds

end Recut

/-! ## What fits -/

theorem size_leaf_append (left right : PageItems 0) :
    blockSize 0 (left ++ right) + 7 = blockSize 0 left + blockSize 0 right := by
  have sum : leafSum (left ++ right) = leafSum left + leafSum right := leafSum_append left right
  rw [size_leaf, size_leaf, size_leaf, sum]
  omega

theorem size_branch_append {left : PageItems (height + 1)} (leftSome : left ≠ [])
    (item : Bytes × PagePayload (height + 1)) (rest : PageItems (height + 1)) :
    blockSize (height + 1) (left ++ item :: rest) + 1 =
      blockSize (height + 1) left + blockSize (height + 1) (item :: rest) + item.1.length := by
  cases left with
  | nil => exact absurd rfl leftSome
  | cons first others =>
    rw [List.cons_append, size_branch, size_branch, size_branch, List.map_append,
      List.sum_append, List.map_cons, List.sum_cons]
    omega

theorem size_branch_single (item : Bytes × PagePayload (height + 1)) :
    blockSize (height + 1) [item] = 7 := by
  rw [size_branch]
  rfl

theorem blockSize_le_append (left right : PageItems height) :
    blockSize height left ≤ blockSize height (left ++ right) := by
  cases height with
  | zero =>
    have sum := size_leaf_append left right
    have least : 7 ≤ blockSize 0 right := Nat.le_add_right 7 _
    omega
  | succ height =>
    cases right with
    | nil => rw [List.append_nil]
    | cons item rest =>
      cases left with
      | nil => rw [blockSize_nil, List.nil_append, size_branch]; omega
      | cons first others =>
        have sum := size_branch_append (List.cons_ne_nil first others) item rest
        rw [size_branch item rest] at sum
        omega

theorem blockSize_le_cons (item : Bytes × PagePayload height) (rest : PageItems height) :
    blockSize height rest ≤ blockSize height (item :: rest) := by
  cases height with
  | zero =>
    have sum := size_leaf_append [item] rest
    have least : 7 ≤ blockSize 0 [item] := Nat.le_add_right 7 _
    rw [List.singleton_append] at sum
    omega
  | succ height =>
    cases rest with
    | nil => rw [blockSize_nil, size_branch_single]
    | cons first others =>
      rw [size_branch, size_branch, List.map_cons, List.sum_cons]
      omega

/-- The merged size that the code computes is the size of the merged block. -/
theorem size_of_merges {left right : PageItems height} (leftSome : height = 0 ∨ left ≠ [])
    (head : height = 0 ∨ (right.head?).map Prod.fst = some separator) :
    merges (blockNode height leftNext left) (blockNode height rightNext right) separator = true ↔
      blockSize height (left ++ right) ≤ pageSize := by
  rw [merges, decide_eq_true_eq, isLeaf_blockNode, size_blockNode, size_blockNode]
  cases height with
  | zero =>
    have sum := size_leaf_append left right
    have least : 7 ≤ blockSize 0 right := Nat.le_add_right 7 _
    simp only [decide_true, if_true]
    omega
  | succ height =>
    cases right with
    | nil => cases head.resolve_left (by omega)
    | cons item rest =>
      have same : item.1 = separator := by simpa using head
      have sum := size_branch_append (leftSome.resolve_left (by omega)) item rest
      rw [same] at sum
      have least : 7 ≤ blockSize (height + 1) (item :: rest) := by
        rw [size_branch]
        omega
      rw [decide_eq_false (by omega : ¬ height + 1 = 0), if_neg (by decide)]
      omega

/-- The size that the code computes before it borrows bounds the child's. -/
theorem lends_fits {sibling child : Node} {boundary : Nat}
    (lent : lends sibling child boundary separator = true) :
    ∃ entry, BTree.boundaryBytes sibling boundary = some entry ∧
      child.size + (if child.isLeaf then entry else 6 + separator.length) ≤ pageSize := by
  rw [lends] at lent
  split at lent
  · next entry found => exact ⟨entry, found, (decide_eq_true_eq.mp lent).2.2⟩
  · cases lent

theorem fits_of_lends_left {kept items : PageItems height} {moved : Bytes × PagePayload height}
    (head : height = 0 ∨ (items.head?).map Prod.fst = some separator)
    (lent : lends (blockNode height leftNext (kept ++ [moved])) (blockNode height rightNext items)
      ((blockNode height leftNext (kept ++ [moved])).keys.length - 1) separator = true) :
    blockSize height (moved :: items) ≤ pageSize := by
  obtain ⟨entry, found, bound⟩ := lends_fits lent
  rw [size_blockNode, isLeaf_blockNode] at bound
  cases height with
  | zero =>
    have last : BTree.boundaryBytes (blockNode 0 leftNext (kept ++ [moved]))
        ((blockNode 0 leftNext (kept ++ [moved])).keys.length - 1) =
        some (Node.leafEntrySize moved) := by
      rw [length_keys_blockNode, if_pos rfl, List.length_append, List.length_singleton,
        Nat.add_sub_cancel]
      have lastAt : (kept ++ [moved])[kept.length]? = some moved := by simp
      change ((kept ++ [moved])[kept.length]?).map Node.leafEntrySize = _
      rw [lastAt]
      rfl
    rw [last] at found
    cases found
    rw [if_pos (by decide)] at bound
    have sum : blockSize 0 (moved :: items) = 7 + (Node.leafEntrySize moved + leafSum items) :=
      congrArg (7 + ·) (leafSum_cons moved items)
    rw [size_leaf] at bound
    omega
  | succ height =>
    cases items with
    | nil => cases head.resolve_left (by omega)
    | cons item rest =>
      have same : item.1 = separator := by simpa using head
      rw [if_neg (by simp)] at bound
      rw [size_branch] at bound ⊢
      rw [List.map_cons, List.sum_cons, same]
      omega

theorem fits_of_lends_right {items others : PageItems height}
    {moved first : Bytes × PagePayload height} (itemsSome : height = 0 ∨ items ≠ [])
    (head : height = 0 ∨ moved.1 = separator)
    (lent : lends (blockNode height rightNext (moved :: first :: others))
      (blockNode height leftNext items) 0 separator = true) :
    blockSize height (items ++ [moved]) ≤ pageSize := by
  obtain ⟨entry, found, bound⟩ := lends_fits lent
  rw [size_blockNode, isLeaf_blockNode] at bound
  cases height with
  | zero =>
    have front : BTree.boundaryBytes (blockNode 0 rightNext (moved :: first :: others)) 0 =
        some (Node.leafEntrySize moved) := rfl
    rw [front] at found
    cases found
    rw [if_pos (by decide)] at bound
    have sum : leafSum (items ++ [moved]) = leafSum items + leafSum [moved] :=
      leafSum_append items [moved]
    have single : leafSum [moved] = Node.leafEntrySize moved + leafSum [] :=
      leafSum_cons moved []
    have none : leafSum [] = 0 := rfl
    rw [size_leaf] at bound ⊢
    omega
  | succ height =>
    have same : moved.1 = separator := head.resolve_left (by omega)
    have sum := size_branch_append (itemsSome.resolve_left (by omega)) moved []
    rw [size_branch_single, same] at sum
    rw [if_neg (by simp)] at bound
    omega

/-! ## The decisions -/

theorem boundaryBytes_isSome {node : Node} {i : Nat} (inside : i < node.keys.length) :
    ∃ entry, BTree.boundaryBytes node i = some entry := by
  cases node with
  | leaf link entries =>
    rw [Node.keys, List.length_map] at inside
    exact ⟨_, by rw [BTree.boundaryBytes, List.getElem?_eq_getElem inside]; rfl⟩
  | internal link entries =>
    rw [Node.keys, List.length_map] at inside
    exact ⟨_, by rw [BTree.boundaryBytes, List.getElem?_eq_getElem inside]; rfl⟩

theorem canBorrow_runs {sibling child : Node} {boundary si : Nat} {entries : List (Bytes × PageId)}
    {page : PageId} (separatorAt : entries[si]? = some (separator, page))
    (inside : 2 ≤ sibling.keys.length → boundary < sibling.keys.length) :
    (BTree.canBorrow sibling child boundary entries si).Returns heap
      (lends sibling child boundary separator) heap := by
  rw [BTree.canBorrow]
  split
  · next enough =>
      obtain ⟨entry, found⟩ := boundaryBytes_isSome (inside enough)
      apply (returns_orPanic found heap).bind
      apply (returns_orPanic separatorAt heap).bind
      have value : lends sibling child boundary separator =
          decide (sibling.size - entry ≥ underflowBytes ∧
            child.size + (if child.isLeaf then entry else 6 + separator.length) ≤ pageSize) := by
        rw [lends, found]
        simp [enough]
      rw [value]
      exact returns_pure _ _
  · next few =>
      have value : lends sibling child boundary separator = false := by
        rw [lends]
        split
        · simp [few]
        · rfl
      rw [value]
      exact returns_pure _ _

theorem canMerge_runs {left right child : Node} {si : Nat} {entries : List (Bytes × PageId)}
    {page : PageId} (separatorAt : entries[si]? = some (separator, page))
    (kind : child.isLeaf = right.isLeaf) :
    (BTree.canMerge left right child entries si).Returns heap (merges left right separator)
      heap := by
  apply (returns_orPanic separatorAt heap).bind
  rw [merges, kind]
  exact returns_pure _ _

theorem lends_blockNode (sibling child : PageItems height) (siblingNext childNext : PageId)
    (boundary : Nat) (separator : Bytes) :
    lends (blockNode height siblingNext sibling) (blockNode height childNext child) boundary
        separator =
      lends (blockNode height 0 sibling) (blockNode height 0 child) boundary separator := by
  cases height <;> rfl

theorem merges_blockNode (left right : PageItems height) (leftNext rightNext : PageId)
    (separator : Bytes) :
    merges (blockNode height leftNext left) (blockNode height rightNext right) separator =
      merges (blockNode height 0 left) (blockNode height 0 right) separator := by
  cases height <;> rfl

theorem lends_few {sibling child : Node} {boundary : Nat} (few : sibling.keys.length < 2) :
    lends sibling child boundary separator = false := by
  rw [lends]
  split
  · simp only [decide_eq_false_iff_not]
    omega
  · rfl

theorem borrowLeft_isSome (before : PageItems (height + 1)) (bound low : Bytes)
    (left child : PagePayload (height + 1)) :
    (borrowLeft (before ++ [(bound, left)]) low child).isSome =
      lends (blockNode height 0 left.items) (blockNode height 0 child.items)
        ((blockNode height 0 left.items).keys.length - 1) low := by
  unfold borrowLeft
  rw [List.getLast?_concat]
  dsimp only
  split
  · next none =>
      rw [List.getLast?_eq_none_iff] at none
      rw [lends_few]
      · rfl
      · rw [length_keys_blockNode, none]
        split <;> simp
  · split
    · next lent => rw [lent]; rfl
    · next kept => rw [Bool.not_eq_true] at kept; rw [kept]; rfl

theorem borrowRight_isSome (low bound : Bytes) (child right : PagePayload (height + 1))
    (after : PageItems (height + 1)) :
    (borrowRight low child ((bound, right) :: after)).isSome =
      lends (blockNode height 0 right.items) (blockNode height 0 child.items) 0 bound := by
  unfold borrowRight
  dsimp only
  split
  · split
    · next lent => rw [lent]; rfl
    · next kept => rw [Bool.not_eq_true] at kept; rw [kept]; rfl
  · next short =>
      rw [lends_few]
      · rfl
      · rw [length_keys_blockNode]
        rcases items : right.items with - | ⟨first, - | ⟨second, rest⟩⟩
        · split <;> simp
        · split <;> simp
        · exact absurd items (short first second rest)

theorem mergeLeft_isSome (before : PageItems (height + 1)) (bound low : Bytes)
    (left child : PagePayload (height + 1)) :
    (mergeLeft (before ++ [(bound, left)]) low child).isSome =
      merges (blockNode height 0 left.items) (blockNode height 0 child.items) low := by
  unfold mergeLeft
  rw [List.getLast?_concat]
  dsimp only
  split
  · next fits => rw [fits]; rfl
  · next large => rw [Bool.not_eq_true] at large; rw [large]; rfl

theorem mergeRight_isSome (low bound : Bytes) (child right : PagePayload (height + 1))
    (after : PageItems (height + 1)) :
    (mergeRight low child ((bound, right) :: after)).isSome =
      merges (blockNode height 0 child.items) (blockNode height 0 right.items) bound := by
  unfold mergeRight
  dsimp only
  split
  · next fits => rw [fits]; rfl
  · next large => rw [Bool.not_eq_true] at large; rw [large]; rfl

section Rebalance

variable {page : PageId} {front back : PageItems (height + 1)} {low : Bytes}
  {child : PagePayload (height + 1)} {first : Bytes × PagePayload (height + 1)}
  {rest : PageItems (height + 1)} {run : PageItems (height + 1)}

/-- The program leaves the parent with the given items, or panics where they overflow it. -/
def Rewrites (program : PageM Unit) (heap : Heap) (page next : PageId)
    (pages supply : List PageId) (items : PageItems (height + 1)) : Prop :=
  if blockSize (height + 1) items ≤ pageSize then
    ∃ after, program.Returns heap () after ∧ after.supply = supply ∧ Within pages heap after ∧
      Stored after page (blockNode (height + 1) next items) ∧
      Holds after (itemCells (height + 1) next items)
  else
    program.Fails heap .panic

section Outcome

variable {before after : PageItems (height + 1)} {bound separator : Bytes} {link : PageId}
  {left right : PagePayload (height + 1)} {entries : List (Bytes × PageId)}
  {moving : PageM (List (Bytes × PageId))}

theorem Branch.pair_subset :
    ∀ id ∈ [page, left.label, right.label],
      id ∈ page :: itemLabels (height + 1)
        (before ++ (bound, left) :: (separator, right) :: after) := by
  intro id member
  simp only [List.mem_cons, List.not_mem_nil, or_false, itemLabels_append, itemLabels_cons_succ,
    List.mem_append, List.cons_append] at member ⊢
  tauto

theorem Branch.rewrites_recut {leftItems rightItems : PageItems height}
    {item : Bytes × PagePayload height}
    (branch : Branch heap page next (before ++ (bound, left) :: (separator, right) :: after))
    (same : left.items ++ right.items = leftItems ++ item :: rightItems)
    (leftSome : leftItems ≠ []) (leftFits : blockSize height leftItems ≤ pageSize)
    (rightFits : blockSize height (item :: rightItems) ≤ pageSize)
    (moves : moving.Returns heap entries
      ((heap.put left.label (blockNode height (firstLeaf right) leftItems)).put right.label
        (blockNode height (headLeaf (height + 1) after next) (item :: rightItems))))
    (node : branchNode (links (before ++
      ((bound, ⟨left.label, leftItems⟩) : Bytes × PagePayload (height + 1)) ::
        (item.1, ⟨right.label, item :: rightItems⟩) :: after)) = .internal link entries) :
    Rewrites (do let entries ← moving; writeNode page (.internal link entries)) heap page next
      (page :: itemLabels (height + 1) (before ++ (bound, left) :: (separator, right) :: after))
      heap.supply
      (before ++ ((bound, ⟨left.label, leftItems⟩) : Bytes × PagePayload (height + 1)) ::
        (item.1, ⟨right.label, item :: rightItems⟩) :: after) := by
  unfold Rewrites
  split
  · next fits =>
      obtain ⟨final, writes, supply, within, stored, holds⟩ :=
        branch.recut same leftSome leftFits rightFits fits
      refine ⟨final, moves.bind ?_, supply, within.mono Branch.pair_subset, stored, holds⟩
      rw [← node]
      exact writes
  · next overflows =>
      apply moves.bind_fails
      rw [← node]
      exact fails_writeNode (Nat.lt_of_not_le overflows) _ page

theorem Branch.rewrites_merge
    (branch : Branch heap page next (before ++ (bound, left) :: (separator, right) :: after))
    (mergedFits : blockSize height (left.items ++ right.items) ≤ pageSize)
    (moves : moving.Returns heap entries (release (heap.put left.label
      (blockNode height (headLeaf (height + 1) after next) (left.items ++ right.items)))
      right.label))
    (node : branchNode (links (before ++ ((bound, ⟨left.label, left.items ++ right.items⟩) :
      Bytes × PagePayload (height + 1)) :: after)) = .internal link entries) :
    Rewrites (do let entries ← moving; writeNode page (.internal link entries)) heap page next
      (page :: itemLabels (height + 1) (before ++ (bound, left) :: (separator, right) :: after))
      (right.label :: heap.supply)
      (before ++ ((bound, ⟨left.label, left.items ++ right.items⟩) :
        Bytes × PagePayload (height + 1)) :: after) := by
  unfold Rewrites
  split
  · next fits =>
      obtain ⟨final, writes, supply, within, stored, holds⟩ := branch.merge mergedFits fits
      refine ⟨final, moves.bind ?_, supply, within.mono Branch.pair_subset, stored, holds⟩
      rw [← node]
      exact writes
  · next overflows =>
      apply moves.bind_fails
      rw [← node]
      exact fails_writeNode (Nat.lt_of_not_le overflows) _ page

/-- What the code finds at the two pages. -/
theorem Branch.siblings
    (branch : Branch heap page next (before ++ (bound, left) :: (separator, right) :: after)) :
    Stored heap left.label (blockNode height (firstLeaf right) left.items) ∧
      Stored heap right.label
        (blockNode height (headLeaf (height + 1) after next) right.items) ∧
      (height = 0 ∨ left.items ≠ []) ∧
      (height = 0 ∨ (right.items.head?).map Prod.fst = some separator) ∧
      left.label ≠ right.label := by
  obtain ⟨high, leftOrdered, -, rightOrdered, -⟩ := branch.ordered_pair
  obtain ⟨⟨-, -, apart⟩, -⟩ := branch.apart
  obtain ⟨-, leftStored, rightStored, -, -⟩ :=
    (holds_pair (leaf_or_ne_nil rightOrdered)).mp branch.below
  refine ⟨leftStored, rightStored, leaf_or_ne_nil leftOrdered, ?_, apart⟩
  cases height with
  | zero => exact .inl rfl
  | succ height => exact .inr rightOrdered.1

end Outcome

theorem borrowLeft_rewrites (branch : Branch heap page next (front ++ (low, child) :: back))
    (equal : first :: rest = front ++ (low, child) :: back)
    (borrowed : borrowLeft front low child = some run) : Rewrites
      (do
        let entries ← BTree.borrowFromLeft first.2.label (links rest) front.length
        writeNode page (.internal first.2.label entries))
      heap page next (page :: itemLabels (height + 1) (front ++ (low, child) :: back))
      heap.supply (run ++ back) := by
  obtain ⟨before, bound, left, items, moved, rfl, leftItems, itemsSome, lent, rfl⟩ :=
    borrowLeft_cases borrowed
  have shape : before ++ [(bound, left)] ++ (low, child) :: back =
      before ++ (bound, left) :: (low, child) :: back := by simp
  rw [shape] at branch equal ⊢
  obtain ⟨leftStored, childStored, -, head, apart⟩ := branch.siblings
  have same : left.items ++ child.items = items ++ moved :: child.items := by
    rw [leftItems]
    simp
  have leftFits : blockSize height items ≤ pageSize := by
    have bounded := leftStored.1
    rw [size_blockNode, leftItems] at bounded
    exact (blockSize_le_append items [moved]).trans bounded
  rw [leftItems] at lent leftStored
  have childFits := fits_of_lends_left head lent
  have moves := borrowFromLeft_runs (before.length + 1) (childrenVec_left equal)
    (childrenVec_right equal) (separator_pair equal) leftStored childStored itemsSome head apart
    leftFits childFits
  have rewrites := branch.rewrites_recut same itemsSome leftFits childFits moves
    (setSeparator_pair equal items (moved :: child.items) moved.1)
  simpa using rewrites

theorem borrowRight_rewrites (branch : Branch heap page next (front ++ (low, child) :: back))
    (equal : first :: rest = front ++ (low, child) :: back)
    (borrowed : borrowRight low child back = some run) : Rewrites
      (do
        let entries ← BTree.borrowFromRight first.2.label (links rest) front.length
        writeNode page (.internal first.2.label entries))
      heap page next (page :: itemLabels (height + 1) (front ++ (low, child) :: back))
      heap.supply (front ++ run) := by
  obtain ⟨bound, right, after, moved, second, others, rfl, rightItems, lent, rfl⟩ :=
    borrowRight_cases borrowed
  obtain ⟨childStored, rightStored, childSome, head, apart⟩ := branch.siblings
  have same : child.items ++ right.items = (child.items ++ [moved]) ++ second :: others := by
    rw [rightItems]
    simp
  have rightFits : blockSize height (second :: others) ≤ pageSize := by
    have bounded := rightStored.1
    rw [size_blockNode, rightItems] at bounded
    exact (blockSize_le_cons moved (second :: others)).trans bounded
  rw [rightItems] at lent rightStored head
  have movedBound : height = 0 ∨ moved.1 = bound := head.imp_right fun found => by
    simpa using found
  have childFits := fits_of_lends_right childSome movedBound lent
  have moves := borrowFromRight_runs (childrenVec_left equal) (childrenVec_right equal)
    (separator_pair equal) childStored rightStored childSome movedBound apart childFits rightFits
  exact branch.rewrites_recut same (by simp) childFits rightFits moves
    (setSeparator_pair equal (child.items ++ [moved]) (second :: others) second.1)

theorem mergeLeft_rewrites (branch : Branch heap page next (front ++ (low, child) :: back))
    (equal : first :: rest = front ++ (low, child) :: back)
    (merged : mergeLeft front low child = some run) : Rewrites
      (do
        let entries ← BTree.mergeIntoLeft first.2.label (links rest) front.length
        writeNode page (.internal first.2.label entries))
      heap page next (page :: itemLabels (height + 1) (front ++ (low, child) :: back))
      (child.label :: heap.supply) (run ++ back) := by
  obtain ⟨before, bound, left, rfl, fits, rfl⟩ := mergeLeft_cases merged
  have shape : before ++ [(bound, left)] ++ (low, child) :: back =
      before ++ (bound, left) :: (low, child) :: back := by simp
  rw [shape] at branch equal ⊢
  obtain ⟨leftStored, childStored, leftSome, head, apart⟩ := branch.siblings
  have mergedFits := (size_of_merges leftSome head).mp fits
  have moves := mergeIntoLeft_runs (before.length + 1) (childrenVec_left equal)
    (childrenVec_right equal) (separator_pair equal) leftStored childStored leftSome head apart
    mergedFits
  have rewrites := branch.rewrites_merge mergedFits moves (eraseIdx_pair equal _)
  simpa using rewrites

theorem mergeRight_rewrites {freed : PageId}
    (branch : Branch heap page next (front ++ (low, child) :: back))
    (equal : first :: rest = front ++ (low, child) :: back)
    (merged : mergeRight low child back = some (run, freed)) : Rewrites
      (do
        let entries ← BTree.mergeRightInto first.2.label (links rest) front.length
        writeNode page (.internal first.2.label entries))
      heap page next (page :: itemLabels (height + 1) (front ++ (low, child) :: back))
      (freed :: heap.supply) (front ++ run) := by
  obtain ⟨bound, right, after, rfl, fits, rfl, rfl⟩ := mergeRight_cases merged
  obtain ⟨childStored, rightStored, childSome, head, apart⟩ := branch.siblings
  have mergedFits := (size_of_merges childSome head).mp fits
  have moves := mergeRightInto_runs (childrenVec_left equal) (childrenVec_right equal)
    (separator_pair equal) childStored rightStored childSome head apart mergedFits
  exact branch.rewrites_merge mergedFits moves (eraseIdx_pair equal _)

theorem Rewrites.bind {α : Type} {program : PageM α} {result : α} {rest : α → PageM Unit}
    {pages supply : List PageId} {items : PageItems (height + 1)}
    (returns : program.Returns heap result heap)
    (rewrites : Rewrites (rest result) heap page next pages supply items) :
    Rewrites (program >>= rest) heap page next pages supply items := by
  unfold Rewrites at rewrites ⊢
  split
  · next fits =>
      rw [if_pos fits] at rewrites
      obtain ⟨after, second, post⟩ := rewrites
      exact ⟨after, returns.bind second, post⟩
  · next overflows =>
      rw [if_neg overflows] at rewrites
      exact returns.bind_fails rewrites

section Decisions

variable (branch : Branch heap page next (front ++ (low, child) :: back))
  (equal : first :: rest = front ++ (low, child) :: back) (childNext : PageId)

include branch equal

/-- A question about the left sibling, which only a child that is not the first has. -/
theorem returns_askLeft (question : Node → PageM Bool) (answer : Bool) (absent : front = [] → answer = false)
    (present : ∀ before bound (left : PagePayload (height + 1)), front = before ++ [(bound, left)] →
      (links rest)[front.length - 1]? = some (low, child.label) →
      (question (blockNode height (firstLeaf child) left.items)).Returns heap answer heap) :
    (BTree.askLeft (childrenVec first.2.label (links rest)) front.length question).Returns heap
      answer heap := by
  rw [BTree.askLeft]
  rcases List.eq_nil_or_concat front with empty | ⟨before, ⟨bound, left⟩, concat⟩
  · rw [absent empty, empty]
    exact returns_pure _ _
  · rw [List.concat_eq_append] at concat
    have shape : front ++ (low, child) :: back =
        before ++ (bound, left) :: (low, child) :: back := by
      rw [concat]
      simp
    have length : front.length = before.length + 1 := by
      rw [concat]
      simp
    rw [shape] at branch equal
    have separatorAt := separator_pair equal
    have answered := present before bound left concat (by rw [length]; exact separatorAt)
    rw [if_pos (by omega), length]
    apply (returns_orPanic (childrenVec_left equal) heap).bind
    exact (returns_readNode branch.siblings.1).bind answered

/-- A question about the right sibling, which only a child that is not the last has. -/
theorem returns_askRight (question : Node → PageM Bool) (answer : Bool) (absent : back = [] → answer = false)
    (present : ∀ bound (right : PagePayload (height + 1)) after, back = (bound, right) :: after →
      (links rest)[front.length]? = some (bound, right.label) →
      (question (blockNode height (headLeaf (height + 1) after next) right.items)).Returns heap
        answer heap) :
    (BTree.askRight (childrenVec first.2.label (links rest)) front.length question).Returns heap
      answer heap := by
  rw [BTree.askRight]
  have length : (childrenVec first.2.label (links rest)).length =
      front.length + 1 + back.length := by
    rw [childrenVec_links, equal]
    simp
    omega
  cases back with
  | nil =>
    rw [absent rfl, length, if_neg (by simp)]
    exact returns_pure _ _
  | cons item after =>
    obtain ⟨bound, right⟩ := item
    have answered := present bound right after rfl (separator_pair equal)
    rw [length, if_pos (by simp)]
    apply (returns_orPanic (childrenVec_right equal) heap).bind
    exact (returns_readNode branch.siblings.2.1).bind answered

end Decisions

/-- The code's rebalancing computes `rebalanced`. -/
theorem rebalance_rewrites (branch : Branch heap page next (front ++ (low, child) :: back))
    (equal : first :: rest = front ++ (low, child) :: back) :
    Rewrites (BTree.rebalance page first.2.label (links rest) front.length) heap page next
      (page :: itemLabels (height + 1) (front ++ (low, child) :: back))
      (rebalanced front low child back heap.supply).2
      (rebalanced front low child back heap.supply).1 := by
  have childAt : (childrenVec first.2.label (links rest))[front.length]? = some child.label := by
    rw [childrenVec_links, equal]
    simp
  have childStored := (holds_single.mp branch.below).2.1
  let childNode := blockNode height (headLeaf (height + 1) back next) child.items
  have askBorrowLeft := returns_askLeft branch equal
    (fun left => BTree.canBorrow left childNode (left.keys.length - 1) (links rest)
      (front.length - 1))
    (borrowLeft front low child).isSome
    (by intro empty; rw [empty]; rfl)
    (by
      intro before bound left concat separatorAt
      rw [concat, borrowLeft_isSome, ← lends_blockNode _ _ (firstLeaf child)
        (headLeaf (height + 1) back next), ← keys_blockNode height (firstLeaf child), ← concat]
      exact canBorrow_runs separatorAt (by omega))
  have askBorrowRight := returns_askRight branch equal
    (fun right => BTree.canBorrow right childNode 0 (links rest) front.length)
    (borrowRight low child back).isSome
    (by intro empty; rw [empty]; rfl)
    (by
      intro bound right after cons separatorAt
      rw [cons, borrowRight_isSome, ← lends_blockNode _ _ (headLeaf (height + 1) after next)
        (headLeaf (height + 1) back next)]
      exact canBorrow_runs separatorAt (by omega))
  have askMergeLeft := returns_askLeft branch equal
    (fun left => BTree.canMerge left childNode childNode (links rest) (front.length - 1))
    (mergeLeft front low child).isSome
    (by intro empty; rw [empty]; rfl)
    (by
      intro before bound left concat separatorAt
      rw [concat, mergeLeft_isSome, ← merges_blockNode _ _ (firstLeaf child)
        (headLeaf (height + 1) back next), ← concat]
      exact canMerge_runs separatorAt rfl)
  have askMergeRight := returns_askRight branch equal
    (fun right => BTree.canMerge childNode right childNode (links rest) front.length)
    (mergeRight low child back).isSome
    (by intro empty; rw [empty]; rfl)
    (by
      intro bound right after cons separatorAt
      rw [cons, mergeRight_isSome, ← merges_blockNode _ _ (headLeaf (height + 1) back next)
        (headLeaf (height + 1) after next)]
      exact canMerge_runs separatorAt
        ((isLeaf_blockNode height _ _).trans (isLeaf_blockNode height _ _).symm))
  apply Rewrites.bind (returns_orPanic childAt heap)
  apply Rewrites.bind (returns_readNode childStored)
  apply Rewrites.bind askBorrowLeft
  unfold rebalanced
  cases borrowedLeft : borrowLeft front low child with
  | some run => exact borrowLeft_rewrites branch equal borrowedLeft
  | none =>
    apply Rewrites.bind askBorrowRight
    cases borrowedRight : borrowRight low child back with
    | some run => exact borrowRight_rewrites branch equal borrowedRight
    | none =>
      apply Rewrites.bind askMergeLeft
      cases mergedLeft : mergeLeft front low child with
      | some run => exact mergeLeft_rewrites branch equal mergedLeft
      | none =>
        apply Rewrites.bind askMergeRight
        cases mergedRight : mergeRight low child back with
        | some pair => exact mergeRight_rewrites branch equal mergedRight
        | none =>
          have same : front ++ Grown.items low (.one child) ++ back =
              front ++ (low, child) :: back := by simp [Grown.items]
          have fits := branch.stored.1
          rw [size_blockNode] at fits
          unfold Rewrites
          dsimp only
          rw [same, if_pos fits]
          exact ⟨heap, returns_pure _ _, rfl, Within.refl _ _, branch.stored,
            branch.below⟩

/-- Rebalancing frees what it takes out of the tree. -/
theorem rebalanced_labels (front : PageItems (height + 1)) (low : Bytes)
    (child : PagePayload (height + 1)) (back : PageItems (height + 1)) (supply : List PageId) :
    (itemLabels (height + 1) (rebalanced front low child back supply).1 ++
      (rebalanced front low child back supply).2).Perm
      (itemLabels (height + 1) (front ++ (low, child) :: back) ++ supply) := by
  rw [List.perm_iff_count]
  intro id
  unfold rebalanced
  split
  · next run borrowed =>
      obtain ⟨before, bound, left, items, moved, rfl, equal, -, -, rfl⟩ :=
        borrowLeft_cases borrowed
      have cut := itemLabels_append height [moved] child.items
      rw [List.singleton_append] at cut
      simp only [itemLabels_append, itemLabels_cons_succ, itemLabels_nil, equal, cut,
        List.count_append, List.count_cons, List.cons_append, List.count_nil]
      omega
  · split
    · next run borrowed =>
        obtain ⟨bound, right, after, moved, first, others, rfl, equal, -, rfl⟩ :=
          borrowRight_cases borrowed
        have cut := itemLabels_append height [moved] (first :: others)
        rw [List.singleton_append] at cut
        simp only [itemLabels_append, itemLabels_cons_succ, equal, cut,
          List.count_append, List.count_cons, List.cons_append]
        omega
    · split
      · next run merged =>
          obtain ⟨before, bound, left, rfl, -, rfl⟩ := mergeLeft_cases merged
          simp only [itemLabels_append, itemLabels_cons_succ, itemLabels_nil,
            List.count_append, List.count_cons, List.cons_append, List.count_nil]
          omega
      · split
        · next run freed merged =>
            obtain ⟨bound, right, after, rfl, -, rfl, rfl⟩ := mergeRight_cases merged
            simp only [itemLabels_append, itemLabels_cons_succ,
              List.count_append, List.count_cons, List.cons_append]
            omega
        · simp [Grown.items]

theorem rebalanced_firstLeaf {low bound : Bytes} {high : WithTop Bytes}
    (ordered : Ordered (height + 1) low high (front ++ (bound, child) :: back))
    (supply : List PageId) (next : PageId) :
    headLeaf (height + 1) (rebalanced front bound child back supply).1 next =
      headLeaf (height + 1) (front ++ (bound, child) :: back) next := by
  unfold rebalanced
  split
  · next run borrowed =>
      obtain ⟨before, other, left, items, moved, rfl, equal, itemsSome, -, rfl⟩ :=
        borrowLeft_cases borrowed
      have kept := firstLeaf_append left.label (.inr itemsSome) [moved]
      rw [← equal] at kept
      simp only [headLeaf_append]
      exact congrArg (headLeaf (height + 1) before) kept.symm
  · split
    · next run borrowed =>
        obtain ⟨other, right, after, moved, first, others, rfl, -, -, rfl⟩ :=
          borrowRight_cases borrowed
        have whole : Ordered (height + 1) low high
            (front ++ (bound, child) :: [(other, right)] ++ after) := by simpa using ordered
        have childSome := leaf_or_ne_nil (ordered_pair.mp whole.run).1
        rw [headLeaf_append, headLeaf_append]
        exact congrArg (headLeaf (height + 1) front)
          (firstLeaf_append child.label childSome [moved])
    · split
      · next run merged =>
          obtain ⟨before, other, left, rfl, -, rfl⟩ := mergeLeft_cases merged
          have whole : Ordered (height + 1) low high
              (before ++ (other, left) :: [(bound, child)] ++ back) := by simpa using ordered
          have leftSome := leaf_or_ne_nil (ordered_pair.mp whole.run).1
          simp only [headLeaf_append]
          exact congrArg (headLeaf (height + 1) before)
            (firstLeaf_append left.label leftSome child.items)
      · split
        · next run freed merged =>
            obtain ⟨other, right, after, rfl, -, rfl, -⟩ := mergeRight_cases merged
            have whole : Ordered (height + 1) low high
                (front ++ (bound, child) :: [(other, right)] ++ after) := by simpa using ordered
            have childSome := leaf_or_ne_nil (ordered_pair.mp whole.run).1
            rw [headLeaf_append, headLeaf_append]
            exact congrArg (headLeaf (height + 1) front)
              (firstLeaf_append child.label childSome right.items)
        · rw [List.append_assoc]
          rfl

end Rebalance

/-! ## Deletion below a page -/

theorem treeDelete_label {tree changed : PageTree height} {key : Bytes}
    {supply after : List PageId}
    (result : treeDelete height tree key supply = .ok (some (changed, after))) :
    changed.label = tree.label := by
  cases height with
  | zero =>
    rw [treeDelete] at result
    split at result
    · cases result
      rfl
    · cases result
  | succ height =>
    obtain ⟨front, item, back, child, middle, -, -, -, ⟨rfl, -⟩ | ⟨rfl, -⟩⟩ :=
      treeDelete_cases result
    · rfl
    · rfl

theorem treeDelete_labels : ∀ {height : Nat} {tree changed : PageTree height} {key : Bytes}
    {supply after : List PageId},
    treeDelete height tree key supply = .ok (some (changed, after)) →
    (changed.labels ++ after).Perm (tree.labels ++ supply) := by
  intro height
  induction height with
  | zero =>
    intro tree changed key supply after result
    rw [treeDelete] at result
    split at result
    · cases result
      exact List.Perm.refl _
    · cases result
  | succ height induction =>
    intro tree changed key supply after result
    obtain ⟨front, item, back, child, middle, equal, -, deleted, outcome⟩ :=
      treeDelete_cases result
    have inner := induction deleted
    have middleLabels : (tree.label :: itemLabels (height + 1)
        (front ++ Grown.items item.1 (.one child) ++ back) ++ middle).Perm
        (tree.labels ++ supply) := by
      rw [List.perm_iff_count] at inner ⊢
      intro id
      have count := inner id
      simp only [Block.labels, equal, Grown.items, itemLabels_append, itemLabels_cons_succ,
        itemLabels_nil, List.count_append, List.count_cons, List.cons_append,
        List.count_nil] at count ⊢
      omega
    rcases outcome with ⟨rfl, rfl⟩ | ⟨rfl, rfl⟩
    · have moved := rebalanced_labels front item.1 child back middle
      rw [List.append_assoc] at middleLabels
      exact (moved.cons tree.label).trans middleLabels
    · exact middleLabels

theorem treeDelete_firstLeaf : ∀ {height : Nat} {tree changed : PageTree height} {key : Bytes}
    {low : Bytes} {high : WithTop Bytes} {supply after : List PageId},
    Ordered height low high tree.items → low ≤ key → (key : WithTop Bytes) < high →
    treeDelete height tree key supply = .ok (some (changed, after)) →
    firstLeaf changed = firstLeaf tree := by
  intro height
  induction height with
  | zero =>
    intro tree changed key low high supply after ordered lowKey keyHigh result
    have label := treeDelete_label result
    exact label
  | succ height induction =>
    intro tree changed key low high supply after ordered lowKey keyHigh result
    obtain ⟨front, item, back, child, middle, equal, position, deleted, outcome⟩ :=
      treeDelete_cases result
    obtain ⟨itemKey, keyBack⟩ := ordered.route_bounds lowKey keyHigh equal position
    have whole : Ordered (height + 1) low high (front ++ item :: [] ++ back) := by
      rw [equal] at ordered
      simpa using ordered
    have childFirst := induction (ordered_single.mp whole.run).1 itemKey keyBack deleted
    have spliced := ordered_of_deleted ordered lowKey keyHigh equal position deleted
    have kept : headLeaf (height + 1) (front ++ Grown.items item.1 (.one child) ++ back) 0 =
        firstLeaf tree := by
      rw [firstLeaf_branch tree (by simp [equal]) 0, equal, headLeaf_append, headLeaf_append,
        headLeaf_append]
      exact congrArg (headLeaf (height + 1) front) childFirst
    rcases outcome with ⟨rfl, -⟩ | ⟨rfl, -⟩
    · rw [List.append_assoc] at spliced kept
      have moved := rebalanced_spec middle spliced
      rw [firstLeaf_branch _ ((leaf_or_ne_nil moved.1).resolve_left (by omega)) 0, ← kept]
      exact rebalanced_firstLeaf spliced middle 0
    · rw [firstLeaf_branch _ (by simp [Grown.items]) 0]
      exact kept

theorem leafSum_eraseIdx_le (entries : List (Bytes × Bytes)) (i : Nat) :
    leafSum (entries.eraseIdx i) ≤ leafSum entries := by
  induction entries generalizing i with
  | nil => exact le_refl _
  | cons entry rest induction =>
    cases i with
    | zero =>
      rw [List.eraseIdx_cons_zero, leafSum_cons]
      omega
    | succ i =>
      have bound := induction i
      rw [List.eraseIdx_cons_succ, leafSum_cons, leafSum_cons]
      omega

/-- Deletion in a leaf page. -/
theorem deleteLeaf_runs {page : PageId} {entries : List (Bytes × Bytes)} (fuel : Nat)
    (stored : Stored heap page (.leaf next entries)) (key : Bytes) :
    match binarySearch (entries.map Prod.fst) key with
    | .ok i =>
      Stored (heap.put page (.leaf next (entries.eraseIdx i))) page
          (.leaf next (entries.eraseIdx i)) ∧
        (BTree.deleteRec (fuel + 1) page key).Returns heap true
          (heap.put page (.leaf next (entries.eraseIdx i)))
    | .error _ => (BTree.deleteRec (fuel + 1) page key).Returns heap false heap := by
  cases search : binarySearch (entries.map Prod.fst) key with
  | ok i =>
    have fits : (Node.leaf next (entries.eraseIdx i)).size ≤ pageSize :=
      (Nat.add_le_add_left (leafSum_eraseIdx_le entries i) 7).trans stored.1
    refine ⟨stored_put fits heap page, ?_⟩
    apply (returns_readNode stored).bind
    dsimp only
    rw [search]
    exact (returns_writeNode stored.live fits).bind (returns_pure _ _)
  | error i =>
    apply (returns_readNode stored).bind
    dsimp only
    rw [search]
    exact returns_pure _ _

/-- Deletion below a page computes `treeDelete` and touches only the tree's pages. -/
theorem deleteRec_runs : ∀ {height : Nat} {tree : PageTree height} {heap : Heap} {low : Bytes}
    {high : WithTop Bytes} {key : Bytes} {next : PageId} {fuel : Nat},
    height < fuel → Ordered height low high tree.items → low ≤ key →
    (key : WithTop Bytes) < high → heap.Valid → Holds heap (cells next tree) →
    tree.labels.Nodup →
    match treeDelete height tree key heap.supply with
    | .ok none => (BTree.deleteRec fuel tree.label key).Returns heap false heap
    | .ok (some (changed, supply)) =>
      ∃ after, (BTree.deleteRec fuel tree.label key).Returns heap true after ∧
        after.supply = supply ∧ Within (tree.labels ++ heap.supply) heap after ∧
        Holds after (cells next changed)
    | .error error => (BTree.deleteRec fuel tree.label key).Fails heap error := by
  intro height
  induction height with
  | zero =>
    intro tree heap low high key next fuel enough ordered lowKey keyHigh valid holds nodup
    obtain ⟨fuel, rfl⟩ := Nat.exists_eq_succ_of_ne_zero (by omega : fuel ≠ 0)
    have stored : Stored heap tree.label (.leaf next tree.items) := (holds_cons.mp holds).1
    have runs := deleteLeaf_runs fuel stored key
    split at runs
    · next i found =>
        have search : binarySearch (tree.items.map Prod.fst) key = .ok i := found
        rw [treeDelete, search]
        refine ⟨_, runs.2, rfl, within_put heap _ ?_, holds_cons.mpr ⟨runs.1, ?_⟩⟩
        · simp [Block.labels]
        · simp [Holds, itemCells]
    · next i missed =>
        have search : binarySearch (tree.items.map Prod.fst) key = .error i := missed
        rw [treeDelete, search]
        exact runs
  | succ height induction =>
    intro tree heap low high key next fuel enough ordered lowKey keyHigh valid holds nodup
    obtain ⟨fuel, rfl⟩ := Nat.exists_eq_succ_of_ne_zero (by omega : fuel ≠ 0)
    obtain ⟨front, item, back, first, rest, equal, position, itemKey, keyBack, inChild, childHolds,
      items, stored, descend, pos⟩ := descent ordered lowKey keyHigh holds
    have childNodup : item.2.labels.Nodup := by
      rw [labels_of_items equal, List.nodup_append, List.nodup_append] at nodup
      exact nodup.2.1.1
    have child := induction (by omega : height < fuel) inChild itemKey keyBack valid childHolds
      childNodup
    rw [treeDelete, splitAt_route equal position]
    dsimp only
    split at child
    · next absent =>
        rw [absent]
        apply (returns_readNode stored).bind
        apply (returns_orPanic descend heap).bind
        exact child.bind (returns_pure _ _)
    · next changed middleSupply deleted =>
        rw [deleted]
        obtain ⟨middle, returns, remaining, within, replaced⟩ := child
        dsimp only
        have label : changed.label = item.2.label := treeDelete_label deleted
        have childStored : Stored middle item.2.label
            (blockNode height (headLeaf (height + 1) back next) changed.items) := by
          have top := (holds_cons.mp replaced).1
          rw [label] at top
          exact top
        have firstKept : headLeaf (height + 1) (Grown.items item.1 (.one changed))
            (headLeaf (height + 1) back next) = firstLeaf item.2 :=
          treeDelete_firstLeaf inChild itemKey keyBack deleted
        have run : Holds middle (itemCells (height + 1) (headLeaf (height + 1) back next)
            (Grown.items item.1 (.one changed))) := by
          simpa [Grown.items] using replaced
        obtain ⟨rootStored, below⟩ :=
          holds_replaced equal holds valid nodup within firstKept run
        have node : blockNode (height + 1) next
            (front ++ Grown.items item.1 (.one changed) ++ back) =
            blockNode (height + 1) next tree.items := by
          rw [equal]
          exact branchNode_one label
        rw [← node] at rootStored
        have spliced := ordered_of_deleted ordered lowKey keyHigh equal position deleted
        have conserved : (tree.label :: itemLabels (height + 1)
            (front ++ Grown.items item.1 (.one changed) ++ back) ++ middleSupply).Perm
            (tree.labels ++ heap.supply) := by
          have inner := treeDelete_labels deleted
          rw [List.perm_iff_count] at inner ⊢
          intro id
          have count := inner id
          simp only [equal, Block.labels, Grown.items, itemLabels_append,
            itemLabels_cons_succ, itemLabels_nil, List.count_append, List.count_cons,
            List.cons_append, List.count_nil] at count ⊢
          omega
        have middleNodup := conserved.nodup_iff.mpr (nodup_owned holds valid nodup)
        have wider : ∀ id ∈ item.2.labels ++ heap.supply, id ∈ tree.labels ++ heap.supply := by
          intro id member
          rw [labels_of_items equal]
          simp only [List.mem_append] at member ⊢
          tauto
        by_cases underfull : blockSize height changed.items < underflowBytes
        · rw [if_pos underfull]
          rw [List.append_assoc] at rootStored below middleNodup spliced conserved
          rw [← remaining] at middleNodup
          obtain ⟨newFirst, newRest, newItems⟩ :=
            List.exists_cons_of_ne_nil (by simp [Grown.items] :
              front ++ (Grown.items item.1 (.one changed) ++ back) ≠ [])
          have sameLinks : links (newFirst :: newRest) = links (first :: rest) := by
            rw [← newItems, ← items, equal]
            simp [links, Grown.items, label]
          rw [links, links, List.map_cons, List.map_cons, List.cons.injEq,
            Prod.mk.injEq] at sameLinks
          have rewrites : Rewrites (BTree.rebalance tree.label first.2.label (links rest)
              (childIndex (links rest) key)) middle tree.label next
              (tree.label :: itemLabels (height + 1)
                (front ++ (Grown.items item.1 (.one changed) ++ back)))
              (rebalanced front item.1 changed back middleSupply).2
              (rebalanced front item.1 changed back middleSupply).1 := by
            have raw := rebalance_rewrites
              ⟨rootStored, below, middleNodup, low, high, spliced⟩ newItems.symm
            rw [sameLinks.1.2, links, sameLinks.2, remaining, ← pos] at raw
            exact raw
          unfold Rewrites at rewrites
          by_cases fits : blockSize (height + 1)
              (rebalanced front item.1 changed back middleSupply).1 ≤ pageSize
          · rw [if_pos fits] at rewrites ⊢
            obtain ⟨after, rebalances, supply, moves, top, cells⟩ := rewrites
            refine ⟨after, ?_, supply, (within.mono wider).trans (moves.mono ?_),
              holds_cons.mpr ⟨top, cells⟩⟩
            · apply (returns_readNode stored).bind
              apply (returns_orPanic descend heap).bind
              apply returns.bind
              apply (returns_readNode childStored).bind
              rw [if_pos (by rw [size_blockNode]; exact underfull)]
              exact rebalances.bind (returns_pure _ _)
            · intro id member
              apply conserved.subset
              exact List.mem_append_left _ member
          · rw [if_neg fits] at rewrites ⊢
            apply (returns_readNode stored).bind_fails
            apply (returns_orPanic descend heap).bind_fails
            apply returns.bind_fails
            apply (returns_readNode childStored).bind_fails
            rw [if_pos (by rw [size_blockNode]; exact underfull)]
            exact rewrites.bind _
        · rw [if_neg underfull]
          refine ⟨middle, ?_, remaining, within.mono wider, holds_cons.mpr ⟨rootStored, below⟩⟩
          apply (returns_readNode stored).bind
          apply (returns_orPanic descend heap).bind
          apply returns.bind
          apply (returns_readNode childStored).bind
          rw [if_neg (by rw [size_blockNode]; exact underfull)]
          exact returns_pure _ _
    · next error failed =>
        rw [failed]
        apply (returns_readNode stored).bind_fails
        apply (returns_orPanic descend heap).bind_fails
        exact child.bind _

/-! ## The whole tree -/

section Root

variable {btree : BTree} {rooted : Rooted}

/-- The end of a deletion: the root may give way. -/
def shrink (btree : BTree) (root : PageId) : PageM Bool := do
  match ← readNode root with
  | .leaf _ entries =>
    if entries = [] then
      free root
      btree.setRoot 0
      return true
    else
      return true
  | .internal link entries =>
    if entries = [] then
      btree.setRoot link
      free root
      return true
    else
      return true

theorem delete_eq (btree : BTree) (key : Bytes) :
    btree.delete key = (do
      let root ← btree.root
      if root = 0 then return false
      else
        let removed ← BTree.deleteRec pageLimit root key
        if removed then shrink btree root else return false) := rfl

theorem shrink_labels : ∀ (height : Nat) (tree : PageTree height) (supply : List PageId),
    ((shrinkRoot height tree supply).1.labels ++ (shrinkRoot height tree supply).2).Perm
      (tree.labels ++ supply) := by
  intro height tree supply
  cases height with
  | zero =>
    rw [shrinkRoot]
    split
    · exact List.Perm.refl _
    · exact List.Perm.refl _
  | succ height =>
    rw [shrinkRoot]
    split
    · next item single =>
        rw [List.perm_iff_count]
        intro id
        simp only [Rooted.labels, Block.labels, single, itemLabels_cons_succ, itemLabels_nil,
          List.count_append, List.count_cons, List.cons_append, List.count_nil]
        omega
    · exact List.Perm.refl _

theorem shrink_spec {tree : PageTree height} (ordered : Ordered height [] ⊤ tree.items)
    (supply : List PageId) :
    (shrinkRoot height tree supply).1.Ordered ∧
      (shrinkRoot height tree supply).1.entries = tree.entries := by
  cases height with
  | zero =>
    rw [shrinkRoot]
    split
    · next none =>
        have entries : tree.entries = [] := none
        exact ⟨trivial, entries.symm⟩
    · exact ⟨ordered, rfl⟩
  | succ height =>
    rw [shrinkRoot]
    split
    · next item single =>
        rw [single] at ordered
        have head : item.1 = [] := by simpa using ordered.1
        have child : Ordered (height + 1) [] ⊤ [(([] : Bytes), item.2)] := by
          have pair : item = (([] : Bytes), item.2) := by rw [← head]
          rw [pair] at ordered
          exact ordered
        refine ⟨(ordered_single.mp child).1, ?_⟩
        simp [Rooted.entries, Block.entries, single]
    · exact ⟨ordered, rfl⟩

theorem shrink_leaf {page : PageId} {entries : List (Bytes × Bytes)}
    (stored : Stored heap page (.leaf next entries)) (some : entries ≠ []) :
    (shrink btree page).Returns heap true heap := by
  apply (returns_readNode stored).bind
  dsimp only
  rw [if_neg some]
  exact returns_pure _ _

theorem shrink_runs {tree : PageTree height} (holds : Holds heap (cells 0 tree))
    (ordered : Ordered height [] ⊤ tree.items) (nodup : tree.labels.Nodup)
    (root : heap.roots btree.rootSlot = tree.label.toUInt64) :
    ∃ final, (shrink btree tree.label).Returns heap true final ∧
      final.supply = (shrinkRoot height tree heap.supply).2 ∧
      Holds final (shrinkRoot height tree heap.supply).1.cells ∧
      final.roots btree.rootSlot = (shrinkRoot height tree heap.supply).1.page.toUInt64 ∧
      Touches (tree.labels ++ heap.supply) btree.rootSlot heap final := by
  have stored := (holds_cons.mp holds).1
  have touchesRefl : Touches (tree.labels ++ heap.supply) btree.rootSlot heap heap :=
    ⟨fun _ _ => rfl, fun _ _ => rfl⟩
  cases height with
  | zero =>
    have leaf : Stored heap tree.label (.leaf 0 tree.items) := stored
    rw [shrinkRoot]
    split
    · next none =>
        have leafNone : Stored heap tree.label (.leaf 0 []) := by
          rw [none] at stored
          exact stored
        let freed := release heap tree.label
        refine ⟨{ freed with roots := Function.update freed.roots btree.rootSlot 0 },
          ?_, rfl, ?_, Function.update_self _ _ _, ?_, ?_⟩
        · apply (returns_readNode leafNone).bind
          dsimp only
          rw [if_pos rfl]
          apply (returns_free leafNone.2).bind
          exact (returns_setRoot _ _).bind (returns_pure _ _)
        · simp [Holds, Rooted.cells]
        · intro id absent
          have apart : id ≠ tree.label := by
            intro same
            apply absent
            simp [same, Block.labels]
          exact Function.update_of_ne apart _ _
        · intro other apart
          exact Function.update_of_ne apart _ _
    · next some =>
        refine ⟨heap, ?_, rfl, holds, root, touchesRefl⟩
        exact shrink_leaf leaf some
  | succ height =>
    rw [shrinkRoot]
    split
    · next item single =>
        have branch : Stored heap tree.label (.internal item.2.label []) := by
          rw [single] at stored
          exact stored
        rw [cells, single, itemCells_cons_succ, itemCells_nil, List.append_nil, headLeaf_nil,
          holds_cons] at holds
        have apart : tree.label ∉ item.2.labels := by
          rw [Block.labels, single, itemLabels_cons_succ, itemLabels_nil, List.append_nil,
            List.nodup_cons] at nodup
          exact nodup.1
        let moved : Heap := { heap with
          roots := Function.update heap.roots btree.rootSlot item.2.label.toUInt64 }
        refine ⟨release moved tree.label, ?_, rfl, ?_, Function.update_self _ _ _, ?_, ?_⟩
        · apply (returns_readNode branch).bind
          dsimp only
          rw [if_pos rfl]
          apply (returns_setRoot _ _).bind
          have live : moved.page tree.label = _ := branch.2
          exact (returns_free live).bind (returns_pure _ _)
        · intro cell member
          have old := holds.2 cell member
          have different : cell.1 ≠ tree.label := by
            intro same
            have listed : (cells 0 item.2).map Prod.fst = item.2.labels := map_fst_cells 0 item.2
            rw [← same, ← listed] at apart
            exact apart (List.mem_map_of_mem member)
          exact ⟨old.1, (Function.update_of_ne different _ _).trans old.2⟩
        · intro id absent
          have different : id ≠ tree.label := by
            intro same
            apply absent
            simp [same, Block.labels]
          exact Function.update_of_ne different _ _
        · intro other different
          exact Function.update_of_ne different _ _
    · next several =>
        obtain ⟨first, rest, items⟩ : ∃ first rest, tree.items = first :: rest := by
          apply List.exists_cons_of_ne_nil
          exact (leaf_or_ne_nil ordered).resolve_left (by omega)
        have branch : Stored heap tree.label (.internal first.2.label (links rest)) := by
          rw [items] at stored
          exact stored
        have more : links rest ≠ [] := by
          intro none
          rw [links, List.map_eq_nil_iff] at none
          rw [none] at items
          exact several first items
        refine ⟨heap, ?_, rfl, holds, root, touchesRefl⟩
        apply (returns_readNode branch).bind
        dsimp only
        rw [if_neg more]
        exact returns_pure _ _

theorem Rooted.delete_spec {after : Rooted} {key : Bytes} {supply remaining : List PageId}
    {removed : Bool} (ordered : rooted.Ordered)
    (result : rooted.delete key supply = .ok (removed, after, remaining)) :
    after.Ordered ∧ (removed = true ↔ ∃ entry ∈ rooted.entries, entry.1 = key) ∧
      ∀ entry, entry ∈ after.entries ↔ entry ∈ rooted.entries ∧ entry.1 ≠ key := by
  unfold Rooted.delete at result
  split at result
  · cases result
    simp [Rooted.Ordered, Rooted.entries]
  · next height tree =>
      split at result
      · cases result
      · next absent =>
          cases result
          have missing := treeDelete_spec ordered (nil_le_bytes key) (WithTop.coe_lt_top key) absent
          refine ⟨ordered, ?_, ?_⟩
          · constructor
            · intro impossible
              cases impossible
            · rintro ⟨entry, member, same⟩
              exact absurd same (missing entry member)
          · intro entry
            exact ⟨fun member => ⟨member, missing entry member⟩, And.left⟩
      · next changed middle deleted =>
          rw [Except.ok.injEq, Prod.mk.injEq] at result
          obtain ⟨rfl, shrinks⟩ := result
          have spec := treeDelete_spec ordered (nil_le_bytes key) (WithTop.coe_lt_top key) deleted
          have shrunk := shrink_spec spec.2.1 middle
          rw [shrinks] at shrunk
          refine ⟨shrunk.1, ⟨fun _ => spec.1, fun _ => rfl⟩, ?_⟩
          intro entry
          rw [shrunk.2]
          exact spec.2.2 entry

/-- Deletion computes `Rooted.delete`, on the representation. -/
theorem delete_represents (represents : Represents heap btree.rootSlot rooted)
    (valid : heap.Valid) (key : Bytes) :
    match rooted.delete key heap.supply with
    | .ok (removed, changed, supply) =>
      ∃ after, (btree.delete key).Returns heap removed after ∧ after.supply = supply ∧
        Represents after btree.rootSlot changed ∧
        Touches (rooted.labels ++ heap.supply) btree.rootSlot heap after
    | .error error => (btree.delete key).Fails heap error := by
  have touchesRefl : Touches (rooted.labels ++ heap.supply) btree.rootSlot heap heap :=
    ⟨fun _ _ => rfl, fun _ _ => rfl⟩
  unfold Rooted.delete
  rw [delete_eq]
  cases rooted with
  | none =>
    refine ⟨heap, ?_, rfl, represents, touchesRefl⟩
    apply represents.returns_root.bind
    exact returns_pure _ _
  | some pair =>
    obtain ⟨height, tree⟩ := pair
    have hasRoot : ¬ Rooted.page (some ⟨height, tree⟩) = 0 := represents.page_ne_zero valid
    have deleted := deleteRec_runs (height_lt_pageLimit represents.ordered represents.nodup)
      represents.ordered (nil_le_bytes key) (WithTop.coe_lt_top key) valid represents.holds
      represents.nodup
    dsimp only
    split at deleted
    · next absent =>
        rw [absent]
        refine ⟨heap, ?_, rfl, represents, touchesRefl⟩
        apply represents.returns_root.bind
        rw [if_neg hasRoot]
        exact deleted.bind (returns_pure _ _)
    · next changed middleSupply result =>
        obtain ⟨middle, returns, remaining, within, holds⟩ := deleted
        rw [result]
        have owned := nodup_owned represents.holds valid represents.nodup
        have conserved := treeDelete_labels result
        have middleNodup := conserved.nodup_iff.mpr owned
        have spec := treeDelete_spec represents.ordered (nil_le_bytes key)
          (WithTop.coe_lt_top key) result
        have label : changed.label = tree.label := treeDelete_label result
        have root : middle.roots btree.rootSlot = changed.label.toUInt64 := by
          rw [within.roots, represents.root, label]
          rfl
        obtain ⟨final, shrinks, finalSupply, finalHolds, finalRoot, touches⟩ :=
          shrink_runs holds spec.2.1 (List.nodup_append.mp middleNodup).1 root
        have shrunkNodup := (shrink_labels height changed middleSupply).nodup_iff.mpr middleNodup
        rw [remaining] at finalSupply finalHolds finalRoot touches
        refine ⟨final, ?_, finalSupply, ⟨finalRoot, finalHolds,
          (List.nodup_append.mp shrunkNodup).1, (shrink_spec spec.2.1 middleSupply).1⟩,
          (within.touches btree.rootSlot).trans (touches.mono conserved.subset)⟩
        apply represents.returns_root.bind
        rw [if_neg hasRoot]
        apply returns.bind
        rw [if_pos rfl]
        have page : Rooted.page (some ⟨height, tree⟩) = changed.label := label.symm
        rw [page]
        exact shrinks
    · next error failed =>
        rw [failed]
        apply represents.returns_root.bind_fails
        rw [if_neg hasRoot]
        exact deleted.bind _

end Root

end GStore.Kvstore
