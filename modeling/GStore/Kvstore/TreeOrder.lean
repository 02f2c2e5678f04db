import GStore.Kvstore.Tree

/-! # Order and contents through insertion and deletion -/

namespace GStore.Kvstore

open SearchTree SortedSlice

variable {height : Nat} {low : Bytes} {high : WithTop Bytes} {supply after : List PageId}
  {child : PageTree height}

/-! ## Nodes -/

theorem size_blockNode (height : Nat) (next : PageId) (items : PageItems height) :
    (blockNode height next items).size = blockSize height items := by
  cases height <;> rfl

theorem keys_blockNode (height : Nat) (next : PageId) (items : PageItems height) :
    (blockNode height next items).keys = (blockNode height 0 items).keys := by
  cases height <;> rfl

theorem isLeaf_branchNode (entries : List (Bytes × PageId)) :
    (branchNode entries).isLeaf = false := by
  cases entries <;> rfl

theorem isLeaf_blockNode (height : Nat) (next : PageId) (items : PageItems height) :
    (blockNode height next items).isLeaf = decide (height = 0) := by
  cases height with
  | zero => rfl
  | succ height => simp [blockNode, isLeaf_branchNode]

/-- A leaf has a key for each item, a branch one fewer. -/
theorem length_keys_blockNode (height : Nat) (next : PageId) (items : PageItems height) :
    (blockNode height next items).keys.length =
      if height = 0 then items.length else items.length - 1 := by
  cases height with
  | zero => exact List.length_map Prod.fst
  | succ height => cases items <;> simp [blockNode, links, branchNode, Node.keys]

theorem blockSize_nil (height : Nat) : blockSize height [] = 7 := by
  cases height <;> rfl

/-- What the entries take of a leaf. -/
def leafSum (entries : List (Bytes × Bytes)) : Nat := (entries.map Node.leafEntrySize).sum

@[simp] theorem leafSum_append (left right : List (Bytes × Bytes)) :
    leafSum (left ++ right) = leafSum left + leafSum right := by
  simp [leafSum]

@[simp] theorem leafSum_cons (entry : Bytes × Bytes) (rest : List (Bytes × Bytes)) :
    leafSum (entry :: rest) = Node.leafEntrySize entry + leafSum rest := by
  simp [leafSum]

theorem size_leaf (items : PageItems 0) : blockSize 0 items = 7 + leafSum items := rfl

theorem size_branch (item : Bytes × PagePayload (height + 1))
    (rest : PageItems (height + 1)) :
    blockSize (height + 1) (item :: rest) =
      7 + (rest.map fun item => 6 + item.1.length).sum := by
  simp only [blockSize, blockNode, links, List.map_cons, branchNode, Node.size, List.map_map]
  congr 2
  apply List.map_congr_left
  intro other _
  simp only [Function.comp, Node.internalEntrySize]
  omega

/-! ## Inversion -/

/-- An insertion's two outcomes. -/
theorem grow_cases {tree : PageTree height} {grown : Grown height}
    (result : grow tree supply = .ok (grown, after)) :
    (blockSize height tree.items ≤ pageSize ∧ grown = .one tree ∧ after = supply) ∨
    ∃ left first rest id, pageSize < blockSize height tree.items ∧
      tree.items = left ++ first :: rest ∧ left ≠ [] ∧
      left.length = cutIndex height tree.items ∧ splittable height tree.items = true ∧
      supply = id :: after ∧
      blockSize height (first :: rest) ≤ pageSize ∧ blockSize height left ≤ pageSize ∧
      grown = .two ⟨tree.label, left⟩ first.1 ⟨id, first :: rest⟩ := by
  unfold grow at result
  split at result
  · next fits =>
      cases result
      exact .inl ⟨fits, rfl, rfl⟩
  · next overflows =>
      split at result
      · next split =>
          split at result
          · cases result
          · cases result
          · next first rest id tail dropped =>
              dsimp only at result
              split at result
              · next halves =>
                  cases result
                  have parts : tree.items =
                      tree.items.take (cutIndex height tree.items) ++ first :: rest := by
                    rw [← dropped, List.take_append_drop]
                  refine .inr ⟨_, first, rest, id, by omega, parts, ?_, ?_, split, rfl,
                    halves.1, halves.2, rfl⟩
                  · intro none
                    rw [none, List.nil_append] at parts
                    rw [parts] at overflows
                    exact overflows halves.1
                  · have length := congrArg List.length parts
                    have dropLength := congrArg List.length dropped
                    simp only [List.length_append, List.length_cons, List.length_take,
                      List.length_drop] at length dropLength ⊢
                    omega
              · cases result
      · cases result

theorem splitAt_route {items front back : PageItems (height + 1)}
    {item : Bytes × PagePayload (height + 1)} {key : Bytes} (equal : items = front ++ item :: back)
    (position : front.length = route items key) :
    items.splitAt (route items key) = (front, item :: back) := by
  rw [← position, equal, List.splitAt_eq, List.take_left, List.drop_left]

theorem treeInsert_leaf (tree : PageTree 0) (key val : Bytes) (supply : List PageId) :
    treeInsert 0 tree key val supply =
      grow (⟨tree.label, upsert tree.items key val⟩ : PageTree 0) supply := rfl

theorem treeInsert_cases {tree : PageTree (height + 1)} {key val : Bytes}
    {grown : Grown (height + 1)}
    (result : treeInsert (height + 1) tree key val supply = .ok (grown, after)) :
    ∃ front item back child middle, tree.items = front ++ item :: back ∧
      front.length = route tree.items key ∧
      treeInsert height item.2 key val supply = .ok (child, middle) ∧
      grow (⟨tree.label, front ++ child.items item.1 ++ back⟩ : PageTree (height + 1)) middle =
        .ok (grown, after) := by
  rw [treeInsert] at result
  split at result
  · next front item back equal =>
      split at result
      · next child middle inserted =>
          rw [List.splitAt_eq, Prod.mk.injEq] at equal
          refine ⟨front, item, back, child, middle, ?_, ?_, inserted, result⟩
          · rw [← equal.1, ← equal.2, List.take_append_drop]
          · have length := congrArg List.length equal.2
            rw [List.length_drop, List.length_cons] at length
            rw [← equal.1, List.length_take]
            omega
      · cases result
  · cases result

theorem treeDelete_cases {tree changed : PageTree (height + 1)} {key : Bytes}
    (result : treeDelete (height + 1) tree key supply = .ok (some (changed, after))) :
    ∃ front item back child middle, tree.items = front ++ item :: back ∧
      front.length = route tree.items key ∧
      treeDelete height item.2 key supply = .ok (some (child, middle)) ∧
      ((changed = ⟨tree.label, (rebalanced front item.1 child back middle).1⟩ ∧
          after = (rebalanced front item.1 child back middle).2) ∨
        (changed = ⟨tree.label, front ++ Grown.items item.1 (.one child) ++ back⟩ ∧
          after = middle)) := by
  rw [treeDelete] at result
  split at result
  · next front item back equal =>
      rw [List.splitAt_eq, Prod.mk.injEq] at equal
      have items : tree.items = front ++ item :: back := by
        rw [← equal.1, ← equal.2, List.take_append_drop]
      have position : front.length = route tree.items key := by
        have length := congrArg List.length equal.2
        rw [List.length_drop, List.length_cons] at length
        rw [← equal.1, List.length_take]
        omega
      split at result
      · next child middle deleted =>
          refine ⟨front, item, back, child, middle, items, position, deleted, ?_⟩
          split at result
          · dsimp only at result
            split at result
            · cases result
              exact .inl ⟨rfl, rfl⟩
            · cases result
          · cases result
            exact .inr ⟨rfl, rfl⟩
      · cases result
      · cases result
  · cases result

theorem borrowLeft_cases {front run : PageItems (height + 1)}
    (result : borrowLeft front low child = some run) :
    ∃ (before : PageItems (height + 1)) (bound : Bytes) (left : PagePayload (height + 1))
      (items : PageItems height) (moved : Bytes × PagePayload height),
      front = before ++ [(bound, left)] ∧ left.items = items ++ [moved] ∧ items ≠ [] ∧
      lends (blockNode height 0 left.items) (blockNode height 0 child.items)
        ((blockNode height 0 left.items).keys.length - 1) low = true ∧
      run = before ++ [(bound, ⟨left.label, items⟩),
        (moved.1, ⟨child.label, moved :: child.items⟩)] := by
  rw [borrowLeft] at result
  rcases List.eq_nil_or_concat front with none | ⟨before, ⟨bound, left⟩, some⟩
  · rw [none] at result
    cases result
  · rw [some, List.concat_eq_append, List.getLast?_concat, List.dropLast_concat] at result
    dsimp only at result
    split at result
    · cases result
    · next moved last =>
        split at result
        · next lent =>
            cases result
            have parts : left.items = left.items.dropLast ++ [moved] :=
              (List.dropLast_append_getLast? moved last).symm
            refine ⟨before, bound, left, left.items.dropLast, moved,
              by rw [some, List.concat_eq_append], parts, ?_, lent, rfl⟩
            intro none
            rw [none] at parts
            have keys : 2 ≤ (blockNode height 0 left.items).keys.length := by
              rw [lends] at lent
              split at lent
              · exact (decide_eq_true_eq.mp lent).1
              · cases lent
            rw [length_keys_blockNode, parts] at keys
            split at keys <;> simp at keys
        · cases result

theorem borrowRight_cases {back run : PageItems (height + 1)}
    (result : borrowRight low child back = some run) :
    ∃ (bound : Bytes) (right : PagePayload (height + 1)) (after : PageItems (height + 1))
      (moved first : Bytes × PagePayload height) (others : PageItems height),
      back = (bound, right) :: after ∧ right.items = moved :: first :: others ∧
      lends (blockNode height 0 right.items) (blockNode height 0 child.items) 0 bound = true ∧
      run = (low, ⟨child.label, child.items ++ [moved]⟩) ::
        (first.1, ⟨right.label, first :: others⟩) :: after := by
  unfold borrowRight at result
  split at result
  · cases result
  · next bound right after =>
      split at result
      · next moved first others items =>
          split at result
          · next lent =>
              cases result
              exact ⟨bound, right, after, moved, first, others, rfl, items, lent, rfl⟩
          · cases result
      · cases result

theorem mergeLeft_cases {front run : PageItems (height + 1)}
    (result : mergeLeft front low child = some run) :
    ∃ (before : PageItems (height + 1)) (bound : Bytes) (left : PagePayload (height + 1)),
      front = before ++ [(bound, left)] ∧
      merges (blockNode height 0 left.items) (blockNode height 0 child.items) low = true ∧
      run = before ++ [(bound, ⟨left.label, left.items ++ child.items⟩)] := by
  rw [mergeLeft] at result
  rcases List.eq_nil_or_concat front with none | ⟨before, ⟨bound, left⟩, some⟩
  · rw [none] at result
    cases result
  · rw [some, List.concat_eq_append, List.getLast?_concat, List.dropLast_concat] at result
    dsimp only at result
    split at result
    · next fits =>
        cases result
        exact ⟨before, bound, left, by rw [some, List.concat_eq_append], fits, rfl⟩
    · cases result

theorem mergeRight_cases {back run : PageItems (height + 1)} {freed : PageId}
    (result : mergeRight low child back = some (run, freed)) :
    ∃ (bound : Bytes) (right : PagePayload (height + 1)) (after : PageItems (height + 1)),
      back = (bound, right) :: after ∧
      merges (blockNode height 0 child.items) (blockNode height 0 right.items) bound = true ∧
      run = (low, ⟨child.label, child.items ++ right.items⟩) :: after ∧
      freed = right.label := by
  unfold mergeRight at result
  split at result
  · cases result
  · next bound right after =>
      split at result
      · next fits =>
          cases result
          exact ⟨bound, right, after, rfl, fits, rfl, rfl⟩
      · cases result

/-! ## Insertion -/

/-- Insert or replace puts the entry between the smaller and the larger keys. -/
theorem upsert_cases {entries : List (Bytes × Bytes)} (key val : Bytes)
    (sorted : entries.Pairwise fun left right => left.1 < right.1) :
    ∃ below above, upsert entries key val = below ++ (key, val) :: above ∧
      (∀ entry ∈ below, entry.1 < key) ∧ (∀ entry ∈ above, key < entry.1) ∧
      (entries = below ++ above ∨ ∃ value, entries = below ++ (key, value) :: above) := by
  rcases binarySearch_keys_cases entries sorted key with
    ⟨below, value, above, equal, found, belowKey, aboveKey⟩ |
    ⟨below, above, equal, missed, belowKey, aboveKey⟩
  · refine ⟨below, above, ?_, belowKey, aboveKey, .inr ⟨value, equal⟩⟩
    rw [upsert, found]
    simp [equal]
  · refine ⟨below, above, ?_, belowKey, aboveKey, .inl equal⟩
    rw [upsert, missed]
    simp [equal]

/-- Insert or replace keeps a leaf ordered and changes what it says about one key. -/
theorem upsert_spec {entries : List (Bytes × Bytes)} {key : Bytes} (val : Bytes)
    (ordered : @Ordered Bytes Bytes PageId _ 0 low high entries) (lowKey : low ≤ key)
    (keyHigh : (key : WithTop Bytes) < high) :
    @Ordered Bytes Bytes PageId _ 0 low high (upsert entries key val) ∧
      ∀ entry, entry ∈ upsert entries key val ↔
        entry = (key, val) ∨ entry ∈ entries ∧ entry.1 ≠ key := by
  obtain ⟨below, above, changed, belowKey, aboveKey, before⟩ := upsert_cases key val ordered.1
  have around : @Ordered Bytes Bytes PageId _ 0 low high (below ++ above) := by
    apply ordered.leaf_sublist
    rcases before with equal | ⟨value, equal⟩
    · exact equal.symm ▸ List.Sublist.refl _
    · rw [equal]
      exact (List.sublist_cons_self _ _).append_left below
  have members : ∀ entry, entry ∈ entries ∧ entry.1 ≠ key ↔ entry ∈ below ++ above := by
    intro entry
    have notBelow := fun member => ne_of_lt (belowKey entry member)
    have notAbove := fun member => ne_of_gt (aboveKey entry member)
    rcases before with equal | ⟨value, equal⟩
    · rw [equal, List.mem_append]
      tauto
    · have notSame : entry = (key, value) → entry.1 = key := fun same => by rw [same]
      rw [equal, List.mem_append, List.mem_append, List.mem_cons]
      tauto
  rw [changed]
  refine ⟨around.leaf_insert val belowKey aboveKey lowKey keyHigh, ?_⟩
  intro entry
  rw [members]
  simp only [List.mem_append, List.mem_cons]
  tauto

/-- Splitting changes neither the order nor the entries. -/
theorem grow_spec {tree : PageTree height} {grown : Grown height}
    (ordered : Ordered height low high tree.items) (lowHigh : (low : WithTop Bytes) ≤ high)
    (result : grow tree supply = .ok (grown, after)) :
    Ordered (height + 1) low high (grown.items low) ∧
      itemEntries (height + 1) (grown.items low) = tree.entries := by
  rcases grow_cases result with
    ⟨-, same, -⟩ | ⟨left, first, rest, id, -, equal, notFirst, -, -, -, -, -, same⟩
  · rw [same]
    refine ⟨ordered_single.mpr ⟨ordered, lowHigh⟩, ?_⟩
    simp [Grown.items, itemEntries, Block.entries]
  · rw [equal] at ordered
    rw [same]
    refine ⟨ordered_pair.mpr (ordered.cut notFirst), ?_⟩
    rw [Block.entries, equal]
    simp [Grown.items, itemEntries_cons_succ]

theorem treeInsert_spec : ∀ {height : Nat} {low : Bytes} {high : WithTop Bytes}
    {tree : PageTree height} {key val : Bytes} {supply after : List PageId}
    {grown : Grown height}, Ordered height low high tree.items → low ≤ key →
    (key : WithTop Bytes) < high →
    treeInsert height tree key val supply = .ok (grown, after) →
    Ordered (height + 1) low high (grown.items low) ∧
      ∀ entry, entry ∈ itemEntries (height + 1) (grown.items low) ↔
        entry = (key, val) ∨ entry ∈ tree.entries ∧ entry.1 ≠ key := by
  intro height
  induction height with
  | zero =>
    intro low high tree key val supply after grown ordered lowKey keyHigh result
    have changed := upsert_spec val ordered lowKey keyHigh
    have lowHigh := (WithTop.coe_le_coe.mpr lowKey).trans keyHigh.le
    have grownSpec := grow_spec changed.1 lowHigh result
    refine ⟨grownSpec.1, ?_⟩
    intro entry
    rw [grownSpec.2]
    exact changed.2 entry
  | succ height induction =>
    intro low high tree key val supply after grown ordered lowKey keyHigh result
    obtain ⟨front, item, back, equal, position, itemKey, keyBack⟩ :=
      ordered.route lowKey keyHigh
    rw [treeInsert, splitAt_route equal position] at result
    dsimp only at result
    split at result
    · next child middle inserted =>
        have whole : Ordered (height + 1) low high (front ++ item :: [] ++ back) := by
          rw [equal] at ordered
          simpa using ordered
        have inChild := (ordered_single.mp whole.run)
        have childSpec := induction inChild.1 itemKey keyBack inserted
        have lowHigh := (WithTop.coe_le_coe.mpr lowKey).trans keyHigh.le
        have grownSpec := grow_spec (whole.splice childSpec.1) lowHigh result
        refine ⟨grownSpec.1, ?_⟩
        intro entry
        have beside := Ordered.beside (by simpa using whole) itemKey keyBack
        rw [grownSpec.2]
        simp only [Block.entries, equal, itemEntries_append, itemEntries_cons_succ,
          List.mem_append, childSpec.2]
        have left := fun member => ne_of_lt (beside.1 entry member)
        have right := fun member => ne_of_gt (beside.2 entry member)
        tauto
    · cases result

/-! ## Deletion -/

theorem leafErase_cases {β : Type} (entries : List (Bytes × β))
    (sorted : entries.Pairwise fun left right => left.1 < right.1) (key : Bytes) :
    (∃ i, binarySearch (entries.map Prod.fst) key = .ok i ∧ (∃ entry ∈ entries, entry.1 = key) ∧
      ∀ entry, entry ∈ entries.eraseIdx i ↔ entry ∈ entries ∧ entry.1 ≠ key) ∨
    (∃ i, binarySearch (entries.map Prod.fst) key = .error i ∧
      ∀ entry ∈ entries, entry.1 ≠ key) := by
  rcases binarySearch_keys_cases entries sorted key with
    ⟨below, value, above, equal, found, belowKey, aboveKey⟩ |
    ⟨below, above, equal, missed, belowKey, aboveKey⟩
  · refine .inl ⟨below.length, found, ⟨(key, value), by simp [equal], rfl⟩, ?_⟩
    intro entry
    have notBelow := fun member => ne_of_lt (belowKey entry member)
    have notAbove := fun member => ne_of_gt (aboveKey entry member)
    have notSame : entry = (key, value) → entry.1 = key := fun same => by rw [same]
    rw [equal, eraseIdx_length_append, List.mem_append, List.mem_append, List.mem_cons]
    tauto
  · refine .inr ⟨below.length, missed, ?_⟩
    intro entry member
    rw [equal, List.mem_append] at member
    rcases member with inBelow | inAbove
    · exact ne_of_lt (belowKey entry inBelow)
    · exact ne_of_gt (aboveKey entry inAbove)

/-- Rebalancing changes neither the order nor the entries. -/
theorem rebalanced_spec {front back : PageItems (height + 1)} {bound : Bytes}
    {child : PagePayload (height + 1)} (supply : List PageId)
    (ordered : Ordered (height + 1) low high (front ++ (bound, child) :: back)) :
    Ordered (height + 1) low high (rebalanced front bound child back supply).1 ∧
      itemEntries (height + 1) (rebalanced front bound child back supply).1 =
        itemEntries (height + 1) (front ++ (bound, child) :: back) := by
  unfold rebalanced
  split
  · next run borrowed =>
      obtain ⟨before, other, left, items, moved, rfl, equal, notFirst, -, rfl⟩ :=
        borrowLeft_cases borrowed
      have whole : Ordered (height + 1) low high
          (before ++ (other, left) :: [(bound, child)] ++ back) := by
        simpa using ordered
      refine ⟨?_, ?_⟩
      · refine whole.splice (whole.run.recut ?_ notFirst left.label child.label)
        rw [equal, List.append_assoc]
        rfl
      · simp [equal, itemEntries_cons height moved child.items]
  · split
    · next run borrowed =>
        obtain ⟨other, right, after, moved, first, others, rfl, equal, -, rfl⟩ :=
          borrowRight_cases borrowed
        have whole : Ordered (height + 1) low high
            (front ++ (bound, child) :: [(other, right)] ++ after) := by
          simpa using ordered
        refine ⟨?_, ?_⟩
        · have same : child.items ++ right.items = (child.items ++ [moved]) ++ first :: others := by
            rw [equal]
            simp
          have spliced := whole.splice
            (whole.run.recut same (by simp) child.label right.label)
          simpa using spliced
        · simp [equal, itemEntries_cons height moved (first :: others)]
    · split
      · next run merged =>
          obtain ⟨before, other, left, rfl, -, rfl⟩ := mergeLeft_cases merged
          have whole : Ordered (height + 1) low high
              (before ++ (other, left) :: [(bound, child)] ++ back) := by
            simpa using ordered
          refine ⟨whole.splice (whole.run.merge left.label), ?_⟩
          simp
      · split
        · next run freed merged =>
            obtain ⟨other, right, after, rfl, -, rfl, -⟩ := mergeRight_cases merged
            have whole : Ordered (height + 1) low high
                (front ++ (bound, child) :: [(other, right)] ++ after) := by
              simpa using ordered
            refine ⟨?_, ?_⟩
            · simpa using whole.splice (whole.run.merge child.label)
            · simp
        · simpa [Grown.items] using ordered

theorem treeDelete_spec : ∀ {height : Nat} {low : Bytes} {high : WithTop Bytes}
    {tree : PageTree height} {key : Bytes} {supply : List PageId}
    {result : Option (PageTree height × List PageId)}, Ordered height low high tree.items →
    low ≤ key → (key : WithTop Bytes) < high →
    treeDelete height tree key supply = .ok result →
    match result with
    | none => ∀ entry ∈ tree.entries, entry.1 ≠ key
    | some (after, _) => (∃ entry ∈ tree.entries, entry.1 = key) ∧
        Ordered height low high after.items ∧
        ∀ entry, entry ∈ after.entries ↔ entry ∈ tree.entries ∧ entry.1 ≠ key := by
  intro height
  induction height with
  | zero =>
    intro low high tree key supply result ordered lowKey keyHigh deleted
    rcases leafErase_cases tree.items ordered.1 key with
      ⟨i, found, present, members⟩ | ⟨i, missed, absent⟩
    · rw [treeDelete, found] at deleted
      cases deleted
      exact ⟨present, ordered.leaf_sublist (List.eraseIdx_sublist _ _), members⟩
    · rw [treeDelete, missed] at deleted
      cases deleted
      exact absent
  | succ height induction =>
    intro low high tree key supply result ordered lowKey keyHigh deleted
    obtain ⟨front, item, back, equal, position, itemKey, keyBack⟩ :=
      ordered.route lowKey keyHigh
    have whole : Ordered (height + 1) low high (front ++ item :: [] ++ back) := by
      rw [equal] at ordered
      simpa using ordered
    have beside := Ordered.beside (by simpa using whole) itemKey keyBack
    have inChild := ordered_single.mp whole.run
    have entries : tree.entries = itemEntries (height + 1) front ++
        (itemEntries height item.2.items ++ itemEntries (height + 1) back) := by
      rw [Block.entries, equal, itemEntries_append, itemEntries_cons_succ]
    rw [treeDelete, splitAt_route equal position] at deleted
    dsimp only at deleted
    split at deleted
    · next child middle inner =>
        have childSpec := induction inChild.1 itemKey keyBack inner
        dsimp only at childSpec
        have spliced : Ordered (height + 1) low high
            (front ++ Grown.items item.1 (.one child) ++ back) :=
          whole.splice (ordered_single.mpr ⟨childSpec.2.1, inChild.2⟩)
        have present : ∃ entry ∈ tree.entries, entry.1 = key := by
          rcases childSpec.1 with ⟨entry, member, same⟩
          refine ⟨entry, ?_, same⟩
          rw [entries, List.mem_append, List.mem_append]
          exact .inr (.inl member)
        have members : ∀ entry,
            entry ∈ itemEntries (height + 1) (front ++ Grown.items item.1 (.one child) ++ back) ↔
              entry ∈ tree.entries ∧ entry.1 ≠ key := by
          intro entry
          have left := fun member => ne_of_lt (beside.1 entry member)
          have right := fun member => ne_of_gt (beside.2 entry member)
          have center := childSpec.2.2 entry
          rw [entries]
          simp only [Block.entries, Grown.items, itemEntries_append, itemEntries_cons_succ,
            itemEntries_nil, List.append_nil, List.mem_append] at center ⊢
          tauto
        split at deleted
        · next underfull =>
            rw [List.append_assoc] at spliced
            have rebalancedSpec := rebalanced_spec middle spliced
            split at deleted
            · cases deleted
              refine ⟨present, rebalancedSpec.1, ?_⟩
              intro entry
              rw [← members, List.append_assoc]
              exact Eq.to_iff (congrArg (entry ∈ ·) rebalancedSpec.2)
            · cases deleted
        · cases deleted
          exact ⟨present, spliced, members⟩
    · next inner =>
        cases deleted
        have childSpec := induction inChild.1 itemKey keyBack inner
        intro entry member
        rw [entries, List.mem_append, List.mem_append] at member
        rcases member with inFront | inItem | inBack
        · exact ne_of_lt (beside.1 entry inFront)
        · exact childSpec entry inItem
        · exact ne_of_gt (beside.2 entry inBack)
    · cases deleted

/-- A branch stays ordered when a key is deleted below the routed child. -/
theorem ordered_of_deleted {tree : PageTree (height + 1)} {front back : PageItems (height + 1)}
    {item : Bytes × PagePayload (height + 1)} {key : Bytes}
    (ordered : Ordered (height + 1) low high tree.items) (lowKey : low ≤ key)
    (keyHigh : (key : WithTop Bytes) < high) (equal : tree.items = front ++ item :: back)
    (position : front.length = route tree.items key)
    (deleted : treeDelete height item.2 key supply = .ok (some (child, after))) :
    Ordered (height + 1) low high (front ++ Grown.items item.1 (.one child) ++ back) := by
  obtain ⟨itemKey, keyBack⟩ := ordered.route_bounds lowKey keyHigh equal position
  have whole : Ordered (height + 1) low high (front ++ item :: [] ++ back) := by
    rw [equal] at ordered
    simpa using ordered
  have inChild := ordered_single.mp whole.run
  have childSpec := treeDelete_spec inChild.1 itemKey keyBack deleted
  exact whole.splice (ordered_single.mpr ⟨childSpec.2.1, inChild.2⟩)

end GStore.Kvstore
