import GStore.Kvstore.TreeOverflow

/-! # The tree as a map

A lookup goes down the path that an insertion of its key would take. Over any run of completed
insertions and deletions it answers what a map from keys to values would. -/

namespace GStore.Kvstore

open SearchTree SortedSlice PageM

section Lookup

variable {heap : Heap} {next : PageId}

theorem getLeaf_runs {page : PageId} {entries : List (Bytes × Bytes)} (fuel : Nat) (key : Bytes)
    (stored : Stored heap page (.leaf next entries))
    (sorted : entries.Pairwise fun left right => left.1 < right.1) :
    ∃ found, (BTree.getLoop (fuel + 1) page key).Returns heap found heap ∧
      ∀ val, found = some val ↔ (key, val) ∈ entries := by
  rcases binarySearch_keys_cases entries sorted key with
    ⟨below, value, above, equal, hit, belowKey, aboveKey⟩ |
    ⟨below, above, equal, missed, belowKey, aboveKey⟩
  · have notBelow : ∀ val, (key, val) ∉ below := fun val member => lt_irrefl key (belowKey _ member)
    have notAbove : ∀ val, (key, val) ∉ above := fun val member => lt_irrefl key (aboveKey _ member)
    refine ⟨some value, ?_, fun val => ?_⟩
    · apply (returns_readNode stored).bind
      dsimp only
      rw [hit, equal]
      simpa using returns_pure (some value) heap
    · simp [equal, notBelow, notAbove, eq_comm]
  · refine ⟨none, ?_, fun val => iff_of_false (Option.some_ne_none val).symm fun member => ?_⟩
    · apply (returns_readNode stored).bind
      dsimp only
      rw [missed]
      exact returns_pure _ _
    · rw [equal, List.mem_append] at member
      rcases member with inBelow | inAbove
      · exact lt_irrefl key (belowKey _ inBelow)
      · exact lt_irrefl key (aboveKey _ inAbove)

/-- A lookup finds what the tree holds for the key. -/
theorem getLoop_runs : ∀ {height : Nat} {tree : PageTree height} {low : Bytes}
    {high : WithTop Bytes} {key : Bytes} {next : PageId} {fuel : Nat}, height < fuel →
    Ordered height low high tree.items → low ≤ key → (key : WithTop Bytes) < high →
    Holds heap (cells next tree) →
    ∃ found, (BTree.getLoop fuel tree.label key).Returns heap found heap ∧
      ∀ val, found = some val ↔ (key, val) ∈ tree.entries := by
  intro height
  induction height with
  | zero =>
    intro tree low high key next fuel enough ordered lowKey keyHigh holds
    obtain ⟨fuel, rfl⟩ := Nat.exists_eq_succ_of_ne_zero (by omega : fuel ≠ 0)
    exact getLeaf_runs fuel key (holds_cons.mp holds).1 ordered.1
  | succ height induction =>
    intro tree low high key next fuel enough ordered lowKey keyHigh holds
    obtain ⟨fuel, rfl⟩ := Nat.exists_eq_succ_of_ne_zero (by omega : fuel ≠ 0)
    obtain ⟨front, item, back, first, rest, down⟩ := descent ordered lowKey keyHigh holds
    obtain ⟨found, returns, answers⟩ := induction (by omega : height < fuel) down.ordered
      down.lowKey down.keyHigh down.holds
    rw [down.equal] at ordered
    obtain ⟨before, behind⟩ := ordered.beside down.lowKey down.keyHigh
    refine ⟨found, ?_, fun val => ?_⟩
    · apply (returns_readNode down.stored).bind
      exact (returns_orPanic down.child heap).bind returns
    · have left := fun member => lt_irrefl key (before (key, val) member)
      have right := fun member => lt_irrefl key (behind (key, val) member)
      have whole : tree.entries = itemEntries (height + 1) front ++
          (item.2.entries ++ itemEntries (height + 1) back) := by
        rw [Block.entries, down.equal, itemEntries_append, itemEntries_cons_succ]
        rfl
      rw [answers val, whole, List.mem_append, List.mem_append]
      tauto

theorem get_runs {btree : BTree} {rooted : Rooted}
    (represents : Represents heap btree.rootSlot rooted) (valid : heap.Valid) (key : Bytes) :
    ∃ found, (btree.get key).Returns heap found heap ∧
      ∀ val, found = some val ↔ (key, val) ∈ rooted.entries := by
  cases rooted with
  | none =>
    refine ⟨none, represents.returns_root.bind (returns_pure _ _), fun val => ?_⟩
    simp [Rooted.entries]
  | some pair =>
    obtain ⟨height, tree⟩ := pair
    obtain ⟨found, returns, answers⟩ := getLoop_runs
      (height_lt_pageLimit represents.ordered represents.nodup) represents.ordered
      (nil_le_bytes key) (WithTop.coe_lt_top key) represents.holds
    have hasRoot : ¬ Rooted.page (some ⟨height, tree⟩) = 0 := represents.page_ne_zero valid
    refine ⟨found, ?_, answers⟩
    apply represents.returns_root.bind
    rw [if_neg hasRoot]
    exact returns

end Lookup

/-! ## Runs -/

/-- The map that completed insertions and deletions leave behind, from an empty tree on. -/
inductive Holding (btree : BTree) : Heap → (Bytes → Option Bytes) → Prop
  | empty {heap : Heap} (valid : heap.Valid) (root : heap.roots btree.rootSlot = 0) :
      Holding btree heap fun _ => none
  | insert {heap after : Heap} {map : Bytes → Option Bytes} {key val : Bytes}
      (holding : Holding btree heap map)
      (returns : (btree.insert key val).Returns heap () after) :
      Holding btree after (Function.update map key (some val))
  | delete {heap after : Heap} {map : Bytes → Option Bytes} {key : Bytes} {removed : Bool}
      (holding : Holding btree heap map)
      (returns : (btree.delete key).Returns heap removed after) :
      Holding btree after (Function.update map key none)

section Holding

variable {btree : BTree} {heap : Heap} {map : Bytes → Option Bytes}

theorem Holding.represents (holding : Holding btree heap map) :
    heap.Valid ∧ ∃ rooted, Represents heap btree.rootSlot rooted ∧
      ∀ key val, (key, val) ∈ rooted.entries ↔ map key = some val := by
  induction holding with
  | empty valid root =>
    refine ⟨valid, none, represents_empty root, ?_⟩
    simp [Rooted.entries]
  | @insert heap after map key val _ returns induction =>
    rcases induction with ⟨valid, rooted, represents, entries⟩
    rcases represents.inserted valid returns with ⟨grown, supply, result, -, kept⟩
    refine ⟨returns.valid valid, grown, kept, fun other found => ?_⟩
    rw [(Rooted.insert_spec represents.ordered result).2, entries]
    by_cases same : other = key
    · simp [same, eq_comm]
    · simp [same]
  | @delete heap after map key removed _ returns induction =>
    rcases induction with ⟨valid, rooted, represents, entries⟩
    rcases represents.deleted valid returns with ⟨changed, supply, result, kept⟩
    refine ⟨returns.valid valid, changed, kept, fun other found => ?_⟩
    rw [(Rooted.delete_spec represents.ordered result).2.2, entries]
    by_cases same : other = key
    · simp [same]
    · simp [same]

/-- A lookup answers the value last put under its key unless that was deleted since, and a
deletion tells whether there was one. -/
theorem tree_is_map (holding : Holding btree heap map) (key : Bytes) :
    (btree.get key).Returns heap (map key) heap ∧
      ∀ removed after, (btree.delete key).Returns heap removed after →
        removed = (map key).isSome := by
  rcases holding.represents with ⟨valid, rooted, represents, entries⟩
  constructor
  · rcases get_runs represents valid key with ⟨found, returns, answers⟩
    have same : found = map key := by
      ext val
      rw [← entries, ← answers]
    exact same ▸ returns
  · intro removed after returns
    rcases represents.deleted valid returns with ⟨changed, supply, result, -⟩
    rw [Bool.eq_iff_iff, (Rooted.delete_spec represents.ordered result).2.1,
      Option.isSome_iff_exists]
    constructor
    · rintro ⟨entry, member, rfl⟩
      exact ⟨entry.2, (entries _ _).mp member⟩
    · rintro ⟨val, held⟩
      exact ⟨(key, val), (entries _ _).mpr held, rfl⟩

end Holding

theorem tree_is_map_inserted : ∃ after, (firstTree.insert [1] [2]).Returns freshHeap () after ∧
    (firstTree.get [1]).Returns after (some [2]) after := by
  have represents : Represents freshHeap firstTree.rootSlot none := represents_empty rfl
  rcases insert_represents represents valid_freshHeap [1] [2] with ⟨after, returns, -⟩
  have holding := (Holding.empty valid_freshHeap rfl).insert returns
  exact ⟨after, returns, (tree_is_map holding [1]).1⟩

end GStore.Kvstore
