import GStore.Kvstore.IvArray

/-! # Arrays in the heap

Which pages the arrays have, what for, and what is in them. -/

namespace GStore.Kvstore

open PageM Overflow

/-- A place for a page of an array: the top of the page table is at level 0, a directory at
level 2. -/
structure Place where
  array : RootSlot
  level : Nat
  index : Nat
deriving DecidableEq

namespace Place

/-- The place that an entry of the page there leads to. -/
def child (place : Place) (entry : Nat) : Place :=
  ⟨place.array, place.level + 1, place.index * fanout + entry⟩

def parent (place : Place) : Place := ⟨place.array, place.level - 1, place.index / fanout⟩

/-- Bytes of an entry. -/
def width (place : Place) : Nat := if place.level < 2 then 4 else slotSize

end Place

/-- A key of an array. -/
abbrev Cell := RootSlot × Nat

/-- The directory of a key. -/
def Cell.directory (cell : Cell) : Place := ⟨cell.1, 2, cell.2 / slotsPerDir⟩

/-- The levels above the directory. -/
def Cell.top (cell : Cell) : Place := ⟨cell.1, 0, 0⟩

def Cell.middle (cell : Cell) : Place := cell.top.child (cell.2 / slotsPerDir / fanout)

/-- What a page is for. -/
inductive Owner where
  | place (place : Place)
  | chain (cell : Cell)
deriving DecidableEq

/-- The pages of the arrays, 0 for a place without one, and what is in them. -/
structure Plan where
  table : Place → PageId
  value : Cell → Option Bytes
  chain : Cell → List PageId
  owner : PageId → Option Owner

namespace Plan

def slot (plan : Plan) (cell : Cell) : Bytes :=
  IvArray.slotOf (plan.value cell) (plan.chain cell)

def entry (plan : Plan) (place : Place) (index : Nat) : Bytes :=
  if place.level < 2 then le32 (plan.table (place.child index))
  else plan.slot (place.array, place.index * slotsPerDir + index)

/-- The page at a place. -/
def page (plan : Plan) (place : Place) : Page :=
  Page.ofBytes (records (plan.entry place) (pageSize / place.width))

/-- The page at a place is a page of the plan. -/
def Owns (plan : Plan) (id : PageId) : Prop :=
  (∃ place, plan.table place = id ∧ id ≠ 0) ∨ ∃ cell, id ∈ plan.chain cell

/-- The heap holds what is planned for the arrays. -/
structure Held (arrays : RootSlot → Prop) (heap : Heap) (plan : Plan) : Prop where
  root : ∀ array, arrays array → heap.roots array = (plan.table ⟨array, 0, 0⟩).toUInt64
  level : ∀ place, plan.table place ≠ 0 → place.level ≤ 2
  page : ∀ place, plan.table place ≠ 0 → heap.page (plan.table place) = some (plan.page place)
  parent : ∀ place, plan.table place ≠ 0 → place.level ≠ 0 → plan.table place.parent ≠ 0
  directory : ∀ cell val, plan.value cell = some val → plan.table cell.directory ≠ 0
  short : ∀ cell val, plan.value cell = some val → val.length < UInt32.size
  carries : ∀ cell, IvArray.Carries heap (plan.value cell) (plan.chain cell)
  owner_table : ∀ place, plan.table place ≠ 0 →
    plan.owner (plan.table place) = some (.place place)
  owner_chain : ∀ cell, ∀ id ∈ plan.chain cell, plan.owner id = some (.chain cell)

/-! ## Pages -/

variable {plan other : Plan} {place : Place} {cell : Cell} {index : Nat}

theorem width_mul (place : Place) : pageSize / place.width * place.width = pageSize := by
  rw [Place.width]
  split <;> decide

theorem length_entry (plan : Plan) (place : Place) (index : Nat) :
    (plan.entry place index).length = place.width := by
  rw [entry, Place.width]
  split
  · exact length_le32 _
  · exact IvArray.length_slotOf _ _

theorem bytes_page (plan : Plan) (place : Place) :
    (plan.page place).bytes = records (plan.entry place) (pageSize / place.width) := by
  have length := length_records (plan.length_entry place) (pageSize / place.width)
  rw [width_mul] at length
  rw [page, Page.bytes_ofBytes (le_of_eq length), length, Nat.sub_self, List.replicate_zero,
    List.append_nil]

theorem page_congr
    (same : ∀ index < pageSize / place.width, plan.entry place index = other.entry place index) :
    plan.page place = other.page place := by
  rw [page, page, records_congr same]

/-- A page with one entry written over is the page of a plan that differs in that entry. -/
theorem overwrite_page {data : Bytes} (below : index < pageSize / place.width)
    (length : data.length = place.width) (new : other.entry place index = data)
    (same : ∀ further, further ≠ index → further < pageSize / place.width →
      other.entry place further = plan.entry place further) :
    (plan.page place).overwrite (index * place.width) data = other.page place := by
  apply Page.ext
  have changed : records (Function.update (plan.entry place) index data)
      (pageSize / place.width) = records (other.entry place) (pageSize / place.width) := by
    apply records_congr
    intro further within
    by_cases equal : further = index
    · rw [equal, Function.update_self, new]
    · rw [Function.update_of_ne equal, same further equal within]
  have size := length_records (other.length_entry place) (pageSize / place.width)
  rw [width_mul] at size
  change (writeAt (plan.page place).bytes (index * place.width) data).take pageSize = _
  rw [bytes_page, bytes_page, writeAt_records (plan.length_entry place) below length, changed]
  exact List.take_of_length_le (le_of_eq size)

theorem readU32_page (plan : Plan) (upper : place.level < 2) (below : index < fanout) :
    readU32 (plan.page place) (index * 4) = plan.table (place.child index) := by
  have width : place.width = 4 := if_pos upper
  have count : index < pageSize / place.width := by
    rw [width]
    exact below
  have found := slice_records (plan.length_entry place) count
  rw [width] at found
  rw [readU32, bytes_page, width, found, entry, if_pos upper, ofLe32_le32]

theorem entry_directory (plan : Plan) (cell : Cell) :
    plan.entry cell.directory (cell.2 % slotsPerDir) = plan.slot cell := by
  have lower : ¬ cell.directory.level < 2 := by
    change ¬ 2 < 2
    omega
  have position : cell.directory.index * slotsPerDir + cell.2 % slotsPerDir = cell.2 :=
    Nat.div_add_mod' cell.2 slotsPerDir
  rw [entry, if_neg lower, position]
  rfl

/-- The slot of a key, in its directory. -/
theorem slotAt_page (plan : Plan) (cell : Cell) :
    IvArray.SlotAt (plan.page cell.directory) (cell.2 % slotsPerDir * slotSize)
      (plan.slot cell) := by
  have width : cell.directory.width = slotSize := rfl
  have below : cell.2 % slotsPerDir < pageSize / cell.directory.width :=
    Nat.mod_lt _ (by decide)
  have found := slice_records (plan.length_entry cell.directory) below
  rw [width] at found
  rw [IvArray.SlotAt, bytes_page, width, found, entry_directory]

/-! ## A page more -/

/-- The plan with a page at a place that had none. -/
def attach (plan : Plan) (place : Place) (id : PageId) : Plan :=
  { plan with
    table := Function.update plan.table place id
    owner := Function.update plan.owner id (some (.place place)) }

variable {arrays : RootSlot → Prop} {heap after : Heap} {id : PageId}

/-- A page of the plan is what it is for, and nothing else. -/
theorem Held.table_inj (held : plan.Held arrays heap) {first second : Place}
    (present : plan.table first ≠ 0) (same : plan.table first = plan.table second) :
    first = second := by
  have left := held.owner_table first present
  rw [same] at left present
  rw [held.owner_table second present] at left
  cases left
  rfl

theorem Held.table_not_mem_chain (held : plan.Held arrays heap)
    (present : plan.table place ≠ 0) (cell : Cell) : plan.table place ∉ plan.chain cell := by
  intro member
  have left := held.owner_table place present
  rw [held.owner_chain cell _ member] at left
  cases left

theorem Held.chain_inj (held : plan.Held arrays heap) {first second : Cell}
    (inFirst : id ∈ plan.chain first) (inSecond : id ∈ plan.chain second) : first = second := by
  have left := held.owner_chain first id inFirst
  rw [held.owner_chain second id inSecond] at left
  cases left
  rfl

theorem Held.live (held : plan.Held arrays heap) (owns : plan.Owns id) : heap.page id ≠ none := by
  rcases owns with ⟨place, rfl, present⟩ | ⟨cell, member⟩
  · rw [held.page place present]
    exact Option.some_ne_none _
  · exact (held.carries cell).live id member

/-- What is in the pages of the plan says all. -/
theorem Held.of_same (held : plan.Held arrays heap)
    (same : ∀ id, plan.Owns id → after.page id = heap.page id)
    (roots : ∀ array, arrays array → after.roots array = heap.roots array) :
    plan.Held arrays after where
  root := fun array member => (roots array member).trans (held.root array member)
  level := held.level
  page := fun place present =>
    (same _ (.inl ⟨place, rfl, present⟩)).trans (held.page place present)
  parent := held.parent
  directory := held.directory
  short := held.short
  carries := fun cell => (held.carries cell).of_same fun id member => same id (.inr ⟨cell, member⟩)
  owner_table := held.owner_table
  owner_chain := held.owner_chain

theorem child_parent (place : Place) {index : Nat} (below : index < fanout) :
    (place.child index).parent = place := by
  have divided : (place.index * fanout + index) / fanout = place.index := by
    rw [Nat.div_eq_iff (by decide)]
    omega
  rw [Place.child, Place.parent]
  dsimp only
  rw [Nat.add_sub_cancel, divided]

/-- The key of a slot. -/
theorem directory_slot (lower : ¬ place.level < 2) (level : place.level ≤ 2)
    (below : index < slotsPerDir) :
    Cell.directory (place.array, place.index * slotsPerDir + index) = place := by
  have cut : (place.index * slotsPerDir + index) / slotsPerDir = place.index := by
    rw [Nat.div_eq_iff (by decide)]
    omega
  have two : place.level = 2 := by omega
  rw [Cell.directory, cut, ← two]

/-- The page of a place without pages below it is zero. -/
theorem page_eq_zero (level : place.level ≤ 2)
    (children : place.level < 2 → ∀ index < fanout, plan.table (place.child index) = 0)
    (values : ∀ cell : Cell, cell.directory = place → plan.value cell = none) :
    plan.page place = Page.zero := by
  have zeros : records (plan.entry place) (pageSize / place.width) =
      records (fun _ => List.replicate place.width 0) (pageSize / place.width) := by
    apply records_congr
    intro index below
    rw [entry]
    by_cases upper : place.level < 2
    · have width : place.width = 4 := if_pos upper
      rw [width] at below
      rw [if_pos upper, children upper index below, width]
      decide
    · have width : place.width = slotSize := if_neg upper
      rw [width] at below
      rw [if_neg upper, slot, values _ (directory_slot upper level below), width]
      rfl
  have blank : (List.replicate pageSize (0 : UInt8)).length ≤ pageSize := by
    rw [List.length_replicate]
  apply Page.ext
  rw [bytes_page, zeros, records_zero, width_mul, Page.zero,
    Page.bytes_ofBytes (Nat.zero_le _), List.length_nil, Nat.sub_zero, List.nil_append]

/-- A zeroed page joins the arrays once its parent names it. -/
theorem Held.attach (held : plan.Held arrays heap) (vacant : plan.table place = 0)
    (level : place.level ≤ 2) (parent : place.level ≠ 0 → plan.table place.parent ≠ 0)
    (fresh : heap.page id = none) (notZero : id ≠ 0)
    (zeroed : after.page id = some Page.zero)
    (named : place.level ≠ 0 →
      after.page (plan.table place.parent) = some ((plan.attach place id).page place.parent))
    (outside : ∀ further, further ≠ id → (place.level ≠ 0 → further ≠ plan.table place.parent) →
      after.page further = heap.page further)
    (roots : ∀ array, arrays array →
      after.roots array = ((plan.attach place id).table ⟨array, 0, 0⟩).toUInt64) :
    (plan.attach place id).Held arrays after := by
  have unowned : ∀ further, plan.Owns further → further ≠ id := by
    rintro further owns rfl
    exact held.live owns fresh
  have old : ∀ further, further ≠ place → (plan.attach place id).table further =
      plan.table further := fun further apart => Function.update_of_ne apart _ _
  have new : (plan.attach place id).table place = id := Function.update_self _ _ _
  -- Only the parent has the new page in an entry.
  have pages : ∀ further, (place.level = 0 ∨ further ≠ place.parent) →
      (plan.attach place id).page further = plan.page further := by
    intro further apart
    apply page_congr
    intro index below
    rw [entry, entry]
    by_cases upper : further.level < 2
    · have width : further.width = 4 := if_pos upper
      rw [width] at below
      have different : further.child index ≠ place := by
        rintro rfl
        rcases apart with bottom | apart
        · exact absurd bottom (Nat.succ_ne_zero _)
        · exact apart (child_parent further below).symm
      rw [if_pos upper, if_pos upper, old _ different]
    · rw [if_neg upper, if_neg upper]
      rfl
  have parentApart : place.level ≠ 0 → place.parent ≠ place := by
    intro above same
    have levels := congrArg Place.level same
    change place.level - 1 = place.level at levels
    omega
  refine ⟨roots, ?_, ?_, ?_, ?_, held.short, ?_, ?_, ?_⟩
  · intro further present
    by_cases same : further = place
    · rw [same]
      exact level
    · rw [old further same] at present
      exact held.level further present
  · intro further present
    by_cases same : further = place
    · have empty : (plan.attach place id).page place = Page.zero := by
        apply page_eq_zero level
        · intro upper index below
          have different : place.child index ≠ place := by
            intro same
            have levels := congrArg Place.level same
            change place.level + 1 = place.level at levels
            omega
          rw [old _ different]
          by_contra present
          have above := held.parent _ present (Nat.succ_ne_zero _)
          rw [child_parent place below] at above
          exact above vacant
        · intro cell directory
          cases value : plan.value cell with
          | none => exact value
          | some val =>
            have present := held.directory cell val value
            rw [directory] at present
            exact absurd vacant present
      rw [same, new, empty, zeroed]
    · rw [old further same] at present ⊢
      by_cases isParent : place.level ≠ 0 ∧ further = place.parent
      · rw [isParent.2]
        exact named isParent.1
      · have apart : place.level = 0 ∨ further ≠ place.parent := by
          by_cases bottom : place.level = 0
          · exact .inl bottom
          · exact .inr fun equal => isParent ⟨bottom, equal⟩
        rw [pages further apart, outside _ (unowned _ (.inl ⟨further, rfl, present⟩)),
          held.page further present]
        intro above equal
        exact isParent ⟨above, held.table_inj present equal⟩
  · intro further present above
    by_cases same : further = place
    · rw [same] at above ⊢
      rw [old _ (parentApart above)]
      exact parent above
    · rw [old further same] at present
      have up := held.parent further present above
      have different : further.parent ≠ place := by
        intro equal
        rw [equal] at up
        exact up vacant
      rwa [old _ different]
  · intro cell val value
    have present := held.directory cell val value
    have different : cell.directory ≠ place := by
      intro equal
      rw [equal] at present
      exact present vacant
    rwa [old _ different]
  · intro cell
    apply (held.carries cell).of_same
    intro further member
    apply outside
    · exact unowned further (.inr ⟨cell, member⟩)
    · rintro above rfl
      exact held.table_not_mem_chain (parent above) cell member
  · intro further present
    by_cases same : further = place
    · rw [same, new]
      exact Function.update_self _ _ _
    · rw [old further same] at present ⊢
      have apart := unowned _ (.inl ⟨further, rfl, present⟩)
      exact (Function.update_of_ne apart _ _).trans (held.owner_table further present)
  · intro cell further member
    have apart := unowned further (.inr ⟨cell, member⟩)
    exact (Function.update_of_ne apart _ _).trans (held.owner_chain cell further member)

/-! ## Another value -/

/-- The plan with another value for a key, and another chain. -/
def store (plan : Plan) (cell : Cell) (value : Option Bytes) (ids : List PageId) : Plan where
  table := plan.table
  value := Function.update plan.value cell value
  chain := Function.update plan.chain cell ids
  owner := fun id => if ids.contains id then some (.chain cell) else plan.owner id

variable {value : Option Bytes} {ids : List PageId}

theorem slot_store_self (plan : Plan) (cell : Cell) (value : Option Bytes) (ids : List PageId) :
    (plan.store cell value ids).slot cell = IvArray.slotOf value ids := by
  rw [slot, store]
  dsimp only
  rw [Function.update_self, Function.update_self]

theorem slot_store_of_ne {further : Cell} (apart : further ≠ cell) :
    (plan.store cell value ids).slot further = plan.slot further := by
  rw [slot, slot, store]
  dsimp only
  rw [Function.update_of_ne apart, Function.update_of_ne apart]

/-- Only the directory of the key has another page. -/
theorem page_store_of_ne (level : place.level ≤ 2) (apart : place ≠ cell.directory) :
    (plan.store cell value ids).page place = plan.page place := by
  apply page_congr
  intro index below
  rw [entry, entry]
  by_cases upper : place.level < 2
  · rw [if_pos upper, if_pos upper]
    rfl
  · have width : place.width = slotSize := if_neg upper
    rw [width] at below
    have different : ((place.array, place.index * slotsPerDir + index) : Cell) ≠ cell := by
      intro same
      rw [← same, directory_slot upper level below] at apart
      exact apart rfl
    rw [if_neg upper, if_neg upper, slot_store_of_ne different]

/-- The slot is written over. -/
theorem overwrite_store (plan : Plan) (cell : Cell) (value : Option Bytes) (ids : List PageId) :
    (plan.page cell.directory).overwrite (cell.2 % slotsPerDir * slotSize)
        (IvArray.slotOf value ids) =
      (plan.store cell value ids).page cell.directory := by
  have lower : ¬ cell.directory.level < 2 := by
    change ¬ 2 < 2
    omega
  have position : cell.directory.index * slotsPerDir + cell.2 % slotsPerDir = cell.2 :=
    Nat.div_add_mod' cell.2 slotsPerDir
  apply @overwrite_page _ _ cell.directory
  · exact Nat.mod_lt _ (by decide)
  · exact IvArray.length_slotOf _ _
  · rw [entry_directory]
    exact slot_store_self plan cell value ids
  · intro further apart below
    have different :
        ((cell.directory.array, cell.directory.index * slotsPerDir + further) : Cell) ≠ cell := by
      intro same
      have indices := congrArg Prod.snd same
      dsimp only at indices
      omega
    rw [entry, entry, if_neg lower, if_neg lower, slot_store_of_ne different]

/-- The heap holds the other value once the directory and the new chain are written. -/
theorem owner_store_of_mem (member : id ∈ ids) :
    (plan.store cell value ids).owner id = some (.chain cell) :=
  if_pos (List.contains_iff_mem.mpr member)

theorem owner_store_of_not_mem (outside : id ∉ ids) :
    (plan.store cell value ids).owner id = plan.owner id :=
  if_neg fun found => outside (List.contains_iff_mem.mp found)

theorem Held.store (held : plan.Held arrays heap) (directory : plan.table cell.directory ≠ 0)
    (short : ∀ val, value = some val → val.length < UInt32.size)
    (carries : IvArray.Carries after value ids)
    (fresh : ∀ id ∈ ids, id ∈ plan.chain cell ∨ heap.page id = none)
    (written : after.page (plan.table cell.directory) =
      some ((plan.store cell value ids).page cell.directory))
    (outside : ∀ id, plan.Owns id → id ≠ plan.table cell.directory → id ∉ plan.chain cell →
      after.page id = heap.page id)
    (roots : after.roots = heap.roots) : (plan.store cell value ids).Held arrays after := by
  -- A page that is for something else is not in the new chain.
  have table_apart : ∀ place, plan.table place ≠ 0 → plan.table place ∉ ids := by
    intro place present member
    rcases fresh _ member with old | free
    · exact held.table_not_mem_chain present cell old
    · exact held.live (.inl ⟨place, rfl, present⟩) free
  have chain_apart : ∀ further, further ≠ cell → ∀ id ∈ plan.chain further, id ∉ ids := by
    intro further apart id inFurther member
    rcases fresh id member with old | free
    · exact apart (held.chain_inj inFurther old)
    · exact held.live (.inr ⟨further, inFurther⟩) free
  refine ⟨?_, held.level, ?_, held.parent, ?_, ?_, ?_, ?_, ?_⟩
  · rw [roots]
    exact held.root
  · intro place present
    change after.page (plan.table place) = _
    by_cases same : place = cell.directory
    · rw [same]
      exact written
    · rw [page_store_of_ne (held.level place present) same, outside, held.page place present]
      · exact .inl ⟨place, rfl, present⟩
      · intro equal
        exact same (held.table_inj present equal)
      · exact held.table_not_mem_chain present cell
  · intro further val found
    by_cases same : further = cell
    · rw [same]
      exact directory
    · change Function.update plan.value cell value further = some val at found
      rw [Function.update_of_ne same] at found
      exact held.directory further val found
  · intro further val found
    change Function.update plan.value cell value further = some val at found
    by_cases same : further = cell
    · rw [same, Function.update_self] at found
      exact short val found
    · rw [Function.update_of_ne same] at found
      exact held.short further val found
  · intro further
    change IvArray.Carries after (Function.update plan.value cell value further)
      (Function.update plan.chain cell ids further)
    by_cases same : further = cell
    · rw [same, Function.update_self, Function.update_self]
      exact carries
    · rw [Function.update_of_ne same, Function.update_of_ne same]
      apply (held.carries further).of_same
      intro id member
      apply outside id (.inr ⟨further, member⟩)
      · rintro rfl
        exact held.table_not_mem_chain directory further member
      · intro inCell
        exact same (held.chain_inj member inCell)
  · intro place present
    exact (owner_store_of_not_mem (table_apart place present)).trans
      (held.owner_table place present)
  · intro further id member
    change id ∈ Function.update plan.chain cell ids further at member
    by_cases same : further = cell
    · rw [same, Function.update_self] at member
      rw [owner_store_of_mem member, same]
    · rw [Function.update_of_ne same] at member
      rw [owner_store_of_not_mem (chain_apart further same id member)]
      exact held.owner_chain further id member

end Plan

end GStore.Kvstore
