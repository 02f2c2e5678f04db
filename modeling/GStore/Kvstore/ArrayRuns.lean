import GStore.Kvstore.ArrayPlan

/-! # Runs of the array programs

A program of an array changes the pages of the plan and takes from the supply, and it leaves
everything else as it was. -/

namespace GStore.Kvstore

open PageM Overflow

namespace Plan

variable {arrays : RootSlot → Prop} {heap middle after : Heap} {plan grown further : Plan}
  {place : Place} {cell : Cell} {id : PageId} {key : UInt32}

/-! ## Confinement -/

/-- The heap holds another plan, and only what is in the plans and the supply has changed. -/
structure Confined (arrays : RootSlot → Prop) (heap : Heap) (plan : Plan) (after : Heap)
    (grown : Plan) : Prop where
  valid : after.Valid
  held : grown.Held arrays after
  outside : ∀ id, ¬ plan.Owns id → id ∉ heap.supply → after.page id = heap.page id
  roots : ∀ slot, ¬ arrays slot → after.roots slot = heap.roots slot
  pages : ∀ id, grown.Owns id ∨ id ∈ after.supply → plan.Owns id ∨ id ∈ heap.supply

/-- There may be more pages in the page table, and nothing else is new. -/
structure Extends (arrays : RootSlot → Prop) (heap : Heap) (plan : Plan) (after : Heap)
    (grown : Plan) : Prop extends Confined arrays heap plan after grown where
  value : grown.value = plan.value
  chain : grown.chain = plan.chain
  kept : ∀ place, plan.table place ≠ 0 → grown.table place ≠ 0

theorem Confined.trans (first : Confined arrays heap plan middle grown)
    (second : Confined arrays middle grown after further) :
    Confined arrays heap plan after further where
  valid := second.valid
  held := second.held
  outside := by
    intro id unowned notFree
    have before : ¬ (grown.Owns id ∨ id ∈ middle.supply) := by
      intro inside
      exact (first.pages id inside).elim unowned notFree
    rw [not_or] at before
    exact (second.outside id before.1 before.2).trans (first.outside id unowned notFree)
  roots := fun slot other => (second.roots slot other).trans (first.roots slot other)
  pages := fun id inside => first.pages id (second.pages id inside)

theorem Extends.trans (first : Extends arrays heap plan middle grown)
    (second : Extends arrays middle grown after further) :
    Extends arrays heap plan after further where
  toConfined := first.toConfined.trans second.toConfined
  value := second.value.trans first.value
  chain := second.chain.trans first.chain
  kept := fun place present => second.kept place (first.kept place present)

theorem Held.extends_self (held : plan.Held arrays heap) (valid : heap.Valid) :
    Extends arrays heap plan heap plan where
  valid := valid
  held := held
  outside := fun _ _ _ => rfl
  roots := fun _ _ => rfl
  pages := fun _ inside => inside
  value := rfl
  chain := rfl
  kept := fun _ present => present

/-! ## The page table -/

/-- The program answers the page at a place, a new one if there was none, and takes at most
`cost` pages from the supply. -/
def Ensured (program : PageM PageId) (arrays : RootSlot → Prop) (heap : Heap) (plan : Plan)
    (place : Place) (cost : Nat) : Prop :=
  ∃ after grown, Extends arrays heap plan after grown ∧
    (program.Returns heap (grown.table place) after ∧ grown.table place ≠ 0 ∧
        heap.supply.length ≤ after.supply.length + cost ∨
      program.Stops heap .pageCountOverflow after ∧ heap.supply.length < cost)

/-- How many pages are missing at a place. -/
def lack (plan : Plan) (place : Place) : Nat := if plan.table place = 0 then 1 else 0

theorem Extends.lack_le (extended : Extends arrays heap plan after grown) (place : Place) :
    grown.lack place ≤ plan.lack place := by
  rw [lack, lack]
  by_cases vacant : plan.table place = 0
  · rw [if_pos vacant]
    split <;> omega
  · rw [if_neg vacant, if_neg (extended.kept place vacant)]

theorem Ensured.mono {program : PageM PageId} {cost more : Nat}
    (ensured : Ensured program arrays heap plan place cost) (le : cost ≤ more) :
    Ensured program arrays heap plan place more := by
  rcases ensured with ⟨after, grown, extended, ⟨returns, present, supply⟩ | ⟨stops, few⟩⟩
  · exact ⟨after, grown, extended, .inl ⟨returns, present, by omega⟩⟩
  · exact ⟨after, grown, extended, .inr ⟨stops, by omega⟩⟩

theorem Ensured.bind {program : PageM PageId} {continue_ : PageId → PageM PageId}
    {target : Place} {cost more : Nat} (first : Ensured program arrays heap plan place cost)
    (second : ∀ middle grown, Extends arrays heap plan middle grown → grown.table place ≠ 0 →
      Ensured (continue_ (grown.table place)) arrays middle grown target more) :
    Ensured (program >>= continue_) arrays heap plan target (cost + more) := by
  rcases first with ⟨middle, grown, extended, ⟨returns, present, supply⟩ | ⟨stops, few⟩⟩
  · rcases second middle grown extended present with
      ⟨after, further, again, ⟨returnsMore, presentMore, supplyMore⟩ | ⟨stops, few⟩⟩
    · exact ⟨after, further, extended.trans again,
        .inl ⟨returns.bind returnsMore, presentMore, by omega⟩⟩
    · exact ⟨after, further, extended.trans again, .inr ⟨returns.bind_stops stops, by omega⟩⟩
  · exact ⟨middle, grown, extended, .inr ⟨stops.bind _, by omega⟩⟩

/-- The plan with a page from the supply at a place that had none. -/
theorem Held.extends_attach (held : plan.Held arrays heap) (valid : heap.Valid)
    (vacant : plan.table place = 0) (level : place.level ≤ 2)
    (parent : place.level ≠ 0 → plan.table place.parent ≠ 0) {rest : List PageId}
    (supply : heap.supply = id :: rest) (validAfter : after.Valid)
    (zeroed : after.page id = some Page.zero)
    (named : place.level ≠ 0 →
      after.page (plan.table place.parent) = some ((plan.attach place id).page place.parent))
    (outside : ∀ further, further ≠ id → (place.level ≠ 0 → further ≠ plan.table place.parent) →
      after.page further = heap.page further)
    (roots : ∀ array, arrays array →
      after.roots array = ((plan.attach place id).table ⟨array, 0, 0⟩).toUInt64)
    (others : ∀ slot, ¬ arrays slot → after.roots slot = heap.roots slot)
    (supplyAfter : after.supply = rest) :
    Extends arrays heap plan after (plan.attach place id) := by
  have member : id ∈ heap.supply := by
    rw [supply]
    exact List.mem_cons_self
  have fresh := valid.supply_free id member
  have notZero := valid.supply_ne_zero id member
  refine ⟨⟨validAfter, held.attach vacant level parent fresh notZero zeroed named outside roots,
    ?_, others, ?_⟩, rfl, rfl, ?_⟩
  · intro further unowned notFree
    apply outside
    · rintro rfl
      exact notFree member
    · rintro above rfl
      exact unowned (.inl ⟨place.parent, rfl, parent above⟩)
  · intro further inside
    rcases inside with (⟨other, same, present⟩ | ⟨cell, inChain⟩) | free
    · by_cases equal : other = place
      · rw [equal] at same
        have new : id = further := (Function.update_self _ _ _).symm.trans same
        rw [← new]
        exact .inr member
      · exact .inl (.inl ⟨other, (Function.update_of_ne equal _ _).symm.trans same, present⟩)
    · exact .inl (.inr ⟨cell, inChain⟩)
    · rw [supplyAfter] at free
      rw [supply]
      exact .inr (List.mem_cons_of_mem id free)
  · intro other present
    by_cases equal : other = place
    · rw [equal]
      rw [show (plan.attach place id).table place = id from Function.update_self _ _ _]
      exact notZero
    · rw [show (plan.attach place id).table other = plan.table other from
        Function.update_of_ne equal _ _]
      exact present

variable {array : RootSlot} {index : Nat}

theorem Held.returns_root (held : plan.Held arrays heap) (member : arrays array) :
    (IvArray.mk array).root.Returns heap (plan.table ⟨array, 0, 0⟩) heap := by
  apply (Kvstore.returns_root array).bind
  rw [held.root array member, UInt32.toUInt32_toUInt64]
  exact returns_pure _ _

theorem Held.returns_ensureRoot (held : plan.Held arrays heap) (member : arrays array)
    (present : plan.table ⟨array, 0, 0⟩ ≠ 0) :
    (IvArray.mk array).ensureRoot.Returns heap (plan.table ⟨array, 0, 0⟩) heap := by
  apply (held.returns_root member).bind
  rw [if_neg present]
  exact returns_pure _ _

theorem Held.returns_ensureEntry (held : plan.Held arrays heap)
    (present : plan.table place ≠ 0) (upper : place.level < 2) (below : index < fanout)
    (named : plan.table (place.child index) ≠ 0) :
    (IvArray.ensureEntry (plan.table place) index).Returns heap
      (plan.table (place.child index)) heap := by
  apply (returns_readPage (held.page place present)).bind
  dsimp only
  rw [plan.readU32_page upper below, if_neg named]
  exact returns_pure _ _

theorem Held.ensureRoot_runs (held : plan.Held arrays heap) (valid : heap.Valid)
    (member : arrays array) :
    Ensured (IvArray.mk array).ensureRoot arrays heap plan ⟨array, 0, 0⟩
      (plan.lack ⟨array, 0, 0⟩) := by
  have root := held.returns_root member
  by_cases vacant : plan.table ⟨array, 0, 0⟩ = 0
  · rw [lack, if_pos vacant]
    cases supply : heap.supply with
    | nil =>
      refine ⟨heap, plan, held.extends_self valid, .inr ⟨?_, by rw [supply]; decide⟩⟩
      apply root.bind_stops
      rw [if_pos vacant]
      exact (stops_alloc supply).bind _
    | cons id rest =>
      let allocated : Heap := { heap.set id Page.zero with supply := rest }
      let after : Heap :=
        { allocated with roots := Function.update heap.roots array id.toUInt64 }
      have returns : (IvArray.mk array).ensureRoot.Returns heap id after := by
        apply root.bind
        rw [if_pos vacant]
        apply (returns_alloc supply).bind
        apply (returns_setRoot array id.toUInt64).bind
        exact returns_pure _ _
      have extended : Extends arrays heap plan after (plan.attach ⟨array, 0, 0⟩ id) := by
        apply held.extends_attach valid vacant (Nat.zero_le 2) (fun above => absurd rfl above)
          supply (returns.valid valid) (Function.update_self _ _ _)
          (fun above => absurd rfl above)
        · intro further apart _
          exact Function.update_of_ne apart _ _
        · intro other otherMember
          change Function.update heap.roots array id.toUInt64 other =
            (Function.update plan.table ⟨array, 0, 0⟩ id ⟨other, 0, 0⟩).toUInt64
          by_cases same : other = array
          · rw [same, Function.update_self, Function.update_self]
          · have different : (⟨other, 0, 0⟩ : Place) ≠ ⟨array, 0, 0⟩ := by
              intro equal
              exact same (congrArg Place.array equal)
            rw [Function.update_of_ne same, Function.update_of_ne different]
            exact held.root other otherMember
        · intro slot outside
          apply Function.update_of_ne
          rintro rfl
          exact outside member
        · rfl
      have new : (plan.attach ⟨array, 0, 0⟩ id).table ⟨array, 0, 0⟩ = id :=
        Function.update_self _ _ _
      refine ⟨after, _, extended, .inl ⟨by rwa [new], ?_, ?_⟩⟩
      · rw [new]
        apply valid.supply_ne_zero
        rw [supply]
        exact List.mem_cons_self
      · rw [supply]
        exact le_refl _
  · exact ⟨heap, plan, held.extends_self valid,
      .inl ⟨held.returns_ensureRoot member vacant, vacant, Nat.le_add_right _ _⟩⟩

theorem Held.ensureEntry_runs (held : plan.Held arrays heap) (valid : heap.Valid)
    (present : plan.table place ≠ 0) (upper : place.level < 2) (below : index < fanout) :
    Ensured (IvArray.ensureEntry (plan.table place) index) arrays heap plan (place.child index)
      (plan.lack (place.child index)) := by
  have reading := returns_readPage (held.page place present)
  have found := plan.readU32_page upper below
  by_cases vacant : plan.table (place.child index) = 0
  · rw [lack, if_pos vacant]
    cases supply : heap.supply with
    | nil =>
      refine ⟨heap, plan, held.extends_self valid, .inr ⟨?_, by rw [supply]; decide⟩⟩
      apply reading.bind_stops
      dsimp only
      rw [found, if_pos vacant]
      exact (stops_alloc supply).bind _
    | cons id rest =>
      have member : id ∈ heap.supply := by
        rw [supply]
        exact List.mem_cons_self
      have apart : plan.table place ≠ id := by
        intro same
        have live := held.live (.inl ⟨place, rfl, present⟩)
        rw [same] at live
        exact live (valid.supply_free id member)
      have up := child_parent place below
      have new : (plan.attach (place.child index) id).table (place.child index) = id :=
        Function.update_self _ _ _
      have rewritten : (plan.page place).overwrite (index * 4) (le32 id) =
          (plan.attach (place.child index) id).page place := by
        have width : place.width = 4 := if_pos upper
        have named := @overwrite_page plan (plan.attach (place.child index) id) place index
          (le32 id)
        rw [width] at named
        apply named below (length_le32 id)
        · rw [entry, if_pos upper, new]
        · intro further different _
          have otherChild : place.child further ≠ place.child index := by
            intro same
            have indices := congrArg Place.index same
            change place.index * fanout + further = place.index * fanout + index at indices
            omega
          rw [entry, entry, if_pos upper, if_pos upper]
          exact congrArg le32 (Function.update_of_ne otherChild _ _)
      let allocated : Heap := { heap.set id Page.zero with supply := rest }
      let after : Heap :=
        allocated.set (plan.table place) ((plan.attach (place.child index) id).page place)
      have live : allocated.page (plan.table place) = some (plan.page place) :=
        (Function.update_of_ne apart _ _).trans (held.page place present)
      have returns :
          (IvArray.ensureEntry (plan.table place) index).Returns heap id after := by
        apply reading.bind
        dsimp only
        rw [found, if_pos vacant]
        apply (returns_alloc supply).bind
        rw [rewritten]
        apply (returns_writePage live _).bind
        exact returns_pure _ _
      have zeroed : after.page id = some Page.zero :=
        (Function.update_of_ne apart.symm _ _).trans (Function.update_self _ _ _)
      have extended : Extends arrays heap plan after (plan.attach (place.child index) id) := by
        apply held.extends_attach valid vacant (Nat.succ_le_of_lt upper)
          (fun _ => by rwa [up]) supply (returns.valid valid) zeroed
        · intro _
          rw [up]
          exact Function.update_self _ _ _
        · intro further different differs
          rw [up] at differs
          exact (Function.update_of_ne (differs (Nat.succ_ne_zero _)) _ _).trans
            (Function.update_of_ne different _ _)
        · intro array member
          have different : (⟨array, 0, 0⟩ : Place) ≠ place.child index := by
            intro same
            have levels := congrArg Place.level same
            change 0 = place.level + 1 at levels
            omega
          change heap.roots array =
            (Function.update plan.table (place.child index) id ⟨array, 0, 0⟩).toUInt64
          rw [Function.update_of_ne different]
          exact held.root array member
        · exact fun _ _ => rfl
        · rfl
      refine ⟨after, _, extended, .inl ⟨by rwa [new], ?_, ?_⟩⟩
      · rw [new]
        exact valid.supply_ne_zero id member
      · rw [supply]
        exact le_refl _
  · exact ⟨heap, plan, held.extends_self valid, .inl
      ⟨held.returns_ensureEntry present upper below vacant, vacant, Nat.le_add_right _ _⟩⟩

/-! ## The way to a key -/

theorem directory_eq (cell : Cell) :
    cell.middle.child (cell.2 / slotsPerDir % fanout) = cell.directory := by
  have index : (0 * fanout + cell.2 / slotsPerDir / fanout) * fanout +
      cell.2 / slotsPerDir % fanout = cell.2 / slotsPerDir := by
    rw [Nat.zero_mul, Nat.zero_add]
    exact Nat.div_add_mod' _ _
  rw [Cell.middle, Cell.top, Place.child, Place.child, Cell.directory]
  dsimp only
  rw [index]

/-- The key has a slot. -/
def Addressable (key : Nat) : Prop := key / slotsPerDir / fanout < fanout

theorem returns_locate (addressable : Addressable key.toNat) (heap : Heap) :
    (IvArray.locate key).Returns heap
      (key.toNat / slotsPerDir / fanout, key.toNat / slotsPerDir % fanout,
        key.toNat % slotsPerDir) heap := by
  rw [IvArray.locate, if_neg (not_le.mpr addressable)]
  exact returns_pure _ _

theorem stops_locate (beyond : ¬ Addressable key.toNat) (heap : Heap) :
    (IvArray.locate key).Stops heap (.keyBeyondCapacity key) heap := by
  rw [IvArray.locate, if_pos (not_lt.mp beyond)]
  rfl

/-- A directory has the pages above it. -/
theorem Held.above (held : plan.Held arrays heap) (addressable : Addressable cell.2)
    (present : plan.table cell.directory ≠ 0) :
    plan.table cell.top ≠ 0 ∧ plan.table cell.middle ≠ 0 := by
  have middle := held.parent _ present (Nat.succ_ne_zero 1)
  rw [← directory_eq, child_parent _ (Nat.mod_lt _ (by decide))] at middle
  have top := held.parent _ middle (Nat.succ_ne_zero _)
  rw [Cell.middle, child_parent _ addressable] at top
  exact ⟨top, middle⟩

theorem Held.returns_dirPage (held : plan.Held arrays heap) (member : arrays cell.1)
    (addressable : Addressable cell.2) :
    ((IvArray.mk cell.1).dirPage (cell.2 / slotsPerDir / fanout)
        (cell.2 / slotsPerDir % fanout)).Returns heap
      (if plan.table cell.directory = 0 then none else some (plan.table cell.directory)) heap := by
  apply (held.returns_root member).bind
  change PageM.Returns (if plan.table cell.top = 0 then _ else _) heap _ heap
  by_cases noTop : plan.table cell.top = 0
  · have vacant : plan.table cell.directory = 0 := by
      by_contra present
      exact (held.above addressable present).1 noTop
    rw [if_pos noTop, if_pos vacant]
    exact returns_pure _ _
  · rw [if_neg noTop]
    apply (returns_readPage (held.page _ noTop)).bind
    rw [plan.readU32_page (show cell.top.level < 2 from Nat.zero_lt_two) addressable]
    change PageM.Returns (if plan.table cell.middle = 0 then _ else _) heap _ heap
    by_cases noMiddle : plan.table cell.middle = 0
    · have vacant : plan.table cell.directory = 0 := by
        by_contra present
        exact (held.above addressable present).2 noMiddle
      rw [if_pos noMiddle, if_pos vacant]
      exact returns_pure _ _
    · have below : cell.2 / slotsPerDir % fanout < fanout := Nat.mod_lt _ (by decide)
      rw [if_neg noMiddle]
      apply (returns_readPage (held.page _ noMiddle)).bind
      rw [plan.readU32_page (show cell.middle.level < 2 from Nat.one_lt_two) below, directory_eq]
      dsimp only
      split
      · exact returns_pure _ _
      · exact returns_pure _ _

/-- How many pages are missing on the way to a key, at most. -/
def pathLack (plan : Plan) (cell : Cell) : Nat := if plan.table cell.directory = 0 then 3 else 0

theorem Held.ensureDir_runs (held : plan.Held arrays heap) (valid : heap.Valid)
    (member : arrays cell.1) (addressable : Addressable cell.2) :
    Ensured ((IvArray.mk cell.1).ensureDir (cell.2 / slotsPerDir / fanout)
      (cell.2 / slotsPerDir % fanout)) arrays heap plan cell.directory (plan.pathLack cell) := by
  have steps : Ensured ((IvArray.mk cell.1).ensureDir (cell.2 / slotsPerDir / fanout)
      (cell.2 / slotsPerDir % fanout)) arrays heap plan cell.directory
      (plan.lack cell.top + (plan.lack cell.middle + plan.lack cell.directory)) := by
    apply (held.ensureRoot_runs valid member).bind
    intro heapTop planTop toTop present
    have middle := toTop.held.ensureEntry_runs toTop.valid present
      (show cell.top.level < 2 from Nat.zero_lt_two) addressable
    apply (middle.mono (toTop.lack_le _)).bind
    intro heapMiddle planMiddle toMiddle presentMiddle
    have last := toMiddle.held.ensureEntry_runs toMiddle.valid presentMiddle
      (show cell.middle.level < 2 from Nat.one_lt_two) (Nat.mod_lt (cell.2 / slotsPerDir)
        (by decide : 0 < fanout))
    have whole := toTop.trans toMiddle
    change Ensured _ arrays heapMiddle planMiddle
      (cell.middle.child (cell.2 / slotsPerDir % fanout))
      (planMiddle.lack (cell.middle.child (cell.2 / slotsPerDir % fanout))) at last
    rw [directory_eq] at last
    exact last.mono (whole.lack_le _)
  apply steps.mono
  rw [pathLack]
  by_cases vacant : plan.table cell.directory = 0
  · have most : ∀ place, plan.lack place ≤ 1 := by
      intro place
      rw [lack]
      split <;> omega
    have top := most cell.top
    have middle := most cell.middle
    have last := most cell.directory
    rw [if_pos vacant]
    omega
  · have above := held.above addressable vacant
    rw [if_neg vacant, lack, lack, lack, if_neg vacant, if_neg above.1, if_neg above.2]

/-- The way to a key that has a directory changes nothing. -/
theorem Held.returns_ensureDir (held : plan.Held arrays heap) (member : arrays cell.1)
    (addressable : Addressable cell.2) (present : plan.table cell.directory ≠ 0) :
    ((IvArray.mk cell.1).ensureDir (cell.2 / slotsPerDir / fanout)
      (cell.2 / slotsPerDir % fanout)).Returns heap (plan.table cell.directory) heap := by
  have above := held.above addressable present
  have middle := held.returns_ensureEntry above.1
    (show cell.top.level < 2 from Nat.zero_lt_two) addressable above.2
  have last := held.returns_ensureEntry above.2
    (show cell.middle.level < 2 from Nat.one_lt_two)
    (Nat.mod_lt (cell.2 / slotsPerDir) (by decide : 0 < fanout))
  rw [directory_eq] at last
  apply (held.returns_ensureRoot member above.1).bind
  exact middle.bind (last present)

/-! ## Reading -/

theorem slot_within (key : Nat) : key % slotsPerDir * slotSize + slotSize ≤ pageSize := by
  have below : key % slotsPerDir < slotsPerDir := Nat.mod_lt _ (by decide)
  have count : slotsPerDir = 32 := rfl
  have size : slotSize = 128 := rfl
  have page : pageSize = 4096 := rfl
  rw [size, page]
  omega

theorem Held.value_eq_none (held : plan.Held arrays heap)
    (vacant : plan.table cell.directory = 0) : plan.value cell = none := by
  cases value : plan.value cell with
  | none => rfl
  | some val => exact absurd vacant (held.directory cell val value)

theorem Held.returns_get (held : plan.Held arrays heap) (valid : heap.Valid) (member : arrays array)
    (addressable : Addressable key.toNat) :
    ((IvArray.mk array).get key).Returns heap (plan.value (array, key.toNat)) heap := by
  have dir := @Held.returns_dirPage _ _ _ (array, key.toNat) held member addressable
  apply (returns_locate addressable heap).bind
  apply dir.bind
  by_cases vacant : plan.table (Cell.directory (array, key.toNat)) = 0
  · rw [if_pos vacant, held.value_eq_none vacant]
    exact returns_pure _ _
  · rw [if_neg vacant]
    apply (returns_readPage (held.page _ vacant)).bind
    exact IvArray.returns_readSlot valid (plan.slotAt_page (array, key.toNat))
      (slot_within key.toNat) (held.carries _) (held.short _) key

/-! ## Writing -/

variable {value : Option Bytes} {ids : List PageId} {val : Bytes}

/-- Another value for a key, with a chain out of the old one and the supply. -/
theorem Held.confined_store (held : plan.Held arrays heap) (valid : heap.Valid)
    (directory : plan.table cell.directory ≠ 0)
    (short : ∀ val, value = some val → val.length < UInt32.size)
    (carries : IvArray.Carries after value ids)
    (fresh : ∀ id ∈ ids, id ∈ plan.chain cell ∨ id ∈ heap.supply)
    (written : after.page (plan.table cell.directory) =
      some ((plan.store cell value ids).page cell.directory))
    (outside : ∀ id, id ≠ plan.table cell.directory → id ∉ plan.chain cell → id ∉ ids →
      after.page id = heap.page id)
    (roots : after.roots = heap.roots) (validAfter : after.Valid)
    (supply : ∀ id ∈ after.supply, id ∈ plan.chain cell ∨ id ∈ heap.supply) :
    Confined arrays heap plan after (plan.store cell value ids) where
  valid := validAfter
  held := by
    apply held.store directory short carries _ written _ roots
    · intro id member
      exact (fresh id member).imp_right (valid.supply_free id)
    · intro id owns notDirectory notOld
      apply outside id notDirectory notOld
      intro member
      exact (fresh id member).elim notOld fun free =>
        held.live owns (valid.supply_free id free)
  outside := by
    intro id unowned notFree
    apply outside
    · rintro rfl
      exact unowned (.inl ⟨cell.directory, rfl, directory⟩)
    · intro inChain
      exact unowned (.inr ⟨cell, inChain⟩)
    · intro inIds
      exact (fresh id inIds).elim (fun inChain => unowned (.inr ⟨cell, inChain⟩)) notFree
  roots := fun slot _ => congrFun roots slot
  pages := by
    intro id inside
    rcases inside with (owned | ⟨other, inChain⟩) | free
    · exact .inl (.inl owned)
    · change id ∈ Function.update plan.chain cell ids other at inChain
      by_cases same : other = cell
      · rw [same, Function.update_self] at inChain
        exact (fresh id inChain).imp_left fun old => .inr ⟨cell, old⟩
      · rw [Function.update_of_ne same] at inChain
        exact .inl (.inr ⟨other, inChain⟩)
    · exact (supply id free).imp_left fun old => .inr ⟨cell, old⟩

/-- The heap once the chain of a key is freed. -/
theorem Held.page_release (held : plan.Held arrays heap)
    (directory : plan.table cell.directory ≠ 0) :
    (heap.release (plan.chain cell)).page (plan.table cell.directory) =
      some (plan.page cell.directory) := by
  rw [Heap.release]
  dsimp only
  rw [if_neg (held.table_not_mem_chain directory cell)]
  exact held.page _ directory

theorem Held.returns_reclaim (held : plan.Held arrays heap) (valid : heap.Valid) (cell : Cell) :
    (IvArray.reclaim (plan.page cell.directory) (cell.2 % slotsPerDir * slotSize)).Returns heap ()
      (heap.release (plan.chain cell)) :=
  IvArray.returns_reclaim valid (plan.slotAt_page cell) (held.carries cell) (held.short cell)

/-- The pages that a value gets. -/
def pagesOf (heap : Heap) (plan : Plan) (cell : Cell) (length : Nat) : List PageId :=
  ((plan.chain cell).reverse ++ heap.supply).take (IvArray.spillPages length)

theorem Held.returns_writeSlot (held : plan.Held arrays heap) (valid : heap.Valid)
    (directory : plan.table cell.directory ≠ 0) (short : val.length < UInt32.size)
    (enough : IvArray.spillPages val.length ≤ (plan.chain cell).length + heap.supply.length) :
    ∃ after, (IvArray.writeSlot (plan.table cell.directory)
        (cell.2 % slotsPerDir * slotSize) val).Returns heap () after ∧
      Confined arrays heap plan after
        (plan.store cell (some val) (pagesOf heap plan cell val.length)) := by
  let ids := pagesOf heap plan cell val.length
  have reclaiming := held.returns_reclaim valid cell
  have released := held.page_release directory
  have subset : ∀ id ∈ (plan.chain cell).reverse ++ heap.supply,
      id ∈ plan.chain cell ∨ id ∈ heap.supply := by
    intro id member
    rw [List.mem_append, List.mem_reverse] at member
    exact member
  have fresh : ∀ id ∈ ids, id ∈ plan.chain cell ∨ id ∈ heap.supply :=
    fun id member => subset id (List.mem_of_mem_take member)
  have apart : plan.table cell.directory ∉ ids := by
    intro member
    rcases fresh _ member with old | free
    · exact held.table_not_mem_chain directory cell old
    · exact held.live (.inl ⟨_, rfl, directory⟩) (valid.supply_free _ free)
  obtain ⟨spilled, spilling, supply, within, carries⟩ :=
    @IvArray.returns_spill (heap.release (plan.chain cell)) val (reclaiming.valid valid) (by
      rw [Heap.release, List.length_append, List.length_reverse]
      exact enough)
  have live : spilled.page (plan.table cell.directory) = some (plan.page cell.directory) :=
    (within.outside _ apart).trans released
  let page := (plan.store cell (some val) ids).page cell.directory
  have returns : (IvArray.writeSlot (plan.table cell.directory)
      (cell.2 % slotsPerDir * slotSize) val).Returns heap ()
      (spilled.set (plan.table cell.directory) page) := by
    apply (returns_readPage (held.page _ directory)).bind
    apply reclaiming.bind
    apply spilling.bind
    apply (returns_readPage live).bind
    have rewritten := plan.overwrite_store cell (some val) ids
    rw [IvArray.slotOf, Option.elim_some] at rewritten
    exact rewritten ▸ returns_writePage live _
  refine ⟨_, returns, held.confined_store valid directory ?_ ?_ fresh (Function.update_self _ _ _)
    ?_ within.roots (returns.valid valid) ?_⟩
  · rintro other ⟨⟩
    exact short
  · apply carries.of_same
    intro id member
    apply Function.update_of_ne
    rintro rfl
    exact apart member
  · intro id notDirectory notOld notNew
    exact (Function.update_of_ne notDirectory _ _).trans
      ((within.outside id notNew).trans (if_neg notOld))
  · intro id free
    change id ∈ spilled.supply at free
    rw [supply] at free
    exact subset id (List.mem_of_mem_drop free)

/-- Pages that are given out and lost. -/
theorem Held.confined_reserve (held : plan.Held arrays heap) (valid : heap.Valid)
    (validAfter : (heap.reserve heap.supply.length).Valid) :
    Confined arrays heap plan (heap.reserve heap.supply.length) plan := by
  have same : ∀ id, id ∉ heap.supply →
      (heap.reserve heap.supply.length).page id = heap.page id := by
    intro id notFree
    rw [Heap.reserve, List.take_length]
    exact if_neg notFree
  refine ⟨validAfter, held.of_same ?_ fun _ _ => rfl, fun id _ notFree => same id notFree,
    fun _ _ => rfl, ?_⟩
  · intro id owns
    exact same id fun free => held.live owns (valid.supply_free id free)
  · intro id inside
    rcases inside with owns | free
    · exact .inl owns
    · exact .inr (List.mem_of_mem_drop free)

/-- Without an old chain a value that finds no pages leaves the old one. -/
theorem Held.stops_writeSlot (held : plan.Held arrays heap) (valid : heap.Valid)
    (directory : plan.table cell.directory ≠ 0) (unchained : plan.chain cell = [])
    (few : heap.supply.length < IvArray.spillPages val.length) :
    (IvArray.writeSlot (plan.table cell.directory)
        (cell.2 % slotsPerDir * slotSize) val).Stops heap .pageCountOverflow
        (heap.reserve heap.supply.length) ∧
      Confined arrays heap plan (heap.reserve heap.supply.length) plan := by
  have reclaiming := held.returns_reclaim valid cell
  have unchanged : heap.release [] = heap := by simp [Heap.release]
  rw [unchained, unchanged] at reclaiming
  have stops : (IvArray.writeSlot (plan.table cell.directory)
      (cell.2 % slotsPerDir * slotSize) val).Stops heap .pageCountOverflow
      (heap.reserve heap.supply.length) := by
    apply (returns_readPage (held.page _ directory)).bind_stops
    apply reclaiming.bind_stops
    exact (IvArray.stops_spill few).bind _
  exact ⟨stops, held.confined_reserve valid (stops.valid valid)⟩

theorem Held.clearSlot_runs (held : plan.Held arrays heap) (valid : heap.Valid)
    (directory : plan.table cell.directory ≠ 0) :
    ∃ after grown, (IvArray.clearSlot (plan.table cell.directory)
        (cell.2 % slotsPerDir * slotSize)).Returns heap (plan.value cell).isSome after ∧
      Confined arrays heap plan after grown ∧
      grown.value = Function.update plan.value cell none := by
  have reading := returns_readPage (held.page _ directory)
  have slotAt := plan.slotAt_page cell
  cases value : plan.value cell with
  | none =>
    rw [slot, value] at slotAt
    refine ⟨heap, plan, ?_, (held.extends_self valid).toConfined, ?_⟩
    · apply reading.bind
      rw [if_pos slotAt.empty]
      exact returns_pure _ _
    · rw [← value, Function.update_eq_self]
  | some val =>
    have tag : (plan.page cell.directory).bytes.getD (cell.2 % slotsPerDir * slotSize) 0 ≠ 0 := by
      rw [slot, value] at slotAt
      by_cases long : inlineCap < val.length
      · rw [(slotAt.chained long (held.short cell val value)).1]
        decide
      · rw [(slotAt.inline (not_lt.mp long)).1]
        decide
    have reclaiming := held.returns_reclaim valid cell
    have released := held.page_release directory
    let page := (plan.store cell none []).page cell.directory
    let after := (heap.release (plan.chain cell)).set (plan.table cell.directory) page
    have returns : (IvArray.clearSlot (plan.table cell.directory)
        (cell.2 % slotsPerDir * slotSize)).Returns heap true after := by
      apply reading.bind
      rw [if_neg tag]
      apply reclaiming.bind
      apply (returns_readPage released).bind
      have rewritten := plan.overwrite_store cell none []
      rw [IvArray.slotOf, Option.elim_none] at rewritten
      rw [rewritten]
      exact (returns_writePage released page).bind (returns_pure _ _)
    refine ⟨after, plan.store cell none [], returns, held.confined_store valid directory ?_
      (IvArray.carries_none _) ?_ (Function.update_self _ _ _) ?_ rfl (returns.valid valid) ?_,
      rfl⟩
    · rintro other ⟨⟩
    · rintro id ⟨⟩
    · intro id notDirectory notOld _
      exact (Function.update_of_ne notDirectory _ _).trans (if_neg notOld)
    · intro id free
      change id ∈ (plan.chain cell).reverse ++ heap.supply at free
      rwa [List.mem_append, List.mem_reverse] at free

/-! ## The operations -/

/-- A key without a directory has no chain. -/
theorem Held.chain_eq_nil (held : plan.Held arrays heap)
    (vacant : plan.table cell.directory = 0) : plan.chain cell = [] := by
  apply (held.carries cell).unchained
  rintro ⟨val, found, -⟩
  rw [held.value_eq_none vacant] at found
  cases found

/-- An insertion puts its value there or, for want of pages, changes none. It does not want
for pages if the old chain, the supply and the directory have enough. -/
theorem Held.insert_runs (held : plan.Held arrays heap) (valid : heap.Valid) (member : arrays array)
    (addressable : Addressable key.toNat) (short : val.length < UInt32.size)
    (room : plan.chain (array, key.toNat) ≠ [] → IvArray.spillPages val.length ≤
      (plan.chain (array, key.toNat)).length + heap.supply.length) :
    ∃ after grown, Confined arrays heap plan after grown ∧
      (((IvArray.mk array).insert key val).Returns heap () after ∧
          grown.value = Function.update plan.value (array, key.toNat) (some val) ∨
        ((IvArray.mk array).insert key val).Stops heap .pageCountOverflow after ∧
          grown.value = plan.value ∧
          (plan.chain (array, key.toNat)).length + heap.supply.length <
            IvArray.spillPages val.length + plan.pathLack (array, key.toNat)) := by
  let cell : Cell := (array, key.toNat)
  have fits : ¬ val.length > UInt32.size - 1 := by omega
  have locating := returns_locate addressable heap
  have lacking : plan.chain cell ≠ [] → plan.pathLack cell = 0 := by
    intro chained
    rw [pathLack, if_neg]
    intro vacant
    exact chained (held.chain_eq_nil vacant)
  rcases @Held.ensureDir_runs _ _ _ cell held valid member addressable with
    ⟨middle, between, extended, ⟨ensuring, present, supply⟩ | ⟨stops, few⟩⟩
  · have sameChain : between.chain cell = plan.chain cell := congrFun extended.chain cell
    by_cases enough : IvArray.spillPages val.length ≤
        (between.chain cell).length + middle.supply.length
    · obtain ⟨after, writing, confined⟩ :=
        extended.held.returns_writeSlot extended.valid present short enough
      refine ⟨after, _, extended.toConfined.trans confined, .inl ⟨?_, ?_⟩⟩
      · rw [IvArray.insert, if_neg fits]
        apply locating.bind
        exact ensuring.bind writing
      · rw [Plan.store, extended.value]
    · have unchained : plan.chain cell = [] := by
        by_contra chained
        rw [lacking chained] at supply
        rw [sameChain] at enough
        have roomy : IvArray.spillPages val.length ≤
            (plan.chain cell).length + heap.supply.length := room chained
        omega
      rw [sameChain, unchained] at enough
      obtain ⟨stops, confined⟩ := extended.held.stops_writeSlot extended.valid present
        (sameChain.trans unchained) (by simpa using enough)
      refine ⟨_, _, extended.toConfined.trans confined, .inr ⟨?_, extended.value, ?_⟩⟩
      · rw [IvArray.insert, if_neg fits]
        apply locating.bind_stops
        exact ensuring.bind_stops stops
      · change (plan.chain cell).length + heap.supply.length <
          IvArray.spillPages val.length + plan.pathLack cell
        rw [unchained]
        rw [List.length_nil] at enough ⊢
        omega
  · refine ⟨middle, between, extended.toConfined, .inr ⟨?_, extended.value, ?_⟩⟩
    · rw [IvArray.insert, if_neg fits]
      apply locating.bind_stops
      exact stops.bind _
    · have unchained : plan.chain cell = [] := by
        by_contra chained
        rw [lacking chained] at few
        cases few
      change (plan.chain cell).length + heap.supply.length <
        IvArray.spillPages val.length + plan.pathLack cell
      rw [unchained, List.length_nil]
      omega

theorem Held.delete_runs (held : plan.Held arrays heap) (valid : heap.Valid) (member : arrays array)
    (addressable : Addressable key.toNat) :
    ∃ after grown, ((IvArray.mk array).delete key).Returns heap
        (plan.value (array, key.toNat)).isSome after ∧
      Confined arrays heap plan after grown ∧
      grown.value = Function.update plan.value (array, key.toNat) none := by
  have dir := @Held.returns_dirPage _ _ _ (array, key.toNat) held member addressable
  by_cases vacant : plan.table (Cell.directory (array, key.toNat)) = 0
  · rw [if_pos vacant] at dir
    have value := held.value_eq_none vacant
    refine ⟨heap, plan, ?_, (held.extends_self valid).toConfined, ?_⟩
    · rw [value]
      apply (returns_locate addressable heap).bind
      exact dir.bind (returns_pure _ _)
    · rw [← value, Function.update_eq_self]
  · rw [if_neg vacant] at dir
    obtain ⟨after, grown, clearing, confined, value⟩ := held.clearSlot_runs valid vacant
    refine ⟨after, grown, ?_, confined, value⟩
    apply (returns_locate addressable heap).bind
    exact dir.bind clearing

/-! ## A value that is lost -/

theorem page_zero_eq (length : Nat) (fits : length ≤ chainPayload) :
    Page.zero = chainPage 0 (List.replicate length 0) := by
  have short : (List.replicate length (0 : UInt8)).length ≤ chainPayload := by
    rwa [List.length_replicate]
  have blank : le32 0 = List.replicate 4 0 := by decide
  have size : pageSize = 4 + chainPayload := rfl
  apply Page.ext
  rw [bytes_chainPage 0 short, blank, List.length_replicate, ← List.replicate_add,
    ← List.replicate_add, Page.zero, Page.bytes_ofBytes (Nat.zero_le _), List.length_nil,
    Nat.sub_zero, List.nil_append, size]
  congr 1
  omega

/-- Where the old chain and the supply are not enough for the new value, the old one is gone: its
page is given out again, zeroed, and lost to both. -/
theorem Held.insert_loses (held : plan.Held arrays heap) (valid : heap.Valid)
    (member : arrays array) (addressable : Addressable key.toNat) {old : Bytes}
    (found : plan.value (array, key.toNat) = some old) (long : inlineCap < old.length)
    (small : old.length ≤ chainPayload) (short : val.length < UInt32.size)
    (few : IvArray.spillPages old.length + heap.supply.length < IvArray.spillPages val.length) :
    ∃ after, ((IvArray.mk array).insert key val).Stops heap .pageCountOverflow after ∧
      ((IvArray.mk array).get key).Returns after (some (List.replicate old.length 0)) after := by
  let cell : Cell := (array, key.toNat)
  let zeros : Bytes := List.replicate old.length 0
  have zeroLength : zeros.length = old.length := List.length_replicate
  have present := held.directory cell old found
  have carries := held.carries cell
  rw [found] at carries
  have chained := carries.chained old rfl long
  have onePage : pagesFor old.length = 1 := by
    have payload : chainPayload = 4092 := rfl
    rw [pagesFor, payload]
    rw [payload] at small
    omega
  have single : ∃ head, plan.chain cell = [head] := by
    have count := chained.count
    rw [onePage] at count
    exact List.length_eq_one_iff.mp count
  rcases single with ⟨head, single⟩
  let freed := heap.release (plan.chain cell)
  let after := freed.reserve freed.supply.length
  have supply : freed.supply = head :: heap.supply := by
    change (plan.chain cell).reverse ++ heap.supply = _
    rw [single]
    rfl
  have stops : ((IvArray.mk array).insert key val).Stops heap .pageCountOverflow after := by
    rw [IvArray.insert, if_neg (by omega)]
    apply (returns_locate addressable heap).bind_stops
    apply (@Held.returns_ensureDir _ _ _ cell held member addressable present).bind_stops
    apply (returns_readPage (held.page _ present)).bind_stops
    apply (held.returns_reclaim valid cell).bind_stops
    apply (IvArray.stops_spill _).bind
    have count := carries.length
    rw [single] at count
    change freed.supply.length < _
    rw [supply, List.length_cons]
    rw [List.length_singleton] at count
    omega
  -- What is left is what a heap with zeros in place of the old value would be.
  have slots : IvArray.slotOf (some zeros) [head] = IvArray.slotOf (some old) [head] := by
    rw [IvArray.slotOf, IvArray.slotOf, Option.elim_some, Option.elim_some, zeroLength,
      if_pos long, IvArray.composeSlot, IvArray.composeSlot, zeroLength]
  have pages : (plan.store cell (some zeros) [head]).page cell.directory =
      plan.page cell.directory := by
    rw [← overwrite_store, slots, ← found, ← single]
    exact overwrite_page (Nat.mod_lt _ (by decide)) (IvArray.length_slotOf _ _)
      (plan.entry_directory cell) fun _ _ _ => rfl
  have kept : ∀ id, plan.Owns id → id ∉ plan.chain cell → after.page id = heap.page id := by
    intro id owns notOld
    have notFree : id ∉ freed.supply := by
      rw [supply, List.mem_cons, not_or]
      rw [single, List.mem_singleton] at notOld
      exact ⟨notOld, fun free => held.live owns (valid.supply_free id free)⟩
    change (if id ∈ freed.supply.take freed.supply.length then some Page.zero
      else freed.page id) = _
    rw [List.take_length, if_neg notFree]
    exact if_neg notOld
  have zeroed : after.page head = some Page.zero := by
    change (if head ∈ freed.supply.take freed.supply.length then some Page.zero
      else freed.page head) = _
    rw [List.take_length, supply]
    exact if_pos List.mem_cons_self
  have heldAfter : (plan.store cell (some zeros) [head]).Held arrays after := by
    apply held.store present
    · rintro other ⟨⟩
      rw [zeroLength]
      exact held.short cell old found
    · refine ⟨?_, fun notLong => absurd ⟨zeros, rfl, by rwa [zeroLength]⟩ notLong⟩
      rintro other ⟨⟩ -
      refine ⟨?_, List.nodup_singleton head, ?_⟩
      · rw [zeroLength, onePage]
        rfl
      · rw [links_cons]
        refine ⟨?_, by simp [Links, linkCells]⟩
        rw [zeroed, page_zero_eq old.length small, List.take_of_length_le (by rwa [zeroLength])]
        rfl
    · intro id inHead
      rw [single]
      exact .inl inHead
    · rw [pages, kept _ (.inl ⟨cell.directory, rfl, present⟩)
        (held.table_not_mem_chain present cell)]
      exact held.page _ present
    · exact fun id owns _ notOld => kept id owns notOld
    · rfl
  refine ⟨after, stops, ?_⟩
  have reading := heldAfter.returns_get (stops.valid valid) member addressable
  rwa [show (plan.store cell (some zeros) [head]).value (array, key.toNat) = some zeros from
    Function.update_self _ _ _] at reading

/-- The pages on the way to a key, those of its chain and the free ones are different pages. -/
theorem Held.nodup_pages (held : plan.Held arrays heap) (valid : heap.Valid)
    (addressable : Addressable cell.2) (present : plan.table cell.directory ≠ 0) :
    ([plan.table cell.top, plan.table cell.middle, plan.table cell.directory] ++
      (plan.chain cell ++ heap.supply)).Nodup := by
  have above := held.above addressable present
  have chainNodup : (plan.chain cell).Nodup := by
    by_cases long : IvArray.Long (plan.value cell)
    · rcases long with ⟨val, found, long⟩
      exact ((held.carries cell).chained val found long).nodup
    · rw [(held.carries cell).unchained long]
      exact List.nodup_nil
  have freeApart : ∀ id, plan.Owns id → id ∉ heap.supply :=
    fun id owns free => held.live owns (valid.supply_free id free)
  have back : ∀ place, plan.table place ≠ 0 →
      plan.table place ∉ plan.chain cell ++ heap.supply := by
    intro place there
    rw [List.mem_append, not_or]
    exact ⟨held.table_not_mem_chain there cell, freeApart _ (.inl ⟨place, rfl, there⟩)⟩
  have levels : ∀ first second : Place, first.level ≠ second.level → plan.table first ≠ 0 →
      plan.table first ≠ plan.table second := by
    intro first second differ there same
    exact differ (congrArg Place.level (held.table_inj there same))
  have rear : (plan.chain cell ++ heap.supply).Nodup := by
    rw [List.nodup_append]
    refine ⟨chainNodup, valid.supply_nodup, ?_⟩
    rintro id inChain other free rfl
    exact freeApart id (.inr ⟨cell, inChain⟩) free
  have topMiddle := levels cell.top cell.middle Nat.zero_ne_one above.1
  have topLast := levels cell.top cell.directory (by change 0 ≠ 2; omega) above.1
  have middleLast := levels cell.middle cell.directory (by change 1 ≠ 2; omega) above.2
  simp only [List.cons_append, List.nil_append, List.nodup_cons, List.mem_cons, not_or]
  exact ⟨⟨topMiddle, topLast, back _ above.1⟩, ⟨middleLast, back _ above.2⟩, back _ present, rear⟩

theorem insert_too_large (array : IvArray) (key : UInt32) (heap : Heap)
    (large : UInt32.size ≤ val.length) :
    (array.insert key val).Stops heap .valueTooLarge heap := by
  have size : 0 < UInt32.size := by decide
  rw [IvArray.insert, if_pos (by omega)]
  rfl

/-- An insertion that does not put its value there changes none. Where the old value has a chain,
the pages of the chain and the supply must be enough for the new one. -/
theorem Held.put_runs (held : plan.Held arrays heap) (valid : heap.Valid) (member : arrays array)
    (addressable : Addressable key.toNat) (val : Bytes)
    (room : ∀ old, plan.value (array, key.toNat) = some old → inlineCap < old.length →
      IvArray.spillPages val.length ≤ IvArray.spillPages old.length + heap.supply.length) :
    ∃ after grown, Confined arrays heap plan after grown ∧
      (((IvArray.mk array).insert key val).Returns heap () after ∧ val.length < UInt32.size ∧
          grown.value = Function.update plan.value (array, key.toNat) (some val) ∨
        ∃ error, ((IvArray.mk array).insert key val).Stops heap error after ∧
          grown.value = plan.value ∧
          (UInt32.size ≤ val.length ∨
            heap.supply.length < IvArray.spillPages val.length + 3)) := by
  by_cases short : val.length < UInt32.size
  · have carries := held.carries (array, key.toNat)
    have chained : plan.chain (array, key.toNat) ≠ [] → IvArray.spillPages val.length ≤
        (plan.chain (array, key.toNat)).length + heap.supply.length := by
      intro chained
      have long : IvArray.Long (plan.value (array, key.toNat)) := by
        by_contra notLong
        exact chained (carries.unchained notLong)
      rcases long with ⟨old, found, long⟩
      rw [found] at carries
      rw [carries.length]
      exact room old found long
    obtain ⟨after, grown, confined, ⟨returns, value⟩ | ⟨stops, value, few⟩⟩ :=
      held.insert_runs valid member addressable short chained
    · exact ⟨after, grown, confined, .inl ⟨returns, short, value⟩⟩
    · have most : plan.pathLack (array, key.toNat) ≤ 3 := by
        rw [pathLack]
        split <;> omega
      exact ⟨after, grown, confined, .inr ⟨_, stops, value, .inr (by omega)⟩⟩
  · exact ⟨heap, plan, (held.extends_self valid).toConfined,
      .inr ⟨_, insert_too_large _ key heap (not_lt.mp short), rfl, .inl (not_lt.mp short)⟩⟩

/-- A shorter value than the old one finds its pages. -/
theorem Held.shrink_runs (held : plan.Held arrays heap) (valid : heap.Valid) (member : arrays array)
    (addressable : Addressable key.toNat) {old : Bytes}
    (found : plan.value (array, key.toNat) = some old) (shorter : val.length ≤ old.length) :
    ∃ after grown, ((IvArray.mk array).insert key val).Returns heap () after ∧
      Confined arrays heap plan after grown ∧
      grown.value = Function.update plan.value (array, key.toNat) (some val) := by
  have carries := held.carries (array, key.toNat)
  rw [found] at carries
  have fewer : IvArray.spillPages val.length ≤ IvArray.spillPages old.length := by
    rw [IvArray.spillPages, IvArray.spillPages]
    have pages := pagesFor_mono shorter
    split <;> split <;> omega
  have present : plan.pathLack (array, key.toNat) = 0 := if_neg (held.directory _ old found)
  obtain ⟨after, grown, confined, ⟨returns, value⟩ | ⟨-, -, few⟩⟩ :=
    held.insert_runs valid member addressable (shorter.trans_lt (held.short _ old found))
      (fun _ => by rw [carries.length]; omega)
  · exact ⟨after, grown, returns, confined, value⟩
  · rw [present, carries.length] at few
    omega

theorem insert_beyond (array : IvArray) (heap : Heap) (beyond : ¬ Addressable key.toNat)
    (short : val.length < UInt32.size) :
    (array.insert key val).Stops heap (.keyBeyondCapacity key) heap := by
  rw [IvArray.insert, if_neg (by omega)]
  exact (stops_locate beyond heap).bind _

theorem delete_beyond (array : IvArray) (heap : Heap) (beyond : ¬ Addressable key.toNat) :
    (array.delete key).Stops heap (.keyBeyondCapacity key) heap :=
  (stops_locate beyond heap).bind _

end Plan

end GStore.Kvstore
