import GStore.Foundation.Records
import GStore.Kvstore.Overflow

/-! # Integer-keyed arrays

`ivarray.rs`: a key is an index into directory pages of fixed-size slots, which a page table of two
levels finds. A short value is in its slot, a long one in an overflow chain whose head the slot
has. -/

namespace GStore.Kvstore

open PageM Overflow

/-- Bytes of a slot. -/
def slotSize : Nat := 128

def slotsPerDir : Nat := pageSize / slotSize

/-- Entries of a page of the page table. -/
def fanout : Nat := pageSize / 4

/-- The longest value that a slot holds itself. -/
def inlineCap : Nat := slotSize - 5

/-- Keys from here on have no slot. -/
def keyCapacity : Nat := fanout * fanout * slotsPerDir

/-- The page with `data` at `offset`. -/
def Page.overwrite (page : Page) (offset : Nat) (data : Bytes) : Page where
  bytes := (writeAt page.bytes offset data).take pageSize
  size_eq := by
    rw [List.length_take, length_writeAt, page.size_eq]
    omega

/-- A handle to one array. -/
structure IvArray where
  rootSlot : RootSlot
deriving DecidableEq

namespace IvArray

/-! ## Programs -/

/-- The entries of the two levels and the slot that lead to a key. -/
def locate (key : UInt32) : PageM (Nat × Nat × Nat) :=
  let dirIdx := key.toNat / slotsPerDir
  if dirIdx / fanout ≥ fanout then .fail (.keyBeyondCapacity key)
  else return (dirIdx / fanout, dirIdx % fanout, key.toNat % slotsPerDir)

def root (array : IvArray) : PageM PageId := do
  let value ← Kvstore.root array.rootSlot
  return value.toUInt32

/-- The directory page, if all levels to it are there. -/
def dirPage (array : IvArray) (l0i l1i : Nat) : PageM (Option PageId) := do
  let l0 ← array.root
  if l0 = 0 then return none
  else
    let l0buf ← readPage l0
    let l1 := readU32 l0buf (l0i * 4)
    if l1 = 0 then return none
    else
      let l1buf ← readPage l1
      let dir := readU32 l1buf (l1i * 4)
      if dir = 0 then return none else return some dir

/-- The value in the slot at `off`. -/
def readSlot (key : UInt32) (dbuf : Page) (off : Nat) : PageM (Option Bytes) :=
  let tag := dbuf.bytes.getD off 0
  let len := (readU32 dbuf (off + 1)).toNat
  if tag = 0 then return none
  else if tag = 1 then
    if off + 5 + len ≤ pageSize then return some (slice dbuf.bytes (off + 5) (off + 5 + len))
    else .fail .panic
  else if tag = 2 then do
    let value ← readChain (readU32 dbuf (off + 5)) len
    return some value
  else .fail (.corruptSlot tag key)

def get (array : IvArray) (key : UInt32) : PageM (Option Bytes) := do
  let (l0i, l1i, si) ← locate key
  match ← array.dirPage l0i l1i with
  | none => return none
  | some dir =>
    let dbuf ← readPage dir
    readSlot key dbuf (si * slotSize)

/-- The page that an entry of the page table names, a new one if it names none. -/
def ensureEntry (table : PageId) (index : Nat) : PageM PageId := do
  let buf ← readPage table
  let entry := readU32 buf (index * 4)
  if entry = 0 then
    let id ← alloc
    writePage table (buf.overwrite (index * 4) (le32 id))
    return id
  else
    return entry

/-- The first page of the page table. -/
def ensureRoot (array : IvArray) : PageM PageId := do
  let l0 ← array.root
  if l0 = 0 then
    let id ← alloc
    setRoot array.rootSlot id.toUInt64
    return id
  else
    return l0

/-- The directory page, once all levels to it are there. -/
def ensureDir (array : IvArray) (l0i l1i : Nat) : PageM PageId := do
  let l0 ← array.ensureRoot
  let l1 ← ensureEntry l0 l0i
  ensureEntry l1 l1i

/-- A slot with a value, or with the head of the chain that has it. -/
def composeSlot (val : Bytes) : Option PageId → Bytes
  | none => 1 :: (le32 (UInt32.ofNat val.length) ++ val ++
      List.replicate (inlineCap - val.length) 0)
  | some head => 2 :: (le32 (UInt32.ofNat val.length) ++ le32 head ++
      List.replicate (inlineCap - 4) 0)

def emptySlot : Bytes := List.replicate slotSize 0

/-- The slot of a value, with its chain if it is too long for the slot. -/
def slotOf (value : Option Bytes) (chain : List PageId) : Bytes :=
  value.elim emptySlot fun val =>
    composeSlot val (if inlineCap < val.length then some (chain.headD 0) else none)

/-- Free the chain that a slot names, if it names one. -/
def reclaim (dbuf : Page) (off : Nat) : PageM Unit :=
  if dbuf.bytes.getD off 0 = 2 then freeChain (readU32 dbuf (off + 5)) else return ()

/-- A chain for a value that is too long for a slot. -/
def spill (val : Bytes) : PageM (Option PageId) :=
  if val.length > inlineCap then do
    let head ← writeChain val
    return some head
  else
    return none

/-- The old chain goes before the new one comes. -/
def writeSlot (dir : PageId) (off : Nat) (val : Bytes) : PageM Unit := do
  let dbuf ← readPage dir
  reclaim dbuf off
  let head ← spill val
  -- The directory page is read again, since pages have been written meanwhile.
  let dbuf ← readPage dir
  writePage dir (dbuf.overwrite off (composeSlot val head))

def insert (array : IvArray) (key : UInt32) (val : Bytes) : PageM Unit :=
  if val.length > UInt32.size - 1 then .fail .valueTooLarge
  else do
    let (l0i, l1i, si) ← locate key
    let dir ← array.ensureDir l0i l1i
    writeSlot dir (si * slotSize) val

def clearSlot (dir : PageId) (off : Nat) : PageM Bool := do
  let dbuf ← readPage dir
  if dbuf.bytes.getD off 0 = 0 then return false
  else
    reclaim dbuf off
    let dbuf ← readPage dir
    writePage dir (dbuf.overwrite off emptySlot)
    return true

def delete (array : IvArray) (key : UInt32) : PageM Bool := do
  let (l0i, l1i, si) ← locate key
  match ← array.dirPage l0i l1i with
  | none => return false
  | some dir => clearSlot dir (si * slotSize)

/-! ## Slots -/

variable {value : Option Bytes} {chain : List PageId} {page : Page} {off : Nat} {heap : Heap}

theorem length_slotOf (value : Option Bytes) (chain : List PageId) :
    (slotOf value chain).length = slotSize := by
  have cap : inlineCap = 123 := rfl
  have size : slotSize = 128 := rfl
  cases value with
  | none => exact List.length_replicate
  | some val =>
    rw [slotOf, Option.elim_some]
    by_cases long : inlineCap < val.length
    · rw [if_pos long, composeSlot]
      simp only [List.length_cons, List.length_append, length_le32, List.length_replicate]
      omega
    · rw [if_neg long, composeSlot]
      simp only [List.length_cons, List.length_append, length_le32, List.length_replicate]
      omega

/-- The page has the slot at the offset. -/
def SlotAt (page : Page) (off : Nat) (slot : Bytes) : Prop :=
  slice page.bytes off (off + slotSize) = slot

theorem SlotAt.getD {slot : Bytes} (slotAt : SlotAt page off slot) :
    page.bytes.getD off 0 = slot.getD 0 0 := by
  rw [← slotAt, slice]
  simp only [List.getD_eq_getElem?_getD, List.getElem?_drop, Nat.add_zero]
  rw [List.getElem?_take_of_lt (Nat.lt_add_of_pos_right (by decide))]

theorem SlotAt.slice {slot : Bytes} (slotAt : SlotAt page off slot) {first last : Nat}
    (within : last ≤ slotSize) :
    GStore.slice page.bytes (off + first) (off + last) = GStore.slice slot first last := by
  rw [← slotAt, slice_slice _ _ _ _ _ (Nat.add_le_add_left within off)]

/-- What the three fields of a slot read as. -/
theorem SlotAt.fields {tag : UInt8} {length : UInt32} {middle back : Bytes}
    (slotAt : SlotAt page off (tag :: (le32 length ++ middle ++ back)))
    (within : 5 + middle.length ≤ 128) : page.bytes.getD off 0 = tag ∧
      readU32 page (off + 1) = length ∧
      GStore.slice page.bytes (off + 5) (off + 5 + middle.length) = middle := by
  have size : slotSize = 128 := rfl
  refine ⟨slotAt.getD, ?_, ?_⟩
  · rw [readU32, Nat.add_assoc, slotAt.slice (by omega)]
    have field := @slice_append [tag] (le32 length) (middle ++ back) 1 5 rfl
      (by rw [length_le32]; rfl)
    rw [List.append_assoc, ← List.singleton_append, ← List.append_assoc, field, ofLe32_le32]
  · rw [Nat.add_assoc, slotAt.slice (by omega)]
    exact @slice_append (tag :: le32 length) middle back 5 (5 + middle.length)
      (by rw [List.length_cons, length_le32]) (by rw [List.length_cons, length_le32])

theorem SlotAt.inline {val : Bytes} (slotAt : SlotAt page off (slotOf (some val) chain))
    (short : val.length ≤ inlineCap) : page.bytes.getD off 0 = 1 ∧
      (readU32 page (off + 1)).toNat = val.length ∧
      GStore.slice page.bytes (off + 5) (off + 5 + val.length) = val := by
  have cap : inlineCap = 123 := rfl
  rw [slotOf, Option.elim_some, if_neg (not_lt.mpr short), composeSlot] at slotAt
  obtain ⟨tag, length, content⟩ := slotAt.fields (by omega)
  refine ⟨tag, ?_, content⟩
  rw [length, UInt32.toNat_ofNat']
  omega

theorem SlotAt.chained {val : Bytes} (slotAt : SlotAt page off (slotOf (some val) chain))
    (long : inlineCap < val.length) (short : val.length < UInt32.size) :
    page.bytes.getD off 0 = 2 ∧ (readU32 page (off + 1)).toNat = val.length ∧
      readU32 page (off + 5) = chain.headD 0 := by
  rw [slotOf, Option.elim_some, if_pos long, composeSlot] at slotAt
  obtain ⟨tag, length, content⟩ := slotAt.fields (by rw [length_le32]; omega)
  refine ⟨tag, ?_, ?_⟩
  · rw [length, UInt32.toNat_ofNat', Nat.mod_eq_of_lt short]
  · rw [length_le32] at content
    rw [readU32, content, ofLe32_le32]

theorem SlotAt.empty (slotAt : SlotAt page off (slotOf none chain)) : page.bytes.getD off 0 = 0 :=
  slotAt.getD

/-- The value is too long for a slot. -/
def Long (value : Option Bytes) : Prop := ∃ val, value = some val ∧ inlineCap < val.length

/-- How many pages a value of this length takes besides its slot. -/
def spillPages (length : Nat) : Nat := if inlineCap < length then pagesFor length else 0

/-- The pages are the chain of a value that needs one, and none for another value. -/
structure Carries (heap : Heap) (value : Option Bytes) (chain : List PageId) : Prop where
  chained : ∀ val, value = some val → inlineCap < val.length → Chained heap chain val
  unchained : ¬ Long value → chain = []

theorem Carries.of_same {after : Heap} (carries : Carries heap value chain)
    (same : ∀ id ∈ chain, after.page id = heap.page id) : Carries after value chain :=
  ⟨fun val valueEq long => (carries.chained val valueEq long).of_same same, carries.unchained⟩

theorem carries_none (heap : Heap) : Carries heap none [] := by
  refine ⟨?_, fun _ => rfl⟩
  rintro val ⟨⟩

theorem Carries.length {val : Bytes} (carries : Carries heap (some val) chain) :
    chain.length = spillPages val.length := by
  rw [spillPages]
  by_cases long : inlineCap < val.length
  · rw [if_pos long]
    exact (carries.chained val rfl long).count
  · rw [if_neg long, carries.unchained]
    · rfl
    · rintro ⟨other, ⟨⟩, further⟩
      exact long further

theorem Carries.live (carries : Carries heap value chain) : ∀ id ∈ chain, heap.page id ≠ none := by
  intro id member
  by_cases long : Long value
  · rcases long with ⟨val, valueEq, long⟩
    exact (carries.chained val valueEq long).links.live id member
  · rw [carries.unchained long] at member
    cases member

theorem returns_readSlot (valid : heap.Valid) (slotAt : SlotAt page off (slotOf value chain))
    (within : off + slotSize ≤ pageSize) (carries : Carries heap value chain)
    (short : ∀ val, value = some val → val.length < UInt32.size) (key : UInt32) :
    (readSlot key page off).Returns heap value heap := by
  have cap : inlineCap = 123 := rfl
  have size : slotSize = 128 := rfl
  rw [readSlot]
  cases value with
  | none =>
    rw [if_pos slotAt.empty]
    exact returns_pure _ _
  | some val =>
    by_cases long : inlineCap < val.length
    · obtain ⟨tag, length, head⟩ := slotAt.chained long (short val rfl)
      rw [tag, if_neg (by decide), if_neg (by decide), if_pos rfl, length, head]
      apply (returns_readChain valid (carries.chained val rfl long)).bind
      exact returns_pure _ _
    · obtain ⟨tag, length, payload⟩ := slotAt.inline (not_lt.mp long)
      rw [tag, if_neg (by decide), if_pos rfl, length, if_pos (by omega), payload]
      exact returns_pure _ _

theorem returns_reclaim (valid : heap.Valid) (slotAt : SlotAt page off (slotOf value chain))
    (carries : Carries heap value chain)
    (short : ∀ val, value = some val → val.length < UInt32.size) :
    (reclaim page off).Returns heap () (heap.release chain) := by
  have unchanged : heap.release [] = heap := by simp [Heap.release]
  rw [reclaim]
  by_cases isLong : Long value
  · rcases isLong with ⟨val, rfl, long⟩
    obtain ⟨tag, -, head⟩ := slotAt.chained long (short val rfl)
    rw [if_pos tag, head]
    exact returns_freeChain valid (carries.chained val rfl long)
  · have tag : page.bytes.getD off 0 ≠ 2 := by
      cases value with
      | none =>
        rw [slotAt.empty]
        decide
      | some val =>
        have inline : val.length ≤ inlineCap := not_lt.mp fun long => isLong ⟨val, rfl, long⟩
        rw [(slotAt.inline inline).1]
        decide
    rw [if_neg tag, carries.unchained isLong, unchanged]
    exact returns_pure _ _

/-- A value gets the first pages of the supply, if it needs any. -/
theorem returns_spill (val : Bytes) (valid : heap.Valid)
    (enough : spillPages val.length ≤ heap.supply.length) :
    ∃ after, (spill val).Returns heap
        (if inlineCap < val.length then
          some ((heap.supply.take (spillPages val.length)).headD 0) else none) after ∧
      after.supply = heap.supply.drop (spillPages val.length) ∧
      Within (heap.supply.take (spillPages val.length)) heap after ∧
      Carries after (some val) (heap.supply.take (spillPages val.length)) := by
  by_cases long : inlineCap < val.length
  · have pages : spillPages val.length = pagesFor val.length := if_pos long
    rw [pages] at enough ⊢
    obtain ⟨after, returns, supply, within, chained⟩ := returns_writeChain val valid enough
    refine ⟨after, ?_, supply, within, ⟨?_, fun notLong => absurd ⟨val, rfl, long⟩ notLong⟩⟩
    · rw [spill, if_pos long, if_pos long]
      exact returns.bind (returns_pure _ _)
    · rintro other ⟨⟩ -
      exact chained
  · have pages : spillPages val.length = 0 := if_neg long
    rw [pages, List.take_zero, List.drop_zero]
    refine ⟨heap, ?_, rfl, .refl _ _, ⟨?_, fun _ => rfl⟩⟩
    · rw [spill, if_neg long, if_neg long]
      exact returns_pure _ _
    · rintro other ⟨⟩ further
      exact absurd further long

theorem stops_spill {val : Bytes} (few : heap.supply.length < spillPages val.length) :
    (spill val).Stops heap .pageCountOverflow (heap.reserve heap.supply.length) := by
  by_cases long : inlineCap < val.length
  · rw [spillPages, if_pos long] at few
    rw [spill, if_pos long]
    exact (stops_writeChain few).bind _
  · rw [spillPages, if_neg long] at few
    cases few

end IvArray

end GStore.Kvstore
