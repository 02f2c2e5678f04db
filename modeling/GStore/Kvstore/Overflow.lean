import GStore.Kvstore.TreeHeap

/-! # Overflow chains

`overflow.rs`: bytes that are too many for one place, over a linked list of pages. The first four
bytes of a page are the page after it, 0 for none. -/

namespace GStore.Kvstore

open PageM

/-- The integer at `offset`. -/
def readU32 (page : Page) (offset : Nat) : UInt32 := ofLe32 (slice page.bytes offset (offset + 4))

/-- The heap after `count` allocations. -/
def Heap.reserve (heap : Heap) (count : Nat) : Heap where
  page := fun id => if id ∈ heap.supply.take count then some Page.zero else heap.page id
  supply := heap.supply.drop count
  roots := heap.roots

/-- The heap after the pages are freed, in this order. -/
def Heap.release (heap : Heap) (ids : List PageId) : Heap where
  page := fun id => if id ∈ ids then none else heap.page id
  supply := ids.reverse ++ heap.supply
  roots := heap.roots

namespace Overflow

/-- Payload bytes of one page. -/
def chainPayload : Nat := pageSize - 4

/-- How many pages `length` bytes take, one at least. -/
def pagesFor (length : Nat) : Nat := max 1 ((length + chainPayload - 1) / chainPayload)

def chainPage (next : PageId) (part : Bytes) : Page := Page.ofBytes (le32 next ++ part)

/-! ## Programs -/

def allocAll : Nat → PageM (List PageId)
  | 0 => return []
  | count + 1 => do
    let id ← alloc
    let ids ← allocAll count
    return id :: ids

/-- Each page gets its part of the data and the page after it. -/
def writeLinks : List PageId → Bytes → PageM Unit
  | [], _ => return ()
  | id :: rest, data => do
    writePage id (chainPage (rest.headD 0) (data.take chainPayload))
    writeLinks rest (data.drop chainPayload)

/-- All pages are allocated before the first one is written. -/
def writeChain (data : Bytes) : PageM PageId := do
  let ids ← allocAll (pagesFor data.length)
  writeLinks ids data
  orPanic ids.head?

/-- Each round reads a byte at least, so there are at most `length` of them. -/
def readLoop (length : Nat) : Nat → PageId → Bytes → PageM Bytes
  | 0, _, out => return out
  | fuel + 1, page, out =>
    if page ≠ 0 ∧ out.length < length then do
      let contents ← readPage page
      let take := min (length - out.length) chainPayload
      readLoop length fuel (readU32 contents 0) (out ++ slice contents.bytes 4 (4 + take))
    else
      return out

def readChain (head : PageId) (length : Nat) : PageM Bytes := readLoop length length head []

/-- The next page is read before the page is freed. -/
def freeLoop : Nat → PageId → PageM Unit
  | 0, _ => .fail .endless
  | fuel + 1, page =>
    if page ≠ 0 then do
      let contents ← readPage page
      free page
      freeLoop fuel (readU32 contents 0)
    else
      return ()

def freeChain (head : PageId) : PageM Unit := freeLoop (pageLimit + 1) head

/-! ## Chains in the heap -/

/-- The pages of a chain with what is in them. -/
def linkCells : List PageId → Bytes → List (PageId × Page)
  | [], _ => []
  | id :: rest, data =>
    (id, chainPage (rest.headD 0) (data.take chainPayload)) ::
      linkCells rest (data.drop chainPayload)

/-- The pages hold the data. -/
def Links (heap : Heap) (ids : List PageId) (data : Bytes) : Prop :=
  ∀ cell ∈ linkCells ids data, heap.page cell.1 = some cell.2

/-- The pages are a chain of the data, and no more than it takes. -/
structure Chained (heap : Heap) (ids : List PageId) (data : Bytes) : Prop where
  count : ids.length = pagesFor data.length
  nodup : ids.Nodup
  links : Links heap ids data

variable {heap after : Heap} {ids rest : List PageId} {id : PageId} {data : Bytes}

theorem pagesFor_pos (length : Nat) : 0 < pagesFor length := by
  rw [pagesFor]
  omega

theorem pagesFor_mono {short long : Nat} (le : short ≤ long) : pagesFor short ≤ pagesFor long := by
  have divided : (short + chainPayload - 1) / chainPayload ≤
      (long + chainPayload - 1) / chainPayload := Nat.div_le_div_right (by omega)
  rw [pagesFor, pagesFor]
  omega

/-- The pages have room. -/
theorem le_pagesFor_mul (length : Nat) : length ≤ pagesFor length * chainPayload := by
  have payload : chainPayload = 4092 := rfl
  rw [pagesFor, payload]
  omega

@[simp] theorem map_fst_linkCells (ids : List PageId) (data : Bytes) :
    (linkCells ids data).map Prod.fst = ids := by
  induction ids generalizing data with
  | nil => rfl
  | cons id rest induction => rw [linkCells, List.map_cons, induction]

theorem links_cons : Links heap (id :: rest) data ↔
    heap.page id = some (chainPage (rest.headD 0) (data.take chainPayload)) ∧
      Links heap rest (data.drop chainPayload) := by
  rw [Links, linkCells, List.forall_mem_cons]
  rfl

theorem Links.live (links : Links heap ids data) : ∀ id ∈ ids, heap.page id ≠ none := by
  intro id member
  rw [← map_fst_linkCells ids data] at member
  rcases List.mem_map.mp member with ⟨cell, found, rfl⟩
  rw [links cell found]
  exact Option.some_ne_none _

theorem Links.of_same (links : Links heap ids data)
    (same : ∀ id ∈ ids, after.page id = heap.page id) : Links after ids data := by
  intro cell found
  have member : cell.1 ∈ ids := by
    rw [← map_fst_linkCells ids data]
    exact List.mem_map_of_mem found
  exact (same cell.1 member).trans (links cell found)

theorem Links.ne_zero (links : Links heap ids data) (valid : heap.Valid) : ∀ id ∈ ids, id ≠ 0 := by
  rintro id member rfl
  exact links.live 0 member valid.header_free

theorem Chained.of_same (chained : Chained heap ids data)
    (same : ∀ id ∈ ids, after.page id = heap.page id) : Chained after ids data :=
  ⟨chained.count, chained.nodup, chained.links.of_same same⟩

/-! ## Chain pages -/

theorem bytes_chainPage (next : PageId) {part : Bytes} (short : part.length ≤ chainPayload) :
    (chainPage next part).bytes =
      le32 next ++ part ++ List.replicate (chainPayload - part.length) 0 := by
  have payload : chainPayload = 4092 := rfl
  have size : pageSize = 4096 := rfl
  have fits : (le32 next ++ part).length ≤ pageSize := by
    rw [List.length_append, length_le32]
    omega
  have padding : pageSize - (le32 next ++ part).length = chainPayload - part.length := by
    rw [List.length_append, length_le32]
    omega
  rw [chainPage, Page.bytes_ofBytes fits, padding]

theorem readU32_chainPage (next : PageId) {part : Bytes} (short : part.length ≤ chainPayload) :
    readU32 (chainPage next part) 0 = next := by
  have front : slice (le32 next ++ part ++ List.replicate (chainPayload - part.length) 0) 0 4 =
      le32 next := by
    rw [List.append_assoc]
    exact @slice_append [] (le32 next) _ 0 4 rfl (length_le32 next)
  rw [readU32, bytes_chainPage next short, front, ofLe32_le32]

theorem slice_chainPage (next : PageId) {part : Bytes} (short : part.length ≤ chainPayload) :
    slice (chainPage next part).bytes 4 (4 + part.length) = part := by
  rw [bytes_chainPage next short]
  exact slice_append (length_le32 next) (by rw [length_le32])

/-! ## Writing -/

theorem reserve_succ (supply : heap.supply = id :: rest) (count : Nat) :
    ({ heap.set id Page.zero with supply := rest } : Heap).reserve count =
      heap.reserve (count + 1) := by
  simp only [Heap.reserve, Heap.set, supply, List.take_succ_cons, List.drop_succ_cons,
    Heap.mk.injEq, and_true]
  funext other
  by_cases same : other = id
  · rw [same, Function.update_self, if_pos List.mem_cons_self, ite_self]
  · rw [Function.update_of_ne same]
    simp only [List.mem_cons, same, false_or]

theorem returns_allocAll (count : Nat) (enough : count ≤ heap.supply.length) :
    (allocAll count).Returns heap (heap.supply.take count) (heap.reserve count) := by
  induction count generalizing heap with
  | zero => simp [allocAll, Heap.reserve, PageM.Returns]
  | succ count induction =>
    cases supply : heap.supply with
    | nil =>
      rw [supply] at enough
      cases enough
    | cons id rest =>
      rw [supply, List.length_cons] at enough
      have more := @induction { heap.set id Page.zero with supply := rest }
        (by change count ≤ rest.length; omega)
      rw [reserve_succ supply] at more
      apply (returns_alloc supply).bind
      exact more.bind (returns_pure _ _)

theorem stops_allocAll (count : Nat) (few : heap.supply.length < count) :
    (allocAll count).Stops heap .pageCountOverflow (heap.reserve heap.supply.length) := by
  induction count generalizing heap with
  | zero => cases few
  | succ count induction =>
    cases supply : heap.supply with
    | nil =>
      have unchanged : heap.reserve 0 = heap := by simp [Heap.reserve]
      rw [List.length_nil, unchanged]
      exact (stops_alloc supply).bind _
    | cons id rest =>
      rw [supply, List.length_cons] at few
      have more := @induction { heap.set id Page.zero with supply := rest }
        (by change rest.length < count; omega)
      rw [reserve_succ supply] at more
      apply (returns_alloc supply).bind_stops
      exact more.bind _

theorem returns_writeLinks (data : Bytes) (nodup : ids.Nodup)
    (live : ∀ id ∈ ids, heap.page id ≠ none) :
    ∃ after, (writeLinks ids data).Returns heap () after ∧ after.supply = heap.supply ∧
      Within ids heap after ∧ Links after ids data := by
  induction ids generalizing heap data with
  | nil => exact ⟨heap, returns_pure _ _, rfl, .refl _ _, by simp [Links, linkCells]⟩
  | cons id rest induction =>
    have parts := List.nodup_cons.mp nodup
    obtain ⟨old, oldEq⟩ := Option.ne_none_iff_exists'.mp (live id List.mem_cons_self)
    let page := chainPage (rest.headD 0) (data.take chainPayload)
    have liveRest : ∀ other ∈ rest, (heap.set id page).page other ≠ none := by
      intro other member
      have apart : other ≠ id := fun same => parts.1 (same ▸ member)
      rw [Heap.set]
      dsimp only
      rw [Function.update_of_ne apart]
      exact live other (List.mem_cons_of_mem id member)
    obtain ⟨after, returns, supply, within, links⟩ :=
      @induction (heap.set id page) (data.drop chainPayload) parts.2 liveRest
    refine ⟨after, (returns_writePage oldEq page).bind returns, supply, ⟨?_, within.roots⟩, ?_⟩
    · intro other absent
      have absentParts := not_or.mp (mt List.mem_cons.mpr absent)
      exact (within.outside other absentParts.2).trans (Function.update_of_ne absentParts.1 _ _)
    · exact links_cons.mpr
        ⟨(within.outside id parts.1).trans (Function.update_self _ _ _), links⟩

/-- A chain takes the first pages of the supply. -/
theorem returns_writeChain (data : Bytes) (valid : heap.Valid)
    (enough : pagesFor data.length ≤ heap.supply.length) :
    ∃ after, (writeChain data).Returns heap
        ((heap.supply.take (pagesFor data.length)).headD 0) after ∧
      after.supply = heap.supply.drop (pagesFor data.length) ∧
      Within (heap.supply.take (pagesFor data.length)) heap after ∧
      Chained after (heap.supply.take (pagesFor data.length)) data := by
  let ids := heap.supply.take (pagesFor data.length)
  have nodup : ids.Nodup := valid.supply_nodup.sublist (List.take_sublist _ _)
  have count : ids.length = pagesFor data.length := by
    rw [List.length_take]
    omega
  have live : ∀ id ∈ ids, (heap.reserve (pagesFor data.length)).page id ≠ none := by
    intro id member
    rw [Heap.reserve]
    dsimp only
    rw [if_pos member]
    exact Option.some_ne_none _
  obtain ⟨after, returns, supply, within, links⟩ := returns_writeLinks data nodup live
  have head : ids.head? = some (ids.headD 0) := by
    cases empty : ids with
    | nil =>
      have positive := pagesFor_pos data.length
      rw [← count, empty] at positive
      exact absurd positive (lt_irrefl 0)
    | cons id rest => rfl
  refine ⟨after, ?_, supply, ⟨?_, within.roots⟩, ⟨count, nodup, links⟩⟩
  · apply (returns_allocAll _ enough).bind
    apply returns.bind
    exact returns_orPanic head after
  · intro other absent
    rw [within.outside other absent, Heap.reserve]
    exact if_neg absent

theorem stops_writeChain (few : heap.supply.length < pagesFor data.length) :
    (writeChain data).Stops heap .pageCountOverflow (heap.reserve heap.supply.length) :=
  (stops_allocAll _ few).bind _

/-! ## Reading -/

/-- What is left of the data is behind what is read. -/
theorem returns_readLoop (valid : heap.Valid) (links : Links heap ids data)
    (room : data.length ≤ ids.length * chainPayload) {fuel : Nat} (enough : data.length ≤ fuel)
    {out : Bytes} {length : Nat} (total : out.length + data.length = length) :
    (readLoop length fuel (ids.headD 0) out).Returns heap (out ++ data) heap := by
  induction fuel generalizing ids data out with
  | zero =>
    have empty : data = [] := List.eq_nil_of_length_eq_zero (Nat.le_zero.mp enough)
    rw [empty, List.append_nil]
    exact returns_pure _ _
  | succ fuel induction =>
    rw [readLoop]
    cases ids with
    | nil =>
      have empty : data = [] := by
        apply List.eq_nil_of_length_eq_zero
        simpa using room
      rw [if_neg (fun going => going.1 rfl), empty, List.append_nil]
      exact returns_pure _ _
    | cons id rest =>
      by_cases more : out.length < length
      · have going : (id :: rest).headD 0 ≠ 0 ∧ out.length < length :=
          ⟨links.ne_zero valid id List.mem_cons_self, more⟩
        have parts := links_cons.mp links
        have short : (data.take chainPayload).length ≤ chainPayload := by
          rw [List.length_take]
          exact Nat.min_le_left _ _
        have taken : min (length - out.length) chainPayload =
            (data.take chainPayload).length := by
          rw [List.length_take]
          omega
        have payload : chainPayload = 4092 := rfl
        rw [if_pos going]
        apply (returns_readPage parts.1).bind
        dsimp only
        rw [readU32_chainPage _ short, taken, slice_chainPage _ short]
        rw [List.length_cons, Nat.add_mul, Nat.one_mul] at room
        have further : (readLoop length fuel (rest.headD 0)
            (out ++ data.take chainPayload)).Returns heap
            (out ++ data.take chainPayload ++ data.drop chainPayload) heap :=
          induction parts.2 (by rw [List.length_drop]; omega)
            (by rw [List.length_drop]; omega)
            (by rw [List.length_append, List.length_take, List.length_drop]; omega)
        rwa [List.append_assoc, List.take_append_drop] at further
      · have empty : data = [] := List.eq_nil_of_length_eq_zero (by omega)
        rw [if_neg (fun going => more going.2), empty, List.append_nil]
        exact returns_pure _ _

theorem returns_readChain (valid : heap.Valid) (chained : Chained heap ids data) :
    (readChain (ids.headD 0) data.length).Returns heap data heap := by
  have room : data.length ≤ ids.length * chainPayload := by
    rw [chained.count]
    exact le_pagesFor_mul _
  exact @returns_readLoop heap ids data valid chained.links room data.length (le_refl _) []
    data.length (Nat.zero_add _)

/-! ## Freeing -/

theorem returns_freeLoop (valid : heap.Valid) (nodup : ids.Nodup) (links : Links heap ids data)
    {fuel : Nat} (enough : ids.length < fuel) :
    (freeLoop fuel (ids.headD 0)).Returns heap () (heap.release ids) := by
  induction ids generalizing heap data fuel with
  | nil =>
    have unchanged : heap.release [] = heap := by simp [Heap.release]
    cases fuel with
    | zero => cases enough
    | succ fuel =>
      rw [unchanged]
      exact returns_pure _ _
  | cons id rest induction =>
    cases fuel with
    | zero => cases enough
    | succ fuel =>
      have parts := links_cons.mp links
      have fresh := List.nodup_cons.mp nodup
      have short : (data.take chainPayload).length ≤ chainPayload := by
        rw [List.length_take]
        exact Nat.min_le_left _ _
      let freed : Heap :=
        { heap with page := Function.update heap.page id none, supply := id :: heap.supply }
      have released : freed.release rest = heap.release (id :: rest) := by
        simp only [freed, Heap.release, List.reverse_cons, List.append_assoc,
          List.singleton_append, Heap.mk.injEq, and_true]
        funext other
        by_cases same : other = id
        · rw [same, Function.update_self, if_pos List.mem_cons_self, ite_self]
        · rw [Function.update_of_ne same]
          simp only [List.mem_cons, same, false_or]
      have freeing := returns_free parts.1
      have linksRest : Links freed rest (data.drop chainPayload) := by
        apply parts.2.of_same
        intro other member
        have apart : other ≠ id := by
          rintro rfl
          exact fresh.1 member
        exact Function.update_of_ne apart _ _
      rw [freeLoop, if_pos (show (id :: rest).headD 0 ≠ 0 from
        links.ne_zero valid id List.mem_cons_self)]
      apply (returns_readPage parts.1).bind
      apply freeing.bind
      rw [readU32_chainPage _ short, ← released]
      exact induction (freeing.valid valid) fresh.2 linksRest (Nat.lt_of_succ_lt_succ enough)

theorem returns_freeChain (valid : heap.Valid) (chained : Chained heap ids data) :
    (freeChain (ids.headD 0)).Returns heap () (heap.release ids) :=
  returns_freeLoop valid chained.nodup chained.links
    (Nat.lt_succ_of_le (length_le_pageLimit chained.nodup))

end Overflow

end GStore.Kvstore
