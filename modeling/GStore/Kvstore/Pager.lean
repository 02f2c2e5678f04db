import GStore.Foundation.Assoc
import GStore.Kvstore.PageM
import GStore.Kvstore.Wal
import Mathlib.Data.List.MinMax

/-! # The pager

A write-back cache of pages over the main file. A read that misses may drop a page that is
clean; a write that misses commits first if no page is clean. What a caller sees of a page is
its cached copy, and otherwise the file. -/

namespace GStore.Kvstore

/-! ## Pages of the file -/

/-- `seek` and `read_exact` of one page. -/
def filePage (file : Bytes) (id : PageId) : Option Page :=
  if pageOffset id + pageSize ≤ file.length then
    some (Page.ofBytes (slice file (pageOffset id) (pageOffset id + pageSize)))
  else none

theorem getD_slice_page {file : Bytes} {start : Nat} (inside : start + pageSize ≤ file.length)
    {index : Nat} (small : index < pageSize) :
    (Page.ofBytes (slice file start (start + pageSize))).bytes.getD index 0 =
      file.getD (start + index) 0 := by
  have length : (slice file start (start + pageSize)).length = pageSize := by
    rw [slice, List.length_drop, List.length_take]
    omega
  have whole : (Page.ofBytes (slice file start (start + pageSize))).bytes =
      slice file start (start + pageSize) := by
    rw [Page.bytes_ofBytes length.le, length, Nat.sub_self, List.replicate_zero, List.append_nil]
  rw [whole, slice, List.getD_eq_getElem?_getD, List.getElem?_drop,
    List.getElem?_take_of_lt (by omega), List.getD_eq_getElem?_getD]

theorem Page.ext_getD {left right : Page}
    (bytes : ∀ index < pageSize, left.bytes.getD index 0 = right.bytes.getD index 0) :
    left = right := by
  refine Page.ext (file_ext (left.size_eq.trans right.size_eq.symm) fun index => ?_)
  by_cases small : index < pageSize
  · exact bytes index small
  · rw [List.getD_eq_getElem?_getD, List.getD_eq_getElem?_getD,
      List.getElem?_eq_none (by rw [left.size_eq]; omega),
      List.getElem?_eq_none (by rw [right.size_eq]; omega)]

theorem filePage_eq_some_iff {file : Bytes} {id : PageId} {page : Page} :
    filePage file id = some page ↔
      pageOffset id + pageSize ≤ file.length ∧
      ∀ index < pageSize, file.getD (pageOffset id + index) 0 = page.bytes.getD index 0 := by
  rw [filePage]
  constructor
  · intro read
    split at read
    · rename_i inside
      refine ⟨inside, fun index small => ?_⟩
      rw [← Option.some.inj read, getD_slice_page inside small]
    · cases read
  · intro read
    rw [if_pos read.1, Option.some.injEq]
    refine Page.ext_getD fun index small => ?_
    rw [getD_slice_page read.1 small, read.2 index small]

theorem filePage_seekWrite_same (file : Bytes) (id : PageId) (page : Page) :
    filePage (seekWrite file (id, page)) id = some page := by
  rw [filePage_eq_some_iff, seekWrite, length_writeAt, page.size_eq]
  refine ⟨le_max_right _ _, fun index small => ?_⟩
  have inside : pageOffset id ≤ pageOffset id + index ∧
      pageOffset id + index < pageOffset id + page.bytes.length := by
    rw [page.size_eq]
    omega
  rw [getD_writeAt, if_pos inside, Nat.add_sub_cancel_left]

theorem filePage_seekWrite_other {file : Bytes} {entry : PageId × Page} {id : PageId}
    {page : Page} (other : entry.1 ≠ id) (held : filePage file id = some page) :
    filePage (seekWrite file entry) id = some page := by
  rw [filePage_eq_some_iff] at held ⊢
  rw [seekWrite, length_writeAt]
  refine ⟨held.1.trans (le_max_left _ _), fun index small => ?_⟩
  have apart : entry.1.toNat ≠ id.toNat := fun same => other (UInt32.toNat_inj.mp same)
  have outside : ¬ (pageOffset entry.1 ≤ pageOffset id + index ∧
      pageOffset id + index < pageOffset entry.1 + entry.2.bytes.length) := by
    rw [entry.2.size_eq, pageOffset, pageOffset]
    rw [pageSize] at small ⊢
    omega
  rw [getD_writeAt, if_neg outside, held.2 index small]

/-- The pages of a batch are in the file afterwards. -/
theorem filePage_writePages_mem {batch : List (PageId × Page)}
    (nodup : (batch.map Prod.fst).Nodup) {id : PageId} {page : Page}
    (member : (id, page) ∈ batch) (file : Bytes) :
    filePage (writePages file batch) id = some page := by
  induction batch using List.reverseRecOn with
  | nil => cases member
  | append_singleton rest last induction =>
    rw [List.map_append, List.map_singleton, List.nodup_append] at nodup
    rw [writePages, List.foldl_append, List.foldl_cons, List.foldl_nil, ← writePages]
    rcases List.mem_append.mp member with earlier | latest
    · have other : last.1 ≠ id := fun same =>
        nodup.2.2 id (List.mem_map_of_mem earlier) last.1 (List.mem_singleton_self _) same.symm
      exact filePage_seekWrite_other other (induction nodup.1 earlier)
    · rw [← List.mem_singleton.mp latest]
      exact filePage_seekWrite_same _ _ _

theorem filePage_writePages_of_notMem {batch : List (PageId × Page)} {id : PageId}
    (absent : id ∉ batch.map Prod.fst) {file : Bytes} {page : Page}
    (held : filePage file id = some page) :
    filePage (writePages file batch) id = some page := by
  induction batch generalizing file with
  | nil => exact held
  | cons first rest induction =>
    rw [List.map_cons, List.mem_cons, not_or] at absent
    exact induction absent.2 (filePage_seekWrite_other (Ne.symm absent.1) held)

/-! ## The state -/

structure CachedPage where
  data : Page
  dirty : Bool
  tick : UInt64

/-- The pager. The log beside the file exists only inside `flush`. -/
structure Pager where
  file : Bytes
  pageCount : UInt32
  freeHead : PageId
  roots : RootSlot → UInt64
  cache : List (PageId × CachedPage)
  clock : UInt64
  capacity : Nat

def kvMagic : Bytes := [0x47, 0x53, 0x54, 0x4F, 0x52, 0x45, 0x4B, 0x56]

namespace Pager

def headerBytes (pager : Pager) : Page :=
  Page.ofBytes (kvMagic ++ le32 pager.pageCount ++ le32 pager.freeHead ++
    (List.finRange nroots).flatMap fun slot => leBytes 8 (pager.roots slot).toNat)

/-- The next use of the cache. -/
def advance (pager : Pager) : Pager := { pager with clock := pager.clock + 1 }

/-- The least recently used of some pages. -/
def leastRecent (entries : List (PageId × CachedPage)) : Option (PageId × CachedPage) :=
  entries.argmin fun entry => entry.2.tick.toNat

/-- The clean pages of the cache. -/
def cleanPages (cache : List (PageId × CachedPage)) : List (PageId × CachedPage) :=
  cache.filter fun entry => !entry.2.dirty

/-- If every cached page is dirty the cache grows past its capacity. -/
def evictOneClean (cache : List (PageId × CachedPage)) : List (PageId × CachedPage) :=
  match leastRecent (cleanPages cache) with
  | some victim => assocErase victim.1 cache
  | none => cache

/-- The header and the dirty pages. -/
def commitBatch (pager : Pager) : List (PageId × Page) :=
  (0, pager.headerBytes) ::
    (pager.cache.filter fun entry => entry.2.dirty).map fun entry => (entry.1, entry.2.data)

def flush (pager : Pager) : Pager :=
  { pager with
    file := writePages pager.file pager.commitBatch
    cache := pager.cache.map fun entry => (entry.1, { entry.2 with dirty := false }) }

/-- Commits first if no page is clean. -/
def evictOne (pager : Pager) : Pager :=
  match leastRecent (cleanPages pager.cache) with
  | some victim => { pager with cache := assocErase victim.1 pager.cache }
  | none =>
    let flushed := pager.flush
    match leastRecent flushed.cache with
    | some victim => { flushed with cache := assocErase victim.1 flushed.cache }
    | none => flushed

def readPage (pager : Pager) (id : PageId) : Except StoreError Page × Pager :=
  let pager := pager.advance
  match pager.cache.lookup id with
  | some cached =>
    (.ok cached.data,
      { pager with cache := assocInsert id { cached with tick := pager.clock } pager.cache })
  | none =>
    match filePage pager.file id with
    | none => (.error .unexpectedEof, pager)
    | some data =>
      let pager := pager.advance
      let cache :=
        if pager.cache.length ≥ pager.capacity then evictOneClean pager.cache
        else pager.cache
      (.ok data,
        { pager with
          cache := assocInsert id { data, dirty := false, tick := pager.clock } cache })

def insertCache (pager : Pager) (id : PageId) (data : Page) (dirty : Bool) (tick : UInt64) :
    Pager :=
  let pager := if pager.cache.length ≥ pager.capacity then pager.evictOne else pager
  { pager with cache := assocInsert id { data, dirty, tick } pager.cache }

def writePage (pager : Pager) (id : PageId) (data : Page) : Except StoreError Unit × Pager :=
  if id = 0 then (.error .reservedPage, pager)
  else
    let pager := pager.advance
    match pager.cache.lookup id with
    | some _ =>
      (.ok (), { pager with
        cache := assocInsert id { data, dirty := true, tick := pager.clock } pager.cache })
    | none => (.ok (), pager.insertCache id data true pager.clock)

/-- Reuses the head of the free list, whose first four bytes hold the next free page. -/
def alloc (pager : Pager) : Except StoreError PageId × Pager :=
  if pager.freeHead ≠ 0 then
    let id := pager.freeHead
    match pager.readPage id with
    | (.error error, pager) => (.error error, pager)
    | (.ok page, pager) =>
      let pager := { pager with freeHead := ofLe32 (slice page.bytes 0 4) }
      match pager.writePage id Page.zero with
      | (.error error, pager) => (.error error, pager)
      | (.ok (), pager) => (.ok id, pager)
  else
    let id := pager.pageCount
    if id.toNat + 1 < 2 ^ 32 then
      let pager := { pager with pageCount := id + 1 }
      match pager.writePage id Page.zero with
      | (.error error, pager) => (.error error, pager)
      | (.ok (), pager) => (.ok id, pager)
    else (.error .pageCountOverflow, pager)

/-- The page of a free list: the id of the next one. -/
def freePage (next : PageId) : Page := Page.ofBytes (le32 next)

def free (pager : Pager) (id : PageId) : Except StoreError Unit × Pager :=
  if id = 0 then (.error .reservedPage, pager)
  else
    match pager.writePage id (freePage pager.freeHead) with
    | (.error error, pager) => (.error error, pager)
    | (.ok (), pager) => (.ok (), { pager with freeHead := id })

def setRoot (pager : Pager) (slot : RootSlot) (value : UInt64) : Pager :=
  { pager with roots := Function.update pager.roots slot value }

end Pager

/-- The header is written and committed. -/
def freshPager (file : Bytes) (capacity : Nat) : Pager :=
  let pager : Pager :=
    { file, pageCount := 1, freeHead := 0, roots := fun _ => 0, cache := [], clock := 0, capacity }
  { pager with file := seekWrite file (0, pager.headerBytes) }.flush

/-- Replays the log, then starts a fresh file or reads the header of the one there is. -/
def openPager (disk : Disk) (capacity : Nat) : Option Pager :=
  let file := (recoverWal disk).file
  let capacity := max capacity 8
  if file.length = 0 then some (freshPager file capacity)
  else
    match filePage file 0 with
    | none => none
    | some header =>
      if slice header.bytes 0 8 ≠ kvMagic then none
      else some
        { file, pageCount := ofLe32 (slice header.bytes 8 12),
          freeHead := ofLe32 (slice header.bytes 12 16),
          roots := fun slot =>
            UInt64.ofNat (leValue (slice header.bytes (16 + slot * 8) (24 + slot * 8))),
          cache := [], clock := 0, capacity }

/-! ## What a caller sees -/

namespace Pager

/-- The cached copy of a page, and otherwise the file. -/
def visible (pager : Pager) (id : PageId) : Option Page :=
  match pager.cache.lookup id with
  | some cached => some cached.data
  | none => filePage pager.file id

/-- What holds between the calls of a pager: a clean page is as in the file. The cache may hold
an old header, since `flush` writes the header past it. -/
structure Sound (pager : Pager) : Prop where
  nodup : (pager.cache.map Prod.fst).Nodup
  header : ∀ cached, pager.cache.lookup 0 = some cached → cached.dirty = false
  clean : ∀ id cached, id ≠ 0 → pager.cache.lookup id = some cached → cached.dirty = false →
    filePage pager.file id = some cached.data

/-- From one state to another no page but the header is lost, and one page may be new. -/
structure Keeps (before after : Pager) (stored : Option (PageId × Page)) : Prop where
  sound : after.Sound
  visible : ∀ id page, id ≠ 0 → (∀ entry, stored = some entry → id ≠ entry.1) →
    before.visible id = some page → after.visible id = some page
  stored : ∀ id page, stored = some (id, page) →
    ∃ cached, after.cache.lookup id = some cached ∧ cached.data = page

theorem visible_of_lookup {pager : Pager} {id : PageId} {cached : CachedPage}
    (found : pager.cache.lookup id = some cached) : pager.visible id = some cached.data := by
  rw [visible, found]

theorem visible_of_lookup_none {pager : Pager} {id : PageId}
    (missing : pager.cache.lookup id = none) : pager.visible id = filePage pager.file id := by
  rw [visible, missing]

/-- A page that is dropped from a sound cache is clean. -/
theorem lookup_evictOneClean {cache : List (PageId × CachedPage)}
    (nodup : (cache.map Prod.fst).Nodup) (id : PageId) :
    (evictOneClean cache).lookup id = cache.lookup id ∨
    (evictOneClean cache).lookup id = none ∧
      ∃ cached, cache.lookup id = some cached ∧ cached.dirty = false := by
  rw [evictOneClean]
  cases picked : leastRecent (cleanPages cache) with
  | none => exact .inl rfl
  | some victim =>
    have member := List.mem_filter.mp (List.argmin_mem picked)
    dsimp only
    rw [lookup_assocErase]
    by_cases same : id = victim.1
    · right
      rw [if_pos (beq_iff_eq.mpr same), same]
      exact ⟨rfl, victim.2, lookup_eq_some_of_mem nodup member.1, by simpa using member.2⟩
    · left
      rw [if_neg (by simpa using same)]

theorem nodup_evictOneClean {cache : List (PageId × CachedPage)}
    (nodup : (cache.map Prod.fst).Nodup) : ((evictOneClean cache).map Prod.fst).Nodup := by
  rw [evictOneClean]
  split
  · exact nodup_keys_assocErase _ nodup
  · exact nodup

/-- Dropping a clean page. -/
theorem Sound.evictOneClean {pager : Pager} (sound : pager.Sound) :
    pager.Keeps { pager with cache := Pager.evictOneClean pager.cache } none where
  sound :=
    { nodup := nodup_evictOneClean sound.nodup
      header := by
        intro cached found
        rcases lookup_evictOneClean sound.nodup 0 with same | dropped
        · exact sound.header cached (same ▸ found)
        · rw [dropped.1] at found
          cases found
      clean := by
        intro id cached nonzero found clean
        rcases lookup_evictOneClean sound.nodup id with same | dropped
        · exact sound.clean id cached nonzero (same ▸ found) clean
        · rw [dropped.1] at found
          cases found }
  visible := by
    intro id page nonzero _ seen
    rcases lookup_evictOneClean sound.nodup id with same | ⟨missing, cached, found, clean⟩
    · rw [visible] at seen ⊢
      rwa [same]
    · rw [visible_of_lookup found] at seen
      rw [visible_of_lookup_none missing, ← seen]
      exact sound.clean id cached nonzero found clean
  stored := by
    intro id page new
    cases new

theorem Sound.of_same {pager other : Pager} (sound : pager.Sound)
    (cache : other.cache = pager.cache) (file : other.file = pager.file) : other.Sound where
  nodup := by rw [cache]; exact sound.nodup
  header := by rw [cache]; exact sound.header
  clean := by rw [cache, file]; exact sound.clean

theorem visible_of_same {pager other : Pager} (cache : other.cache = pager.cache)
    (file : other.file = pager.file) (id : PageId) : other.visible id = pager.visible id := by
  rw [visible, visible, cache, file]

/-- The fields that the cache does not depend on. -/
theorem Keeps.of_same {before middle after : Pager} {stored : Option (PageId × Page)}
    (keeps : before.Keeps middle stored) (cache : after.cache = middle.cache)
    (file : after.file = middle.file) : before.Keeps after stored where
  sound := keeps.sound.of_same cache file
  visible := by
    intro id page nonzero other seen
    rw [visible_of_same cache file]
    exact keeps.visible id page nonzero other seen
  stored := by rw [cache]; exact keeps.stored

theorem Sound.keeps {pager : Pager} (sound : pager.Sound) : pager.Keeps pager none where
  sound := sound
  visible := fun _ _ _ _ seen => seen
  stored := fun _ _ new => by cases new

theorem Keeps.trans {before middle after : Pager} {stored : Option (PageId × Page)}
    (first : before.Keeps middle none) (second : middle.Keeps after stored) :
    before.Keeps after stored where
  sound := second.sound
  visible := fun id page nonzero other seen =>
    second.visible id page nonzero other
      (first.visible id page nonzero (fun _ new => by cases new) seen)
  stored := second.stored

/-- A page that shows what it showed before counts as unchanged. -/
theorem Keeps.unchanged {before after : Pager} {id : PageId} {data : Page}
    (keeps : before.Keeps after (some (id, data)))
    (same : id ≠ 0 → before.visible id = some data) : before.Keeps after none where
  sound := keeps.sound
  visible := by
    intro other page nonzero _ seen
    by_cases here : other = id
    · subst here
      rcases keeps.stored other data rfl with ⟨cached, found, held⟩
      rw [visible_of_lookup found, held, ← seen, same nonzero]
    · exact keeps.visible other page nonzero
        (fun entry new => by rw [← Option.some.inj new]; exact here) seen
  stored := fun _ _ new => by cases new

/-- Caching a page that is dirty, or as in the file. -/
theorem Sound.put {pager : Pager} (sound : pager.Sound) (id : PageId) (cached : CachedPage)
    (settled : cached.dirty = true ∧ id ≠ 0 ∨
      cached.dirty = false ∧ (id ≠ 0 → filePage pager.file id = some cached.data)) :
    pager.Keeps { pager with cache := assocInsert id cached pager.cache }
      (some (id, cached.data)) where
  sound :=
    { nodup := nodup_keys_assocInsert id cached sound.nodup
      header := by
        intro other found
        dsimp only at found
        rw [lookup_assocInsert] at found
        split at found
        · rename_i same
          rw [← Option.some.inj found]
          rcases settled with ⟨-, nonzero⟩ | ⟨clean, -⟩
          · exact absurd (eq_of_beq same).symm nonzero
          · exact clean
        · exact sound.header other found
      clean := by
        intro other found nonzero present clean
        dsimp only at present
        rw [lookup_assocInsert] at present
        split at present
        · rename_i same
          rw [← Option.some.inj present] at clean ⊢
          rcases settled with ⟨dirty, -⟩ | ⟨-, held⟩
          · rw [dirty] at clean
            cases clean
          · rw [eq_of_beq same] at nonzero ⊢
            exact held nonzero
        · exact sound.clean other found nonzero present clean }
  visible := by
    intro other page nonzero apart seen
    rw [visible] at seen ⊢
    dsimp only
    rw [lookup_assocInsert, if_neg (by simpa using apart _ rfl)]
    exact seen
  stored := by
    intro other page new
    cases new
    exact ⟨cached, by dsimp only; rw [lookup_assocInsert, if_pos (beq_self_eq_true _)], rfl⟩

/-! ## Committing -/

theorem lookup_flush (pager : Pager) (id : PageId) :
    pager.flush.cache.lookup id =
      (pager.cache.lookup id).map fun cached => { cached with dirty := false } := by
  rw [flush]
  dsimp only
  induction pager.cache with
  | nil => rfl
  | cons entry rest induction =>
    rw [List.map_cons, lookup_cons_eq_ite, lookup_cons_eq_ite, induction]
    split <;> rfl

theorem keys_flush (pager : Pager) :
    pager.flush.cache.map Prod.fst = pager.cache.map Prod.fst := by
  rw [flush]
  exact List.map_map

theorem Sound.mem_commitBatch {pager : Pager} (sound : pager.Sound) {id : PageId} {data : Page}
    (nonzero : id ≠ 0) : (id, data) ∈ pager.commitBatch ↔
      ∃ cached, pager.cache.lookup id = some cached ∧ cached.dirty = true ∧ cached.data = data := by
  rw [commitBatch, List.mem_cons, List.mem_map]
  constructor
  · rintro (header | ⟨entry, member, same⟩)
    · exact absurd (congrArg Prod.fst header) nonzero
    · cases same
      have parts := List.mem_filter.mp member
      exact ⟨entry.2, lookup_eq_some_of_mem sound.nodup parts.1, parts.2, rfl⟩
  · rintro ⟨cached, found, dirty, rfl⟩
    exact .inr ⟨(id, cached), List.mem_filter.mpr ⟨mem_of_lookup_eq_some found, dirty⟩, rfl⟩

theorem Sound.nodup_commitBatch {pager : Pager} (sound : pager.Sound) :
    (pager.commitBatch.map Prod.fst).Nodup := by
  have keys : (pager.commitBatch.map Prod.fst) =
      0 :: (pager.cache.filter fun entry => entry.2.dirty).map Prod.fst := by
    rw [commitBatch, List.map_cons, List.map_map]
    rfl
  rw [keys, List.nodup_cons]
  refine ⟨fun zero => ?_, sound.nodup.sublist (List.filter_sublist.map Prod.fst)⟩
  rcases List.mem_map.mp zero with ⟨entry, member, isZero⟩
  have parts := List.mem_filter.mp member
  have found := lookup_eq_some_of_mem sound.nodup parts.1
  rw [isZero] at found
  have clean := sound.header entry.2 found
  rw [parts.2] at clean
  cases clean

/-- After a commit the file shows what the cache shows. -/
theorem Sound.filePage_flush {pager : Pager} (sound : pager.Sound) {id : PageId} {page : Page}
    (nonzero : id ≠ 0) (seen : pager.visible id = some page) :
    filePage pager.flush.file id = some page := by
  rw [flush]
  dsimp only
  by_cases committed : ∃ data, (id, data) ∈ pager.commitBatch
  · rcases committed with ⟨data, member⟩
    rcases (sound.mem_commitBatch nonzero).mp member with ⟨cached, found, -, rfl⟩
    rw [visible_of_lookup found] at seen
    rw [filePage_writePages_mem sound.nodup_commitBatch member, seen]
  · have absent : id ∉ pager.commitBatch.map Prod.fst := by
      intro member
      rcases List.mem_map.mp member with ⟨entry, present, rfl⟩
      exact committed ⟨entry.2, present⟩
    refine filePage_writePages_of_notMem absent ?_
    cases found : pager.cache.lookup id with
    | none => rwa [visible_of_lookup_none found] at seen
    | some cached =>
      rw [visible_of_lookup found] at seen
      rw [← seen]
      refine sound.clean id cached nonzero found ?_
      by_contra dirty
      exact committed ⟨cached.data, (sound.mem_commitBatch nonzero).mpr
        ⟨cached, found, by simpa using dirty, rfl⟩⟩

/-- A commit writes the header. -/
theorem Sound.filePage_flush_header {pager : Pager} (sound : pager.Sound) :
    filePage pager.flush.file 0 = some pager.headerBytes := by
  have member : ((0 : PageId), pager.headerBytes) ∈ pager.commitBatch := by
    rw [commitBatch]
    exact List.mem_cons_self
  rw [Pager.flush]
  dsimp only
  exact filePage_writePages_mem sound.nodup_commitBatch member _

theorem Sound.flush {pager : Pager} (sound : pager.Sound) : pager.Keeps pager.flush none where
  sound :=
    { nodup := by rw [keys_flush]; exact sound.nodup
      header := by
        intro cached found
        rw [lookup_flush, Option.map_eq_some_iff] at found
        rcases found with ⟨old, -, rfl⟩
        rfl
      clean := by
        intro id cached nonzero found _
        rw [lookup_flush, Option.map_eq_some_iff] at found
        rcases found with ⟨old, present, rfl⟩
        have seen := visible_of_lookup present
        exact sound.filePage_flush nonzero seen }
  visible := by
    intro id page nonzero _ seen
    cases found : pager.cache.lookup id with
    | none =>
      rw [visible_of_lookup_none (by rw [lookup_flush, found]; rfl)]
      exact sound.filePage_flush nonzero seen
    | some cached =>
      rw [visible_of_lookup (by rw [lookup_flush, found]; rfl)]
      rwa [visible_of_lookup found] at seen
  stored := fun _ _ new => by cases new

/-- The state from which a write drops a page: the pager, or what a commit makes of it if no
page is clean. -/
def settle (pager : Pager) : Pager :=
  if cleanPages pager.cache = [] then pager.flush else pager

theorem leastRecent_eq_none {entries : List (PageId × CachedPage)} :
    leastRecent entries = none ↔ entries = [] :=
  List.argmin_eq_none

theorem cleanPages_flush (pager : Pager) : cleanPages pager.flush.cache = pager.flush.cache := by
  rw [cleanPages, List.filter_eq_self]
  intro entry member
  rw [flush] at member
  rcases List.mem_map.mp member with ⟨old, -, rfl⟩
  rfl

theorem evictOne_eq (pager : Pager) :
    pager.evictOne = { pager.settle with cache := evictOneClean pager.settle.cache } := by
  rw [evictOne, settle]
  cases picked : leastRecent (cleanPages pager.cache) with
  | none =>
    rw [if_pos (leastRecent_eq_none.mp picked), evictOneClean, cleanPages_flush]
    dsimp only
    generalize pager.flush = flushed
    cases leastRecent flushed.cache <;> rfl
  | some victim =>
    have nonempty : cleanPages pager.cache ≠ [] := fun empty => by
      rw [leastRecent_eq_none.mpr empty] at picked
      cases picked
    rw [if_neg nonempty, evictOneClean, picked]

theorem Sound.settle {pager : Pager} (sound : pager.Sound) : pager.Keeps pager.settle none := by
  rw [Pager.settle]
  split
  · exact sound.flush
  · exact sound.keeps

theorem Sound.evictOne {pager : Pager} (sound : pager.Sound) :
    pager.Keeps pager.evictOne none := by
  rw [evictOne_eq]
  exact sound.settle.trans sound.settle.sound.evictOneClean

/-! ## The calls -/

theorem Sound.advance {pager : Pager} (sound : pager.Sound) :
    pager.Keeps pager.advance none :=
  sound.keeps.of_same rfl rfl

/-- A read changes nothing that is seen. -/
theorem Sound.readPage {pager : Pager} (sound : pager.Sound) (id : PageId) :
    pager.Keeps (pager.readPage id).2 none := by
  rw [Pager.readPage]
  dsimp only
  cases found : pager.advance.cache.lookup id with
  | some cached =>
    have hit : pager.visible id = some cached.data := visible_of_lookup found
    have settled : cached.dirty = true ∧ id ≠ 0 ∨
        cached.dirty = false ∧ (id ≠ 0 → filePage pager.file id = some cached.data) := by
      cases dirty : cached.dirty with
      | true =>
        refine .inl ⟨rfl, fun zero => ?_⟩
        rw [zero] at found
        rw [sound.header cached found] at dirty
        cases dirty
      | false => exact .inr ⟨rfl, fun nonzero => sound.clean id cached nonzero found dirty⟩
    have put := sound.advance.sound.put id { cached with tick := pager.advance.clock } settled
    exact (sound.advance.trans put).unchanged fun _ => hit
  | none =>
    dsimp only
    cases read : filePage pager.advance.file id with
    | none => exact sound.advance
    | some data =>
      have evicted : pager.Keeps { pager.advance.advance with
          cache := if pager.advance.advance.cache.length ≥ pager.advance.advance.capacity then
              Pager.evictOneClean pager.advance.advance.cache
            else pager.advance.advance.cache } none := by
        have twice := sound.advance.trans sound.advance.sound.advance
        split
        · exact twice.trans twice.sound.evictOneClean
        · exact twice
      have put := evicted.sound.put id
        { data, dirty := false, tick := pager.advance.advance.clock }
        (.inr ⟨rfl, fun _ => read⟩)
      have missing : pager.visible id = filePage pager.file id := visible_of_lookup_none found
      exact (evicted.trans put).unchanged fun _ => missing.trans read

/-- A read returns what is seen. -/
theorem readPage_of_visible {pager : Pager} {id : PageId} {page : Page}
    (seen : pager.visible id = some page) : (pager.readPage id).1 = .ok page := by
  rw [Pager.readPage]
  dsimp only
  cases found : pager.advance.cache.lookup id with
  | some cached =>
    have hit : pager.visible id = some cached.data := visible_of_lookup found
    rw [hit] at seen
    rw [← Option.some.inj seen]
  | none =>
    have missing : pager.visible id = filePage pager.file id := visible_of_lookup_none found
    have read : filePage pager.advance.file id = some page := missing ▸ seen
    dsimp only
    rw [read]

theorem writePage_ok {pager : Pager} {id : PageId} (nonzero : id ≠ 0) (data : Page) :
    (pager.writePage id data).1 = .ok () := by
  rw [Pager.writePage, if_neg nonzero]
  dsimp only
  split <;> rfl

theorem writePage_zero (pager : Pager) (data : Page) :
    pager.writePage 0 data = (.error .reservedPage, pager) :=
  if_pos rfl

theorem Sound.writePage {pager : Pager} (sound : pager.Sound) {id : PageId} (nonzero : id ≠ 0)
    (data : Page) : pager.Keeps (pager.writePage id data).2 (some (id, data)) := by
  rw [Pager.writePage, if_neg nonzero]
  dsimp only
  split
  · exact sound.advance.trans (sound.advance.sound.put id
      { data, dirty := true, tick := pager.advance.clock } (.inl ⟨rfl, nonzero⟩))
  · rw [insertCache]
    have room : pager.Keeps (if pager.advance.cache.length ≥ pager.advance.capacity then
        pager.advance.evictOne else pager.advance) none := by
      split
      · exact sound.advance.trans sound.advance.sound.evictOne
      · exact sound.advance
    exact room.trans (room.sound.put id
      { data, dirty := true, tick := pager.advance.clock } (.inl ⟨rfl, nonzero⟩))

/-- What a call that may fail puts into a page. -/
def putBy {α : Type} (result : Except StoreError α) (entry : α → PageId × Page) :
    Option (PageId × Page) :=
  match result with
  | .ok value => some (entry value)
  | .error _ => none

/-- A page that is zeroed before it is handed out. -/
theorem Sound.handOut {pager : Pager} (sound : pager.Sound) (id : PageId) :
    let handed : Except StoreError PageId × Pager :=
      match pager.writePage id Page.zero with
      | (.error error, pager) => (.error error, pager)
      | (.ok (), pager) => (.ok id, pager)
    pager.Keeps handed.2 (putBy handed.1 fun id => (id, Page.zero)) := by
  dsimp only
  by_cases zero : id = 0
  · rw [zero, writePage_zero]
    exact sound.keeps
  · have wrote := sound.writePage zero Page.zero
    have result : (pager.writePage id Page.zero).1 = .ok () := writePage_ok zero Page.zero
    cases written : pager.writePage id Page.zero with
    | mk outcome after =>
      rw [written] at wrote result
      rw [show outcome = .ok () from result]
      exact wrote

theorem Sound.alloc {pager : Pager} (sound : pager.Sound) :
    pager.Keeps pager.alloc.2 (putBy pager.alloc.1 fun id => (id, Page.zero)) := by
  rw [Pager.alloc]
  split
  · have read := sound.readPage pager.freeHead
    dsimp only
    split
    · rename_i reread
      rw [reread] at read
      exact read
    · rename_i page after reread
      rw [reread] at read
      have moved : pager.Keeps { after with freeHead := ofLe32 (slice page.bytes 0 4) } none :=
        read.of_same rfl rfl
      exact moved.trans (moved.sound.handOut pager.freeHead)
  · dsimp only
    split
    · have counted : pager.Keeps { pager with pageCount := pager.pageCount + 1 } none :=
        sound.keeps.of_same rfl rfl
      exact counted.trans (counted.sound.handOut pager.pageCount)
    · exact sound.keeps

theorem alloc_ne_zero {pager : Pager} {id : PageId} (handed : pager.alloc.1 = .ok id) :
    id ≠ 0 := by
  rw [Pager.alloc] at handed
  split at handed
  · rename_i reuse
    dsimp only at handed
    split at handed
    · cases handed
    · split at handed
      · cases handed
      · cases handed
        exact reuse
  · dsimp only at handed
    split at handed
    · split at handed
      · cases handed
      · rename_i after written
        cases handed
        intro zero
        rw [zero, writePage_zero] at written
        cases written
    · cases handed

theorem Sound.free {pager : Pager} (sound : pager.Sound) (id : PageId) :
    pager.Keeps (pager.free id).2
      (putBy (pager.free id).1 fun _ => (id, freePage pager.freeHead)) := by
  rw [Pager.free]
  split
  · exact sound.keeps
  · rename_i nonzero
    have wrote := sound.writePage nonzero (freePage pager.freeHead)
    have result : (pager.writePage id (freePage pager.freeHead)).1 = .ok () :=
      writePage_ok nonzero (freePage pager.freeHead)
    cases written : pager.writePage id (freePage pager.freeHead) with
    | mk outcome after =>
      rw [written] at wrote result
      rw [show outcome = .ok () from result]
      exact wrote.of_same rfl rfl

end Pager

/-! ## Runs -/

inductive PagerCall where
  | readPage (id : PageId)
  | writePage (id : PageId) (page : Page)
  | alloc
  | free (id : PageId)
  | flush
  | setRoot (slot : RootSlot) (value : UInt64)

/-- The latest page written to each id. -/
abbrev Contents := PageId → Option Page

namespace Pager

/-- The pager after a call. -/
def call (pager : Pager) : PagerCall → Pager
  | .readPage id => (pager.readPage id).2
  | .writePage id page => (pager.writePage id page).2
  | .alloc => pager.alloc.2
  | .free id => (pager.free id).2
  | .flush => pager.flush
  | .setRoot slot value => pager.setRoot slot value

/-- The page that a call stores: what is written, zeros when it is handed out, and a link of the
free list when it is freed. -/
def storedBy (pager : Pager) : PagerCall → Option (PageId × Page)
  | .writePage id page => putBy (pager.writePage id page).1 fun _ => (id, page)
  | .alloc => putBy pager.alloc.1 fun id => (id, Page.zero)
  | .free id => putBy (pager.free id).1 fun _ => (id, freePage pager.freeHead)
  | .readPage _ | .flush | .setRoot _ _ => none

def store (contents : Contents) : Option (PageId × Page) → Contents
  | some entry => Function.update contents entry.1 (some entry.2)
  | none => contents

/-- A run, with the latest page written to each id. -/
def run (pager : Pager) (contents : Contents) : List PagerCall → Pager × Contents
  | [] => (pager, contents)
  | next :: rest => (pager.call next).run (store contents (pager.storedBy next)) rest

theorem run_append (pager : Pager) (contents : Contents) (first second : List PagerCall) :
    pager.run contents (first ++ second) =
      (pager.run contents first).1.run (pager.run contents first).2 second := by
  induction first generalizing pager contents with
  | nil => rfl
  | cons next rest induction => exact induction _ _

/-- The pages that the file holds. -/
def fileContents (pager : Pager) : Contents := fun id =>
  if id = 0 then none else filePage pager.file id

theorem Sound.call {pager : Pager} (sound : pager.Sound) (next : PagerCall) :
    pager.Keeps (pager.call next) (pager.storedBy next) := by
  cases next with
  | readPage id => exact sound.readPage id
  | writePage id page =>
    by_cases zero : id = 0
    · rw [Pager.call, storedBy, zero, writePage_zero]
      exact sound.keeps
    · rw [storedBy, writePage_ok zero]
      exact sound.writePage zero page
  | alloc => exact sound.alloc
  | free id => exact sound.free id
  | flush => exact sound.flush
  | setRoot slot value => exact sound.keeps.of_same rfl rfl

theorem storedBy_zero (pager : Pager) (next : PagerCall) (page : Page) :
    pager.storedBy next ≠ some (0, page) := by
  intro stored
  cases next with
  | writePage id data =>
    by_cases zero : id = 0
    · rw [storedBy, zero, writePage_zero] at stored
      cases stored
    · rw [storedBy, writePage_ok zero] at stored
      exact zero (congrArg Prod.fst (Option.some.inj stored))
  | alloc =>
    rw [storedBy] at stored
    cases handed : pager.alloc.1 with
    | error error =>
      rw [handed] at stored
      cases stored
    | ok id =>
      rw [handed] at stored
      exact alloc_ne_zero handed (congrArg Prod.fst (Option.some.inj stored))
  | free id =>
    by_cases zero : id = 0
    · rw [storedBy, Pager.free, if_pos zero] at stored
      cases stored
    · rw [storedBy] at stored
      cases freed : (pager.free id).1 with
      | error error =>
        rw [freed] at stored
        cases stored
      | ok value =>
        rw [freed] at stored
        exact zero (congrArg Prod.fst (Option.some.inj stored))
  | readPage id => cases stored
  | flush => cases stored
  | setRoot slot value => cases stored

/-- The pager shows the latest page written to each id. -/
structure Shows (pager : Pager) (contents : Contents) : Prop where
  sound : pager.Sound
  header : contents 0 = none
  visible : ∀ id page, contents id = some page → pager.visible id = some page

theorem Shows.call {pager : Pager} {contents : Contents} (shows_ : pager.Shows contents)
    (next : PagerCall) :
    (pager.call next).Shows (store contents (pager.storedBy next)) := by
  have keeps := shows_.sound.call next
  refine ⟨keeps.sound, ?_, ?_⟩
  · cases put : pager.storedBy next with
    | none => exact shows_.header
    | some entry =>
      have nonzero : 0 ≠ entry.1 := fun zero =>
        pager.storedBy_zero next entry.2 (by rw [put, zero])
      rw [store, Function.update_of_ne nonzero]
      exact shows_.header
  · intro id page held
    cases put : pager.storedBy next with
    | none =>
      rw [put, store] at held
      have nonzero : id ≠ 0 := fun zero => by
        rw [zero, shows_.header] at held
        cases held
      exact keeps.visible id page nonzero (fun _ new => by rw [put] at new; cases new)
        (shows_.visible id page held)
    | some entry =>
      rw [put, store] at held
      by_cases same : id = entry.1
      · rw [same, Function.update_self] at held
        rcases keeps.stored entry.1 entry.2 put with ⟨cached, found, data⟩
        rw [same, visible_of_lookup found, data]
        exact held
      · rw [Function.update_of_ne same] at held
        have nonzero : id ≠ 0 := fun zero => by
          rw [zero, shows_.header] at held
          cases held
        refine keeps.visible id page nonzero (fun other new => ?_) (shows_.visible id page held)
        rw [put] at new
        rwa [← Option.some.inj new]

theorem Shows.run {pager : Pager} {contents : Contents} (shows_ : pager.Shows contents)
    (calls : List PagerCall) :
    (pager.run contents calls).1.Shows (pager.run contents calls).2 := by
  induction calls generalizing pager contents with
  | nil => exact shows_
  | cons next rest induction => exact induction (shows_.call next)

theorem shows_fileContents {pager : Pager} (empty : pager.cache = []) :
    pager.Shows pager.fileContents where
  sound :=
    { nodup := by rw [empty]; exact List.nodup_nil
      header := by rw [empty]; exact fun _ found => by cases found
      clean := by rw [empty]; exact fun _ _ _ found => by cases found }
  header := if_pos rfl
  visible := by
    intro id page held
    rw [fileContents] at held
    split at held
    · cases held
    · rw [visible, empty]
      exact held

/-- A page is in the cache before a call and no longer after it. -/
def Dropped (before after : Pager) (id : PageId) (cached : CachedPage) : Prop :=
  before.cache.lookup id = some cached ∧ after.cache.lookup id = none

/-- A page that a call drops is in the file as it was cached. -/
theorem Sound.filePage_of_dropped {pager : Pager} (sound : pager.Sound) {next : PagerCall}
    {id : PageId} {cached : CachedPage} (nonzero : id ≠ 0)
    (dropped : Dropped pager (pager.call next) id cached) :
    filePage (pager.call next).file id = some cached.data := by
  have keeps := sound.call next
  rw [← visible_of_lookup_none dropped.2]
  refine keeps.visible id cached.data nonzero (fun entry stored same => ?_)
    (visible_of_lookup dropped.1)
  rcases keeps.stored entry.1 entry.2 stored with ⟨again, found, -⟩
  rw [← same, dropped.2] at found
  cases found

end Pager

theorem cache_openPager {disk : Disk} {capacity : Nat} {pager : Pager}
    (opened : openPager disk capacity = some pager) : pager.cache = [] := by
  rw [openPager] at opened
  split at opened
  · rw [← Option.some.inj opened]
    rfl
  · split at opened
    · cases opened
    · split at opened
      · cases opened
      · rw [← Option.some.inj opened]

/-- The cache is transparent. After any calls on an opened pager a read returns the latest page
written to an id, or what the file held of it when it was opened; an eviction drops only clean
pages, on the write path after a commit if there was none; and a page that a call drops is in
the file as it was cached, except for the header, which reads may cache and a commit rewrites
past the cache. -/
theorem cache_transparent {disk : Disk} {capacity : Nat} {start : Pager}
    (opened : openPager disk capacity = some start) (calls : List PagerCall) :
    let reached := start.run start.fileContents calls
    (∀ id page, reached.2 id = some page → (reached.1.readPage id).1 = .ok page) ∧
    (∀ id cached,
      Pager.Dropped reached.1
        { reached.1 with cache := Pager.evictOneClean reached.1.cache } id cached →
      cached.dirty = false) ∧
    (∀ id cached, Pager.Dropped reached.1.settle reached.1.evictOne id cached →
      cached.dirty = false) ∧
    ∀ next id cached, Pager.Dropped reached.1 (reached.1.call next) id cached → id ≠ 0 →
      filePage (reached.1.call next).file id = some cached.data := by
  have shown := (Pager.shows_fileContents (cache_openPager opened)).run calls
  have clean : ∀ {pager : Pager}, pager.Sound → ∀ id cached, Pager.Dropped pager
      { pager with cache := Pager.evictOneClean pager.cache } id cached →
      cached.dirty = false := by
    intro pager sound id cached dropped
    rcases Pager.lookup_evictOneClean sound.nodup id with same | ⟨-, found, present, clean⟩
    · have missing := same.symm.trans dropped.2
      rw [dropped.1] at missing
      cases missing
    · rw [dropped.1] at present
      rwa [Option.some.inj present]
  refine ⟨fun id page held => Pager.readPage_of_visible (shown.visible id page held),
    clean shown.sound, ?_, fun next id cached dropped nonzero =>
      shown.sound.filePage_of_dropped nonzero dropped⟩
  rw [Pager.evictOne_eq]
  exact clean shown.sound.settle.sound

theorem openPager_fresh (capacity : Nat) :
    openPager ⟨[], none⟩ capacity = some (freshPager [] (max capacity 8)) := rfl

theorem cache_transparent_fresh :
    let start := freshPager [] 8
    let reached := start.run start.fileContents [.alloc, .writePage 1 (Page.ofBytes [7])]
    (∀ id page, reached.2 id = some page → (reached.1.readPage id).1 = .ok page) ∧
    (∀ id cached,
      Pager.Dropped reached.1
        { reached.1 with cache := Pager.evictOneClean reached.1.cache } id cached →
      cached.dirty = false) ∧
    (∀ id cached, Pager.Dropped reached.1.settle reached.1.evictOne id cached →
      cached.dirty = false) ∧
    ∀ next id cached, Pager.Dropped reached.1 (reached.1.call next) id cached → id ≠ 0 →
      filePage (reached.1.call next).file id = some cached.data :=
  cache_transparent (openPager_fresh 8) [.alloc, .writePage 1 (Page.ofBytes [7])]

/-! ## The cached header -/

namespace Pager

theorem file_evictOne_of_clean {pager : Pager} (clean : cleanPages pager.cache ≠ []) :
    pager.evictOne.file = pager.file := by
  rw [evictOne_eq, settle, if_neg clean]

theorem file_writePage_of_clean {pager : Pager} (clean : cleanPages pager.cache ≠ [])
    (id : PageId) (data : Page) : (pager.writePage id data).2.file = pager.file := by
  have evicted : pager.advance.evictOne.file = pager.file := file_evictOne_of_clean clean
  rw [writePage]
  split
  · rfl
  · dsimp only
    split
    · rfl
    · rw [insertCache]
      dsimp only
      split
      · exact evicted
      · rfl

/-- A page taken from the end of the file does not commit while there is a clean page. -/
theorem file_alloc_of_clean {pager : Pager} (unfreed : pager.freeHead = 0)
    (clean : cleanPages pager.cache ≠ []) : pager.alloc.2.file = pager.file := by
  have counted : cleanPages { pager with pageCount := pager.pageCount + 1 }.cache ≠ [] := clean
  have wrote := file_writePage_of_clean counted pager.pageCount Page.zero
  rw [alloc, if_neg (not_not.mpr unfreed)]
  dsimp only
  split
  · split
    · rename_i failed
      rwa [failed] at wrote
    · rename_i written
      rwa [written] at wrote
  · rfl

end Pager

/-- The header is read and fills the cache of a fresh file together with seven new pages. -/
def headerRead : Pager :=
  ((freshPager [] 8).run (freshPager [] 8).fileContents
    (.readPage 0 :: List.replicate 7 .alloc)).1

/-- The commit writes the header past the copy that the cache holds, and the next page drops
that copy. -/
theorem header_dropped :
    openPager ⟨[], none⟩ 8 = some (freshPager [] 8) ∧
    ∃ calls cached,
      let reached := (freshPager [] 8).run (freshPager [] 8).fileContents calls
      Pager.Dropped reached.1 (reached.1.call .alloc) 0 cached ∧
      filePage (reached.1.call .alloc).file 0 ≠ some cached.data := by
  have opened : openPager ⟨[], none⟩ 8 = some (freshPager [] 8) := openPager_fresh 8
  have sound : headerRead.Sound :=
    ((Pager.shows_fileContents (cache_openPager opened)).run _).sound
  have held : (headerRead.flush.cache.lookup 0).map (fun cached => cached.data.bytes.getD 8 0) =
      some 1 := by decide +kernel
  have dropped : (headerRead.flush.call .alloc).cache.lookup 0 = none := by
    rw [← Option.isNone_iff_eq_none]
    decide +kernel
  have header : headerRead.headerBytes.bytes.getD 8 0 = 8 := by decide +kernel
  have unfreed : headerRead.flush.freeHead = 0 := by decide +kernel
  have occupied : (Pager.cleanPages headerRead.flush.cache).isEmpty = false := by decide +kernel
  have clean : Pager.cleanPages headerRead.flush.cache ≠ [] := fun empty => by
    rw [empty] at occupied
    cases occupied
  have reached : ((freshPager [] 8).run (freshPager [] 8).fileContents
      (.readPage 0 :: List.replicate 7 .alloc ++ [.flush])).1 = headerRead.flush := by
    rw [Pager.run_append]
    rfl
  refine ⟨opened, .readPage 0 :: List.replicate 7 .alloc ++ [.flush], ?_⟩
  dsimp only
  rw [reached]
  cases found : headerRead.flush.cache.lookup 0 with
  | none =>
    rw [found] at held
    cases held
  | some cached =>
    refine ⟨cached, ⟨found, dropped⟩, ?_⟩
    rw [Pager.call, Pager.file_alloc_of_clean unfreed clean, sound.filePage_flush_header]
    intro same
    rw [found, Option.map_some, ← Option.some.inj same, header] at held
    cases held

end GStore.Kvstore
