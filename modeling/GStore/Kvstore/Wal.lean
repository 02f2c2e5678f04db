import GStore.Kvstore.Page
import Mathlib.Data.Finset.Card
import Mathlib.Logic.Relation

/-! # The write-ahead log

`pager.rs`: a committed batch is
`WAL_MAGIC | n | (id, page) × n | crc32 | COMMIT_MAGIC`. It is written before the main
file is touched and removed after every page is in place. -/

namespace GStore.Kvstore

/-! ## The record -/

def walMagic : Bytes := [0x47, 0x53, 0x54, 0x4F, 0x52, 0x45, 0x57, 0x4C]

def commitMagic : Bytes := [0x47, 0x53, 0x54, 0x4F, 0x52, 0x45, 0x43, 0x4D]

/-- One bit of the reflected CRC-32 (IEEE 802.3). -/
def crc32Bit (crc : UInt32) : UInt32 :=
  let mask := 0 - (crc &&& 1)
  (crc >>> 1) ^^^ (0xEDB88320 &&& mask)

def crc32 (data : Bytes) : UInt32 :=
  ~~~ data.foldl (fun crc byte => crc32Bit^[8] (crc ^^^ byte.toUInt32)) 0xFFFFFFFF

/-- One entry of the log: a page with its id. -/
def walEntry (entry : PageId × Page) : Bytes := le32 entry.1 ++ entry.2.bytes

def walEntrySize : Nat := 4 + pageSize

@[simp] theorem length_walEntry (entry : PageId × Page) :
    (walEntry entry).length = walEntrySize := by
  simp [walEntry, walEntrySize, entry.2.size_eq]

/-- Everything the checksum covers: the count and the entries. -/
def walBody (batch : List (PageId × Page)) : Bytes :=
  le32 (UInt32.ofNat batch.length) ++ batch.flatMap walEntry

/-- The buffer `write_wal` writes. -/
def walRecord (batch : List (PageId × Page)) : Bytes :=
  walMagic ++ walBody batch ++ le32 (crc32 (walBody batch)) ++ commitMagic

/-- The batch of a complete, intact, committed record. -/
def parseWal (data : Bytes) : Option (List (PageId × Page)) :=
  if data.length < 12 ∨ slice data 0 8 ≠ walMagic then
    none
  else
    let n := (ofLe32 (slice data 8 12)).toNat
    let bodyEnd := 12 + n * walEntrySize
    let total := bodyEnd + 12
    if data.length ≠ total then
      none
    else
      let crcStored := ofLe32 (slice data bodyEnd (bodyEnd + 4))
      if slice data (bodyEnd + 4) (bodyEnd + 12) ≠ commitMagic then
        none
      else if crc32 (slice data 8 bodyEnd) ≠ crcStored then
        none
      else
        some ((List.range n).map fun k =>
          let offset := 12 + k * walEntrySize
          (ofLe32 (slice data offset (offset + 4)),
            Page.ofBytes (slice data (offset + 4) (offset + 4 + pageSize))))

/-! ## The disk -/

/-- The main file, and the log beside it if there is one. -/
structure Disk where
  file : Bytes
  wal : Option Bytes

def seekWrite (file : Bytes) (entry : PageId × Page) : Bytes :=
  writeAt file (pageOffset entry.1) entry.2.bytes

/-- Seek and write each page in turn. -/
def writePages (file : Bytes) (batch : List (PageId × Page)) : Bytes :=
  batch.foldl seekWrite file

/-- Replay a committed log into the main file, then remove it. -/
def recoverWal (disk : Disk) : Disk :=
  match disk.wal with
  | none => disk
  | some data =>
    match parseWal data with
    | some batch => { file := writePages disk.file batch, wal := none }
    | none => { file := disk.file, wal := none }

/-! ## Records and their prefixes -/

theorem length_walBody (batch : List (PageId × Page)) :
    (walBody batch).length = 4 + batch.length * walEntrySize := by
  rw [walBody, List.length_append, length_le32,
    length_flatMap walEntry batch fun entry _ => length_walEntry entry]

theorem length_walRecord (batch : List (PageId × Page)) :
    (walRecord batch).length = 12 + batch.length * walEntrySize + 12 := by
  simp only [walRecord, List.length_append, length_walBody, length_le32]
  simp [walMagic, commitMagic]
  omega

/-- The count of a record can be read from any prefix that is long enough. -/
theorem count_take_walRecord {batch : List (PageId × Page)} (small : batch.length < 2 ^ 32)
    (length : Nat) (longEnough : 12 ≤ length) :
    (ofLe32 (slice ((walRecord batch).take length) 8 12)).toNat = batch.length := by
  have shorter : slice ((walRecord batch).take length) 8 12 = slice (walRecord batch) 8 12 := by
    rw [slice, slice, List.take_take, Nat.min_eq_left longEnough]
  have count : slice (walRecord batch) 8 12 = le32 (UInt32.ofNat batch.length) := by
    have grouped : walRecord batch = walMagic ++ le32 (UInt32.ofNat batch.length) ++
        (batch.flatMap walEntry ++ (le32 (crc32 (walBody batch)) ++ commitMagic)) := by
      simp [walRecord, walBody]
    rw [grouped]
    exact slice_append rfl (by simp [walMagic])
  rw [shorter, count, ofLe32_le32, UInt32.toNat_ofNat_of_lt' small]

/-- No strict prefix of a record is a record. -/
theorem parseWal_take {batch : List (PageId × Page)} (small : batch.length < 2 ^ 32)
    {length : Nat} (strict : length < (walRecord batch).length) :
    parseWal ((walRecord batch).take length) = none := by
  have taken : ((walRecord batch).take length).length = length :=
    List.length_take_of_le strict.le
  rw [parseWal]
  split
  · rfl
  · next atLeast =>
      have longEnough : 12 ≤ length := by
        rw [taken] at atLeast
        omega
      rw [length_walRecord] at strict
      simp only [count_take_walRecord small length longEnough, taken]
      rw [if_pos (by omega)]

/-- The entry at `index` of the record. -/
theorem slice_walRecord {batch : List (PageId × Page)} {index : Nat}
    (within : index < batch.length) :
    slice (walRecord batch) (12 + index * walEntrySize)
      (12 + index * walEntrySize + walEntrySize) = walEntry batch[index] := by
  have grouped : walRecord batch = (walMagic ++ le32 (UInt32.ofNat batch.length)) ++
      (batch.flatMap walEntry ++ (le32 (crc32 (walBody batch)) ++ commitMagic)) := by
    simp [walRecord, walBody]
  have front : (walMagic ++ le32 (UInt32.ofNat batch.length)).length = 12 := by
    simp [walMagic]
  have entries := length_flatMap walEntry batch fun entry _ => length_walEntry entry
  have inside : index * walEntrySize + walEntrySize ≤ (batch.flatMap walEntry).length := by
    rw [entries, ← Nat.succ_mul]
    exact Nat.mul_le_mul_right _ within
  rw [grouped, ← front, Nat.add_assoc, slice_append_right, slice_append_left _ _ inside]
  exact slice_flatMap walEntry batch index within fun entry _ => length_walEntry entry

/-- The entry at `index`, read the way `parse_wal` does. -/
theorem read_walRecord {batch : List (PageId × Page)} {index : Nat}
    (within : index < batch.length) :
    (ofLe32 (slice (walRecord batch) (12 + index * walEntrySize)
        (12 + index * walEntrySize + 4)),
      Page.ofBytes (slice (walRecord batch) (12 + index * walEntrySize + 4)
        (12 + index * walEntrySize + 4 + pageSize))) = batch[index] := by
  have entry := slice_walRecord within
  have id : slice (walRecord batch) (12 + index * walEntrySize)
      (12 + index * walEntrySize + 4) = le32 batch[index].1 := by
    have inner := slice_slice (walRecord batch) (12 + index * walEntrySize)
      (12 + index * walEntrySize + walEntrySize) 0 4 (by simp [walEntrySize])
    rw [Nat.add_zero, entry] at inner
    rw [← inner, walEntry]
    exact List.take_left' (length_le32 _)
  have page : slice (walRecord batch) (12 + index * walEntrySize + 4)
      (12 + index * walEntrySize + 4 + pageSize) = batch[index].2.bytes := by
    have inner := slice_slice (walRecord batch) (12 + index * walEntrySize)
      (12 + index * walEntrySize + walEntrySize) 4 walEntrySize le_rfl
    rw [entry, slice, List.take_of_length_le (length_walEntry _).le, walEntry,
      List.drop_left' (length_le32 _)] at inner
    rw [inner, Nat.add_assoc _ 4 pageSize]
    rfl
  rw [id, page, ofLe32_le32, Page.ofBytes_bytes]

/-- A complete record gives back its batch. -/
theorem parseWal_walRecord {batch : List (PageId × Page)} (small : batch.length < 2 ^ 32) :
    parseWal (walRecord batch) = some batch := by
  have whole : (walRecord batch).take (walRecord batch).length = walRecord batch :=
    List.take_length
  have length := length_walRecord batch
  have magic : slice (walRecord batch) 0 8 = walMagic := by
    simp only [walRecord, List.append_assoc]
    exact List.take_left' rfl
  have count := count_take_walRecord small (walRecord batch).length (by omega)
  rw [whole] at count
  have bodyEnd : (walMagic ++ walBody batch).length = 12 + batch.length * walEntrySize := by
    rw [List.length_append, length_walBody]
    simp [walMagic]
    omega
  have body : slice (walRecord batch) 8 (12 + batch.length * walEntrySize) = walBody batch := by
    have grouped : walRecord batch = walMagic ++ walBody batch ++
        (le32 (crc32 (walBody batch)) ++ commitMagic) := by
      simp [walRecord]
    rw [grouped]
    exact slice_append rfl (by rw [← bodyEnd, List.length_append])
  have checksum : slice (walRecord batch) (12 + batch.length * walEntrySize)
      (12 + batch.length * walEntrySize + 4) = le32 (crc32 (walBody batch)) := by
    rw [walRecord]
    exact slice_append bodyEnd (by rw [bodyEnd, length_le32])
  have marker : slice (walRecord batch) (12 + batch.length * walEntrySize + 4)
      (12 + batch.length * walEntrySize + 12) = commitMagic := by
    have grouped : walRecord batch =
        (walMagic ++ walBody batch ++ le32 (crc32 (walBody batch))) ++ commitMagic ++ [] := by
      simp [walRecord]
    rw [grouped]
    apply slice_append
    · rw [List.length_append, bodyEnd, length_le32]
    · rw [List.length_append, bodyEnd, length_le32]
      rfl
  rw [parseWal]
  rw [if_neg (by rw [magic]; simp; omega)]
  simp only [count]
  rw [if_neg (by rw [length]; simp), if_neg (by rw [marker]; simp), body, checksum,
    ofLe32_le32, if_neg (by simp)]
  congr 1
  apply List.ext_getElem
  · simp
  · intro index leftBound rightBound
    rw [List.getElem_map, List.getElem_range]
    exact read_walRecord rightBound

/-! ## Writing pages in any order -/

theorem length_writePages (batch : List (PageId × Page)) : ∀ file : Bytes,
    file.length ≤ (writePages file batch).length ∧
    (∀ entry ∈ batch, pageOffset entry.1 + pageSize ≤ (writePages file batch).length) ∧
    ∀ bound, file.length ≤ bound →
      (∀ entry ∈ batch, pageOffset entry.1 + pageSize ≤ bound) →
      (writePages file batch).length ≤ bound := by
  induction batch with
  | nil =>
    intro file
    refine ⟨le_refl _, ?_, fun bound within _ => within⟩
    intro entry member
    cases member
  | cons first rest induction =>
    intro file
    rcases induction (seekWrite file first) with ⟨grows, reaches, least⟩
    rw [seekWrite, length_writeAt, first.2.size_eq] at grows least
    refine ⟨le_trans (le_max_left _ _) grows, ?_, ?_⟩
    · intro entry member
      rcases List.mem_cons.mp member with same | further
      · rw [same]
        exact le_trans (le_max_right _ _) grows
      · exact reaches entry further
    · intro bound within fits
      exact least bound (max_le within (fits first List.mem_cons_self))
        fun entry member => fits entry (List.mem_cons_of_mem _ member)

/-- The byte at `position` once the pages are written: the last page that covers it
decides. -/
theorem getD_writePages (batch : List (PageId × Page)) (position : Nat) : ∀ file : Bytes,
    (writePages file batch).getD position 0 =
      match batch.reverse.find? fun entry =>
        decide (pageOffset entry.1 ≤ position ∧ position < pageOffset entry.1 + pageSize) with
      | some entry => entry.2.bytes.getD (position - pageOffset entry.1) 0
      | none => file.getD position 0 := by
  induction batch with
  | nil => intro file; rfl
  | cons first rest induction =>
    intro file
    rw [writePages, List.foldl_cons, ← writePages, induction, List.reverse_cons,
      List.find?_append]
    cases found : rest.reverse.find? fun entry =>
      decide (pageOffset entry.1 ≤ position ∧ position < pageOffset entry.1 + pageSize) with
    | some entry => rfl
    | none =>
      simp only [seekWrite, getD_writeAt, first.2.size_eq, Option.none_or]
      by_cases covers : pageOffset first.1 ≤ position ∧
          position < pageOffset first.1 + pageSize
      · simp [covers]
      · simp [covers]

/-- Pages of a batch that are already in place do not change what writing the whole
batch gives. -/
theorem writePages_writePages {file : Bytes} {applied batch : List (PageId × Page)}
    (subset : ∀ entry ∈ applied, entry ∈ batch) :
    writePages (writePages file applied) batch = writePages file batch := by
  rcases length_writePages applied file with ⟨appliedGrows, -, appliedLeast⟩
  rcases length_writePages batch file with ⟨grows, reaches, least⟩
  rcases length_writePages batch (writePages file applied) with
    ⟨growsAgain, reachesAgain, leastAgain⟩
  apply file_ext
  · apply le_antisymm
    · apply leastAgain _ _ reaches
      exact appliedLeast _ grows fun entry member => reaches entry (subset entry member)
    · exact least _ (le_trans appliedGrows growsAgain) reachesAgain
  · intro position
    rw [getD_writePages batch position (writePages file applied),
      getD_writePages batch position file]
    cases found : batch.reverse.find? fun entry =>
      decide (pageOffset entry.1 ≤ position ∧ position < pageOffset entry.1 + pageSize) with
    | some entry => rfl
    | none =>
      have uncovered : applied.reverse.find? (fun entry =>
          decide (pageOffset entry.1 ≤ position ∧ position < pageOffset entry.1 + pageSize)) =
          none := by
        rw [List.find?_eq_none] at found ⊢
        intro entry member
        exact found entry (List.mem_reverse.mpr (subset entry (List.mem_reverse.mp member)))
      simp only [getD_writePages, uncovered]

/-! ## Crashes -/

/-- What one `flush` commits: the header and the dirty pages, each once. `alloc` never
hands out the last page id. -/
structure Batch where
  entries : List (PageId × Page)
  ids_nodup : (entries.map Prod.fst).Nodup
  ids_lt : ∀ entry ∈ entries, entry.1.toNat < 2 ^ 32 - 1

theorem Batch.length_lt (batch : Batch) : batch.entries.length < 2 ^ 32 := by
  have distinct : (batch.entries.map fun entry => entry.1.toNat).Nodup := by
    have inner := batch.ids_nodup.map fun _ _ same => UInt32.toNat_inj.mp same
    rwa [List.map_map] at inner
  have inside : (batch.entries.map fun entry => entry.1.toNat).toFinset ⊆
      Finset.range (2 ^ 32 - 1) := by
    intro id member
    rcases List.mem_map.mp (List.mem_toFinset.mp member) with ⟨entry, entryMember, rfl⟩
    exact Finset.mem_range.mpr (batch.ids_lt entry entryMember)
  have card := Finset.card_le_card inside
  rw [List.toFinset_card_of_nodup distinct, List.length_map, Finset.card_range] at card
  omega

/-- The disk after a crash inside `flush`, which found `file` and no log. -/
inductive FlushCrash (file : Bytes) (batch : Batch) : Disk → Prop
  | untouched : FlushCrash file batch ⟨file, none⟩
  /-- Inside `write_wal`, before the log is synced. -/
  | logging (length : Nat) (strict : length < (walRecord batch.entries).length) :
      FlushCrash file batch ⟨file, some ((walRecord batch.entries).take length)⟩
  /-- While the pages are written, in whatever order they reach the disk. -/
  | applying (applied : List (PageId × Page))
      (subset : ∀ entry ∈ applied, entry ∈ batch.entries) :
      FlushCrash file batch
        ⟨writePages file applied, some (walRecord batch.entries)⟩
  | cleared : FlushCrash file batch ⟨writePages file batch.entries, none⟩

/-- One run of `recover_wal`, completed or stopped after some pages. -/
inductive Recovery : Disk → Disk → Prop
  | completed (disk : Disk) : Recovery disk (recoverWal disk)
  | interrupted {file data : Bytes} {batch : List (PageId × Page)}
      (parsed : parseWal data = some batch) (applied : List (PageId × Page))
      (subset : ∀ entry ∈ applied, entry ∈ batch) :
      Recovery ⟨file, some data⟩ ⟨writePages file applied, some data⟩

variable {file : Bytes} {batch : Batch} {disk after : Disk}

theorem FlushCrash.recoverWal (crash : FlushCrash file batch disk) :
    recoverWal disk = ⟨file, none⟩ ∨
    recoverWal disk = ⟨writePages file batch.entries, none⟩ := by
  cases crash with
  | untouched => exact .inl rfl
  | logging length strict =>
    left
    simp [Kvstore.recoverWal, parseWal_take batch.length_lt strict]
  | applying applied subset =>
    right
    simp [Kvstore.recoverWal, parseWal_walRecord batch.length_lt, writePages_writePages subset]
  | cleared => exact .inr rfl

/-- Recovery never leaves the states a crash of `flush` can leave. -/
theorem FlushCrash.recovery (crash : FlushCrash file batch disk)
    (recovery : Recovery disk after) : FlushCrash file batch after := by
  cases recovery with
  | completed =>
    rcases crash.recoverWal with before | complete
    · rw [before]
      exact .untouched
    · rw [complete]
      exact .cleared
  | interrupted parsed applied subset =>
    cases crash with
    | logging length strict =>
      rw [parseWal_take batch.length_lt strict] at parsed
      cases parsed
    | applying earlier earlierSubset =>
      rw [parseWal_walRecord batch.length_lt] at parsed
      cases parsed
      have both : writePages (writePages file earlier) applied =
          writePages file (earlier ++ applied) := by
        simp [writePages]
      rw [both]
      apply FlushCrash.applying
      intro entry member
      rcases List.mem_append.mp member with old | new
      · exact earlierSubset entry old
      · exact subset entry new

theorem FlushCrash.recoveries (crash : FlushCrash file batch disk)
    (runs : Relation.ReflTransGen Recovery disk after) : FlushCrash file batch after := by
  induction runs with
  | refl => exact crash
  | tail _ recovery induction => exact induction.recovery recovery

/-- Crash atomicity of `flush`. No strict prefix of a log record parses, and a complete
one gives back its batch. Whatever the crash left, and however many recoveries were
themselves interrupted, the recovery that completes leaves no log and the file as it
was before the flush or with the whole batch written. -/
theorem flush_crash_atomic (file : Bytes) (batch : Batch) :
    (∀ length < (walRecord batch.entries).length,
      parseWal ((walRecord batch.entries).take length) = none) ∧
    parseWal (walRecord batch.entries) = some batch.entries ∧
    ∀ crashed interrupted, FlushCrash file batch crashed →
      Relation.ReflTransGen Recovery crashed interrupted →
      recoverWal interrupted = ⟨file, none⟩ ∨
      recoverWal interrupted = ⟨writePages file batch.entries, none⟩ := by
  refine ⟨?_, parseWal_walRecord batch.length_lt, ?_⟩
  · intro length strict
    exact parseWal_take batch.length_lt strict
  · intro crashed interrupted crash runs
    exact (crash.recoveries runs).recoverWal

/-! ## The life of a file -/

end GStore.Kvstore
