import GStore.Kvstore.Page
import Mathlib.Logic.Function.Basic
import Mathlib.Data.List.Nodup
import Mathlib.Data.List.Perm.Subperm

/-! # Programs over pages

The structures above the pager reach it only through a few calls. A `PageM` program
is the tree of those calls, so that one program can be run against the pager itself
and against the heap of live pages that the pager stands for. -/

namespace GStore.Kvstore

/-- Number of `u64` root slots in the header. -/
def nroots : Nat := 24

abbrev RootSlot := Fin nroots

instance neZero_nroots : NeZero nroots := ⟨by decide⟩

/-- What a call can stop with. -/
inductive StoreError where
  /-- `page 0 is reserved for header` -/
  | reservedPage
  /-- `page count overflow` -/
  | pageCountOverflow
  /-- `read_exact` met the end of the file. -/
  | unexpectedEof
  /-- `B+ tree entry (..-byte key + ..-byte value) too large for a page` -/
  | entryTooLarge (key value : Nat)
  /-- `B+ tree separator key too large to fit in a page` -/
  | separatorTooLarge
  /-- `IvArray key .. exceeds addressable capacity` -/
  | keyBeyondCapacity (key : UInt32)
  /-- `IvArray value too large` -/
  | valueTooLarge
  /-- `IvArray: corrupt slot tag .. for key ..` -/
  | corruptSlot (tag : UInt8) (key : UInt32)
  /-- A panic: an index past the end of a buffer. -/
  | panic
  /-- The access of a page that is not allocated. The pager does not check it. -/
  | unallocated
  /-- More steps than there are pages: the source would not return. -/
  | endless
deriving DecidableEq, Repr

inductive PageM (α : Type) : Type where
  | pure (result : α)
  | fail (error : StoreError)
  | readPage (id : PageId) (next : Page → PageM α)
  | writePage (id : PageId) (page : Page) (next : PageM α)
  | alloc (next : PageId → PageM α)
  | free (id : PageId) (next : PageM α)
  | root (slot : RootSlot) (next : UInt64 → PageM α)
  | setRoot (slot : RootSlot) (value : UInt64) (next : PageM α)

namespace PageM

variable {α β γ : Type}

@[grind =] def bind : PageM α → (α → PageM β) → PageM β
  | .pure result, continue_ => continue_ result
  | .fail error, _ => .fail error
  | .readPage id next, continue_ => .readPage id fun page => (next page).bind continue_
  | .writePage id page next, continue_ => .writePage id page (next.bind continue_)
  | .alloc next, continue_ => .alloc fun id => (next id).bind continue_
  | .free id next, continue_ => .free id (next.bind continue_)
  | .root slot next, continue_ => .root slot fun value => (next value).bind continue_
  | .setRoot slot value next, continue_ => .setRoot slot value (next.bind continue_)

instance : Monad PageM where
  pure := .pure
  bind := bind

end PageM

/-! ## The pager's calls -/

def readPage (id : PageId) : PageM Page := .readPage id .pure

def writePage (id : PageId) (page : Page) : PageM Unit := .writePage id page (.pure ())

def alloc : PageM PageId := .alloc .pure

def free (id : PageId) : PageM Unit := .free id (.pure ())

def root (slot : RootSlot) : PageM UInt64 := .root slot .pure

def setRoot (slot : RootSlot) (value : UInt64) : PageM Unit := .setRoot slot value (.pure ())

/-- No chain of distinct pages is longer. -/
def pageLimit : Nat := 2 ^ 32

theorem length_le_pageLimit {pages : List PageId} (nodup : pages.Nodup) :
    pages.length ≤ pageLimit := by
  have distinct : (pages.map UInt32.toNat).Nodup :=
    nodup.map fun left right same => UInt32.toNat_inj.mp same
  have bounded : pages.map UInt32.toNat ⊆ List.range pageLimit := by
    intro number member
    rcases List.mem_map.mp member with ⟨page, -, same⟩
    rw [List.mem_range, ← same]
    exact page.toNat_lt
  have bound := (List.subperm_of_subset distinct bounded).length_le
  simpa using bound

/-- A Rust index or `unwrap`: panics on `none`. -/
def orPanic {α : Type} : Option α → PageM α
  | some value => .pure value
  | none => .fail .panic

/-! ## The heap of live pages -/

/-- What the pager stands for: the pages that are allocated, the pages that `alloc`
will hand out, in that order, and the root slots. -/
structure Heap where
  page : PageId → Option Page
  supply : List PageId
  roots : RootSlot → UInt64

/-- The supply is what is not allocated, each page once, without the header. -/
structure Heap.Valid (heap : Heap) : Prop where
  supply_nodup : heap.supply.Nodup
  supply_free : ∀ id ∈ heap.supply, heap.page id = none
  supply_ne_zero : ∀ id ∈ heap.supply, id ≠ 0
  header_free : heap.page 0 = none

namespace PageM

variable {α β : Type} {program : PageM α} {continue_ : α → PageM β} {error : StoreError}

@[grind =] def run : PageM α → Heap → Except StoreError α × Heap
  | .pure result, heap => (.ok result, heap)
  | .fail error, heap => (.error error, heap)
  | .readPage id next, heap =>
    match heap.page id with
    | some page => (next page).run heap
    | none => (.error .unallocated, heap)
  | .writePage id page next, heap =>
    match heap.page id with
    | some _ => next.run { heap with page := Function.update heap.page id (some page) }
    | none => (.error .unallocated, heap)
  | .alloc next, heap =>
    match heap.supply with
    | [] => (.error .pageCountOverflow, heap)
    | id :: rest =>
      (next id).run
        { heap with
          page := Function.update heap.page id (some Page.zero)
          supply := rest }
  | .free id next, heap =>
    match heap.page id with
    | some _ =>
      next.run
        { heap with
          page := Function.update heap.page id none
          supply := id :: heap.supply }
    | none => (.error .unallocated, heap)
  | .root slot next, heap => (next (heap.roots slot)).run heap
  | .setRoot slot value next, heap =>
    next.run { heap with roots := Function.update heap.roots slot value }

/-- The program returns `result` and leaves `after`. -/
def Returns (program : PageM α) (heap : Heap) (result : α) (after : Heap) : Prop :=
  program.run heap = (.ok result, after)

/-- The program stops with `error`. -/
def Fails (program : PageM α) (heap : Heap) (error : StoreError) : Prop :=
  ∃ after, program.run heap = (.error error, after)

/-- The program stops with `error` and leaves `after`. -/
def Stops (program : PageM α) (heap : Heap) (error : StoreError) (after : Heap) : Prop :=
  program.run heap = (.error error, after)

@[simp] theorem run_pure (result : α) (heap : Heap) :
    (Pure.pure result : PageM α).run heap = (.ok result, heap) := rfl

@[simp] theorem run_fail (error : StoreError) (heap : Heap) :
    (fail error : PageM α).run heap = (.error error, heap) := rfl

theorem run_bind (program : PageM α) (continue_ : α → PageM β) : ∀ heap,
    (program >>= continue_).run heap =
      match program.run heap with
      | (.ok result, after) => (continue_ result).run after
      | (.error error, after) => (.error error, after) := by
  change ∀ heap, (program.bind continue_).run heap = _
  induction program with
  | pure result => intro heap; rfl
  | fail error => intro heap; rfl
  | readPage id next induction =>
    intro heap
    simp only [bind, run]
    split
    · apply induction
    · rfl
  | writePage id page next induction =>
    intro heap
    simp only [bind, run]
    split
    · apply induction
    · rfl
  | alloc next induction =>
    intro heap
    simp only [bind, run]
    split
    · rfl
    · apply induction
  | free id next induction =>
    intro heap
    simp only [bind, run]
    split
    · apply induction
    · rfl
  | root slot next induction =>
    intro heap
    simp only [bind, run]
    apply induction
  | setRoot slot value next induction =>
    intro heap
    simp only [bind, run]
    apply induction

/-- Every program keeps the heap valid. -/
theorem run_valid (program : PageM α) : ∀ heap : Heap, heap.Valid → (program.run heap).2.Valid := by
  induction program with
  | pure result => intro heap valid; exact valid
  | fail error => intro heap valid; exact valid
  | readPage id next induction =>
    intro heap valid
    rw [run]
    split
    · exact induction _ heap valid
    · exact valid
  | writePage id page next induction =>
    intro heap valid
    rw [run]
    split
    · next old live =>
        apply induction
        refine ⟨valid.supply_nodup, ?_, valid.supply_ne_zero, ?_⟩
        · intro other member
          have free := valid.supply_free other member
          have apart : other ≠ id := by
            intro same
            rw [same, live] at free
            cases free
          exact (Function.update_of_ne apart _ _).trans free
        · have apart : (0 : PageId) ≠ id := by
            intro same
            rw [← same, valid.header_free] at live
            cases live
          exact (Function.update_of_ne apart _ _).trans valid.header_free
    · exact valid
  | alloc next induction =>
    intro heap valid
    rw [run]
    split
    · exact valid
    · next id rest supply =>
        apply induction
        have nodup := valid.supply_nodup
        rw [supply] at nodup
        refine ⟨(List.nodup_cons.mp nodup).2, ?_, ?_, ?_⟩
        · intro other member
          have apart : other ≠ id := by
            intro same
            exact (List.nodup_cons.mp nodup).1 (same ▸ member)
          refine (Function.update_of_ne apart _ _).trans (valid.supply_free other ?_)
          rw [supply]
          exact List.mem_cons_of_mem id member
        · intro other member
          apply valid.supply_ne_zero
          rw [supply]
          exact List.mem_cons_of_mem id member
        · have apart : id ≠ 0 := by
            apply valid.supply_ne_zero
            rw [supply]
            exact List.mem_cons_self
          exact (Function.update_of_ne apart.symm _ _).trans valid.header_free
  | free id next induction =>
    intro heap valid
    rw [run]
    split
    · next old live =>
        apply induction
        have fresh : id ∉ heap.supply := by
          intro member
          rw [valid.supply_free id member] at live
          cases live
        have apart : id ≠ 0 := by
          intro same
          rw [same, valid.header_free] at live
          cases live
        refine ⟨List.nodup_cons.mpr ⟨fresh, valid.supply_nodup⟩, ?_, ?_, ?_⟩
        · intro other member
          rcases List.mem_cons.mp member with same | further
          · rw [same]
            exact Function.update_self _ _ _
          · have different : other ≠ id := fun same => fresh (same ▸ further)
            exact (Function.update_of_ne different _ _).trans
              (valid.supply_free other further)
        · intro other member
          rcases List.mem_cons.mp member with same | further
          · rw [same]
            exact apart
          · exact valid.supply_ne_zero other further
        · exact (Function.update_of_ne apart.symm _ _).trans valid.header_free
    · exact valid
  | root slot next induction =>
    intro heap valid
    exact induction _ heap valid
  | setRoot slot value next induction =>
    intro heap valid
    exact induction _ ⟨valid.1, valid.2, valid.3, valid.4⟩

theorem Returns.valid {heap after : Heap} {result : α} (returns : program.Returns heap result after)
    (valid : heap.Valid) : after.Valid := by
  have kept := program.run_valid heap valid
  rw [Returns] at returns
  rwa [returns] at kept

theorem Returns.bind {heap middle after : Heap} {first : α} {second : β}
    (left : program.Returns heap first middle)
    (right : (continue_ first).Returns middle second after) :
    (program >>= continue_).Returns heap second after := by
  rw [Returns] at left
  rw [Returns, run_bind, left]
  exact right

theorem Returns.bind_fails {heap middle : Heap} {first : α}
    (left : program.Returns heap first middle) (right : (continue_ first).Fails middle error) :
    (program >>= continue_).Fails heap error := by
  rw [Returns] at left
  rcases right with ⟨after, right⟩
  refine ⟨after, ?_⟩
  rw [run_bind, left]
  exact right

theorem Fails.bind {heap : Heap} (fails : program.Fails heap error) (continue_ : α → PageM β) :
    (program >>= continue_).Fails heap error := by
  rcases fails with ⟨after, fails⟩
  refine ⟨after, ?_⟩
  rw [run_bind, fails]

theorem Returns.bind_stops {heap middle after : Heap} {first : α}
    (left : program.Returns heap first middle) (right : (continue_ first).Stops middle error after) :
    (program >>= continue_).Stops heap error after := by
  rw [Returns] at left
  rw [Stops, run_bind, left]
  exact right

theorem Stops.bind {heap after : Heap} (stops : program.Stops heap error after)
    (continue_ : α → PageM β) : (program >>= continue_).Stops heap error after := by
  rw [Stops] at stops
  rw [Stops, run_bind, stops]

theorem Stops.valid {heap after : Heap} (stops : program.Stops heap error after)
    (valid : heap.Valid) : after.Valid := by
  have kept := program.run_valid heap valid
  rw [Stops] at stops
  rwa [stops] at kept

theorem Returns.unique {heap left right : Heap} {first second : α}
    (leftReturns : program.Returns heap first left)
    (rightReturns : program.Returns heap second right) : first = second ∧ left = right := by
  rw [Returns] at leftReturns rightReturns
  rw [leftReturns] at rightReturns
  simpa using rightReturns

end PageM

/-! ## What each call does to the heap -/

variable {heap : Heap}

/-- The heap with `page` at `id`. -/
def Heap.set (heap : Heap) (id : PageId) (page : Page) : Heap :=
  { heap with page := Function.update heap.page id (some page) }

theorem returns_pure {α : Type} (result : α) (heap : Heap) :
    (pure result : PageM α).Returns heap result heap := rfl

theorem returns_readPage {id : PageId} {page : Page} (live : heap.page id = some page) :
    (readPage id).Returns heap page heap := by
  simp [readPage, PageM.Returns, PageM.run, live]

theorem returns_writePage {id : PageId} {old : Page} (live : heap.page id = some old)
    (page : Page) : (writePage id page).Returns heap () (heap.set id page) := by
  simp [writePage, PageM.Returns, PageM.run, live, Heap.set]

theorem returns_alloc {id : PageId} {rest : List PageId} (supply : heap.supply = id :: rest) :
    alloc.Returns heap id { heap.set id Page.zero with supply := rest } := by
  simp [alloc, PageM.Returns, PageM.run, supply, Heap.set]

theorem fails_alloc (supply : heap.supply = []) : alloc.Fails heap .pageCountOverflow := by
  exact ⟨heap, by simp [alloc, PageM.run, supply]⟩

theorem stops_alloc (supply : heap.supply = []) : alloc.Stops heap .pageCountOverflow heap := by
  simp [alloc, PageM.Stops, PageM.run, supply]

theorem returns_free {id : PageId} {old : Page} (live : heap.page id = some old) :
    (free id).Returns heap ()
      { heap with page := Function.update heap.page id none, supply := id :: heap.supply } := by
  simp [free, PageM.Returns, PageM.run, live]

theorem returns_root (slot : RootSlot) : (root slot).Returns heap (heap.roots slot) heap := rfl

theorem returns_setRoot (slot : RootSlot) (value : UInt64) :
    (setRoot slot value).Returns heap ()
      { heap with roots := Function.update heap.roots slot value } := rfl

end GStore.Kvstore
