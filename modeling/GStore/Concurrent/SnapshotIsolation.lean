import GStore.Concurrent.Ledger

/-! # Snapshot isolation and serializable point reads

The properties are proved of the ledger, by one invariant over the calls of a
run, and carried to the database through the simulation. -/

namespace GStore.Concurrent

open Db Dict Store

/-! ## What a buffered write does to a graph -/

/-- The default graph, as a set of triples. -/
def Snapshot.graph (snapshot : Snapshot) : Set Triple :=
  { triple | snapshot.contains triple = true }

namespace TxnOp

def onGraph (graph : Set Triple) : TxnOp → Set Triple
  | .insert written => graph ∪ { triple | triple.SameKeys written.toTriple }
  | .delete written => graph \ { triple | triple.SameKeys written.toTriple }

end TxnOp

/-- The keys a list of writes touches. -/
def written (ops : List TxnOp) : Finset Text := (ops.map fun op => op.triple.key).toFinset

theorem mem_graph_apply {db applied : Database} {op : TxnOp} (result : op.apply db = some applied)
    (triple : Triple) :
    applied.contains triple = true ↔
      triple ∈ op.onGraph { triple | db.contains triple = true } := by
  cases op with
  | insert written =>
    rcases Option.map_eq_some_iff.mp result with ⟨⟨inserted, changed⟩, found, rfl⟩
    rw [Database.contains_insertTriple found]
    simp [TxnOp.onGraph, or_comm]
  | delete written =>
    cases Option.some.inj result
    rw [Database.contains_removeTriple]
    simp [TxnOp.onGraph, and_comm]

theorem mem_graph_foldlM {ops : List TxnOp} {db applied : Database}
    (result : ops.foldlM TxnOp.apply db = some applied) (triple : Triple) :
    applied.contains triple = true ↔
      triple ∈ ops.foldl TxnOp.onGraph { triple | db.contains triple = true } := by
  induction ops generalizing db with
  | nil =>
    cases Option.some.inj result
    rfl
  | cons op rest induction =>
    rw [List.foldlM_cons, Option.bind_eq_bind, Option.bind_eq_some_iff] at result
    rcases result with ⟨next, first, others⟩
    rw [induction others, List.foldl_cons]
    have graphs : { triple | next.contains triple = true } =
        op.onGraph { triple | db.contains triple = true } :=
      Set.ext (mem_graph_apply first)
    rw [graphs]

/-- The overlay of a transaction follows its writes on the graph. -/
theorem mem_foldl_onGraph (ops : List TxnOp) (graph : Set Triple) (triple : RdfTriple)
    (present : Bool) (agrees : present = true ↔ triple.toTriple ∈ graph) :
    triple.toTriple ∈ ops.foldl TxnOp.onGraph graph ↔
      ops.foldl (Txn.overlay triple.key) present = true := by
  induction ops generalizing graph present with
  | nil => exact agrees.symm
  | cons op rest induction =>
    rw [List.foldl_cons, List.foldl_cons]
    apply induction
    cases op with
    | insert written | delete written =>
      by_cases same : written = triple
      · subst same
        simp [Txn.overlay, TxnOp.onGraph, RdfTriple.sameKeys_iff]
      · have different : written.key ≠ triple.key := fun equal =>
          same (RdfTriple.key_injective equal)
        simp [Txn.overlay, TxnOp.onGraph, RdfTriple.sameKeys_iff, different, agrees,
          Ne.symm same]

/-- Writes to other keys leave a triple alone. -/
theorem foldl_overlay_of_notMem {ops : List TxnOp} {key : Text} (absent : key ∉ written ops)
    (present : Bool) : ops.foldl (Txn.overlay key) present = present := by
  induction ops generalizing present with
  | nil => rfl
  | cons op rest induction =>
    have parts : key ≠ op.triple.key ∧ key ∉ written rest := by
      simpa [written, not_or] using absent
    rw [List.foldl_cons, induction parts.2]
    cases op with
    | insert triple => exact if_neg (Ne.symm parts.1)
    | delete triple => exact if_neg (Ne.symm parts.1)

theorem contains_foldlM_of_notMem {ops : List TxnOp} {db applied : Database}
    (result : ops.foldlM TxnOp.apply db = some applied) {triple : RdfTriple}
    (absent : triple.key ∉ written ops) :
    applied.contains triple.toTriple = db.contains triple.toTriple := by
  rw [Bool.eq_iff_iff, mem_graph_foldlM result,
    mem_foldl_onGraph ops _ triple (db.contains triple.toTriple) Iff.rfl,
    foldl_overlay_of_notMem absent]

/-! ## The invariant of a run -/

/-- A call that commits a transaction at a version. -/
structure Succeeds (handles : List (Option Handle)) (action : Action) (output : Output)
    (handle : Nat) (txn : Txn) (version : Nat) : Prop where
  action : action = .commit handle
  output : output = .committed version
  found : txnAt handles handle = some txn

/-- What is known of an open transaction: its key set is that of its writes, a
triple that nobody wrote since it started is as it was, and its read set covers
the tracked reads it has made. -/
structure Tracked (events : List (Event Ledger Action Output)) (ledger : Ledger) (handle : Nat)
    (txn : Txn) : Prop where
  start_le : txn.startVersion ≤ ledger.current.version
  keys : txn.keys = written txn.ops
  unchanged : ledger.lastLegacyVersion ≤ txn.startVersion → ∀ triple : RdfTriple,
    (∀ entry ∈ ledger.commits, txn.startVersion < entry.1 → triple.key ∉ entry.2) →
    ledger.current.contains triple.toTriple = txn.snapshot.contains triple.toTriple
  reads : ∀ event ∈ events, ∀ triple, event.action = .read handle triple →
    triple.key ∈ txn.reads ∧ ∃ earlier, txnAt event.before.handles handle = some earlier ∧
      earlier.snapshot = txn.snapshot ∧ earlier.level = txn.level

structure Consistent (events : List (Event Ledger Action Output)) (ledger : Ledger) : Prop where
  published : ledger.current.db = ledger.writer
  legacy_le : ledger.lastLegacyVersion ≤ ledger.current.version
  commits : ∀ event ∈ events, ∀ handle txn version,
    Succeeds event.before.handles event.action event.output handle txn version →
      (version, written txn.ops) ∈ ledger.commits
  legacies : ∀ event ∈ events, ∀ db, event.action = .legacyWrite db →
    event.after.current.version ≤ ledger.lastLegacyVersion
  opened : ∀ event ∈ events, ∀ handle triple, event.action = .read handle triple →
    handle < ledger.handles.length
  txns : ∀ handle txn, txnAt ledger.handles handle = some txn → Tracked events ledger handle txn

theorem txnAt_lt {handles : List (Option Handle)} {handle : Nat} {txn : Txn}
    (found : txnAt handles handle = some txn) : handle < handles.length :=
  (List.getElem?_eq_some_iff.mp (getElem?_of_txnAt found)).1

theorem txnAt_append {handles : List (Option Handle)} {opened : Option Handle} {handle : Nat}
    {txn : Txn} (found : txnAt (handles ++ [opened]) handle = some txn) :
    txnAt handles handle = some txn ∨ (handle = handles.length ∧ opened = some (.txn txn)) := by
  have entry := getElem?_of_txnAt found
  by_cases inside : handle < handles.length
  · rw [List.getElem?_append_left inside] at entry
    exact .inl (by simp [txnAt, entry])
  · rw [List.getElem?_append_right (Nat.le_of_not_lt inside), List.getElem?_singleton] at entry
    split at entry
    · exact .inr ⟨by omega, Option.some.inj entry⟩
    · cases entry

theorem txnAt_set {handles : List (Option Handle)} {slot : Option Handle} {index handle : Nat}
    {txn : Txn} (found : txnAt (handles.set index slot) handle = some txn) :
    (handle ≠ index ∧ txnAt handles handle = some txn) ∨
      (handle = index ∧ slot = some (.txn txn)) := by
  have entry := getElem?_of_txnAt found
  by_cases same : index = handle
  · subst same
    rw [List.getElem?_set_self'] at entry
    rcases Option.map_eq_some_iff.mp entry with ⟨_, _, replaced⟩
    exact .inr ⟨rfl, replaced⟩
  · rw [List.getElem?_set_ne same] at entry
    exact .inl ⟨Ne.symm same, by simp [txnAt, entry]⟩

section Step

variable {events : List (Event Ledger Action Output)} {ledger next : Ledger} {action : Action}
  {output : Output} {handle : Nat} {txn : Txn}

/-- The shared state a transaction depends on has not moved. -/
structure SameState (ledger next : Ledger) : Prop where
  current : next.current = ledger.current
  commits : next.commits = ledger.commits
  legacy : next.lastLegacyVersion = ledger.lastLegacyVersion

/-- The client of a transaction buffers a write or tracks a read. -/
theorem Tracked.update (tracked : Tracked events ledger handle txn)
    (found : txnAt ledger.handles handle = some txn) (same : SameState ledger next) {updated : Txn}
    (start : updated.startVersion = txn.startVersion) (snapshot : updated.snapshot = txn.snapshot)
    (level : updated.level = txn.level) (keys : updated.keys = written updated.ops)
    (reads : txn.reads ⊆ updated.reads)
    (now : ∀ triple, action = .read handle triple → triple.key ∈ updated.reads) :
    Tracked (events ++ [{ before := ledger, action, output, after := next }]) next handle
      updated where
  start_le := by
    rw [same.current, start]
    exact tracked.start_le
  keys := keys
  unchanged := by
    rw [same.current, same.commits, same.legacy, start, snapshot]
    exact tracked.unchanged
  reads event member triple isRead := by
    rw [snapshot, level]
    rcases List.mem_append.mp member with old | new
    · have earlier := tracked.reads event old triple isRead
      exact ⟨reads earlier.1, earlier.2⟩
    · cases List.mem_singleton.mp new
      exact ⟨now triple isRead, txn, found, rfl, rfl⟩

theorem Tracked.keep (tracked : Tracked events ledger handle txn)
    (found : txnAt ledger.handles handle = some txn) (same : SameState ledger next)
    (other : ∀ triple, action ≠ .read handle triple) :
    Tracked (events ++ [{ before := ledger, action, output, after := next }]) next handle txn :=
  tracked.update found same rfl rfl rfl tracked.keys (fun _ => id)
    (fun triple isRead => absurd isRead (other triple))

/-- A call that publishes nothing keeps the invariant, if it keeps it for the
transactions that are open afterwards. -/
theorem Consistent.keep (consistent : Consistent events ledger) (same : SameState ledger next)
    (writer : next.writer = ledger.writer)
    (length : ledger.handles.length ≤ next.handles.length)
    (noCommit : ∀ handle txn version, ¬ Succeeds ledger.handles action output handle txn version)
    (noLegacy : ∀ db, action ≠ .legacyWrite db)
    (readOpen : ∀ handle triple, action = .read handle triple → handle < ledger.handles.length)
    (txns : ∀ handle txn, txnAt next.handles handle = some txn →
      Tracked (events ++ [{ before := ledger, action, output, after := next }]) next handle txn) :
    Consistent (events ++ [{ before := ledger, action, output, after := next }]) next where
  published := by rw [same.current, writer, consistent.published]
  legacy_le := by
    rw [same.current, same.legacy]
    exact consistent.legacy_le
  commits event member handle txn version succeeds := by
    rw [same.commits]
    rcases List.mem_append.mp member with old | new
    · exact consistent.commits event old handle txn version succeeds
    · cases List.mem_singleton.mp new
      exact absurd succeeds (noCommit handle txn version)
  legacies event member db isLegacy := by
    rw [same.legacy]
    rcases List.mem_append.mp member with old | new
    · exact consistent.legacies event old db isLegacy
    · cases List.mem_singleton.mp new
      exact absurd isLegacy (noLegacy db)
  opened event member handle triple isRead := by
    rcases List.mem_append.mp member with old | new
    · exact Nat.lt_of_lt_of_le (consistent.opened event old handle triple isRead) length
    · cases List.mem_singleton.mp new
      exact Nat.lt_of_lt_of_le (readOpen handle triple isRead) length
  txns := txns

theorem SameState.setHandles (ledger : Ledger) (handles : List (Option Handle)) :
    SameState ledger { ledger with handles } := ⟨rfl, rfl, rfl⟩

/-- Opening a handle: no earlier call was made on it. -/
theorem Consistent.open (consistent : Consistent events ledger) {opened : Handle}
    (pinned : ∀ txn, opened = .txn txn → ∃ level, txn = .start ledger.current level)
    (noCommit : ∀ handle, action ≠ .commit handle) (noLegacy : ∀ db, action ≠ .legacyWrite db)
    (noRead : ∀ handle triple, action ≠ .read handle triple) :
    Consistent
      (events ++ [{ before := ledger, action, output
                    after := { ledger with handles := ledger.handles ++ [some opened] } }])
      { ledger with handles := ledger.handles ++ [some opened] } := by
  have same := SameState.setHandles ledger (ledger.handles ++ [some opened])
  apply consistent.keep same rfl (by simp) (fun handle _ _ succeeds => noCommit handle succeeds.action)
    noLegacy (fun handle triple isRead => absurd isRead (noRead handle triple))
  intro handle txn found
  rcases txnAt_append found with old | ⟨rfl, new⟩
  · exact (consistent.txns handle txn old).keep old same (noRead handle)
  · rcases pinned txn (Option.some.inj new) with ⟨level, rfl⟩
    refine ⟨Nat.le_refl _, rfl, fun _ _ _ => rfl, ?_⟩
    intro event member triple isRead
    rcases List.mem_append.mp member with earlier | now
    · exact absurd (consistent.opened event earlier _ triple isRead) (Nat.lt_irrefl _)
    · cases List.mem_singleton.mp now
      exact absurd isRead (noRead _ triple)

/-- A call on one open transaction that changes only what its client holds. -/
theorem Consistent.setTxn (consistent : Consistent events ledger) (updated : Txn)
    (found : txnAt ledger.handles handle = some txn)
    (start : updated.startVersion = txn.startVersion) (snapshot : updated.snapshot = txn.snapshot)
    (level : updated.level = txn.level) (keys : updated.keys = written updated.ops)
    (reads : txn.reads ⊆ updated.reads) (noCommit : ∀ handle, action ≠ .commit handle)
    (noLegacy : ∀ db, action ≠ .legacyWrite db)
    (now : ∀ other triple, action = .read other triple → other = handle ∧ triple.key ∈ updated.reads) :
    Consistent
      (events ++ [{ before := ledger, action, output, after := ledger.setTxn handle updated }])
      (ledger.setTxn handle updated) := by
  have same := SameState.setHandles ledger (ledger.handles.set handle (some (.txn updated)))
  apply consistent.keep same rfl (by simp)
    (fun other _ _ succeeds => noCommit other succeeds.action) noLegacy
    (fun other triple isRead => (now other triple isRead).1 ▸ txnAt_lt found)
  intro other otherTxn otherFound
  rcases txnAt_set otherFound with ⟨different, old⟩ | ⟨rfl, new⟩
  · exact (consistent.txns other otherTxn old).keep old same
      (fun triple isRead => different (now other triple isRead).1)
  · cases Option.some.inj new
    exact (consistent.txns other txn found).update found same start snapshot level keys reads
      (fun triple isRead => (now other triple isRead).2)

/-- Closing a handle without publishing. -/
theorem Consistent.close (consistent : Consistent events ledger)
    (noCommit : ∀ handle txn version, ¬ Succeeds ledger.handles action output handle txn version)
    (noLegacy : ∀ db, action ≠ .legacyWrite db)
    (noRead : ∀ handle triple, action ≠ .read handle triple) :
    Consistent (events ++ [{ before := ledger, action, output, after := ledger.close handle }])
      (ledger.close handle) := by
  have same := SameState.setHandles ledger (ledger.handles.set handle none)
  apply consistent.keep same rfl (by simp) noCommit noLegacy
    (fun handle triple isRead => absurd isRead (noRead handle triple))
  intro other otherTxn otherFound
  rcases txnAt_set otherFound with ⟨-, old⟩ | ⟨-, new⟩
  · exact (consistent.txns other otherTxn old).keep old same (noRead other)
  · cases new

/-- A commit publishes the writes of its transaction, so only the triples whose
key it wrote can have changed for the others. -/
theorem Consistent.commit (consistent : Consistent events ledger) {db : Database}
    (found : txnAt ledger.handles handle = some txn)
    (applied : txn.ops.foldlM TxnOp.apply ledger.writer = some db) :
    Consistent
      (events ++ [{ before := ledger, action := .commit handle
                    output := .committed (ledger.current.version + 1)
                    after := ((ledger.publish db).addCommit txn).close handle }])
      (((ledger.publish db).addCommit txn).close handle) where
  published := rfl
  legacy_le := Nat.le_succ_of_le consistent.legacy_le
  commits event member other otherTxn version succeeds := by
    refine List.mem_append.mpr ?_
    rcases List.mem_append.mp member with old | new
    · exact .inl (consistent.commits event old other otherTxn version succeeds)
    · cases List.mem_singleton.mp new
      cases succeeds.action
      cases succeeds.output
      cases Option.some.inj (found.symm.trans succeeds.found)
      rw [← (consistent.txns handle txn found).keys]
      exact .inr List.mem_cons_self
  legacies event member db isLegacy := by
    rcases List.mem_append.mp member with old | new
    · exact consistent.legacies event old db isLegacy
    · cases List.mem_singleton.mp new
      cases isLegacy
  opened event member other triple isRead := by
    rcases List.mem_append.mp member with old | new
    · simpa [Ledger.close, Ledger.addCommit, Ledger.publish] using
        consistent.opened event old other triple isRead
    · cases List.mem_singleton.mp new
      cases isRead
  txns other otherTxn otherFound := by
    rcases txnAt_set otherFound with ⟨-, old⟩ | ⟨-, new⟩
    · have tracked := consistent.txns other otherTxn old
      refine ⟨Nat.le_succ_of_le tracked.start_le, tracked.keys, ?_, ?_⟩
      · intro noLegacy triple untouched
        have mine : triple.key ∉ written txn.ops := by
          rw [← (consistent.txns handle txn found).keys]
          exact untouched _ (List.mem_append_right _ List.mem_cons_self)
            (Nat.lt_succ_of_le tracked.start_le)
        have before := tracked.unchanged noLegacy triple
          (fun entry member => untouched entry (List.mem_append_left _ member))
        have carried := contains_foldlM_of_notMem applied mine
        rw [← consistent.published] at carried
        exact carried.trans before
      · intro event member triple isRead
        rcases List.mem_append.mp member with earlier | now
        · exact tracked.reads event earlier triple isRead
        · cases List.mem_singleton.mp now
          cases isRead
    · cases new

/-- After a legacy write nothing is promised to the transactions it overlaps. -/
theorem Consistent.legacyWrite (consistent : Consistent events ledger) (db : Database) :
    Consistent
      (events ++ [{ before := ledger, action := .legacyWrite db, output
                    after := { ledger.publish db with
                      lastLegacyVersion := ledger.current.version + 1 } }])
      { ledger.publish db with lastLegacyVersion := ledger.current.version + 1 } where
  published := rfl
  legacy_le := Nat.le_refl _
  commits event member other otherTxn version succeeds := by
    rcases List.mem_append.mp member with old | new
    · exact consistent.commits event old other otherTxn version succeeds
    · cases List.mem_singleton.mp new
      cases succeeds.action
  legacies event member written isLegacy := by
    rcases List.mem_append.mp member with old | new
    · have earlier := consistent.legacies event old written isLegacy
      exact Nat.le_succ_of_le (Nat.le_trans earlier consistent.legacy_le)
    · cases List.mem_singleton.mp new
      exact Nat.le_refl _
  opened event member other triple isRead := by
    rcases List.mem_append.mp member with old | new
    · exact consistent.opened event old other triple isRead
    · cases List.mem_singleton.mp new
      cases isRead
  txns other otherTxn otherFound := by
    have tracked := consistent.txns other otherTxn otherFound
    refine ⟨Nat.le_succ_of_le tracked.start_le, tracked.keys, ?_, ?_⟩
    · intro noLegacy
      have started := tracked.start_le
      exact absurd noLegacy (by simp only [not_le]; omega)
    · intro event member triple isRead
      rcases List.mem_append.mp member with earlier | now
      · exact tracked.reads event earlier triple isRead
      · cases List.mem_singleton.mp now
        cases isRead

end Step

theorem written_concat (ops : List TxnOp) (op : TxnOp) :
    written (ops ++ [op]) = Insert.insert op.triple.key (written ops) := by
  ext key
  simp [written]

/-- Every call keeps the invariant. -/
theorem Consistent.moves {events : List (Event Ledger Action Output)} {ledger next : Ledger}
    {action : Action} {output : Output} (consistent : Consistent events ledger)
    (moves : ledger.Moves action output next) :
    Consistent (events ++ [{ before := ledger, action, output, after := next }]) next := by
  cases moves with
  | begin level =>
    apply consistent.open _ (by simp) (by simp) (by simp)
    intro txn same
    exact ⟨level, (Handle.txn.inj same).symm⟩
  | @insert handle txn triple found =>
    apply consistent.setTxn (txn.insert triple) found rfl rfl rfl _ (fun _ => id) (by simp)
      (by simp) (by simp)
    rw [Txn.insert, (consistent.txns handle txn found).keys, written_concat]
    rfl
  | @delete handle txn triple found =>
    apply consistent.setTxn (txn.delete triple) found rfl rfl rfl _ (fun _ => id) (by simp)
      (by simp) (by simp)
    rw [Txn.delete, (consistent.txns handle txn found).keys, written_concat]
    rfl
  | @contains handle txn triple found =>
    have same : SameState ledger ledger := ⟨rfl, rfl, rfl⟩
    apply consistent.keep same rfl (Nat.le_refl _) (fun _ _ _ succeeds => by cases succeeds.action)
      (by simp) (by simp)
    intro other otherTxn otherFound
    exact (consistent.txns other otherTxn otherFound).keep otherFound same (by simp)
  | @read handle txn triple found =>
    apply consistent.setTxn (txn.read ledger.current triple).1 found rfl rfl rfl
      (consistent.txns handle txn found).keys (Finset.subset_insert _ _) (by simp) (by simp)
    intro other otherTriple isRead
    cases isRead
    exact ⟨rfl, Finset.mem_insert_self _ _⟩
  | conflict found checked =>
    exact consistent.close (fun _ _ _ succeeds => by cases succeeds.output) (by simp) (by simp)
  | commit found checked applied => exact consistent.commit found applied
  | abort found =>
    exact consistent.close (fun _ _ _ succeeds => by cases succeeds.action) (by simp) (by simp)
  | openView => exact consistent.open (by simp) (by simp) (by simp) (by simp)
  | closeView found =>
    exact consistent.close (fun _ _ _ succeeds => by cases succeeds.action) (by simp) (by simp)
  | legacyWrite db => exact consistent.legacyWrite db

theorem consistent_new (db : Database) : Consistent [] (.new db) where
  published := rfl
  legacy_le := Nat.zero_le _
  commits := by simp
  legacies := by simp
  opened := by simp
  txns handle txn found := by simp [Ledger.new, txnAt] at found

theorem consistent_of_execution {db : Database} {events : List (Event Ledger Action Output)}
    {ledger : Ledger} (run : Execution Ledger.step (.new db) events ledger) :
    Consistent events ledger := by
  induction run with
  | nil => exact consistent_new db
  | snoc earlier taken induction => exact induction.moves (Ledger.moves_of_step taken)

/-! ## What a passed validation means -/

namespace IsolationLevel

/-- The levels whose commits are validated. -/
def Validated (level : IsolationLevel) : Prop := level = .repeatableRead ∨ level = .serializable

theorem Validated.checksWriteWrite {level : IsolationLevel} (validated : level.Validated) :
    level.checksWriteWrite = true := by
  rcases validated with rfl | rfl <;> rfl

end IsolationLevel

theorem overlaps_eq_false_iff {history : List (Nat × Finset Text)} {start : Nat}
    {keys : Finset Text} :
    Txn.overlaps history start keys = false ↔
      ∀ entry ∈ history, start < entry.1 → Disjoint keys entry.2 := by
  simp only [Txn.overlaps, List.any_eq_false, List.mem_filter, decide_eq_true_eq,
    Bool.not_eq_true', decide_eq_false_iff_not, not_not, and_imp, Nat.succ_le_iff]

theorem validate_writes {history : List (Nat × Finset Text)} {legacy : Nat} {txn : Txn}
    (validated : txn.level.Validated) (checked : txn.validate history legacy = none) :
    legacy ≤ txn.startVersion ∧
      ∀ entry ∈ history, txn.startVersion < entry.1 → Disjoint txn.keys entry.2 := by
  rw [← overlaps_eq_false_iff]
  simp only [Txn.validate, validated.checksWriteWrite, Bool.true_and] at checked
  split at checked
  · split at checked
    · cases checked
    · split at checked <;> cases checked
  · rename_i passed
    simp only [Bool.or_eq_true, not_or, Bool.not_eq_true, decide_eq_false_iff_not,
      Nat.not_lt] at passed
    refine ⟨passed.1.1, ?_⟩
    have writes := passed.1.2
    rw [decide_eq_false (Nat.not_lt.mpr passed.1.1)] at writes
    simpa using writes

theorem validate_reads {history : List (Nat × Finset Text)} {legacy : Nat} {txn : Txn}
    (serializable : txn.level = .serializable) (checked : txn.validate history legacy = none) :
    ∀ entry ∈ history, txn.startVersion < entry.1 → Disjoint txn.reads entry.2 := by
  have writes := validate_writes (.inr serializable) checked
  have free : Txn.overlaps history txn.startVersion txn.keys = false :=
    overlaps_eq_false_iff.mpr writes.2
  rw [← overlaps_eq_false_iff]
  have noLegacy : decide (txn.startVersion < legacy) = false :=
    decide_eq_false (Nat.not_lt.mpr writes.1)
  simp only [Txn.validate, serializable, IsolationLevel.checksWriteWrite,
    IsolationLevel.checksReadWrite, free, noLegacy] at checked
  cases reads : Txn.overlaps history txn.startVersion txn.reads with
  | false => rfl
  | true => simp [reads] at checked

/-! ## The ledger -/

section LedgerRuns

variable {db : Database} {past : List (Event Ledger Action Output)} {ledger after : Ledger}
  {action : Action} {output : Output} {handle version : Nat} {txn : Txn}

/-- A call that commits passed its checks and applied its writes. -/
theorem commit_of_succeeds (taken : ledger.step action = some (output, after))
    (succeeds : Succeeds ledger.handles action output handle txn version) :
    txn.validate ledger.commits ledger.lastLegacyVersion = none ∧
      version = ledger.current.version + 1 ∧ after.current.version = version ∧
      txn.ops.foldlM TxnOp.apply ledger.writer = some after.current.db := by
  have moves := Ledger.moves_of_step taken
  cases succeeds.action
  cases moves with
  | conflict found checked => cases succeeds.output
  | commit found checked applied =>
    cases Option.some.inj (found.symm.trans succeeds.found)
    cases succeeds.output
    exact ⟨checked, rfl, rfl, applied⟩

theorem ledger_writes_disjoint (run : Execution Ledger.step (.new db) past ledger)
    (taken : ledger.step action = some (output, after))
    (succeeds : Succeeds ledger.handles action output handle txn version)
    (validated : txn.level.Validated) {event : Event Ledger Action Output} (earlier : event ∈ past)
    {otherHandle otherVersion : Nat} {otherTxn : Txn}
    (otherSucceeds : Succeeds event.before.handles event.action event.output otherHandle otherTxn
      otherVersion) (started : txn.startVersion < otherVersion) :
    Disjoint (written otherTxn.ops) (written txn.ops) := by
  have consistent := consistent_of_execution run
  have recorded := consistent.commits event earlier _ _ _ otherSucceeds
  have checked := (commit_of_succeeds taken succeeds).1
  have disjoint := (validate_writes validated checked).2 _ recorded started
  rw [(consistent.txns handle txn succeeds.found).keys] at disjoint
  exact disjoint.symm

theorem ledger_legacy_conflicts (run : Execution Ledger.step (.new db) past ledger)
    (taken : ledger.step action = some (output, after))
    (succeeds : Succeeds ledger.handles action output handle txn version)
    (validated : txn.level.Validated) {event : Event Ledger Action Output} (earlier : event ∈ past)
    {legacyDb : Database} (isLegacy : event.action = .legacyWrite legacyDb) :
    event.after.current.version ≤ txn.startVersion :=
  Nat.le_trans ((consistent_of_execution run).legacies event earlier legacyDb isLegacy)
    (validate_writes validated (commit_of_succeeds taken succeeds).1).1

theorem ledger_commit_applies (run : Execution Ledger.step (.new db) past ledger)
    (taken : ledger.step action = some (output, after))
    (succeeds : Succeeds ledger.handles action output handle txn version) :
    after.current.graph = txn.ops.foldl TxnOp.onGraph ledger.current.graph := by
  have applied := (commit_of_succeeds taken succeeds).2.2.2
  rw [← (consistent_of_execution run).published] at applied
  exact Set.ext (mem_graph_foldlM applied)

/-- A tracked read of a transaction that commits saw what the commit overwrites. -/
theorem ledger_read_current (run : Execution Ledger.step (.new db) past ledger)
    (taken : ledger.step action = some (output, after))
    (succeeds : Succeeds ledger.handles action output handle txn version)
    (serializable : txn.level = .serializable) {event : Event Ledger Action Output}
    (earlier : event ∈ past) {triple : RdfTriple} (isRead : event.action = .read handle triple) :
    ∃ reader, txnAt event.before.handles handle = some reader ∧
      reader.level = .serializable ∧
      reader.snapshot.contains triple.toTriple = ledger.current.contains triple.toTriple := by
  have tracked := (consistent_of_execution run).txns handle txn succeeds.found
  have checked := (commit_of_succeeds taken succeeds).1
  rcases tracked.reads event earlier triple isRead with ⟨inReads, reader, found, snapshot, level⟩
  refine ⟨reader, found, level.trans serializable, ?_⟩
  rw [snapshot]
  refine (tracked.unchanged (validate_writes (.inr serializable) checked).1 triple ?_).symm
  intro entry member above
  exact Finset.disjoint_left.mp (validate_reads serializable checked entry member above) inReads

end LedgerRuns

/-! ## A closed handle leaves no trace -/

/-- The handle a call is made on. -/
def Action.handle? : Action → Option Nat
  | .insert handle _ | .delete handle _ | .contains handle _ | .read handle _ => some handle
  | .commit handle | .abort handle | .closeView handle => some handle
  | .begin _ | .openView | .legacyWrite _ => none

section Close

variable {ledger : Ledger} {closed : Nat}

theorem txnAt_close {handle : Nat} (other : handle ≠ closed) :
    txnAt (ledger.close closed).handles handle = txnAt ledger.handles handle := by
  simp only [txnAt, Ledger.close, List.getElem?_set_ne (Ne.symm other)]

theorem viewAt_close {handle : Nat} (other : handle ≠ closed) :
    viewAt (ledger.close closed).handles handle = viewAt ledger.handles handle := by
  simp only [viewAt, Ledger.close, List.getElem?_set_ne (Ne.symm other)]

theorem close_append (inside : closed < ledger.handles.length) (opened : Handle) :
    (ledger.handles ++ [some opened]).set closed none =
      (ledger.close closed).handles ++ [some opened] :=
  List.set_append_left _ _ inside

/-- Calls on other handles do not depend on a handle being open. -/
theorem step_close (inside : closed < ledger.handles.length) {action : Action}
    (other : action.handle? ≠ some closed) :
    Option.Rel (fun left right => left.1 = right.1 ∧
        (left.2 = right.2.close closed ∧ closed < right.2.handles.length))
      ((ledger.close closed).step action) (ledger.step action) := by
  have length : (ledger.close closed).handles.length = ledger.handles.length :=
    List.length_set
  have replaced : ∀ (base : Ledger) handle slot, handle ≠ closed →
      { base with handles := (ledger.close closed).handles.set handle slot } =
          Ledger.close { base with handles := ledger.handles.set handle slot } closed ∧
        closed < (ledger.handles.set handle slot).length := by
    intro base handle slot different
    refine ⟨?_, by simpa using inside⟩
    exact congrArg (fun handles => { base with handles }) (List.set_comm _ _ (Ne.symm different))
  have onTxn : ∀ handle (result expected : Txn → Option (Output × Ledger)), handle ≠ closed →
      (∀ txn, Option.Rel (fun left right => left.1 = right.1 ∧
          (left.2 = right.2.close closed ∧ closed < right.2.handles.length))
        (result txn) (expected txn)) →
      Option.Rel (fun left right => left.1 = right.1 ∧
          (left.2 = right.2.close closed ∧ closed < right.2.handles.length))
        (txnAt (ledger.close closed).handles handle >>= result)
        (txnAt ledger.handles handle >>= expected) := by
    intro handle result expected different related
    rw [txnAt_close different]
    cases txnAt ledger.handles handle with
    | none => exact .none
    | some txn => exact related txn
  have distinct : ∀ handle, action.handle? = some handle → handle ≠ closed :=
    fun handle uses same => other (same ▸ uses)
  cases action with
  | begin level | openView =>
    refine .some ⟨congrArg Output.opened length, ?_, by simp; omega⟩
    exact congrArg (fun handles => { ledger with handles }) (close_append inside _).symm
  | legacyWrite db => exact .some ⟨rfl, rfl, inside⟩
  | insert handle triple | delete handle triple =>
    apply onTxn _ _ _ (distinct handle rfl)
    exact fun txn => .some ⟨rfl, replaced ledger handle _ (distinct handle rfl)⟩
  | contains handle triple =>
    apply onTxn _ _ _ (distinct handle rfl)
    exact fun txn => .some ⟨rfl, rfl, inside⟩
  | read handle triple =>
    apply onTxn _ _ _ (distinct handle rfl)
    exact fun txn => .some ⟨rfl, replaced ledger handle _ (distinct handle rfl)⟩
  | commit handle =>
    apply onTxn _ _ _ (distinct handle rfl)
    intro txn
    -- Closing a handle keeps the commits, the legacy version and the database.
    have commits : (ledger.close closed).commits = ledger.commits := rfl
    have version : (ledger.close closed).lastLegacyVersion = ledger.lastLegacyVersion := rfl
    simp only [commits, version]
    cases txn.validate ledger.commits ledger.lastLegacyVersion with
    | some kind => exact .some ⟨rfl, replaced ledger handle _ (distinct handle rfl)⟩
    | none =>
      change Option.Rel _ (Option.bind (txn.ops.foldlM TxnOp.apply ledger.writer) _) _
      cases txn.ops.foldlM TxnOp.apply ledger.writer with
      | none => exact .none
      | some db =>
        exact .some ⟨rfl,
          replaced ((ledger.publish db).addCommit txn) handle none (distinct handle rfl)⟩
  | abort handle =>
    apply onTxn _ _ _ (distinct handle rfl)
    exact fun txn => .some ⟨rfl, replaced ledger handle _ (distinct handle rfl)⟩
  | closeView handle =>
    simp only [Ledger.step, viewAt_close (distinct handle rfl)]
    cases viewAt ledger.handles handle with
    | none => exact .none
    | some version => exact .some ⟨rfl, replaced ledger handle _ (distinct handle rfl)⟩

theorem outputs_close (inside : closed < ledger.handles.length) {actions : List Action}
    (others : ∀ action ∈ actions, action.handle? ≠ some closed) :
    (trace Ledger.step (ledger.close closed) actions).map Event.output =
      (trace Ledger.step ledger actions).map Event.output := by
  have alike : List.Forall₂
      (Event.Matches fun left right => left = right.close closed ∧ closed < right.handles.length)
      (trace Ledger.step (ledger.close closed) actions) (trace Ledger.step ledger actions) := by
    refine trace_matches ?_ ⟨rfl, inside⟩
    rintro action member _ abstract ⟨rfl, opened⟩
    exact step_close opened (others action member)
  exact outputs_eq_of_matches alike

end Close

/-! ## Runs of the database -/

structure SnapshotIsolated (events : List (Event System Action Output)) : Prop where
  /-- Two validated transactions, each started before the other's commit version,
  write different keys. -/
  writes_disjoint : events.Pairwise fun first second =>
    ∀ firstHandle firstTxn firstVersion secondHandle secondTxn secondVersion,
      Succeeds first.before.handles first.action first.output firstHandle firstTxn firstVersion →
      Succeeds second.before.handles second.action second.output secondHandle secondTxn
        secondVersion →
      firstTxn.level.Validated → secondTxn.level.Validated →
      firstTxn.startVersion < secondVersion → secondTxn.startVersion < firstVersion →
      Disjoint (written firstTxn.ops) (written secondTxn.ops)
  /-- A validated transaction commits only if no legacy write was published after
  its start version. -/
  legacy_conflicts : events.Pairwise fun first second => ∀ db handle txn version,
    first.action = .legacyWrite db →
    Succeeds second.before.handles second.action second.output handle txn version →
    txn.level.Validated → first.after.db.current.version ≤ txn.startVersion
  /-- A commit publishes the previous graph under its writes, in order. -/
  commit_publishes : ∀ event ∈ events, ∀ handle txn version,
    Succeeds event.before.handles event.action event.output handle txn version →
      version = event.before.db.current.version + 1 ∧ event.after.db.current.version = version ∧
        event.after.db.current.graph =
          txn.ops.foldl TxnOp.onGraph event.before.db.current.graph
  /-- A conflict publishes nothing. It leaves the state an abort leaves, and every
  later call on another handle is answered as if the commit had not been tried. -/
  conflict_inert : ∀ event ∈ events, ∀ handle kind message,
    event.action = .commit handle → event.output = .conflict kind message →
      event.after.db.current = event.before.db.current ∧
        event.after.db.writer = event.before.db.writer ∧
        event.before.step (.abort handle) = some (.done, event.after) ∧
        ∀ actions : List Action, (∀ action ∈ actions, action.handle? ≠ some handle) →
          (trace System.step event.after actions).map Event.output =
            (trace System.step event.before actions).map Event.output

section Transfer

variable {db : Database} {event : Event System Action Output} {other : Event Ledger Action Output}

theorem simulates_trace {system : System} {ledger : Ledger} (simulates : Simulates system ledger)
    (actions : List Action) :
    List.Forall₂ (Event.Matches Simulates) (trace System.step system actions)
      (trace Ledger.step ledger actions) :=
  trace_matches (fun action _ _ _ related => related.step action) simulates

/-- The ledger's view of one step of a run. -/
theorem ledger_of_step {events : List (Event System Action Output)} {system after : System}
    {action : Action} {output : Output} (run : Execution System.step (.new db) events system)
    (taken : system.step action = some (output, after)) :
    ∃ others ledger ledgerAfter, Execution Ledger.step (.new db) others ledger ∧
      List.Forall₂ (Event.Matches Simulates) events others ∧ Simulates system ledger ∧
      ledger.step action = some (output, ledgerAfter) ∧ Simulates after ledgerAfter := by
  rcases run.simulated (fun _ _ action related => related.step action) (simulates_new db)
    with ⟨others, ledger, ledgerRun, alike, simulates⟩
  rcases step_of_rel (simulates.step action) taken with ⟨ledgerAfter, answered, next⟩
  exact ⟨others, ledger, ledgerAfter, ledgerRun, alike, simulates, answered, next⟩

theorem Succeeds.simulates {system : System} {ledger : Ledger} {action : Action} {output : Output}
    {handle version : Nat} {txn : Txn} (simulates : Simulates system ledger)
    (succeeds : Succeeds system.handles action output handle txn version) :
    Succeeds ledger.handles action output handle txn version :=
  ⟨succeeds.action, succeeds.output, simulates.handles ▸ succeeds.found⟩

theorem Succeeds.ledger {handle version : Nat} {txn : Txn} (alike : Event.Matches Simulates event other)
    (succeeds : Succeeds event.before.handles event.action event.output handle txn version) :
    Succeeds other.before.handles other.action other.output handle txn version where
  action := alike.action ▸ succeeds.action
  output := alike.output ▸ succeeds.output
  found := alike.before.handles ▸ succeeds.found

/-- A commit that returns a conflict only drops its transaction. -/
theorem conflict_closes {system after : System} {handle : Nat} {kind : ConflictKind}
    {message : String}
    (taken : system.step (.commit handle) = some (.conflict kind message, after)) :
    after.db.current = system.db.current ∧ after.db.writer = system.db.writer ∧
      system.step (.abort handle) = some (.done, after) := by
  rcases Option.bind_eq_some_iff.mp taken with ⟨txn, found, result⟩
  unfold ConcurrentDb.commit at result
  cases checked : txn.validate system.db.occ.history system.db.occ.lastLegacyVersion with
  | some kind =>
    rw [checked] at result
    cases Option.some.inj result
    exact ⟨rfl, rfl, by simp [System.step, found]⟩
  | none =>
    rw [checked] at result
    dsimp only at result
    cases applied : txn.ops.foldlM TxnOp.apply system.db.writer with
    | none => simp [applied] at result
    | some db => simp [applied] at result

theorem ledger_conflict_closes {ledger after : Ledger} {handle : Nat} {kind : ConflictKind}
    {message : String}
    (taken : ledger.step (.commit handle) = some (.conflict kind message, after)) :
    after = ledger.close handle ∧ handle < ledger.handles.length := by
  cases Ledger.moves_of_step taken with
  | conflict found checked => exact ⟨rfl, txnAt_lt found⟩

end Transfer

/-- Snapshot isolation of the database: in every run, whatever the order of the
calls, the transactions are isolated, and every call is answered as it is over a
history that is never collected. -/
theorem concurrentDb_snapshot_isolation (db : Database) (actions : List Action) :
    SnapshotIsolated (trace System.step (.new db) actions) ∧
      (trace System.step (.new db) actions).map Event.output =
        (trace Ledger.step (.new db) actions).map Event.output := by
  refine ⟨?_, outputs_eq_of_matches (simulates_trace (simulates_new db) actions)⟩
  have run : Execution System.step (.new db) (trace System.step (.new db) actions) _ :=
    execution_trace _ _
  constructor
  case writes_disjoint =>
    apply run.pairwise
    intro past system action output after earlier taken event member
    intro handle txn version lastHandle last lastVersion succeeds lastSucceeds _ validated _ started
    rcases ledger_of_step earlier taken with
      ⟨others, ledger, ledgerAfter, ledgerRun, alike, simulates, answered, -⟩
    rcases mem_of_matches alike event member with ⟨other, otherMember, same⟩
    exact ledger_writes_disjoint ledgerRun answered (lastSucceeds.simulates simulates) validated
      otherMember (succeeds.ledger same) started
  case legacy_conflicts =>
    apply run.pairwise
    intro past system action output after earlier taken event member
    intro legacyDb handle txn version isLegacy succeeds validated
    rcases ledger_of_step earlier taken with
      ⟨others, ledger, ledgerAfter, ledgerRun, alike, simulates, answered, -⟩
    rcases mem_of_matches alike event member with ⟨other, otherMember, same⟩
    rw [same.after.current]
    exact ledger_legacy_conflicts ledgerRun answered (succeeds.simulates simulates) validated
      otherMember (same.action ▸ isLegacy)
  case commit_publishes =>
    intro event member handle txn version succeeds
    rcases run.of_mem member with ⟨⟨past, earlier⟩, taken⟩
    rcases ledger_of_step earlier taken with
      ⟨others, ledger, ledgerAfter, ledgerRun, -, simulates, answered, next⟩
    have found := succeeds.simulates simulates
    have committed := commit_of_succeeds answered found
    rw [simulates.current, next.current]
    exact ⟨committed.2.1, committed.2.2.1, ledger_commit_applies ledgerRun answered found⟩
  case conflict_inert =>
    intro event member handle kind message isCommit isConflict
    rcases run.of_mem member with ⟨⟨past, earlier⟩, taken⟩
    rw [isCommit, isConflict] at taken
    rcases ledger_of_step earlier taken with
      ⟨others, ledger, ledgerAfter, -, -, simulates, answered, next⟩
    rcases conflict_closes taken with ⟨current, writer, aborted⟩
    rcases ledger_conflict_closes answered with ⟨rfl, inside⟩
    refine ⟨current, writer, aborted, ?_⟩
    intro later others
    calc (trace System.step event.after later).map Event.output
        = (trace Ledger.step (ledger.close handle) later).map Event.output :=
          outputs_eq_of_matches (simulates_trace next later)
      _ = (trace Ledger.step ledger later).map Event.output := outputs_close inside others
      _ = (trace System.step event.before later).map Event.output :=
          (outputs_eq_of_matches (simulates_trace simulates later)).symm

/-- The answer of a tracked read under a stable snapshot. -/
theorem answer_of_read {ledger after : Ledger} {handle : Nat} {triple : RdfTriple} {present : Bool}
    {reader : Txn}
    (taken : ledger.step (.read handle triple) = some (.answer present, after))
    (found : txnAt ledger.handles handle = some reader)
    (stable : reader.level.stableSnapshot = true) :
    present = reader.ops.foldl (Txn.overlay triple.key)
      (reader.snapshot.contains triple.toTriple) := by
  have moves := Ledger.moves_of_step taken
  generalize answer : Output.answer present = output at moves
  cases moves with
  | read triple mine =>
    cases Option.some.inj (mine.symm.trans found)
    cases answer
    simp only [Txn.read, Txn.contains]
    rw [if_pos stable]

/-- Tracked reads are serializable: in every run, each answer that `read` gave to a
serializable transaction that later commits is membership of the triple in the
graph published just before that commit, under the writes the transaction had
buffered when it read. -/
theorem serializable_reads_at_commit (db : Database) (actions : List Action) :
    (trace System.step (.new db) actions).Pairwise fun reading committing =>
      ∀ handle triple present txn version,
        reading.action = .read handle triple → reading.output = .answer present →
        Succeeds committing.before.handles committing.action committing.output handle txn
          version →
        txn.level = .serializable →
        committing.before.db.current.version + 1 = version ∧
          ∃ reader, txnAt reading.before.handles handle = some reader ∧
            (present = true ↔ triple.toTriple ∈
              reader.ops.foldl TxnOp.onGraph committing.before.db.current.graph) := by
  have run : Execution System.step (.new db) (trace System.step (.new db) actions) _ :=
    execution_trace _ _
  apply run.pairwise
  intro past system action output after earlier taken event member
  intro handle triple present txn version isRead answered succeeds serializable
  rcases ledger_of_step earlier taken with
    ⟨others, ledger, ledgerAfter, ledgerRun, alike, simulates, committed, -⟩
  rcases mem_of_matches alike event member with ⟨other, otherMember, same⟩
  have found := succeeds.simulates simulates
  refine ⟨?_, ?_⟩
  · rw [simulates.current]
    exact (commit_of_succeeds committed found).2.1.symm
  · rcases ledger_read_current ledgerRun committed found serializable otherMember
      (same.action ▸ isRead) with ⟨reader, readerFound, level, unchanged⟩
    refine ⟨reader, same.before.handles ▸ readerFound, ?_⟩
    have readStep := (ledgerRun.of_mem otherMember).2
    rw [← same.action, ← same.output, isRead, answered] at readStep
    have stable : reader.level.stableSnapshot = true := by rw [level]; rfl
    rw [answer_of_read readStep readerFound stable, unchanged, simulates.current]
    exact (mem_foldl_onGraph reader.ops _ triple _ Iff.rfl).symm

end GStore.Concurrent
