import GStore.Concurrent.ConcurrentDb

/-! # Transactions over an un-collected history

The ledger is the database without its registry of live versions and without
garbage collection: it remembers the write set of every commit. The database
simulates it call by call, so collection never shows in an answer. -/

namespace GStore.Concurrent

open Db Dict Store

structure Ledger where
  writer : Database
  current : Snapshot
  lastLegacyVersion : Nat
  commits : List (Nat × Finset Text)
  handles : List (Option Handle)

namespace Ledger

def new (db : Database) : Ledger :=
  { writer := db, current := ⟨db, 1⟩, lastLegacyVersion := 0, commits := [], handles := [] }

def setTxn (ledger : Ledger) (handle : Nat) (txn : Txn) : Ledger :=
  { ledger with handles := ledger.handles.set handle (some (.txn txn)) }

def close (ledger : Ledger) (handle : Nat) : Ledger :=
  { ledger with handles := ledger.handles.set handle none }

def publish (ledger : Ledger) (db : Database) : Ledger :=
  { ledger with writer := db, current := ⟨db, ledger.current.version + 1⟩ }

def addCommit (ledger : Ledger) (txn : Txn) : Ledger :=
  { ledger with commits := ledger.commits ++ [(ledger.current.version, txn.keys)] }

def step (ledger : Ledger) : Action → Option (Output × Ledger)
  | .begin level =>
    some (.opened ledger.handles.length,
      { ledger with handles := ledger.handles ++ [some (.txn (.start ledger.current level))] })
  | .insert handle triple => do
    let txn ← txnAt ledger.handles handle
    return (.done, ledger.setTxn handle (txn.insert triple))
  | .delete handle triple => do
    let txn ← txnAt ledger.handles handle
    return (.done, ledger.setTxn handle (txn.delete triple))
  | .contains handle triple => do
    let txn ← txnAt ledger.handles handle
    return (.answer (txn.contains ledger.current triple), ledger)
  | .read handle triple => do
    let txn ← txnAt ledger.handles handle
    let (txn, present) := txn.read ledger.current triple
    return (.answer present, ledger.setTxn handle txn)
  | .commit handle => do
    let txn ← txnAt ledger.handles handle
    match txn.validate ledger.commits ledger.lastLegacyVersion with
    | some kind => return (.conflict kind (kind.message txn.startVersion), ledger.close handle)
    | none =>
      let db ← txn.ops.foldlM TxnOp.apply ledger.writer
      let published := ledger.publish db
      return (.committed published.current.version, (published.addCommit txn).close handle)
  | .abort handle => do
    let _ ← txnAt ledger.handles handle
    return (.done, ledger.close handle)
  | .openView =>
    some (.opened ledger.handles.length,
      { ledger with handles := ledger.handles ++ [some (.view ledger.current.version)] })
  | .closeView handle => do
    let _ ← viewAt ledger.handles handle
    return (.done, ledger.close handle)
  | .legacyWrite db =>
    let published := ledger.publish db
    some (.done, { published with lastLegacyVersion := published.current.version })

/-- Every call the ledger accepts, with its guard. -/
inductive Moves (ledger : Ledger) : Action → Output → Ledger → Prop
  | begin (level : IsolationLevel) :
      Moves ledger (.begin level) (.opened ledger.handles.length)
        { ledger with handles := ledger.handles ++ [some (.txn (.start ledger.current level))] }
  | insert {handle : Nat} {txn : Txn} (triple : RdfTriple)
      (found : txnAt ledger.handles handle = some txn) :
      Moves ledger (.insert handle triple) .done (ledger.setTxn handle (txn.insert triple))
  | delete {handle : Nat} {txn : Txn} (triple : RdfTriple)
      (found : txnAt ledger.handles handle = some txn) :
      Moves ledger (.delete handle triple) .done (ledger.setTxn handle (txn.delete triple))
  | contains {handle : Nat} {txn : Txn} (triple : RdfTriple)
      (found : txnAt ledger.handles handle = some txn) :
      Moves ledger (.contains handle triple) (.answer (txn.contains ledger.current triple)) ledger
  | read {handle : Nat} {txn : Txn} (triple : RdfTriple)
      (found : txnAt ledger.handles handle = some txn) :
      Moves ledger (.read handle triple) (.answer (txn.read ledger.current triple).2)
        (ledger.setTxn handle (txn.read ledger.current triple).1)
  | conflict {handle : Nat} {txn : Txn} {kind : ConflictKind}
      (found : txnAt ledger.handles handle = some txn)
      (checked : txn.validate ledger.commits ledger.lastLegacyVersion = some kind) :
      Moves ledger (.commit handle) (.conflict kind (kind.message txn.startVersion))
        (ledger.close handle)
  | commit {handle : Nat} {txn : Txn} {db : Database}
      (found : txnAt ledger.handles handle = some txn)
      (checked : txn.validate ledger.commits ledger.lastLegacyVersion = none)
      (applied : txn.ops.foldlM TxnOp.apply ledger.writer = some db) :
      Moves ledger (.commit handle) (.committed (ledger.current.version + 1))
        (((ledger.publish db).addCommit txn).close handle)
  | abort {handle : Nat} {txn : Txn} (found : txnAt ledger.handles handle = some txn) :
      Moves ledger (.abort handle) .done (ledger.close handle)
  | openView :
      Moves ledger .openView (.opened ledger.handles.length)
        { ledger with handles := ledger.handles ++ [some (.view ledger.current.version)] }
  | closeView {handle version : Nat} (found : viewAt ledger.handles handle = some version) :
      Moves ledger (.closeView handle) .done (ledger.close handle)
  | legacyWrite (db : Database) :
      Moves ledger (.legacyWrite db) .done
        { ledger.publish db with lastLegacyVersion := ledger.current.version + 1 }

theorem moves_of_step {ledger next : Ledger} {action : Action} {output : Output}
    (taken : ledger.step action = some (output, next)) : Moves ledger action output next := by
  cases action with
  | begin level =>
    cases Option.some.inj taken
    exact .begin level
  | insert handle triple =>
    rcases Option.bind_eq_some_iff.mp taken with ⟨txn, found, result⟩
    cases Option.some.inj result
    exact .insert triple found
  | delete handle triple =>
    rcases Option.bind_eq_some_iff.mp taken with ⟨txn, found, result⟩
    cases Option.some.inj result
    exact .delete triple found
  | contains handle triple =>
    rcases Option.bind_eq_some_iff.mp taken with ⟨txn, found, result⟩
    cases Option.some.inj result
    exact .contains triple found
  | read handle triple =>
    rcases Option.bind_eq_some_iff.mp taken with ⟨txn, found, result⟩
    cases Option.some.inj result
    exact .read triple found
  | commit handle =>
    rcases Option.bind_eq_some_iff.mp taken with ⟨txn, found, result⟩
    cases checked : txn.validate ledger.commits ledger.lastLegacyVersion with
    | some kind =>
      rw [checked] at result
      cases Option.some.inj result
      exact .conflict found checked
    | none =>
      rw [checked] at result
      rcases Option.bind_eq_some_iff.mp result with ⟨db, applied, final⟩
      cases Option.some.inj final
      exact .commit found checked applied
  | abort handle =>
    rcases Option.bind_eq_some_iff.mp taken with ⟨txn, found, result⟩
    cases Option.some.inj result
    exact .abort found
  | openView =>
    cases Option.some.inj taken
    exact .openView
  | closeView handle =>
    rcases Option.bind_eq_some_iff.mp taken with ⟨version, found, result⟩
    cases Option.some.inj result
    exact .closeView found
  | legacyWrite db =>
    cases Option.some.inj taken
    exact .legacyWrite db

end Ledger

/-! ## The registry of live versions -/

/-- How many open handles keep a version alive. -/
def liveAt (handles : List (Option Handle)) (version : Nat) : Nat :=
  handles.countP fun slot => decide (slot.map Handle.pin = some version)

/-- The registry counts the open handles of each version and holds no zero. -/
structure Registers (occ : OccState) (handles : List (Option Handle)) : Prop where
  counts : ∀ version, occ.liveStarts.getD version 0 = liveAt handles version
  positive : ∀ version : Nat, occ.liveStarts[version]? ≠ some 0

section Registry

variable {occ : OccState} {handles : List (Option Handle)} {handle : Handle} {index version : Nat}

theorem liveAt_append (opened : Handle) :
    liveAt (handles ++ [some opened]) version =
      liveAt handles version + if opened.pin = version then 1 else 0 := by
  simp [liveAt, List.countP_append, List.countP_singleton]

theorem liveAt_set (found : handles[index]? = some (some handle)) (slot : Option Handle) :
    liveAt (handles.set index slot) version =
      liveAt handles version - (if handle.pin = version then 1 else 0) +
        if slot.map Handle.pin = some version then 1 else 0 := by
  rcases List.getElem?_eq_some_iff.mp found with ⟨inside, held⟩
  simp [liveAt, List.countP_set inside, held]

theorem liveAt_pos (member : some handle ∈ handles) : 0 < liveAt handles handle.pin :=
  List.countP_pos_iff.mpr ⟨some handle, member, by simp⟩

theorem registers_new : Registers .new [] where
  counts := by simp [OccState.new, liveAt]
  positive := by simp [OccState.new]

theorem Registers.register (registers : Registers occ handles) (opened : Handle) :
    Registers (occ.register opened.pin) (handles ++ [some opened]) where
  counts version := by
    rw [OccState.register, Std.TreeMap.getD_insert, liveAt_append, ← registers.counts]
    by_cases same : opened.pin = version
    · simp [same]
    · simp [same]
  positive version := by
    rw [OccState.register, Std.TreeMap.getElem?_insert]
    by_cases same : opened.pin = version
    · simp [same]
    · simpa [same] using registers.positive version

theorem Registers.set (registers : Registers occ handles)
    (found : handles[index]? = some (some handle)) (updated : Handle)
    (samePin : updated.pin = handle.pin) :
    Registers occ (handles.set index (some updated)) where
  counts version := by
    have positive := liveAt_pos (List.mem_of_getElem? found)
    rw [liveAt_set found, registers.counts, Option.map_some, samePin]
    by_cases same : handle.pin = version
    · subst same
      simp only [if_true]
      omega
    · simp [same]
  positive := registers.positive

theorem Registers.deregister (registers : Registers occ handles)
    (found : handles[index]? = some (some handle)) :
    Registers (occ.deregister handle.pin) (handles.set index none) := by
  have positive := liveAt_pos (List.mem_of_getElem? found)
  rw [← registers.counts, Std.TreeMap.getD_eq_getD_getElem?] at positive
  cases entry : occ.liveStarts[handle.pin]? with
  | none => simp [entry] at positive
  | some count =>
    have counted : count = liveAt handles handle.pin := by
      rw [← registers.counts, Std.TreeMap.getD_eq_getD_getElem?, entry, Option.getD_some]
    have keeps : ∀ version, version ≠ handle.pin →
        liveAt (handles.set index none) version = liveAt handles version := by
      intro version different
      simp [liveAt_set found, Ne.symm different]
    have drops : liveAt (handles.set index none) handle.pin = count - 1 := by
      simp [liveAt_set found, counted]
    unfold OccState.deregister
    rw [entry]
    dsimp only
    split
    · rename_i last
      constructor
      · intro version
        rw [Std.TreeMap.getD_erase]
        by_cases same : handle.pin = version
        · subst same
          simp [drops, last]
        · simp [same, keeps version (Ne.symm same), registers.counts]
      · intro version
        rw [Std.TreeMap.getElem?_erase]
        by_cases same : handle.pin = version
        · simp [same]
        · simpa [same] using registers.positive version
    · rename_i more
      constructor
      · intro version
        rw [Std.TreeMap.getD_insert]
        by_cases same : handle.pin = version
        · subst same
          simp [drops]
        · simp [same, keeps version (Ne.symm same), registers.counts]
      · intro version
        rw [Std.TreeMap.getElem?_insert]
        by_cases same : handle.pin = version
        · simpa [same] using more
        · simpa [same] using registers.positive version

theorem Registers.gc (registers : Registers occ handles) : Registers occ.gc handles :=
  ⟨registers.counts, registers.positive⟩

/-- The collection floor is at or below every live version. -/
theorem Registers.gcFloor_le (registers : Registers occ handles)
    (member : some handle ∈ handles) : occ.gcFloor ≤ handle.pin := by
  have positive := liveAt_pos member
  rw [← registers.counts, Std.TreeMap.getD_eq_getD_getElem?] at positive
  have present : handle.pin ∈ occ.liveStarts := by
    rw [Std.TreeMap.mem_iff_isSome_getElem?]
    cases entry : occ.liveStarts[handle.pin]? with
    | none => simp [entry] at positive
    | some count => rfl
  rw [← Std.TreeMap.mem_keys] at present
  have ordered : occ.liveStarts.keys.Pairwise fun left right => compare left right = .lt :=
    Std.TreeMap.ordered_keys
  rw [OccState.gcFloor]
  cases keys : occ.liveStarts.keys with
  | nil => simp [keys] at present
  | cons least rest =>
    rw [keys] at present ordered
    rw [List.head?_cons, Option.getD_some]
    rcases List.mem_cons.mp present with same | later
    · exact same.symm.le
    · exact Nat.le_of_lt (Nat.compare_eq_lt.mp ((List.pairwise_cons.mp ordered).1 _ later))

end Registry

/-! ## Simulation -/

/-- The database has the ledger's state. Its history may lack commits, but none
that an open handle could still be validated against. -/
structure Simulates (system : System) (ledger : Ledger) : Prop where
  writer : system.db.writer = ledger.writer
  current : system.db.current = ledger.current
  legacy : system.db.occ.lastLegacyVersion = ledger.lastLegacyVersion
  handles : system.handles = ledger.handles
  registers : Registers system.db.occ ledger.handles
  pins_le : ∀ handle, some handle ∈ ledger.handles → handle.pin ≤ ledger.current.version
  commits_le : ∀ entry ∈ ledger.commits, entry.1 ≤ ledger.current.version
  collected : system.db.occ.history.Sublist ledger.commits
  reachable : ∀ handle, some handle ∈ ledger.handles →
    (system.db.occ.history.filter fun entry => decide (handle.pin + 1 ≤ entry.1)) =
      ledger.commits.filter fun entry => decide (handle.pin + 1 ≤ entry.1)

section Simulation

variable {system : System} {ledger : Ledger} {index : Nat} {txn : Txn} {handle : Handle}

theorem simulates_new (db : Database) : Simulates (.new db) (.new db) where
  writer := rfl
  current := rfl
  legacy := rfl
  handles := rfl
  registers := registers_new
  pins_le := by simp [Ledger.new]
  commits_le := by simp [Ledger.new]
  collected := List.Sublist.refl _
  reachable := by simp [Ledger.new]

/-- The checks of a commit read the history only above the start. -/
theorem Simulates.validate (simulates : Simulates system ledger)
    (found : txnAt ledger.handles index = some txn) :
    txn.validate system.db.occ.history system.db.occ.lastLegacyVersion =
      txn.validate ledger.commits ledger.lastLegacyVersion := by
  have reach := simulates.reachable _ (List.mem_of_getElem? (getElem?_of_txnAt found))
  have same : ∀ keys, Txn.overlaps system.db.occ.history txn.startVersion keys =
      Txn.overlaps ledger.commits txn.startVersion keys := by
    intro keys
    rw [Txn.overlaps, Txn.overlaps]
    exact congrArg (List.any · _) reach
  simp only [Txn.validate, simulates.legacy, same]

/-- A handle opened now is newer than every commit. -/
theorem filter_above_current (bounded : ∀ entry ∈ ledger.commits, entry.1 ≤ ledger.current.version)
    {history : List (Nat × Finset Text)} (collected : history.Sublist ledger.commits) :
    (history.filter fun entry => decide (ledger.current.version + 1 ≤ entry.1)) = [] := by
  rw [List.filter_eq_nil_iff]
  intro entry member
  have below := bounded entry (collected.subset member)
  simp only [decide_eq_true_eq]
  omega

/-- Opening a handle at the current version. -/
theorem Simulates.open (simulates : Simulates system ledger) (opened : Handle)
    (pinned : opened.pin = ledger.current.version) :
    Simulates
      { db := { system.db with occ := system.db.occ.register system.db.current.version }
        handles := system.handles ++ [some opened] }
      { ledger with handles := ledger.handles ++ [some opened] } where
  writer := simulates.writer
  current := simulates.current
  legacy := simulates.legacy
  handles := by rw [simulates.handles]
  registers := by
    rw [simulates.current, ← pinned]
    exact simulates.registers.register opened
  pins_le handle member := by
    rcases List.mem_append.mp member with old | new
    · exact simulates.pins_le handle old
    · cases List.mem_singleton.mp new
      exact pinned.le
  commits_le := simulates.commits_le
  collected := simulates.collected
  reachable handle member := by
    rcases List.mem_append.mp member with old | new
    · exact simulates.reachable handle old
    · cases List.mem_singleton.mp new
      rw [pinned, filter_above_current simulates.commits_le (List.Sublist.refl _)]
      exact filter_above_current simulates.commits_le simulates.collected

/-- A buffered write or a tracked read changes nothing shared. -/
theorem Simulates.setTxn (simulates : Simulates system ledger)
    (found : txnAt ledger.handles index = some txn) {updated : Txn}
    (samePin : updated.startVersion = txn.startVersion) :
    Simulates (system.setTxn index updated) (ledger.setTxn index updated) := by
  have entry := getElem?_of_txnAt found
  have keeps : ∀ handle, some handle ∈ ledger.handles.set index (some (.txn updated)) →
      ∃ old, some old ∈ ledger.handles ∧ old.pin = handle.pin := by
    intro handle member
    rcases List.mem_or_eq_of_mem_set member with old | new
    · exact ⟨handle, old, rfl⟩
    · cases new
      exact ⟨.txn txn, List.mem_of_getElem? entry, samePin.symm⟩
  constructor
  case writer => exact simulates.writer
  case current => exact simulates.current
  case legacy => exact simulates.legacy
  case handles => rw [System.setTxn, Ledger.setTxn, simulates.handles]
  case registers => exact simulates.registers.set entry (.txn updated) samePin
  case pins_le =>
    intro handle member
    rcases keeps handle member with ⟨old, present, same⟩
    exact same ▸ simulates.pins_le old present
  case commits_le => exact simulates.commits_le
  case collected => exact simulates.collected
  case reachable =>
    intro handle member
    rcases keeps handle member with ⟨old, present, same⟩
    exact same ▸ simulates.reachable old present

/-- Closing a handle and collecting afterwards. What is collected lies at or below
every handle that stays open. -/
theorem Simulates.retire (simulates : Simulates system ledger)
    (found : ledger.handles[index]? = some (some handle)) :
    Simulates (system.close index (system.db.retire handle.pin)) (ledger.close index) := by
  have registers := simulates.registers.deregister found
  have remains : ∀ kept, some kept ∈ ledger.handles.set index none → some kept ∈ ledger.handles := by
    intro kept member
    rcases List.mem_or_eq_of_mem_set member with old | new
    · exact old
    · cases new
  have history : (system.db.occ.deregister handle.pin).history = system.db.occ.history := by
    unfold OccState.deregister
    split
    · split <;> rfl
    · rfl
  have legacy : (system.db.occ.deregister handle.pin).lastLegacyVersion =
      system.db.occ.lastLegacyVersion := by
    unfold OccState.deregister
    split
    · split <;> rfl
    · rfl
  constructor
  case writer => exact simulates.writer
  case current => exact simulates.current
  case legacy => exact legacy.trans simulates.legacy
  case handles => rw [System.close, Ledger.close, simulates.handles]
  case registers => exact registers.gc
  case pins_le => exact fun kept member => simulates.pins_le kept (remains kept member)
  case commits_le => exact simulates.commits_le
  case collected =>
    have sublist : (system.close index (system.db.retire handle.pin)).db.occ.history.Sublist
        system.db.occ.history := by
      rw [← history]
      exact List.filter_sublist
    exact sublist.trans simulates.collected
  case reachable =>
    intro kept member
    have below := registers.gcFloor_le member
    rw [Ledger.close, ← simulates.reachable kept (remains kept member)]
    change ((system.db.occ.deregister handle.pin).history.filter _).filter _ = _
    rw [history, List.filter_filter]
    apply List.filter_congr
    intro entry present
    simp only [Bool.and_eq_left_iff_imp, decide_eq_true_eq]
    intro above
    omega

/-- Publishing a commit and recording its write set. -/
theorem Simulates.addCommit (simulates : Simulates system ledger) (db : Database) (txn : Txn) :
    Simulates { system with db := (system.db.publish db).recordCommit txn }
      ((ledger.publish db).addCommit txn) where
  writer := rfl
  current := by simp [ConcurrentDb.recordCommit, ConcurrentDb.publish, Ledger.addCommit,
    Ledger.publish, simulates.current]
  legacy := simulates.legacy
  handles := simulates.handles
  registers := ⟨simulates.registers.counts, simulates.registers.positive⟩
  pins_le handle member := Nat.le_succ_of_le (simulates.pins_le handle member)
  commits_le entry member := by
    rcases List.mem_append.mp member with old | new
    · exact Nat.le_succ_of_le (simulates.commits_le entry old)
    · cases List.mem_singleton.mp new
      exact Nat.le_refl _
  collected := by
    change (_ ++ _ : List _).Sublist (_ ++ _)
    rw [show (system.db.publish db).current.version = (ledger.publish db).current.version from
      congrArg (·.version + 1) simulates.current]
    exact simulates.collected.append (List.Sublist.refl _)
  reachable handle member := by
    change (_ ++ _ : List _).filter _ = (_ ++ _ : List _).filter _
    rw [show (system.db.publish db).current.version = (ledger.publish db).current.version from
      congrArg (·.version + 1) simulates.current]
    rw [List.filter_append, List.filter_append]
    exact congrArg (· ++ _) (simulates.reachable handle member)

theorem Simulates.legacyWrite (simulates : Simulates system ledger) (db : Database) :
    Simulates { system with db := system.db.legacyWrite db }
      { ledger.publish db with lastLegacyVersion := (ledger.publish db).current.version } where
  writer := rfl
  current := by simp [ConcurrentDb.legacyWrite, ConcurrentDb.publish, Ledger.publish,
    simulates.current]
  legacy := by simp [ConcurrentDb.legacyWrite, ConcurrentDb.publish, Ledger.publish,
    simulates.current]
  handles := simulates.handles
  registers := ⟨simulates.registers.counts, simulates.registers.positive⟩
  pins_le handle member := Nat.le_succ_of_le (simulates.pins_le handle member)
  commits_le entry member := Nat.le_succ_of_le (simulates.commits_le entry member)
  collected := simulates.collected
  reachable := simulates.reachable

/-- The database answers every call as the ledger does. -/
theorem Simulates.step (simulates : Simulates system ledger) (action : Action) :
    Option.Rel (fun left right => left.1 = right.1 ∧ Simulates left.2 right.2)
      (system.step action) (ledger.step action) := by
  have onTxn : ∀ index (result : Txn → Option (Output × System))
      (expected : Txn → Option (Output × Ledger)),
      (∀ txn, txnAt ledger.handles index = some txn →
        Option.Rel (fun left right => left.1 = right.1 ∧ Simulates left.2 right.2)
          (result txn) (expected txn)) →
      Option.Rel (fun left right => left.1 = right.1 ∧ Simulates left.2 right.2)
        (txnAt system.handles index >>= result) (txnAt ledger.handles index >>= expected) := by
    intro index result expected related
    rw [simulates.handles]
    cases found : txnAt ledger.handles index with
    | none => exact .none
    | some txn => exact related txn found
  cases action with
  | begin level =>
    have opens := simulates.open (.txn (.start ledger.current level)) rfl
    refine .some ⟨congrArg (fun handles => Output.opened handles.length) simulates.handles, ?_⟩
    change Simulates { db := _, handles := system.handles ++ [some (.txn (.start _ level))] } _
    rw [show Txn.start system.db.current level = Txn.start ledger.current level from
      congrArg (Txn.start · level) simulates.current]
    exact opens
  | insert index triple =>
    apply onTxn
    intro txn found
    exact .some ⟨rfl, simulates.setTxn found rfl⟩
  | delete index triple =>
    apply onTxn
    intro txn found
    exact .some ⟨rfl, simulates.setTxn found rfl⟩
  | contains index triple =>
    apply onTxn
    intro txn found
    exact .some ⟨by rw [simulates.current], simulates⟩
  | read index triple =>
    apply onTxn
    intro txn found
    exact .some ⟨by rw [simulates.current], simulates.setTxn found rfl⟩
  | commit index =>
    apply onTxn
    intro txn found
    have checks := simulates.validate found
    have entry := getElem?_of_txnAt found
    rw [ConcurrentDb.commit, checks]
    cases txn.validate ledger.commits ledger.lastLegacyVersion with
    | some kind => exact .some ⟨rfl, simulates.retire entry⟩
    | none =>
      rw [simulates.writer]
      dsimp only
      cases txn.ops.foldlM TxnOp.apply ledger.writer with
      | none => exact .none
      | some db =>
        have version : (system.db.publish db).current.version =
            (ledger.publish db).current.version := congrArg (·.version + 1) simulates.current
        have retired : Simulates (system.close index
            (((system.db.publish db).recordCommit txn).retire txn.startVersion))
            (((ledger.publish db).addCommit txn).close index) := by
          simpa only [System.close, Handle.pin] using
            (simulates.addCommit db txn).retire entry
        exact .some ⟨congrArg Output.committed version, retired⟩
  | abort index =>
    apply onTxn
    intro txn found
    exact .some ⟨rfl, simulates.retire (getElem?_of_txnAt found)⟩
  | openView =>
    have opens := simulates.open (.view ledger.current.version) rfl
    refine .some ⟨congrArg (fun handles => Output.opened handles.length) simulates.handles, ?_⟩
    change Simulates { db := _, handles := system.handles ++ [some (.view _)] } _
    rw [show system.db.current.version = ledger.current.version from
      congrArg Snapshot.version simulates.current] at opens ⊢
    exact opens
  | closeView index =>
    simp only [System.step, Ledger.step]
    rw [simulates.handles]
    cases found : viewAt ledger.handles index with
    | none => exact .none
    | some version => exact .some ⟨rfl, simulates.retire (getElem?_of_viewAt found)⟩
  | legacyWrite db => exact .some ⟨rfl, simulates.legacyWrite db⟩

end Simulation

end GStore.Concurrent
