import GStore.Concurrent.SnapshotIsolation
import GStore.Concurrent.VersionChains
import GStore.Query.Path

/-! # Version-pinned views

A view resolves each key through the shared chains. In a run whose writes are all
transactional it answers as the snapshot of its version does, for as long as it
lives. -/

namespace GStore.Concurrent

open Db Dict Store

/-! ## Growth of a database under transactions -/

/-- What transactions leave alone: the ids already given out, the named graphs,
and the triples that are not RDF. -/
structure Grown (start db : Database) : Prop where
  dict : start.dict.Extends db.dict
  named : db.named = start.named
  foreign : ∀ triple : Triple, (∀ rdf : RdfTriple, ¬ triple.SameKeys rdf.toTriple) →
    db.contains triple = start.contains triple

theorem Grown.refl (db : Database) : Grown db db := ⟨.refl _, rfl, fun _ _ => rfl⟩

theorem Grown.apply {start db applied : Database} (grown : Grown start db) {op : TxnOp}
    (result : op.apply db = some applied) : Grown start applied := by
  cases op with
  | insert triple =>
    rcases Option.map_eq_some_iff.mp result with ⟨⟨inserted, changed⟩, found, rfl⟩
    rcases Database.insertTriple_cases found with ⟨dict, id, encoded, dictEq, -, named⟩
    have grows := (Dictionary.encodeTriple_spec db.valid.dictionary encoded).2.1
    refine ⟨grown.dict.trans (dictEq ▸ grows), named.trans grown.named, ?_⟩
    intro other foreign
    rw [Database.contains_insertTriple found, decide_eq_false (foreign triple), Bool.false_or]
    exact grown.foreign other foreign
  | delete triple =>
    cases Option.some.inj result
    refine ⟨?_, ?_, ?_⟩
    · unfold Database.removeTriple
      split <;> exact grown.dict
    · unfold Database.removeTriple
      split <;> exact grown.named
    · intro other foreign
      rw [Database.contains_removeTriple, decide_eq_false (foreign triple), Bool.not_false,
        Bool.true_and]
      exact grown.foreign other foreign

theorem Grown.foldlM {start db applied : Database} (grown : Grown start db) {ops : List TxnOp}
    (result : ops.foldlM TxnOp.apply db = some applied) : Grown start applied := by
  induction ops generalizing db with
  | nil =>
    cases Option.some.inj result
    exact grown
  | cons op rest induction =>
    rw [List.foldlM_cons, Option.bind_eq_bind, Option.bind_eq_some_iff] at result
    rcases result with ⟨next, first, others⟩
    exact induction (grown.apply first) others

/-! ## What a call does to the chains -/

theorem viewAt_append {handles : List (Option Handle)} {opened : Handle} {handle version : Nat}
    (found : viewAt (handles ++ [some opened]) handle = some version) :
    viewAt handles handle = some version ∨
      (handle = handles.length ∧ opened = .view version) := by
  have entry := getElem?_of_viewAt found
  by_cases inside : handle < handles.length
  · rw [List.getElem?_append_left inside] at entry
    exact .inl (by simp [viewAt, entry])
  · rw [List.getElem?_append_right (Nat.le_of_not_lt inside), List.getElem?_singleton] at entry
    split at entry
    · exact .inr ⟨by omega, Option.some.inj (Option.some.inj entry)⟩
    · cases entry

theorem viewAt_set {handles : List (Option Handle)} {slot : Option Handle} {index handle version : Nat}
    (found : viewAt (handles.set index slot) handle = some version)
    (noView : ∀ version, slot ≠ some (.view version)) : viewAt handles handle = some version := by
  have entry := getElem?_of_viewAt found
  by_cases same : index = handle
  · subst same
    rw [List.getElem?_set_self'] at entry
    rcases Option.map_eq_some_iff.mp entry with ⟨_, _, replaced⟩
    exact absurd replaced (noView version)
  · rw [List.getElem?_set_ne same] at entry
    simp [viewAt, entry]

/-- The calls of a run without legacy writes, by what they do to the chains. -/
inductive Shifts (system : System) (action : Action) (output : Output) : System → Prop
  | opens (occ : OccState) (opened : Handle) (out : output = .opened system.handles.length)
      (view : ∀ version, opened = .view version → version = system.db.current.version) :
      Shifts system action output
        { db := { system.db with occ }, handles := system.handles ++ [some opened] }
  | keeps (index : Nat) (txn : Txn) (noOpen : action ≠ .openView) :
      Shifts system action output
        { system with handles := system.handles.set index (some (.txn txn)) }
  | reads (noOpen : action ≠ .openView) : Shifts system action output system
  | retires (index pin : Nat) (noOpen : action ≠ .openView) :
      Shifts system action output (system.close index (system.db.retire pin))
  | commits (index : Nat) (txn : Txn) (db : Database) (noOpen : action ≠ .openView)
      (applied : txn.ops.foldlM TxnOp.apply system.db.writer = some db) :
      Shifts system action output
        (system.close index (((system.db.publish db).recordCommit txn).retire txn.startVersion))

theorem viewContains_eq (db : ConcurrentDb) (version : Nat) (triple : RdfTriple) :
    db.viewContains version triple = db.versioned.present db.base version triple := rfl

/-- Beyond the newest record all versions read alike. -/
theorem present_of_bounded {store : VersionedStore} {version later : Nat} (base : Snapshot)
    (kept : store.WellKept version) (above : version ≤ later) (triple : RdfTriple) :
    store.present base later triple = store.present base version triple := by
  cases found : store.lookup triple.key with
  | none =>
    rw [VersionedStore.present_of_lookup_none found,
      VersionedStore.present_of_lookup_none found]
  | some chain =>
    rw [VersionedStore.present_of_lookup found, VersionedStore.present_of_lookup found,
      VersionedStore.chainPresent, VersionedStore.chainPresent,
      Chain.visible_of_bounded (kept.bounded _ _ found) above]

/-- The chains say what the published snapshot holds. -/
structure Current (start : Database) (db : ConcurrentDb) : Prop where
  base : db.base = ⟨start, 1⟩
  kept : db.versioned.WellKept db.current.version
  published : db.current.db = db.writer
  latest : ∀ triple : RdfTriple,
    db.viewContains db.current.version triple = db.current.contains triple.toTriple
  grown : Grown start db.current.db

/-- A view opened by an event still reads the snapshot of that event. -/
structure Pinned (start : Database) (event : Event System Action Output) (system : System)
    (handle : Nat) : Prop where
  opened : handle < system.handles.length
  grown : Grown start event.before.db.current.db
  reads : ∀ version, viewAt system.handles handle = some version →
    version = event.before.db.current.version ∧ ∀ triple : RdfTriple,
      system.db.viewContains version triple = event.before.db.current.contains triple.toTriple

section Step

variable {start : Database} {system : System} {event : Event System Action Output} {handle : Nat}

/-- Collection shows neither at the current version nor at a pinned one. -/
theorem Current.retire {db : ConcurrentDb} (current : Current start db) (pin : Nat) :
    Current start (db.retire pin) where
  base := current.base
  kept := current.kept.gc
  published := current.published
  latest triple := by
    -- The floor may lie above the current version, where nothing changes any more.
    have above : db.current.version ≤ max db.current.version (db.retire pin).occ.gcFloor :=
      Nat.le_max_left _ _
    have collected : (db.versioned.gc (db.retire pin).occ.gcFloor db.base).present db.base
        (max db.current.version (db.retire pin).occ.gcFloor) triple = _ :=
      VersionedStore.present_gc current.kept (Nat.le_max_right _ _) triple
    rw [present_of_bounded db.base current.kept above,
      present_of_bounded db.base current.kept.gc above] at collected
    exact collected.trans (current.latest triple)
  grown := current.grown

theorem Pinned.retire (pinned : Pinned start event system handle) (current : Current start system.db)
    (index pin : Nat)
    (floor : ∀ version, viewAt (system.handles.set index none) handle = some version →
      (system.db.retire pin).occ.gcFloor ≤ version) :
    Pinned start event (system.close index (system.db.retire pin)) handle where
  opened := by simpa [System.close] using pinned.opened
  grown := pinned.grown
  reads version found := by
    have before := pinned.reads version (viewAt_set found (by simp))
    refine ⟨before.1, ?_⟩
    intro triple
    rw [← before.2 triple]
    exact VersionedStore.present_gc current.kept (floor version found) triple

/-- A commit is seen from its version on, and not before. -/
theorem Current.commit {db : ConcurrentDb} (current : Current start db) {txn : Txn}
    {written : Database} (applied : txn.ops.foldlM TxnOp.apply db.writer = some written) :
    Current start ((db.publish written).recordCommit txn) where
  base := current.base
  kept := current.kept.recordAll (Nat.le_succ _) (Txn.net txn.ops)
  published := rfl
  latest triple := by
    have keyed := Txn.net_keyed txn.ops
    have seen := VersionedStore.present_recordAll_after db.versioned db.base
      (Nat.le_refl (db.current.version + 1)) keyed.1 keyed.2 triple
    rw [present_of_bounded db.base current.kept (Nat.le_succ _), ← viewContains_eq,
      current.latest] at seen
    have net := Txn.netPresent_net txn.ops triple.key (db.current.contains triple.toTriple)
    rw [← current.published] at applied
    rw [Bool.eq_iff_iff]
    refine Iff.trans ?_ (mem_graph_foldlM applied triple.toTriple).symm
    rw [mem_foldl_onGraph txn.ops _ triple (db.current.contains triple.toTriple) Iff.rfl, ← net]
    refine Iff.trans (Bool.eq_iff_iff.mp seen) ?_
    cases (Txn.net txn.ops).lookup triple.key <;> rfl
  grown := by
    rw [← current.published] at applied
    exact current.grown.foldlM applied

theorem Pinned.commit (pinned : Pinned start event system handle) {txn : Txn} {written : Database}
    (below : ∀ version, viewAt system.handles handle = some version →
      version ≤ system.db.current.version) :
    Pinned start event { system with db := (system.db.publish written).recordCommit txn } handle where
  opened := pinned.opened
  grown := pinned.grown
  reads version found := by
    have before := pinned.reads version found
    refine ⟨before.1, ?_⟩
    intro triple
    rw [← before.2 triple]
    exact VersionedStore.present_recordAll_before system.db.versioned system.db.base
      (Nat.lt_succ_of_le (below version found)) _ triple

/-- Every call of a transactional run keeps the chains current and the open views
pinned. -/
theorem Current.shift (current : Current start system.db) {next : System} {action : Action}
    {output : Output} (shifts : Shifts system action output next) : Current start next.db := by
  cases shifts with
  | opens occ opened out view =>
    exact ⟨current.base, current.kept, current.published, current.latest, current.grown⟩
  | keeps index txn noOpen => exact current
  | reads noOpen => exact current
  | retires index pin noOpen => exact current.retire pin
  | commits index txn db noOpen applied => exact (current.commit applied).retire _

theorem Pinned.shift (pinned : Pinned start event system handle)
    (current : Current start system.db) {next : System} {action : Action} {output : Output}
    (shifts : Shifts system action output next)
    (below : ∀ version, viewAt system.handles handle = some version →
      version ≤ system.db.current.version)
    (floor : ∀ version, viewAt next.handles handle = some version →
      next.db.occ.gcFloor ≤ version) :
    Pinned start event next handle := by
  cases shifts with
  | opens occ opened out view =>
    refine ⟨by simpa using Nat.lt_succ_of_lt pinned.opened, pinned.grown, ?_⟩
    intro version found
    rcases viewAt_append found with old | ⟨rfl, -⟩
    · exact pinned.reads version old
    · exact absurd pinned.opened (Nat.lt_irrefl _)
  | keeps index txn noOpen =>
    refine ⟨by simpa using pinned.opened, pinned.grown, ?_⟩
    intro version found
    exact pinned.reads version (viewAt_set found (by simp))
  | reads noOpen => exact pinned
  | retires index pin noOpen => exact pinned.retire current index pin floor
  | commits index txn db noOpen applied =>
    exact (pinned.commit below).retire (current.commit applied) index _ floor

end Step

section Materialize

variable {version : Nat} {target : Dictionary}

end Materialize

/-! ## Views and snapshots -/

open Query

/-- `<a> <p> <b>`. -/
def edge : RdfTriple where
  subject := .iri ['a']
  predicate := .iri ['p']
  object := .iri ['b']
  wellFormed := ⟨by decide, by decide, by decide⟩

end GStore.Concurrent
