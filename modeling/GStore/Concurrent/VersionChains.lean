import GStore.Concurrent.ConcurrentDb

/-! # Version chains

What a reader pinned at a version sees through the chains and the base snapshot,
and why neither a new record nor a collection changes it. -/

namespace GStore.Concurrent

open Db Dict Store

/-! ## Records -/

namespace Chain

/-- A record is seen from its version on, and hides the ones before it. -/
theorem visible_append (triple : RdfTriple) (records : List VersionRecord) (record : VersionRecord)
    (version : Nat) :
    visible { triple, records := records ++ [record] } version =
      if record.version ≤ version then some record else visible { triple, records } version := by
  simp only [visible, List.reverse_append, List.reverse_cons, List.reverse_nil, List.nil_append,
    List.cons_append, List.find?_cons]
  by_cases seen : record.version ≤ version
  · simp [seen]
  · simp [seen]

/-- Records before one that is seen are hidden. -/
theorem visible_drop {triple : RdfTriple} {before after : List VersionRecord} {version : Nat}
    (seen : ∃ record ∈ after, record.version ≤ version) :
    visible { triple, records := before ++ after } version =
      visible { triple, records := after } version := by
  simp only [visible, List.reverse_append, List.find?_append]
  rcases seen with ⟨record, member, below⟩
  have found : (after.reverse.find? fun record => decide (record.version ≤ version)).isSome := by
    rw [List.find?_isSome]
    exact ⟨record, List.mem_reverse.mpr member, by simpa using below⟩
  rcases Option.isSome_iff_exists.mp found with ⟨first, isFirst⟩
  rw [isFirst, Option.some_or]

/-- From the last record on, every version sees the same. -/
theorem visible_of_bounded {chain : Chain} {version later : Nat}
    (bounded : ∀ record ∈ chain.records, record.version ≤ version) (above : version ≤ later) :
    chain.visible later = chain.visible version := by
  unfold visible
  apply List.find?_congr
  intro record member
  have below := bounded record (List.mem_reverse.mp member)
  rw [decide_eq_true (Nat.le_trans below above), decide_eq_true below]

end Chain

theorem rposition_eq_some {α : Type} {test : α → Bool} {list : List α} {position : Nat}
    (found : rposition test list = some position) :
    ∃ value, list[position]? = some value ∧ test value = true := by
  rcases Option.map_eq_some_iff.mp found with ⟨fromEnd, index, rfl⟩
  rw [List.findIdx?_eq_some_iff_getElem] at index
  rcases index with ⟨inside, holds, -⟩
  rw [List.getElem_reverse] at holds
  exact ⟨_, List.getElem?_eq_getElem (by simp at inside; omega), holds⟩

namespace Chain

/-- Draining drops records before one that is at or below the floor. -/
theorem drain_cases (chain : Chain) (floor : Nat) :
    (chain.drain floor).triple = chain.triple ∧
      ∃ dropped, chain.records = dropped ++ (chain.drain floor).records ∧
        (dropped = [] ∨ ∃ record ∈ (chain.drain floor).records, record.version ≤ floor) := by
  unfold drain
  split
  · rename_i anchor found
    refine ⟨rfl, chain.records.take anchor, (List.take_append_drop _ _).symm, .inr ?_⟩
    rcases rposition_eq_some found with ⟨record, at_anchor, below⟩
    refine ⟨record, ?_, by simpa using below⟩
    rcases List.getElem?_eq_some_iff.mp at_anchor with ⟨inside, rfl⟩
    rw [List.drop_eq_getElem_cons inside]
    exact List.mem_cons_self
  · exact ⟨rfl, [], rfl, .inl rfl⟩

theorem visible_drain (chain : Chain) {floor version : Nat} (above : floor ≤ version) :
    (chain.drain floor).visible version = chain.visible version := by
  rcases chain.drain_cases floor with ⟨-, dropped, split, rfl | ⟨record, member, below⟩⟩
  · simp only [visible, split, List.nil_append]
  · have hidden : visible ⟨chain.triple, dropped ++ (chain.drain floor).records⟩ version =
        visible ⟨chain.triple, (chain.drain floor).records⟩ version :=
      visible_drop ⟨record, member, Nat.le_trans below above⟩
    rw [← split] at hidden
    exact hidden.symm

end Chain

/-! ## What a pinned reader sees -/

namespace VersionedStore

/-- Each chain stands under the key of its triple, once, and has no record above
a version. -/
structure WellKept (store : VersionedStore) (version : Nat) : Prop where
  nodup : (store.map Prod.fst).Nodup
  keyed : ∀ key chain, store.lookup key = some chain → chain.triple.key = key
  bounded : ∀ key chain, store.lookup key = some chain →
    ∀ record ∈ chain.records, record.version ≤ version

/-- Presence through the chains, or else in the base. -/
def present (store : VersionedStore) (base : Snapshot) (version : Nat) (triple : RdfTriple) : Bool :=
  match store.visiblePresent triple.key version with
  | some present => present
  | none => base.contains triple.toTriple

/-- Presence by one chain. -/
def chainPresent (base : Snapshot) (version : Nat) (triple : RdfTriple) (chain : Chain) : Bool :=
  match chain.visible version with
  | some record => decide (record.op = .insert)
  | none => base.contains triple.toTriple

theorem present_of_lookup {store : VersionedStore} {base : Snapshot} {version : Nat}
    {triple : RdfTriple} {chain : Chain} (found : store.lookup triple.key = some chain) :
    store.present base version triple = chainPresent base version triple chain := by
  simp only [present, visiblePresent, chainPresent, found, Option.bind_some]
  cases chain.visible version <;> rfl

theorem present_of_lookup_none {store : VersionedStore} {base : Snapshot} {version : Nat}
    {triple : RdfTriple} (missing : store.lookup triple.key = none) :
    store.present base version triple = base.contains triple.toTriple := by
  simp [present, visiblePresent, missing]

section Collect

variable {store : VersionedStore} {base : Snapshot} {version floor : Nat}

theorem lookup_gc (kept : store.WellKept version) (key : Text) :
    (store.gc floor base).lookup key = (store.lookup key).bind (Chain.collect floor base) :=
  lookup_filterMap (Chain.collect floor base) kept.nodup key

/-- A dropped chain says nothing the base does not say. -/
theorem chainPresent_of_not_retained {chain : Chain} (redundant : chain.retained base = false)
    (triple : RdfTriple) (same : chain.triple = triple) :
    chainPresent base version triple chain = base.contains triple.toTriple := by
  unfold Chain.retained at redundant
  split at redundant
  · rename_i records
    simp [chainPresent, Chain.visible, records]
  · rename_i only records
    rw [bne_eq_false_iff_eq, same] at redundant
    by_cases seen : only.version ≤ version
    · simp [chainPresent, Chain.visible, records, seen, redundant]
    · simp [chainPresent, Chain.visible, records, seen]
  · cases redundant

/-- Collection is invisible to every reader at or above the floor. -/
theorem present_gc (kept : store.WellKept version) {pinned : Nat} (above : floor ≤ pinned)
    (triple : RdfTriple) :
    (store.gc floor base).present base pinned triple = store.present base pinned triple := by
  have found : (store.gc floor base).lookup triple.key = _ := lookup_gc kept triple.key
  cases entry : store.lookup triple.key with
  | none =>
    rw [entry, Option.bind_none] at found
    rw [present_of_lookup_none found, present_of_lookup_none entry]
  | some chain =>
    have drained : chainPresent base pinned triple (chain.drain floor) =
        chainPresent base pinned triple chain := by
      simp only [chainPresent, chain.visible_drain above]
    rw [entry, Option.bind_some, Chain.collect] at found
    rw [present_of_lookup entry, ← drained]
    cases retained : (chain.drain floor).retained base with
    | true =>
      rw [Option.filter_some_pos retained] at found
      exact present_of_lookup found
    | false =>
      rw [Option.filter_some_neg (by simp [retained])] at found
      have same : (chain.drain floor).triple = triple := by
        rw [(chain.drain_cases floor).1]
        exact RdfTriple.key_injective (kept.keyed _ _ entry)
      rw [present_of_lookup_none found, chainPresent_of_not_retained retained triple same]

theorem WellKept.gc (kept : store.WellKept version) : (store.gc floor base).WellKept version := by
  have origin : ∀ key chain, (store.gc floor base).lookup key = some chain →
      ∃ old, store.lookup key = some old ∧ old.drain floor = chain := by
    intro key chain found
    rw [lookup_gc kept] at found
    rcases Option.bind_eq_some_iff.mp found with ⟨old, entry, filtered⟩
    exact ⟨old, entry, Option.some.inj (Option.filter_eq_some_iff.mp filtered).1⟩
  constructor
  case nodup => exact nodup_keys_filterMap (Chain.collect floor base) kept.nodup
  case keyed =>
    intro key chain found
    rcases origin key chain found with ⟨old, entry, rfl⟩
    rw [(old.drain_cases floor).1]
    exact kept.keyed key old entry
  case bounded =>
    intro key chain found record member
    rcases origin key chain found with ⟨old, entry, rfl⟩
    rcases (old.drain_cases floor).2 with ⟨dropped, split, -⟩
    exact kept.bounded key old entry record (split ▸ List.mem_append_right _ member)

end Collect

section Record

variable {store : VersionedStore} {base : Snapshot} {version : Nat}

theorem lookup_record (store : VersionedStore) (stamp : Nat) (triple : RdfTriple) (op : ChainOp)
    (key : Text) :
    (store.record stamp triple op).lookup key =
      if key = triple.key then
        some ⟨((store.lookup triple.key).getD ⟨triple, []⟩).triple,
          ((store.lookup triple.key).getD ⟨triple, []⟩).records ++ [⟨stamp, op⟩]⟩
      else
        store.lookup key := by
  rw [record, lookup_assocInsert]
  by_cases same : key = triple.key <;> simp [same]

/-- A new record is seen by readers of its key from its version on. -/
theorem present_record (store : VersionedStore) (base : Snapshot) (stamp pinned : Nat)
    (triple other : RdfTriple) (op : ChainOp) :
    (store.record stamp triple op).present base pinned other =
      if other = triple ∧ stamp ≤ pinned then decide (op = .insert)
      else store.present base pinned other := by
  have found := lookup_record store stamp triple op other.key
  by_cases same : other = triple
  · subst same
    rw [if_pos rfl] at found
    rw [present_of_lookup found, chainPresent, Chain.visible_append]
    by_cases seen : stamp ≤ pinned
    · simp [seen]
    · simp only [seen, and_false, if_false]
      cases entry : store.lookup other.key with
      | none => simp [present_of_lookup_none entry, Chain.visible]
      | some chain => simp [present_of_lookup entry, chainPresent]
  · have different : other.key ≠ triple.key := fun equal => same (RdfTriple.key_injective equal)
    rw [if_neg different] at found
    rw [if_neg (fun both => same both.1)]
    simp only [present, visiblePresent, found]

theorem WellKept.record (kept : store.WellKept version) {stamp : Nat} (newest : version ≤ stamp)
    (triple : RdfTriple) (op : ChainOp) : (store.record stamp triple op).WellKept stamp where
  nodup := nodup_keys_assocInsert _ _ kept.nodup
  keyed key chain found := by
    rw [lookup_record] at found
    split at found
    · rename_i same
      cases Option.some.inj found
      cases entry : store.lookup triple.key with
      | none => exact same.symm
      | some old => exact (kept.keyed _ _ entry).trans same.symm
    · exact kept.keyed key chain found
  bounded key chain found record member := by
    rw [lookup_record] at found
    split at found
    · cases Option.some.inj found
      rcases List.mem_append.mp member with old | new
      · cases entry : store.lookup triple.key with
        | none => simp [entry] at old
        | some chain =>
          rw [entry, Option.getD_some] at old
          exact Nat.le_trans (kept.bounded _ _ entry record old) newest
      · cases List.mem_singleton.mp new
        exact Nat.le_refl _
    · exact Nat.le_trans (kept.bounded key chain found record member) newest

end Record

/-! ## The records of a commit -/

/-- The records of a commit, one for each entry. -/
def recordAll (store : VersionedStore) (stamp : Nat) (entries : List (Text × RdfTriple × ChainOp)) :
    VersionedStore :=
  entries.foldl (fun store entry => store.record stamp entry.2.1 entry.2.2) store

theorem WellKept.recordAll {store : VersionedStore} {version stamp : Nat}
    (kept : store.WellKept version) (newest : version ≤ stamp)
    (entries : List (Text × RdfTriple × ChainOp)) :
    (store.recordAll stamp entries).WellKept stamp := by
  have raised : store.WellKept stamp :=
    ⟨kept.nodup, kept.keyed, fun key chain found record member =>
      Nat.le_trans (kept.bounded key chain found record member) newest⟩
  clear kept newest
  unfold VersionedStore.recordAll
  induction entries generalizing store with
  | nil => exact raised
  | cons entry rest induction =>
    exact induction (raised.record (Nat.le_refl _) entry.2.1 entry.2.2)

/-- Readers pinned before a commit do not see it. -/
theorem present_recordAll_before (store : VersionedStore) (base : Snapshot) {stamp pinned : Nat}
    (before : pinned < stamp) (entries : List (Text × RdfTriple × ChainOp)) (triple : RdfTriple) :
    (store.recordAll stamp entries).present base pinned triple =
      store.present base pinned triple := by
  unfold VersionedStore.recordAll
  induction entries generalizing store with
  | nil => rfl
  | cons entry rest induction =>
    rw [List.foldl_cons, induction, present_record, if_neg (fun both => by omega)]

/-- Later readers see the entry of the key, if there is one. -/
theorem present_recordAll_after (store : VersionedStore) (base : Snapshot) {stamp pinned : Nat}
    (after : stamp ≤ pinned) {entries : List (Text × RdfTriple × ChainOp)}
    (nodup : (entries.map Prod.fst).Nodup)
    (keyed : ∀ entry ∈ entries, entry.2.1.key = entry.1) (triple : RdfTriple) :
    (store.recordAll stamp entries).present base pinned triple =
      match entries.lookup triple.key with
      | some entry => decide (entry.2 = .insert)
      | none => store.present base pinned triple := by
  unfold VersionedStore.recordAll
  induction entries generalizing store with
  | nil => rfl
  | cons entry rest induction =>
    have parts := List.nodup_cons.mp nodup
    have keyedRest : ∀ entry ∈ rest, entry.2.1.key = entry.1 := fun other member =>
      keyed other (List.mem_cons_of_mem _ member)
    rw [List.foldl_cons, induction _ parts.2 keyedRest, lookup_cons_eq_ite]
    have own := keyed entry List.mem_cons_self
    by_cases same : triple = entry.2.1
    · have absent : rest.lookup triple.key = none := by
        cases found : rest.lookup triple.key with
        | none => rfl
        | some value =>
          have member := List.mem_map_of_mem (f := Prod.fst) (mem_of_lookup_eq_some found)
          exact absurd member (by rw [same, own]; exact parts.1)
      rw [absent, present_record]
      simp [same, own, after]
    · have different : triple.key ≠ entry.1 := fun equal =>
        same (RdfTriple.key_injective (equal.trans own.symm))
      rw [if_neg (by simpa using different), present_record, if_neg (fun both => same both.1)]

end VersionedStore

namespace Txn

/-- One buffered write of the net map. -/
def netStep (entries : List (Text × RdfTriple × ChainOp)) (op : TxnOp) :
    List (Text × RdfTriple × ChainOp) :=
  match op with
  | .insert triple => assocInsert triple.key (triple, .insert) entries
  | .delete triple => assocInsert triple.key (triple, .tombstone) entries

/-- The presence an entry of the net map stands for. -/
def netPresent (present : Bool) : Option (RdfTriple × ChainOp) → Bool
  | some entry => decide (entry.2 = .insert)
  | none => present

theorem netPresent_foldl (ops : List TxnOp) (entries : List (Text × RdfTriple × ChainOp))
    (key : Text) (present : Bool) :
    netPresent present ((ops.foldl netStep entries).lookup key) =
      ops.foldl (overlay key) (netPresent present (entries.lookup key)) := by
  induction ops generalizing entries with
  | nil => rfl
  | cons op rest induction =>
    rw [List.foldl_cons, List.foldl_cons, induction]
    congr 1
    cases op with
    | insert triple | delete triple =>
      rw [netStep, lookup_assocInsert, overlay]
      by_cases same : triple.key = key
      · simp [same, netPresent]
      · simp [same, Ne.symm same]

/-- The net map has the transaction's own view of each key. -/
theorem netPresent_net (ops : List TxnOp) (key : Text) (present : Bool) :
    netPresent present ((net ops).lookup key) = ops.foldl (overlay key) present :=
  netPresent_foldl ops [] key present

theorem net_keyed (ops : List TxnOp) :
    ((net ops).map Prod.fst).Nodup ∧ ∀ entry ∈ net ops, entry.2.1.key = entry.1 := by
  have general : ∀ entries : List (Text × RdfTriple × ChainOp),
      (entries.map Prod.fst).Nodup → (∀ entry ∈ entries, entry.2.1.key = entry.1) →
      ((ops.foldl netStep entries).map Prod.fst).Nodup ∧
        ∀ entry ∈ ops.foldl netStep entries, entry.2.1.key = entry.1 := by
    induction ops with
    | nil => exact fun entries nodup keyed => ⟨nodup, keyed⟩
    | cons op rest induction =>
      intro entries nodup keyed
      cases op with
      | insert triple | delete triple =>
        apply induction _ (nodup_keys_assocInsert _ _ nodup)
        exact forall_mem_assocInsert rfl keyed
  exact general [] List.nodup_nil (by simp)

end Txn

end GStore.Concurrent
