import GStore.Cluster.ReplicaGroup

/-! # Sharding is invisible

A subject's triples are routed to one shard by its hash. Whatever the hash, the
merged answers of the shards are those of a single store. -/

namespace GStore.Cluster

open Store

/-! ## Stores partitioned by subject -/

structure ShardedStore where
  shards : List TripleStore

namespace ShardedStore

/-- Route every triple to its bucket and load each bucket at once. -/
def fromTriples (hash : UInt32 → UInt64) (numShards : Nat) (triples : List IdTriple) :
    ShardedStore :=
  let count := max numShards 1
  let buckets := triples.foldl
    (fun (buckets : List (List IdTriple)) triple =>
      buckets.modify (shardOf hash triple.sub count) (· ++ [triple]))
    (List.replicate count [])
  { shards := buckets.map TripleStore.new.bulkLoad }

/-- `impl TripleSource for ShardedStore`. -/
def source (store : ShardedStore) : TripleSource := gather (store.shards.map storeReads)

end ShardedStore

structure NetworkShardedStore where
  shards : List Shard
  nonempty : shards ≠ []

namespace NetworkShardedStore

def new : List Shard → NetworkShardedStore
  | [] => { shards := [.local TripleStore.new], nonempty := by simp }
  | first :: rest => { shards := first :: rest, nonempty := by simp }

def shardIndex (hash : UInt32 → UInt64) (store : NetworkShardedStore) (sub : UInt32) :
    Fin store.shards.length :=
  ⟨shardOf hash sub store.shards.length, Nat.mod_lt _ (List.length_pos_iff.mpr store.nonempty)⟩

/-- Route a triple to its shard and insert it there. -/
def insert (hash : UInt32 → UInt64) (delivery : Delivery) (store : NetworkShardedStore)
    (triple : IdTriple) : Except IoError Bool × NetworkShardedStore :=
  let index := store.shardIndex hash triple.sub
  let (answer, shard) := (store.shards.get index).insert hash delivery triple
  (answer,
    { shards := store.shards.set index shard
      nonempty := by simpa using store.nonempty })

/-- Insert one by one, each call with its delivery; the first error ends it. -/
def insertAll (hash : UInt32 → UInt64) :
    NetworkShardedStore → List (IdTriple × Delivery) → Except IoError Nat × NetworkShardedStore
  | store, [] => (.ok 0, store)
  | store, (triple, delivery) :: rest =>
    match store.insert hash delivery triple with
    | (.error error, store) => (.error error, store)
    | (.ok inserted, store) =>
      let (added, store) := insertAll hash store rest
      (added.map fun count => if inserted then count + 1 else count, store)

/-- `impl TripleSource for NetworkShardedStore`. -/
def source (hash : UInt32 → UInt64) (network : Network) (store : NetworkShardedStore) :
    TripleSource :=
  gather (store.shards.map (Shard.reads hash network))

end NetworkShardedStore

/-! ## The parts of a set -/

section Routing

variable (hash : UInt32 → UInt64) (count : Nat)

/-- The triples of one bucket. -/
def bucketOf (triples : Finset IdTriple) (bucket : Nat) : Finset IdTriple :=
  triples.filter fun triple => shardOf hash triple.sub count = bucket

def buckets (triples : Finset IdTriple) : List (Finset IdTriple) :=
  (List.range count).map (bucketOf hash count triples)

variable {hash count}

theorem shardOf_lt (positive : 0 < count) (sub : UInt32) : shardOf hash sub count < count :=
  Nat.mod_lt _ positive

variable (hash count) in
theorem buckets_disjoint (triples : Finset IdTriple) :
    (buckets hash count triples).Pairwise Disjoint := by
  refine List.pairwise_map.mpr (List.pairwise_lt_range.imp ?_)
  intro left right less
  rw [Finset.disjoint_left]
  intro triple inLeft inRight
  have leftBucket := (Finset.mem_filter.mp inLeft).2
  have rightBucket := (Finset.mem_filter.mp inRight).2
  omega

theorem whole_buckets (positive : 0 < count) (triples : Finset IdTriple) :
    whole (buckets hash count triples) = triples := by
  ext triple
  simp only [mem_whole, buckets, List.mem_map, exists_exists_and_eq_and, List.mem_range,
    bucketOf, Finset.mem_filter]
  constructor
  · rintro ⟨bucket, -, member, -⟩
    exact member
  · intro member
    exact ⟨_, shardOf_lt positive triple.sub, member, rfl⟩

variable (hash) in
/-- Stores that hold the buckets of a set answer as one store over the set. -/
theorem gather_buckets {stores : List TripleStore} {single : TripleStore}
    {triples : Finset IdTriple} (positive : 0 < count) (refines : Refines single triples)
    (length : stores.length = count)
    (held : ∀ bucket store, stores[bucket]? = some store →
      Refines store (bucketOf hash count triples bucket)) :
    gather (stores.map storeReads) = single.source := by
  apply gather_eq_source _ (buckets_disjoint hash count triples)
  · rw [whole_buckets positive]
    exact refines
  · rw [List.forall₂_iff_get]
    refine ⟨by simp [buckets, length], ?_⟩
    intro index inside _
    have store := held index stores[index] (List.getElem?_eq_getElem inside)
    simpa [buckets] using store

end Routing

/-! ## What a call on a shard does -/

namespace Shard

variable {hash : UInt32 → UInt64} {delivery : Delivery} {shard : Shard}

/-- How often a call runs on the shard's store. -/
def runs (delivery : Delivery) (shard : Shard) : Nat :=
  if shard.isRemote then delivery.executions else 1

/-- Whether the call returns an answer. -/
def answers (delivery : Delivery) (shard : Shard) : Bool :=
  !shard.isRemote || delivery.isAnswered

theorem runs_pos_of_answers (answered : shard.answers delivery = true) :
    0 < shard.runs delivery := by
  cases shard with
  | «local» store => simp [runs, isRemote]
  | remote store =>
    cases delivery with
    | answered => simp [runs, isRemote, Delivery.executions]
    | answeredAgain => simp [runs, isRemote, Delivery.executions]
    | lost executions => simp [answers, isRemote, Delivery.isAnswered] at answered

section Write

variable {α : Type} {act : TripleStore → TripleStore × α} {request : Request}
  {into : Response → Except IoError α}

/-- A call that does on the node what it does in the process. -/
structure Serves (hash : UInt32 → UInt64) (act : TripleStore → TripleStore × α)
    (request : Request) (into : Response → Except IoError α) : Prop where
  effect : ∀ store, (dispatch hash store request).2 = (act store).1
  answer : ∀ store, into (dispatch hash store request).1 = .ok (act store).2

theorem write_shard (serves : Serves hash act request into) :
    (shard.write hash delivery act request into).2 =
      shard.withStore ((fun store => (act store).1)^[shard.runs delivery] shard.store) := by
  cases shard with
  | «local» store => rfl
  | remote store =>
    cases delivery <;>
      simp [write, call, withStore, runs, isRemote, Shard.store, Delivery.executions,
        serves.effect]

theorem write_answer (serves : Serves hash act request into)
    (answered : shard.answers delivery = true) :
    ∃ store, (shard.write hash delivery act request into).1 = .ok (act store).2 := by
  cases shard with
  | «local» store => exact ⟨store, rfl⟩
  | remote store =>
    cases delivery with
    | answered => exact ⟨store, serves.answer store⟩
    | answeredAgain => exact ⟨_, serves.answer _⟩
    | lost executions => simp [answers, isRemote, Delivery.isAnswered] at answered

theorem write_error (unanswered : shard.answers delivery = false) :
    (shard.write hash delivery act request into).1 = .error .transport := by
  cases shard with
  | «local» store => simp [answers, isRemote] at unanswered
  | remote store =>
    cases delivery with
    | lost executions => rfl
    | answered => simp [answers, isRemote, Delivery.isAnswered] at unanswered
    | answeredAgain => simp [answers, isRemote, Delivery.isAnswered] at unanswered

end Write

theorem insert_serves (hash : UInt32 → UInt64) (triple : IdTriple) :
    Serves hash (fun store => store.insert triple)
      (.insert triple.sub triple.pred triple.obj) Response.intoBool :=
  ⟨fun _ => rfl, fun _ => rfl⟩

theorem purge_serves (hash : UInt32 → UInt64) (bucket numShards : UInt32) :
    Serves hash (fun store => purgeBucket hash store bucket numShards)
      (.purgeShard bucket numShards) Response.intoCount :=
  ⟨fun _ => rfl, fun _ => rfl⟩

@[simp] theorem store_withStore (shard : Shard) (store : TripleStore) :
    (shard.withStore store).store = store := by
  cases shard <;> rfl

@[simp] theorem isRemote_withStore (shard : Shard) (store : TripleStore) :
    (shard.withStore store).isRemote = shard.isRemote := by
  cases shard <;> rfl

/-- Running an insert any number of times, but at least once, inserts. -/
theorem refines_insert_iterate {store : TripleStore} {triples : Finset IdTriple}
    (refines : Refines store triples) (triple : IdTriple) {count : Nat} (runs : 0 < count) :
    Refines ((fun store => (store.insert triple).1)^[count] store) ({triple} ∪ triples) := by
  induction count, runs using Nat.le_induction with
  | base => exact (refines.insert triple).1
  | succ count _ induction =>
    rw [Function.iterate_succ_apply']
    have again := (induction.insert triple).1
    rwa [← Finset.union_assoc, Finset.union_self] at again

theorem insert_spec (hash : UInt32 → UInt64) {triples : Finset IdTriple}
    (refines : Refines shard.store triples) (triple : IdTriple)
    (answered : shard.answers delivery = true) :
    (∃ inserted, (shard.insert hash delivery triple).1 = .ok inserted) ∧
      Refines (shard.insert hash delivery triple).2.store ({triple} ∪ triples) := by
  constructor
  · rcases write_answer (insert_serves hash triple) answered with ⟨store, result⟩
    exact ⟨_, result⟩
  · rw [insert, write_shard (insert_serves hash triple), store_withStore]
    exact refines_insert_iterate refines triple (runs_pos_of_answers answered)

end Shard

/-! ## Filling a sharded store -/

section Fill

variable {hash : UInt32 → UInt64}

/-- The buckets of `from_triples`. -/
theorem getElem?_foldl_modify (count : Nat) (triples : List IdTriple) :
    ∀ (buckets : List (List IdTriple)) (bucket : Nat),
      (triples.foldl (fun (buckets : List (List IdTriple)) triple =>
        buckets.modify (shardOf hash triple.sub count) (· ++ [triple])) buckets)[bucket]? =
      (buckets[bucket]?).map
        (· ++ triples.filter fun triple => decide (shardOf hash triple.sub count = bucket)) := by
  induction triples with
  | nil => simp
  | cons triple rest induction =>
    intro buckets bucket
    rw [List.foldl_cons, induction, List.getElem?_modify]
    by_cases routed : shardOf hash triple.sub count = bucket
    · cases buckets[bucket]? <;> simp [routed]
    · cases buckets[bucket]? <;> simp [routed]

/-- Every shard of the store holds its bucket of the set. -/
def NetworkShardedStore.Holds (hash : UInt32 → UInt64) (store : NetworkShardedStore)
    (triples : Finset IdTriple) : Prop :=
  ∀ bucket shard, store.shards[bucket]? = some shard →
    Refines shard.store (bucketOf hash store.shards.length triples bucket)

theorem bucketOf_insert (count : Nat) (triples : Finset IdTriple) (triple : IdTriple)
    (bucket : Nat) :
    bucketOf hash count ({triple} ∪ triples) bucket =
      if shardOf hash triple.sub count = bucket then {triple} ∪ bucketOf hash count triples bucket
      else bucketOf hash count triples bucket := by
  rw [bucketOf, Finset.filter_union, Finset.filter_singleton]
  split
  · rfl
  · rw [Finset.empty_union]
    rfl

theorem NetworkShardedStore.Holds.insert {store : NetworkShardedStore}
    {triples : Finset IdTriple} (holds : store.Holds hash triples) {delivery : Delivery}
    (answered : delivery.isAnswered = true) (triple : IdTriple) :
    (∃ inserted, (store.insert hash delivery triple).1 = .ok inserted) ∧
      (store.insert hash delivery triple).2.Holds hash ({triple} ∪ triples) ∧
      (store.insert hash delivery triple).2.shards.length = store.shards.length := by
  have index := (store.shardIndex hash triple.sub).isLt
  have routed := holds _ _ (List.getElem?_eq_getElem index)
  have answers : (store.shards.get (store.shardIndex hash triple.sub)).answers delivery = true := by
    simp [Shard.answers, answered]
  have spec := Shard.insert_spec hash routed triple answers
  refine ⟨spec.1, ?_, by simp [NetworkShardedStore.insert]⟩
  intro bucket shard found
  have length : (store.insert hash delivery triple).2.shards.length = store.shards.length := by
    simp [NetworkShardedStore.insert]
  rw [length, bucketOf_insert]
  change (store.shards.set (store.shardIndex hash triple.sub)
    ((store.shards.get (store.shardIndex hash triple.sub)).insert hash delivery triple).2)[bucket]? =
      some shard at found
  change Refines shard.store (if (store.shardIndex hash triple.sub : Nat) = bucket then _ else _)
  by_cases here : (store.shardIndex hash triple.sub : Nat) = bucket
  · subst here
    rw [if_pos rfl]
    rw [List.getElem?_set_self index] at found
    cases found
    exact spec.2
  · rw [if_neg here]
    rw [List.getElem?_set_ne here] at found
    exact holds bucket shard found

theorem NetworkShardedStore.Holds.insertAll :
    ∀ {inserts : List (IdTriple × Delivery)} {store : NetworkShardedStore}
      {triples : Finset IdTriple}, store.Holds hash triples →
      (∀ entry ∈ inserts, entry.2.isAnswered = true) →
      (∃ added, (store.insertAll hash inserts).1 = .ok added) ∧
        (store.insertAll hash inserts).2.Holds hash (triples ∪ (inserts.map Prod.fst).toFinset) := by
  intro inserts
  induction inserts with
  | nil =>
    intro store triples holds _
    exact ⟨⟨0, rfl⟩, by simpa [NetworkShardedStore.insertAll] using holds⟩
  | cons entry rest induction =>
    intro store triples holds answered
    rcases entry with ⟨triple, delivery⟩
    rcases holds.insert (answered _ List.mem_cons_self) triple with ⟨⟨inserted, result⟩, next, -⟩
    rcases induction next fun other member => answered other (List.mem_cons_of_mem _ member)
      with ⟨⟨added, finished⟩, final⟩
    rw [NetworkShardedStore.insertAll]
    cases stepped : store.insert hash delivery triple with
    | mk answer after =>
      rw [stepped] at result next finished final
      cases result
      refine ⟨?_, ?_⟩
      · simp only [finished]
        exact ⟨_, rfl⟩
      · have same : triples ∪ (((triple, delivery) :: rest).map Prod.fst).toFinset =
            {triple} ∪ triples ∪ (rest.map Prod.fst).toFinset := by
          rw [List.map_cons, List.toFinset_cons, Finset.insert_eq, Finset.union_comm {triple} triples,
            Finset.union_assoc]
        rw [same]
        exact final

end Fill

/-! ## One store -/

/-- Each group of the cluster has applied exactly its bucket of the inserts: its
serving replica's store is the result of insert operations for the triples routed
to the group, in any order and with any repetition. -/
def ShardedRaftCluster.HasApplied (hash : UInt32 → UInt64) (cluster : ShardedRaftCluster)
    (triples : List IdTriple) : Prop :=
  ∀ bucket : Fin cluster.numShards, ∃ inserted : List IdTriple,
    (cluster.group bucket).readableStore =
      some ((inserted.map LogOp.insert).foldl applyOp TripleStore.new) ∧
    ∀ triple, triple ∈ inserted ↔
      triple ∈ triples ∧ cluster.shardOfSubject hash triple.sub = bucket

theorem refines_foldl_insert (inserted : List IdTriple) :
    ∀ {store : TripleStore} {triples : Finset IdTriple}, Refines store triples →
      Refines ((inserted.map LogOp.insert).foldl applyOp store)
        (triples ∪ inserted.toFinset) := by
  induction inserted with
  | nil => simp
  | cons triple rest induction =>
    intro store triples refines
    have step := induction (refines.insert triple).1
    rw [Finset.union_comm {triple} triples, Finset.union_assoc, ← Finset.insert_eq,
      ← List.toFinset_cons] at step
    exact step

theorem length_foldl_modify (hash : UInt32 → UInt64) (count : Nat) (triples : List IdTriple) :
    ∀ buckets : List (List IdTriple),
      (triples.foldl (fun (buckets : List (List IdTriple)) triple =>
        buckets.modify (shardOf hash triple.sub count) (· ++ [triple])) buckets).length =
      buckets.length := by
  induction triples with
  | nil => simp
  | cons triple rest induction =>
    intro buckets
    rw [List.foldl_cons, induction, List.length_modify]

theorem fromTriples_source (hash : UInt32 → UInt64) (numShards : Nat) {triples : List IdTriple}
    {single : TripleStore} (refines : Refines single triples.toFinset) :
    (ShardedStore.fromTriples hash numShards triples).source = single.source := by
  have positive : 0 < max numShards 1 := lt_max_of_lt_right Nat.one_pos
  refine gather_buckets hash positive refines ?_ ?_
  · rw [ShardedStore.fromTriples, List.length_map, length_foldl_modify, List.length_replicate]
  · intro bucket store found
    rw [ShardedStore.fromTriples, List.getElem?_map, getElem?_foldl_modify] at found
    rcases Option.map_eq_some_iff.mp found with ⟨loaded, atBucket, rfl⟩
    rcases Option.map_eq_some_iff.mp atBucket with ⟨start, isStart, rfl⟩
    have empty : start = [] := List.eq_of_mem_replicate (List.mem_of_getElem? isStart)
    have held := refines_new.bulkLoad
      (start ++ triples.filter fun triple =>
        decide (shardOf hash triple.sub (max numShards 1) = bucket))
    rw [Finset.empty_union, empty, List.nil_append, List.toFinset_filter] at held
    simpa [bucketOf, empty] using held

theorem network_source {hash : UInt32 → UInt64} {network : Network}
    (delivered : ∀ request, (network request).isAnswered = true) {store : NetworkShardedStore}
    {triples : Finset IdTriple} (holds : store.Holds hash triples) {single : TripleStore}
    (refines : Refines single triples) :
    store.source hash network = single.source := by
  have reads : store.shards.map (Shard.reads hash network) =
      (store.shards.map Shard.store).map storeReads := by
    rw [List.map_map]
    exact List.map_congr_left fun shard _ => Shard.reads_eq delivered shard
  rw [NetworkShardedStore.source, reads]
  refine gather_buckets hash (List.length_pos_iff.mpr store.nonempty) refines (List.length_map _) ?_
  intro bucket held found
  rw [List.getElem?_map] at found
  rcases Option.map_eq_some_iff.mp found with ⟨shard, atBucket, rfl⟩
  exact holds bucket shard atBucket

theorem holds_new (hash : UInt32 → UInt64) {shards : List Shard}
    (empty : ∀ shard ∈ shards, Refines shard.store ∅) :
    (NetworkShardedStore.new shards).Holds hash ∅ := by
  intro bucket shard found
  have member := List.mem_of_getElem? found
  rw [bucketOf, Finset.filter_empty]
  cases shards with
  | nil =>
    cases List.mem_singleton.mp member
    exact refines_new
  | cons first rest => exact empty shard member

/-- The serving stores, when every group has one. -/
theorem readableStores_eq {cluster : ShardedRaftCluster} {stores : Fin cluster.numShards → TripleStore}
    (serves : ∀ bucket, (cluster.group bucket).readableStore = some (stores bucket)) :
    cluster.readableStores = List.ofFn stores := by
  have groups : cluster.groups = List.ofFn cluster.group := by
    apply List.ext_getElem
    · rw [List.length_ofFn, cluster.groups_length]
    · intro index inside _
      rw [List.getElem_ofFn]
      rfl
  have served : ReplicaGroup.readableStore ∘ cluster.group = fun bucket => some (stores bucket) :=
    funext serves
  rw [ShardedRaftCluster.readableStores, groups, List.ofFn_eq_map, List.filterMap_map, served,
    List.filterMap_eq_map', List.ofFn_eq_map]

theorem raft_source {hash : UInt32 → UInt64} {triples : List IdTriple}
    {cluster : ShardedRaftCluster} (applied : cluster.HasApplied hash triples)
    {single : TripleStore} (refines : Refines single triples.toFinset) :
    cluster.source = single.source := by
  choose inserted serves routed using applied
  rw [ShardedRaftCluster.source, readableStores_eq serves]
  refine gather_buckets hash cluster.numShards_pos refines (List.length_ofFn) ?_
  intro bucket store found
  rcases List.getElem?_eq_some_iff.mp found with ⟨inside, rfl⟩
  rw [List.length_ofFn] at inside
  have held := refines_foldl_insert (inserted ⟨bucket, inside⟩) refines_new
  have same : ∅ ∪ (inserted ⟨bucket, inside⟩).toFinset =
      bucketOf hash cluster.numShards triples.toFinset bucket := by
    ext triple
    rw [Finset.empty_union, List.mem_toFinset, routed, bucketOf, Finset.mem_filter,
      List.mem_toFinset, Fin.ext_iff]
    rfl
  rw [same] at held
  simpa using held

/-- Sharding is invisible: whatever hash routes the subjects, a store built from
the triples in any number of shards, a store filled over the network from empty
shards by calls that are answered, and a replicated cluster whose groups have
applied the inserts answer every call exactly as one store that holds the
triples. -/
theorem sharding_invisible (hash : UInt32 → UInt64) (triples : List IdTriple) :
    (∀ numShards, (ShardedStore.fromTriples hash numShards triples).source =
      (TripleStore.new.bulkLoad triples).source) ∧
    (∀ (shards : List Shard) (inserts : List (IdTriple × Delivery)) (network : Network),
      (∀ shard ∈ shards, Refines shard.store ∅) → inserts.map Prod.fst = triples →
      (∀ entry ∈ inserts, entry.2.isAnswered = true) →
      (∀ request, (network request).isAnswered = true) →
      ((NetworkShardedStore.new shards).insertAll hash inserts).2.source hash network =
        (TripleStore.new.bulkLoad triples).source) ∧
    (∀ cluster : ShardedRaftCluster, cluster.HasApplied hash triples →
      cluster.source = (TripleStore.new.bulkLoad triples).source) := by
  have single : Refines (TripleStore.new.bulkLoad triples) triples.toFinset := by
    simpa using refines_new.bulkLoad triples
  refine ⟨fun numShards => fromTriples_source hash numShards single, ?_,
    fun cluster applied => raft_source applied single⟩
  intro shards inserts network empty sent answered delivered
  have filled := ((holds_new hash empty).insertAll answered).2
  rw [Finset.empty_union, sent] at filled
  exact network_source delivered filled single

/-- One bucket on one replica that has elected itself and taken one insert. -/
def soloFilled : ShardedRaftCluster :=
  let group := (ReplicaGroup.new 0 [0] ⟨1, 1, 1⟩ 0 (by decide) (by decide)).tick 0
  let cluster : ShardedRaftCluster := ⟨1, 1, [group], rfl, Nat.one_pos⟩
  (cluster.insert (fun _ => 0) ⟨1, 2, 3⟩).1

theorem sharding_invisible_soloFilled :
    soloFilled.HasApplied (fun _ => 0) [⟨1, 2, 3⟩] ∧
      soloFilled.source = (TripleStore.new.bulkLoad [⟨1, 2, 3⟩]).source := by
  have applied : soloFilled.HasApplied (fun _ => 0) [⟨1, 2, 3⟩] := by
    intro bucket
    have only : bucket = ⟨0, Nat.one_pos⟩ := Fin.ext (Nat.lt_one_iff.mp bucket.isLt)
    rw [only]
    exact ⟨[⟨1, 2, 3⟩], rfl, fun triple => ⟨fun member => ⟨member, rfl⟩, And.left⟩⟩
  exact ⟨applied, (sharding_invisible (fun _ => 0) [⟨1, 2, 3⟩]).2.2 soloFilled applied⟩

end GStore.Cluster
