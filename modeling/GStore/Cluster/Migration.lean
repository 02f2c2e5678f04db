import GStore.Cluster.ShardCluster

/-! # What a migration does to the endpoints

Each endpoint holds a set of triples. A bucket's migration moves its triples from
one set to another if every call is answered; if one is not, it leaves some copied,
or all copied and not purged. -/

namespace GStore.Cluster

open Store

variable {hash : UInt32 → UInt64}

/-! ## Buckets of a store -/

section Bucket

variable {store : TripleStore} {triples : Finset IdTriple} {bucket count : Nat}

theorem toFinset_scanBucket (refines : Refines store triples) (positive : 0 < count)
    (small : count < 2 ^ 32) (inside : bucket < count) :
    (scanBucket hash store (UInt32.ofNat bucket) (UInt32.ofNat count)).toFinset =
      bucketOf hash count triples bucket := by
  have countEq : (UInt32.ofNat count).toNat = count := UInt32.toNat_ofNat_of_lt' small
  have bucketEq : (UInt32.ofNat bucket).toNat = bucket :=
    UInt32.toNat_ofNat_of_lt' (inside.trans small)
  have nonzero : UInt32.ofNat count ≠ 0 := by
    intro zero
    rw [zero] at countEq
    simp at countEq
    omega
  ext triple
  rw [scanBucket, if_neg nonzero, countEq, bucketEq, List.mem_toFinset, List.mem_filter,
    refines.iterAll.mem_iff, bucketOf, Finset.mem_filter, decide_eq_true_eq]

theorem refines_foldl_remove (doomed : List IdTriple) :
    ∀ {store : TripleStore} {triples : Finset IdTriple} {removed : Nat}, Refines store triples →
      Refines (doomed.foldl (fun (state : TripleStore × Nat) triple =>
        ((state.1.remove triple).1,
          if (state.1.remove triple).2 then state.2 + 1 else state.2)) (store, removed)).1
        (triples \ doomed.toFinset) := by
  induction doomed with
  | nil => simp
  | cons triple rest induction =>
    intro store triples removed refines
    have same : triples \ (triple :: rest).toFinset =
        triples.erase triple \ rest.toFinset := by
      ext other
      simp only [List.toFinset_cons, Finset.mem_sdiff, Finset.mem_insert, Finset.mem_erase]
      tauto
    rw [List.foldl_cons, same]
    exact induction (refines.remove triple).1

variable (hash) in
theorem refines_purgeBucket (refines : Refines store triples) (positive : 0 < count)
    (small : count < 2 ^ 32) (inside : bucket < count) :
    Refines (purgeBucket hash store (UInt32.ofNat bucket) (UInt32.ofNat count)).1
      (triples \ bucketOf hash count triples bucket) := by
  rw [← toFinset_scanBucket refines positive small inside]
  exact refines_foldl_remove _ refines

/-- Purging again changes nothing. -/
theorem refines_purge_iterate (refines : Refines store triples) (positive : 0 < count)
    (small : count < 2 ^ 32) (inside : bucket < count) {runs : Nat} (executed : 0 < runs) :
    Refines ((fun store =>
      (purgeBucket hash store (UInt32.ofNat bucket) (UInt32.ofNat count)).1)^[runs] store)
      (triples \ bucketOf hash count triples bucket) := by
  induction runs, executed using Nat.le_induction with
  | base => exact refines_purgeBucket hash refines positive small inside
  | succ runs _ induction =>
    rw [Function.iterate_succ_apply']
    have again := refines_purgeBucket hash induction positive small inside
    have nothing : bucketOf hash count (triples \ bucketOf hash count triples bucket) bucket =
        ∅ := by
      ext triple
      simp only [bucketOf, Finset.mem_filter, Finset.mem_sdiff, Finset.notMem_empty, iff_false]
      tauto
    rwa [nothing, Finset.sdiff_empty] at again

end Bucket

/-! ## Endpoints and what they hold -/

namespace ShardCluster

/-- Each endpoint holds its set. -/
def Holds (cluster : ShardCluster) (held : NodeId → Finset IdTriple) : Prop :=
  ∀ id shard, cluster.endpoint id = some shard → Refines shard.store (held id)

/-- Whether a call on an endpoint returns an answer. -/
def answersAt (cluster : ShardCluster) (id : NodeId) (delivery : Delivery) : Bool :=
  ((cluster.endpoint id).map fun shard => shard.answers delivery).getD true

/-- How often a call runs on an endpoint. -/
def runsAt (cluster : ShardCluster) (id : NodeId) (delivery : Delivery) : Nat :=
  ((cluster.endpoint id).map fun shard => shard.runs delivery).getD 0

/-- The same configuration and the same endpoints, up to what they hold. -/
structure SameShape (before after : ShardCluster) : Prop where
  config : after.config = before.config
  kinds : ∀ id, (after.endpoint id).map Shard.isRemote = (before.endpoint id).map Shard.isRemote
  nodup : (before.endpoints.map Prod.fst).Nodup → (after.endpoints.map Prod.fst).Nodup

namespace SameShape

variable {first second third : ShardCluster}

theorem refl (cluster : ShardCluster) : SameShape cluster cluster :=
  ⟨rfl, fun _ => rfl, id⟩

theorem trans (left : SameShape first second) (right : SameShape second third) :
    SameShape first third :=
  ⟨right.config.trans left.config, fun id => (right.kinds id).trans (left.kinds id),
    fun nodup => right.nodup (left.nodup nodup)⟩

theorem endpoint_isSome (shape : SameShape first second) (id : NodeId) :
    (second.endpoint id).isSome = (first.endpoint id).isSome := by
  have kinds := congrArg Option.isSome (shape.kinds id)
  simpa using kinds

theorem answersAt_eq (shape : SameShape first second) (id : NodeId) (delivery : Delivery) :
    second.answersAt id delivery = first.answersAt id delivery := by
  have kinds := shape.kinds id
  rw [answersAt, answersAt]
  cases before : first.endpoint id <;> cases after : second.endpoint id <;>
    simp_all [Shard.answers]

theorem runsAt_eq (shape : SameShape first second) (id : NodeId) (delivery : Delivery) :
    second.runsAt id delivery = first.runsAt id delivery := by
  have kinds := shape.kinds id
  rw [runsAt, runsAt]
  cases before : first.endpoint id <;> cases after : second.endpoint id <;>
    simp_all [Shard.runs]

end SameShape

section SetEndpoint

variable {cluster : ShardCluster} {held : NodeId → Finset IdTriple} {id : NodeId} {shard : Shard}

theorem endpoint_setEndpoint (other : NodeId) :
    (cluster.setEndpoint id shard).endpoint other =
      if other = id then some shard else cluster.endpoint other := by
  rw [endpoint, setEndpoint, lookup_assocInsert]
  by_cases same : other = id <;> simp [same, endpoint]

theorem sameShape_setEndpoint {old : Shard} (found : cluster.endpoint id = some old)
    (kind : shard.isRemote = old.isRemote) : SameShape cluster (cluster.setEndpoint id shard) where
  config := rfl
  kinds other := by
    rw [endpoint_setEndpoint]
    split
    · rename_i same
      rw [same, found]
      simp [kind]
    · rfl
  nodup := nodup_keys_assocInsert id shard

theorem Holds.setEndpoint (holds : cluster.Holds held) (id : NodeId)
    {triples : Finset IdTriple} (refines : Refines shard.store triples) :
    (cluster.setEndpoint id shard).Holds (Function.update held id triples) := by
  intro other stored found
  rw [endpoint_setEndpoint] at found
  by_cases same : other = id
  · subst same
    rw [if_pos rfl] at found
    cases found
    rw [Function.update_self]
    exact refines
  · rw [if_neg same] at found
    rw [Function.update_of_ne same]
    exact holds other stored found

end SetEndpoint

/-! ## Copying -/

section Copy

variable {deliver : EndpointCall → Delivery} {shard : Shard} {held : Finset IdTriple}

theorem insert_isRemote (hash : UInt32 → UInt64) (delivery : Delivery) (shard : Shard)
    (triple : IdTriple) : (shard.insert hash delivery triple).2.isRemote = shard.isRemote := by
  rw [Shard.insert, Shard.write_shard (Shard.insert_serves hash triple), Shard.isRemote_withStore]

/-- An insert that is not answered may still have happened. -/
theorem insert_cases (hash : UInt32 → UInt64) (refines : Refines shard.store held)
    (triple : IdTriple) (delivery : Delivery) :
    Refines (shard.insert hash delivery triple).2.store held ∨
      Refines (shard.insert hash delivery triple).2.store ({triple} ∪ held) := by
  rw [Shard.insert, Shard.write_shard (Shard.insert_serves hash triple), Shard.store_withStore]
  rcases Nat.eq_zero_or_pos (shard.runs delivery) with none | some
  · rw [none]
    exact .inl refines
  · exact .inr (Shard.refines_insert_iterate refines triple some)

theorem copyTo_isRemote (hash : UInt32 → UInt64) (deliver : EndpointCall → Delivery)
    (triples : List IdTriple) :
    ∀ shard : Shard, (copyTo hash deliver shard triples).2.isRemote = shard.isRemote := by
  induction triples with
  | nil => intro shard; rfl
  | cons triple rest induction =>
    intro shard
    have kind := insert_isRemote hash (deliver (.insert triple)) shard triple
    rw [copyTo]
    split
    · rename_i stepped
      rw [stepped] at kind
      exact kind
    · rename_i stepped
      rw [stepped] at kind
      exact (induction _).trans kind

variable (hash) in
/-- Every insert is answered: the copy is complete. -/
theorem copyTo_answered {triples : List IdTriple} :
    ∀ {shard : Shard} {held : Finset IdTriple}, Refines shard.store held →
      (∀ triple ∈ triples, shard.answers (deliver (.insert triple)) = true) →
      (copyTo hash deliver shard triples).1 = .ok () ∧
        Refines (copyTo hash deliver shard triples).2.store (held ∪ triples.toFinset) := by
  induction triples with
  | nil =>
    intro shard held refines _
    exact ⟨rfl, by simpa [copyTo] using refines⟩
  | cons triple rest induction =>
    intro shard held refines answered
    rcases Shard.insert_spec hash refines triple (answered triple List.mem_cons_self) with
      ⟨⟨inserted, result⟩, next⟩
    have kind := insert_isRemote hash (deliver (.insert triple)) shard triple
    cases stepped : shard.insert hash (deliver (.insert triple)) triple with
    | mk answer after =>
      rw [stepped] at result next kind
      cases result
      have copied := induction next fun other member => by
        have same := answered other (List.mem_cons_of_mem _ member)
        rw [Shard.answers] at same ⊢
        rwa [kind]
      have union : {triple} ∪ held ∪ rest.toFinset = held ∪ (triple :: rest).toFinset := by
        rw [List.toFinset_cons, Finset.insert_eq, ← Finset.union_assoc,
          Finset.union_comm held {triple}]
      rw [union] at copied
      rw [copyTo, stepped]
      exact copied

variable (hash) in
/-- Some insert is not answered: the copy ends there with an error. -/
theorem copyTo_unanswered {triples : List IdTriple} :
    ∀ {shard : Shard} {held : Finset IdTriple}, Refines shard.store held →
      (∃ triple ∈ triples, shard.answers (deliver (.insert triple)) = false) →
      (copyTo hash deliver shard triples).1 = .error .transport ∧
        ∃ copied ⊆ triples.toFinset,
          Refines (copyTo hash deliver shard triples).2.store (held ∪ copied) := by
  induction triples with
  | nil =>
    rintro shard held _ ⟨triple, member, _⟩
    exact absurd member List.not_mem_nil
  | cons triple rest induction =>
    intro shard held refines unanswered
    have kind := insert_isRemote hash (deliver (.insert triple)) shard triple
    cases first : shard.answers (deliver (.insert triple)) with
    | false =>
      have result : (shard.insert hash (deliver (.insert triple)) triple).1 =
          .error .transport := Shard.write_error first
      have next := insert_cases hash refines triple (deliver (.insert triple))
      cases stepped : shard.insert hash (deliver (.insert triple)) triple with
      | mk answer after =>
        rw [stepped] at result next
        cases result
        rw [copyTo, stepped]
        refine ⟨rfl, ?_⟩
        rcases next with kept | inserted
        · exact ⟨∅, Finset.empty_subset _, by rwa [Finset.union_empty]⟩
        · refine ⟨{triple}, by simp, ?_⟩
          rwa [Finset.union_comm]
    | true =>
      rcases Shard.insert_spec hash refines triple first with ⟨⟨inserted, result⟩, next⟩
      cases stepped : shard.insert hash (deliver (.insert triple)) triple with
      | mk answer after =>
        rw [stepped] at result next kind
        cases result
        rcases unanswered with ⟨other, member, refused⟩
        have later : other ∈ rest := by
          rcases List.mem_cons.mp member with same | later
          · rw [same, first] at refused
            cases refused
          · exact later
        rcases induction next ⟨other, later, by
          rw [Shard.answers] at refused ⊢
          rwa [kind]⟩ with ⟨failed, copied, subset, holds⟩
        rw [copyTo, stepped]
        refine ⟨failed, {triple} ∪ copied, ?_, ?_⟩
        · rw [List.toFinset_cons, Finset.insert_eq]
          exact Finset.union_subset_union_right subset
        · rwa [← Finset.union_assoc, Finset.union_comm held {triple}]

end Copy

/-! ## One migration -/

section Migrate

variable {faults : Faults} {cluster : ShardCluster} {held : NodeId → Finset IdTriple} {move : Move}

/-- The triples that a migration has to move. -/
def cargo (hash : UInt32 → UInt64) (cluster : ShardCluster) (held : NodeId → Finset IdTriple)
    (move : Move) : Finset IdTriple :=
  bucketOf hash cluster.config.numShards (held move.source) move.bucket

section Answers

variable (faults : Faults) (cluster : ShardCluster) (move : Move) (load : Finset IdTriple)

/-- The scan and every insert are answered. -/
def CopyAnswered : Prop :=
  cluster.answersAt move.source (faults move.bucket .scan) = true ∧
    ∀ triple ∈ load, cluster.answersAt move.target (faults move.bucket (.insert triple)) = true

/-- Every call is answered. -/
def AllAnswered : Prop :=
  cluster.CopyAnswered faults move load ∧
    cluster.answersAt move.source (faults move.bucket .purge) = true

/-- The copy is answered and the purge is executed, answered or not. -/
def HandedOver : Prop :=
  cluster.CopyAnswered faults move load ∧
    0 < cluster.runsAt move.source (faults move.bucket .purge)

end Answers

/-- The endpoints after some triples were copied. -/
def copied (held : NodeId → Finset IdTriple) (move : Move) (triples : Finset IdTriple) :
    NodeId → Finset IdTriple :=
  Function.update held move.target (held move.target ∪ triples)

/-- The endpoints after all triples were copied and purged. -/
def handedOver (held : NodeId → Finset IdTriple) (move : Move) (triples : Finset IdTriple) :
    NodeId → Finset IdTriple :=
  Function.update (copied held move triples) move.source (held move.source \ triples)

/-- What a migration needs to find. -/
structure Ready (cluster : ShardCluster) (move : Move) : Prop where
  apart : move.source ≠ move.target
  inside : move.bucket < cluster.config.numShards
  small : cluster.config.numShards < 2 ^ 32
  source : (cluster.endpoint move.source).isSome = true
  target : (cluster.endpoint move.target).isSome = true

theorem answersAt_eq_answers {id : NodeId} {shard : Shard}
    (found : cluster.endpoint id = some shard) (delivery : Delivery) :
    cluster.answersAt id delivery = shard.answers delivery := by
  simp [answersAt, found]

theorem runsAt_eq_runs {id : NodeId} {shard : Shard} (found : cluster.endpoint id = some shard)
    (delivery : Delivery) : cluster.runsAt id delivery = shard.runs delivery := by
  simp [runsAt, found]

variable (hash) in
theorem copyStage_answered (triples : List IdTriple) {target : Shard}
    (holds : cluster.Holds held) (found : cluster.endpoint move.target = some target)
    (answered : ∀ triple ∈ triples,
      cluster.answersAt move.target (faults move.bucket (.insert triple)) = true) :
    (cluster.copyStage hash faults move triples).1 = .ok () ∧
      SameShape cluster (cluster.copyStage hash faults move triples).2 ∧
      (cluster.copyStage hash faults move triples).2.Holds (copied held move triples.toFinset) := by
  rcases copyTo_answered hash (holds _ _ found) fun triple member => by
    rw [← answersAt_eq_answers found]
    exact answered triple member with ⟨result, refines⟩
  rw [copyStage, found]
  exact ⟨result, sameShape_setEndpoint found (copyTo_isRemote hash _ triples target),
    holds.setEndpoint _ refines⟩

variable (hash) in
theorem copyStage_unanswered {triples : List IdTriple} {target : Shard}
    (holds : cluster.Holds held) (found : cluster.endpoint move.target = some target)
    (unanswered : ∃ triple ∈ triples,
      cluster.answersAt move.target (faults move.bucket (.insert triple)) = false) :
    (cluster.copyStage hash faults move triples).1 = .error .transport ∧
      SameShape cluster (cluster.copyStage hash faults move triples).2 ∧
      ∃ part ⊆ triples.toFinset,
        (cluster.copyStage hash faults move triples).2.Holds (copied held move part) := by
  rcases unanswered with ⟨triple, member, refused⟩
  rw [answersAt_eq_answers found] at refused
  rcases copyTo_unanswered hash (holds _ _ found) ⟨triple, member, refused⟩ with
    ⟨result, part, subset, refines⟩
  rw [copyStage, found]
  exact ⟨result, sameShape_setEndpoint found (copyTo_isRemote hash _ triples target),
    part, subset, holds.setEndpoint _ refines⟩

section Purge

variable {shard : Shard} {triples : Finset IdTriple} {bucket count : Nat}

theorem purgeShard_isRemote (delivery : Delivery) (shard : Shard) (bucket numShards : UInt32) :
    (shard.purgeShard hash delivery bucket numShards).2.isRemote = shard.isRemote := by
  rw [Shard.purgeShard, Shard.write_shard (Shard.purge_serves hash bucket numShards),
    Shard.isRemote_withStore]

theorem purgeShard_result (delivery : Delivery) (shard : Shard) (bucket numShards : UInt32) :
    (shard.purgeShard hash delivery bucket numShards).1.map (fun _ => ()) =
      if shard.answers delivery then .ok () else .error .transport := by
  cases answered : shard.answers delivery with
  | true =>
    rcases Shard.write_answer (Shard.purge_serves hash bucket numShards) answered with
      ⟨store, result⟩
    rw [if_pos rfl, Shard.purgeShard, result]
    rfl
  | false =>
    rw [if_neg Bool.false_ne_true, Shard.purgeShard, Shard.write_error answered]
    rfl

theorem purgeShard_refines (delivery : Delivery) (refines : Refines shard.store triples)
    (small : count < 2 ^ 32) (inside : bucket < count) :
    Refines
      (shard.purgeShard hash delivery (UInt32.ofNat bucket) (UInt32.ofNat count)).2.store
      (if 0 < shard.runs delivery then triples \ bucketOf hash count triples bucket
      else triples) := by
  rw [Shard.purgeShard, Shard.write_shard (Shard.purge_serves hash _ _), Shard.store_withStore]
  rcases Nat.eq_zero_or_pos (shard.runs delivery) with never | executed
  · rw [if_neg (by omega), never]
    exact refines
  · rw [if_pos executed]
    exact refines_purge_iterate refines (by omega) small inside executed

end Purge

theorem purgeStage_spec {source : Shard} (holds : cluster.Holds held) (ready : Ready cluster move)
    (found : cluster.endpoint move.source = some source) :
    ((cluster.purgeStage hash faults move).1 =
      if cluster.answersAt move.source (faults move.bucket .purge) then .ok ()
      else .error .transport) ∧
    SameShape cluster (cluster.purgeStage hash faults move).2 ∧
    (cluster.purgeStage hash faults move).2.Holds (Function.update held move.source
      (if 0 < cluster.runsAt move.source (faults move.bucket .purge) then
        held move.source \ cluster.cargo hash held move
      else held move.source)) := by
  rw [purgeStage, found, answersAt_eq_answers found, runsAt_eq_runs found]
  exact ⟨purgeShard_result _ _ _ _, sameShape_setEndpoint found (purgeShard_isRemote _ _ _ _),
    holds.setEndpoint _ (purgeShard_refines _ (holds _ _ found) ready.small ready.inside)⟩

theorem Ready.of_sameShape {after : ShardCluster} (ready : Ready cluster move)
    (shape : SameShape cluster after) : Ready after move where
  apart := ready.apart
  inside := shape.config ▸ ready.inside
  small := shape.config ▸ ready.small
  source := (shape.endpoint_isSome _).trans ready.source
  target := (shape.endpoint_isSome _).trans ready.target

theorem scanShard_eq (delivery : Delivery) (shard : Shard) (bucket numShards : UInt32) :
    shard.scanShard hash delivery bucket numShards =
      if shard.answers delivery then .ok (scanBucket hash shard.store bucket numShards)
      else .error .transport := by
  cases shard with
  | «local» store => rfl
  | remote store => cases delivery <;> rfl

theorem migrateShard_scan_lost (ready : Ready cluster move)
    (lost : cluster.answersAt move.source (faults move.bucket .scan) = false) :
    cluster.migrateShard hash faults move = (.error .transport, cluster) := by
  rcases Option.isSome_iff_exists.mp ready.source with ⟨source, atSource⟩
  rw [answersAt_eq_answers atSource] at lost
  simp only [migrateShard, if_neg ready.apart, atSource, scanShard_eq, lost]
  rfl

/-- The triples that the scan returns. -/
theorem migrateShard_scanned (holds : cluster.Holds held) (ready : Ready cluster move)
    (answered : cluster.answersAt move.source (faults move.bucket .scan) = true) :
    ∃ triples : List IdTriple, triples.toFinset = cluster.cargo hash held move ∧
      cluster.migrateShard hash faults move =
        match cluster.copyStage hash faults move triples with
        | (.error error, cluster) => (.error error, cluster)
        | (.ok (), cluster) => cluster.purgeStage hash faults move := by
  rcases Option.isSome_iff_exists.mp ready.source with ⟨source, atSource⟩
  rw [answersAt_eq_answers atSource] at answered
  have positive : 0 < cluster.config.numShards := Nat.zero_lt_of_lt ready.inside
  refine ⟨_, toFinset_scanBucket (holds _ _ atSource) positive ready.small ready.inside, ?_⟩
  simp only [migrateShard, if_neg ready.apart, atSource, scanShard_eq, answered, if_true] <;> rfl

theorem migrateShard_copy_lost (holds : cluster.Holds held) (ready : Ready cluster move)
    (answered : cluster.answersAt move.source (faults move.bucket .scan) = true)
    (lost : ∃ triple ∈ cluster.cargo hash held move,
      cluster.answersAt move.target (faults move.bucket (.insert triple)) = false) :
    (cluster.migrateShard hash faults move).1 = .error .transport ∧
      SameShape cluster (cluster.migrateShard hash faults move).2 ∧
      ∃ part ⊆ cluster.cargo hash held move,
        (cluster.migrateShard hash faults move).2.Holds (copied held move part) := by
  rcases Option.isSome_iff_exists.mp ready.target with ⟨target, atTarget⟩
  rcases migrateShard_scanned holds ready answered with ⟨triples, scanned, run⟩
  rcases lost with ⟨triple, member, refused⟩
  rw [← scanned, List.mem_toFinset] at member
  have copy := copyStage_unanswered hash holds atTarget ⟨triple, member, refused⟩
  rw [scanned] at copy
  rw [run]
  cases stage : cluster.copyStage hash faults move triples with
  | mk result after =>
    rw [stage] at copy
    rcases copy with ⟨failed, rest⟩
    cases failed
    exact ⟨rfl, rest⟩

theorem migrateShard_copied (holds : cluster.Holds held) (ready : Ready cluster move)
    (answered : cluster.CopyAnswered faults move (cluster.cargo hash held move)) :
    ((cluster.migrateShard hash faults move).1 =
      if cluster.answersAt move.source (faults move.bucket .purge) then .ok ()
      else .error .transport) ∧
    SameShape cluster (cluster.migrateShard hash faults move).2 ∧
    (cluster.migrateShard hash faults move).2.Holds
      (if 0 < cluster.runsAt move.source (faults move.bucket .purge) then
        handedOver held move (cluster.cargo hash held move)
      else copied held move (cluster.cargo hash held move)) := by
  rcases Option.isSome_iff_exists.mp ready.target with ⟨target, atTarget⟩
  rcases migrateShard_scanned holds ready answered.1 with ⟨triples, scanned, run⟩
  have copy := copyStage_answered hash triples holds atTarget
    fun triple member => answered.2 triple (scanned ▸ List.mem_toFinset.mpr member)
  rw [scanned] at copy
  rw [run]
  cases stage : cluster.copyStage hash faults move triples with
  | mk result after =>
    rw [stage] at copy
    rcases copy with ⟨done, shape, copiedHolds⟩
    cases done
    have next := ready.of_sameShape shape
    rcases Option.isSome_iff_exists.mp next.source with ⟨source, atSource⟩
    rcases purgeStage_spec copiedHolds next atSource with ⟨result, purgeShape, purgeHolds⟩
    have kept : copied held move (cluster.cargo hash held move) move.source =
        held move.source := Function.update_of_ne ready.apart _ _
    have same : after.cargo hash (copied held move (cluster.cargo hash held move)) move =
        cluster.cargo hash held move := by
      rw [cargo, kept, shape.config]
      rfl
    rw [shape.answersAt_eq] at result
    rw [shape.runsAt_eq, same, kept] at purgeHolds
    refine ⟨result, shape.trans purgeShape, ?_⟩
    by_cases executed : 0 < cluster.runsAt move.source (faults move.bucket .purge)
    · rw [if_pos executed] at purgeHolds ⊢
      exact purgeHolds
    · rw [if_neg executed] at purgeHolds ⊢
      rwa [← kept, Function.update_eq_self] at purgeHolds

/-- What a migration does, whatever happens to its calls. -/
theorem migrateShard_spec (faults : Faults) (holds : cluster.Holds held)
    (ready : Ready cluster move) :
    ((cluster.migrateShard hash faults move).1 = .ok () ↔
      cluster.AllAnswered faults move (cluster.cargo hash held move)) ∧
    SameShape cluster (cluster.migrateShard hash faults move).2 ∧
    (cluster.HandedOver faults move (cluster.cargo hash held move) →
      (cluster.migrateShard hash faults move).2.Holds
        (handedOver held move (cluster.cargo hash held move))) ∧
    (¬ cluster.HandedOver faults move (cluster.cargo hash held move) →
      ∃ part ⊆ cluster.cargo hash held move,
        (cluster.migrateShard hash faults move).2.Holds (copied held move part)) := by
  by_cases answered : cluster.CopyAnswered faults move (cluster.cargo hash held move)
  · rcases migrateShard_copied holds ready answered with ⟨result, shape, after⟩
    refine ⟨?_, shape, ?_, ?_⟩
    · rw [result, AllAnswered]
      split <;> simp_all
    · intro handed
      rwa [if_pos handed.2] at after
    · intro kept
      rw [if_neg fun executed => kept ⟨answered, executed⟩] at after
      exact ⟨_, Finset.Subset.refl _, after⟩
  · have notAll : ¬ cluster.AllAnswered faults move (cluster.cargo hash held move) :=
      fun all => answered all.1
    have notHanded : ¬ cluster.HandedOver faults move (cluster.cargo hash held move) :=
      fun handed => answered handed.1
    cases scan : cluster.answersAt move.source (faults move.bucket .scan) with
    | false =>
      rw [migrateShard_scan_lost ready scan]
      refine ⟨by simp [notAll], SameShape.refl _, fun handed => absurd handed notHanded, ?_⟩
      intro _
      refine ⟨∅, Finset.empty_subset _, ?_⟩
      rwa [copied, Finset.union_empty, Function.update_eq_self]
    | true =>
      have lost : ∃ triple ∈ cluster.cargo hash held move,
          cluster.answersAt move.target (faults move.bucket (.insert triple)) = false := by
        by_contra none
        push Not at none
        exact answered ⟨scan, fun triple member => by simpa using none triple member⟩
      rcases migrateShard_copy_lost holds ready scan lost with ⟨failed, shape, after⟩
      rw [failed]
      exact ⟨by simp [notAll], shape, fun handed => absurd handed notHanded, fun _ => after⟩

end Migrate

/-! ## All migrations of a membership change -/

section Placement

variable {faults : Faults} {cluster : ShardCluster} {place : Nat → Option NodeId}
  {triples : Finset IdTriple} {move : Move} {moves : List Move} {count : Nat}

/-- The triples that each endpoint holds when the buckets are placed so. -/
def placed (hash : UInt32 → UInt64) (count : Nat) (place : Nat → Option NodeId)
    (triples : Finset IdTriple) (id : NodeId) : Finset IdTriple :=
  triples.filter fun triple => place (shardOf hash triple.sub count) = some id

/-- The placement after a list of moves. -/
def arrived (place : Nat → Option NodeId) : List Move → Nat → Option NodeId
  | [] => place
  | move :: rest => arrived (Function.update place move.bucket (some move.target)) rest

theorem cargo_placed (departs : place move.bucket = some move.source) :
    cluster.cargo hash (placed hash cluster.config.numShards place triples) move =
      bucketOf hash cluster.config.numShards triples move.bucket := by
  ext triple
  simp only [cargo, bucketOf, placed, Finset.mem_filter]
  constructor
  · rintro ⟨⟨member, _⟩, bucket⟩
    exact ⟨member, bucket⟩
  · rintro ⟨member, bucket⟩
    exact ⟨⟨member, bucket ▸ departs⟩, bucket⟩

theorem handedOver_placed (apart : move.source ≠ move.target)
    (departs : place move.bucket = some move.source) :
    handedOver (placed hash count place triples) move (bucketOf hash count triples move.bucket) =
      placed hash count (Function.update place move.bucket (some move.target)) triples := by
  funext id
  ext triple
  simp only [handedOver, copied, placed, bucketOf, Function.update_apply]
  by_cases bucket : shardOf hash triple.sub count = move.bucket
  · by_cases atSource : id = move.source
    · subst atSource
      simp [bucket, apart.symm, departs]
    · by_cases atTarget : id = move.target
      · subst atTarget
        simp [bucket, atSource, departs, apart]
      · simp [bucket, atSource, atTarget, departs, Ne.symm atTarget, Ne.symm atSource]
  · by_cases atSource : id = move.source
    · subst atSource
      simp [bucket]
    · by_cases atTarget : id = move.target
      · subst atTarget
        simp [bucket, atSource]
      · simp [bucket, atSource, atTarget]

/-- The moves of a membership change, as they find the cluster. -/
structure Departing (cluster : ShardCluster) (place : Nat → Option NodeId) (moves : List Move) :
    Prop where
  ready : ∀ move ∈ moves, Ready cluster move
  departs : ∀ move ∈ moves, place move.bucket = some move.source
  distinct : (moves.map Move.bucket).Nodup

theorem Departing.tail {after : ShardCluster} {rest : List Move}
    (departing : Departing cluster place (move :: rest)) (shape : SameShape cluster after) :
    Departing after (Function.update place move.bucket (some move.target)) rest where
  ready other member :=
    (departing.ready other (List.mem_cons_of_mem _ member)).of_sameShape shape
  departs other member := by
    have distinct := List.nodup_cons.mp departing.distinct
    have differs : other.bucket ≠ move.bucket :=
      fun same => distinct.1 (same ▸ List.mem_map_of_mem member)
    rw [Function.update_of_ne differs]
    exact departing.departs other (List.mem_cons_of_mem _ member)
  distinct := (List.nodup_cons.mp departing.distinct).2

theorem SameShape.allAnswered_iff {after : ShardCluster} (shape : SameShape cluster after)
    (load : Finset IdTriple) :
    after.AllAnswered faults move load ↔ cluster.AllAnswered faults move load := by
  simp only [AllAnswered, CopyAnswered, shape.answersAt_eq]

theorem AllAnswered.handedOver {load : Finset IdTriple}
    (answered : cluster.AllAnswered faults move load) (ready : Ready cluster move) :
    cluster.HandedOver faults move load := by
  rcases Option.isSome_iff_exists.mp ready.source with ⟨source, atSource⟩
  refine ⟨answered.1, ?_⟩
  have answers := answered.2
  rw [answersAt_eq_answers atSource] at answers
  rw [runsAt_eq_runs atSource]
  exact Shard.runs_pos_of_answers answers

/-- Every call of the first moves is answered: the migration goes on with the rest. -/
theorem migrateAll_append {rest : List Move} :
    ∀ {cluster : ShardCluster} {place : Nat → Option NodeId},
      cluster.Holds (placed hash cluster.config.numShards place triples) →
      Departing cluster place (moves ++ rest) →
      (∀ move ∈ moves, cluster.AllAnswered faults move
        (bucketOf hash cluster.config.numShards triples move.bucket)) →
      ∃ after, SameShape cluster after ∧
        after.Holds (placed hash after.config.numShards (arrived place moves) triples) ∧
        Departing after (arrived place moves) rest ∧
        cluster.migrateAll hash faults (moves ++ rest) = after.migrateAll hash faults rest := by
  induction moves with
  | nil =>
    intro cluster place holds departing _
    exact ⟨cluster, SameShape.refl _, holds, departing, rfl⟩
  | cons move others induction =>
    intro cluster place holds departing answered
    have ready := departing.ready move List.mem_cons_self
    have departs := departing.departs move List.mem_cons_self
    have all := answered move List.mem_cons_self
    rcases migrateShard_spec faults holds ready with ⟨result, shape, handed, _⟩
    rw [cargo_placed departs] at result handed
    have next := handed (all.handedOver ready)
    rw [handedOver_placed ready.apart departs, ← shape.config] at next
    rcases induction next (departing.tail shape) fun other member => by
      rw [shape.allAnswered_iff, shape.config]
      exact answered other (List.mem_cons_of_mem _ member) with
      ⟨after, later, holdsAfter, departingAfter, run⟩
    refine ⟨after, shape.trans later, holdsAfter, departingAfter, ?_⟩
    rw [List.cons_append, migrateAll, ← run]
    have done := result.mpr all
    cases stage : cluster.migrateShard hash faults move with
    | mk outcome moved =>
      rw [stage] at done
      cases done
      rfl

end Placement

end ShardCluster

end GStore.Cluster
