import GStore.Cluster.Migration

/-! # Joining and leaving

Rendezvous hashing moves a bucket only to a node that joins or from a node that
leaves. So the migrations of a membership change take a cluster whose triples all
sit at their owners to one of the same kind, if every endpoint call is answered. -/

namespace GStore.Cluster

open Store

/-! ## The owners -/

namespace ClusterConfig

variable {weight : Nat → NodeId → UInt64} {config : ClusterConfig} {id : NodeId}
  {addr : SocketAddr} {bucket : Nat}

/-- The owners are the ones that `reassign` computes. -/
def Assigned (weight : Nat → NodeId → UInt64) (config : ClusterConfig) : Prop :=
  (config.reassign weight).assignment = config.assignment

theorem assigned_new (weight : Nat → NodeId → UInt64) (numShards : Nat) :
    Assigned weight (new numShards) := by
  simp [Assigned, reassign, new]

theorem assigned_reassign (weight : Nat → NodeId → UInt64) (config : ClusterConfig) :
    Assigned weight (config.reassign weight) := rfl

theorem owner_reassign (weight : Nat → NodeId → UInt64) (config : ClusterConfig) (bucket : Nat) :
    (config.reassign weight).owner bucket =
      if bucket < config.numShards then rendezvousOwner weight bucket config.members.keys
      else none := by
  rw [owner, reassign]
  by_cases empty : config.members.isEmpty = true
  · have keys : config.members.keys = [] := by
      rw [← List.isEmpty_iff, Std.TreeMap.isEmpty_keys]
      exact empty
    simp [empty, keys, rendezvousOwner, maxByKey]
  · have keys : config.members.keys ≠ [] := by
      intro none
      apply empty
      rw [← Std.TreeMap.isEmpty_keys, none]
      rfl
    have chosen : ∀ shard, ∃ best, rendezvousOwner weight shard config.members.keys = some best :=
      fun shard => maxByKey_isSome keys
    choose best isBest using chosen
    rw [if_neg empty]
    simp only [isBest]
    rw [List.filterMap_eq_map', List.getElem?_map]
    by_cases inside : bucket < config.numShards
    · simp [inside]
    · simp [inside]

theorem owner_eq (assigned : Assigned weight config) (bucket : Nat) :
    config.owner bucket =
      if bucket < config.numShards then rendezvousOwner weight bucket config.members.keys
      else none := by
  rw [← owner_reassign, owner, owner, assigned]

theorem owner_isSome_of_mem (assigned : Assigned weight config) (member : id ∈ config.members)
    (inside : bucket < config.numShards) : ∃ owner, config.owner bucket = some owner := by
  rw [owner_eq assigned, if_pos inside]
  apply maxByKey_isSome
  intro none
  have listed := Std.TreeMap.mem_keys.mpr member
  rw [none] at listed
  exact List.not_mem_nil listed

theorem members_ascending (config : ClusterConfig) : config.members.keys.Pairwise (· < ·) :=
  Std.TreeMap.ordered_keys.imp fun less => by
    simpa [compare_lt_iff_lt] using less

theorem mem_of_owner (assigned : Assigned weight config) (owns : config.owner bucket = some id) :
    id ∈ config.members ∧ bucket < config.numShards := by
  rw [owner_eq assigned] at owns
  split at owns
  · rename_i inside
    have chosen := (maxByKey_eq_some_iff config.members_ascending).mp owns
    exact ⟨Std.TreeMap.mem_keys.mp chosen.1, inside⟩
  · cases owns

theorem ownerOfSubject_eq (assigned : Assigned weight config) (hash : UInt32 → UInt64)
    (sub : UInt32) :
    config.ownerOfSubject hash sub = config.owner (shardOf hash sub config.numShards) := by
  rw [ownerOfSubject]
  split
  · rename_i degenerate
    symm
    apply Option.eq_none_iff_forall_not_mem.mpr
    intro owner owns
    rcases mem_of_owner assigned owns with ⟨member, inside⟩
    rcases degenerate with zero | empty
    · omega
    · have present := Std.TreeMap.isEmpty_eq_false_iff_exists_mem.mpr ⟨owner, member⟩
      rw [empty] at present
      cases present
  · rfl

/-- More members: a bucket stays, or it goes to a member that was not there. -/
theorem owner_of_subset {other : ClusterConfig} (assigned : Assigned weight config)
    (otherAssigned : Assigned weight other) (same : other.numShards = config.numShards)
    (subset : ∀ id, id ∈ config.members → id ∈ other.members) {owner : NodeId}
    (owns : other.owner bucket = some owner) (kept : owner ∈ config.members) :
    config.owner bucket = some owner := by
  have inside := (mem_of_owner otherAssigned owns).2
  rw [owner_eq otherAssigned, if_pos inside] at owns
  rw [owner_eq assigned, if_pos (same ▸ inside)]
  apply maxByKey_of_subset other.members_ascending config.members_ascending _ owns
    (Std.TreeMap.mem_keys.mpr kept)
  intro id listed
  exact Std.TreeMap.mem_keys.mpr (subset id (Std.TreeMap.mem_keys.mp listed))

section Change

variable {changed : ClusterConfig}

theorem addNode_true (admitted : config.addNode weight id addr = (changed, true)) :
    id ∉ config.members ∧ Assigned weight changed ∧ changed.numShards = config.numShards ∧
      ∀ other, other ∈ changed.members ↔ other = id ∨ other ∈ config.members := by
  rw [addNode] at admitted
  split at admitted
  · cases admitted
  · rename_i absent
    cases admitted
    refine ⟨by simpa using absent, assigned_reassign _ _, rfl, ?_⟩
    intro other
    rw [reassign, Std.TreeMap.mem_insert, compare_eq_iff_eq]
    exact or_congr_left eq_comm

theorem removeNode_true (evicted : config.removeNode weight id = (changed, true)) :
    id ∈ config.members ∧ Assigned weight changed ∧ changed.numShards = config.numShards ∧
      ∀ other, other ∈ changed.members ↔ other ≠ id ∧ other ∈ config.members := by
  rw [removeNode] at evicted
  split at evicted
  · rename_i present
    cases evicted
    refine ⟨by simpa using present, assigned_reassign _ _, rfl, ?_⟩
    intro other
    rw [reassign, Std.TreeMap.mem_erase, Ne, compare_eq_iff_eq]
    exact and_congr_left fun _ => not_congr eq_comm
  · cases evicted

/-- A join takes buckets only to the joining node. -/
theorem owner_addNode (assigned : Assigned weight config)
    (admitted : config.addNode weight id addr = (changed, true))
    (differs : changed.owner bucket ≠ config.owner bucket) : changed.owner bucket = some id := by
  rcases addNode_true admitted with ⟨_, changedAssigned, same, members⟩
  have joined : id ∈ changed.members := (members id).mpr (.inl rfl)
  by_cases inside : bucket < changed.numShards
  · rcases owner_isSome_of_mem changedAssigned joined inside with ⟨owner, owns⟩
    rcases (members owner).mp (mem_of_owner changedAssigned owns).1 with new | old
    · rw [owns, new]
    · refine absurd ?_ differs
      rw [owns]
      symm
      exact owner_of_subset assigned changedAssigned same
        (fun other member => (members other).mpr (.inr member)) owns old
  · refine absurd ?_ differs
    rw [owner_eq changedAssigned, owner_eq assigned, if_neg inside, if_neg (same ▸ inside)]

/-- A leave takes buckets only from the leaving node. -/
theorem owner_removeNode (assigned : Assigned weight config)
    (evicted : config.removeNode weight id = (changed, true))
    (differs : changed.owner bucket ≠ config.owner bucket) : config.owner bucket = some id := by
  rcases removeNode_true evicted with ⟨member, changedAssigned, same, members⟩
  by_cases inside : bucket < config.numShards
  · rcases owner_isSome_of_mem assigned member inside with ⟨owner, owns⟩
    by_cases leaving : owner = id
    · rw [owns, leaving]
    · refine absurd ?_ differs
      rw [owns]
      exact owner_of_subset changedAssigned assigned same.symm
        (fun other present => ((members other).mp present).2) owns
        ((members owner).mpr ⟨leaving, (mem_of_owner assigned owns).1⟩)
  · refine absurd ?_ differs
    rw [owner_eq changedAssigned, owner_eq assigned, if_neg inside, if_neg (same ▸ inside)]

end Change

end ClusterConfig

/-! ## The moves -/

namespace ShardCluster

section Moves

variable {old new : ClusterConfig} {id : NodeId} {place : Nat → Option NodeId} {moves : List Move}

theorem arrived_of_ne {bucket : Nat} :
    ∀ {place : Nat → Option NodeId}, (∀ move ∈ moves, move.bucket ≠ bucket) →
      arrived place moves bucket = place bucket := by
  induction moves with
  | nil => intros; rfl
  | cons move rest induction =>
    intro place differs
    rw [arrived, induction fun other member => differs other (List.mem_cons_of_mem _ member)]
    exact Function.update_of_ne (Ne.symm (differs move List.mem_cons_self)) _ _

theorem arrived_of_mem {move : Move} :
    ∀ {place : Nat → Option NodeId}, (moves.map Move.bucket).Nodup → move ∈ moves →
      arrived place moves move.bucket = some move.target := by
  induction moves with
  | nil =>
    intro place _ member
    exact absurd member List.not_mem_nil
  | cons first rest induction =>
    intro place distinct member
    have parts := List.nodup_cons.mp distinct
    rw [arrived]
    rcases List.mem_cons.mp member with rfl | later
    · have apart : ∀ other ∈ rest, other.bucket ≠ move.bucket :=
        fun other present same => parts.1 (same ▸ List.mem_map_of_mem present)
      rw [arrived_of_ne apart]
      exact Function.update_self _ _ _
    · exact induction parts.2 later

theorem nodup_buckets {choose : Nat → Option Move} (count : Nat)
    (atBucket : ∀ bucket move, choose bucket = some move → move.bucket = bucket) :
    (((List.range count).filterMap choose).map Move.bucket).Nodup := by
  rw [List.map_filterMap]
  refine List.Nodup.filterMap ?_ List.nodup_range
  intro left right bucket atLeft atRight
  rcases Option.map_eq_some_iff.mp atLeft with ⟨first, chosen, rfl⟩
  rcases Option.map_eq_some_iff.mp atRight with ⟨second, alsoChosen, same⟩
  rw [← atBucket _ _ chosen, ← atBucket _ _ alsoChosen, same]

theorem mem_rebalanceMoves {move : Move} :
    move ∈ rebalanceMoves old new ↔ move.bucket < new.numShards ∧
      new.owner move.bucket = some move.target ∧ old.owner move.bucket = some move.source ∧
      move.source ≠ move.target := by
  rw [rebalanceMoves, List.mem_filterMap]
  constructor
  · rintro ⟨bucket, inside, chosen⟩
    split at chosen
    · rename_i target source newOwner oldOwner
      split at chosen
      · rename_i differs
        cases chosen
        exact ⟨List.mem_range.mp inside, newOwner, oldOwner, differs⟩
      · cases chosen
    · cases chosen
  · rintro ⟨inside, newOwner, oldOwner, differs⟩
    exact ⟨move.bucket, List.mem_range.mpr inside, by simp [newOwner, oldOwner, differs]⟩

theorem mem_leaveMoves {move : Move} :
    move ∈ leaveMoves old new id ↔ move.bucket < new.numShards ∧
      new.owner move.bucket = some move.target ∧ old.owner move.bucket = some id ∧
      move.source = id := by
  rw [leaveMoves, List.mem_filterMap]
  constructor
  · rintro ⟨bucket, inside, chosen⟩
    split at chosen
    · rename_i oldOwner
      rcases Option.map_eq_some_iff.mp chosen with ⟨target, newOwner, rfl⟩
      exact ⟨List.mem_range.mp inside, newOwner, oldOwner, rfl⟩
    · cases chosen
  · rintro ⟨inside, newOwner, oldOwner, rfl⟩
    exact ⟨move.bucket, List.mem_range.mpr inside, by simp [newOwner, oldOwner]⟩

theorem nodup_rebalanceMoves (old new : ClusterConfig) :
    ((rebalanceMoves old new).map Move.bucket).Nodup := by
  apply nodup_buckets
  intro bucket move chosen
  split at chosen
  · split at chosen
    · cases chosen
      rfl
    · cases chosen
  · cases chosen

theorem nodup_leaveMoves (old new : ClusterConfig) (id : NodeId) :
    ((leaveMoves old new id).map Move.bucket).Nodup := by
  apply nodup_buckets
  intro bucket move chosen
  split at chosen
  · rcases Option.map_eq_some_iff.mp chosen with ⟨target, _, rfl⟩
    rfl
  · cases chosen

end Moves

/-! ## Every triple at its owner -/

/-- Every endpoint holds the triples of its own buckets and no others. -/
structure Placed (hash : UInt32 → UInt64) (weight : Nat → NodeId → UInt64)
    (cluster : ShardCluster) (triples : Finset IdTriple) : Prop where
  small : cluster.config.numShards < 2 ^ 32
  assigned : cluster.config.Assigned weight
  nodup : (cluster.endpoints.map Prod.fst).Nodup
  reachable : ∀ id, id ∈ cluster.config.members → (cluster.endpoint id).isSome = true
  owned : ∀ triple ∈ triples, ∃ owner,
    cluster.config.owner (shardOf hash triple.sub cluster.config.numShards) = some owner
  holds : cluster.Holds
    (placed hash cluster.config.numShards cluster.config.owner triples)

section Change

variable {hash : UInt32 → UInt64} {weight : Nat → NodeId → UInt64} {cluster : ShardCluster}
  {triples : Finset IdTriple} {id : NodeId} {addr : SocketAddr} {endpoint : Shard}
  {old changed : ClusterConfig} {moves : List Move} {faults : Faults}

/-- A cluster that has switched its configuration and not yet moved anything. -/
structure Switched (hash : UInt32 → UInt64) (weight : Nat → NodeId → UInt64)
    (cluster : ShardCluster) (old : ClusterConfig) (triples : Finset IdTriple)
    (moves : List Move) : Prop where
  small : cluster.config.numShards < 2 ^ 32
  assigned : cluster.config.Assigned weight
  nodup : (cluster.endpoints.map Prod.fst).Nodup
  reachable : ∀ id, id ∈ cluster.config.members → (cluster.endpoint id).isSome = true
  owned : ∀ triple ∈ triples, ∃ owner,
    old.owner (shardOf hash triple.sub cluster.config.numShards) = some owner
  holds : cluster.Holds (placed hash cluster.config.numShards old.owner triples)
  departing : Departing cluster old.owner moves
  /-- The moves take every bucket to its new owner. -/
  realizes : ∀ bucket owner, old.owner bucket = some owner →
    arrived old.owner moves bucket = cluster.config.owner bucket ∧
      (cluster.config.owner bucket).isSome = true

theorem placed_eq_empty {config : ClusterConfig} (assigned : config.Assigned weight)
    (absent : id ∉ config.members) (hash : UInt32 → UInt64) (count : Nat)
    (triples : Finset IdTriple) : placed hash count config.owner triples id = ∅ := by
  apply Finset.filter_eq_empty_iff.mpr
  intro triple _ owns
  exact absent (ClusterConfig.mem_of_owner assigned owns).1

theorem Placed.join (atOwner : cluster.Placed hash weight triples)
    (empty : Refines endpoint.store ∅)
    (admitted : cluster.config.addNode weight id addr = (changed, true)) :
    Switched hash weight { cluster.setEndpoint id endpoint with config := changed }
      cluster.config triples (rebalanceMoves cluster.config changed) := by
  rcases ClusterConfig.addNode_true admitted with ⟨absent, assigned, same, members⟩
  have present : ∀ other, other ∈ changed.members →
      ((cluster.setEndpoint id endpoint).endpoint other).isSome = true := by
    intro other member
    rw [endpoint_setEndpoint]
    split
    · rfl
    · rename_i differs
      exact atOwner.reachable other (((members other).mp member).resolve_left differs)
  refine
    { small := same ▸ atOwner.small
      assigned
      nodup := nodup_keys_assocInsert id endpoint atOwner.nodup
      reachable := present
      owned := same ▸ atOwner.owned
      holds := ?_
      departing := ⟨?_, ?_, nodup_rebalanceMoves _ _⟩
      realizes := ?_ }
  · change (cluster.setEndpoint id endpoint).Holds _
    have held := atOwner.holds.setEndpoint id empty
    rw [← placed_eq_empty atOwner.assigned absent hash cluster.config.numShards triples,
      Function.update_eq_self] at held
    exact same ▸ held
  · intro move member
    rcases mem_rebalanceMoves.mp member with ⟨inside, newOwner, oldOwner, differs⟩
    have target := (ClusterConfig.mem_of_owner assigned newOwner).1
    have source := (ClusterConfig.mem_of_owner atOwner.assigned oldOwner).1
    exact ⟨differs, inside, same ▸ atOwner.small,
      present _ ((members _).mpr (.inr source)), present _ target⟩
  · intro move member
    exact (mem_rebalanceMoves.mp member).2.2.1
  · intro bucket owner owns
    have inside := same ▸ (ClusterConfig.mem_of_owner atOwner.assigned owns).2
    rcases ClusterConfig.owner_isSome_of_mem assigned ((members id).mpr (.inl rfl)) inside with
      ⟨target, newOwner⟩
    refine ⟨?_, by rw [newOwner]; rfl⟩
    by_cases differs : owner = target
    · rw [arrived_of_ne, owns, newOwner, differs]
      rintro move member rfl
      rcases mem_rebalanceMoves.mp member with ⟨_, toTarget, fromSource, apart⟩
      rw [newOwner] at toTarget
      rw [owns] at fromSource
      cases toTarget
      cases fromSource
      exact apart differs
    · have listed : ⟨bucket, owner, target⟩ ∈ rebalanceMoves cluster.config changed :=
        mem_rebalanceMoves.mpr ⟨inside, newOwner, owns, differs⟩
      rw [newOwner]
      exact arrived_of_mem (nodup_rebalanceMoves _ _) listed

theorem Placed.leave (atOwner : cluster.Placed hash weight triples)
    (evicted : cluster.config.removeNode weight id = (changed, true))
    (remains : ∃ other, other ∈ changed.members) :
    Switched hash weight { cluster with config := changed } cluster.config triples
      (leaveMoves cluster.config changed id) := by
  rcases ClusterConfig.removeNode_true evicted with ⟨member, assigned, same, members⟩
  have present : ∀ other, other ∈ changed.members → (cluster.endpoint other).isSome = true :=
    fun other member => atOwner.reachable other ((members other).mp member).2
  refine
    { small := same ▸ atOwner.small
      assigned
      nodup := atOwner.nodup
      reachable := present
      owned := same ▸ atOwner.owned
      holds := same ▸ atOwner.holds
      departing := ⟨?_, ?_, nodup_leaveMoves _ _ _⟩
      realizes := ?_ }
  · intro move listed
    rcases mem_leaveMoves.mp listed with ⟨inside, newOwner, oldOwner, source⟩
    have target := (ClusterConfig.mem_of_owner assigned newOwner).1
    refine ⟨?_, inside, same ▸ atOwner.small, ?_, present _ target⟩
    · rw [source]
      exact Ne.symm ((members _).mp target).1
    · rw [source]
      exact atOwner.reachable id member
  · intro move listed
    rcases mem_leaveMoves.mp listed with ⟨_, _, oldOwner, source⟩
    rw [source]
    exact oldOwner
  · intro bucket owner owns
    have inside := same ▸ (ClusterConfig.mem_of_owner atOwner.assigned owns).2
    rcases remains with ⟨other, stays⟩
    rcases ClusterConfig.owner_isSome_of_mem assigned stays inside with ⟨target, newOwner⟩
    refine ⟨?_, by rw [newOwner]; rfl⟩
    by_cases leaving : owner = id
    · have listed : ⟨bucket, id, target⟩ ∈ leaveMoves cluster.config changed id :=
        mem_leaveMoves.mpr ⟨inside, newOwner, leaving ▸ owns, rfl⟩
      rw [newOwner]
      exact arrived_of_mem (nodup_leaveMoves _ _ _) listed
    · rw [arrived_of_ne]
      · by_contra differs
        have moved := ClusterConfig.owner_removeNode atOwner.assigned evicted (Ne.symm differs)
        rw [owns] at moved
        exact leaving (Option.some.inj moved)
      · rintro move listed rfl
        have source := (mem_leaveMoves.mp listed).2.2.1
        rw [owns] at source
        exact leaving (Option.some.inj source)

theorem Switched.done (switched : Switched hash weight cluster old triples moves)
    {after : ShardCluster} (shape : SameShape cluster after)
    (held : after.Holds (placed hash after.config.numShards (arrived old.owner moves) triples)) :
    after.Placed hash weight triples where
  small := shape.config ▸ switched.small
  assigned := shape.config ▸ switched.assigned
  nodup := shape.nodup switched.nodup
  reachable id member := by
    rw [shape.endpoint_isSome]
    exact switched.reachable id (shape.config ▸ member)
  owned triple member := by
    rcases switched.owned triple member with ⟨owner, owns⟩
    rw [shape.config]
    exact Option.isSome_iff_exists.mp (switched.realizes _ owner owns).2
  holds := by
    have same : placed hash after.config.numShards (arrived old.owner moves) triples =
        placed hash after.config.numShards after.config.owner triples := by
      funext id
      apply Finset.filter_congr
      intro triple member
      rcases switched.owned triple member with ⟨owner, owns⟩
      rw [shape.config, (switched.realizes _ owner owns).1]
    rwa [same] at held

theorem Switched.migrateAll (switched : Switched hash weight cluster old triples moves)
    (answered : ∀ move ∈ moves, cluster.AllAnswered faults move
      (bucketOf hash cluster.config.numShards triples move.bucket)) :
    (cluster.migrateAll hash faults moves).1 = .ok () ∧
      SameShape cluster (cluster.migrateAll hash faults moves).2 ∧
      (cluster.migrateAll hash faults moves).2.Placed hash weight triples := by
  have departing : Departing cluster old.owner (moves ++ []) :=
    (List.append_nil moves).symm ▸ switched.departing
  rcases migrateAll_append switched.holds departing answered with ⟨after, shape, held, _, run⟩
  rw [List.append_nil] at run
  rw [run]
  exact ⟨rfl, shape, switched.done shape held⟩

end Change

/-! ## The calls of a cluster whose endpoints answer -/

section Calls

variable {hash : UInt32 → UInt64} {weight : Nat → NodeId → UInt64} {cluster : ShardCluster}
  {triples : Finset IdTriple} {id : NodeId} {addr : SocketAddr} {endpoint : Shard}
  {faults : Faults}

theorem placed_new (hash : UInt32 → UInt64) (weight : Nat → NodeId → UInt64) {numShards : Nat}
    (small : numShards < 2 ^ 32) : (new numShards).Placed hash weight ∅ where
  small
  assigned := ClusterConfig.assigned_new weight numShards
  nodup := List.nodup_nil
  reachable id member := absurd member Std.TreeMap.not_mem_emptyc
  owned triple member := absurd member (Finset.notMem_empty _)
  holds id shard found := by cases found

theorem answersAt_of_isAnswered {delivery : Delivery} (answered : delivery.isAnswered = true)
    (cluster : ShardCluster) (id : NodeId) : cluster.answersAt id delivery = true := by
  rw [answersAt]
  cases cluster.endpoint id with
  | none => rfl
  | some shard => simp [Shard.answers, answered]

theorem allAnswered (answered : ∀ bucket call, (faults bucket call).isAnswered = true)
    (cluster : ShardCluster) (move : Move) (load : Finset IdTriple) :
    cluster.AllAnswered faults move load :=
  ⟨⟨answersAt_of_isAnswered (answered _ _) _ _,
    fun _ _ => answersAt_of_isAnswered (answered _ _) _ _⟩,
    answersAt_of_isAnswered (answered _ _) _ _⟩

theorem addNode_admitted {changed : ClusterConfig}
    (admitted : cluster.config.addNode weight id addr = (changed, true)) :
    cluster.addNode hash weight faults id addr endpoint =
      ({ cluster.setEndpoint id endpoint with config := changed } : ShardCluster).migrateAll hash
        faults (rebalanceMoves cluster.config changed) := by
  simp only [ShardCluster.addNode, setEndpoint, admitted]

theorem addNode_present (present : id ∈ cluster.config.members) :
    cluster.addNode hash weight faults id addr endpoint =
      (.ok (), cluster.setEndpoint id endpoint) := by
  have refused : cluster.config.addNode weight id addr = (cluster.config, false) := by
    rw [ClusterConfig.addNode, if_pos (Std.TreeMap.contains_iff_mem.mpr present)]
  simp only [ShardCluster.addNode, setEndpoint, refused]

theorem removeNode_absent (absent : id ∉ cluster.config.members) :
    cluster.removeNode hash weight faults id = (.ok (), cluster) := by
  have refused : cluster.config.removeNode weight id = (cluster.config, false) := by
    rw [ClusterConfig.removeNode, if_neg fun present =>
      absent (Std.TreeMap.contains_iff_mem.mp present)]
  simp only [ShardCluster.removeNode, refused]

theorem exists_addNode_true (absent : id ∉ cluster.config.members) (weight : Nat → NodeId → UInt64)
    (addr : SocketAddr) :
    ∃ changed, cluster.config.addNode weight id addr = (changed, true) := by
  rw [ClusterConfig.addNode, if_neg fun present =>
    absent (Std.TreeMap.contains_iff_mem.mp present)]
  exact ⟨_, rfl⟩

theorem exists_removeNode_true (present : id ∈ cluster.config.members)
    (weight : Nat → NodeId → UInt64) :
    ∃ changed, cluster.config.removeNode weight id = (changed, true) := by
  rw [ClusterConfig.removeNode, if_pos (Std.TreeMap.contains_iff_mem.mpr present)]
  exact ⟨_, rfl⟩

theorem Placed.addNode (atOwner : cluster.Placed hash weight triples)
    (empty : Refines endpoint.store ∅) (absent : id ∉ cluster.config.members)
    (answered : ∀ bucket call, (faults bucket call).isAnswered = true) (addr : SocketAddr) :
    (cluster.addNode hash weight faults id addr endpoint).2.Placed hash weight triples := by
  rcases exists_addNode_true absent weight addr with ⟨changed, admitted⟩
  rw [addNode_admitted admitted]
  exact ((atOwner.join empty admitted).migrateAll fun move _ => allAnswered answered _ _ _).2.2

theorem Placed.setEndpoint (atOwner : cluster.Placed hash weight triples)
    (refines : Refines endpoint.store
      (placed hash cluster.config.numShards cluster.config.owner triples id)) :
    (cluster.setEndpoint id endpoint).Placed hash weight triples where
  small := atOwner.small
  assigned := atOwner.assigned
  nodup := nodup_keys_assocInsert id endpoint atOwner.nodup
  reachable other member := by
    rw [endpoint_setEndpoint]
    split
    · rfl
    · exact atOwner.reachable other member
  owned := atOwner.owned
  holds := by
    have held := atOwner.holds.setEndpoint id refines
    rwa [Function.update_eq_self] at held

theorem lookup_filter_ne (entries : List (NodeId × Shard)) (id other : NodeId) :
    (entries.filter fun entry => decide (entry.1 ≠ id)).lookup other =
      if other = id then none else entries.lookup other := by
  induction entries with
  | nil => simp
  | cons entry rest induction =>
    rw [List.filter_cons, lookup_cons_eq_ite]
    split
    · rename_i kept
      rw [lookup_cons_eq_ite, induction]
      by_cases same : other = id
      · subst same
        have differs : other ≠ entry.1 := Ne.symm (of_decide_eq_true kept)
        simp [differs]
      · simp [same]
    · rename_i dropped
      have isId : entry.1 = id := by simpa using dropped
      rw [induction, isId]
      by_cases same : other = id <;> simp [same]

/-- A node that is no member is dropped with nothing on it. -/
theorem Placed.drop (atOwner : cluster.Placed hash weight triples)
    (absent : id ∉ cluster.config.members) :
    ({ cluster with
      endpoints := cluster.endpoints.filter fun entry => decide (entry.1 ≠ id) } :
        ShardCluster).Placed hash weight triples where
  small := atOwner.small
  assigned := atOwner.assigned
  nodup := atOwner.nodup.sublist (List.filter_sublist.map Prod.fst)
  reachable other member := by
    have differs : other ≠ id := fun same => absent (same ▸ member)
    rw [ShardCluster.endpoint, lookup_filter_ne, if_neg differs]
    exact atOwner.reachable other member
  owned := atOwner.owned
  holds other shard found := by
    rw [ShardCluster.endpoint, lookup_filter_ne] at found
    split at found
    · cases found
    · exact atOwner.holds other shard found

theorem Placed.removeNode (atOwner : cluster.Placed hash weight triples)
    (remains : ∃ other, other ∈ cluster.config.members ∧ other ≠ id)
    (answered : ∀ bucket call, (faults bucket call).isAnswered = true) :
    (cluster.removeNode hash weight faults id).2.Placed hash weight triples := by
  by_cases present : id ∈ cluster.config.members
  · rcases exists_removeNode_true present weight with ⟨changed, evicted⟩
    have members := (ClusterConfig.removeNode_true evicted).2.2.2
    rcases remains with ⟨other, stays, differs⟩
    have switched := atOwner.leave evicted ⟨other, (members other).mpr ⟨differs, stays⟩⟩
    rcases switched.migrateAll (fun move _ => allAnswered answered _ _ _) with
      ⟨done, shape, moved⟩
    have left : id ∉ changed.members := fun member => ((members id).mp member).1 rfl
    simp only [ShardCluster.removeNode, evicted]
    cases run : ({ cluster with config := changed } : ShardCluster).migrateAll hash faults
        (leaveMoves cluster.config changed id) with
    | mk result after =>
      rw [run] at done moved shape
      cases done
      exact moved.drop (shape.config ▸ left)
  · rw [removeNode_absent present]
    exact atOwner

theorem placed_insert {count : Nat} {place : Nat → Option NodeId} (triple : IdTriple)
    (owner : NodeId) (owns : place (shardOf hash triple.sub count) = some owner) :
    Function.update (placed hash count place triples) owner
      ({triple} ∪ placed hash count place triples owner) =
    placed hash count place ({triple} ∪ triples) := by
  funext id
  rw [Function.update_apply]
  ext other
  by_cases same : id = owner
  · subst same
    simp only [placed, if_true, Finset.mem_union, Finset.mem_singleton, Finset.mem_filter]
    constructor
    · rintro (rfl | ⟨member, atId⟩)
      · exact ⟨.inl rfl, owns⟩
      · exact ⟨.inr member, atId⟩
    · rintro ⟨rfl | member, atId⟩
      · exact .inl rfl
      · exact .inr ⟨member, atId⟩
  · simp only [placed, same, if_false, Finset.mem_union, Finset.mem_singleton, Finset.mem_filter]
    constructor
    · rintro ⟨member, atId⟩
      exact ⟨.inr member, atId⟩
    · rintro ⟨rfl | member, atId⟩
      · rw [owns] at atId
        exact absurd (Option.some.inj atId).symm same
      · exact ⟨member, atId⟩

/-- An insert with no member to route to is refused; any other one is accepted. -/
theorem Placed.insert (atOwner : cluster.Placed hash weight triples) {delivery : Delivery}
    (answered : delivery.isAnswered = true) (triple : IdTriple) :
    ((∃ error, (cluster.insert hash delivery triple).1 = .error error) ∧
      (cluster.insert hash delivery triple).2 = cluster) ∨
    ((∃ inserted, (cluster.insert hash delivery triple).1 = .ok inserted) ∧
      (cluster.insert hash delivery triple).2.Placed hash weight ({triple} ∪ triples)) := by
  cases routed : cluster.config.ownerOfSubject hash triple.sub with
  | none =>
    refine .inl ?_
    rw [ShardCluster.insert, routed]
    exact ⟨⟨_, rfl⟩, rfl⟩
  | some owner =>
    refine .inr ?_
    have owns := routed
    rw [ClusterConfig.ownerOfSubject_eq atOwner.assigned] at owns
    have member := (ClusterConfig.mem_of_owner atOwner.assigned owns).1
    rcases Option.isSome_iff_exists.mp (atOwner.reachable owner member) with ⟨shard, found⟩
    have answers : shard.answers delivery = true := by simp [Shard.answers, answered]
    rcases Shard.insert_spec hash (atOwner.holds owner shard found) triple answers with
      ⟨result, held⟩
    rw [ShardCluster.insert, routed]
    dsimp only
    rw [found]
    have shape : SameShape cluster (cluster.setEndpoint owner
        (shard.insert hash delivery triple).2) :=
      sameShape_setEndpoint found (insert_isRemote hash delivery shard triple)
    refine ⟨result, ?_⟩
    exact
      { small := atOwner.small
        assigned := atOwner.assigned
        nodup := shape.nodup atOwner.nodup
        reachable := fun id member => by
          rw [shape.endpoint_isSome]
          exact atOwner.reachable id member
        owned := fun other listed => by
          rcases Finset.mem_union.mp listed with new | old
          · rw [Finset.mem_singleton.mp new]
            exact ⟨owner, owns⟩
          · exact atOwner.owned other old
        holds := by
          have filled := atOwner.holds.setEndpoint owner held
          rwa [placed_insert triple owner owns] at filled }

theorem Placed.source_eq (atOwner : cluster.Placed hash weight triples) {network : Network}
    (delivered : ∀ request, (network request).isAnswered = true) {single : TripleStore}
    (refines : Refines single triples) : cluster.source hash network = single.source := by
  have reads : (cluster.endpoints.map fun entry => entry.2.reads hash network) =
      (cluster.endpoints.map fun entry => entry.2.store).map storeReads := by
    rw [List.map_map]
    exact List.map_congr_left fun entry _ => Shard.reads_eq delivered entry.2
  let part := fun entry : NodeId × Shard =>
    placed hash cluster.config.numShards cluster.config.owner triples entry.1
  have union : whole (cluster.endpoints.map part) = triples := by
    ext triple
    rw [mem_whole]
    constructor
    · rintro ⟨_, listed, member⟩
      rcases List.mem_map.mp listed with ⟨entry, _, rfl⟩
      exact (Finset.mem_filter.mp member).1
    · intro member
      rcases atOwner.owned triple member with ⟨owner, owns⟩
      have present := (ClusterConfig.mem_of_owner atOwner.assigned owns).1
      rcases Option.isSome_iff_exists.mp (atOwner.reachable owner present) with ⟨shard, found⟩
      exact ⟨_, List.mem_map_of_mem (mem_of_lookup_eq_some found),
        Finset.mem_filter.mpr ⟨member, owns⟩⟩
  have refining : List.Forall₂ Refines (cluster.endpoints.map fun entry => entry.2.store)
      (cluster.endpoints.map part) := by
    rw [List.forall₂_map_left_iff, List.forall₂_map_right_iff, List.forall₂_same]
    intro entry member
    exact atOwner.holds entry.1 entry.2 (lookup_eq_some_of_mem atOwner.nodup member)
  rw [ShardCluster.source, reads]
  refine gather_eq_source refining ?_ (union.symm ▸ refines)
  · refine List.pairwise_map.mpr ((List.pairwise_map.mp atOwner.nodup).imp ?_)
    intro left right differs
    rw [Finset.disjoint_left]
    intro triple inLeft inRight
    have atLeft := (Finset.mem_filter.mp inLeft).2
    rw [(Finset.mem_filter.mp inRight).2] at atLeft
    exact differs (Option.some.inj atLeft).symm

end Calls

/-! ## Runs -/

/-- A call on the cluster, with what happens to its endpoint calls. -/
inductive Call where
  | addNode (id : NodeId) (addr : SocketAddr) (endpoint : Shard) (faults : Faults)
  | removeNode (id : NodeId) (faults : Faults)
  | insert (triple : IdTriple) (delivery : Delivery)

namespace Call

variable (hash : UInt32 → UInt64) (weight : Nat → NodeId → UInt64)

def after (cluster : ShardCluster) : Call → ShardCluster
  | .addNode id addr endpoint faults => (cluster.addNode hash weight faults id addr endpoint).2
  | .removeNode id faults => (cluster.removeNode hash weight faults id).2
  | .insert triple delivery => (cluster.insert hash delivery triple).2

/-- The triple that an insert has put in. -/
def accepted (cluster : ShardCluster) : Call → List IdTriple
  | .insert triple delivery =>
    match (cluster.insert hash delivery triple).1 with
    | .ok _ => [triple]
    | .error _ => []
  | .addNode .. | .removeNode .. => []

/-- A joining endpoint is empty, some member stays, and no endpoint call fails. -/
def InScope (cluster : ShardCluster) : Call → Prop
  | .addNode _ _ endpoint faults =>
    Refines endpoint.store ∅ ∧ ∀ bucket call, (faults bucket call).isAnswered = true
  | .removeNode id faults =>
    (∃ other, other ∈ cluster.config.members ∧ other ≠ id) ∧
      ∀ bucket call, (faults bucket call).isAnswered = true
  | .insert _ delivery => delivery.isAnswered = true

/-- No endpoint that holds triples is replaced. -/
def ReplacesNothing (cluster : ShardCluster) : Call → Prop
  | .addNode id _ _ _ => id ∈ cluster.config.members →
      ∀ shard, cluster.endpoint id = some shard → Refines shard.store ∅
  | _ => True

end Call

/-- The clusters that guarded calls reach from an empty one, with the triples that
the inserts put in. -/
inductive Run (hash : UInt32 → UInt64) (weight : Nat → NodeId → UInt64)
    (guard : ShardCluster → Call → Prop) (numShards : Nat) : ShardCluster → List IdTriple → Prop
  | new : Run hash weight guard numShards (new numShards) []
  | call {cluster : ShardCluster} {inserted : List IdTriple} (call : Call) :
      Run hash weight guard numShards cluster inserted → guard cluster call →
      Run hash weight guard numShards (call.after hash weight cluster)
        (call.accepted hash cluster ++ inserted)

section Runs

variable {hash : UInt32 → UInt64} {weight : Nat → NodeId → UInt64} {cluster : ShardCluster}
  {inserted : List IdTriple} {triples : Finset IdTriple} {numShards : Nat}

theorem Placed.call (atOwner : cluster.Placed hash weight triples) (call : Call)
    (scope : call.InScope cluster) (kept : call.ReplacesNothing cluster) :
    (call.after hash weight cluster).Placed hash weight
      ((call.accepted hash cluster).toFinset ∪ triples) := by
  cases call with
  | addNode id addr endpoint faults =>
    rw [Call.accepted, List.toFinset_nil, Finset.empty_union]
    by_cases present : id ∈ cluster.config.members
    · rcases Option.isSome_iff_exists.mp (atOwner.reachable id present) with ⟨shard, found⟩
      have nothing := (kept present shard found).unique (atOwner.holds id shard found)
      rw [Call.after, addNode_present present]
      exact atOwner.setEndpoint (nothing ▸ scope.1)
    · exact atOwner.addNode scope.1 present scope.2 addr
  | removeNode id faults =>
    rw [Call.accepted, List.toFinset_nil, Finset.empty_union]
    exact atOwner.removeNode scope.1 scope.2
  | insert triple delivery =>
    rcases atOwner.insert scope triple with ⟨⟨error, refused⟩, same⟩ | ⟨⟨new, done⟩, after⟩
    · rw [Call.accepted, refused, Call.after, same]
      simpa using atOwner
    · rw [Call.accepted, done]
      exact after

theorem Run.placed (small : numShards < 2 ^ 32)
    (run : Run hash weight (fun cluster call => call.InScope cluster ∧ call.ReplacesNothing cluster)
      numShards cluster inserted) : cluster.Placed hash weight inserted.toFinset := by
  induction run with
  | new => exact placed_new hash weight small
  | call call _ guarded induction =>
    rw [List.toFinset_append]
    exact induction.call call guarded.1 guarded.2

/-- The endpoints hold the triples, each one on its owner only. -/
def OnOwners (hash : UInt32 → UInt64) (cluster : ShardCluster) (triples : List IdTriple) : Prop :=
  (∀ id shard, cluster.endpoint id = some shard → ∀ triple,
    triple ∈ shard.store.iterAll ↔
      triple ∈ triples ∧ cluster.config.ownerOfSubject hash triple.sub = some id) ∧
  ∀ triple ∈ triples, ∃ id, cluster.config.ownerOfSubject hash triple.sub = some id ∧
    (cluster.endpoint id).isSome = true

/-- A membership change moves only the buckets that the joining node gains, or that
the leaving node owns. -/
def MovesOnlyTheirs (weight : Nat → NodeId → UInt64) (cluster : ShardCluster) : Prop :=
  (∀ id addr changed, cluster.config.addNode weight id addr = (changed, true) →
    (∀ bucket, changed.owner bucket ≠ cluster.config.owner bucket →
      changed.owner bucket = some id) ∧
    ∀ move ∈ rebalanceMoves cluster.config changed, move.target = id) ∧
  ∀ id changed, cluster.config.removeNode weight id = (changed, true) →
    (∀ bucket, changed.owner bucket ≠ cluster.config.owner bucket →
      cluster.config.owner bucket = some id) ∧
    ∀ move ∈ leaveMoves cluster.config changed id,
      move.source = id ∧ cluster.config.owner move.bucket = some id

/-- What a cluster promises: the inserted triples on their owners, the answers of one
store, and no needless moves. -/
structure KeepsAll (hash : UInt32 → UInt64) (weight : Nat → NodeId → UInt64)
    (cluster : ShardCluster) (inserted : List IdTriple) : Prop where
  onOwners : cluster.OnOwners hash inserted
  source_eq : ∀ network : Network, (∀ request, (network request).isAnswered = true) →
    cluster.source hash network = (TripleStore.new.bulkLoad inserted).source
  movesOnlyTheirs : cluster.MovesOnlyTheirs weight

theorem Placed.onOwners (atOwner : cluster.Placed hash weight inserted.toFinset) :
    cluster.OnOwners hash inserted := by
  constructor
  · intro id shard found triple
    rw [(atOwner.holds id shard found).iterAll.mem_iff, placed, Finset.mem_filter,
      List.mem_toFinset, ClusterConfig.ownerOfSubject_eq atOwner.assigned]
  · intro triple member
    rcases atOwner.owned triple (List.mem_toFinset.mpr member) with ⟨owner, owns⟩
    rw [ClusterConfig.ownerOfSubject_eq atOwner.assigned]
    exact ⟨owner, owns,
      atOwner.reachable owner (ClusterConfig.mem_of_owner atOwner.assigned owns).1⟩

theorem Placed.movesOnlyTheirs (atOwner : cluster.Placed hash weight triples) :
    cluster.MovesOnlyTheirs weight := by
  constructor
  · intro id addr changed admitted
    refine ⟨fun bucket => ClusterConfig.owner_addNode atOwner.assigned admitted, ?_⟩
    intro move listed
    rcases mem_rebalanceMoves.mp listed with ⟨_, newOwner, oldOwner, apart⟩
    have gained : changed.owner move.bucket = some id := by
      apply ClusterConfig.owner_addNode atOwner.assigned admitted
      rw [newOwner, oldOwner]
      exact fun same => apart (Option.some.inj same).symm
    rw [newOwner] at gained
    exact Option.some.inj gained
  · intro id changed evicted
    refine ⟨fun bucket => ClusterConfig.owner_removeNode atOwner.assigned evicted, ?_⟩
    intro move listed
    rcases mem_leaveMoves.mp listed with ⟨_, _, oldOwner, source⟩
    exact ⟨source, oldOwner⟩

/-- Elastic membership loses nothing, as long as no join replaces an endpoint that
holds triples and the buckets can be numbered in 32 bits. -/
theorem elastic_membership_keeps (hash : UInt32 → UInt64) (weight : Nat → NodeId → UInt64)
    (small : numShards < 2 ^ 32)
    (run : Run hash weight (fun cluster call => call.InScope cluster ∧ call.ReplacesNothing cluster)
      numShards cluster inserted) :
    cluster.KeepsAll hash weight inserted := by
  have atOwner := run.placed small
  have single : Refines (TripleStore.new.bulkLoad inserted) inserted.toFinset := by
    simpa using refines_new.bulkLoad inserted
  exact ⟨atOwner.onOwners, fun network delivered => atOwner.source_eq delivered single,
    atOwner.movesOnlyTheirs⟩

/-- A node joins with an empty in-process store. -/
def joinOne : Call := .addNode 1 ⟨.v4 0, 0⟩ (.local .new) fun _ _ => .answered

def insertOne : Call := .insert ⟨1, 2, 3⟩ .answered

theorem run_joinOne (guard : ShardCluster → Call → Prop)
    (first : guard (new 1) joinOne)
    (second : guard (joinOne.after (fun _ => 0) (fun _ _ => 0) (new 1)) insertOne) :
    Run (fun _ => 0) (fun _ _ => 0) guard 1
      (insertOne.after (fun _ => 0) (fun _ _ => 0)
        (joinOne.after (fun _ => 0) (fun _ _ => 0) (new 1))) [⟨1, 2, 3⟩] :=
  .call insertOne (.call joinOne .new first) second

theorem elastic_membership_keeps_joinOne :
    ∃ cluster : ShardCluster, cluster.KeepsAll (fun _ => 0) (fun _ _ => 0) [⟨1, 2, 3⟩] := by
  have run := run_joinOne (fun cluster call => call.InScope cluster ∧ call.ReplacesNothing cluster)
    ⟨⟨refines_new, fun _ _ => rfl⟩, fun present => absurd present Std.TreeMap.not_mem_emptyc⟩
    ⟨rfl, trivial⟩
  exact ⟨_, elastic_membership_keeps (fun _ => 0) (fun _ _ => 0) (by decide) run⟩

/-- A second join of the same node replaces its endpoint, and the triple is gone. -/
theorem second_join_loses_triple :
    ¬ ∀ (hash : UInt32 → UInt64) (weight : Nat → NodeId → UInt64) (numShards : Nat)
      (cluster : ShardCluster) (inserted : List IdTriple),
      Run hash weight (fun cluster call => call.InScope cluster) numShards cluster inserted →
      cluster.KeepsAll hash weight inserted := by
  intro holds
  have run := run_joinOne (fun cluster call => call.InScope cluster)
    ⟨refines_new, fun _ _ => rfl⟩ rfl
  have again := Run.call joinOne run ⟨refines_new, fun _ _ => rfl⟩
  have placed := (holds _ _ _ _ _ again).onOwners.1 1 (.local .new) rfl ⟨1, 2, 3⟩
  have kept := placed.mpr ⟨by decide, by decide⟩
  exact absurd kept (by decide)

end Runs

end ShardCluster

end GStore.Cluster
