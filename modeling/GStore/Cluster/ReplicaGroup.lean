import GStore.Cluster.ScatterGather
import GStore.Foundation.MaxByKey

/-! # Replica groups

`cluster.rs`: one Raft group per shard bucket, driven synchronously. The parallel
vectors of the source are indexed by replica id here; the ids of a group are
distinct. A call that panics in the source has no result. -/

namespace GStore.Cluster

open Store

/-- Apply one committed mutation to a store. -/
def applyOp (store : TripleStore) : LogOp → TripleStore
  | .insert triple => (store.insert triple).1
  | .delete triple => (store.remove triple).1
  | .addNode _ _ | .removeNode _ | .noop => store

/-- One action of `sync_apply`. -/
def applyAction (store : TripleStore) : StoreAction → TripleStore
  | .apply op => applyOp store op
  | .reset triples => TripleStore.new.bulkLoad triples

structure ReplicaGroup where
  shard : Nat
  replicas : List NodeId
  states : NodeId → RaftState
  stores : NodeId → TripleStore
  down : NodeId → Bool
  compactThreshold : Nat
  nonempty : replicas ≠ []
  nodup : replicas.Nodup

namespace ReplicaGroup

def new (shard : Nat) (replicas : List NodeId) (cfg : RaftConfig) (compactThreshold : Nat)
    (nonempty : replicas ≠ []) (nodup : replicas.Nodup) : ReplicaGroup where
  shard
  replicas
  states id := RaftState.new id (replicas.filter fun peer => decide (peer ≠ id)) cfg
  stores _ := TripleStore.new
  down _ := false
  compactThreshold
  nonempty
  nodup

def setState (group : ReplicaGroup) (id : NodeId) (state : RaftState) : ReplicaGroup :=
  { group with states := Function.update group.states id state }

def setStore (group : ReplicaGroup) (id : NodeId) (store : TripleStore) : ReplicaGroup :=
  { group with stores := Function.update group.stores id store }

def setDown (group : ReplicaGroup) (id : NodeId) (down : Bool) : ReplicaGroup :=
  let group :=
    if group.down id ∧ down = false then group.setState id (group.states id).noteRevived else group
  { group with down := Function.update group.down id down }

/-- The up replica that leads in the highest term. -/
def leader (group : ReplicaGroup) : Option NodeId :=
  maxByKey (fun id => (group.states id).currentTerm) (group.replicas.filter fun id =>
    !group.down id && decide ((group.states id).role = .leader))

/-- The store that serves reads: the leader's, else that of any up replica. -/
def readableStore (group : ReplicaGroup) : Option TripleStore :=
  match group.leader with
  | some leader => some (group.stores leader)
  | none => (group.replicas.find? fun id => !group.down id).map group.stores

def tripleCount (group : ReplicaGroup) : Nat :=
  (group.readableStore.map TripleStore.tripleCount).getD 0

/-! ## Applying and compacting -/

/-- Apply what one replica has newly committed. -/
def applyReplica (group : ReplicaGroup) (id : NodeId) : ReplicaGroup :=
  let (state, actions) := (group.states id).drainApply
  (group.setState id state).setStore id (actions.foldl applyAction (group.stores id))

/-- Compact one replica whose log has outgrown the threshold. -/
def compactReplica (group : ReplicaGroup) (id : NodeId) : ReplicaGroup :=
  if group.down id then
    group
  else
    let state := group.states id
    if state.lastApplied - state.baseIndex > group.compactThreshold then
      group.setState id (state.compact state.lastApplied (group.stores id).iterAll)
    else
      group

def maybeCompact (group : ReplicaGroup) : ReplicaGroup :=
  if group.compactThreshold = 0 then group else group.replicas.foldl compactReplica group

def syncApply (group : ReplicaGroup) : ReplicaGroup :=
  (group.replicas.foldl applyReplica group).maybeCompact

/-! ## Message delivery -/

/-- How many messages one delivery handles at most. -/
def deliverGuard : Nat := 100000

/-- The loop of `deliver`: each message is handled and its reply goes straight
back to the sender, whose follow-ups join the end of the queue. -/
def deliverQueue : Nat → List (NodeId × Outgoing) → ReplicaGroup → ReplicaGroup
  | 0, _, group => group
  | _ + 1, [], group => group
  | fuel + 1, (source, sent) :: queue, group =>
    if group.down sent.to || group.down source then
      deliverQueue fuel queue group
    else
      let (receiver, reply) := (group.states sent.to).handle sent.msg
      let group := group.setState sent.to receiver
      let (sender, more) := (group.states source).handleReply sent.to reply
      let group := group.setState source sender
      deliverQueue fuel (queue ++ more.map fun next => (source, next)) group

def deliver (group : ReplicaGroup) (source : NodeId) (outs : List Outgoing) : ReplicaGroup :=
  (deliverQueue deliverGuard (outs.map fun sent => (source, sent)) group).syncApply

/-! ## Driving a group -/

def tick (group : ReplicaGroup) (id : NodeId) : ReplicaGroup :=
  if group.down id then
    group
  else
    let (state, outs) := (group.states id).tick
    (group.setState id state).deliver id outs

/-- The loop of `elect`; the source panics when it runs out. -/
def electLoop : Nat → ReplicaGroup → NodeId → Option ReplicaGroup
  | 0, _, _ => none
  | rounds + 1, group, id =>
    if group.down id = false ∧ (group.states id).role = .leader then some group
    else electLoop rounds (group.tick id) id

def elect (group : ReplicaGroup) (id : NodeId) : Option ReplicaGroup :=
  electLoop 1000 group id

/-- The up replica with the most recent log, the lowest id among equals. -/
def mostUpToDate (group : ReplicaGroup) : Option NodeId :=
  maxByKey
    (fun id => toLex ((group.states id).lastLogTerm,
      toLex ((group.states id).lastLogIndex, OrderDual.toDual id.toNat)))
    (group.replicas.filter fun id => !group.down id)

def ensureLeader (group : ReplicaGroup) : Option (ReplicaGroup × NodeId) :=
  match group.leader with
  | some leader => some (group, leader)
  | none => do
    let candidate ← group.mostUpToDate
    let group ← group.elect candidate
    return (group, candidate)

/-- Append to the leader's log and send it out: the leader and the index. -/
def propose (group : ReplicaGroup) (op : LogOp) : ReplicaGroup × Option (NodeId × Nat) :=
  match group.leader with
  | none => (group, none)
  | some leader =>
    match (group.states leader).propose op with
    | (_, none) => (group, none)
    | (state, some index) =>
      let (state, outs) := state.replicateNow
      ((group.setState leader state).deliver leader outs, some (leader, index))

def settle : Nat → ReplicaGroup → ReplicaGroup
  | 0, group => group
  | rounds + 1, group =>
    match group.leader with
    | some leader => settle rounds (group.tick leader)
    | none => group

end ReplicaGroup

/-- The calls that drive a group. -/
inductive GroupCall where
  | tick (id : NodeId)
  | elect (id : NodeId)
  | ensureLeader
  | propose (op : LogOp)
  | settle (rounds : Nat)
  | setDown (id : NodeId) (down : Bool)

namespace ReplicaGroup

/-- One call. A replica id outside the group panics. -/
def step (group : ReplicaGroup) : GroupCall → Option ReplicaGroup
  | .tick id => if id ∈ group.replicas then some (group.tick id) else none
  | .elect id => if id ∈ group.replicas then group.elect id else none
  | .ensureLeader => group.ensureLeader.map Prod.fst
  | .propose op => some (group.propose op).1
  | .settle rounds => some (settle rounds group)
  | .setDown id down => if id ∈ group.replicas then some (group.setDown id down) else none

end ReplicaGroup

/-! ## One group per bucket -/

structure ShardedRaftCluster where
  numShards : Nat
  replicationFactor : Nat
  groups : List ReplicaGroup
  groups_length : groups.length = numShards
  numShards_pos : 0 < numShards

namespace ShardedRaftCluster

/-- The per-bucket serving stores; a bucket with every replica down is skipped. -/
def readableStores (cluster : ShardedRaftCluster) : List TripleStore :=
  cluster.groups.filterMap ReplicaGroup.readableStore

/-- `impl TripleSource for ShardedRaftCluster`. -/
def source (cluster : ShardedRaftCluster) : TripleSource :=
  gather (cluster.readableStores.map storeReads)

def group (cluster : ShardedRaftCluster) (bucket : Fin cluster.numShards) : ReplicaGroup :=
  cluster.groups.get (bucket.cast cluster.groups_length.symm)

def setGroup (cluster : ShardedRaftCluster) (bucket : Fin cluster.numShards)
    (group : ReplicaGroup) : ShardedRaftCluster :=
  { cluster with
    groups := cluster.groups.set bucket group
    groups_length := by rw [List.length_set, cluster.groups_length] }

section Calls

variable (hash : UInt32 → UInt64)

def shardOfSubject (cluster : ShardedRaftCluster) (sub : UInt32) : Fin cluster.numShards :=
  ⟨shardOf hash sub cluster.numShards, Nat.mod_lt _ cluster.numShards_pos⟩

/-- Route a triple to its bucket's group: whether it was new, or no leader. -/
def insert (cluster : ShardedRaftCluster) (triple : IdTriple) :
    ShardedRaftCluster × Option Bool :=
  let bucket := cluster.shardOfSubject hash triple.sub
  let present := ((cluster.group bucket).readableStore.map fun store =>
    store.exists triple.sub triple.pred triple.obj).getD false
  if present then
    (cluster, some false)
  else
    let (group, proposed) := (cluster.group bucket).propose (.insert triple)
    (cluster.setGroup bucket group, proposed.map fun _ => true)

def insertAll (cluster : ShardedRaftCluster) : List IdTriple → ShardedRaftCluster × Nat
  | [] => (cluster, 0)
  | triple :: rest =>
    let (next, answer) := cluster.insert hash triple
    let (final, added) := insertAll next rest
    (final, if answer = some true then added + 1 else added)

/-- Route a delete to its bucket's group; presence is decided by the leader. -/
def remove (cluster : ShardedRaftCluster) (triple : IdTriple) :
    ShardedRaftCluster × Option Bool :=
  let bucket := cluster.shardOfSubject hash triple.sub
  if (cluster.group bucket).leader = none then
    (cluster, none)
  else
    let present := ((cluster.group bucket).readableStore.map fun store =>
      store.exists triple.sub triple.pred triple.obj).getD false
    if present then
      let (group, proposed) := (cluster.group bucket).propose (.delete triple)
      (cluster.setGroup bucket group, proposed.map fun _ => true)
    else
      (cluster, some false)

end Calls

end ShardedRaftCluster

end GStore.Cluster
