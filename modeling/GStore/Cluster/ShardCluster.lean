import GStore.Cluster.Sharding
import GStore.Foundation.Assoc

/-! # Elastic membership

`cluster.rs`: the configuration of a cluster, with its shard-to-owner assignment,
and the coordinator that migrates buckets between shard endpoints when a node joins
or leaves. The hash of a bucket with a member is a parameter, like the hash of a
subject. -/

namespace GStore.Cluster

open Store

/-- The owner of a bucket among the members: the one with the greatest hash. -/
def rendezvousOwner (weight : Nat → NodeId → UInt64) (shard : Nat) (members : List NodeId) :
    Option NodeId :=
  maxByKey (weight shard) members

structure ClusterConfig where
  epoch : Nat
  numShards : Nat
  members : Std.TreeMap NodeId SocketAddr
  /-- The owner of each bucket; empty when there are no members. -/
  assignment : List NodeId

namespace ClusterConfig

def new (numShards : Nat) : ClusterConfig where
  epoch := 0
  numShards
  members := ∅
  assignment := []

def owner (config : ClusterConfig) (shard : Nat) : Option NodeId := config.assignment[shard]?

def ownerOfSubject (hash : UInt32 → UInt64) (config : ClusterConfig) (sub : UInt32) :
    Option NodeId :=
  if config.numShards = 0 ∨ config.members.isEmpty then none
  else config.owner (shardOf hash sub config.numShards)

section Change

variable (weight : Nat → NodeId → UInt64)

/-- Recompute the owners over the current members. -/
def reassign (config : ClusterConfig) : ClusterConfig :=
  { config with
    assignment :=
      if config.members.isEmpty then []
      else (List.range config.numShards).filterMap fun shard =>
        rendezvousOwner weight shard config.members.keys }

def addNode (config : ClusterConfig) (id : NodeId) (addr : SocketAddr) : ClusterConfig × Bool :=
  if config.members.contains id then
    (config, false)
  else
    (reassign weight
      { config with members := config.members.insert id addr, epoch := config.epoch + 1 }, true)

def removeNode (config : ClusterConfig) (id : NodeId) : ClusterConfig × Bool :=
  if config.members.contains id then
    (reassign weight
      { config with members := config.members.erase id, epoch := config.epoch + 1 }, true)
  else
    (config, false)

/-- Apply a committed log entry; only membership changes matter. -/
def apply (config : ClusterConfig) : LogOp → ClusterConfig × Bool
  | .addNode id addr => config.addNode weight id addr
  | .removeNode id => config.removeNode weight id
  | .insert _ | .delete _ | .noop => (config, false)

end Change

end ClusterConfig

/-- The calls that a bucket's migration makes on its two endpoints. -/
inductive EndpointCall where
  | scan
  | insert (triple : IdTriple)
  | purge
deriving DecidableEq

/-- How each call of a membership change goes, by bucket. -/
abbrev Faults := Nat → EndpointCall → Delivery

/-- A bucket that changes its owner. -/
structure Move where
  bucket : Nat
  source : NodeId
  target : NodeId
deriving DecidableEq

structure ShardCluster where
  config : ClusterConfig
  /-- A hash map, in whatever order it iterates. -/
  endpoints : List (NodeId × Shard)

namespace ShardCluster

def new (numShards : Nat) : ShardCluster := { config := .new numShards, endpoints := [] }

def endpoint (cluster : ShardCluster) (id : NodeId) : Option Shard := cluster.endpoints.lookup id

def setEndpoint (cluster : ShardCluster) (id : NodeId) (shard : Shard) : ShardCluster :=
  { cluster with endpoints := assocInsert id shard cluster.endpoints }

section Calls

variable (hash : UInt32 → UInt64) (weight : Nat → NodeId → UInt64)

/-- Insert triple by triple; the first error ends it. -/
def copyTo (deliver : EndpointCall → Delivery) :
    Shard → List IdTriple → Except IoError Unit × Shard
  | shard, [] => (.ok (), shard)
  | shard, triple :: rest =>
    match shard.insert hash (deliver (.insert triple)) triple with
    | (.error error, shard) => (.error error, shard)
    | (.ok _, shard) => copyTo deliver shard rest

/-- The first half of a migration: insert the triples at the new owner. -/
def copyStage (faults : Faults) (cluster : ShardCluster) (move : Move) (triples : List IdTriple) :
    Except IoError Unit × ShardCluster :=
  match cluster.endpoint move.target with
  | none => (.ok (), cluster)
  | some target =>
    let (result, target) := copyTo hash (faults move.bucket) target triples
    (result, cluster.setEndpoint move.target target)

/-- The second half: purge the bucket from the old owner. -/
def purgeStage (faults : Faults) (cluster : ShardCluster) (move : Move) :
    Except IoError Unit × ShardCluster :=
  match cluster.endpoint move.source with
  | none => (.ok (), cluster)
  | some source =>
    let (result, source) := source.purgeShard hash (faults move.bucket .purge)
      (UInt32.ofNat move.bucket) (UInt32.ofNat cluster.config.numShards)
    (result.map fun _ => (), cluster.setEndpoint move.source source)

/-- Copy a bucket to its new owner, then purge it from the old one. A missing
endpoint is skipped. -/
def migrateShard (faults : Faults) (cluster : ShardCluster) (move : Move) :
    Except IoError Unit × ShardCluster :=
  if move.source = move.target then
    (.ok (), cluster)
  else
    match cluster.endpoint move.source with
    | none => (.ok (), cluster)
    | some source =>
      match source.scanShard hash (faults move.bucket .scan) (UInt32.ofNat move.bucket)
        (UInt32.ofNat cluster.config.numShards) with
      | .error error => (.error error, cluster)
      | .ok triples =>
        match cluster.copyStage hash faults move triples with
        | (.error error, cluster) => (.error error, cluster)
        | (.ok (), cluster) => cluster.purgeStage hash faults move

/-- The migrations of one membership change, in bucket order; the first error ends
it. -/
def migrateAll (faults : Faults) :
    ShardCluster → List Move → Except IoError Unit × ShardCluster
  | cluster, [] => (.ok (), cluster)
  | cluster, move :: rest =>
    match cluster.migrateShard hash faults move with
    | (.error error, cluster) => (.error error, cluster)
    | (.ok (), cluster) => migrateAll faults cluster rest

/-- The buckets that `rebalance` migrates: those whose owner changed. -/
def rebalanceMoves (old new : ClusterConfig) : List Move :=
  (List.range new.numShards).filterMap fun bucket =>
    match new.owner bucket, old.owner bucket with
    | some target, some source => if source ≠ target then some ⟨bucket, source, target⟩ else none
    | _, _ => none

/-- The buckets that `remove_node` migrates: those the leaving node owned. -/
def leaveMoves (old new : ClusterConfig) (id : NodeId) : List Move :=
  (List.range new.numShards).filterMap fun bucket =>
    if old.owner bucket = some id then
      (new.owner bucket).map fun target => ⟨bucket, id, target⟩
    else
      none

def addNode (faults : Faults) (cluster : ShardCluster) (id : NodeId) (addr : SocketAddr)
    (endpoint : Shard) : Except IoError Unit × ShardCluster :=
  let old := cluster.config
  let cluster := cluster.setEndpoint id endpoint
  match cluster.config.addNode weight id addr with
  | (_, false) => (.ok (), cluster)
  | (config, true) =>
    migrateAll hash faults { cluster with config } (rebalanceMoves old config)

def removeNode (faults : Faults) (cluster : ShardCluster) (id : NodeId) :
    Except IoError Unit × ShardCluster :=
  let old := cluster.config
  match cluster.config.removeNode weight id with
  | (_, false) => (.ok (), cluster)
  | (config, true) =>
    match migrateAll hash faults { cluster with config } (leaveMoves old config id) with
    | (.error error, cluster) => (.error error, cluster)
    | (.ok (), cluster) =>
      (.ok (), { cluster with
        endpoints := cluster.endpoints.filter fun entry => decide (entry.1 ≠ id) })

/-- Route a triple to its bucket's owner. -/
def insert (delivery : Delivery) (cluster : ShardCluster) (triple : IdTriple) :
    Except IoError Bool × ShardCluster :=
  match cluster.config.ownerOfSubject hash triple.sub with
  | none => (.error (.notFound "cluster has no members to route to"), cluster)
  | some owner =>
    match cluster.endpoint owner with
    | none => (.error (.notFound "routed owner has no registered endpoint"), cluster)
    | some shard =>
      let (answer, shard) := shard.insert hash delivery triple
      (answer, cluster.setEndpoint owner shard)

/-- `impl TripleSource for ShardCluster`. -/
def source (network : Network) (cluster : ShardCluster) : TripleSource :=
  gather (cluster.endpoints.map fun entry => entry.2.reads hash network)

end Calls

end ShardCluster

end GStore.Cluster
