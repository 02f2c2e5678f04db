import GStore.Cluster.Elastic

/-! # Membership changes that fail

The configuration is switched before the first bucket moves, and the same call made
again finds nothing to do. So a change that failed can be completed by a second
call only if the first one had already moved every triple. -/

namespace GStore.Cluster.ShardCluster

open Store

/-! ## A change and its second call -/

inductive Change where
  | join (id : NodeId) (addr : SocketAddr) (endpoint : Shard)
  | leave (id : NodeId)

namespace Change

section Definitions

variable (hash : UInt32 → UInt64) (weight : Nat → NodeId → UInt64)

def run (faults : Faults) (cluster : ShardCluster) : Change → Except IoError Unit × ShardCluster
  | .join id addr endpoint => cluster.addNode hash weight faults id addr endpoint
  | .leave id => cluster.removeNode hash weight faults id

/-- The cluster when the first bucket is about to move. -/
def switched (cluster : ShardCluster) : Change → ShardCluster
  | .join id addr endpoint =>
    { cluster.setEndpoint id endpoint with config := (cluster.config.addNode weight id addr).1 }
  | .leave id => { cluster with config := (cluster.config.removeNode weight id).1 }

/-- The buckets that the change migrates. -/
def moves (cluster : ShardCluster) : Change → List Move
  | .join id addr _ => rebalanceMoves cluster.config (cluster.config.addNode weight id addr).1
  | .leave id => leaveMoves cluster.config (cluster.config.removeNode weight id).1 id

/-- The same call again. A remote endpoint is still the same node; an in-process
store has been handed over, so the caller passes another empty one. -/
def again (after : ShardCluster) : Change → Change
  | .join id addr endpoint =>
    .join id addr (if endpoint.isRemote then (after.endpoint id).getD endpoint else endpoint)
  | .leave id => .leave id

/-- A joining endpoint is empty. -/
def InScope : Change → Prop
  | .join _ _ endpoint => Refines endpoint.store ∅
  | .leave _ => True

end Definitions

section Failed

variable {hash : UInt32 → UInt64} {weight : Nat → NodeId → UInt64} {faults : Faults}
  {cluster : ShardCluster} {triples : Finset IdTriple} {change : Change} {before rest : List Move}
  {failing : Move} {move : Move} {after : ShardCluster}

variable {inserted : List IdTriple}

end Failed

/-! ## The first scan is lost -/

end Change

end GStore.Cluster.ShardCluster
