import GStore.Cluster.Group
import GStore.Cluster.ReplicaGroup
import GStore.Cluster.ShardCluster

/-! # Cluster nodes

`cluster.rs`: a Raft state machine with a replicated store and a replicated
configuration, behind the request handler. Sending a message leaves it in flight:
the peer handles it, and this node the reply, in later steps. -/

namespace GStore.Cluster

open Store

def Role.asU8 : Role → Nat
  | .follower => 0
  | .candidate => 1
  | .leader => 2

def RaftMsg.toRequest : RaftMsg → Request
  | .requestVote term candidateId lastLogIndex lastLogTerm =>
    .requestVote term candidateId lastLogIndex lastLogTerm
  | .appendEntries term leaderId prevLogIndex prevLogTerm leaderCommit entries =>
    .appendEntries term leaderId prevLogIndex prevLogTerm leaderCommit entries
  | .installSnapshot term leaderId lastIncludedIndex lastIncludedTerm triples =>
    .installSnapshot term leaderId lastIncludedIndex lastIncludedTerm triples

def replyToResponse : RaftReply → Response
  | .vote term granted => .vote term granted
  | .append term success matchIndex => .appendAck term success matchIndex
  | .snapshot term => .snapshotAck term

/-- `hint.map(|l| l as i64).unwrap_or(-1)`. -/
def leaderHint (leader : Option NodeId) : Int :=
  (leader.map fun id => id.toInt64.toInt).getD (-1)

structure ClusterNode where
  id : NodeId
  state : RaftState
  store : TripleStore
  config : ClusterConfig

namespace ClusterNode

def defaultShards : Nat := 16

def bind (id : NodeId) (peers : List NodeId) (store : TripleStore) (cfg : RaftConfig) :
    ClusterNode where
  id
  state := RaftState.new id peers cfg
  store
  config := .new defaultShards

section Handlers

variable (hash : UInt32 → UInt64) (weight : Nat → NodeId → UInt64)

/-- One action of `apply_actions`. -/
def applyOne (node : ClusterNode) (action : StoreAction) : ClusterNode :=
  match action with
  | .apply (.insert triple) => { node with store := (node.store.insert triple).1 }
  | .apply (.delete triple) => { node with store := (node.store.remove triple).1 }
  | .apply .noop => node
  | .apply (.addNode id addr) =>
    { node with config := (node.config.apply weight (.addNode id addr)).1 }
  | .apply (.removeNode id) => { node with config := (node.config.apply weight (.removeNode id)).1 }
  | .reset triples => { node with store := TripleStore.new.bulkLoad triples }

/-- Drain the state machine and apply what it hands out, under the apply lock. -/
def applyActions (node : ClusterNode) : ClusterNode :=
  let (state, actions) := node.state.drainApply
  actions.foldl (applyOne weight) { node with state }

/-- Hand a Raft message to the state machine. -/
def handleRaft (node : ClusterNode) (msg : RaftMsg) : ClusterNode × RaftReply :=
  let (state, reply) := node.state.handle msg
  (applyActions weight { node with state }, reply)

/-- Submit a mutation: the assigned log index, or the redirect hint. -/
def propose (node : ClusterNode) (op : LogOp) :
    ClusterNode × List Outgoing × Except (Option NodeId) Nat :=
  match node.state.propose op with
  | (state, none) => ({ node with state }, [], .error state.leaderId)
  | (state, some index) =>
    let (state, outs) := state.replicateNow
    (applyActions weight { node with state }, outs, .ok index)

def clientWriteResponse (node : ClusterNode) (op : LogOp) :
    ClusterNode × List Outgoing × Response :=
  match node.propose weight op with
  | (node, outs, .ok index) => (node, outs, .writeAck true (leaderHint (some node.id)) index)
  | (node, outs, .error hint) => (node, outs, .writeAck false (leaderHint hint) 0)

def handleRequest (node : ClusterNode) : Request → ClusterNode × List Outgoing × Response
  | .requestVote term candidateId lastLogIndex lastLogTerm =>
    let (node, reply) := node.handleRaft weight
      (.requestVote term candidateId lastLogIndex lastLogTerm)
    (node, [], replyToResponse reply)
  | .appendEntries term leaderId prevLogIndex prevLogTerm leaderCommit entries =>
    let (node, reply) := node.handleRaft weight
      (.appendEntries term leaderId prevLogIndex prevLogTerm leaderCommit entries)
    (node, [], replyToResponse reply)
  | .installSnapshot term leaderId lastIncludedIndex lastIncludedTerm triples =>
    let (node, reply) := node.handleRaft weight
      (.installSnapshot term leaderId lastIncludedIndex lastIncludedTerm triples)
    (node, [], replyToResponse reply)
  | .clientWrite op => node.clientWriteResponse weight op
  | .insert sub pred obj => node.clientWriteResponse weight (.insert ⟨sub, pred, obj⟩)
  | .clusterStatus =>
    (node, [], .status node.state.currentTerm node.state.role.asU8
      (leaderHint node.state.leaderId) node.state.commitIndex node.state.lastLogIndex)
  | .getConfig =>
    (node, [], .config node.config.epoch (UInt32.ofNat node.config.numShards)
      node.config.members.toList node.config.assignment)
  -- Every other request goes to the shard node's dispatcher.
  | other =>
    let (response, store) := dispatch hash node.store other
    ({ node with store }, [], response)

/-- One round of the driver, up to the sending of the messages. -/
def tick (node : ClusterNode) : ClusterNode × List Outgoing :=
  let (state, outs) := node.state.tick
  (applyActions weight { node with state }, outs)

/-- A reply comes back to `dispatch_outgoing`. -/
def handleReply (node : ClusterNode) («from» : NodeId) (reply : RaftReply) :
    ClusterNode × List Outgoing :=
  let (state, outs) := node.state.handleReply «from» reply
  (applyActions weight { node with state }, outs)

def revive (node : ClusterNode) : ClusterNode := { node with state := node.state.noteRevived }

end Handlers

end ClusterNode

/-! ## A group of cluster nodes -/

/-- What a node does next. -/
inductive NodeEvent where
  | tick
  | revive
  /-- A request that a peer sent. -/
  | deliver (source : NodeId) (msg : RaftMsg)
  /-- Any request over a client's connection. -/
  | serve (request : Request)
  | reply (source : NodeId) (reply : RaftReply)

structure NodeGroup where
  nodes : NodeId → ClusterNode
  /-- Every Raft request that a node has sent, with its sender. -/
  requests : Set (NodeId × Outgoing)
  /-- Every reply to one: its sender, its receiver, its content. -/
  replies : Set (NodeId × NodeId × RaftReply)

namespace NodeGroup

def init (membership : Membership) (store : TripleStore) : NodeGroup where
  nodes id := .bind id (membership.peers id) store (membership.cfg id)
  requests := ∅
  replies := ∅

section Act

variable (hash : UInt32 → UInt64) (weight : Nat → NodeId → UInt64)

/-- What an event does at a node: the node, its messages, and its reply to a peer. -/
def effect (node : ClusterNode) :
    NodeEvent → ClusterNode × List Outgoing × Option (NodeId × RaftReply)
  | .tick =>
    let (node, outs) := node.tick weight
    (node, outs, none)
  | .revive => (node.revive, [], none)
  | .deliver source msg =>
    let (node, reply) := node.handleRaft weight msg
    (node, [], some (source, reply))
  | .serve request =>
    let (node, outs, _) := node.handleRequest hash weight request
    (node, outs, none)
  | .reply source reply =>
    let (node, outs) := node.handleReply weight source reply
    (node, outs, none)

def act (group : NodeGroup) (id : NodeId) (event : NodeEvent) : NodeGroup :=
  let (node, outs, reply) := effect hash weight (group.nodes id) event
  { nodes := Function.update group.nodes id node
    requests := group.requests ∪ { sent | sent.1 = id ∧ sent.2 ∈ outs }
    replies := group.replies ∪ { sent | sent.1 = id ∧ reply = some sent.2 } }

end Act

/-- A message is delivered only to the node it was sent to. -/
def Enabled (group : NodeGroup) (id : NodeId) : NodeEvent → Prop
  | .deliver source msg => (source, { «to» := id, msg }) ∈ group.requests
  | .reply source reply => (source, id, reply) ∈ group.replies
  | _ => True

/-- One member handles one event that the guard allows. -/
def Step (hash : UInt32 → UInt64) (weight : Nat → NodeId → UInt64) (membership : Membership)
    (guard : NodeGroup → NodeId → NodeEvent → Prop) (before after : NodeGroup) : Prop :=
  ∃ id event, id ∈ membership.members ∧ before.Enabled id event ∧ guard before id event ∧
    after = before.act hash weight id event

/-- The groups that any number of steps reach, every node started from `store`. -/
def Reachable (hash : UInt32 → UInt64) (weight : Nat → NodeId → UInt64)
    (membership : Membership) (guard : NodeGroup → NodeId → NodeEvent → Prop)
    (store : TripleStore) (group : NodeGroup) : Prop :=
  Relation.ReflTransGen (Step hash weight membership guard) (init membership store) group

end NodeGroup

end GStore.Cluster
