import GStore.Cluster.Raft

/-! # A group of Raft nodes over an unreliable network

The group keeps every request and reply that was ever sent. Delivering one
leaves it there, so a message can be delivered never, once, many times, late
and in any order. -/

namespace GStore.Cluster

/-- One input to the state machine of a node. -/
inductive Input where
  | tick
  | propose (op : LogOp)
  | replicateNow
  | drainApply
  | compact (upToIndex : Nat) (triples : List IdTriple)
  | noteRevived
  | request (source : NodeId) (msg : RaftMsg)
  | reply (source : NodeId) (reply : RaftReply)

def Input.isCompact : Input → Bool
  | .compact _ _ => true
  | _ => false

/-- What handling one input does: the new state, the requests to send, the reply
to the sender, and the mutations handed out for application. -/
structure Effect where
  state : RaftState
  requests : List Outgoing
  reply : Option (NodeId × RaftReply)
  emitted : List (Nat × LogOp)

namespace RaftState

def step (state : RaftState) : Input → Effect
  | .tick =>
    let (state, requests) := state.tick
    { state, requests, reply := none, emitted := [] }
  | .propose op =>
    { state := (state.propose op).1, requests := [], reply := none, emitted := [] }
  | .replicateNow =>
    let (state, requests) := state.replicateNow
    { state, requests, reply := none, emitted := [] }
  | .drainApply =>
    { state := state.drainApply.1, requests := [], reply := none, emitted := state.unapplied }
  | .compact upToIndex triples =>
    { state := state.compact upToIndex triples, requests := [], reply := none, emitted := [] }
  | .noteRevived =>
    { state := state.noteRevived, requests := [], reply := none, emitted := [] }
  | .request source msg =>
    let (state, reply) := state.handle msg
    { state, requests := [], reply := some (source, reply), emitted := [] }
  | .reply source reply =>
    let (state, requests) := state.handleReply source reply
    { state, requests, reply := none, emitted := [] }

end RaftState

structure Group where
  nodes : NodeId → RaftState
  /-- Every request sent so far, with its sender. -/
  requests : Set (NodeId × Outgoing)
  /-- Every reply sent so far: its sender, its receiver, its content. -/
  replies : Set (NodeId × NodeId × RaftReply)
  /-- Every mutation a node has handed out, with its log index. -/
  emitted : Set (NodeId × Nat × LogOp)

/-- Fixed, mutually consistent peer lists. -/
structure Membership where
  members : Finset NodeId
  peers : NodeId → List NodeId
  cfg : NodeId → RaftConfig
  peers_nodup : ∀ id ∈ members, (peers id).Nodup
  mem_peers : ∀ id ∈ members, ∀ peer, peer ∈ peers id ↔ peer ∈ members ∧ peer ≠ id

namespace Group

def init (membership : Membership) : Group where
  nodes id := RaftState.new id (membership.peers id) (membership.cfg id)
  requests := ∅
  replies := ∅
  emitted := ∅

/-- The group after `id` has handled `input`. -/
def act (group : Group) (id : NodeId) (input : Input) : Group :=
  let effect := (group.nodes id).step input
  { nodes := Function.update group.nodes id effect.state
    requests := group.requests ∪ { sent | sent.1 = id ∧ sent.2 ∈ effect.requests }
    replies := group.replies ∪ { sent | sent.1 = id ∧ effect.reply = some sent.2 }
    emitted := group.emitted ∪ { sent | sent.1 = id ∧ sent.2 ∈ effect.emitted } }

/-- A message can only be delivered to the node it was sent to. -/
def Enabled (group : Group) (id : NodeId) : Input → Prop
  | .request source msg => (source, { «to» := id, msg }) ∈ group.requests
  | .reply source reply => (source, id, reply) ∈ group.replies
  | _ => True

/-- One member handles one input of an allowed kind. -/
def Step (membership : Membership) (allowed : Input → Prop) (before after : Group) : Prop :=
  ∃ id input, id ∈ membership.members ∧ allowed input ∧ before.Enabled id input ∧
    after = before.act id input

/-- Any number of steps. -/
abbrev Run (membership : Membership) (allowed : Input → Prop) : Group → Group → Prop :=
  Relation.ReflTransGen (Step membership allowed)

def Reachable (membership : Membership) (allowed : Input → Prop) (group : Group) : Prop :=
  Run membership allowed (init membership) group

@[simp] theorem act_nodes_self (group : Group) (id : NodeId) (input : Input) :
    (group.act id input).nodes id = ((group.nodes id).step input).state := by
  simp [act]

theorem act_nodes_other (group : Group) {id other : NodeId} (input : Input)
    (different : other ≠ id) : (group.act id input).nodes other = group.nodes other := by
  simp [act, different]

end Group

end GStore.Cluster
