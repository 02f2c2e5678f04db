import GStore.Cluster.Applied
import GStore.Cluster.ClusterNode

/-! # The stores of cluster nodes

A cluster node's store and configuration follow the log of its state machine, as
long as no request reaches the one mutating call of the shard node's dispatcher. -/

namespace GStore.Cluster

open Store RaftState Ballots

variable {hash : UInt32 → UInt64} {weight : Nat → NodeId → UInt64}

/-! ## Applying operations -/

/-- A store after some operations. -/
def storeAfter (start : TripleStore) (ops : List LogOp) : TripleStore := ops.foldl applyOp start

/-- A configuration after some operations. -/
def configAfter (weight : Nat → NodeId → UInt64) (start : ClusterConfig) (ops : List LogOp) :
    ClusterConfig :=
  ops.foldl (fun config op => (config.apply weight op).1) start

theorem foldl_applyOne (ops : List LogOp) :
    ∀ node : ClusterNode, (ops.map StoreAction.apply).foldl (ClusterNode.applyOne weight) node =
      { node with
        store := storeAfter node.store ops
        config := configAfter weight node.config ops } := by
  induction ops with
  | nil => intro node; rfl
  | cons op rest induction =>
    intro node
    rw [List.map_cons, List.foldl_cons, induction]
    cases op <;> rfl

/-- A node without a pending reset applies the operations that its state machine
hands out. -/
theorem applyActions_eq {node : ClusterNode} (settled : node.state.pendingReset = none) :
    node.applyActions weight =
      { node with
        state := node.state.drainApply.1
        store := storeAfter node.store (node.state.unapplied.map Prod.snd)
        config := configAfter weight node.config (node.state.unapplied.map Prod.snd) } := by
  have actions : node.state.drainApply.2 =
      (node.state.unapplied.map Prod.snd).map StoreAction.apply := by
    simp [drainApply, settled]
  change List.foldl (ClusterNode.applyOne weight) { node with state := node.state.drainApply.1 }
    node.state.drainApply.2 = _
  rw [actions, foldl_applyOne]

/-! ## The state machines behind the nodes -/

namespace NodeGroup

/-- The Raft group that a group of nodes runs. -/
structure Tracks (group : NodeGroup) (raft : Group) : Prop where
  nodes : ∀ id, raft.nodes id = (group.nodes id).state
  requests : raft.requests = group.requests
  replies : raft.replies = group.replies

/-- A node holds the starting store and configuration with the applied part of its
log. -/
structure Follows (weight : Nat → NodeId → UInt64) (start : TripleStore) (node : ClusterNode) :
    Prop where
  settled : node.state.pendingReset = none
  store_eq : node.store = storeAfter start
    ((node.state.log.take node.state.lastApplied).map LogEntry.op)
  config_eq : node.config = configAfter weight (.new ClusterNode.defaultShards)
    ((node.state.log.take node.state.lastApplied).map LogEntry.op)

/-- A node's state machine takes one input. -/
def advance (group : NodeGroup) (id : NodeId) (input : Input) : NodeGroup :=
  let effect := (group.nodes id).state.step input
  { nodes := Function.update group.nodes id { group.nodes id with state := effect.state }
    requests := group.requests ∪ { sent | sent.1 = id ∧ sent.2 ∈ effect.requests }
    replies := group.replies ∪ { sent | sent.1 = id ∧ effect.reply = some sent.2 } }

/-- A node applies what its state machine has committed. -/
def drain (weight : Nat → NodeId → UInt64) (group : NodeGroup) (id : NodeId) : NodeGroup :=
  { group with nodes := Function.update group.nodes id ((group.nodes id).applyActions weight) }

/-- The invariant of a run. -/
def Replicated (weight : Nat → NodeId → UInt64) (membership : Membership) (start : TripleStore)
    (group : NodeGroup) : Prop :=
  ∃ raft history, group.Tracks raft ∧ SafetyInv membership raft history ∧
    ∀ id ∈ membership.members, Follows weight start (group.nodes id)

section Steps

variable {membership : Membership} {start : TripleStore} {group : NodeGroup} {id : NodeId}

theorem replicated_init (weight : Nat → NodeId → UInt64) (membership : Membership)
    (start : TripleStore) : Replicated weight membership start (init membership start) :=
  ⟨Group.init membership, Ballots.empty, ⟨fun _ => rfl, rfl, rfl⟩, SafetyInv.init membership,
    fun _ _ => ⟨rfl, rfl, rfl⟩⟩

theorem Tracks.advance {raft : Group} (tracks : group.Tracks raft) (input : Input) :
    (group.advance id input).Tracks (raft.act id input) where
  nodes other := by
    rw [NodeGroup.advance, Group.act, tracks.nodes]
    by_cases same : other = id
    · subst same
      simp
    · simp [same, tracks.nodes]
  requests := by rw [NodeGroup.advance, Group.act, tracks.nodes, tracks.requests]
  replies := by rw [NodeGroup.advance, Group.act, tracks.nodes, tracks.replies]

theorem Replicated.advance (inv : Replicated weight membership start group) {input : Input}
    (member : id ∈ membership.members) (keeps : input.keepsBase = true)
    (enabled : ∀ raft, group.Tracks raft → raft.Enabled id input) :
    Replicated weight membership start (group.advance id input) := by
  rcases inv with ⟨raft, history, tracks, safety, follows⟩
  have notCompact : input.isCompact = false := by
    cases input <;> first | rfl | cases keeps
  rcases safety.act member notCompact (enabled raft tracks) with
    ⟨later, grows, after, commit_le, _⟩
  refine ⟨_, later, tracks.advance input, after, ?_⟩
  intro other otherMember
  by_cases same : other = id
  · subst same
    have old := follows other otherMember
    have stable := safety.take_commitIndex grows after otherMember commit_le
    rw [Group.act_nodes_self, tracks.nodes] at stable
    have base := step_base (group.nodes other).state keeps
    have applied : (((group.nodes other).state.step input).state).lastApplied =
        (group.nodes other).state.lastApplied := congrArg Base.lastApplied base
    have le_commit : (group.nodes other).state.lastApplied ≤
        (group.nodes other).state.commitIndex := by
      have bound := (safety.nodes other otherMember).applied_le
      rwa [tracks.nodes] at bound
    have prefixed : (((group.nodes other).state.step input).state).log.take
        (group.nodes other).state.lastApplied =
        (group.nodes other).state.log.take (group.nodes other).state.lastApplied := by
      have taken := congrArg (List.take (group.nodes other).state.lastApplied) stable
      rwa [List.take_take, List.take_take, min_eq_left le_commit] at taken
    have node : (group.advance other input).nodes other =
        { group.nodes other with state := ((group.nodes other).state.step input).state } := by
      simp [NodeGroup.advance]
    rw [node]
    constructor
    · exact (congrArg Base.pendingReset base).trans old.settled
    · change _ = storeAfter start
        ((((group.nodes other).state.step input).state.log.take _).map LogEntry.op)
      rw [applied, prefixed]
      exact old.store_eq
    · change _ = configAfter weight _
        ((((group.nodes other).state.step input).state.log.take _).map LogEntry.op)
      rw [applied, prefixed]
      exact old.config_eq
  · have node : (group.advance id input).nodes other = group.nodes other := by
      simp [NodeGroup.advance, same]
    rw [node]
    exact follows other otherMember

theorem Tracks.drain {raft : Group} (tracks : group.Tracks raft)
    (settled : (group.nodes id).state.pendingReset = none) :
    (group.drain weight id).Tracks (raft.act id .drainApply) where
  nodes other := by
    rw [NodeGroup.drain, Group.act, tracks.nodes, applyActions_eq settled]
    by_cases same : other = id
    · subst same
      simp [RaftState.step]
    · simp [same, tracks.nodes]
  requests := by
    rw [NodeGroup.drain, Group.act, tracks.requests]
    simp [RaftState.step]
  replies := by
    rw [NodeGroup.drain, Group.act, tracks.replies]
    simp [RaftState.step]

/-- Draining applies the log up to the commit index. -/
theorem Follows.applyActions {node : ClusterNode} (follows : Follows weight start node)
    (base : node.state.baseIndex = 0)
    (applied_le : node.state.lastApplied ≤ node.state.commitIndex)
    (commit_le : node.state.commitIndex ≤ node.state.log.length) :
    Follows weight start (node.applyActions weight) := by
  have above : node.state.baseIndex ≤ node.state.lastApplied := by omega
  have ops := map_op_unapplied above applied_le (by rw [lastLogIndex]; omega)
  rw [base, Nat.sub_zero, Nat.sub_zero] at ops
  have applied : node.state.drainApply.1.lastApplied = node.state.commitIndex :=
    max_eq_right applied_le
  have split : (node.state.log.take node.state.lastApplied).map LogEntry.op ++
      node.state.unapplied.map Prod.snd =
      (node.state.log.take node.state.commitIndex).map LogEntry.op := by
    rw [ops, ← List.map_append]
    have front : node.state.log.take node.state.lastApplied =
        (node.state.log.take node.state.commitIndex).take node.state.lastApplied := by
      rw [List.take_take, min_eq_left applied_le]
    rw [front, List.take_append_drop]
  rw [applyActions_eq follows.settled]
  constructor
  · rfl
  · change storeAfter node.store _ = storeAfter start
      ((node.state.log.take node.state.drainApply.1.lastApplied).map LogEntry.op)
    rw [applied, ← split, follows.store_eq, storeAfter, storeAfter, storeAfter, List.foldl_append]
  · change configAfter weight node.config _ = configAfter weight _
      ((node.state.log.take node.state.drainApply.1.lastApplied).map LogEntry.op)
    rw [applied, ← split, follows.config_eq, configAfter, configAfter, configAfter,
      List.foldl_append]

theorem Replicated.drain (inv : Replicated weight membership start group)
    (member : id ∈ membership.members) :
    Replicated weight membership start (group.drain weight id) := by
  rcases inv with ⟨raft, history, tracks, safety, follows⟩
  have enabled : raft.Enabled id .drainApply := trivial
  rcases safety.act member rfl enabled with ⟨later, _, after, _, _⟩
  refine ⟨_, later, tracks.drain (follows id member).settled, after, ?_⟩
  intro other otherMember
  by_cases same : other = id
  · subst same
    have node := safety.nodes other otherMember
    rw [tracks.nodes] at node
    have drained : (group.drain weight other).nodes other =
        (group.nodes other).applyActions weight := by
      simp [NodeGroup.drain]
    rw [drained]
    exact (follows other otherMember).applyActions node.baseIndex_eq node.applied_le
      node.commit_le
  · have kept : (group.drain weight id).nodes other = group.nodes other := by
      simp [NodeGroup.drain, same]
    rw [kept]
    exact follows other otherMember

/-! ## Every event -/

/-- Events that go through the log: no forged Raft request, and no purge of a bucket
that the node holds triples of. -/
def Harmless (hash : UInt32 → UInt64) (group : NodeGroup) (id : NodeId) : NodeEvent → Prop
  | .serve (.requestVote ..) | .serve (.appendEntries ..) | .serve (.installSnapshot ..) => False
  | .serve (.purgeShard shard numShards) =>
    scanBucket hash (group.nodes id).store shard numShards = []
  | _ => True

theorem act_tick (group : NodeGroup) (id : NodeId) :
    group.act hash weight id .tick = (group.advance id .tick).drain weight id := by
  simp [act, effect, ClusterNode.tick, NodeGroup.drain, NodeGroup.advance, RaftState.step]

theorem act_revive (group : NodeGroup) (id : NodeId) :
    group.act hash weight id .revive = group.advance id .noteRevived := by
  simp [act, effect, ClusterNode.revive, NodeGroup.advance, RaftState.step]

theorem act_deliver (group : NodeGroup) (id source : NodeId) (msg : RaftMsg) :
    group.act hash weight id (.deliver source msg) =
      (group.advance id (.request source msg)).drain weight id := by
  simp [act, effect, ClusterNode.handleRaft, NodeGroup.drain, NodeGroup.advance, RaftState.step]

theorem act_reply (group : NodeGroup) (id source : NodeId) (reply : RaftReply) :
    group.act hash weight id (.reply source reply) =
      (group.advance id (.reply source reply)).drain weight id := by
  simp [act, effect, ClusterNode.handleReply, NodeGroup.drain, NodeGroup.advance, RaftState.step]

/-- A request that changes neither the node nor the network. -/
theorem act_serve_of_unchanged {group : NodeGroup} {id : NodeId} {request : Request}
    (unchanged : ((group.nodes id).handleRequest hash weight request).1 = group.nodes id)
    (silent : ((group.nodes id).handleRequest hash weight request).2.1 = []) :
    group.act hash weight id (.serve request) = group := by
  simp [act, effect, unchanged, silent]

/-- A client's mutation goes into the log, or nowhere. -/
theorem act_serve_write {group : NodeGroup} {id : NodeId} {request : Request} {op : LogOp}
    (write : (group.nodes id).handleRequest hash weight request =
      (group.nodes id).clientWriteResponse weight op) :
    group.act hash weight id (.serve request) = group ∨
      group.act hash weight id (.serve request) =
        ((group.advance id (.propose op)).advance id .replicateNow).drain weight id := by
  cases proposed : (group.nodes id).state.propose op with
  | mk state result =>
    cases result with
    | none =>
      have same : state = (group.nodes id).state := by
        rw [RaftState.propose] at proposed
        split at proposed
        · cases proposed
          rfl
        · cases proposed
      left
      apply act_serve_of_unchanged
      · simp [write, ClusterNode.clientWriteResponse, ClusterNode.propose, proposed, same]
      · simp [write, ClusterNode.clientWriteResponse, ClusterNode.propose, proposed]
    | some index =>
      right
      simp [act, effect, write, ClusterNode.clientWriteResponse, ClusterNode.propose, proposed,
        NodeGroup.drain, NodeGroup.advance, RaftState.step]

theorem purgeBucket_of_empty {store : TripleStore} {shard numShards : UInt32}
    (empty : scanBucket hash store shard numShards = []) :
    (purgeBucket hash store shard numShards).1 = store := by
  rw [purgeBucket, empty]
  rfl

theorem Replicated.serve (inv : Replicated weight membership start group)
    (member : id ∈ membership.members) {request : Request}
    (harmless : Harmless hash group id (.serve request)) :
    Replicated weight membership start (group.act hash weight id (.serve request)) := by
  have write : ∀ op, (group.nodes id).handleRequest hash weight request =
      (group.nodes id).clientWriteResponse weight op →
      Replicated weight membership start (group.act hash weight id (.serve request)) := by
    intro op isWrite
    rcases act_serve_write isWrite with refused | accepted
    · rw [refused]
      exact inv
    · have appended : Replicated weight membership start (group.advance id (.propose op)) :=
        inv.advance member rfl fun _ _ => trivial
      have sent : Replicated weight membership start
          ((group.advance id (.propose op)).advance id .replicateNow) :=
        appended.advance member rfl fun _ _ => trivial
      rw [accepted]
      exact sent.drain member
  cases request with
  | requestVote term candidateId lastLogIndex lastLogTerm => exact harmless.elim
  | appendEntries term leaderId prevLogIndex prevLogTerm leaderCommit entries =>
    exact harmless.elim
  | installSnapshot term leaderId lastIncludedIndex lastIncludedTerm triples =>
    exact harmless.elim
  | clientWrite op => exact write op rfl
  | insert sub pred obj => exact write (.insert ⟨sub, pred, obj⟩) rfl
  | purgeShard shard numShards =>
    rw [act_serve_of_unchanged _ rfl]
    · exact inv
    · change { group.nodes id with
        store := (purgeBucket hash (group.nodes id).store shard numShards).1 } = group.nodes id
      rw [purgeBucket_of_empty harmless]
  | _ =>
    rw [act_serve_of_unchanged rfl rfl]
    exact inv

theorem Replicated.act (inv : Replicated weight membership start group)
    (member : id ∈ membership.members) {event : NodeEvent} (enabled : group.Enabled id event)
    (harmless : Harmless hash group id event) :
    Replicated weight membership start (group.act hash weight id event) := by
  cases event with
  | tick =>
    have ticked : Replicated weight membership start (group.advance id .tick) :=
      inv.advance member rfl fun _ _ => trivial
    rw [act_tick]
    exact ticked.drain member
  | revive =>
    rw [act_revive]
    exact inv.advance member rfl fun _ _ => trivial
  | deliver source msg =>
    have sent : ∀ raft, group.Tracks raft → raft.Enabled id (.request source msg) := by
      intro raft tracks
      change _ ∈ raft.requests
      rw [tracks.requests]
      exact enabled
    have keeps : (Input.request source msg).keepsBase = true := by
      rcases inv with ⟨raft, history, tracks, safety, _⟩
      have ok := safety.requests source _ (sent raft tracks)
      cases msg with
      | requestVote term candidateId lastLogIndex lastLogTerm => rfl
      | appendEntries term leaderId prevLogIndex prevLogTerm leaderCommit entries => rfl
      | installSnapshot term leaderId lastIncludedIndex lastIncludedTerm triples =>
        exact ok.elim
    rw [act_deliver]
    exact (inv.advance member keeps sent).drain member
  | serve request => exact inv.serve member harmless
  | reply source reply =>
    have sent : ∀ raft, group.Tracks raft → raft.Enabled id (.reply source reply) := by
      intro raft tracks
      change _ ∈ raft.replies
      rw [tracks.replies]
      exact enabled
    rw [act_reply]
    exact (inv.advance member rfl sent).drain member

theorem Replicated.of_reachable
    (reachable : Reachable hash weight membership (Harmless hash) start group) :
    Replicated weight membership start group := by
  induction reachable with
  | refl => exact replicated_init weight membership start
  | tail _ step induction =>
    rcases step with ⟨id, event, member, enabled, harmless, rfl⟩
    exact induction.act member enabled harmless

/-! ## One log for all nodes -/

/-- The operations that a node knows to be committed. -/
def committedOps (node : ClusterNode) : List LogOp :=
  (node.state.log.take node.state.commitIndex).map LogEntry.op

/-- There is one sequence of committed operations, and every node's store and
configuration are the starting ones with the first `lastApplied` of them. So nodes
that have applied equally far hold the same. -/
def FollowLog (weight : Nat → NodeId → UInt64) (membership : Membership) (start : TripleStore)
    (group : NodeGroup) : Prop :=
  (∃ ops : List LogOp, ∀ id ∈ membership.members,
    committedOps (group.nodes id) <+: ops ∧
    (group.nodes id).state.lastApplied ≤ (committedOps (group.nodes id)).length ∧
    (group.nodes id).store =
      storeAfter start (ops.take (group.nodes id).state.lastApplied) ∧
    (group.nodes id).config = configAfter weight (.new ClusterNode.defaultShards)
      (ops.take (group.nodes id).state.lastApplied)) ∧
  ∀ left ∈ membership.members, ∀ right ∈ membership.members,
    (group.nodes left).state.lastApplied = (group.nodes right).state.lastApplied →
    (group.nodes left).store = (group.nodes right).store ∧
      (group.nodes left).config = (group.nodes right).config

/-- The committed operations of any two nodes agree. -/
theorem committedOps_comparable {raft : Group} {history : History} (tracks : group.Tracks raft)
    (safety : SafetyInv membership raft history) {left right : NodeId}
    (leftMember : left ∈ membership.members) (rightMember : right ∈ membership.members) :
    committedOps (group.nodes left) <+: committedOps (group.nodes right) ∨
      committedOps (group.nodes right) <+: committedOps (group.nodes left) := by
  have leftCommitted := (safety.nodes left leftMember).committed
  have rightCommitted := (safety.nodes right rightMember).committed
  rw [tracks.nodes] at leftCommitted rightCommitted
  rcases leftCommitted.comparable safety.consistent rightCommitted with inside | inside
  · exact .inl (inside.map LogEntry.op)
  · exact .inr (inside.map LogEntry.op)

theorem exists_committed_ops {raft : Group} {history : History} (tracks : group.Tracks raft)
    (safety : SafetyInv membership raft history) :
    ∃ ops, ∀ id ∈ membership.members, committedOps (group.nodes id) <+: ops := by
  rcases membership.members.eq_empty_or_nonempty with empty | nonempty
  · exact ⟨[], fun id member => absurd (empty ▸ member) (Finset.notMem_empty id)⟩
  · rcases Finset.exists_max_image membership.members
      (fun id => (committedOps (group.nodes id)).length) nonempty with ⟨longest, member, most⟩
    refine ⟨committedOps (group.nodes longest), ?_⟩
    intro id idMember
    rcases committedOps_comparable tracks safety idMember member with inside | inside
    · exact inside
    · rw [inside.eq_of_length_le (most id idMember)]

theorem Replicated.followLog (inv : Replicated weight membership start group) :
    FollowLog weight membership start group := by
  rcases inv with ⟨raft, history, tracks, safety, follows⟩
  rcases exists_committed_ops tracks safety with ⟨ops, within⟩
  have applied : ∀ id ∈ membership.members,
      (group.nodes id).state.lastApplied ≤ (committedOps (group.nodes id)).length ∧
      ((group.nodes id).state.log.take (group.nodes id).state.lastApplied).map LogEntry.op =
        ops.take (group.nodes id).state.lastApplied := by
    intro id member
    have node := safety.nodes id member
    rw [tracks.nodes] at node
    have applied_le : (group.nodes id).state.lastApplied ≤ (group.nodes id).state.commitIndex :=
      node.applied_le
    have commit_le : (group.nodes id).state.commitIndex ≤ (group.nodes id).state.log.length :=
      node.commit_le
    have bound : (group.nodes id).state.lastApplied ≤ (committedOps (group.nodes id)).length := by
      rw [committedOps, List.length_map, List.length_take_of_le commit_le]
      exact applied_le
    refine ⟨bound, ?_⟩
    rcases within id member with ⟨rest, whole⟩
    rw [← whole, List.take_append_of_le_length bound, committedOps, ← List.map_take,
      List.take_take, min_eq_left applied_le]
  have held : ∀ id ∈ membership.members,
      (group.nodes id).store =
        storeAfter start (ops.take (group.nodes id).state.lastApplied) ∧
      (group.nodes id).config = configAfter weight (.new ClusterNode.defaultShards)
        (ops.take (group.nodes id).state.lastApplied) := by
    intro id member
    rw [← (applied id member).2]
    exact ⟨(follows id member).store_eq, (follows id member).config_eq⟩
  constructor
  · exact ⟨ops, fun id member => ⟨within id member, (applied id member).1, held id member⟩⟩
  · intro left leftMember right rightMember same
    rw [(held left leftMember).1, (held left leftMember).2, (held right rightMember).1,
      (held right rightMember).2, same]
    exact ⟨rfl, rfl⟩

/-- In every run of cluster nodes started from one store, in which no client forges a
Raft request and no purge reaches a node with triples of its bucket, every node's
store and configuration follow one committed log. -/
theorem cluster_nodes_follow_log (hash : UInt32 → UInt64) (weight : Nat → NodeId → UInt64)
    (membership : Membership) (start : TripleStore)
    (reachable : Reachable hash weight membership (Harmless hash) start group) :
    FollowLog weight membership start group :=
  (Replicated.of_reachable reachable).followLog

/-- A node on its own. -/
def solo : Membership where
  members := {1}
  peers _ := []
  cfg _ := ⟨1, 1, 1⟩
  peers_nodup _ _ := List.nodup_nil
  mem_peers id member peer := by
    rw [Finset.mem_singleton] at member
    simp [member]

/-- It elects itself and takes an insert. -/
def soloInserted : NodeGroup :=
  ((init solo .new).act (fun _ => 0) (fun _ _ => 0) 1 .tick).act (fun _ => 0) (fun _ _ => 0) 1
    (.serve (.insert 1 2 3))

theorem cluster_nodes_follow_log_soloInserted :
    (soloInserted.nodes 1).store.tripleCount = 1 ∧
      FollowLog (fun _ _ => 0) solo .new soloInserted := by
  have reachable : Reachable (fun _ => 0) (fun _ _ => 0) solo (Harmless fun _ => 0) .new
      soloInserted :=
    (Relation.ReflTransGen.single ⟨1, .tick, by decide, trivial, trivial, rfl⟩).tail
      ⟨1, .serve (.insert 1 2 3), by decide, trivial, trivial, rfl⟩
  exact ⟨by decide,
    cluster_nodes_follow_log (fun _ => 0) (fun _ _ => 0) solo .new reachable⟩

/-- A client's purge request empties a node's store without any log entry. -/
theorem purge_bypasses_log :
    ¬ ∀ (hash : UInt32 → UInt64) (weight : Nat → NodeId → UInt64) (membership : Membership)
      (start : TripleStore) (group : NodeGroup),
      Reachable hash weight membership (fun _ _ _ => True) start group →
      FollowLog weight membership start group := by
  intro holds
  have purged : Reachable (fun _ => 0) (fun _ _ => 0) solo (fun _ _ _ => True)
      (TripleStore.new.insert ⟨1, 2, 3⟩).1
      ((init solo (TripleStore.new.insert ⟨1, 2, 3⟩).1).act (fun _ => 0) (fun _ _ => 0) 1
        (.serve (.purgeShard 0 1))) :=
    .single ⟨1, .serve (.purgeShard 0 1), by decide, trivial, trivial, rfl⟩
  rcases (holds _ _ _ _ _ purged).1 with ⟨ops, follows⟩
  have store := congrArg TripleStore.tripleCount (follows 1 (by decide)).2.2.1
  change _ = (storeAfter _ (ops.take 0)).tripleCount at store
  rw [List.take_zero] at store
  exact absurd store (by decide)

end Steps

end NodeGroup

end GStore.Cluster
