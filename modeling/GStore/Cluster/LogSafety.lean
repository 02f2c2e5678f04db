import GStore.Cluster.Outcome

/-! # State-machine safety -/

namespace GStore.Cluster

open RaftState Ballots

variable {history : History}

/-! ## The group -/

instance : Preorder History where
  le := Extends LogEntry.term
  le_refl := Extends.refl LogEntry.term
  le_trans _ _ _ left right := left.trans right

structure SafetyInv (membership : Membership) (group : Group) (history : History) : Prop where
  election : ElectionInv membership group ⟨history.votes⟩
  consistent : Consistent LogEntry.term membership.members history
  nodes : ∀ id ∈ membership.members,
    NodeInv membership.members history id (group.nodes id).view
  requests : ∀ source sent, (source, sent) ∈ group.requests →
    RequestOk membership.members history sent.msg
  replies : ∀ source target reply, (source, target, reply) ∈ group.replies →
    ReplyOk history source reply
  emitted : ∀ source index op, (source, index, op) ∈ group.emitted →
    EmittedOk membership.members history index op

namespace SafetyInv

variable {membership : Membership} {group after : Group}

theorem init (membership : Membership) :
    SafetyInv membership (Group.init membership) Ballots.empty where
  election := ElectionInv.init membership
  consistent := consistent_empty membership.members
  nodes id _ :=
    { baseIndex_eq := rfl
      baseTerm_eq := rfl
      unaccepted := fun _ _ => rfl
      backed := Backed.nil _
      ascends := List.Pairwise.nil
      bounded := fun _ member => by cases member
      candidate := fun isCandidate => by cases isCandidate
      leads := fun isLeader => by cases isLeader
      led := fun _ leads => by cases leads
      held := fun _ _ within _ => .inl within
      commit_le := le_refl _
      committed := .inl rfl
      applied_le := le_refl _ }
  requests _ _ sent := sent.elim
  replies _ _ _ sent := sent.elim
  emitted _ _ _ sent := sent.elim

theorem ready (inv : SafetyInv membership group history) {id : NodeId}
    (member : id ∈ membership.members) : Ready membership history (group.nodes id) := by
  have id_eq := inv.election.id_eq id member
  constructor
  · rw [id_eq]
    exact member
  · rw [id_eq]
    exact inv.election.peers_eq id member
  · exact inv.consistent
  · rw [id_eq]
    exact inv.nodes id member
  · rw [id_eq]
    exact fun t candidate cast => (inv.election.voted id member t candidate cast).1
  · rw [id_eq]
    exact inv.election.recorded id member
  · rw [id_eq]
    exact inv.election.own_vote id member

/-- One step of a member keeps the invariant over a longer history, and neither
its commit index nor what it has applied goes back. -/
theorem act (inv : SafetyInv membership group history) {id : NodeId} {input : Input}
    (member : id ∈ membership.members) (kept : input.isCompact = false)
    (enabled : group.Enabled id input) :
    ∃ later, Extends LogEntry.term history later ∧
      SafetyInv membership (group.act id input) later ∧
      (group.nodes id).commitIndex ≤ ((group.act id input).nodes id).commitIndex ∧
      (group.nodes id).lastApplied ≤ ((group.act id input).nodes id).lastApplied := by
  have id_eq := inv.election.id_eq id member
  have election := inv.election.act member enabled
  have elects : Elects membership.members history (group.nodes id)
      ((group.nodes id).step input).state := by
    constructor
    · have campaign := election.campaign id member
      rw [Group.act_nodes_self] at campaign
      rw [recordVote, id_eq]
      exact campaign
    · have elected := election.elected id member
      rw [Group.act_nodes_self] at elected
      exact elected
  have requestOk : ∀ source msg, input = .request source msg →
      RequestOk membership.members history msg := by
    rintro source msg rfl
    exact inv.requests source _ enabled
  have replyOk : ∀ source reply, input = .reply source reply →
      ReplyOk history source reply := by
    rintro source reply rfl
    exact inv.replies source id reply enabled
  rcases (inv.ready member).outcome input kept elects requestOk replyOk with ⟨later, outcome⟩
  refine ⟨later, outcome.grows.toExtends, ?_, ?_, ?_⟩
  · constructor
    · rw [outcome.votes_eq, recordVote, id_eq]
      exact election
    · exact outcome.consistent
    · intro other otherMember
      by_cases same : other = id
      · subst same
        have node := outcome.node
        rw [id_eq] at node
        rw [Group.act_nodes_self]
        exact node
      · rw [group.act_nodes_other input same]
        have grows := outcome.grows
        rw [id_eq] at grows
        exact (inv.nodes other otherMember).other inv.consistent grows same
    · intro source sent delivered
      rcases delivered with old | ⟨-, fresh⟩
      · exact (inv.requests source sent old).mono outcome.grows.toExtends
      · exact outcome.requests sent fresh
    · intro source target reply delivered
      rcases delivered with old | ⟨same, fresh⟩
      · exact (inv.replies source target reply old).mono outcome.grows.toExtends
      · change source = id at same
        have ok := outcome.reply target reply fresh
        rwa [id_eq, ← same] at ok
    · intro source index op handed
      rcases handed with old | ⟨-, fresh⟩
      · exact (inv.emitted source index op old).mono outcome.grows.toExtends
      · exact outcome.emitted index op fresh
  · rw [Group.act_nodes_self]
    exact outcome.commit_le
  · rw [Group.act_nodes_self]
    exact outcome.applied_le

/-- The invariant along a run, with what has happened since its start. -/
theorem run (inv : SafetyInv membership group history)
    (taken : Group.Run membership (fun input => input.isCompact = false) group after) :
    ∃ later, Extends LogEntry.term history later ∧ SafetyInv membership after later ∧
      ∀ id, (group.nodes id).commitIndex ≤ (after.nodes id).commitIndex ∧
        (group.nodes id).lastApplied ≤ (after.nodes id).lastApplied := by
  have since : ∀ before next history,
      Group.Step membership (fun input => input.isCompact = false) before next →
      (SafetyInv membership before history ∧ ∀ id,
        (group.nodes id).commitIndex ≤ (before.nodes id).commitIndex ∧
        (group.nodes id).lastApplied ≤ (before.nodes id).lastApplied) →
      ∃ later, history ≤ later ∧ SafetyInv membership next later ∧ ∀ id,
        (group.nodes id).commitIndex ≤ (next.nodes id).commitIndex ∧
        (group.nodes id).lastApplied ≤ (next.nodes id).lastApplied := by
    rintro before next history ⟨actor, input, member, kept, enabled, rfl⟩ ⟨inv, since⟩
    rcases inv.act member kept enabled with ⟨later, grows, invLater, commit_le, applied_le⟩
    refine ⟨later, grows, invLater, ?_⟩
    intro id
    by_cases same : id = actor
    · subst same
      exact ⟨(since id).1.trans commit_le, (since id).2.trans applied_le⟩
    · rw [before.act_nodes_other input same]
      exact since id
  exact exists_history_of_run
    (fun middle history => SafetyInv membership middle history ∧ ∀ id,
      (group.nodes id).commitIndex ≤ (middle.nodes id).commitIndex ∧
      (group.nodes id).lastApplied ≤ (middle.nodes id).lastApplied)
    since taken ⟨inv, fun id => ⟨le_refl _, le_refl _⟩⟩

theorem of_reachable
    (reachable : Group.Reachable membership (fun input => input.isCompact = false) group) :
    ∃ history, SafetyInv membership group history := by
  rcases (init membership).run reachable with ⟨history, -, inv, -⟩
  exact ⟨history, inv⟩

/-- What a node has committed it keeps. -/
theorem take_commitIndex {final : History} (before : SafetyInv membership group history)
    (grows : Extends LogEntry.term history final) (inv : SafetyInv membership after final)
    {id : NodeId} (member : id ∈ membership.members)
    (commit_le : (group.nodes id).commitIndex ≤ (after.nodes id).commitIndex) :
    (after.nodes id).log.take (group.nodes id).commitIndex =
      (group.nodes id).log.take (group.nodes id).commitIndex := by
  have old := (before.nodes id member).committed.mono grows (le_refl _)
  have new := (inv.nodes id member).committed
  have oldBound : (group.nodes id).commitIndex ≤ (group.nodes id).log.length :=
    (before.nodes id member).commit_le
  have newBound : (after.nodes id).commitIndex ≤ (after.nodes id).log.length :=
    (inv.nodes id member).commit_le
  change Committed _ _ _ _
    ((group.nodes id).log.take (group.nodes id).commitIndex) at old
  change Committed _ _ _ _ ((after.nodes id).log.take (after.nodes id).commitIndex) at new
  have shorter := List.take_prefix_take_left (l := (after.nodes id).log) commit_le
  rcases (new.ofPrefix shorter).comparable inv.consistent old with inside | inside
  · exact inside.eq_of_length (by
      rw [List.length_take_of_le oldBound, List.length_take_of_le (by omega)])
  · exact (inside.eq_of_length (by
      rw [List.length_take_of_le oldBound, List.length_take_of_le (by omega)])).symm

end SafetyInv

/-- State-machine safety. In every run of a group that never compacts, over a
network that may lose, duplicate, delay and reorder messages, for any two states
of the run, `earlier` and `later`:
two logs with an entry of one index and term agree up to it; what a node has
committed is in the log of every leader of a later term, whether it leads before or
after, and of the leader of the same term from then on; it is never removed or
overwritten at a node that has it committed; no two nodes hand out different
operations for one index; and neither `commitIndex` nor `lastApplied` decreases.
No log has a base, so the entry at position `k` of the list has index `k + 1`. -/
theorem raft_state_machine_safety (membership : Membership) (earlier later : Group)
    (reachable : Group.Reachable membership (fun input => input.isCompact = false) earlier)
    (run : Group.Run membership (fun input => input.isCompact = false) earlier later) :
    (∀ left ∈ membership.members, ∀ right ∈ membership.members,
      ∀ position leftEntry rightEntry,
      (earlier.nodes left).log[position]? = some leftEntry →
      (later.nodes right).log[position]? = some rightEntry →
      leftEntry.term = rightEntry.term →
      (earlier.nodes left).log.take (position + 1) =
        (later.nodes right).log.take (position + 1)) ∧
    (∀ id ∈ membership.members, ∀ leader ∈ membership.members,
      (later.nodes leader).role = .leader →
      (earlier.nodes id).currentTerm ≤ (later.nodes leader).currentTerm →
      (earlier.nodes id).log.take (earlier.nodes id).commitIndex <+:
        (later.nodes leader).log) ∧
    (∀ id ∈ membership.members, ∀ leader ∈ membership.members,
      (earlier.nodes leader).role = .leader →
      (later.nodes id).currentTerm < (earlier.nodes leader).currentTerm →
      (later.nodes id).log.take (later.nodes id).commitIndex <+:
        (earlier.nodes leader).log) ∧
    (∀ id ∈ membership.members,
      (later.nodes id).log.take (earlier.nodes id).commitIndex =
        (earlier.nodes id).log.take (earlier.nodes id).commitIndex) ∧
    (∀ id ∈ membership.members, (later.nodes id).baseIndex = 0 ∧
      (later.nodes id).commitIndex ≤ (later.nodes id).log.length) ∧
    (∀ left right index leftOp rightOp, (left, index, leftOp) ∈ later.emitted →
      (right, index, rightOp) ∈ later.emitted → leftOp = rightOp) ∧
    (∀ id, (earlier.nodes id).commitIndex ≤ (later.nodes id).commitIndex ∧
      (earlier.nodes id).lastApplied ≤ (later.nodes id).lastApplied) := by
  rcases SafetyInv.of_reachable reachable with ⟨history, before⟩
  rcases before.run run with ⟨final, grows, after, since⟩
  refine ⟨?_, ?_, ?_, ?_, ?_, ?_, since⟩
  · intro left leftMember right rightMember position leftEntry rightEntry leftAt rightAt sameTerm
    rcases List.getElem?_eq_some_iff.mp leftAt with ⟨leftBound, rfl⟩
    rcases List.getElem?_eq_some_iff.mp rightAt with ⟨rightBound, rfl⟩
    have leftBacked := (before.nodes left leftMember).backed.mono grows.logs
    have rightBacked := (after.nodes right rightMember).backed
    rw [← List.take_append_getElem leftBound, ← List.take_append_getElem rightBound]
    apply leftBacked.agree rightBacked
    · rw [List.take_append_getElem leftBound]
      exact List.take_prefix _ _
    · rw [List.take_append_getElem rightBound]
      exact List.take_prefix _ _
    · rw [List.length_take_of_le leftBound.le, List.length_take_of_le rightBound.le]
    · exact sameTerm
  · intro id member leader leaderMember isLeader atLeast
    have leads := (after.nodes leader leaderMember).leads isLeader
    have leaderEq : final.leader (later.nodes leader).currentTerm = some leader :=
      leads.leader_eq
    have logsEq : final.logs (later.nodes leader).currentTerm = (later.nodes leader).log :=
      leads.logs_eq
    have committed := (before.nodes id member).committed.mono grows (le_refl _)
    have held := committed.prefix_logs after.consistent atLeast (by simp [leaderEq])
    rw [logsEq] at held
    exact held
  · intro id member leader leaderMember isLeader newer
    have leads := (before.nodes leader leaderMember).leads isLeader
    have own := before.election.recorded leader leaderMember leader
      (before.election.own_vote leader leaderMember (by simp [isLeader]))
    have held := (after.nodes id member).committed.prefix_voteLog after.consistent newer
      (grows.leader _ _ leads.leader_eq).1
    rw [(grows.votes _ _ _ own).2] at held
    exact held.trans leads.starts
  · intro id member
    exact before.take_commitIndex grows after member (since id).1
  · intro id member
    exact ⟨(after.nodes id member).baseIndex_eq, (after.nodes id member).commit_le⟩
  · intro left right index leftOp rightOp leftEmitted rightEmitted
    exact (after.emitted left index leftOp leftEmitted).unique after.consistent
      (after.emitted right index rightOp rightEmitted)

/-- The elected pair after node 1 has sent one insert to node 2. -/
def pairSent : Group :=
  (pairElected.act 1 (.propose (.insert ⟨1, 2, 3⟩))).act 1 .replicateNow

/-- The pair after node 2 has accepted it. -/
def pairAccepted : Group :=
  pairSent.act 2 (.request 1 (.appendEntries 1 1 0 0 0 [⟨1, .insert ⟨1, 2, 3⟩⟩]))

/-- The pair after node 1 has committed and applied it. -/
def pairCommitted : Group :=
  (pairAccepted.act 1 (.reply 2 (.append 1 true 1))).act 1 .drainApply

theorem pairCommitted_of_pairElected :
    Group.Run pair (fun input => input.isCompact = false) pairElected pairCommitted := by
  have asked : (1, ⟨2, .appendEntries 1 1 0 0 0 [⟨1, .insert ⟨1, 2, 3⟩⟩]⟩) ∈
      pairSent.requests := .inr ⟨rfl, by decide⟩
  have answered : (2, 1, .append 1 true 1) ∈ pairAccepted.replies := .inr ⟨rfl, rfl⟩
  apply Relation.ReflTransGen.trans (b := pairAccepted)
  · apply Relation.ReflTransGen.trans (b := pairSent)
    · exact (Relation.ReflTransGen.single
        ⟨1, .propose (.insert ⟨1, 2, 3⟩), by decide, rfl, trivial, rfl⟩).tail
        ⟨1, .replicateNow, by decide, rfl, trivial, rfl⟩
    · exact .single
        ⟨2, .request 1 (.appendEntries 1 1 0 0 0 [⟨1, .insert ⟨1, 2, 3⟩⟩]), by decide, rfl,
          asked, rfl⟩
  · exact (Relation.ReflTransGen.single
      ⟨1, .reply 2 (.append 1 true 1), by decide, rfl, answered, rfl⟩).tail
      ⟨1, .drainApply, by decide, rfl, trivial, rfl⟩

theorem raft_state_machine_safety_pairCommitted :
    (pairCommitted.nodes 1).commitIndex = 1 ∧ (1, 1, .insert ⟨1, 2, 3⟩) ∈ pairCommitted.emitted ∧
    ∀ id op, (id, 1, op) ∈ pairCommitted.emitted → op = .insert ⟨1, 2, 3⟩ := by
  have handed : (1, 1, .insert ⟨1, 2, 3⟩) ∈ pairCommitted.emitted := .inr ⟨rfl, by decide⟩
  refine ⟨by rfl, handed, ?_⟩
  intro id op emitted
  exact (raft_state_machine_safety pair pairElected pairCommitted pairElected_reachable
    pairCommitted_of_pairElected).2.2.2.2.2.1 id 1 1 op _ emitted handed

end GStore.Cluster
