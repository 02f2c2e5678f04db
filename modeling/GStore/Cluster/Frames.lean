import GStore.Cluster.Group

/-! # What the helpers of the state machine leave alone -/

namespace GStore.Cluster.RaftState

variable (state : RaftState)

/-! ## Timers touch nothing but timers -/

@[simp] theorem resetElectionTimeout_id : state.resetElectionTimeout.id = state.id := rfl

@[simp] theorem resetElectionTimeout_peers :
    state.resetElectionTimeout.peers = state.peers := rfl

@[simp] theorem resetElectionTimeout_role : state.resetElectionTimeout.role = state.role := rfl

@[simp] theorem resetElectionTimeout_currentTerm :
    state.resetElectionTimeout.currentTerm = state.currentTerm := rfl

@[simp] theorem resetElectionTimeout_votedFor :
    state.resetElectionTimeout.votedFor = state.votedFor := rfl

@[simp] theorem resetElectionTimeout_votesGranted :
    state.resetElectionTimeout.votesGranted = state.votesGranted := rfl

@[simp] theorem resetElectionTimeout_log : state.resetElectionTimeout.log = state.log := rfl

@[simp] theorem resetElectionTimeout_baseIndex :
    state.resetElectionTimeout.baseIndex = state.baseIndex := rfl

@[simp] theorem resetElectionTimeout_baseTerm :
    state.resetElectionTimeout.baseTerm = state.baseTerm := rfl

@[simp] theorem resetElectionTimeout_commitIndex :
    state.resetElectionTimeout.commitIndex = state.commitIndex := rfl

@[simp] theorem resetElectionTimeout_lastApplied :
    state.resetElectionTimeout.lastApplied = state.lastApplied := rfl

@[simp] theorem resetElectionTimeout_nextIndex :
    state.resetElectionTimeout.nextIndex = state.nextIndex := rfl

@[simp] theorem resetElectionTimeout_matchIndex :
    state.resetElectionTimeout.matchIndex = state.matchIndex := rfl

@[simp] theorem resetElectionTimeout_majority :
    state.resetElectionTimeout.majority = state.majority := rfl

@[simp] theorem resetElectionTimeout_lastLogIndex :
    state.resetElectionTimeout.lastLogIndex = state.lastLogIndex := rfl

@[simp] theorem resetElectionTimeout_lastLogTerm :
    state.resetElectionTimeout.lastLogTerm = state.lastLogTerm := rfl

@[simp] theorem resetElectionTimeout_termAt :
    state.resetElectionTimeout.termAt = state.termAt := rfl

/-! ## Observing a term -/

@[simp] theorem observeTerm_id (term : Nat) : (state.observeTerm term).id = state.id := by
  unfold observeTerm; split <;> rfl

@[simp] theorem observeTerm_peers (term : Nat) :
    (state.observeTerm term).peers = state.peers := by
  unfold observeTerm; split <;> rfl

@[simp] theorem observeTerm_log (term : Nat) : (state.observeTerm term).log = state.log := by
  unfold observeTerm; split <;> rfl

@[simp] theorem observeTerm_baseIndex (term : Nat) :
    (state.observeTerm term).baseIndex = state.baseIndex := by
  unfold observeTerm; split <;> rfl

@[simp] theorem observeTerm_baseTerm (term : Nat) :
    (state.observeTerm term).baseTerm = state.baseTerm := by
  unfold observeTerm; split <;> rfl

@[simp] theorem observeTerm_commitIndex (term : Nat) :
    (state.observeTerm term).commitIndex = state.commitIndex := by
  unfold observeTerm; split <;> rfl

@[simp] theorem observeTerm_lastApplied (term : Nat) :
    (state.observeTerm term).lastApplied = state.lastApplied := by
  unfold observeTerm; split <;> rfl

@[simp] theorem observeTerm_nextIndex (term : Nat) :
    (state.observeTerm term).nextIndex = state.nextIndex := by
  unfold observeTerm; split <;> rfl

@[simp] theorem observeTerm_matchIndex (term : Nat) :
    (state.observeTerm term).matchIndex = state.matchIndex := by
  unfold observeTerm; split <;> rfl

theorem observeTerm_currentTerm {term : Nat} (atLeast : ¬ term < state.currentTerm) :
    (state.observeTerm term).currentTerm = term := by
  unfold observeTerm
  split
  · rfl
  · omega

/-- Observing the current term changes nothing; a newer one frees the vote. -/
theorem observeTerm_cases {term : Nat} (atLeast : ¬ term < state.currentTerm) :
    (term = state.currentTerm ∧ state.observeTerm term = state) ∨
    (state.currentTerm < term ∧ (state.observeTerm term).votedFor = none ∧
      (state.observeTerm term).role = .follower) := by
  unfold observeTerm
  split
  · next newer => exact .inr ⟨newer, rfl, rfl⟩
  · next notNewer => exact .inl ⟨by omega, rfl⟩

/-! ## Replication and appending -/

theorem appendEntry_eq (index : Nat) (entry : LogEntry) :
    state.appendEntry index entry =
      { state with log := (state.appendEntry index entry).log } := by
  unfold appendEntry
  split
  · rfl
  · split
    · split <;> rfl
    · rfl

theorem appendFrom_eq (entries : List LogEntry) : ∀ (state : RaftState) (index : Nat),
    state.appendFrom index entries =
      { state with log := (state.appendFrom index entries).log } := by
  induction entries with
  | nil => intro state index; rfl
  | cons entry rest induction =>
    intro state index
    rw [appendFrom, induction, appendEntry_eq]

/-- The two kinds of request a leader sends to a peer. -/
theorem replicateTo_cases {peer : NodeId} {sent : Outgoing}
    (member : state.replicateTo peer = some sent) :
    state.role = .leader ∧ sent.to = peer ∧
    ((sent.msg = .installSnapshot state.currentTerm state.id state.baseIndex
        state.baseTerm state.snapshot ∧
      (state.nextIndex peer).getD (state.lastLogIndex + 1) ≤ state.baseIndex) ∨
    (∃ next, next = (state.nextIndex peer).getD (state.lastLogIndex + 1) ∧
      state.baseIndex < next ∧
      sent.msg = .appendEntries state.currentTerm state.id (next - 1)
        (state.termAt (next - 1)) state.commitIndex
        (state.log.drop (next - state.baseIndex - 1)))) := by
  simp only [replicateTo] at member
  split at member
  · cases member
  · next leads =>
      have isLeader : state.role = .leader := not_not.mp leads
      split at member
      · next behind =>
          cases member
          exact ⟨isLeader, rfl, .inl ⟨rfl, behind⟩⟩
      · next within =>
          cases member
          exact ⟨isLeader, rfl, .inr ⟨_, rfl, by omega, rfl⟩⟩

theorem mem_replicate {sent : Outgoing} (member : sent ∈ state.replicate.2) :
    ∃ peer ∈ state.peers, state.replicateTo peer = some sent :=
  List.mem_filterMap.mp member

/-! ## Becoming leader -/

/-- The state of a new leader before it sends its first messages. -/
def lead : RaftState :=
  let extended :=
    if state.lastLogIndex > state.commitIndex then
      state.log ++ [⟨state.currentTerm, .noop⟩]
    else
      state.log
  { state with
    role := .leader
    leaderId := some state.id
    log := extended
    nextIndex := fun peer =>
      if peer ∈ state.peers then some (state.baseIndex + extended.length + 1) else none
    matchIndex := fun peer => if peer ∈ state.peers then some 0 else none
    heartbeatElapsed := 0 }

theorem becomeLeader_eq : state.becomeLeader = state.lead.replicate := by
  by_cases uncommitted : state.baseIndex + state.log.length > state.commitIndex
  · simp only [becomeLeader, lead, lastLogIndex, uncommitted, if_true]
  · simp only [becomeLeader, lead, lastLogIndex, uncommitted, if_false]

end GStore.Cluster.RaftState
