import GStore.Cluster.LogSafety
import GStore.Cluster.ReplicaGroup

/-! # What a node has applied

Between two drains, compactions and snapshots a node changes nothing of what it has
applied; a drain hands out the committed operations that follow. -/

namespace GStore.Cluster

namespace RaftState

/-! ## The applied part of a state -/

/-- The part of a state that only draining, compacting and snapshots change. -/
structure Base where
  baseIndex : Nat
  baseTerm : Nat
  snapshot : List IdTriple
  lastApplied : Nat
  pendingReset : Option (List IdTriple)

def base (state : RaftState) : Base where
  baseIndex := state.baseIndex
  baseTerm := state.baseTerm
  snapshot := state.snapshot
  lastApplied := state.lastApplied
  pendingReset := state.pendingReset

section Frame

variable (state : RaftState)

@[simp] theorem resetElectionTimeout_base : state.resetElectionTimeout.base = state.base := rfl

@[simp] theorem observeTerm_base (term : Nat) : (state.observeTerm term).base = state.base := by
  unfold observeTerm
  split <;> rfl

@[simp] theorem replicate_base : state.replicate.1.base = state.base := rfl

@[simp] theorem becomeLeader_base : state.becomeLeader.1.base = state.base := by
  rw [becomeLeader_eq]
  rfl

@[simp] theorem advanceCommit_base : state.advanceCommit.1.base = state.base := rfl

theorem tick_base : state.tick.1.base = state.base := by
  unfold tick startElection
  dsimp only
  split
  · split <;> rfl
  all_goals
    split
    · split
      · rw [becomeLeader_base]
        rfl
      · rfl
    · rfl

theorem propose_base (op : LogOp) : (state.propose op).1.base = state.base := by
  unfold propose
  dsimp only
  split
  · rfl
  · split <;> rfl

theorem replicateNow_base : state.replicateNow.1.base = state.base := by
  unfold replicateNow
  split <;> rfl

theorem noteRevived_base : state.noteRevived.base = state.base := by
  unfold noteRevived
  split <;> rfl

theorem handleRequestVote_base (term : Nat) (candidateId : NodeId)
    (lastLogIndex lastLogTerm : Nat) :
    (state.handleRequestVote term candidateId lastLogIndex lastLogTerm).1.base = state.base := by
  unfold handleRequestVote
  dsimp only
  split
  · rfl
  · split
    · exact observeTerm_base state term
    · exact observeTerm_base state term

theorem handleAppendEntries_base (term : Nat) (leaderId : NodeId)
    (prevLogIndex prevLogTerm leaderCommit : Nat) (entries : List LogEntry) :
    (state.handleAppendEntries term leaderId prevLogIndex prevLogTerm leaderCommit
      entries).1.base = state.base := by
  unfold handleAppendEntries
  dsimp only
  split
  · rfl
  · split
    · exact observeTerm_base state term
    · split
      · exact observeTerm_base state term
      · rw [appendFrom_eq]
        split
        · exact observeTerm_base state term
        · exact observeTerm_base state term

theorem handleReply_base («from» : NodeId) (reply : RaftReply) :
    (state.handleReply «from» reply).1.base = state.base := by
  cases reply with
  | vote term granted =>
    rw [handleReply]
    unfold handleVoteReply
    dsimp only
    split
    · exact observeTerm_base state term
    · split
      · rfl
      · split
        · split
          · rw [becomeLeader_base]
            rfl
          · rfl
        · rfl
  | append term success matchIndex =>
    rw [handleReply]
    unfold handleAppendReply
    dsimp only
    split
    · exact observeTerm_base state term
    · split
      · rfl
      · split
        · split
          · rfl
          · split <;> rfl
        · rfl
  | snapshot term =>
    rw [handleReply]
    unfold handleSnapshotReply
    dsimp only
    split
    · exact observeTerm_base state term
    · split <;> rfl

end Frame

end RaftState

/-- Inputs that can leave neither a snapshot nor an application behind. -/
def Input.keepsBase : Input → Bool
  | .drainApply | .compact .. | .request _ (.installSnapshot ..) => false
  | _ => true

namespace RaftState

theorem step_base (state : RaftState) {input : Input} (keeps : input.keepsBase = true) :
    (state.step input).state.base = state.base := by
  cases input with
  | tick => exact tick_base state
  | propose op => exact propose_base state op
  | replicateNow => exact replicateNow_base state
  | drainApply => cases keeps
  | compact upToIndex triples => cases keeps
  | noteRevived => exact noteRevived_base state
  | request source msg =>
    cases msg with
    | requestVote term candidateId lastLogIndex lastLogTerm =>
      exact handleRequestVote_base state _ _ _ _
    | appendEntries term leaderId prevLogIndex prevLogTerm leaderCommit entries =>
      exact handleAppendEntries_base state _ _ _ _ _ _
    | installSnapshot term leaderId lastIncludedIndex lastIncludedTerm triples => cases keeps
  | reply source reply => exact handleReply_base state source reply

/-! ## Draining -/

variable {state : RaftState}

theorem opAt_eq_some {index : Nat} (above : state.baseIndex ≤ index)
    (within : index < state.lastLogIndex) :
    ∃ inside : index - state.baseIndex < state.log.length,
      state.opAt (index + 1) = some (state.log.get ⟨index - state.baseIndex, inside⟩).op := by
  rw [lastLogIndex] at within
  refine ⟨by omega, ?_⟩
  have position : index + 1 - state.baseIndex - 1 = index - state.baseIndex := by omega
  rw [opAt, if_neg (by omega), position, List.getElem?_eq_getElem (by omega)]
  rfl

theorem map_op_range (count : Nat) :
    ∀ start, state.baseIndex ≤ start → start + count ≤ state.lastLogIndex →
      ((List.range' (start + 1) count).filterMap fun index =>
          (state.opAt index).map (index, ·)).map Prod.snd =
        ((state.log.drop (start - state.baseIndex)).take count).map LogEntry.op := by
  induction count with
  | zero => simp
  | succ count induction =>
    intro start above within
    rcases opAt_eq_some above (by omega) with ⟨inside, atStart⟩
    have next : start + 1 - state.baseIndex = start - state.baseIndex + 1 := by omega
    have rest := induction (start + 1) (by omega) (by omega)
    rw [List.range'_succ, List.filterMap_cons, atStart, List.drop_eq_getElem_cons inside,
      List.take_succ_cons]
    simp only [Option.map_some, List.map_cons]
    rw [rest, next]
    rfl

/-- The operations that a drain hands out. -/
theorem map_op_unapplied (above : state.baseIndex ≤ state.lastApplied)
    (applied : state.lastApplied ≤ state.commitIndex)
    (within : state.commitIndex ≤ state.lastLogIndex) :
    state.unapplied.map Prod.snd =
      ((state.log.take (state.commitIndex - state.baseIndex)).drop
        (state.lastApplied - state.baseIndex)).map LogEntry.op := by
  have count : state.commitIndex - state.baseIndex - (state.lastApplied - state.baseIndex) =
      state.commitIndex - state.lastApplied := by omega
  rw [unapplied, map_op_range _ _ above (by omega), List.drop_take, count]

end RaftState

end GStore.Cluster
