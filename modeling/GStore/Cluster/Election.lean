import GStore.Cluster.Frames
import GStore.Foundation.Quorum

/-! # Election safety

A vote, once cast in a term, is never changed in that term. The history of
votes is kept as a growing partial function; a leader of a term has a majority
of its votes, and two majorities share a voter. -/

namespace GStore.Cluster

open RaftState

/-! ## What one input does to the voting state -/

/-- The voting behaviour of a node that handles one input. -/
structure VoteStep (state : RaftState) (input : Input) (effect : Effect) : Prop where
  id_eq : effect.state.id = state.id
  peers_eq : effect.state.peers = state.peers
  term_le : state.currentTerm ≤ effect.state.currentTerm
  /-- A vote stands for as long as the term does. -/
  vote_kept : ∀ candidate, effect.state.currentTerm = state.currentTerm →
    state.votedFor = some candidate → effect.state.votedFor = some candidate
  /-- A granted reply goes to the candidate the node has voted for. -/
  grant : ∀ source term, effect.reply = some (source, .vote term true) →
    ∃ candidate lastLogIndex lastLogTerm,
      input = .request source (.requestVote term candidate lastLogIndex lastLogTerm) ∧
      effect.state.currentTerm = term ∧ effect.state.votedFor = some candidate
  /-- Votes are collected one reply at a time, from the node's own vote on. -/
  campaign : effect.state.role ≠ .follower →
    (state.role ≠ .follower ∧ effect.state.currentTerm = state.currentTerm ∧
      ∀ voter ∈ effect.state.votesGranted, voter ∈ state.votesGranted ∨
        input = .reply voter (.vote state.currentTerm true)) ∨
    (effect.state.votesGranted = {state.id} ∧ effect.state.votedFor = some state.id ∧
      state.currentTerm < effect.state.currentTerm)
  elected : effect.state.role = .leader →
    (state.role = .leader ∧ effect.state.votesGranted = state.votesGranted) ∨
    effect.state.majority ≤ effect.state.votesGranted.card
  candidate_id : ∀ sent ∈ effect.requests, ∀ term candidate lastLogIndex lastLogTerm,
    sent.msg = .requestVote term candidate lastLogIndex lastLogTerm → candidate = state.id
  to_known : ∀ sent ∈ effect.requests, sent.to ∈ state.peers ∨
    ∃ reply, input = .reply sent.to reply
  reply_source : ∀ source reply, effect.reply = some (source, reply) →
    ∃ msg, input = .request source msg

/-- A step that neither votes nor campaigns: the node keeps its term and vote,
and stays in its role or steps down. -/
theorem VoteStep.of_unchanged {state next : RaftState} {input : Input}
    {requests : List Outgoing} {reply : Option (NodeId × RaftReply)}
    {emitted : List (Nat × LogOp)}
    (id_eq : next.id = state.id) (peers_eq : next.peers = state.peers)
    (term_eq : next.currentTerm = state.currentTerm)
    (vote_eq : next.votedFor = state.votedFor)
    (granted_eq : next.votesGranted = state.votesGranted)
    (role : next.role = state.role ∨ next.role = .follower)
    (sends : ∀ sent ∈ requests,
      (sent.to ∈ state.peers ∨ ∃ reply, input = .reply sent.to reply) ∧
      ∀ term candidate lastLogIndex lastLogTerm,
        sent.msg ≠ .requestVote term candidate lastLogIndex lastLogTerm)
    (replies : ∀ source reply', reply = some (source, reply') →
      (∃ msg, input = .request source msg) ∧ ∀ term, reply' ≠ .vote term true) :
    VoteStep state input { state := next, requests, reply, emitted } where
  id_eq := id_eq
  peers_eq := peers_eq
  term_le := term_eq.ge
  vote_kept candidate _ voted := vote_eq.trans voted
  grant source term answered := absurd rfl ((replies source _ answered).2 term)
  campaign notFollower := by
    rcases role with same | stepped
    · exact .inl ⟨same ▸ notFollower, term_eq, fun voter member => .inl (granted_eq ▸ member)⟩
    · exact absurd stepped notFollower
  elected leads := by
    rcases role with same | stepped
    · exact .inl ⟨same ▸ leads, granted_eq⟩
    · simp [stepped] at leads
  candidate_id sent member term candidate lastLogIndex lastLogTerm asks :=
    absurd asks ((sends sent member).2 term candidate lastLogIndex lastLogTerm)
  to_known sent member := (sends sent member).1
  reply_source source reply' answered := (replies source reply' answered).1

/-- A step into a newer term as a follower with a free vote. -/
theorem VoteStep.of_newer {state next : RaftState} {input : Input}
    {reply : Option (NodeId × RaftReply)} {emitted : List (Nat × LogOp)}
    (id_eq : next.id = state.id) (peers_eq : next.peers = state.peers)
    (term_lt : state.currentTerm < next.currentTerm) (role : next.role = .follower)
    (replies : ∀ source reply', reply = some (source, reply') →
      (∃ msg, input = .request source msg) ∧ ∀ term, reply' ≠ .vote term true) :
    VoteStep state input { state := next, requests := [], reply, emitted } where
  id_eq := id_eq
  peers_eq := peers_eq
  term_le := term_lt.le
  vote_kept candidate same _ := absurd same term_lt.ne'
  grant source term answered := absurd rfl ((replies source _ answered).2 term)
  campaign notFollower := absurd role notFollower
  elected leads := by simp [role] at leads
  candidate_id _ member := by cases member
  to_known _ member := by cases member
  reply_source source reply' answered := (replies source reply' answered).1

theorem VoteStep.of_observe {state : RaftState} {input : Input} {term : Nat}
    (newer : term > state.currentTerm) :
    VoteStep state input
      { state := state.observeTerm term, requests := [], reply := none, emitted := [] } := by
  refine VoteStep.of_newer (by simp) (by simp) ?_ ?_ (by simp)
  · rw [state.observeTerm_currentTerm (by omega)]
    exact newer
  · simp [observeTerm, newer]

/-- What a leader sends when it replicates is never a vote request. -/
theorem replicateTo_sends {state : RaftState} {peer : NodeId} {sent : Outgoing}
    (member : state.replicateTo peer = some sent) :
    sent.to = peer ∧ ∀ term candidate lastLogIndex lastLogTerm,
      sent.msg ≠ .requestVote term candidate lastLogIndex lastLogTerm := by
  rcases state.replicateTo_cases member with ⟨-, sentTo, ⟨sentMsg, -⟩ | ⟨_, -, -, sentMsg⟩⟩ <;>
    exact ⟨sentTo, by simp [sentMsg]⟩

theorem replicate_sends {state : RaftState} {sent : Outgoing}
    (member : sent ∈ state.replicate.2) {peers : List NodeId}
    (same : state.peers = peers) (input : Input) :
    (sent.to ∈ peers ∨ ∃ reply, input = .reply sent.to reply) ∧
      ∀ term candidate lastLogIndex lastLogTerm,
        sent.msg ≠ .requestVote term candidate lastLogIndex lastLogTerm := by
  rcases state.mem_replicate member with ⟨peer, known, sends⟩
  have facts := replicateTo_sends sends
  exact ⟨.inl (same ▸ facts.1 ▸ known), facts.2⟩

/-- Winning an election, with the votes the node has collected. -/
theorem VoteStep.of_lead {state asking : RaftState} {input : Input}
    (id_eq : asking.id = state.id) (peers_eq : asking.peers = state.peers)
    (term_le : state.currentTerm ≤ asking.currentTerm)
    (vote_kept : ∀ candidate, asking.currentTerm = state.currentTerm →
      state.votedFor = some candidate → asking.votedFor = some candidate)
    (campaign : (state.role ≠ .follower ∧ asking.currentTerm = state.currentTerm ∧
      ∀ voter ∈ asking.votesGranted, voter ∈ state.votesGranted ∨
        input = .reply voter (.vote state.currentTerm true)) ∨
      (asking.votesGranted = {state.id} ∧ asking.votedFor = some state.id ∧
        state.currentTerm < asking.currentTerm))
    (wins : asking.votesGranted.card ≥ asking.majority) :
    VoteStep state input
      { state := asking.becomeLeader.1, requests := asking.becomeLeader.2,
        reply := none, emitted := [] } := by
  rw [becomeLeader_eq]
  exact
    { id_eq := id_eq
      peers_eq := peers_eq
      term_le := term_le
      vote_kept := vote_kept
      grant := fun _ _ answered => by cases answered
      campaign := fun _ => campaign
      elected := fun _ => .inr wins
      candidate_id := fun sent member term candidate lastLogIndex lastLogTerm asks =>
        absurd asks ((replicate_sends member peers_eq input).2 term candidate
          lastLogIndex lastLogTerm)
      to_known := fun sent member => (replicate_sends member peers_eq input).1
      reply_source := fun _ _ answered => by cases answered }

theorem voteStep_startElection (state : RaftState) (input : Input) :
    VoteStep state input
      { state := state.startElection.1, requests := state.startElection.2,
        reply := none, emitted := [] } := by
  simp only [startElection]
  split
  · next wins =>
      apply VoteStep.of_lead
      · rfl
      · rfl
      · simp
      · simp
      · simp
      · exact wins
  · next waits =>
      constructor
      · rfl
      · rfl
      · simp
      · simp
      · simp
      · simp
      · simp
      · intro sent member term candidate lastLogIndex lastLogTerm asks
        rcases List.mem_map.mp member with ⟨peer, -, rfl⟩
        cases asks
        rfl
      · intro sent member
        rcases List.mem_map.mp member with ⟨peer, known, rfl⟩
        exact .inl known
      · simp

theorem voteStep_tick (state : RaftState) : VoteStep state .tick (state.step .tick) := by
  have campaigns := voteStep_startElection
    { state with electionElapsed := state.electionElapsed + 1 } .tick
  simp only [step, tick]
  split
  · split
    · refine VoteStep.of_unchanged rfl rfl rfl rfl rfl (.inl rfl) ?_ ?_
      · intro sent member
        exact replicate_sends member rfl _
      · simp
    · refine VoteStep.of_unchanged rfl rfl rfl rfl rfl (.inl rfl) ?_ ?_ <;> simp
  all_goals
    split
    · exact ⟨campaigns.id_eq, campaigns.peers_eq, campaigns.term_le, campaigns.vote_kept,
        campaigns.grant, campaigns.campaign, campaigns.elected, campaigns.candidate_id,
        campaigns.to_known, campaigns.reply_source⟩
    · refine VoteStep.of_unchanged rfl rfl rfl rfl rfl (.inl rfl) ?_ ?_ <;> simp

theorem voteStep_requestVote (state : RaftState) (source : NodeId) (term : Nat)
    (candidateId : NodeId) (lastLogIndex lastLogTerm : Nat) :
    VoteStep state (.request source (.requestVote term candidateId lastLogIndex lastLogTerm))
      (state.step (.request source
        (.requestVote term candidateId lastLogIndex lastLogTerm))) := by
  simp only [step, handle, handleRequestVote]
  split
  · refine VoteStep.of_unchanged rfl rfl rfl rfl rfl (.inl rfl) ?_ ?_ <;> simp
  · next atLeast =>
      have observed := state.observeTerm_cases atLeast
      split
      · next grants =>
          constructor
          · simp
          · simp
          · simp [state.observeTerm_currentTerm atLeast]
            omega
          · intro candidate same voted
            rcases observed with ⟨-, equal⟩ | ⟨newer, -, -⟩
            · rw [equal, voted] at grants
              simpa [eq_comm] using grants.1
            · simp [state.observeTerm_currentTerm atLeast] at same
              omega
          · intro source' term' answered
            simp only [Option.some.injEq, Prod.mk.injEq, RaftReply.vote.injEq] at answered
            rcases answered with ⟨rfl, rfl, -⟩
            refine ⟨candidateId, lastLogIndex, lastLogTerm, ?_, rfl, rfl⟩
            simp [state.observeTerm_currentTerm atLeast]
          · simp
          · simp
          · simp
          · simp
          · simp
      · rcases observed with ⟨same, equal⟩ | ⟨newer, -, role⟩
        · rw [equal]
          refine VoteStep.of_unchanged rfl rfl rfl rfl rfl (.inl rfl) ?_ ?_ <;> simp
        · apply VoteStep.of_newer
          · simp
          · simp
          · simpa [state.observeTerm_currentTerm atLeast] using newer
          · exact role
          · simp

theorem voteStep_appendEntries (state : RaftState) (source : NodeId) (term : Nat)
    (leaderId : NodeId) (prevLogIndex prevLogTerm leaderCommit : Nat)
    (entries : List LogEntry) :
    VoteStep state
      (.request source
        (.appendEntries term leaderId prevLogIndex prevLogTerm leaderCommit entries))
      (state.step (.request source
        (.appendEntries term leaderId prevLogIndex prevLogTerm leaderCommit entries))) := by
  have follows : ∀ (next : RaftState) (reply : RaftReply),
      ¬ term < state.currentTerm →
      next.id = state.id → next.peers = state.peers →
      next.currentTerm = (state.observeTerm term).currentTerm →
      next.votedFor = (state.observeTerm term).votedFor →
      next.votesGranted = (state.observeTerm term).votesGranted →
      next.role = .follower → (∀ term, reply ≠ .vote term true) →
      VoteStep state
        (.request source
          (.appendEntries term leaderId prevLogIndex prevLogTerm leaderCommit entries))
        { state := next, requests := [], reply := some (source, reply), emitted := [] } := by
    intro next reply atLeast id_eq peers_eq term_eq vote_eq granted_eq role notGrant
    rcases state.observeTerm_cases atLeast with ⟨-, equal⟩ | ⟨newer, -, -⟩
    · rw [equal] at term_eq vote_eq granted_eq
      apply VoteStep.of_unchanged id_eq peers_eq term_eq vote_eq granted_eq (.inr role)
      · simp
      · simpa using notGrant
    · apply VoteStep.of_newer id_eq peers_eq _ role
      · simpa using notGrant
      · rwa [term_eq, state.observeTerm_currentTerm atLeast]
  simp only [step, handle, handleAppendEntries]
  split
  · refine VoteStep.of_unchanged rfl rfl rfl rfl rfl (.inl rfl) ?_ ?_ <;> simp
  · next atLeast =>
      split
      · apply follows _ _ atLeast <;> simp
      · split
        · apply follows _ _ atLeast <;> simp
        · rw [appendFrom_eq]
          split
          · apply follows _ _ atLeast <;> simp
          · apply follows _ _ atLeast <;> simp

theorem voteStep_installSnapshot (state : RaftState) (source : NodeId) (term : Nat)
    (leaderId : NodeId) (lastIncludedIndex lastIncludedTerm : Nat)
    (triples : List IdTriple) :
    VoteStep state
      (.request source
        (.installSnapshot term leaderId lastIncludedIndex lastIncludedTerm triples))
      (state.step (.request source
        (.installSnapshot term leaderId lastIncludedIndex lastIncludedTerm triples))) := by
  simp only [step, handle, handleInstallSnapshot]
  split
  · refine VoteStep.of_unchanged rfl rfl rfl rfl rfl (.inl rfl) ?_ ?_ <;> simp
  · next atLeast =>
      rcases state.observeTerm_cases atLeast with ⟨-, equal⟩ | ⟨newer, -, -⟩
      · rw [equal]
        split <;> refine VoteStep.of_unchanged rfl rfl rfl rfl rfl (.inr rfl) ?_ ?_ <;> simp
      · split <;>
          (apply VoteStep.of_newer <;> simp [state.observeTerm_currentTerm atLeast, newer])

theorem voteStep_voteReply (state : RaftState) (source : NodeId) (term : Nat)
    (granted : Bool) :
    VoteStep state (.reply source (.vote term granted))
      (state.step (.reply source (.vote term granted))) := by
  simp only [step, handleReply, handleVoteReply]
  split
  · next newer => exact VoteStep.of_observe newer
  · next notNewer =>
      split
      · refine VoteStep.of_unchanged rfl rfl rfl rfl rfl (.inl rfl) ?_ ?_ <;> simp
      · next campaigns =>
          have isCandidate : state.role = .candidate := by tauto
          have sameTerm : term = state.currentTerm := by
            have := campaigns
            omega
          split
          · next isGranted =>
              have collected : ∀ voter ∈ insert source state.votesGranted,
                  voter ∈ state.votesGranted ∨
                    Input.reply source (.vote term granted) =
                      .reply voter (.vote state.currentTerm true) := by
                intro voter member
                rcases Finset.mem_insert.mp member with same | member
                · exact .inr (by rw [same, sameTerm, isGranted])
                · exact .inl member
              split
              · next wins =>
                  exact VoteStep.of_lead rfl rfl (le_refl _) (fun _ _ voted => voted)
                    (.inl ⟨by simp [isCandidate], rfl, collected⟩) wins
              · constructor
                · rfl
                · rfl
                · exact le_refl _
                · exact fun _ _ voted => voted
                · simp
                · exact fun _ => .inl ⟨by simp [isCandidate], rfl, collected⟩
                · simp [isCandidate]
                · simp
                · simp
                · simp
          · refine VoteStep.of_unchanged rfl rfl rfl rfl rfl (.inl rfl) ?_ ?_ <;> simp

/-- What a leader sends in answer to a reply goes back to the replying node. -/
theorem replicateTo_answers {state : RaftState} {peers : List NodeId} {source : NodeId}
    {reply : RaftReply} {sent : Outgoing}
    (member : sent ∈ (state.replicateTo source).toList) :
    (sent.to ∈ peers ∨ ∃ reply', Input.reply source reply = .reply sent.to reply') ∧
      ∀ term candidate lastLogIndex lastLogTerm,
        sent.msg ≠ .requestVote term candidate lastLogIndex lastLogTerm := by
  have facts := replicateTo_sends (Option.mem_toList.mp member)
  exact ⟨.inr ⟨reply, by rw [facts.1]⟩, facts.2⟩

theorem voteStep_appendReply (state : RaftState) (source : NodeId) (term : Nat)
    (success : Bool) (matchIndex : Nat) :
    VoteStep state (.reply source (.append term success matchIndex))
      (state.step (.reply source (.append term success matchIndex))) := by
  simp only [step, handleReply, handleAppendReply]
  split
  · next newer => exact VoteStep.of_observe newer
  · split
    · refine VoteStep.of_unchanged rfl rfl rfl rfl rfl (.inl rfl) ?_ ?_ <;> simp
    · split
      · split
        · refine VoteStep.of_unchanged rfl rfl rfl rfl rfl (.inl rfl) ?_ (by simp)
          intro sent member
          exact replicateTo_answers member
        · split
          · refine VoteStep.of_unchanged rfl rfl rfl rfl rfl (.inl rfl) ?_ (by simp)
            intro sent member
            exact replicate_sends member rfl _
          · refine VoteStep.of_unchanged rfl rfl rfl rfl rfl (.inl rfl) ?_ ?_ <;> simp
      · refine VoteStep.of_unchanged rfl rfl rfl rfl rfl (.inl rfl) ?_ (by simp)
        intro sent member
        exact replicateTo_answers member

theorem voteStep_snapshotReply (state : RaftState) (source : NodeId) (term : Nat) :
    VoteStep state (.reply source (.snapshot term))
      (state.step (.reply source (.snapshot term))) := by
  simp only [step, handleReply, handleSnapshotReply]
  split
  · next newer => exact VoteStep.of_observe newer
  · split
    · refine VoteStep.of_unchanged rfl rfl rfl rfl rfl (.inl rfl) ?_ ?_ <;> simp
    · refine VoteStep.of_unchanged rfl rfl rfl rfl rfl (.inl rfl) ?_ (by simp)
      intro sent member
      exact replicateTo_answers member

theorem voteStep_replicateNow (state : RaftState) :
    VoteStep state .replicateNow (state.step .replicateNow) := by
  simp only [step, replicateNow]
  split
  · refine VoteStep.of_unchanged rfl rfl rfl rfl rfl (.inl rfl) ?_ (by simp)
    intro sent member
    exact replicate_sends member rfl _
  · refine VoteStep.of_unchanged rfl rfl rfl rfl rfl (.inl rfl) ?_ ?_ <;> simp

theorem voteStep_propose (state : RaftState) (op : LogOp) :
    VoteStep state (.propose op) (state.step (.propose op)) := by
  simp only [step, propose, advanceCommit]
  split
  · refine VoteStep.of_unchanged rfl rfl rfl rfl rfl (.inl rfl) ?_ ?_ <;> simp
  · split <;> refine VoteStep.of_unchanged rfl rfl rfl rfl rfl (.inl rfl) ?_ ?_ <;> simp

/-- Every input, whatever its kind, follows the voting rules. -/
theorem voteStep (state : RaftState) (input : Input) :
    VoteStep state input (state.step input) := by
  cases input with
  | tick => exact voteStep_tick state
  | propose op => exact voteStep_propose state op
  | replicateNow => exact voteStep_replicateNow state
  | drainApply =>
    refine VoteStep.of_unchanged rfl rfl rfl rfl rfl (.inl rfl) ?_ ?_ <;> simp
  | compact upToIndex triples =>
    simp only [step, compact]
    split <;> refine VoteStep.of_unchanged rfl rfl rfl rfl rfl (.inl rfl) ?_ ?_ <;> simp
  | noteRevived =>
    simp only [step, noteRevived]
    split
    · refine VoteStep.of_unchanged rfl rfl rfl rfl rfl (.inr rfl) ?_ ?_ <;> simp
    · refine VoteStep.of_unchanged rfl rfl rfl rfl rfl (.inl rfl) ?_ ?_ <;> simp
  | request source msg =>
    cases msg with
    | requestVote term candidateId lastLogIndex lastLogTerm =>
      exact voteStep_requestVote state source term candidateId lastLogIndex lastLogTerm
    | appendEntries term leaderId prevLogIndex prevLogTerm leaderCommit entries =>
      exact voteStep_appendEntries state source term leaderId prevLogIndex prevLogTerm
        leaderCommit entries
    | installSnapshot term leaderId lastIncludedIndex lastIncludedTerm triples =>
      exact voteStep_installSnapshot state source term leaderId lastIncludedIndex
        lastIncludedTerm triples
  | reply source reply =>
    cases reply with
    | vote term granted => exact voteStep_voteReply state source term granted
    | append term success matchIndex =>
      exact voteStep_appendReply state source term success matchIndex
    | snapshot term => exact voteStep_snapshotReply state source term

/-! ## The vote history and its invariant -/

/-- Every vote ever cast, own votes of candidates included. -/
@[ext] structure VoteHistory where
  votes : NodeId → Nat → Option NodeId

namespace VoteHistory

instance : Preorder VoteHistory where
  le earlier later := ∀ voter term candidate,
    earlier.votes voter term = some candidate → later.votes voter term = some candidate
  le_refl _ _ _ _ cast := cast
  le_trans _ _ _ first second voter term candidate cast :=
    second voter term candidate (first voter term candidate cast)

/-- The history after `id` has reached a state: its vote in its term is added
if the history has none there. -/
def record (history : VoteHistory) (id : NodeId) (state : RaftState) : VoteHistory where
  votes voter term :=
    if voter = id ∧ term = state.currentTerm ∧ history.votes voter term = none then
      state.votedFor
    else
      history.votes voter term

theorem le_record (history : VoteHistory) (id : NodeId) (state : RaftState) :
    history ≤ history.record id state := by
  intro voter term candidate cast
  simp [record, cast]

theorem record_other (history : VoteHistory) {id voter : NodeId} (state : RaftState)
    (different : voter ≠ id) (term : Nat) :
    (history.record id state).votes voter term = history.votes voter term := by
  simp [record, different]

/-- `candidate` has the votes of a majority in `term`. -/
def Won (history : VoteHistory) (members : Finset NodeId) (candidate : NodeId)
    (term : Nat) : Prop :=
  ∃ voters ⊆ members, members.card / 2 + 1 ≤ voters.card ∧
    ∀ voter ∈ voters, history.votes voter term = some candidate

theorem Won.mono {earlier later : VoteHistory} {members : Finset NodeId}
    {candidate : NodeId} {term : Nat} (won : earlier.Won members candidate term)
    (grows : earlier ≤ later) : later.Won members candidate term := by
  rcases won with ⟨voters, subset, majority, cast⟩
  exact ⟨voters, subset, majority, fun voter member =>
    grows voter term candidate (cast voter member)⟩

theorem Won.unique {history : VoteHistory} {members : Finset NodeId}
    {left right : NodeId} {term : Nat} (leftWon : history.Won members left term)
    (rightWon : history.Won members right term) : left = right := by
  rcases leftWon with ⟨leftVoters, leftSubset, leftMajority, leftCast⟩
  rcases rightWon with ⟨rightVoters, rightSubset, rightMajority, rightCast⟩
  rcases exists_mem_of_majorities leftSubset rightSubset leftMajority rightMajority with
    ⟨voter, leftMember, rightMember⟩
  have same := (leftCast voter leftMember).symm.trans (rightCast voter rightMember)
  exact Option.some.inj same

end VoteHistory

theorem Membership.card_eq (membership : Membership) {id : NodeId}
    (member : id ∈ membership.members) :
    membership.members.card = (membership.peers id).length + 1 := by
  have others : (membership.peers id).toFinset = membership.members.erase id := by
    ext peer
    rw [List.mem_toFinset, membership.mem_peers id member, Finset.mem_erase]
    exact and_comm
  have length := List.toFinset_card_of_nodup (membership.peers_nodup id member)
  rw [others, Finset.card_erase_of_mem member] at length
  have positive : 0 < membership.members.card := Finset.card_pos.mpr ⟨id, member⟩
  omega

/-- The nodes agree with the vote history, and so do the messages. -/
structure ElectionInv (membership : Membership) (group : Group) (history : VoteHistory) :
    Prop where
  id_eq : ∀ id ∈ membership.members, (group.nodes id).id = id
  peers_eq : ∀ id ∈ membership.members, (group.nodes id).peers = membership.peers id
  voted : ∀ voter ∈ membership.members, ∀ term candidate,
    history.votes voter term = some candidate →
      term ≤ (group.nodes voter).currentTerm ∧
      (term = (group.nodes voter).currentTerm →
        (group.nodes voter).votedFor = some candidate)
  recorded : ∀ voter ∈ membership.members, ∀ candidate,
    (group.nodes voter).votedFor = some candidate →
      history.votes voter (group.nodes voter).currentTerm = some candidate
  granted : ∀ voter candidate term,
    (voter, candidate, .vote term true) ∈ group.replies →
      history.votes voter term = some candidate
  campaign : ∀ id ∈ membership.members, (group.nodes id).role ≠ .follower →
    ∀ voter ∈ (group.nodes id).votesGranted, voter ∈ membership.members ∧
      history.votes voter (group.nodes id).currentTerm = some id
  own_vote : ∀ id ∈ membership.members, (group.nodes id).role ≠ .follower →
    (group.nodes id).votedFor = some id
  elected : ∀ id ∈ membership.members, (group.nodes id).role = .leader →
    membership.members.card / 2 + 1 ≤ (group.nodes id).votesGranted.card
  candidate_eq : ∀ source sent, (source, sent) ∈ group.requests →
    ∀ term candidate lastLogIndex lastLogTerm,
      sent.msg = .requestVote term candidate lastLogIndex lastLogTerm → candidate = source
  requests_known : ∀ source sent, (source, sent) ∈ group.requests →
    source ∈ membership.members ∧ sent.to ∈ membership.members
  replies_known : ∀ source target reply, (source, target, reply) ∈ group.replies →
    source ∈ membership.members ∧ target ∈ membership.members

namespace ElectionInv

variable {membership : Membership} {group : Group} {history : VoteHistory}

theorem init (membership : Membership) :
    ElectionInv membership (Group.init membership) ⟨fun _ _ => none⟩ where
  id_eq _ _ := rfl
  peers_eq _ _ := rfl
  voted _ _ _ _ cast := by cases cast
  recorded _ _ _ cast := by cases cast
  granted _ _ _ sent := sent.elim
  campaign _ _ campaigns := absurd rfl campaigns
  own_vote _ _ campaigns := absurd rfl campaigns
  elected _ _ leads := by cases leads
  candidate_eq _ _ sent := sent.elim
  requests_known _ _ sent := sent.elim
  replies_known _ _ _ sent := sent.elim

/-- A leader of a term has won it. -/
theorem won_of_leader (inv : ElectionInv membership group history) {id : NodeId}
    (member : id ∈ membership.members) (leads : (group.nodes id).role = .leader) :
    history.Won membership.members id (group.nodes id).currentTerm := by
  have campaigns := inv.campaign id member (by simp [leads])
  exact ⟨(group.nodes id).votesGranted, fun voter granted => (campaigns voter granted).1,
    inv.elected id member leads, fun voter granted => (campaigns voter granted).2⟩

/-- Where the acting node's own vote stands after the step. -/
theorem recorded_act (inv : ElectionInv membership group history) {id : NodeId}
    (member : id ∈ membership.members) (input : Input) (candidate : NodeId)
    (voted : ((group.nodes id).step input).state.votedFor = some candidate) :
    (history.record id ((group.nodes id).step input).state).votes id
      ((group.nodes id).step input).state.currentTerm = some candidate := by
  have rules := voteStep (group.nodes id) input
  cases earlier : history.votes id ((group.nodes id).step input).state.currentTerm with
  | none => simp [VoteHistory.record, earlier, voted]
  | some earlierCandidate =>
    have old := inv.voted id member _ _ earlier
    have sameTerm := le_antisymm old.1 rules.term_le
    have kept := rules.vote_kept _ sameTerm (old.2 sameTerm)
    have same : earlierCandidate = candidate := Option.some.inj (kept.symm.trans voted)
    simp [VoteHistory.record, earlier, same]

theorem act (inv : ElectionInv membership group history) {id : NodeId} {input : Input}
    (member : id ∈ membership.members) (enabled : group.Enabled id input) :
    ElectionInv membership (group.act id input)
      (history.record id ((group.nodes id).step input).state) := by
  have rules := voteStep (group.nodes id) input
  have grows := history.le_record id ((group.nodes id).step input).state
  have recordedNow := inv.recorded_act member input
  constructor
  · intro other otherMember
    by_cases same : other = id
    · subst same
      rw [Group.act_nodes_self, rules.id_eq]
      exact inv.id_eq other member
    · rw [group.act_nodes_other input same]
      exact inv.id_eq other otherMember
  · intro other otherMember
    by_cases same : other = id
    · subst same
      rw [Group.act_nodes_self, rules.peers_eq]
      exact inv.peers_eq other member
    · rw [group.act_nodes_other input same]
      exact inv.peers_eq other otherMember
  · intro voter voterMember term candidate cast
    by_cases same : voter = id
    · subst same
      rw [Group.act_nodes_self]
      cases earlier : history.votes voter term with
      | none =>
        simp only [VoteHistory.record, earlier, and_true, true_and] at cast
        split at cast
        · next now => exact ⟨now.le, fun _ => cast⟩
        · cases cast
      | some earlierCandidate =>
        have same : earlierCandidate = candidate := by
          simpa [VoteHistory.record, earlier] using cast
        subst same
        have old := inv.voted voter member _ _ earlier
        refine ⟨old.1.trans rules.term_le, ?_⟩
        intro now
        have sameTerm : ((group.nodes voter).step input).state.currentTerm =
            (group.nodes voter).currentTerm :=
          le_antisymm (now ▸ old.1) rules.term_le
        exact rules.vote_kept _ sameTerm (old.2 (now.trans sameTerm))
    · rw [group.act_nodes_other input same]
      rw [history.record_other _ same] at cast
      exact inv.voted voter voterMember term candidate cast
  · intro voter voterMember candidate voted
    by_cases same : voter = id
    · subst same
      rw [Group.act_nodes_self] at voted ⊢
      exact recordedNow candidate voted
    · rw [group.act_nodes_other input same] at voted ⊢
      rw [history.record_other _ same]
      exact inv.recorded voter voterMember candidate voted
  · intro voter candidate term sent
    rcases sent with old | ⟨same, answered⟩
    · exact grows _ _ _ (inv.granted voter candidate term old)
    · change voter = id at same
      subst same
      rcases rules.grant candidate term answered with
        ⟨asker, lastLogIndex, lastLogTerm, asked, termNow, votedNow⟩
      have now := recordedNow asker votedNow
      subst asked
      have asked : asker = candidate := inv.candidate_eq _ _ enabled _ _ _ _ rfl
      subst asked
      rwa [termNow] at now
  · intro other otherMember campaigns voter granted
    by_cases same : other = id
    · subst same
      rw [Group.act_nodes_self] at campaigns granted ⊢
      rcases rules.campaign campaigns with ⟨campaigned, sameTerm, collected⟩ | ⟨own, voted, -⟩
      · rw [sameTerm]
        rcases collected voter granted with earlier | rfl
        · have old := inv.campaign other member campaigned voter earlier
          exact ⟨old.1, grows _ _ _ old.2⟩
        · exact ⟨(inv.replies_known _ _ _ enabled).1, grows _ _ _ (inv.granted _ _ _ enabled)⟩
      · rw [own, Finset.mem_singleton, inv.id_eq other member] at granted
        subst granted
        rw [inv.id_eq voter member] at voted
        exact ⟨member, recordedNow voter voted⟩
    · rw [group.act_nodes_other input same] at campaigns granted ⊢
      have old := inv.campaign other otherMember campaigns voter granted
      exact ⟨old.1, grows _ _ _ old.2⟩
  · intro other otherMember campaigns
    by_cases same : other = id
    · subst same
      rw [Group.act_nodes_self] at campaigns ⊢
      rcases rules.campaign campaigns with ⟨campaigned, sameTerm, -⟩ | ⟨-, voted, -⟩
      · exact rules.vote_kept other sameTerm (inv.own_vote other member campaigned)
      · rwa [inv.id_eq other member] at voted
    · rw [group.act_nodes_other input same] at campaigns ⊢
      exact inv.own_vote other otherMember campaigns
  · intro other otherMember leads
    by_cases same : other = id
    · subst same
      rw [Group.act_nodes_self] at leads ⊢
      rcases rules.elected leads with ⟨led, unchanged⟩ | wins
      · rw [unchanged]
        exact inv.elected other member led
      · have peers := rules.peers_eq.trans (inv.peers_eq other member)
        rwa [majority, clusterSize, peers, ← membership.card_eq member] at wins
    · rw [group.act_nodes_other input same] at leads ⊢
      exact inv.elected other otherMember leads
  · intro source sent delivered term candidate lastLogIndex lastLogTerm asks
    rcases delivered with old | ⟨rfl, fresh⟩
    · exact inv.candidate_eq source sent old _ _ _ _ asks
    · rw [rules.candidate_id sent fresh _ _ _ _ asks]
      exact inv.id_eq source member
  · intro source sent delivered
    rcases delivered with old | ⟨rfl, fresh⟩
    · exact inv.requests_known source sent old
    · refine ⟨member, ?_⟩
      rcases rules.to_known sent fresh with peer | ⟨reply, rfl⟩
      · rw [inv.peers_eq source member, membership.mem_peers source member] at peer
        exact peer.1
      · exact (inv.replies_known _ _ _ enabled).1
  · intro source target reply delivered
    rcases delivered with old | ⟨rfl, fresh⟩
    · exact inv.replies_known source target reply old
    · rcases rules.reply_source target reply fresh with ⟨msg, rfl⟩
      exact ⟨member, (inv.requests_known _ _ enabled).1⟩

theorem step {allowed : Input → Prop} {after : Group}
    (taken : Group.Step membership allowed group after)
    (inv : ElectionInv membership group history) :
    ∃ next, history ≤ next ∧ ElectionInv membership after next := by
  rcases taken with ⟨id, input, member, -, enabled, rfl⟩
  exact ⟨_, history.le_record id _, inv.act member enabled⟩

theorem run {allowed : Input → Prop} {after : Group}
    (taken : Group.Run membership allowed group after)
    (inv : ElectionInv membership group history) :
    ∃ next, history ≤ next ∧ ElectionInv membership after next :=
  exists_history_of_run (ElectionInv membership) (fun _ _ _ taken inv => inv.step taken) taken inv

theorem of_reachable {allowed : Input → Prop}
    (reachable : Group.Reachable membership allowed group) :
    ∃ history, ElectionInv membership group history := by
  rcases (init membership).run reachable with ⟨history, -, inv⟩
  exact ⟨history, inv⟩

end ElectionInv

theorem currentTerm_le_of_run {membership : Membership} {allowed : Input → Prop}
    {before after : Group} (run : Group.Run membership allowed before after) (id : NodeId) :
    (before.nodes id).currentTerm ≤ (after.nodes id).currentTerm := by
  induction run with
  | refl => exact le_refl _
  | tail _ taken induction =>
    rcases taken with ⟨actor, input, -, -, -, rfl⟩
    by_cases same : id = actor
    · subst same
      rw [Group.act_nodes_self]
      exact induction.trans (voteStep _ input).term_le
    · rw [Group.act_nodes_other _ input same]
      exact induction

/-- Election safety. In every run of a group with consistent peer lists, over a
network that may lose, duplicate, delay and reorder messages: two nodes that
ever lead in one term are the same node, no node's term decreases, no node
grants its vote to two candidates in one term, and a node that itself campaigns
or leads in a term grants its vote to no other in that term. -/
theorem raft_election_safety (membership : Membership) (allowed : Input → Prop)
    (earlier later : Group) (reachable : Group.Reachable membership allowed earlier)
    (run : Group.Run membership allowed earlier later) :
    (∀ left ∈ membership.members, ∀ right ∈ membership.members,
      (earlier.nodes left).role = .leader → (later.nodes right).role = .leader →
      (earlier.nodes left).currentTerm = (later.nodes right).currentTerm → left = right) ∧
    (∀ id ∈ membership.members,
      (earlier.nodes id).currentTerm ≤ (later.nodes id).currentTerm) ∧
    (∀ voter left right term, (voter, left, .vote term true) ∈ later.replies →
      (voter, right, .vote term true) ∈ later.replies → left = right) ∧
    (∀ voter ∈ membership.members, ∀ candidate,
      (earlier.nodes voter).role ≠ .follower →
      (voter, candidate, .vote (earlier.nodes voter).currentTerm true) ∈ later.replies →
      candidate = voter) := by
  rcases ElectionInv.of_reachable reachable with ⟨history, before⟩
  rcases before.run run with ⟨final, grows, after⟩
  refine ⟨?_, ?_, ?_, ?_⟩
  · intro left leftMember right rightMember leftLeads rightLeads sameTerm
    have leftWon := (before.won_of_leader leftMember leftLeads).mono grows
    have rightWon := after.won_of_leader rightMember rightLeads
    rw [sameTerm] at leftWon
    exact leftWon.unique rightWon
  · intro id _
    exact currentTerm_le_of_run run id
  · intro voter left right term leftGranted rightGranted
    have leftCast := after.granted voter left term leftGranted
    have rightCast := after.granted voter right term rightGranted
    exact Option.some.inj (leftCast.symm.trans rightCast)
  · intro voter member candidate campaigns granted
    have own := before.recorded voter member voter (before.own_vote voter member campaigns)
    have cast := after.granted voter candidate _ granted
    exact Option.some.inj (cast.symm.trans (grows _ _ _ own))

/-- Two nodes that time out after one tick. -/
def pair : Membership where
  members := {1, 2}
  peers id := if id = 1 then [2] else [1]
  cfg _ := { electionTimeoutMin := 1, electionTimeoutMax := 1, heartbeatTimeout := 1 }
  peers_nodup := by simp
  mem_peers := by
    intro id member peer
    rcases Finset.mem_insert.mp member with rfl | member
    · simp
      grind
    · cases Finset.mem_singleton.mp member
      simp
      grind

/-- The pair after node 1 has timed out, asked node 2 and won. -/
def pairElected : Group :=
  (((Group.init pair).act 1 .tick).act 2 (.request 1 (.requestVote 1 1 0 0))).act 1
    (.reply 2 (.vote 1 true))

theorem pairElected_reachable :
    Group.Reachable pair (fun input => input.isCompact = false) pairElected := by
  have asked : Group.Step pair (fun input => input.isCompact = false) (Group.init pair)
      ((Group.init pair).act 1 .tick) :=
    ⟨1, .tick, by decide, rfl, trivial, rfl⟩
  have granted : Group.Step pair (fun input => input.isCompact = false)
      ((Group.init pair).act 1 .tick)
      (((Group.init pair).act 1 .tick).act 2 (.request 1 (.requestVote 1 1 0 0))) :=
    ⟨2, .request 1 (.requestVote 1 1 0 0), by decide, rfl, .inr ⟨rfl, by decide⟩, rfl⟩
  have won : Group.Step pair (fun input => input.isCompact = false)
      (((Group.init pair).act 1 .tick).act 2 (.request 1 (.requestVote 1 1 0 0)))
      pairElected :=
    ⟨1, .reply 2 (.vote 1 true), by decide, rfl, .inr ⟨rfl, rfl⟩, rfl⟩
  exact ((Relation.ReflTransGen.single asked).tail granted).tail won

theorem raft_election_safety_pairElected :
    (pairElected.nodes 1).role = .leader ∧
    ∀ other ∈ pair.members, (pairElected.nodes other).role = .leader →
      (pairElected.nodes 1).currentTerm = (pairElected.nodes other).currentTerm → 1 = other :=
  ⟨by rfl, fun other member leads =>
    (raft_election_safety pair (fun input => input.isCompact = false) pairElected pairElected
      pairElected_reachable .refl).1 1 (by decide) other member (by rfl) leads⟩

end GStore.Cluster
