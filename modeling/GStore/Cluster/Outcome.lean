import GStore.Cluster.Replication

/-! # What a step of a node adds to the history

Without compaction, every step of a node extends the history of ballots, and
every message it sends is a true statement about it. -/

namespace GStore.Cluster

open RaftState Ballots

/-! ## What a message says about the history -/

def RequestOk (members : Finset NodeId) (history : History) : RaftMsg → Prop
  | .requestVote term candidateId lastLogIndex lastLogTerm =>
    history.votes candidateId term = some candidateId ∧
    lastLogIndex = (history.voteLog candidateId term).length ∧
    lastLogTerm = lastTerm LogEntry.term (history.voteLog candidateId term)
  | .appendEntries term _ prevLogIndex prevLogTerm leaderCommit entries =>
    history.leader term ≠ none ∧ leaderCommit ≤ prevLogIndex + entries.length ∧
    ∃ front, front.length = prevLogIndex ∧ lastTerm LogEntry.term front = prevLogTerm ∧
      front ++ entries <+: history.logs term ∧
      Committed LogEntry.term members history term ((front ++ entries).take leaderCommit)
  -- Without compaction nobody ever falls behind a snapshot.
  | .installSnapshot _ _ _ _ _ => False

def ReplyOk (history : History) (source : NodeId) : RaftReply → Prop
  | .vote _ _ => True
  | .append term success matchIndex => success = true → matchIndex ≤ history.accepted source term
  | .snapshot _ => False

def EmittedOk (members : Finset NodeId) (history : History) (index : Nat) (op : LogOp) : Prop :=
  ∃ term front, Committed LogEntry.term members history term front ∧ 0 < index ∧
    (front[index - 1]?).map LogEntry.op = some op

variable {members : Finset NodeId} {history later : History} {state : RaftState}

theorem RequestOk.mono {msg : RaftMsg} (ok : RequestOk members history msg)
    (grows : Extends LogEntry.term history later) : RequestOk members later msg := by
  cases msg with
  | requestVote term candidateId lastLogIndex lastLogTerm =>
    rcases ok with ⟨cast, index, lastTerm⟩
    rcases grows.votes _ _ _ cast with ⟨kept, sameLog⟩
    rw [RequestOk, sameLog]
    exact ⟨kept, index, lastTerm⟩
  | appendEntries term leaderId prevLogIndex prevLogTerm leaderCommit entries =>
    rcases ok with ⟨led, commit, front, length, lastTerm, sent, committed⟩
    rcases Option.ne_none_iff_exists'.mp led with ⟨leader, leads⟩
    exact ⟨by simp [(grows.leader _ _ leads).1], commit, front, length, lastTerm,
      sent.trans (grows.logs term), committed.mono grows (le_refl _)⟩
  | installSnapshot => exact ok

theorem ReplyOk.mono {source : NodeId} {reply : RaftReply} (ok : ReplyOk history source reply)
    (grows : Extends LogEntry.term history later) : ReplyOk later source reply := by
  cases reply with
  | vote => exact ok
  | append term success matchIndex =>
    intro succeeded
    exact (ok succeeded).trans (grows.accepted source term)
  | snapshot => exact ok

theorem EmittedOk.mono {index : Nat} {op : LogOp} (ok : EmittedOk members history index op)
    (grows : Extends LogEntry.term history later) : EmittedOk members later index op := by
  rcases ok with ⟨term, front, committed, positive, entry⟩
  exact ⟨term, front, committed.mono grows (le_refl _), positive, entry⟩

/-- Nothing is ever emitted twice in different ways at one index. -/
theorem EmittedOk.unique (consistent : Consistent LogEntry.term members history) {index : Nat}
    {left right : LogOp} (leftOk : EmittedOk members history index left)
    (rightOk : EmittedOk members history index right) : left = right := by
  rcases leftOk with ⟨leftTerm, leftFront, leftCommitted, -, leftEntry⟩
  rcases rightOk with ⟨rightTerm, rightFront, rightCommitted, -, rightEntry⟩
  rcases Option.map_eq_some_iff.mp leftEntry with ⟨leftLog, leftAt, rfl⟩
  rcases Option.map_eq_some_iff.mp rightEntry with ⟨rightLog, rightAt, rfl⟩
  rcases leftCommitted.comparable consistent rightCommitted with inside | inside
  · rcases inside with ⟨rest, rfl⟩
    rw [List.getElem?_append_left (List.getElem?_eq_some_iff.mp leftAt).1, leftAt] at rightAt
    rw [Option.some.inj rightAt]
  · rcases inside with ⟨rest, rfl⟩
    rw [List.getElem?_append_left (List.getElem?_eq_some_iff.mp rightAt).1, rightAt] at leftAt
    rw [Option.some.inj leftAt]

/-! ## The code's indexes and the logs -/

theorem termAt_eq (baseIndex : state.baseIndex = 0) {index : Nat}
    (within : index ≤ state.log.length) :
    state.termAt index = lastTerm LogEntry.term (state.log.take index) := by
  cases index with
  | zero => simp [termAt]
  | succ index =>
    rw [← List.take_append_getElem within, lastTerm_append_singleton]
    simp [termAt, baseIndex, List.getElem?_eq_getElem within]

theorem lastLogTerm_eq (baseTerm : state.baseTerm = 0) :
    state.lastLogTerm = lastTerm LogEntry.term state.log := by
  rw [lastLogTerm, baseTerm, lastTerm]

theorem appendFrom_log (entries : List LogEntry) :
    ∀ (state : RaftState) (index : Nat), state.baseIndex = 0 → index ≤ state.log.length →
      (state.appendFrom (index + 1) entries).log =
        overwrite LogEntry.term state.log index entries := by
  induction entries with
  | nil => intro state index _ _; rfl
  | cons entry rest induction =>
    intro state index baseIndex within
    have entered : (state.appendEntry (index + 1) entry).baseIndex = 0 := by
      rw [appendEntry_eq]
      exact baseIndex
    have written : (state.appendEntry (index + 1) entry).log =
        overwriteAt LogEntry.term state.log index entry := by
      by_cases inside : index < state.log.length
      · simp only [appendEntry, lastLogIndex, baseIndex, termAt, overwriteAt,
          List.getElem?_eq_getElem inside]
        simp [Nat.succ_le_of_lt inside, List.getElem?_eq_getElem inside]
        split <;> rfl
      · have past : state.log[index]? = none := List.getElem?_eq_none (by omega)
        have notInside : ¬ index + 1 ≤ state.log.length := by omega
        simp [appendEntry, lastLogIndex, baseIndex, overwriteAt, past, notInside]
    have reaches : index + 1 ≤ (state.appendEntry (index + 1) entry).log.length := by
      rw [written, overwriteAt]
      split
      · next old found =>
          have inside := (List.getElem?_eq_some_iff.mp found).1
          split
          · simp
            omega
          · omega
      · simp
        omega
    rw [appendFrom, induction _ (index + 1) entered reaches, written, overwrite]

/-! ## What a leader sends -/

theorem replicateTo_ok (inv : NodeInv members history state.id state.view) {peer : NodeId}
    {sent : Outgoing} (sends : state.replicateTo peer = some sent) :
    RequestOk members history sent.msg := by
  have baseIndex : state.baseIndex = 0 := inv.baseIndex_eq
  have commitBound : state.commitIndex ≤ state.log.length := inv.commit_le
  rcases state.replicateTo_cases sends with ⟨isLeader, -, kinds⟩
  have leads := inv.leads isLeader
  have logsEq : history.logs state.currentTerm = state.log := leads.logs_eq
  have bounds : 1 ≤ (state.nextIndex peer).getD (state.lastLogIndex + 1) ∧
      (state.nextIndex peer).getD (state.lastLogIndex + 1) ≤ state.log.length + 1 := by
    cases known : state.nextIndex peer with
    | none => simp [lastLogIndex, baseIndex]
    | some index => exact leads.next peer index known
  rcases kinds with ⟨-, behind⟩ | ⟨next, nextEq, -, msg⟩
  · omega
  · rw [← nextEq] at bounds
    have within : next - 1 ≤ state.log.length := by omega
    rw [msg, baseIndex, Nat.sub_zero]
    have leaderEq : history.leader state.currentTerm = some state.id := leads.leader_eq
    refine ⟨by simp [leaderEq], ?_, state.log.take (next - 1), ?_, ?_, ?_, ?_⟩
    · rw [List.length_drop]
      omega
    · exact List.length_take_of_le within
    · exact (termAt_eq baseIndex within).symm
    · rw [List.take_append_drop, logsEq]
    · rw [List.take_append_drop]
      exact inv.committed

theorem replicate_ok (inv : NodeInv members history state.id state.view) {sent : Outgoing}
    (member : sent ∈ state.replicate.2) : RequestOk members history sent.msg := by
  rcases state.mem_replicate member with ⟨peer, -, sends⟩
  exact replicateTo_ok inv sends

/-! ## One step and the history -/

/-- A member that agrees with the history, before a step. -/
structure Ready (membership : Membership) (history : History) (state : RaftState) : Prop where
  member : state.id ∈ membership.members
  peers_eq : state.peers = membership.peers state.id
  consistent : Consistent LogEntry.term membership.members history
  node : NodeInv membership.members history state.id state.view
  voted : ∀ t candidate, history.votes state.id t = some candidate → t ≤ state.currentTerm
  recorded : ∀ candidate, state.votedFor = some candidate →
    history.votes state.id state.currentTerm = some candidate
  own_vote : state.role ≠ .follower → state.votedFor = some state.id

/-- The history with the vote that `after` shows, and the log it was cast with. -/
def recordVote (history : History) (before after : RaftState) : History :=
  history.castVote before.id after.currentTerm after.votedFor before.log

/-- What a step of the node leaves behind. -/
structure Outcome (members : Finset NodeId) (history : History) (before : RaftState)
    (effect : Effect) (later : History) : Prop where
  grows : ExtendsBy LogEntry.term before.id history later
  votes_eq : later.votes = (recordVote history before effect.state).votes
  consistent : Consistent LogEntry.term members later
  node : NodeInv members later before.id effect.state.view
  requests : ∀ sent ∈ effect.requests, RequestOk members later sent.msg
  reply : ∀ target reply, effect.reply = some (target, reply) → ReplyOk later before.id reply
  emitted : ∀ index op, (index, op) ∈ effect.emitted → EmittedOk members later index op
  commit_le : before.commitIndex ≤ effect.state.commitIndex
  applied_le : before.lastApplied ≤ effect.state.lastApplied

namespace Ready

variable {membership : Membership} {state after : RaftState}

theorem latest (ready : Ready membership history state) {u : Nat} (newer : state.currentTerm < u) :
    history.votes state.id u = none := by
  by_contra cast
  rcases Option.ne_none_iff_exists'.mp cast with ⟨candidate, cast⟩
  have bound := ready.voted u candidate cast
  omega

theorem kept (ready : Ready membership history state) (campaigns : state.role ≠ .follower) :
    history.votes state.id state.currentTerm ≠ none := by
  rw [ready.recorded _ (ready.own_vote campaigns)]
  simp

theorem latest_recordVote (ready : Ready membership history state)
    (atLeast : state.currentTerm ≤ after.currentTerm) {u : Nat} (newer : after.currentTerm < u) :
    (recordVote history state after).votes state.id u = none := by
  have fresh := ready.latest (atLeast.trans_lt newer)
  simp [recordVote, Ballots.castVote, fresh, Nat.ne_of_gt newer]

theorem recordVote_grows (history : History) (state after : RaftState) :
    ExtendsBy LogEntry.term state.id history (recordVote history state after) :=
  castVote_extends _ _ _ _ _ _

/-- The node's part of the history does not depend on votes. -/
theorem node_recordVote (ready : Ready membership history state) (after : RaftState) :
    NodeInv membership.members (recordVote history state after) state.id state.view :=
  ready.node.castVote ready.kept

/-- A step that casts no vote. -/
def Quiet (before after : RaftState) : Prop :=
  (after.currentTerm = before.currentTerm ∧ after.votedFor = before.votedFor) ∨
    (before.currentTerm < after.currentTerm ∧ after.votedFor = none)

theorem consistent_of_quiet (ready : Ready membership history state) (quiet : Quiet state after) :
    Consistent LogEntry.term membership.members (recordVote history state after) := by
  apply ready.consistent.castVote
  intro candidate isVote fresh
  rcases quiet with ⟨sameTerm, sameVote⟩ | ⟨-, free⟩
  · rw [sameTerm, ready.recorded candidate (sameVote ▸ isVote)] at fresh
    cases fresh
  · rw [free] at isVote
    cases isVote

/-- What a node has accepted before a term it moves to. -/
theorem held_until (ready : Ready membership history state) {t : Nat}
    (atLeast : state.currentTerm ≤ t) :
    ∀ s < t, ∀ value, value <+: history.logs s → value.length ≤ history.accepted state.id s →
      value <+: state.log ∨ history.Superseded value s (t + 1) := by
  intro s _ value within accepted
  rcases ready.node.held s value within accepted with held | ⟨u, after, before, led, differs⟩
  · exact .inl held
  · have bound : u < state.currentTerm + 1 := before
    exact .inr ⟨u, after, by omega, led, differs⟩

/-- The outcome of a step that casts no vote and adds nothing else to the history. -/
theorem outcome_of_quiet (ready : Ready membership history state) {requests : List Outgoing}
    {reply : Option (NodeId × RaftReply)} (quiet : Quiet state after)
    (node : NodeInv membership.members (recordVote history state after) state.id after.view)
    (requestsOk : ∀ sent ∈ requests,
      RequestOk membership.members (recordVote history state after) sent.msg)
    (replyOk : ∀ target answer, reply = some (target, answer) →
      ReplyOk (recordVote history state after) state.id answer)
    (commit_le : state.commitIndex ≤ after.commitIndex)
    (applied_le : state.lastApplied ≤ after.lastApplied) :
    ∃ later, Outcome membership.members history state
      { state := after, requests, reply, emitted := [] } later :=
  ⟨_,
    { grows := recordVote_grows history state after
      votes_eq := rfl
      consistent := ready.consistent_of_quiet quiet
      node := node
      requests := requestsOk
      reply := replyOk
      emitted := fun _ _ member => by simp at member
      commit_le := commit_le
      applied_le := applied_le }⟩

end Ready

/-! ## Winning an election -/

/-- A candidate with a majority of votes in the history becomes its leader. -/
theorem lead_node {asking : RaftState}
    (consistent : Consistent LogEntry.term members history)
    (inv : NodeInv members history asking.id asking.view)
    (isCandidate : asking.role = .candidate)
    (own : history.votes asking.id asking.currentTerm = some asking.id)
    (latest : ∀ u, asking.currentTerm < u → history.votes asking.id u = none)
    (granted : ∀ voter ∈ asking.votesGranted, voter ∈ members ∧
      history.votes voter asking.currentTerm = some asking.id)
    (majority : members.card / 2 + 1 ≤ asking.votesGranted.card) :
    ∃ later, ExtendsBy LogEntry.term asking.id history later ∧ later.votes = history.votes ∧
      Consistent LogEntry.term members later ∧
      NodeInv members later asking.id asking.lead.view := by
  have subset : asking.votesGranted ⊆ members := fun voter member => (granted voter member).1
  -- Another leader of this term would share a voter with this candidate.
  have idle : history.leader asking.currentTerm = none := by
    by_contra led
    rcases Option.ne_none_iff_exists'.mp led with ⟨leader, leads⟩
    rcases consistent.elected _ leader leads with ⟨quorumSubset, quorumMajority, cast, -, -⟩
    rcases exists_mem_of_majorities subset quorumSubset majority quorumMajority with
      ⟨voter, ours, theirs⟩
    have same : leader = asking.id :=
      Option.some.inj ((cast voter theirs).symm.trans (granted voter ours).2)
    rcases inv.led _ (same ▸ leads) with before | ⟨-, notCandidate⟩
    · exact absurd before (lt_irrefl _)
    · exact notCandidate isCandidate
  have electGrows := elect_extends asking.id consistent idle asking.votesGranted
  have elected := consistent.elect idle subset majority
    (fun voter member => (granted voter member).2) own latest
  have leads := inv.elect consistent isCandidate idle asking.votesGranted
  have baseIndex : asking.baseIndex = 0 := inv.baseIndex_eq
  by_cases uncommitted : asking.lastLogIndex > asking.commitIndex
  · have leaderEq := (leads.leads rfl).leader_eq
    have stamped : (LogEntry.mk asking.currentTerm .noop).term = asking.view.currentTerm := rfl
    refine ⟨_, electGrows.trans (extend_extends elected leaderEq stamped), rfl,
      elected.extend leaderEq stamped latest, ?_⟩
    have tracked := (leads.extend elected rfl stamped).track_new asking.peers
      (Nat.le_add_left 1 _) (le_refl _)
    simpa [lead, RaftState.view, uncommitted, baseIndex] using tracked
  · refine ⟨_, electGrows, rfl, elected, ?_⟩
    have tracked := leads.track_new asking.peers (Nat.le_add_left 1 _) (le_refl _)
    simpa [lead, RaftState.view, uncommitted, baseIndex] using tracked

/-- The votes a node holds after a step are votes of the history. -/
structure Elects (members : Finset NodeId) (history : History) (before after : RaftState) :
    Prop where
  granted : after.role ≠ .follower → ∀ voter ∈ after.votesGranted, voter ∈ members ∧
    (recordVote history before after).votes voter after.currentTerm = some before.id
  majority : after.role = .leader → members.card / 2 + 1 ≤ after.votesGranted.card

namespace Ready

variable {membership : Membership} {state after : RaftState} {reply : Option (NodeId × RaftReply)}

theorem outcome_of_lead {asking : RaftState} (ready : Ready membership history state)
    (id_eq : asking.id = state.id) (term_le : state.currentTerm ≤ asking.currentTerm)
    (consistent : Consistent LogEntry.term membership.members (recordVote history state asking))
    (node : NodeInv membership.members (recordVote history state asking) state.id asking.view)
    (isCandidate : asking.role = .candidate)
    (own : (recordVote history state asking).votes state.id asking.currentTerm = some state.id)
    (commit_le : state.commitIndex ≤ asking.commitIndex)
    (applied_le : state.lastApplied ≤ asking.lastApplied)
    (elects : Elects membership.members history state asking.becomeLeader.1) :
    ∃ later, Outcome membership.members history state
      { state := asking.becomeLeader.1, requests := asking.becomeLeader.2,
        reply := none, emitted := [] } later := by
  rw [becomeLeader_eq] at elects ⊢
  rw [← id_eq] at node own
  rcases lead_node consistent node isCandidate own
    (fun u newer => by rw [id_eq]; exact ready.latest_recordVote term_le newer)
    (fun voter member => by rw [id_eq]; exact elects.granted (by simp [replicate, lead]) voter member)
    (elects.majority (by simp [replicate, lead])) with ⟨later, grows, votes, consistentLater, leads⟩
  refine ⟨later, ?_⟩
  constructor
  · rw [id_eq] at grows
    exact (recordVote_grows history state asking).trans grows
  · exact votes
  · exact consistentLater
  · rw [← id_eq]
    exact leads
  · intro sent member
    exact replicate_ok leads member
  · intro target reply answered
    cases answered
  · intro index op member
    simp at member
  · exact commit_le
  · exact applied_le

theorem outcome_startElection (ready : Ready membership history state)
    (elects : Elects membership.members history state state.startElection.1) :
    ∃ later, Outcome membership.members history state
      { state := state.startElection.1, requests := state.startElection.2,
        reply := none, emitted := [] } later := by
  have fresh : history.votes state.id (state.currentTerm + 1) = none :=
    ready.latest (Nat.lt_succ_self _)
  have mayVote : MayVote LogEntry.term history state.id (state.currentTerm + 1) state.log
      state.id :=
    { backed := ready.node.backed
      ascends := ready.node.ascends
      asked := .inl ⟨rfl, fun entry member => Nat.lt_succ_of_le (ready.node.bounded entry member)⟩
      held := ready.held_until (Nat.le_succ _) }
  have consistent : Consistent LogEntry.term membership.members
      (history.castVote state.id (state.currentTerm + 1) (some state.id) state.log) := by
    apply ready.consistent.castVote
    intro candidate isVote _
    cases isVote
    exact mayVote
  have node := ready.node.campaign fresh
  have own : (history.castVote state.id (state.currentTerm + 1) (some state.id)
      state.log).votes state.id (state.currentTerm + 1) = some state.id := by
    simp [Ballots.castVote, fresh]
  have ownLog : (history.castVote state.id (state.currentTerm + 1) (some state.id)
      state.log).voteLog state.id (state.currentTerm + 1) = state.log := by
    simp [Ballots.castVote, fresh]
  have baseIndex : state.baseIndex = 0 := ready.node.baseIndex_eq
  have baseTerm : state.baseTerm = 0 := ready.node.baseTerm_eq
  simp only [startElection] at elects ⊢
  split at elects
  · next wins =>
      rw [if_pos wins]
      apply ready.outcome_of_lead
      · rfl
      · exact Nat.le_succ _
      · exact consistent
      · exact node
      · rfl
      · exact own
      · exact le_refl _
      · exact le_refl _
      · exact elects
  · next waits =>
      rw [if_neg waits]
      refine ⟨_, recordVote_grows _ _ _, rfl, consistent, node, ?_, ?_, ?_, le_refl _, le_refl _⟩
      · intro sent member
        rcases List.mem_map.mp member with ⟨peer, -, rfl⟩
        refine ⟨own, ?_, ?_⟩
        · change state.baseIndex + state.log.length = _
          rw [baseIndex, Nat.zero_add]
          exact congrArg List.length ownLog.symm
        · change state.lastLogTerm = _
          rw [lastLogTerm_eq baseTerm]
          exact congrArg _ ownLog.symm
      · intro target reply answered
        cases answered
      · intro index op member
        simp at member

/-! ## Inputs that leave the log alone -/

/-- The node does not move; a leader may send what it holds. -/
theorem outcome_of_unchanged (ready : Ready membership history state) {requests : List Outgoing}
    (sameTerm : after.currentTerm = state.currentTerm) (sameVote : after.votedFor = state.votedFor)
    (sameView : after.view = state.view)
    (sends : ∀ sent ∈ requests, ∃ peer, state.replicateTo peer = some sent)
    (replyOk : ∀ target answer, reply = some (target, answer) →
      ∀ history, ReplyOk history state.id answer) :
    ∃ later, Outcome membership.members history state
      { state := after, requests, reply, emitted := [] } later := by
  have node := ready.node_recordVote after
  apply ready.outcome_of_quiet
  · exact .inl ⟨sameTerm, sameVote⟩
  · rw [sameView]
    exact node
  · intro sent member
    rcases sends sent member with ⟨peer, sending⟩
    exact replicateTo_ok node sending
  · intro target answer answered
    exact replyOk target answer answered _
  · exact (congrArg View.commitIndex sameView).ge
  · exact (congrArg View.lastApplied sameView).ge

/-- The node becomes, or stays, a follower. -/
theorem outcome_of_stepDown (ready : Ready membership history state) (quiet : Quiet state after)
    (newView : after.view = { state.view with role := .follower, currentTerm := after.currentTerm })
    (replyOk : ∀ target answer, reply = some (target, answer) →
      ∀ history, ReplyOk history state.id answer) :
    ∃ later, Outcome membership.members history state
      { state := after, requests := [], reply, emitted := [] } later := by
  have term_le : state.view.currentTerm ≤ after.currentTerm := by
    rcases quiet with ⟨same, -⟩ | ⟨newer, -⟩
    · exact same.ge
    · exact newer.le
  apply ready.outcome_of_quiet quiet
  · rw [newView]
    exact (ready.node_recordVote after).stepDown term_le
  · intro sent member
    cases member
  · intro target answer answered
    exact replyOk target answer answered _
  · exact (congrArg View.commitIndex newView).ge
  · exact (congrArg View.lastApplied newView).ge

theorem outcome_of_observe (ready : Ready membership history state) {term : Nat}
    (newer : term > state.currentTerm)
    (replyOk : ∀ target answer, reply = some (target, answer) →
      ∀ history, ReplyOk history state.id answer) :
    ∃ later, Outcome membership.members history state
      { state := state.observeTerm term, requests := [], reply, emitted := [] } later := by
  apply ready.outcome_of_stepDown
  · right
    simp [observeTerm, newer]
  · simp [observeTerm, newer, RaftState.view]
  · exact replyOk

theorem outcome_tick (ready : Ready membership history state)
    (elects : Elects membership.members history state (state.step .tick).state) :
    ∃ later, Outcome membership.members history state (state.step .tick) later := by
  have waiting : Ready membership history
      { state with electionElapsed := state.electionElapsed + 1 } :=
    ⟨ready.member, ready.peers_eq, ready.consistent, ready.node, ready.voted, ready.recorded,
      ready.own_vote⟩
  simp only [step, tick] at elects ⊢
  split at elects
  · split
    · refine ready.outcome_of_unchanged (by rfl) (by rfl) (by rfl) ?_ ?_
      · intro sent member
        rcases mem_replicate _ member with ⟨peer, -, sends⟩
        exact ⟨peer, sends⟩
      · simp
    · refine ready.outcome_of_unchanged (by rfl) (by rfl) (by rfl) ?_ ?_ <;> simp
  all_goals
    split at elects
    · next timeout =>
        rw [if_pos timeout]
        rcases waiting.outcome_startElection ⟨elects.granted, elects.majority⟩ with
          ⟨later, outcome⟩
        exact ⟨later, outcome.grows, outcome.votes_eq, outcome.consistent, outcome.node,
          outcome.requests, outcome.reply, outcome.emitted, outcome.commit_le,
          outcome.applied_le⟩
    · next early =>
        rw [if_neg early]
        refine ready.outcome_of_unchanged (by rfl) (by rfl) (by rfl) ?_ ?_ <;> simp

theorem outcome_replicateNow (ready : Ready membership history state) :
    ∃ later, Outcome membership.members history state (state.step .replicateNow) later := by
  simp only [step, replicateNow]
  split
  · refine ready.outcome_of_unchanged (by rfl) (by rfl) (by rfl) ?_ ?_
    · intro sent member
      rcases mem_replicate _ member with ⟨peer, -, sends⟩
      exact ⟨peer, sends⟩
    · simp
  · refine ready.outcome_of_unchanged (by rfl) (by rfl) (by rfl) ?_ ?_ <;> simp

theorem outcome_noteRevived (ready : Ready membership history state) :
    ∃ later, Outcome membership.members history state (state.step .noteRevived) later := by
  simp only [step, noteRevived]
  split
  · apply ready.outcome_of_stepDown
    · exact .inl ⟨rfl, rfl⟩
    · rfl
    · simp
  · refine ready.outcome_of_unchanged (by rfl) (by rfl) (by rfl) ?_ ?_ <;> simp

theorem outcome_drainApply (ready : Ready membership history state) :
    ∃ later, Outcome membership.members history state (state.step .drainApply) later := by
  have baseIndex : state.baseIndex = 0 := ready.node.baseIndex_eq
  have node : NodeInv membership.members (recordVote history state state.drainApply.1) state.id
      state.view := ready.node_recordVote _
  refine ⟨_, recordVote_grows _ _ _, rfl, ready.consistent_of_quiet (.inl ⟨rfl, rfl⟩),
    node.apply, ?_, ?_, ?_, le_refl _, le_max_left _ _⟩
  · intro sent member
    cases member
  · intro target answer answered
    cases answered
  · intro index op member
    rcases List.mem_filterMap.mp member with ⟨applied, range, found⟩
    rcases Option.map_eq_some_iff.mp found with ⟨operation, atIndex, pairEq⟩
    cases pairEq
    rw [List.mem_range'_1] at range
    refine ⟨_, _, node.committed, by omega, ?_⟩
    simp only [opAt, baseIndex] at atIndex
    rw [if_neg (by omega)] at atIndex
    have inside : index - 1 < state.commitIndex := by omega
    change ((state.log.take state.commitIndex)[index - 1]?).map LogEntry.op = some op
    rw [List.getElem?_take_of_lt inside]
    exact atIndex

/-! ## Requests -/

theorem outcome_requestVote (ready : Ready membership history state) {source : NodeId}
    {term : Nat} {candidateId : NodeId} {lastLogIndex lastLogTerm : Nat}
    (ok : RequestOk membership.members history
      (.requestVote term candidateId lastLogIndex lastLogTerm)) :
    ∃ later, Outcome membership.members history state
      (state.step (.request source
        (.requestVote term candidateId lastLogIndex lastLogTerm))) later := by
  have baseIndex : state.baseIndex = 0 := ready.node.baseIndex_eq
  have baseTerm : state.baseTerm = 0 := ready.node.baseTerm_eq
  rcases ok with ⟨own, lastIndexEq, lastTermEq⟩
  simp only [step, handle, handleRequestVote]
  split
  · refine ready.outcome_of_unchanged (by rfl) (by rfl) (by rfl) ?_ ?_ <;> simp [ReplyOk]
  · next atLeast =>
      have term_le : state.currentTerm ≤ term := by omega
      have observedTerm := state.observeTerm_currentTerm atLeast
      split
      · next grants =>
          have mayVote : history.votes state.id term = none →
              MayVote LogEntry.term history state.id term state.log candidateId := by
            intro fresh
            refine ⟨ready.node.backed, ready.node.ascends, .inr ⟨?_, own, ?_⟩,
              ready.held_until term_le⟩
            · rintro rfl
              rw [fresh] at own
              cases own
            · have upToDate := grants.2
              rw [lastIndexEq, lastTermEq] at upToDate
              simp only [RaftState.lastLogTerm, RaftState.lastLogIndex, observeTerm_log,
                observeTerm_baseTerm, observeTerm_baseIndex, baseIndex, baseTerm] at upToDate
              simpa [UpToDate, lastTerm, eq_comm] using upToDate
          refine ⟨history.castVote state.id term (some candidateId) state.log,
            castVote_extends _ _ _ _ _ _, ?_, ?_, ?_, ?_, ?_, ?_, ?_, ?_⟩
          · simp [recordVote, observedTerm]
          · apply ready.consistent.castVote
            intro candidate isVote fresh
            cases isVote
            exact mayVote fresh
          · have node : NodeInv membership.members
                (history.castVote state.id term (some candidateId) state.log) state.id
                { state.view with role := .follower, currentTerm := term } :=
              (ready.node.stepDown term_le).castVote (by simp)
            simpa [RaftState.view, observedTerm] using node
          · simp
          · simp [ReplyOk]
          · simp
          · simp
          · simp
      · rcases state.observeTerm_cases atLeast with ⟨same, equal⟩ | ⟨newer, -, -⟩
        · rw [equal]
          refine ready.outcome_of_unchanged (by rfl) (by rfl) (by rfl) ?_ ?_ <;> simp [ReplyOk]
        · apply ready.outcome_of_observe newer
          simp [ReplyOk]

/-- A follower whose entry before the new ones matches holds all the leader has
up to there. -/
theorem front_prefix {log front entries : List LogEntry} {t : Nat}
    (consistent : Consistent LogEntry.term members history)
    (backed : Backed LogEntry.term history.logs log)
    (sent : front ++ entries <+: history.logs t) (reaches : front.length ≤ log.length)
    (matched : front.length = 0 ∨
      lastTerm LogEntry.term (log.take front.length) = lastTerm LogEntry.term front) :
    front <+: log := by
  rcases List.eq_nil_or_concat front with rfl | ⟨start, entry, rfl⟩
  · exact List.nil_prefix
  · rw [List.concat_eq_append] at *
    rw [List.length_append, List.length_singleton] at reaches matched
    rw [← List.take_append_getElem reaches, lastTerm_append_singleton,
      lastTerm_append_singleton] at matched
    have sameTerm : log[start.length].term = entry.term := by
      rcases matched with empty | same
      · omega
      · exact same
    have ours : log.take start.length ++ [log[start.length]] <+: log := by
      rw [List.take_append_getElem reaches]
      exact List.take_prefix _ _
    have theirs := (List.prefix_append (start ++ [entry]) entries).trans sent
    have equal := backed.agree (consistent.logs_backed t) ours theirs
      (List.length_take_of_le (by omega)) sameTerm
    rw [← equal]
    exact ours

/-- What is left of an append once the follower has accepted the leader's term. -/
theorem outcome_accept {follower : RaftState} (ready : Ready membership history state)
    {source leaderId : NodeId} {term prevLogIndex prevLogTerm leaderCommit : Nat}
    {entries : List LogEntry}
    (ok : RequestOk membership.members history
      (.appendEntries term leaderId prevLogIndex prevLogTerm leaderCommit entries))
    (quiet : Quiet state follower) (termEq : follower.currentTerm = term)
    (newView : follower.view = { state.view with role := .follower, currentTerm := term })
    (reaches : ¬ prevLogIndex > follower.lastLogIndex)
    (matched : ¬ (prevLogIndex > follower.baseIndex ∧
      follower.termAt prevLogIndex ≠ prevLogTerm))
    {appended after : RaftState}
    (appendedEq : appended = follower.appendFrom (prevLogIndex + 1) entries)
    (afterEq : after =
      if leaderCommit > appended.commitIndex then
        { appended with commitIndex := min leaderCommit appended.lastLogIndex }
      else
        appended) :
    ∃ later, Outcome membership.members history state
      { state := after
        requests := []
        reply := some (source, .append after.currentTerm true (prevLogIndex + entries.length))
        emitted := [] } later := by
  have term_le : state.currentTerm ≤ term := by
    rcases quiet with ⟨same, -⟩ | ⟨newer, -⟩ <;> omega
  have baseIndex : follower.baseIndex = 0 :=
    (congrArg View.baseIndex newView).trans ready.node.baseIndex_eq
  have logEq : follower.log = state.log := congrArg View.log newView
  have within : prevLogIndex ≤ state.log.length := by
    rw [lastLogIndex, baseIndex, logEq] at reaches
    omega
  -- The history after the node's term, and after what it accepts.
  have consistent := ready.consistent_of_quiet quiet
  have node : NodeInv membership.members (recordVote history state follower) state.id
      { state.view with role := .follower, currentTerm := term } :=
    (ready.node_recordVote follower).stepDown term_le
  rcases ok.mono (recordVote_grows history state follower).toExtends with
    ⟨led, commitBound, front, lengthEq, lastTermEq, sent, committed⟩
  have frontMatches : front.length = 0 ∨
      lastTerm LogEntry.term (state.log.take front.length) = lastTerm LogEntry.term front := by
    by_cases empty : front.length = 0
    · exact .inl empty
    · right
      rw [lengthEq] at empty ⊢
      rw [← logEq, ← termAt_eq baseIndex (logEq ▸ within), lastTermEq]
      by_contra different
      exact matched ⟨by omega, different⟩
  have holds := front_prefix consistent node.backed sent (lengthEq ▸ within) frontMatches
  have accepted := node.accept consistent rfl led holds sent
  have latest : ∀ u, term < u → (recordVote history state follower).votes state.id u = none := by
    intro u newer
    exact ready.latest_recordVote (by omega) (by omega)
  have sentLength : front.length + entries.length ≤
      ((recordVote history state follower).logs term).length := by
    simpa using sent.length_le
  have grows := accept_extends LogEntry.term (recordVote history state follower) state.id term
    (front.length + entries.length)
  -- The state the code builds.
  have appendedLog : appended.log =
      overwrite LogEntry.term state.log front.length entries := by
    rw [appendedEq, appendFrom_log entries follower prevLogIndex baseIndex (logEq ▸ within),
      logEq, lengthEq]
  have appendedBase : appended = { follower with log := appended.log } := by
    rw [appendedEq]
    exact appendFrom_eq entries follower (prevLogIndex + 1)
  have appendedView : appended.view =
      { state.view with
        role := .follower
        currentTerm := term
        log := overwrite LogEntry.term state.log front.length entries } := by
    rw [← appendedLog, appendedBase]
    exact congrArg (fun view => { view with log := appended.log }) newView
  have appendedTerm : appended.currentTerm = term := congrArg View.currentTerm appendedView
  have appendedCommit : appended.commitIndex = state.commitIndex :=
    congrArg View.commitIndex appendedView
  have appendedApplied : appended.lastApplied = state.lastApplied :=
    congrArg View.lastApplied appendedView
  have appendedVote : appended.votedFor = follower.votedFor := by rw [appendedBase]
  have written : front ++ entries <+:
      overwrite LogEntry.term state.log front.length entries :=
    written_prefix_overwrite node.backed holds ((consistent.logs_backed term).ofPrefix sent)
  have reachesCommit : leaderCommit ≤
      (overwrite LogEntry.term state.log front.length entries).length := by
    have length := written.length_le
    rw [List.length_append] at length
    omega
  have lastIndex : appended.lastLogIndex =
      (overwrite LogEntry.term state.log front.length entries).length := by
    have appendedBaseIndex : appended.baseIndex = 0 := by
      rw [appendedBase]
      exact baseIndex
    rw [lastLogIndex, appendedBaseIndex, appendedLog, Nat.zero_add]
  have sameRecord : ∀ commitIndex, recordVote history state { appended with commitIndex } =
      recordVote history state follower := by
    intro commitIndex
    simp [recordVote, appendedTerm, appendedVote, termEq]
  have acknowledged : ∀ commitIndex, state.commitIndex ≤ commitIndex →
      NodeInv membership.members ((recordVote history state follower).accept state.id term
        (front.length + entries.length)) state.id
        { appended with commitIndex }.view →
      ∃ later, Outcome membership.members history state
        { state := { appended with commitIndex }
          requests := []
          reply := some (source,
            .append appended.currentTerm true (prevLogIndex + entries.length))
          emitted := [] } later := by
    intro commitIndex commit_le accepted
    refine ⟨_, (recordVote_grows history state follower).trans grows, ?_,
      consistent.accept sentLength latest, accepted, ?_, ?_, ?_, commit_le,
      appendedApplied.ge⟩
    · rw [sameRecord]
      rfl
    · intro sent member
      cases member
    · intro target reply answered
      cases answered
      intro _
      rw [accept_accepted, if_pos ⟨rfl, appendedTerm⟩, lengthEq]
      exact le_max_right _ _
    · intro index op member
      simp at member
  rw [afterEq]
  split
  · next advances =>
      rw [lastIndex, Nat.min_eq_left reachesCommit]
      have sameFront : (front ++ entries).take leaderCommit =
          (overwrite LogEntry.term state.log front.length entries).take leaderCommit := by
        rcases written with ⟨rest, whole⟩
        have inside : leaderCommit ≤ (front ++ entries).length := by
          rw [List.length_append, lengthEq]
          exact commitBound
        rw [← whole]
        exact (List.take_append_of_le_length inside).symm
      rw [sameFront] at committed
      have commit_le : state.commitIndex ≤ leaderCommit := by omega
      apply acknowledged
      · exact commit_le
      · have advanced := accepted.commit reachesCommit commit_le
          (committed.mono grows.toExtends (le_refl _))
        have newCommit : { appended with commitIndex := leaderCommit }.view =
            { appended.view with commitIndex := leaderCommit } := rfl
        rw [newCommit, appendedView]
        exact advanced
  · apply acknowledged appended.commitIndex
    · exact appendedCommit.ge
    · change NodeInv _ _ _ appended.view
      rw [appendedView]
      exact accepted

theorem outcome_appendEntries (ready : Ready membership history state) {source leaderId : NodeId}
    {term prevLogIndex prevLogTerm leaderCommit : Nat} {entries : List LogEntry}
    (ok : RequestOk membership.members history
      (.appendEntries term leaderId prevLogIndex prevLogTerm leaderCommit entries)) :
    ∃ later, Outcome membership.members history state
      (state.step (.request source
        (.appendEntries term leaderId prevLogIndex prevLogTerm leaderCommit entries)))
      later := by
  simp only [step, handle, handleAppendEntries]
  split
  · refine ready.outcome_of_unchanged (by rfl) (by rfl) (by rfl) ?_ ?_ <;> simp [ReplyOk]
  · next atLeast =>
      have observedTerm := state.observeTerm_currentTerm atLeast
      have quiet : Quiet state
          { state.observeTerm term with
            role := .follower
            leaderId := some leaderId }.resetElectionTimeout := by
        rcases state.observeTerm_cases atLeast with ⟨-, equal⟩ | ⟨newer, free, -⟩
        · rw [equal]
          exact .inl ⟨rfl, rfl⟩
        · right
          simp [observedTerm, newer, free]
      have newView :
          { state.observeTerm term with
            role := .follower
            leaderId := some leaderId }.resetElectionTimeout.view =
          { state.view with role := .follower, currentTerm := term } := by
        simp [RaftState.view, observedTerm]
      split
      · apply ready.outcome_of_stepDown quiet
        · simp [RaftState.view]
        · simp [ReplyOk]
      · next reaches =>
          split
          · apply ready.outcome_of_stepDown quiet
            · simp [RaftState.view]
            · simp [ReplyOk]
          · next matched =>
              exact ready.outcome_accept ok quiet observedTerm newView reaches matched rfl rfl

/-! ## The leader's own log -/

theorem mem_of_countP {peers : List NodeId} {holds : NodeId → Bool} {count : Nat}
    {id : NodeId} (nodup : peers.Nodup) (notSelf : id ∉ peers)
    (enough : count ≤ 1 + peers.countP holds) :
    ∃ voters : Finset NodeId, count ≤ voters.card ∧
      ∀ voter ∈ voters, voter = id ∨ (voter ∈ peers ∧ holds voter = true) := by
  refine ⟨insert id (peers.filter holds).toFinset, ?_, ?_⟩
  · have absent : id ∉ (peers.filter holds).toFinset := by
      simp [notSelf]
    rw [Finset.card_insert_of_notMem absent, List.toFinset_card_of_nodup (nodup.filter _),
      ← List.countP_eq_length_filter]
    omega
  · intro voter member
    rcases Finset.mem_insert.mp member with same | other
    · exact .inl same
    · right
      simpa using other

theorem commitSearch_cases (state : RaftState) (index : Nat) :
    state.commitSearch index = state.commitIndex ∨
    (state.commitIndex < state.commitSearch index ∧ state.commitSearch index ≤ index ∧
      state.termAt (state.commitSearch index) = state.currentTerm ∧
      state.replicationCount (state.commitSearch index) ≥ state.majority) := by
  induction index with
  | zero => exact .inl rfl
  | succ index induction =>
    rw [commitSearch]
    split
    · next above =>
        split
        · next replicated => exact .inr ⟨above, le_refl _, replicated.1, replicated.2⟩
        · rcases induction with same | ⟨further, bound, facts⟩
          · exact .inl same
          · exact .inr ⟨further, by omega, facts⟩
    · exact .inl rfl

/-- The commit rule: an entry of the leader's own term on a majority is chosen. -/
theorem node_advanceCommit (leader : RaftState)
    (member : leader.id ∈ membership.members)
    (peers_eq : leader.peers = membership.peers leader.id)
    (isLeader : leader.role = .leader)
    (inv : NodeInv membership.members history leader.id leader.view) :
    NodeInv membership.members history leader.id leader.advanceCommit.1.view ∧
      leader.commitIndex ≤ leader.advanceCommit.1.commitIndex := by
  have baseIndex : leader.baseIndex = 0 := inv.baseIndex_eq
  have leads := inv.leads isLeader
  have logsEq : history.logs leader.currentTerm = leader.log := leads.logs_eq
  have acceptedEq : history.accepted leader.id leader.currentTerm = leader.log.length :=
    leads.accepted_eq
  change NodeInv _ _ _
    { leader.view with commitIndex := leader.commitSearch leader.lastLogIndex } ∧
    leader.commitIndex ≤ leader.commitSearch leader.lastLogIndex
  rcases commitSearch_cases leader leader.lastLogIndex with
    same | ⟨above, bound, ownTerm, replicated⟩
  · rw [same]
    exact ⟨inv, le_refl _⟩
  · generalize leader.commitSearch leader.lastLogIndex = index at *
    refine ⟨?_, above.le⟩
    have within : index ≤ leader.log.length := by
      rw [lastLogIndex, baseIndex] at bound
      omega
    have notSelf : leader.id ∉ leader.peers := by
      rw [peers_eq, membership.mem_peers _ member]
      simp
    have nodup : leader.peers.Nodup := peers_eq ▸ membership.peers_nodup _ member
    rcases mem_of_countP nodup notSelf replicated with ⟨voters, majority, holders⟩
    apply inv.commit within above.le
    refine .inr ⟨leader.currentTerm, le_refl _, leader.log.take index, ⟨?_, ?_, ?_⟩,
      List.prefix_refl _⟩
    · rw [logsEq]
      exact List.take_prefix _ _
    · rcases Nat.exists_eq_succ_of_ne_zero (by omega : index ≠ 0) with ⟨previous, rfl⟩
      refine ⟨leader.log.take previous, leader.log[previous], ?_, ?_⟩
      · exact (List.take_append_getElem within).symm
      · rw [termAt_eq baseIndex within, ← List.take_append_getElem within,
          lastTerm_append_singleton] at ownTerm
        exact ownTerm
    · refine ⟨voters, ?_, ?_, ?_⟩
      · intro voter voterMember
        rcases holders voter voterMember with rfl | ⟨peer, -⟩
        · exact member
        · rw [peers_eq, membership.mem_peers _ member] at peer
          exact peer.1
      · rwa [RaftState.majority, clusterSize, peers_eq, ← membership.card_eq member] at majority
      · intro voter voterMember
        rw [List.length_take_of_le within]
        rcases holders voter voterMember with rfl | ⟨-, holds⟩
        · rw [acceptedEq]
          exact within
        · cases known : leader.matchIndex voter with
          | none => simp [known] at holds; omega
          | some matchIndex =>
            have matched := leads.matched voter matchIndex known
            simp [known] at holds
            exact holds.trans matched

theorem outcome_propose (ready : Ready membership history state) (op : LogOp) :
    ∃ later, Outcome membership.members history state (state.step (.propose op)) later := by
  simp only [step, propose]
  split
  · refine ready.outcome_of_unchanged (by rfl) (by rfl) (by rfl) ?_ ?_ <;> simp
  · next leads =>
      have isLeader : state.role = .leader := not_not.mp leads
      have unmoved : Quiet state state := .inl ⟨rfl, rfl⟩
      have consistent := ready.consistent_of_quiet unmoved
      have node := ready.node_recordVote state
      have leaderEq := (node.leads isLeader).leader_eq
      have stamped : (LogEntry.mk state.currentTerm op).term = state.view.currentTerm := rfl
      have grows := (recordVote_grows history state state).trans
        (extend_extends consistent leaderEq stamped)
      have extended := consistent.extend leaderEq stamped
        (fun u newer => ready.latest_recordVote (le_refl _) newer)
      have proposed := node.extend consistent isLeader stamped
      split
      · have advanced := node_advanceCommit
          { state with log := state.log ++ [⟨state.currentTerm, op⟩] } ready.member ready.peers_eq isLeader proposed
        exact ⟨_, grows, rfl, extended, advanced.1, by simp, by simp, by simp, advanced.2,
          le_refl _⟩
      · exact ⟨_, grows, rfl, extended, proposed, by simp, by simp, by simp, le_refl _,
          le_refl _⟩

/-! ## Replies -/

theorem outcome_voteReply (ready : Ready membership history state) {source : NodeId}
    {term : Nat} {granted : Bool}
    (elects : Elects membership.members history state
      (state.step (.reply source (.vote term granted))).state) :
    ∃ later, Outcome membership.members history state
      (state.step (.reply source (.vote term granted))) later := by
  simp only [step, handleReply, handleVoteReply] at elects ⊢
  split at elects
  · next newer =>
      rw [if_pos newer]
      apply ready.outcome_of_observe newer
      simp
  · next notNewer =>
      rw [if_neg notNewer]
      split at elects
      · next ignored =>
          rw [if_pos ignored]
          refine ready.outcome_of_unchanged (by rfl) (by rfl) (by rfl) ?_ ?_ <;> simp
      · next counts =>
          rw [if_neg counts]
          have isCandidate : state.role = .candidate := by
            by_contra other
            exact counts (.inl other)
          split at elects
          · next isGranted =>
              rw [if_pos isGranted]
              split at elects
              · next wins =>
                  rw [if_pos wins]
                  apply ready.outcome_of_lead
                  · rfl
                  · exact le_refl _
                  · exact ready.consistent_of_quiet (.inl ⟨rfl, rfl⟩)
                  · exact ready.node_recordVote _
                  · exact isCandidate
                  · have own := ready.recorded _ (ready.own_vote (by simp [isCandidate]))
                    exact (castVote_kept own _ _).1
                  · exact le_refl _
                  · exact le_refl _
                  · exact elects
              · next waits =>
                  rw [if_neg waits]
                  refine ready.outcome_of_unchanged (by rfl) (by rfl) (by rfl) ?_ ?_ <;> simp
          · next denied =>
              rw [if_neg denied]
              refine ready.outcome_of_unchanged (by rfl) (by rfl) (by rfl) ?_ ?_ <;> simp

theorem node_acknowledge (ready : Ready membership history state)
    (isLeader : state.role = .leader) {source : NodeId} {index : Nat}
    (acknowledged : index ≤ history.accepted source state.currentTerm) (after : RaftState) :
    NodeInv membership.members (recordVote history state after) state.id
      (state.acknowledge source index).view := by
  have node := ready.node_recordVote after
  have leads := node.leads isLeader
  have logsEq : (recordVote history state after).logs state.currentTerm = state.log :=
    leads.logs_eq
  have bound := ready.consistent.accepted_le source state.currentTerm
  apply node.track
  · intro peer known isKnown
    by_cases same : peer = source
    · subst same
      simp only [acknowledge, Function.update_self, Option.some.injEq] at isKnown
      subst isKnown
      exact acknowledged
    · simp only [acknowledge, Function.update_of_ne same] at isKnown
      exact leads.matched peer known isKnown
  · intro peer known isKnown
    by_cases same : peer = source
    · subst same
      simp only [acknowledge, Function.update_self, Option.some.injEq] at isKnown
      subst isKnown
      have logLength : (history.logs state.currentTerm).length = state.log.length :=
        congrArg List.length logsEq
      change 1 ≤ index + 1 ∧ index + 1 ≤ state.log.length + 1
      omega
    · simp only [acknowledge, Function.update_of_ne same] at isKnown
      exact leads.next peer known isKnown

theorem node_backUp (ready : Ready membership history state) (isLeader : state.role = .leader)
    (source : NodeId) (index : Nat) (after : RaftState) :
    NodeInv membership.members (recordVote history state after) state.id
      (state.backUp source index).view := by
  have node := ready.node_recordVote after
  have leads := node.leads isLeader
  apply node.track leads.matched
  intro peer known isKnown
  by_cases same : peer = source
  · subst same
    simp only [backUp, Function.update_self, Option.some.injEq] at isKnown
    subst isKnown
    have bounds : (state.nextIndex peer).getD 1 ≤ state.log.length + 1 := by
      cases next : state.nextIndex peer with
      | none => simp
      | some index => exact (leads.next peer index next).2
    change 1 ≤ max _ 1 ∧ max _ 1 ≤ state.log.length + 1
    omega
  · simp only [backUp, Function.update_of_ne same] at isKnown
    exact leads.next peer known isKnown

theorem outcome_appendReply (ready : Ready membership history state) {source : NodeId}
    {term : Nat} {success : Bool} {index : Nat}
    (ok : ReplyOk history source (.append term success index)) :
    ∃ later, Outcome membership.members history state
      (state.step (.reply source (.append term success index))) later := by
  simp only [step, handleReply, handleAppendReply]
  split
  · next newer =>
      apply ready.outcome_of_observe newer
      simp
  · next notNewer =>
      split
      · refine ready.outcome_of_unchanged (by rfl) (by rfl) (by rfl) ?_ ?_ <;> simp
      · next counts =>
          have isLeader : state.role = .leader := by
            by_contra other
            exact counts (.inl other)
          have sameTerm : term = state.currentTerm := by
            have notOlder : ¬ term < state.currentTerm := fun older => counts (.inr older)
            omega
          subst sameTerm
          split
          · next isSuccess =>
              have acknowledged := ready.node_acknowledge isLeader (ok isSuccess)
              have advanced := fun after => node_advanceCommit (state.acknowledge source index)
                ready.member ready.peers_eq isLeader (acknowledged after)
              split
              · apply ready.outcome_of_quiet
                · exact .inl ⟨rfl, rfl⟩
                · exact (advanced _).1
                · intro sent member
                  rw [Option.mem_toList] at member
                  exact replicateTo_ok (advanced _).1 member
                · simp
                · exact (advanced state).2
                · exact le_refl _
              · split
                · apply ready.outcome_of_quiet
                  · exact .inl ⟨rfl, rfl⟩
                  · exact (advanced _).1
                  · intro sent member
                    exact replicate_ok (advanced _).1 member
                  · simp
                  · exact (advanced state).2
                  · exact le_refl _
                · apply ready.outcome_of_quiet
                  · exact .inl ⟨rfl, rfl⟩
                  · exact (advanced _).1
                  · simp
                  · simp
                  · exact (advanced state).2
                  · exact le_refl _
          · apply ready.outcome_of_quiet
            · exact .inl ⟨rfl, rfl⟩
            · exact ready.node_backUp isLeader source index _
            · intro sent member
              rw [Option.mem_toList] at member
              exact replicateTo_ok (ready.node_backUp isLeader source index _) member
            · simp
            · exact le_refl _
            · exact le_refl _

/-- Every input but a compaction extends the history. -/
theorem outcome (ready : Ready membership history state) (input : Input)
    (kept : input.isCompact = false)
    (elects : Elects membership.members history state (state.step input).state)
    (requestOk : ∀ source msg, input = .request source msg →
      RequestOk membership.members history msg)
    (replyOk : ∀ source reply, input = .reply source reply → ReplyOk history source reply) :
    ∃ later, Outcome membership.members history state (state.step input) later := by
  cases input with
  | tick => exact ready.outcome_tick elects
  | propose op => exact ready.outcome_propose op
  | replicateNow => exact ready.outcome_replicateNow
  | drainApply => exact ready.outcome_drainApply
  | compact upToIndex triples => cases kept
  | noteRevived => exact ready.outcome_noteRevived
  | request source msg =>
    have ok := requestOk source msg rfl
    cases msg with
    | requestVote => exact ready.outcome_requestVote ok
    | appendEntries => exact ready.outcome_appendEntries ok
    | installSnapshot => exact ok.elim
  | reply source reply =>
    have ok := replyOk source reply rfl
    cases reply with
    | vote => exact ready.outcome_voteReply elects
    | append => exact ready.outcome_appendReply ok
    | snapshot => exact ok.elim

end Ready

end GStore.Cluster
