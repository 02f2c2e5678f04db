import GStore.Cluster.Election
import GStore.Foundation.Ballots

/-! # What a node's log owes to the history

Every log in the group is described by one history of ballots. This module states
what one node's state has to do with it, and how each kind of move a node can make
keeps that. -/

namespace GStore.Cluster

open RaftState Ballots

abbrev History := Ballots NodeId LogEntry

/-- The part of a node's state that the safety of its log depends on. -/
structure View where
  role : Role
  currentTerm : Nat
  log : List LogEntry
  baseIndex : Nat
  baseTerm : Nat
  commitIndex : Nat
  lastApplied : Nat
  nextIndex : NodeId → Option Nat
  matchIndex : NodeId → Option Nat

def RaftState.view (state : RaftState) : View where
  role := state.role
  currentTerm := state.currentTerm
  log := state.log
  baseIndex := state.baseIndex
  baseTerm := state.baseTerm
  commitIndex := state.commitIndex
  lastApplied := state.lastApplied
  nextIndex := state.nextIndex
  matchIndex := state.matchIndex

/-- A leader's log is the log of its term. -/
structure Leads (history : History) (id : NodeId) (view : View) : Prop where
  leader_eq : history.leader view.currentTerm = some id
  logs_eq : history.logs view.currentTerm = view.log
  accepted_eq : history.accepted id view.currentTerm = view.log.length
  starts : history.voteLog id view.currentTerm <+: view.log
  matched : ∀ peer index, view.matchIndex peer = some index →
    index ≤ history.accepted peer view.currentTerm
  next : ∀ peer index, view.nextIndex peer = some index →
    1 ≤ index ∧ index ≤ view.log.length + 1

structure NodeInv (members : Finset NodeId) (history : History) (id : NodeId) (view : View) :
    Prop where
  baseIndex_eq : view.baseIndex = 0
  baseTerm_eq : view.baseTerm = 0
  unaccepted : ∀ t, view.currentTerm < t → history.accepted id t = 0
  backed : Backed LogEntry.term history.logs view.log
  ascends : TermsAscend LogEntry.term view.log
  bounded : ∀ entry ∈ view.log, entry.term ≤ view.currentTerm
  candidate : view.role = .candidate → view.log = history.voteLog id view.currentTerm
  leads : view.role = .leader → Leads history id view
  led : ∀ t, history.leader t = some id →
    t < view.currentTerm ∨ (t = view.currentTerm ∧ view.role ≠ .candidate)
  /-- Whatever the node has accepted it still holds, unless a newer leader
  replaced it. -/
  held : ∀ t value, value <+: history.logs t → value.length ≤ history.accepted id t →
    value <+: view.log ∨ history.Superseded value t (view.currentTerm + 1)
  commit_le : view.commitIndex ≤ view.log.length
  committed : Committed LogEntry.term members history view.currentTerm
    (view.log.take view.commitIndex)
  applied_le : view.lastApplied ≤ view.commitIndex

namespace NodeInv

variable {members : Finset NodeId} {history later : History} {id actor : NodeId} {view : View}

/-- What other nodes do leaves a node's invariant in place. -/
theorem other (inv : NodeInv members history id view)
    (consistent : Consistent LogEntry.term members history)
    (grows : ExtendsBy LogEntry.term actor history later) (different : id ≠ actor) :
    NodeInv members later id view where
  baseIndex_eq := inv.baseIndex_eq
  baseTerm_eq := inv.baseTerm_eq
  unaccepted t after := by
    rw [grows.accepted_other id different]
    exact inv.unaccepted t after
  backed := inv.backed.mono grows.logs
  ascends := inv.ascends
  bounded := inv.bounded
  candidate isCandidate := by
    rw [grows.voteLog_other id different]
    exact inv.candidate isCandidate
  leads isLeader := by
    have leads := inv.leads isLeader
    have ledLater := (grows.leader _ _ leads.leader_eq).1
    have sameLog := (grows.leader_other _ id different ledLater).2
    exact
      { leader_eq := ledLater
        logs_eq := sameLog.trans leads.logs_eq
        accepted_eq := by
          rw [grows.accepted_other id different]
          exact leads.accepted_eq
        starts := by
          rw [grows.voteLog_other id different]
          exact leads.starts
        matched := fun peer index known =>
          (leads.matched peer index known).trans (grows.accepted peer _)
        next := leads.next }
  led t leads := inv.led t (grows.leader_other t id different leads).1
  held t value within accepted := by
    rw [grows.accepted_other id different] at accepted
    have before : value <+: history.logs t :=
      List.prefix_of_prefix_length_le within (grows.logs t)
        (accepted.trans (consistent.accepted_le id t))
    rcases inv.held t value before accepted with held | superseded
    · exact .inl held
    · exact .inr (grows.superseded consistent before superseded)
  commit_le := inv.commit_le
  committed := inv.committed.mono grows.toExtends (le_refl _)
  applied_le := inv.applied_le

/-- Stepping down, in the same term or into a newer one. -/
theorem stepDown (inv : NodeInv members history id view) {t : Nat}
    (atLeast : view.currentTerm ≤ t) :
    NodeInv members history id { view with role := .follower, currentTerm := t } where
  baseIndex_eq := inv.baseIndex_eq
  baseTerm_eq := inv.baseTerm_eq
  unaccepted u after := inv.unaccepted u (atLeast.trans_lt after)
  backed := inv.backed
  ascends := inv.ascends
  bounded entry member := (inv.bounded entry member).trans atLeast
  candidate isCandidate := by cases isCandidate
  leads isLeader := by cases isLeader
  led u leads := by
    rcases inv.led u leads with before | ⟨same, -⟩
    · exact .inl (before.trans_le atLeast)
    · rw [← same] at atLeast
      rcases Nat.lt_or_eq_of_le atLeast with before | now
      · exact .inl before
      · exact .inr ⟨now, by simp⟩
  held u value within accepted := by
    rcases inv.held u value within accepted with held | ⟨v, after, before, led, differs⟩
    · exact .inl held
    · exact .inr ⟨v, after, before.trans_le (Nat.succ_le_succ atLeast), led, differs⟩
  commit_le := inv.commit_le
  committed := inv.committed.mono (Extends.refl _ _) atLeast
  applied_le := inv.applied_le

/-- A vote of the node's own: the history remembers its log. -/
theorem castVote (inv : NodeInv members history id view) {t : Nat} {vote : Option NodeId}
    {log : List LogEntry}
    (kept : view.role ≠ .follower → history.votes id view.currentTerm ≠ none) :
    NodeInv members (history.castVote id t vote log) id view where
  baseIndex_eq := inv.baseIndex_eq
  baseTerm_eq := inv.baseTerm_eq
  unaccepted := inv.unaccepted
  backed := inv.backed
  ascends := inv.ascends
  bounded := inv.bounded
  candidate isCandidate := by
    have cast := kept (by simp [isCandidate])
    simpa [Ballots.castVote, cast] using inv.candidate isCandidate
  leads isLeader := by
    have cast := kept (by simp [isLeader])
    have leads := inv.leads isLeader
    exact
      { leader_eq := leads.leader_eq
        logs_eq := leads.logs_eq
        accepted_eq := leads.accepted_eq
        starts := by simpa [Ballots.castVote, cast] using leads.starts
        matched := leads.matched
        next := leads.next }
  led := inv.led
  held := inv.held
  commit_le := inv.commit_le
  committed := inv.committed.mono (castVote_extends _ _ _ _ _ _).toExtends (le_refl _)
  applied_le := inv.applied_le

/-- Asking for votes in a term the node has not voted in. -/
theorem campaign (inv : NodeInv members history id view)
    (fresh : history.votes id (view.currentTerm + 1) = none) :
    NodeInv members
      (history.castVote id (view.currentTerm + 1) (some id) view.log) id
      { view with role := .candidate, currentTerm := view.currentTerm + 1 } := by
  have follows : NodeInv members
      (history.castVote id (view.currentTerm + 1) (some id) view.log) id
      { view with role := .follower, currentTerm := view.currentTerm + 1 } :=
    (inv.stepDown (Nat.le_succ view.currentTerm)).castVote (by simp)
  exact
    { baseIndex_eq := follows.baseIndex_eq
      baseTerm_eq := follows.baseTerm_eq
      unaccepted := follows.unaccepted
      backed := follows.backed
      ascends := follows.ascends
      bounded := follows.bounded
      candidate := fun _ => by simp [Ballots.castVote, fresh]
      leads := fun isLeader => by cases isLeader
      led := fun t leads => by
        rcases inv.led t leads with before | ⟨same, -⟩ <;> left <;> simp <;> omega
      held := follows.held
      commit_le := follows.commit_le
      committed := follows.committed
      applied_le := follows.applied_le }

/-- Winning: the log the candidate asked with becomes the log of the term. -/
theorem elect (inv : NodeInv members history id view)
    (consistent : Consistent LogEntry.term members history)
    (isCandidate : view.role = .candidate)
    (idle : history.leader view.currentTerm = none) (voters : Finset NodeId) :
    NodeInv members (history.elect id view.currentTerm voters) id
      { view with role := .leader, nextIndex := fun _ => none, matchIndex := fun _ => none } := by
  have grows := elect_extends id consistent idle voters
  have ownLog := inv.candidate isCandidate
  exact
    { baseIndex_eq := inv.baseIndex_eq
      baseTerm_eq := inv.baseTerm_eq
      unaccepted := fun t after => by
        rw [elect_accepted_of_ne (Nat.ne_of_gt after)]
        exact inv.unaccepted t after
      backed := inv.backed.mono grows.logs
      ascends := inv.ascends
      bounded := inv.bounded
      candidate := fun isCandidate => by cases isCandidate
      leads := fun _ =>
        { leader_eq := by simp [Ballots.elect]
          logs_eq := by simp [Ballots.elect, ← ownLog]
          accepted_eq := by simp [Ballots.elect, ← ownLog]
          starts := by simp [Ballots.elect, ← ownLog]
          matched := fun _ _ known => by cases known
          next := fun _ _ known => by cases known }
      led := fun t leads => by
        by_cases now : t = view.currentTerm
        · exact .inr ⟨now, by simp⟩
        · rw [elect_leader_of_ne now] at leads
          rcases inv.led t leads with before | ⟨same, -⟩
          · exact .inl before
          · exact absurd same now
      held := fun t value within accepted => by
        by_cases now : t = view.currentTerm
        · subst now
          left
          simpa [Ballots.elect, ← ownLog] using within
        · rw [elect_logs_of_ne now] at within
          rw [elect_accepted_of_ne now] at accepted
          rcases inv.held t value within accepted with held | superseded
          · exact .inl held
          · exact .inr (grows.superseded consistent within superseded)
      commit_le := inv.commit_le
      committed := inv.committed.mono grows.toExtends (le_refl _)
      applied_le := inv.applied_le }

/-- A leader appends an entry of its term. -/
theorem extend (inv : NodeInv members history id view)
    (consistent : Consistent LogEntry.term members history) (isLeader : view.role = .leader)
    {entry : LogEntry} (stamped : entry.term = view.currentTerm) :
    NodeInv members (history.extend id view.currentTerm entry) id
      { view with log := view.log ++ [entry] } := by
  have leads := inv.leads isLeader
  have grows := extend_extends consistent leads.leader_eq stamped
  have newLog : (history.extend id view.currentTerm entry).logs view.currentTerm =
      view.log ++ [entry] := by
    simp [Ballots.extend, leads.logs_eq]
  exact
    { baseIndex_eq := inv.baseIndex_eq
      baseTerm_eq := inv.baseTerm_eq
      unaccepted := fun t after => by
        have different : t ≠ view.currentTerm := Nat.ne_of_gt after
        simpa [Ballots.extend, different] using inv.unaccepted t after
      backed := by
        apply (inv.backed.mono grows.logs).append_singleton
        rw [stamped, newLog]
      ascends := by
        apply inv.ascends.append_singleton
        rw [stamped]
        exact inv.bounded
      bounded := fun other member => by
        rcases List.mem_append.mp member with old | new
        · exact inv.bounded other old
        · rw [List.mem_singleton.mp new, stamped]
      candidate := fun isCandidate => by simp [isLeader] at isCandidate
      leads := fun _ =>
        { leader_eq := leads.leader_eq
          logs_eq := newLog
          accepted_eq := by simp [Ballots.extend, leads.logs_eq]
          starts := leads.starts.trans (List.prefix_append _ _)
          matched := fun peer index known =>
            (leads.matched peer index known).trans (grows.accepted peer _)
          next := fun peer index known => by
            have bounds := leads.next peer index known
            simp only [List.length_append, List.length_singleton]
            omega }
      led := inv.led
      held := fun t value within accepted => by
        by_cases now : t = view.currentTerm
        · subst now
          rw [newLog] at within
          exact .inl within
        · rw [extend_logs_of_ne now] at within
          have acceptedBefore : value.length ≤ history.accepted id t := by
            simpa [Ballots.extend, now] using accepted
          rcases inv.held t value within acceptedBefore with held | superseded
          · exact .inl (held.trans (List.prefix_append _ _))
          · exact .inr (grows.superseded consistent within superseded)
      commit_le := by
        have bound := inv.commit_le
        simp only [List.length_append]
        omega
      committed := by
        have same : (view.log ++ [entry]).take view.commitIndex =
            view.log.take view.commitIndex := List.take_append_of_le_length inv.commit_le
        change Committed _ _ _ _ ((view.log ++ [entry]).take view.commitIndex)
        rw [same]
        exact inv.committed.mono grows.toExtends (le_refl _)
      applied_le := inv.applied_le }

/-- A follower takes over entries of the leader's log. -/
theorem accept (inv : NodeInv members history id view)
    (consistent : Consistent LogEntry.term members history)
    (isFollower : view.role = .follower)
    (led : history.leader view.currentTerm ≠ none) {front entries : List LogEntry}
    (within : front <+: view.log)
    (sent : front ++ entries <+: history.logs view.currentTerm) :
    NodeInv members
      (history.accept id view.currentTerm (front.length + entries.length)) id
      { view with log := overwrite LogEntry.term view.log front.length entries } := by
  have wholeBacked := consistent.logs_backed view.currentTerm
  have outcome := overwrite_cases entries inv.backed within (wholeBacked.ofPrefix sent)
  have kept : ∀ value, value <+: view.log → value <+: history.logs view.currentTerm →
      value <+: overwrite LogEntry.term view.log front.length entries :=
    fun value => prefix_overwrite inv.backed within sent wholeBacked
  have targetHeld := written_prefix_overwrite inv.backed within (wholeBacked.ofPrefix sent)
  have committedKept := kept _ (List.take_prefix _ _)
    (inv.committed.prefix_logs consistent (le_refl _) led)
  have committedLength := committedKept.length_le
  rw [List.length_take_of_le inv.commit_le] at committedLength
  exact
    { baseIndex_eq := inv.baseIndex_eq
      baseTerm_eq := inv.baseTerm_eq
      unaccepted := fun t after => by
        have different : t ≠ view.currentTerm := Nat.ne_of_gt after
        rw [accept_accepted, if_neg (fun now => different now.2)]
        exact inv.unaccepted t after
      backed := by
        rcases outcome with ⟨-, unchanged⟩ | ⟨-, written⟩
        · rw [unchanged]
          exact inv.backed
        · rw [written]
          exact wholeBacked.ofPrefix sent
      ascends := by
        rcases outcome with ⟨-, unchanged⟩ | ⟨-, written⟩
        · rw [unchanged]
          exact inv.ascends
        · rw [written]
          exact (consistent.logs_ascend _).ofPrefix sent
      bounded := by
        rcases outcome with ⟨-, unchanged⟩ | ⟨-, written⟩
        · rw [unchanged]
          exact inv.bounded
        · rw [written]
          exact fun entry member => consistent.logs_le _ entry (sent.subset member)
      candidate := fun isCandidate => by simp [isFollower] at isCandidate
      leads := fun isLeader => by simp [isFollower] at isLeader
      led := inv.led
      held := fun t value inside accepted => by
        rw [accept_accepted] at accepted
        split at accepted
        · next now =>
            rw [now.2] at inside
            left
            rcases le_max_iff.mp accepted with old | new
            · rcases inv.held _ value inside old with held | ⟨v, after, before, -, -⟩
              · exact kept value held inside
              · omega
            · exact (List.prefix_of_prefix_length_le inside sent (by simpa using new)).trans
                targetHeld
        · next notNow =>
            rcases inv.held t value inside accepted with held | superseded
            · by_cases shared : value <+: history.logs view.currentTerm
              · exact .inl (kept value held shared)
              · -- This term's leader replaces the value, so it is a newer leader.
                have older : t < view.currentTerm := by
                  by_contra notOlder
                  have newer : view.currentTerm < t := by
                    have different : t ≠ view.currentTerm := fun same => notNow ⟨rfl, same⟩
                    omega
                  change value.length ≤ history.accepted id t at accepted
                  rw [inv.unaccepted t newer] at accepted
                  rw [List.length_eq_zero_iff.mp (Nat.le_zero.mp accepted)] at shared
                  exact shared List.nil_prefix
                exact .inr ⟨view.currentTerm, older, Nat.lt_succ_self _, led, shared⟩
            · exact .inr superseded
      commit_le := committedLength
      committed := by
        have same : (overwrite LogEntry.term view.log front.length entries).take
            view.commitIndex = view.log.take view.commitIndex := by
          have equal := List.prefix_iff_eq_take.mp committedKept
          rw [List.length_take_of_le inv.commit_le] at equal
          exact equal.symm
        change Committed _ _ _ _
          ((overwrite LogEntry.term view.log front.length entries).take view.commitIndex)
        rw [same]
        exact inv.committed.mono (accept_extends _ _ _ _ _).toExtends (le_refl _)
      applied_le := inv.applied_le }

theorem commit (inv : NodeInv members history id view) {index : Nat}
    (within : index ≤ view.log.length) (grows : view.commitIndex ≤ index)
    (committed : Committed LogEntry.term members history view.currentTerm
      (view.log.take index)) :
    NodeInv members history id { view with commitIndex := index } :=
  { inv with
    leads := fun isLeader => { inv.leads isLeader with }
    commit_le := within
    committed := committed
    applied_le := inv.applied_le.trans grows }

theorem apply (inv : NodeInv members history id view) :
    NodeInv members history id
      { view with lastApplied := max view.lastApplied view.commitIndex } :=
  { inv with
    leads := fun isLeader => { inv.leads isLeader with }
    applied_le := max_le inv.applied_le (le_refl _) }

/-- A leader's bookkeeping about its peers. -/
theorem track (inv : NodeInv members history id view)
    {nextIndex matchIndex : NodeId → Option Nat}
    (matched : ∀ peer index, matchIndex peer = some index →
      index ≤ history.accepted peer view.currentTerm)
    (next : ∀ peer index, nextIndex peer = some index →
      1 ≤ index ∧ index ≤ view.log.length + 1) :
    NodeInv members history id { view with nextIndex, matchIndex } :=
  { inv with leads := fun isLeader => { inv.leads isLeader with matched, next } }

/-- A new leader's bookkeeping: nothing is known to be replicated. -/
theorem track_new (inv : NodeInv members history id view) (peers : List NodeId) {next : Nat}
    (positive : 1 ≤ next) (within : next ≤ view.log.length + 1) :
    NodeInv members history id
      { view with
        nextIndex := fun peer => if peer ∈ peers then some next else none
        matchIndex := fun peer => if peer ∈ peers then some 0 else none } := by
  apply inv.track
  · intro peer index known
    split at known
    · cases known
      exact Nat.zero_le _
    · cases known
  · intro peer index known
    split at known
    · cases known
      exact ⟨positive, within⟩
    · cases known

end NodeInv

end GStore.Cluster
