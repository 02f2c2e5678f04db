import GStore.Cluster.LogSafety

/-! # What a majority holds

Where the entries of a group that never compacts are: what a majority holds, what an
acknowledgement says, and what a leader does to its own log. -/

namespace GStore.Cluster

open RaftState Ballots

variable {membership : Membership} {group earlier later : Group} {history : History}
  {leader follower : NodeId}

namespace SafetyInv

variable (inv : SafetyInv membership group history)

include inv

/-- Who has accepted entries of a leader holds them, unless a newer leader did not. -/
theorem holds_accepted {id : NodeId} (member : id ∈ membership.members) {term : Nat}
    {value : List LogEntry} (within : value <+: history.logs term)
    (accepted : value.length ≤ history.accepted id term)
    (agree : ∀ t, term < t → t < (group.nodes id).currentTerm + 1 → history.leader t ≠ none →
      value <+: history.logs t) : value <+: (group.nodes id).log := by
  rcases (inv.nodes id member).held term value within accepted with held | superseded
  · exact held
  · rcases superseded with ⟨t, after, before, led, differs⟩
    exact absurd (agree t after before led) differs

theorem committed_held {term : Nat} {front : List LogEntry}
    (committed : Committed LogEntry.term membership.members history term front)
    (nonempty : front = [] → membership.members.Nonempty) :
    ∃ holders ⊆ membership.members, membership.members.card / 2 + 1 ≤ holders.card ∧
      ∀ holder ∈ holders, front <+: (group.nodes holder).log := by
  rcases committed with empty | ⟨s, -, value, chosen, inside⟩
  · have some := Finset.card_pos.mpr (nonempty empty)
    rw [empty]
    exact ⟨membership.members, subset_rfl, by omega, fun _ _ => List.nil_prefix⟩
  · have later : ∀ t, s < t → history.leader t ≠ none → value <+: history.logs t :=
      fun t after led => chosen.prefix_logs inv.consistent after.le led
    rcases chosen with ⟨within, -, voters, subset, majority, accept⟩
    refine ⟨voters, subset, majority, fun voter voted => inside.trans ?_⟩
    apply inv.holds_accepted (subset voted) within (accept voter voted)
    exact fun t after _ led => later t after led

/-- In its own term a node holds what it has accepted of the leader's log. -/
theorem agrees_with_leader (leaderMember : leader ∈ membership.members)
    (member : follower ∈ membership.members) (isLeader : (group.nodes leader).role = .leader)
    (sameTerm : (group.nodes follower).currentTerm = (group.nodes leader).currentTerm)
    {count : Nat} (accepted : count ≤ history.accepted follower (group.nodes leader).currentTerm) :
    count ≤ (group.nodes leader).log.length ∧
      (group.nodes follower).log.take count = (group.nodes leader).log.take count := by
  have logs : history.logs (group.nodes leader).currentTerm = (group.nodes leader).log :=
    ((inv.nodes leader leaderMember).leads isLeader).logs_eq
  have within : count ≤ (group.nodes leader).log.length := by
    rw [← logs]
    exact accepted.trans (inv.consistent.accepted_le _ _)
  have held : (group.nodes leader).log.take count <+: (group.nodes follower).log := by
    rw [← logs]
    apply inv.holds_accepted member (List.take_prefix _ _)
    · exact (List.length_take_le _ _).trans accepted
    · intro t after before
      omega
  have taken := List.prefix_iff_eq_take.mp held
  rw [List.length_take_of_le within] at taken
  exact ⟨within, taken.symm⟩

end SafetyInv

section Run

variable
  (reachable : Group.Reachable membership (fun input => input.isCompact = false) earlier)
  (run : Group.Run membership (fun input => input.isCompact = false) earlier later)

include reachable run

/-- What a node has committed, or handed out for application, is in the logs of a majority
from then on. -/
theorem committed_on_majority :
    (∀ id ∈ membership.members, ∃ holders ⊆ membership.members,
      membership.members.card / 2 + 1 ≤ holders.card ∧ ∀ holder ∈ holders,
        (earlier.nodes id).log.take (earlier.nodes id).commitIndex <+:
          (later.nodes holder).log) ∧
    ∀ id index op, (id, index, op) ∈ earlier.emitted →
      0 < index ∧ ∃ holders ⊆ membership.members,
        membership.members.card / 2 + 1 ≤ holders.card ∧ ∀ holder ∈ holders,
          ((later.nodes holder).log[index - 1]?).map LogEntry.op = some op := by
  rcases SafetyInv.of_reachable reachable with ⟨history, before⟩
  rcases before.run run with ⟨final, grows, after, -⟩
  constructor
  · intro id member
    have committed := (before.nodes id member).committed.mono grows (le_refl _)
    exact after.committed_held committed fun _ => ⟨id, member⟩
  · intro id index op emitted
    rcases before.emitted id index op emitted with ⟨term, front, committed, positive, found⟩
    rcases Option.map_eq_some_iff.mp found with ⟨entry, here, rfl⟩
    have nonempty : front ≠ [] := by
      rintro rfl
      cases here
    rcases after.committed_held (committed.mono grows (le_refl _)) (absurd · nonempty) with
      ⟨holders, subset, majority, held⟩
    refine ⟨positive, holders, subset, majority, fun holder holds => ?_⟩
    rcases held holder holds with ⟨rest, whole⟩
    rw [← whole, List.getElem?_append_left (List.getElem?_eq_some_iff.mp here).1, here]
    rfl

/-- Acknowledgements stay true: as long as a node is in the term of a leader, it has the
entries that it ever acknowledged in this term, and those that the leader counts it for. -/
theorem acknowledged_held (leaderMember : leader ∈ membership.members)
    (member : follower ∈ membership.members) (isLeader : (later.nodes leader).role = .leader)
    (sameTerm : (later.nodes follower).currentTerm = (later.nodes leader).currentTerm)
    {count : Nat} (acknowledged : (later.nodes leader).matchIndex follower = some count ∨
      ∃ target, (follower, target,
        .append (later.nodes leader).currentTerm true count) ∈ earlier.replies) :
    count ≤ (later.nodes leader).log.length ∧
      (later.nodes follower).log.take count = (later.nodes leader).log.take count := by
  rcases SafetyInv.of_reachable reachable with ⟨history, before⟩
  rcases before.run run with ⟨final, grows, after, -⟩
  apply after.agrees_with_leader leaderMember member isLeader sameTerm
  rcases acknowledged with counted | ⟨target, sent⟩
  · exact ((after.nodes leader leaderMember).leads isLeader).matched follower count counted
  · exact (before.replies follower target _ sent rfl).trans (grows.accepted _ _)

/-- While its term lasts, no entry of a leader's log is removed or replaced, also where it has
stepped down; and where it still leads, it has only added entries of its term. -/
theorem leader_appends_only (member : leader ∈ membership.members)
    (isLeader : (earlier.nodes leader).role = .leader)
    (sameTerm : (later.nodes leader).currentTerm = (earlier.nodes leader).currentTerm) :
    (earlier.nodes leader).log <+: (later.nodes leader).log ∧
      ((later.nodes leader).role = .leader →
        ∀ entry ∈ (later.nodes leader).log.drop (earlier.nodes leader).log.length,
          entry.term = (later.nodes leader).currentTerm) := by
  rcases SafetyInv.of_reachable reachable with ⟨history, before⟩
  rcases before.run run with ⟨final, grows, after, -⟩
  have leads := (before.nodes leader member).leads isLeader
  have logs : history.logs (earlier.nodes leader).currentTerm = (earlier.nodes leader).log :=
    leads.logs_eq
  constructor
  · rw [← logs]
    apply after.holds_accepted member (grows.logs _)
    · rw [logs]
      exact leads.accepted_eq.ge.trans (grows.accepted _ _)
    · intro t newer older
      omega
  · intro leadsStill entry added
    have led : history.leader (earlier.nodes leader).currentTerm = some leader := leads.leader_eq
    have now : final.logs (later.nodes leader).currentTerm = (later.nodes leader).log :=
      ((after.nodes leader member).leads leadsStill).logs_eq
    rw [← now, sameTerm, ← logs] at added
    rw [sameTerm]
    exact grows.own _ (by simp [led]) entry added

end Run

/-! The pair whose node 2 has acknowledged one insert. -/

theorem committed_on_majority_pairCommitted : ∃ holders ⊆ pair.members, 2 ≤ holders.card ∧
    ∀ holder ∈ holders, ((pairCommitted.nodes holder).log[0]?).map LogEntry.op =
      some (.insert ⟨1, 2, 3⟩) := by
  have handed : (1, 1, .insert ⟨1, 2, 3⟩) ∈ pairCommitted.emitted := .inr ⟨rfl, by decide⟩
  have reached := pairElected_reachable.trans pairCommitted_of_pairElected
  exact ((committed_on_majority reached .refl).2 1 1 _ handed).2

theorem acknowledged_held_pairCommitted :
    (pairCommitted.nodes 2).log.take 1 = (pairCommitted.nodes 1).log.take 1 :=
  (acknowledged_held pairElected_reachable pairCommitted_of_pairElected
    (by decide : 1 ∈ pair.members) (by decide : 2 ∈ pair.members) rfl rfl (.inl rfl)).2

theorem leader_appends_only_pairCommitted :
    (pairElected.nodes 1).log <+: (pairCommitted.nodes 1).log :=
  (leader_appends_only pairElected_reachable pairCommitted_of_pairElected (by decide) rfl rfl).1

end GStore.Cluster
