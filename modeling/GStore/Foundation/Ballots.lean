import GStore.Foundation.Quorum
import GStore.Foundation.TermLog

/-! # Terms as ballots

The history of a replicated log, whatever the protocol that produced it: who
voted for whom in each term and with which log, who led each term and with which
log, and how much of a term's log each node has accepted. A value accepted by a
majority in one term is a prefix of the log of every later leader. -/

namespace GStore

variable {Node Entry : Type*}

structure Ballots (Node Entry : Type*) where
  votes : Node → Nat → Option Node
  /-- The voter's log when it voted. -/
  voteLog : Node → Nat → List Entry
  leader : Nat → Option Node
  /-- The voters that elected the leader. -/
  quorum : Nat → Finset Node
  /-- The leader's log. -/
  logs : Nat → List Entry
  /-- How many entries of the leader's log the node has accepted. -/
  accepted : Node → Nat → Nat

namespace Ballots

def empty : Ballots Node Entry where
  votes _ _ := none
  voteLog _ _ := []
  leader _ := none
  quorum _ := ∅
  logs _ := []
  accepted _ _ := 0

variable (term : Entry → Nat) {members : Finset Node}

/-- One history extends another. -/
structure Extends (earlier later : Ballots Node Entry) : Prop where
  votes : ∀ voter t candidate, earlier.votes voter t = some candidate →
    later.votes voter t = some candidate ∧ later.voteLog voter t = earlier.voteLog voter t
  leader : ∀ t leader, earlier.leader t = some leader →
    later.leader t = some leader ∧ later.quorum t = earlier.quorum t
  logs : ∀ t, earlier.logs t <+: later.logs t
  /-- A leader only adds entries of its own term. -/
  own : ∀ t, earlier.leader t ≠ none → ∀ entry,
    entry ∈ (later.logs t).drop (earlier.logs t).length → term entry = t
  accepted : ∀ node t, earlier.accepted node t ≤ later.accepted node t

theorem Extends.refl (ballots : Ballots Node Entry) : Extends term ballots ballots where
  votes _ _ _ cast := ⟨cast, rfl⟩
  leader _ _ leads := ⟨leads, rfl⟩
  logs _ := List.prefix_refl _
  own _ _ _ member := by simp at member
  accepted _ _ := le_refl _

variable {term}

theorem Extends.trans {first second third : Ballots Node Entry}
    (left : Extends term first second) (right : Extends term second third) :
    Extends term first third where
  votes voter t candidate cast := by
    rcases left.votes voter t candidate cast with ⟨kept, sameLog⟩
    rcases right.votes voter t candidate kept with ⟨keptAgain, sameAgain⟩
    exact ⟨keptAgain, sameAgain.trans sameLog⟩
  leader t leader leads := by
    rcases left.leader t leader leads with ⟨kept, sameQuorum⟩
    rcases right.leader t leader kept with ⟨keptAgain, sameAgain⟩
    exact ⟨keptAgain, sameAgain.trans sameQuorum⟩
  logs t := (left.logs t).trans (right.logs t)
  own t led entry member := by
    rcases Option.ne_none_iff_exists'.mp led with ⟨leader, leads⟩
    have ledLater : second.leader t ≠ none := by simp [(left.leader t leader leads).1]
    rcases left.logs t with ⟨added, grown⟩
    rcases right.logs t with ⟨addedAgain, grownAgain⟩
    rw [← grownAgain, ← grown, List.append_assoc, List.drop_left] at member
    rcases List.mem_append.mp member with first | last
    · apply left.own t led entry
      rw [← grown, List.drop_left]
      exact first
    · apply right.own t ledLater entry
      rw [← grownAgain, List.drop_left]
      exact last
  accepted node t := (left.accepted node t).trans (right.accepted node t)

/-! ## Consistency -/

/-- Some leader between the two terms has a log that does not start with `value`. -/
def Superseded (ballots : Ballots Node Entry) (value : List Entry) (after before : Nat) : Prop :=
  ∃ t, after < t ∧ t < before ∧ ballots.leader t ≠ none ∧ ¬ value <+: ballots.logs t

variable (term)

structure Consistent (members : Finset Node) (ballots : Ballots Node Entry) : Prop where
  idle : ∀ t, ballots.leader t = none → ballots.logs t = []
  elected : ∀ t leader, ballots.leader t = some leader →
    ballots.quorum t ⊆ members ∧ members.card / 2 + 1 ≤ (ballots.quorum t).card ∧
    (∀ voter ∈ ballots.quorum t, ballots.votes voter t = some leader) ∧
    ballots.votes leader t = some leader ∧ ballots.voteLog leader t <+: ballots.logs t
  logs_backed : ∀ t, Backed term ballots.logs (ballots.logs t)
  logs_ascend : ∀ t, TermsAscend term (ballots.logs t)
  logs_le : ∀ t, ∀ entry ∈ ballots.logs t, term entry ≤ t
  voted : ∀ voter t candidate, ballots.votes voter t = some candidate →
    ballots.votes candidate t = some candidate ∧
    UpToDate term (ballots.voteLog voter t) (ballots.voteLog candidate t)
  voteLog_backed : ∀ voter t candidate, ballots.votes voter t = some candidate →
    Backed term ballots.logs (ballots.voteLog voter t)
  voteLog_ascend : ∀ voter t candidate, ballots.votes voter t = some candidate →
    TermsAscend term (ballots.voteLog voter t)
  /-- A candidate's own log is older than the term it asks for. -/
  candidate_lt : ∀ candidate t, ballots.votes candidate t = some candidate →
    ∀ entry ∈ ballots.voteLog candidate t, term entry < t
  accepted_le : ∀ node t, ballots.accepted node t ≤ (ballots.logs t).length
  /-- What a voter had accepted it still held when it voted, unless a leader in
  between had replaced it. -/
  retained : ∀ voter t candidate, ballots.votes voter t = some candidate →
    (ballots.leader t = none ∨ voter ∈ ballots.quorum t) →
    ∀ s < t, ∀ value, value <+: ballots.logs s → value.length ≤ ballots.accepted voter s →
      value <+: ballots.voteLog voter t ∨ ballots.Superseded value s t

/-- A majority has accepted `value` in term `t`, and it ends with an entry of `t`. -/
def Chosen (members : Finset Node) (ballots : Ballots Node Entry) (t : Nat)
    (value : List Entry) : Prop :=
  value <+: ballots.logs t ∧ (∃ front entry, value = front ++ [entry] ∧ term entry = t) ∧
    ∃ voters ⊆ members, members.card / 2 + 1 ≤ voters.card ∧
      ∀ voter ∈ voters, value.length ≤ ballots.accepted voter t

variable {term}

theorem consistent_empty (members : Finset Node) :
    Consistent term members (empty : Ballots Node Entry) where
  idle _ _ := rfl
  elected _ _ leads := by cases leads
  logs_backed _ := Backed.nil _
  logs_ascend _ := List.Pairwise.nil
  logs_le _ _ member := by cases member
  voted _ _ _ cast := by cases cast
  voteLog_backed _ _ _ cast := by cases cast
  voteLog_ascend _ _ _ cast := by cases cast
  candidate_lt _ _ cast := by cases cast
  accepted_le _ _ := le_refl _
  retained _ _ _ cast := by cases cast

theorem Consistent.leader_of_mem {ballots : Ballots Node Entry}
    (consistent : Consistent term members ballots) {t : Nat} {entry : Entry}
    (member : entry ∈ ballots.logs t) : ballots.leader t ≠ none := by
  intro idle
  rw [consistent.idle t idle] at member
  cases member

theorem Chosen.led {ballots : Ballots Node Entry} (consistent : Consistent term members ballots)
    {t : Nat} {value : List Entry} (chosen : Chosen term members ballots t value) :
    ballots.leader t ≠ none := by
  rcases chosen with ⟨within, ⟨front, entry, rfl, -⟩, -⟩
  exact consistent.leader_of_mem
    (within.subset (List.mem_append_right front (List.mem_singleton_self entry)))

theorem Extends.superseded {earlier later : Ballots Node Entry}
    (extend : Extends term earlier later) (consistent : Consistent term members earlier)
    {value : List Entry} {s t : Nat} (within : value <+: earlier.logs s)
    (superseded : earlier.Superseded value s t) : later.Superseded value s t := by
  rcases superseded with ⟨u, after, before, led, differs⟩
  rcases Option.ne_none_iff_exists'.mp led with ⟨leader, leads⟩
  refine ⟨u, after, before, by simp [(extend.leader u leader leads).1], ?_⟩
  intro inside
  -- The value would have to end in an entry the leader of `u` added itself.
  rcases extend.logs u with ⟨added, grown⟩
  rcases prefix_or_prefix inside (extend.logs u) with short | long
  · exact differs short
  · rcases long with ⟨rest, rfl⟩
    cases rest with
    | nil => exact differs (by simp)
    | cons entry rest =>
      have memberLater : entry ∈ (later.logs u).drop (earlier.logs u).length := by
        rcases inside with ⟨tail, whole⟩
        rw [← whole, List.append_assoc, List.drop_left]
        simp
      have own := extend.own u led entry memberLater
      have old := consistent.logs_le s entry (within.subset (by simp))
      omega

theorem Extends.chosen {earlier later : Ballots Node Entry} (extend : Extends term earlier later)
    {t : Nat} {value : List Entry} (chosen : Chosen term members earlier t value) :
    Chosen term members later t value := by
  rcases chosen with ⟨within, last, voters, subset, majority, accept⟩
  exact ⟨within.trans (extend.logs t), last, voters, subset, majority, fun voter member =>
    (accept voter member).trans (extend.accepted voter t)⟩

/-! ## Leader completeness -/

section Completeness

variable {members : Finset Node} {ballots : Ballots Node Entry}

/-- A log of a later term that is backed by leaders up to `t` holds every value
that those leaders hold, if it is as up to date as a log that does. -/
theorem Consistent.prefix_of_upToDate (consistent : Consistent term members ballots)
    {s t : Nat} {value voterLog candidateLog : List Entry}
    (within : value <+: ballots.logs s)
    (last : ∃ front entry, value = front ++ [entry] ∧ term entry = s)
    (backed : Backed term ballots.logs candidateLog)
    (older : ∀ entry ∈ candidateLog, term entry < t)
    (voterAscends : TermsAscend term voterLog) (held : value <+: voterLog)
    (upToDate : UpToDate term voterLog candidateLog)
    (between : ∀ u, s < u → u < t → ballots.leader u ≠ none → value <+: ballots.logs u) :
    value <+: candidateLog := by
  rcases last with ⟨front, entry, rfl, entryTerm⟩
  have reaches : s ≤ lastTerm term voterLog := by
    rw [← entryTerm]
    exact voterAscends.le_lastTerm (held.subset (by simp))
  rcases List.eq_nil_or_concat candidateLog with rfl | ⟨start, newest, concat⟩
  · rcases upToDate with newer | ⟨-, longer⟩
    · simp at newer
    · have tooLong := held.length_le
      simp at longer tooLong
      simp [longer] at tooLong
  · rw [List.concat_eq_append] at concat
    subst concat
    rw [UpToDate, lastTerm_append_singleton] at upToDate
    have led := backed start newest (List.prefix_refl _)
    have newestLed := consistent.leader_of_mem
      (led.subset (List.mem_append_right start (List.mem_singleton_self newest)))
    have newestOlder := older newest (by simp)
    by_cases sameTerm : term newest = s
    · -- Both are prefixes of one leader's log, and the candidate's is no shorter.
      rw [sameTerm] at led upToDate
      rcases upToDate with newer | ⟨-, longer⟩
      · omega
      · exact List.prefix_of_prefix_length_le within led (held.length_le.trans longer)
    · have later : s < term newest := by
        rcases upToDate with newer | ⟨same, -⟩ <;> omega
      have valueLed := between _ later newestOlder newestLed
      rcases prefix_or_prefix valueLed led with inside | outside
      · exact inside
      · -- A shorter candidate log would have its newest entry inside the value.
        have member : newest ∈ ballots.logs s :=
          within.subset (outside.subset (by simp))
        have bound := consistent.logs_le s newest member
        omega

variable (term members ballots) in
/-- `front` is settled by term `t`. -/
def Committed (t : Nat) (front : List Entry) : Prop :=
  front = [] ∨ ∃ s ≤ t, ∃ value, Chosen term members ballots s value ∧ front <+: value

theorem Committed.ofPrefix {t : Nat} {front shorter : List Entry}
    (committed : Committed term members ballots t front) (within : shorter <+: front) :
    Committed term members ballots t shorter := by
  rcases committed with rfl | ⟨s, atMost, value, chosen, inside⟩
  · exact .inl (List.prefix_nil.mp within)
  · exact .inr ⟨s, atMost, value, chosen, within.trans inside⟩

theorem Committed.mono {later : Ballots Node Entry} {t u : Nat} {front : List Entry}
    (committed : Committed term members ballots t front) (extend : Extends term ballots later)
    (atMost : t ≤ u) : Committed term members later u front := by
  rcases committed with rfl | ⟨s, before, value, chosen, inside⟩
  · exact .inl rfl
  · exact .inr ⟨s, before.trans atMost, value, extend.chosen chosen, inside⟩

variable [DecidableEq Node]

/-- A chosen value is a prefix of every later leader's log, already when the
leader asked for votes. -/
theorem Chosen.prefix_voteLog (consistent : Consistent term members ballots) {s : Nat}
    {value : List Entry} (chosen : Chosen term members ballots s value) (t : Nat) :
    s < t → ∀ leader, ballots.leader t = some leader → value <+: ballots.voteLog leader t := by
  -- Strong induction on the term: every leader in between holds the value.
  induction t using Nat.strong_induction_on with
  | _ t induction =>
    intro later leader leads
    rcases chosen with ⟨within, last, voters, votersSubset, votersMajority, accept⟩
    rcases consistent.elected t leader leads with
      ⟨quorumSubset, quorumMajority, cast, own, -⟩
    rcases exists_mem_of_majorities votersSubset quorumSubset votersMajority
      quorumMajority with ⟨voter, accepted, elector⟩
    have between : ∀ u, s < u → u < t → ballots.leader u ≠ none →
        value <+: ballots.logs u := by
      intro u after before led
      rcases Option.ne_none_iff_exists'.mp led with ⟨middle, middleLeads⟩
      have held := induction u before after middle middleLeads
      exact held.trans (consistent.elected u middle middleLeads).2.2.2.2
    have held : value <+: ballots.voteLog voter t := by
      rcases consistent.retained voter t leader (cast voter elector) (.inr elector) s later
        value within (accept voter accepted) with held | ⟨u, after, before, led, differs⟩
      · exact held
      · exact absurd (between u after before led) differs
    exact consistent.prefix_of_upToDate within last
      (consistent.voteLog_backed leader t leader own)
      (consistent.candidate_lt leader t own)
      (consistent.voteLog_ascend voter t leader (cast voter elector)) held
      (consistent.voted voter t leader (cast voter elector)).2 between

/-- Leader completeness. -/
theorem Chosen.prefix_logs (consistent : Consistent term members ballots) {s t : Nat}
    {value : List Entry} (chosen : Chosen term members ballots s value) (atLeast : s ≤ t)
    (led : ballots.leader t ≠ none) : value <+: ballots.logs t := by
  rcases Nat.lt_or_eq_of_le atLeast with later | rfl
  · rcases Option.ne_none_iff_exists'.mp led with ⟨leader, leads⟩
    have held := chosen.prefix_voteLog consistent t later leader leads
    exact held.trans (consistent.elected t leader leads).2.2.2.2
  · exact chosen.1

theorem Committed.prefix_logs (consistent : Consistent term members ballots) {t u : Nat}
    {front : List Entry} (committed : Committed term members ballots t front)
    (atLeast : t ≤ u) (led : ballots.leader u ≠ none) : front <+: ballots.logs u := by
  rcases committed with rfl | ⟨s, atMost, value, chosen, inside⟩
  · exact List.nil_prefix
  · exact inside.trans (chosen.prefix_logs consistent (atMost.trans atLeast) led)

theorem Committed.prefix_voteLog (consistent : Consistent term members ballots) {t u : Nat}
    {front : List Entry} (committed : Committed term members ballots t front)
    (later : t < u) {leader : Node} (leads : ballots.leader u = some leader) :
    front <+: ballots.voteLog leader u := by
  rcases committed with rfl | ⟨s, atMost, value, chosen, inside⟩
  · exact List.nil_prefix
  · exact inside.trans
      (chosen.prefix_voteLog consistent u (atMost.trans_lt later) leader leads)

/-- Committed prefixes never diverge. -/
theorem Committed.comparable (consistent : Consistent term members ballots) {t u : Nat}
    {left right : List Entry} (leftCommitted : Committed term members ballots t left)
    (rightCommitted : Committed term members ballots u right) :
    left <+: right ∨ right <+: left := by
  rcases leftCommitted with rfl | ⟨s, -, leftValue, leftChosen, leftInside⟩
  · exact .inl List.nil_prefix
  rcases rightCommitted with rfl | ⟨v, -, rightValue, rightChosen, rightInside⟩
  · exact .inr List.nil_prefix
  have led : ballots.leader (max s v) ≠ none := by
    rcases max_choice s v with isLeft | isRight
    · rw [isLeft]
      exact leftChosen.led consistent
    · rw [isRight]
      exact rightChosen.led consistent
  have leftInMax := leftChosen.prefix_logs consistent (le_max_left s v) led
  have rightInMax := rightChosen.prefix_logs consistent (le_max_right s v) led
  exact prefix_or_prefix (leftInside.trans leftInMax) (rightInside.trans rightInMax)

end Completeness

/-! ## What one node adds to the history -/

variable (term) in
/-- The part of the history that belongs to other nodes stays as it is. -/
structure ExtendsBy (node : Node) (earlier later : Ballots Node Entry) : Prop
    extends Extends term earlier later where
  votes_other : ∀ other, other ≠ node → later.votes other = earlier.votes other
  voteLog_other : ∀ other, other ≠ node → later.voteLog other = earlier.voteLog other
  accepted_other : ∀ other, other ≠ node → later.accepted other = earlier.accepted other
  leader_other : ∀ t other, other ≠ node → later.leader t = some other →
    earlier.leader t = some other ∧ later.logs t = earlier.logs t

theorem ExtendsBy.trans {node : Node} {first second third : Ballots Node Entry}
    (left : ExtendsBy term node first second) (right : ExtendsBy term node second third) :
    ExtendsBy term node first third where
  toExtends := left.toExtends.trans right.toExtends
  votes_other other different :=
    (right.votes_other other different).trans (left.votes_other other different)
  voteLog_other other different :=
    (right.voteLog_other other different).trans (left.voteLog_other other different)
  accepted_other other different :=
    (right.accepted_other other different).trans (left.accepted_other other different)
  leader_other t other different leads := by
    rcases right.leader_other t other different leads with ⟨ledBefore, sameLog⟩
    rcases left.leader_other t other different ledBefore with ⟨led, same⟩
    exact ⟨led, sameLog.trans same⟩

section Updates

variable [DecidableEq Node] {members : Finset Node} (ballots : Ballots Node Entry)
  {voters : Finset Node}
variable (node : Node) (t : Nat)

/-- The first vote of a node in a term is kept, with its log of that moment. -/
def castVote (vote : Option Node) (log : List Entry) : Ballots Node Entry where
  votes voter u :=
    if voter = node ∧ u = t ∧ ballots.votes voter u = none then vote else ballots.votes voter u
  voteLog voter u :=
    if voter = node ∧ u = t ∧ ballots.votes voter u = none then log
    else ballots.voteLog voter u
  leader := ballots.leader
  quorum := ballots.quorum
  logs := ballots.logs
  accepted := ballots.accepted

/-- A candidate wins with the log it asked for votes with. -/
def elect (voters : Finset Node) : Ballots Node Entry where
  votes := ballots.votes
  voteLog := ballots.voteLog
  leader := Function.update ballots.leader t (some node)
  quorum := Function.update ballots.quorum t voters
  logs := Function.update ballots.logs t (ballots.voteLog node t)
  accepted := Function.update ballots.accepted node
    (Function.update (ballots.accepted node) t (ballots.voteLog node t).length)

/-- The leader appends an entry. -/
def extend (entry : Entry) : Ballots Node Entry where
  votes := ballots.votes
  voteLog := ballots.voteLog
  leader := ballots.leader
  quorum := ballots.quorum
  logs := Function.update ballots.logs t (ballots.logs t ++ [entry])
  accepted := Function.update ballots.accepted node
    (Function.update (ballots.accepted node) t ((ballots.logs t).length + 1))

/-- A node accepts the first `count` entries of the leader's log. -/
def accept (count : Nat) : Ballots Node Entry where
  votes := ballots.votes
  voteLog := ballots.voteLog
  leader := ballots.leader
  quorum := ballots.quorum
  logs := ballots.logs
  accepted := Function.update ballots.accepted node
    (Function.update (ballots.accepted node) t (max (ballots.accepted node t) count))

variable {ballots node t}

/-! ### Voting -/

theorem castVote_kept {voter candidate : Node} {u : Nat}
    (cast : ballots.votes voter u = some candidate) (vote : Option Node) (log : List Entry) :
    (ballots.castVote node t vote log).votes voter u = some candidate ∧
      (ballots.castVote node t vote log).voteLog voter u = ballots.voteLog voter u := by
  simp [castVote, cast]

variable (term ballots node t) in
theorem castVote_extends (vote : Option Node) (log : List Entry) :
    ExtendsBy term node ballots (ballots.castVote node t vote log) where
  votes voter u candidate cast := castVote_kept cast vote log
  leader _ _ leads := ⟨leads, rfl⟩
  logs _ := List.prefix_refl _
  own _ _ _ member := by simp [castVote] at member
  accepted _ _ := le_refl _
  votes_other other different := by
    funext u
    simp [castVote, different]
  voteLog_other other different := by
    funext u
    simp [castVote, different]
  accepted_other _ _ := rfl
  leader_other _ _ _ leads := ⟨leads, rfl⟩

/-- A vote after the update is an old one or the new one. -/
theorem castVote_cases {vote : Option Node} {log : List Entry} {voter candidate : Node}
    {u : Nat} (cast : (ballots.castVote node t vote log).votes voter u = some candidate) :
    (ballots.votes voter u = some candidate ∧
      (ballots.castVote node t vote log).voteLog voter u = ballots.voteLog voter u) ∨
    (voter = node ∧ u = t ∧ ballots.votes voter u = none ∧ vote = some candidate ∧
      (ballots.castVote node t vote log).voteLog voter u = log) := by
  by_cases fresh : voter = node ∧ u = t ∧ ballots.votes voter u = none
  · simp only [castVote, if_pos fresh] at cast
    exact .inr ⟨fresh.1, fresh.2.1, fresh.2.2, cast, if_pos fresh⟩
  · simp only [castVote, if_neg fresh] at cast
    exact .inl ⟨cast, if_neg fresh⟩

variable (term) in
/-- What a node checks, and what it holds, when it votes for `candidate`. -/
structure MayVote (ballots : Ballots Node Entry) (node : Node) (t : Nat) (log : List Entry)
    (candidate : Node) : Prop where
  backed : Backed term ballots.logs log
  ascends : TermsAscend term log
  asked : (candidate = node ∧ ∀ entry ∈ log, term entry < t) ∨
    (candidate ≠ node ∧ ballots.votes candidate t = some candidate ∧
      UpToDate term log (ballots.voteLog candidate t))
  held : ∀ s < t, ∀ value, value <+: ballots.logs s → value.length ≤ ballots.accepted node s →
    value <+: log ∨ ballots.Superseded value s (t + 1)

theorem Consistent.castVote (consistent : Consistent term members ballots)
    {vote : Option Node} {log : List Entry}
    (mayVote : ∀ candidate, vote = some candidate → ballots.votes node t = none →
      MayVote term ballots node t log candidate) :
    Consistent term members (ballots.castVote node t vote log) where
  idle := consistent.idle
  elected u leader leads := by
    rcases consistent.elected u leader leads with ⟨subset, majority, cast, own, starts⟩
    rcases castVote_kept own vote log with ⟨ownKept, ownLog⟩
    refine ⟨subset, majority, fun voter member => (castVote_kept (cast voter member) _ _).1,
      ownKept, ?_⟩
    rw [ownLog]
    exact starts
  logs_backed := consistent.logs_backed
  logs_ascend := consistent.logs_ascend
  logs_le := consistent.logs_le
  voted voter u candidate cast := by
    rcases castVote_cases cast with ⟨old, sameLog⟩ | ⟨rfl, rfl, fresh, isVote, newLog⟩
    · rcases consistent.voted voter u candidate old with ⟨own, upToDate⟩
      rcases castVote_kept own vote log with ⟨ownKept, ownLog⟩
      rw [sameLog, ownLog]
      exact ⟨ownKept, upToDate⟩
    · rcases (mayVote candidate isVote fresh).asked with
        ⟨rfl, -⟩ | ⟨-, own, upToDate⟩
      · rw [newLog]
        exact ⟨cast, .inr ⟨rfl, le_refl _⟩⟩
      · rcases castVote_kept own vote log with ⟨ownKept, ownLog⟩
        rw [newLog, ownLog]
        exact ⟨ownKept, upToDate⟩
  voteLog_backed voter u candidate cast := by
    rcases castVote_cases cast with ⟨old, sameLog⟩ | ⟨rfl, rfl, fresh, isVote, newLog⟩
    · rw [sameLog]
      exact consistent.voteLog_backed voter u candidate old
    · rw [newLog]
      exact (mayVote candidate isVote fresh).backed
  voteLog_ascend voter u candidate cast := by
    rcases castVote_cases cast with ⟨old, sameLog⟩ | ⟨rfl, rfl, fresh, isVote, newLog⟩
    · rw [sameLog]
      exact consistent.voteLog_ascend voter u candidate old
    · rw [newLog]
      exact (mayVote candidate isVote fresh).ascends
  candidate_lt candidate u cast := by
    rcases castVote_cases cast with ⟨old, sameLog⟩ | ⟨rfl, rfl, fresh, isVote, newLog⟩
    · rw [sameLog]
      exact consistent.candidate_lt candidate u old
    · rw [newLog]
      rcases (mayVote candidate isVote fresh).asked with ⟨-, older⟩ | ⟨different, -⟩
      · exact older
      · exact absurd rfl different
  accepted_le := consistent.accepted_le
  retained voter u candidate cast elector s before value within accepted := by
    rcases castVote_cases cast with ⟨old, sameLog⟩ | ⟨rfl, rfl, fresh, isVote, newLog⟩
    · rw [sameLog]
      exact consistent.retained voter u candidate old elector s before value within accepted
    · rw [newLog]
      -- A term that already has a leader was decided without this vote.
      have idle : ballots.leader u = none := by
        rcases elector with idle | elector
        · exact idle
        · by_contra led
          rcases Option.ne_none_iff_exists'.mp led with ⟨leader, leads⟩
          have cast := (consistent.elected u leader leads).2.2.1 voter elector
          rw [fresh] at cast
          cases cast
      rcases (mayVote candidate isVote fresh).held s before value within accepted with
        held | ⟨v, after, atMost, led, differs⟩
      · exact .inl held
      · have different : v ≠ u := fun same => led (same ▸ idle)
        exact .inr ⟨v, after, by omega, led, differs⟩

/-! ### Winning -/

theorem elect_logs_of_ne {u : Nat} (different : u ≠ t) :
    (ballots.elect node t voters).logs u = ballots.logs u := by
  simp [elect, different]

theorem elect_leader_of_ne {u : Nat} (different : u ≠ t) :
    (ballots.elect node t voters).leader u = ballots.leader u := by
  simp [elect, different]

theorem elect_accepted_of_ne {voter : Node} {u : Nat} (different : u ≠ t) :
    (ballots.elect node t voters).accepted voter u = ballots.accepted voter u := by
  by_cases same : voter = node
  · subst same
    simp [elect, different]
  · simp [elect, same]

variable (node) in
theorem elect_extends (consistent : Consistent term members ballots)
    (idle : ballots.leader t = none) (voters : Finset Node) :
    ExtendsBy term node ballots (ballots.elect node t voters) where
  votes _ _ _ cast := ⟨cast, rfl⟩
  leader u leader leads := by
    have different : u ≠ t := by
      rintro rfl
      rw [idle] at leads
      cases leads
    simp [elect, different, leads]
  logs u := by
    by_cases same : u = t
    · subst same
      rw [consistent.idle u idle]
      exact List.nil_prefix
    · rw [elect_logs_of_ne same]
  own u led entry member := by
    have different : u ≠ t := fun same => led (same ▸ idle)
    rw [elect_logs_of_ne different] at member
    simp at member
  accepted voter u := by
    by_cases same : u = t
    · subst same
      have none := consistent.accepted_le voter u
      rw [consistent.idle u idle, List.length_nil] at none
      omega
    · rw [elect_accepted_of_ne same]
  votes_other _ _ := rfl
  voteLog_other _ _ := rfl
  accepted_other other different := by simp [elect, different]
  leader_other u other different leads := by
    have notNow : u ≠ t := by
      rintro rfl
      simp only [elect, Function.update_self, Option.some.injEq] at leads
      exact different leads.symm
    rw [elect_leader_of_ne notNow] at leads
    exact ⟨leads, elect_logs_of_ne notNow⟩

theorem Consistent.elect (consistent : Consistent term members ballots)
    (idle : ballots.leader t = none) (subset : voters ⊆ members)
    (majority : members.card / 2 + 1 ≤ voters.card)
    (cast : ∀ voter ∈ voters, ballots.votes voter t = some node)
    (own : ballots.votes node t = some node) (latest : ∀ u, t < u → ballots.votes node u = none) :
    Consistent term members (ballots.elect node t voters) := by
  have grows := elect_extends node consistent idle voters
  constructor
  · intro u notLed
    have different : u ≠ t := by
      rintro rfl
      simp [Ballots.elect] at notLed
    rw [elect_leader_of_ne different] at notLed
    rw [elect_logs_of_ne different]
    exact consistent.idle u notLed
  · intro u leader leads
    by_cases same : u = t
    · subst same
      simp only [Ballots.elect, Function.update_self, Option.some.injEq] at leads ⊢
      subst leads
      exact ⟨subset, majority, cast, own, List.prefix_refl _⟩
    · rw [elect_leader_of_ne same] at leads
      rw [elect_logs_of_ne same]
      simpa [Ballots.elect, same] using consistent.elected u leader leads
  · intro u
    by_cases same : u = t
    · subst same
      have backed := consistent.voteLog_backed node u node own
      simpa [Ballots.elect] using backed.mono grows.logs
    · rw [elect_logs_of_ne same]
      exact (consistent.logs_backed u).mono grows.logs
  · intro u
    by_cases same : u = t
    · subst same
      simpa [Ballots.elect] using consistent.voteLog_ascend node u node own
    · rw [elect_logs_of_ne same]
      exact consistent.logs_ascend u
  · intro u entry member
    by_cases same : u = t
    · subst same
      simp only [Ballots.elect, Function.update_self] at member
      exact (consistent.candidate_lt node u own entry member).le
    · rw [elect_logs_of_ne same] at member
      exact consistent.logs_le u entry member
  · exact consistent.voted
  · intro voter u candidate voted
    exact (consistent.voteLog_backed voter u candidate voted).mono grows.logs
  · exact consistent.voteLog_ascend
  · exact consistent.candidate_lt
  · intro voter u
    by_cases same : u = t
    · subst same
      have none := consistent.accepted_le voter u
      rw [consistent.idle u idle, List.length_nil] at none
      by_cases sameNode : voter = node
      · subst sameNode
        simp [Ballots.elect]
      · simp [Ballots.elect, sameNode]
        omega
    · rw [elect_accepted_of_ne same, elect_logs_of_ne same]
      exact consistent.accepted_le voter u
  · intro voter u candidate voted elector s before value within accepted
    have electorBefore : ballots.leader u = none ∨ voter ∈ ballots.quorum u := by
      by_cases same : u = t
      · exact .inl (same ▸ idle)
      · simpa [Ballots.elect, same] using elector
    by_cases same : s = t
    · -- Nobody but the new leader has accepted anything of its log yet.
      subst same
      have different : voter ≠ node := by
        rintro rfl
        change ballots.votes voter u = some candidate at voted
        rw [latest u before] at voted
        cases voted
      have none := consistent.accepted_le voter s
      rw [consistent.idle s idle, List.length_nil] at none
      have isNil : value = [] := by
        simp only [Ballots.elect, Function.update_of_ne different] at accepted
        exact List.length_eq_zero_iff.mp (by omega)
      rw [isNil]
      exact .inl List.nil_prefix
    · rw [elect_logs_of_ne same] at within
      rw [elect_accepted_of_ne same] at accepted
      rcases consistent.retained voter u candidate voted electorBefore s before value within
        accepted with held | superseded
      · exact .inl held
      · exact .inr (grows.superseded consistent within superseded)

/-! ### Appending -/

theorem extend_logs_of_ne {entry : Entry} {u : Nat} (different : u ≠ t) :
    (ballots.extend node t entry).logs u = ballots.logs u := by
  simp [extend, different]

theorem extend_extends (consistent : Consistent term members ballots) {entry : Entry}
    (leads : ballots.leader t = some node) (stamped : term entry = t) :
    ExtendsBy term node ballots (ballots.extend node t entry) where
  votes _ _ _ cast := ⟨cast, rfl⟩
  leader _ _ leads := ⟨leads, rfl⟩
  logs u := by
    by_cases same : u = t
    · subst same
      simp [extend]
    · rw [extend_logs_of_ne same]
  own u _ other member := by
    by_cases same : u = t
    · subst same
      simp only [extend, Function.update_self, List.drop_left, List.mem_singleton] at member
      rw [member, stamped]
    · rw [extend_logs_of_ne same] at member
      simp at member
  accepted voter u := by
    have bound := consistent.accepted_le voter u
    by_cases sameNode : voter = node
    · subst sameNode
      by_cases same : u = t
      · subst same
        simp [extend]
        omega
      · simp [extend, same]
    · simp [extend, sameNode]
  votes_other _ _ := rfl
  voteLog_other _ _ := rfl
  accepted_other other different := by simp [extend, different]
  leader_other u other different ledByOther := by
    refine ⟨ledByOther, extend_logs_of_ne ?_⟩
    rintro rfl
    change ballots.leader u = some other at ledByOther
    rw [leads] at ledByOther
    exact different (Option.some.inj ledByOther).symm

theorem Consistent.extend (consistent : Consistent term members ballots) {entry : Entry}
    (leads : ballots.leader t = some node) (stamped : term entry = t)
    (latest : ∀ u, t < u → ballots.votes node u = none) :
    Consistent term members (ballots.extend node t entry) := by
  have grows := extend_extends consistent leads stamped
  have atTerm : (ballots.extend node t entry).logs t = ballots.logs t ++ [entry] := by
    simp [Ballots.extend]
  constructor
  · intro u notLed
    have different : u ≠ t := by
      rintro rfl
      change ballots.leader u = none at notLed
      rw [leads] at notLed
      cases notLed
    rw [extend_logs_of_ne different]
    exact consistent.idle u notLed
  · intro u leader ledBy
    rcases consistent.elected u leader ledBy with ⟨subset, majority, cast, own, starts⟩
    exact ⟨subset, majority, cast, own, starts.trans (grows.logs u)⟩
  · intro u
    by_cases same : u = t
    · subst same
      rw [atTerm]
      apply ((consistent.logs_backed u).mono grows.logs).append_singleton
      rw [stamped, atTerm]
    · rw [extend_logs_of_ne same]
      exact (consistent.logs_backed u).mono grows.logs
  · intro u
    by_cases same : u = t
    · subst same
      rw [atTerm]
      apply (consistent.logs_ascend u).append_singleton
      rw [stamped]
      exact consistent.logs_le u
    · rw [extend_logs_of_ne same]
      exact consistent.logs_ascend u
  · intro u other member
    by_cases same : u = t
    · subst same
      rw [atTerm] at member
      rcases List.mem_append.mp member with old | new
      · exact consistent.logs_le u other old
      · rw [List.mem_singleton.mp new, stamped]
    · rw [extend_logs_of_ne same] at member
      exact consistent.logs_le u other member
  · exact consistent.voted
  · intro voter u candidate voted
    exact (consistent.voteLog_backed voter u candidate voted).mono grows.logs
  · exact consistent.voteLog_ascend
  · exact consistent.candidate_lt
  · intro voter u
    have bound := (consistent.accepted_le voter u).trans (grows.logs u).length_le
    by_cases sameNode : voter = node
    · subst sameNode
      by_cases same : u = t
      · subst same
        simp [Ballots.extend]
      · simpa [Ballots.extend, same] using bound
    · simpa [Ballots.extend, sameNode] using bound
  · intro voter u candidate voted elector s before value within accepted
    have acceptedBefore : value.length ≤ ballots.accepted voter s := by
      by_cases sameNode : voter = node
      · subst sameNode
        by_cases same : s = t
        · subst same
          change ballots.votes voter u = some candidate at voted
          rw [latest u before] at voted
          cases voted
        · simpa [Ballots.extend, same] using accepted
      · simpa [Ballots.extend, sameNode] using accepted
    have withinBefore : value <+: ballots.logs s :=
      List.prefix_of_prefix_length_le within (grows.logs s)
        (acceptedBefore.trans (consistent.accepted_le voter s))
    rcases consistent.retained voter u candidate voted elector s before value withinBefore
      acceptedBefore with held | superseded
    · exact .inl held
    · exact .inr (grows.superseded consistent withinBefore superseded)

/-! ### Accepting -/

theorem accept_accepted {count : Nat} (voter : Node) (u : Nat) :
    (ballots.accept node t count).accepted voter u =
      if voter = node ∧ u = t then max (ballots.accepted node t) count
      else ballots.accepted voter u := by
  by_cases sameNode : voter = node
  · subst sameNode
    by_cases same : u = t
    · subst same
      simp [accept]
    · simp [accept, same]
  · simp [accept, sameNode]

variable (term ballots node t) in
theorem accept_extends (count : Nat) :
    ExtendsBy term node ballots (ballots.accept node t count) where
  votes _ _ _ cast := ⟨cast, rfl⟩
  leader _ _ leads := ⟨leads, rfl⟩
  logs _ := List.prefix_refl _
  own _ _ _ member := by simp [accept] at member
  accepted voter u := by
    rw [accept_accepted]
    split
    · next now =>
        rw [now.1, now.2]
        exact le_max_left _ _
    · exact le_refl _
  votes_other _ _ := rfl
  voteLog_other _ _ := rfl
  accepted_other other different := by simp [accept, different]
  leader_other _ _ _ leads := ⟨leads, rfl⟩

theorem Consistent.accept (consistent : Consistent term members ballots) {count : Nat}
    (within : count ≤ (ballots.logs t).length)
    (latest : ∀ u, t < u → ballots.votes node u = none) :
    Consistent term members (ballots.accept node t count) where
  idle := consistent.idle
  elected := consistent.elected
  logs_backed := consistent.logs_backed
  logs_ascend := consistent.logs_ascend
  logs_le := consistent.logs_le
  voted := consistent.voted
  voteLog_backed := consistent.voteLog_backed
  voteLog_ascend := consistent.voteLog_ascend
  candidate_lt := consistent.candidate_lt
  accepted_le voter u := by
    have bound := consistent.accepted_le voter u
    rw [accept_accepted]
    split
    · next now =>
        rw [now.1, now.2] at bound
        rw [now.2]
        exact max_le bound within
    · exact bound
  retained voter u candidate voted elector s before value inside accepted := by
    rw [accept_accepted] at accepted
    split at accepted
    · next now =>
        change ballots.votes voter u = some candidate at voted
        rw [now.1, latest u (now.2 ▸ before)] at voted
        cases voted
    · exact consistent.retained voter u candidate voted elector s before value inside accepted

end Updates

end Ballots

end GStore
