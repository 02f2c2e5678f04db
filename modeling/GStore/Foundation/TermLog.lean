import Mathlib.Data.List.Infix
import Mathlib.Data.List.Basic

/-! # Logs of term-stamped entries

Every entry of a replicated log carries the term of the leader that created it.
A log is backed by a family of leader logs, one a term, when each of its
prefixes is a prefix of the log of the leader of its last entry. -/

namespace GStore

variable {Entry : Type*} (term : Entry → Nat) {logs : Nat → List Entry}

/-- Two prefixes of one list are prefixes of one another. -/
theorem prefix_or_prefix {α : Type*} {left right whole : List α}
    (leftPrefix : left <+: whole) (rightPrefix : right <+: whole) :
    left <+: right ∨ right <+: left := by
  rcases le_total left.length right.length with shorter | longer
  · exact .inl (List.prefix_of_prefix_length_le leftPrefix rightPrefix shorter)
  · exact .inr (List.prefix_of_prefix_length_le rightPrefix leftPrefix longer)

theorem eq_of_prefix_of_length_eq {α : Type*} {left right whole : List α}
    (leftPrefix : left <+: whole) (rightPrefix : right <+: whole)
    (sameLength : left.length = right.length) : left = right :=
  (List.prefix_of_prefix_length_le leftPrefix rightPrefix sameLength.le).eq_of_length sameLength

/-! ## Terms along a log -/

/-- The term of the last entry, 0 for an empty log. -/
def lastTerm (log : List Entry) : Nat := (log.getLast?.map term).getD 0

@[simp] theorem lastTerm_nil : lastTerm term [] = 0 := rfl

@[simp] theorem lastTerm_append_singleton (front : List Entry) (entry : Entry) :
    lastTerm term (front ++ [entry]) = term entry := by
  simp [lastTerm]

/-- Terms never decrease along a log. -/
def TermsAscend (log : List Entry) : Prop := log.Pairwise fun left right => term left ≤ term right

variable {term}

theorem TermsAscend.ofPrefix {front log : List Entry} (ascends : TermsAscend term log)
    (isPrefix : front <+: log) : TermsAscend term front :=
  List.Pairwise.sublist isPrefix.sublist ascends

theorem TermsAscend.append_singleton {log : List Entry} {entry : Entry}
    (ascends : TermsAscend term log) (bounded : ∀ other ∈ log, term other ≤ term entry) :
    TermsAscend term (log ++ [entry]) := by
  rw [TermsAscend, List.pairwise_append]
  refine ⟨ascends, List.pairwise_singleton _ _, ?_⟩
  intro other member last lastMember
  rw [List.mem_singleton] at lastMember
  rw [lastMember]
  exact bounded other member

/-- No entry of an ascending log has a term above the last one. -/
theorem TermsAscend.le_lastTerm {log : List Entry} (ascends : TermsAscend term log)
    {entry : Entry} (member : entry ∈ log) : term entry ≤ lastTerm term log := by
  rcases List.eq_nil_or_concat log with rfl | ⟨front, last, rfl⟩
  · cases member
  · rw [List.concat_eq_append] at *
    rw [lastTerm_append_singleton]
    rcases List.mem_append.mp member with inFront | isLast
    · exact (List.pairwise_append.mp ascends).2.2 entry inFront last (List.mem_singleton_self last)
    · rw [List.mem_singleton.mp isLast]

variable (term)

/-- The election restriction: `candidate` is at least as up to date as `voter`. -/
def UpToDate (voter candidate : List Entry) : Prop :=
  lastTerm term voter < lastTerm term candidate ∨
    (lastTerm term voter = lastTerm term candidate ∧ voter.length ≤ candidate.length)

/-! ## Backed logs -/

/-- Each prefix of `log` is a prefix of the leader log of its last entry's term. -/
def Backed (logs : Nat → List Entry) (log : List Entry) : Prop :=
  ∀ front entry, front ++ [entry] <+: log → front ++ [entry] <+: logs (term entry)

variable {term}

theorem Backed.nil (logs : Nat → List Entry) : Backed term logs [] := by
  intro front entry isPrefix
  simp at isPrefix

theorem Backed.ofPrefix {front log : List Entry} (backed : Backed term logs log)
    (isPrefix : front <+: log) : Backed term logs front :=
  fun start entry within => backed start entry (within.trans isPrefix)

theorem Backed.mono {logs grown : Nat → List Entry} {log : List Entry}
    (backed : Backed term logs log) (grows : ∀ t, logs t <+: grown t) :
    Backed term grown log :=
  fun front entry within => (backed front entry within).trans (grows (term entry))

theorem Backed.append_singleton {log : List Entry} {entry : Entry} (backed : Backed term logs log)
    (leads : log ++ [entry] <+: logs (term entry)) : Backed term logs (log ++ [entry]) := by
  intro front last within
  rcases List.prefix_concat_iff.mp within with whole | inside
  · rw [List.append_inj_right' whole rfl |> List.singleton_inj.mp,
      List.append_inj_left' whole rfl]
    exact leads
  · exact backed front last inside

/-- Log matching: backed logs that agree on the term at one index agree up to it. -/
theorem Backed.agree {left right : List Entry} (leftBacked : Backed term logs left)
    (rightBacked : Backed term logs right) {leftFront rightFront : List Entry}
    {leftEntry rightEntry : Entry} (leftPrefix : leftFront ++ [leftEntry] <+: left)
    (rightPrefix : rightFront ++ [rightEntry] <+: right)
    (sameLength : leftFront.length = rightFront.length)
    (sameTerm : term leftEntry = term rightEntry) :
    leftFront ++ [leftEntry] = rightFront ++ [rightEntry] := by
  have leftLed := leftBacked _ _ leftPrefix
  have rightLed := rightBacked _ _ rightPrefix
  rw [← sameTerm] at rightLed
  exact eq_of_prefix_of_length_eq leftLed rightLed (by simp [sameLength])

/-! ## Overwriting a conflicting suffix -/

variable (term)

/-- Write `entry` at `index` of `log`. An entry of the same term is left alone; one
of another term is replaced and what follows it dropped. -/
def overwriteAt (log : List Entry) (index : Nat) (entry : Entry) : List Entry :=
  match log[index]? with
  | some old => if term old ≠ term entry then log.take index ++ [entry] else log
  | none => log ++ [entry]

/-- Write `entries` into `log` from `index` on. -/
def overwrite : List Entry → Nat → List Entry → List Entry
  | log, _, [] => log
  | log, index, entry :: rest => overwrite (overwriteAt term log index entry) (index + 1) rest

/-- Past the end of the log, overwriting appends. -/
theorem overwrite_length (entries : List Entry) : ∀ log : List Entry,
    overwrite term log log.length entries = log ++ entries := by
  induction entries with
  | nil => intro log; simp [overwrite]
  | cons entry rest induction =>
    intro log
    have longer := induction (log ++ [entry])
    rw [List.length_append, List.length_singleton] at longer
    simp [overwrite, overwriteAt, longer]

variable {term}

/-- The log after overwriting: nothing changes if the entries are all there;
otherwise it ends with them. -/
theorem overwrite_cases (entries : List Entry) :
    ∀ {log front : List Entry}, Backed term logs log → front <+: log →
      Backed term logs (front ++ entries) →
      (front ++ entries <+: log ∧ overwrite term log front.length entries = log) ∨
      (¬ front ++ entries <+: log ∧
        overwrite term log front.length entries = front ++ entries) := by
  induction entries with
  | nil =>
    intro log front _ within _
    left
    simp [overwrite, within]
  | cons entry rest induction =>
    intro log front backed within targetBacked
    have target : front ++ entry :: rest = (front ++ [entry]) ++ rest := by simp
    have frontier : (front ++ [entry]).length = front.length + 1 := by simp
    rcases within with ⟨tail, rfl⟩
    cases tail with
    | nil =>
      right
      have written := overwrite_length term rest (front ++ [entry])
      rw [frontier] at written
      have longer : ¬ front ++ entry :: rest <+: front := by
        intro inside
        have lengths := inside.length_le
        rw [List.length_append, List.length_cons] at lengths
        omega
      simp [overwrite, overwriteAt, written, longer]
    | cons old tail =>
      have oldPrefix : front ++ [old] <+: front ++ old :: tail := by simp
      have newPrefix : front ++ [entry] <+: front ++ entry :: rest := by simp
      by_cases sameTerm : term old = term entry
      · have same := backed.agree targetBacked oldPrefix newPrefix rfl sameTerm
        have same : old = entry := by simpa using same
        subst same
        have further := induction backed oldPrefix (by rwa [← target])
        rw [frontier, ← target] at further
        simpa [overwrite, overwriteAt] using further
      · right
        have written := overwrite_length term rest (front ++ [entry])
        rw [frontier] at written
        have different : old ≠ entry := fun same => sameTerm (congrArg term same)
        simp [overwrite, overwriteAt, sameTerm, written, different.symm]

theorem written_prefix_overwrite {log front entries : List Entry} (backed : Backed term logs log)
    (within : front <+: log) (targetBacked : Backed term logs (front ++ entries)) :
    front ++ entries <+: overwrite term log front.length entries := by
  rcases overwrite_cases entries backed within targetBacked with
    ⟨inside, unchanged⟩ | ⟨-, written⟩
  · rwa [unchanged]
  · rw [written]

/-- What a log shares with the target's own whole survives the overwriting. -/
theorem prefix_overwrite {log front entries value whole : List Entry}
    (backed : Backed term logs log) (within : front <+: log)
    (targetPrefix : front ++ entries <+: whole) (wholeBacked : Backed term logs whole)
    (valuePrefix : value <+: log) (shared : value <+: whole) :
    value <+: overwrite term log front.length entries := by
  rcases overwrite_cases entries backed within (wholeBacked.ofPrefix targetPrefix) with
    ⟨-, unchanged⟩ | ⟨conflict, written⟩
  · rwa [unchanged]
  · rw [written]
    rcases prefix_or_prefix shared targetPrefix with inside | outside
    · exact inside
    · exact absurd (outside.trans valuePrefix) conflict

end GStore
