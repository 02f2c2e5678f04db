import GStore.Db.RedoRecord
import GStore.Foundation.Codec

/-! # Replaying the logs

`db/mod.rs`, `replay_records` and `apply_redo_records`: a log file is read record by record, with
positions and lengths that are `usize`. A sum that the type has no room for, or a slice out of the
file, is a panic. What is done with a record is a parameter that answers a new state, and the
problem that ends the replay if there is one. -/

namespace GStore.Db

open Reason

/-! ## Positions -/

/-- `str::parse::<usize>`. -/
def parseUsize64 (text : Text) : Option Nat := (parseUsize text).filter (· < 2 ^ 64)

inductive ReplayError (ε : Type) where
  | truncatedHeader
  | headerText
  | malformedHeader (header : Text)
  | missingOp
  | missingLength
  | missingGraphLength
  | missingTripleLength
  | truncatedBody
  | bodyText
  | graphText
  | tripleText
  | rejected (problem : ε)
  /-- A recursion of the model went too deep; the source has no such error. -/
  | exhausted

abbrev Replayed (ε α : Type) := Except (Stop (ReplayError ε)) α

section Reading

variable {ε : Type}

def addUsize (left right : Nat) : Replayed ε Nat :=
  if left + right < 2 ^ 64 then .ok (left + right) else .error .panic

/-- `&bytes[start..stop]`. -/
def bytesAt (bytes : Bytes) (start stop : Nat) : Replayed ε Bytes :=
  if start ≤ stop ∧ stop ≤ bytes.length then .ok (slice bytes start stop) else .error .panic

def textAt (bytes : Bytes) (start stop : Nat) (problem : ReplayError ε) : Replayed ε Text := do
  match fromUtf8 (← bytesAt bytes start stop) with
  | some text => return text
  | none => .error (.problem problem)

/-- The header that starts at a position, and the position of the end of its line. -/
def headerLine (bytes : Bytes) (pos : Nat) : Replayed ε (Text × Nat) := do
  let rest ← bytesAt bytes pos bytes.length
  match rest.findIdx? (· == 10) with
  | none => .error (.problem .truncatedHeader)
  | some index => do
    let header ← textAt bytes pos (pos + index) .headerText
    return (header, pos + index)

/-- Behind the newline that ends a record, or the end of the file. -/
def nextPos (bytes : Bytes) (stop : Nat) : Replayed ε Nat :=
  return min (← addUsize stop 1) bytes.length

/-! ## The update log -/

/-- A record of the update log: when, how many triples it changed, and the statement. -/
structure UpdateEntry where
  millis : Nat
  changed : Nat
  sparql : Text

/-- The statement of a record, and where the next record starts. -/
def readUpdate (bytes : Bytes) (pos : Nat) : Replayed ε (Text × Nat) := do
  let (header, nl) ← headerLine bytes pos
  let words := splitWhitespace [] header
  if words[0]? ≠ some ['R', 'E', 'C'] then .error (.problem (.malformedHeader header))
  else
    match words[3]?.bind parseUsize64 with
    | none => .error (.problem .missingLength)
    | some length => do
      let start ← addUsize nl 1
      let stop ← addUsize start length
      if bytes.length < stop then .error (.problem .truncatedBody)
      else do
        let sparql ← textAt bytes start stop .bodyText
        return (sparql, ← nextPos bytes stop)

/-! ## The redo log -/

/-- The fields of a redo record as they are read. -/
structure RedoFields where
  op : Char
  graph : Option Text
  triple : Text
deriving DecidableEq

def readRedo (bytes : Bytes) (pos : Nat) : Replayed ε (RedoFields × Nat) := do
  let (header, nl) ← headerLine bytes pos
  let words := splitWhitespace [] header
  if words[0]? ≠ some magic then .error (.problem (.malformedHeader header))
  else
    match words[1]?.bind List.head?, words[2]?.bind parseUsize64, words[3]?.bind parseUsize64 with
    | none, _, _ => .error (.problem .missingOp)
    | some _, none, _ => .error (.problem .missingGraphLength)
    | some _, some _, none => .error (.problem .missingTripleLength)
    | some op, some graphLength, some tripleLength => do
      let graphStart ← addUsize nl 1
      let graphEnd ← addUsize graphStart graphLength
      let tripleEnd ← addUsize graphEnd tripleLength
      if bytes.length < tripleEnd then .error (.problem .truncatedBody)
      else do
        let graph ← textAt bytes graphStart graphEnd .graphText
        let triple ← textAt bytes graphEnd tripleEnd .tripleText
        let graph := if graph = [] then none else some graph
        return ({ op, graph, triple }, ← nextPos bytes tripleEnd)

end Reading

/-! ## The loop -/

section Loop

variable {σ ε α : Type} (read : Bytes → Nat → Replayed ε (α × Nat)) (apply : α → σ → σ × Option ε)
  (bytes : Bytes)

/-- From a position on, with what was applied already. -/
def replayLoop : Nat → Nat → Nat → σ → σ × Replayed ε Nat
  | 0, _, _, state => (state, .error (.problem .exhausted))
  | fuel + 1, pos, applied, state =>
    if pos < bytes.length then
      match read bytes pos with
      | .error stop => (state, .error stop)
      | .ok (item, next) =>
        match apply item state with
        | (state, some problem) => (state, .error (.problem (.rejected problem)))
        | (state, none) => replayLoop fuel next (applied + 1) state
    else (state, .ok applied)

/-- Every record is at least its newline. -/
def replay (state : σ) : σ × Replayed ε Nat :=
  replayLoop read apply bytes (bytes.length + 1) 0 0 state

/-- The records applied in order, up to the first that is rejected. -/
def applyEach : List α → Nat → σ → σ × Replayed ε Nat
  | [], applied, state => (state, .ok applied)
  | item :: rest, applied, state =>
    match apply item state with
    | (state, some problem) => (state, .error (.problem (.rejected problem)))
    | (state, none) => applyEach rest (applied + 1) state

end Loop

section Replay

variable {σ ε : Type}

/-- `replay_records`, with the query that runs a statement. -/
def replayRecords (query : Text → σ → σ × Option ε) (bytes : Bytes) (state : σ) :
    σ × Replayed ε Nat :=
  replay readUpdate query bytes state

/-- What a redo record may be rejected for. -/
inductive ApplyError (ε : Type) where
  | triple (problem : ε)
  | unknownOp (op : Char)

variable (parse : Text → Except ε (List Triple)) (insertQuad deleteQuad : Triple → Option Text → σ → σ)

def applyTriples (op : Char) (graph : Option Text) :
    List Triple → σ → σ × Option (ApplyError ε)
  | [], state => (state, none)
  | triple :: rest, state =>
    if op = 'I' then applyTriples op graph rest (insertQuad triple graph state)
    else if op = 'D' then applyTriples op graph rest (deleteQuad triple graph state)
    else (state, some (.unknownOp op))

def applyRecord (record : RedoFields) (state : σ) : σ × Option (ApplyError ε) :=
  match parse record.triple with
  | .error problem => (state, some (.triple problem))
  | .ok triples => applyTriples insertQuad deleteQuad record.op record.graph triples state

/-- `apply_redo_records`. -/
def applyRedoRecords (bytes : Bytes) (state : σ) : σ × Replayed (ApplyError ε) Nat :=
  replay readRedo (applyRecord parse insertQuad deleteQuad) bytes state

end Replay

/-! ## Writing -/

namespace UpdateEntry

/-- `REC <millis> <changed> <byte_len>`. -/
def header (entry : UpdateEntry) : Text :=
  ['R', 'E', 'C'] ++ ' ' :: (Nat.toDigits 10 entry.millis ++ ' ' :: (Nat.toDigits 10 entry.changed ++
    ' ' :: Nat.toDigits 10 (utf8 entry.sparql).length))

def bytes (entry : UpdateEntry) : Bytes :=
  utf8 entry.header ++ 10 :: (utf8 entry.sparql ++ [10])

end UpdateEntry

/-- `append_update_log`, onto an empty file, once for each entry. -/
def updateFile (entries : List UpdateEntry) : Bytes := entries.flatMap UpdateEntry.bytes

/-- The fields that a record was written with. -/
def RedoRec.fields (record : RedoRec) : RedoFields where
  op := record.op.char
  graph := record.graph
  triple := record.triple

/-! ## The loop -/

section LoopFacts

variable {σ ε α : Type} {read : Bytes → Nat → Replayed ε (α × Nat)} {apply : α → σ → σ × Option ε}
  {bytes : Bytes}

/-- A record that is read ends behind its start and within the file. -/
structure Advances (read : Bytes → Nat → Replayed ε (α × Nat)) (bytes : Bytes) : Prop where
  next : ∀ {pos item next}, pos < bytes.length → read bytes pos = .ok (item, next) →
    pos < next ∧ next ≤ bytes.length
  bounded : ∀ {pos}, pos < bytes.length → read bytes pos ≠ .error (.problem .exhausted)

/-- The replay comes from one position and state to another one. -/
inductive Reaches (read : Bytes → Nat → Replayed ε (α × Nat)) (apply : α → σ → σ × Option ε)
    (bytes : Bytes) : Nat → σ → Nat → σ → Prop
  | refl (pos : Nat) (state : σ) : Reaches read apply bytes pos state pos state
  | step {pos next last : Nat} {state middle after : σ} {item : α} (inside : pos < bytes.length)
      (reads : read bytes pos = .ok (item, next)) (applied : apply item state = (middle, none))
      (later : Reaches read apply bytes next middle last after) :
      Reaches read apply bytes pos state last after

/-- The replay ends. -/
theorem replayLoop_ne_exhausted (advances : Advances read bytes) {fuel : Nat} :
    ∀ {pos applied : Nat} {state : σ}, bytes.length < pos + fuel → pos ≤ bytes.length →
      (replayLoop read apply bytes fuel pos applied state).2 ≠ .error (.problem .exhausted) := by
  induction fuel with
  | zero =>
    intro pos applied state enough within
    omega
  | succ fuel induction =>
    intro pos applied state enough within
    rw [replayLoop]
    by_cases inside : pos < bytes.length
    · rw [if_pos inside]
      cases reads : read bytes pos with
      | error stop =>
        intro exhausted
        cases exhausted
        exact advances.bounded inside reads
      | ok step =>
        obtain ⟨further, within⟩ := advances.next inside reads
        dsimp only
        cases applied : apply step.1 state with
        | mk middle rejected =>
          cases rejected with
          | some problem => exact nofun
          | none => exact induction (by omega) within
    · rw [if_neg inside]
      exact nofun

/-- It panics just where a record is reached whose reading does. -/
theorem replayLoop_panic_iff (advances : Advances read bytes) {fuel : Nat} :
    ∀ {pos applied : Nat} {state : σ}, bytes.length < pos + fuel → pos ≤ bytes.length →
      ((replayLoop read apply bytes fuel pos applied state).2 = .error .panic ↔
        ∃ last after, Reaches read apply bytes pos state last after ∧ last < bytes.length ∧
          read bytes last = .error .panic) := by
  induction fuel with
  | zero =>
    intro pos applied state enough within
    omega
  | succ fuel induction =>
    intro pos applied state enough within
    rw [replayLoop]
    by_cases inside : pos < bytes.length
    · rw [if_pos inside]
      cases reads : read bytes pos with
      | error stop =>
        constructor
        · intro panicked
          cases panicked
          exact ⟨pos, state, .refl pos state, inside, reads⟩
        · rintro ⟨last, after, reaches, -, panics⟩
          cases reaches with
          | refl => exact congrArg Except.error (Except.error.inj (reads.symm.trans panics))
          | step _ other => cases reads.symm.trans other
      | ok step =>
        obtain ⟨further, within⟩ := advances.next inside reads
        dsimp only
        cases applied : apply step.1 state with
        | mk middle rejected =>
          cases rejected with
          | some problem =>
            dsimp only
            constructor
            · intro impossible
              cases impossible
            · rintro ⟨last, after, reaches, -, panics⟩
              cases reaches with
              | refl => cases reads.symm.trans panics
              | step _ other accepted =>
                cases reads.symm.trans other
                cases applied.symm.trans accepted
          | none =>
            dsimp only
            rw [induction (by omega) within]
            constructor
            · rintro ⟨last, after, reaches, left, panics⟩
              exact ⟨last, after, .step inside reads applied reaches, left, panics⟩
            · rintro ⟨last, after, reaches, left, panics⟩
              cases reaches with
              | refl => cases reads.symm.trans panics
              | step _ other accepted later =>
                cases reads.symm.trans other
                cases applied.symm.trans accepted
                exact ⟨last, after, later, left, panics⟩
    · rw [if_neg inside]
      dsimp only
      constructor
      · intro impossible
        cases impossible
      · rintro ⟨last, after, reaches, left, -⟩
        cases reaches with
        | refl => exact absurd left inside
        | step here => exact absurd here inside

/-- Where every record is read as it was written, the replay applies the records in order. -/
theorem replayLoop_records {β : Type} {encode : β → Bytes} {value : β → α}
    (nonempty : ∀ record, encode record ≠ [])
    (reads : ∀ front record rest, (front ++ (encode record ++ rest)).length < 2 ^ 63 →
      read (front ++ (encode record ++ rest)) front.length =
        .ok (value record, front.length + (encode record).length)) (records : List β) :
    ∀ {fuel applied : Nat} {state : σ} (front : Bytes),
      (front ++ records.flatMap encode).length < 2 ^ 63 → (records.flatMap encode).length < fuel →
      replayLoop read apply (front ++ records.flatMap encode) fuel front.length applied state =
        applyEach apply (records.map value) applied state := by
  induction records with
  | nil =>
    intro fuel applied state front fits enough
    cases fuel with
    | zero => cases enough
    | succ fuel =>
      rw [replayLoop, List.flatMap_nil, List.append_nil, if_neg (Nat.lt_irrefl _)]
      rfl
  | cons record rest induction =>
    intro fuel applied state front fits enough
    have positive := List.length_pos_of_ne_nil (nonempty record)
    cases fuel with
    | zero => cases enough
    | succ fuel =>
      rw [List.flatMap_cons] at fits enough ⊢
      have inside : front.length < (front ++ (encode record ++ rest.flatMap encode)).length := by
        rw [List.length_append, List.length_append]
        omega
      rw [replayLoop, if_pos inside, reads front record _ fits, List.map_cons, applyEach]
      dsimp only
      cases apply (value record) state with
      | mk middle rejected =>
        cases rejected with
        | some problem => rfl
        | none =>
          rw [← List.append_assoc] at fits ⊢
          rw [← List.length_append]
          rw [List.length_append] at enough
          exact induction (front ++ encode record) fits (by omega)

end LoopFacts

/-! ## Headers -/

section Headers

variable {ε : Type} {bytes : Bytes} {pos nl start stop : Nat} {header : Text}

/-- A header that starts at a position, and the newline behind it. -/
def HeaderAt (bytes : Bytes) (pos : Nat) (header : Text) (nl : Nat) : Prop :=
  ∃ index, (slice bytes pos bytes.length).findIdx? (· == 10) = some index ∧
    fromUtf8 (slice bytes pos (pos + index)) = some header ∧ nl = pos + index

theorem bytesAt_of_le (ordered : start ≤ stop) (within : stop ≤ bytes.length) :
    (bytesAt bytes start stop : Replayed ε Bytes) = .ok (slice bytes start stop) :=
  if_pos ⟨ordered, within⟩

theorem textAt_of_le (ordered : start ≤ stop) (within : stop ≤ bytes.length)
    (problem : ReplayError ε) : textAt bytes start stop problem =
      match fromUtf8 (slice bytes start stop) with
      | some text => .ok text
      | none => .error (.problem problem) := by
  rw [textAt, bytesAt_of_le ordered within]
  rfl

theorem nextPos_of_le (fits : bytes.length < 2 ^ 63) (within : stop ≤ bytes.length) :
    (nextPos bytes stop : Replayed ε Nat) = .ok (min (stop + 1) bytes.length) := by
  rw [nextPos, addUsize, if_pos (by omega)]
  rfl

theorem HeaderAt.lt (here : HeaderAt bytes pos header nl) : pos ≤ nl ∧ nl < bytes.length := by
  obtain ⟨index, found, -, rfl⟩ := here
  have inside := (List.findIdx?_eq_some_iff_findIdx_eq.mp found).1
  rw [slice, List.length_drop, List.length_take, Nat.min_self] at inside
  omega

theorem HeaderAt.unique {other : Text} {otherNl : Nat} (here : HeaderAt bytes pos header nl)
    (there : HeaderAt bytes pos other otherNl) : header = other ∧ nl = otherNl := by
  obtain ⟨index, found, text, rfl⟩ := here
  obtain ⟨otherIndex, otherFound, otherText, rfl⟩ := there
  obtain rfl := Option.some.inj (found.symm.trans otherFound)
  exact ⟨Option.some.inj (text.symm.trans otherText), rfl⟩

/-- A header is read, or the problem with it is said. -/
theorem headerLine_cases (inside : pos < bytes.length) :
    (∃ header nl, (headerLine bytes pos : Replayed ε _) = .ok (header, nl) ∧
      HeaderAt bytes pos header nl) ∨
    ((∀ header nl, ¬ HeaderAt bytes pos header nl) ∧
      ∃ problem, problem ≠ .exhausted ∧
        (headerLine bytes pos : Replayed ε _) = .error (.problem problem)) := by
  have whole : (headerLine bytes pos : Replayed ε _) =
      match (slice bytes pos bytes.length).findIdx? (· == 10) with
      | none => .error (.problem .truncatedHeader)
      | some index => do
        let header ← textAt bytes pos (pos + index) .headerText
        return (header, pos + index) := by
    rw [headerLine, bytesAt_of_le inside.le (le_refl _)]
    rfl
  rw [whole]
  cases found : (slice bytes pos bytes.length).findIdx? (· == 10) with
  | none =>
    refine .inr ⟨?_, .truncatedHeader, ?_, rfl⟩
    · rintro header nl ⟨index, other, -⟩
      cases found.symm.trans other
    · intro impossible
      cases impossible
  | some index =>
    have within := (List.findIdx?_eq_some_iff_findIdx_eq.mp found).1
    rw [slice, List.length_drop, List.length_take, Nat.min_self] at within
    dsimp only
    rw [textAt_of_le (Nat.le_add_right _ _) (by omega)]
    cases text : fromUtf8 (slice bytes pos (pos + index)) with
    | none =>
      refine .inr ⟨?_, .headerText, ?_, rfl⟩
      · rintro header nl ⟨other, otherFound, otherText, -⟩
        obtain rfl := Option.some.inj (found.symm.trans otherFound)
        cases text.symm.trans otherText
      · intro impossible
        cases impossible
    | some header => exact .inl ⟨header, pos + index, rfl, index, found, text, rfl⟩

end Headers

/-! ## Records -/

/-- The header of an update names a length that ends beyond what `usize` has room for. -/
def OversizedUpdate (bytes : Bytes) (pos : Nat) : Prop :=
  ∃ header nl length, HeaderAt bytes pos header nl ∧
    (splitWhitespace [] header)[0]? = some ['R', 'E', 'C'] ∧
    (splitWhitespace [] header)[3]?.bind parseUsize64 = some length ∧ 2 ^ 64 ≤ nl + 1 + length

def OversizedRedo (bytes : Bytes) (pos : Nat) : Prop :=
  ∃ header nl op graphLength tripleLength, HeaderAt bytes pos header nl ∧
    (splitWhitespace [] header)[0]? = some magic ∧
    (splitWhitespace [] header)[1]?.bind List.head? = some op ∧
    (splitWhitespace [] header)[2]?.bind parseUsize64 = some graphLength ∧
    (splitWhitespace [] header)[3]?.bind parseUsize64 = some tripleLength ∧
    2 ^ 64 ≤ nl + 1 + graphLength + tripleLength

/-- How the reading of a record ends: on with the file, with a problem, or, where the lengths are
out of range, with a panic. -/
def EndsAt {ε α : Type} (bytes : Bytes) (pos : Nat) (oversized : Prop) :
    Replayed ε (α × Nat) → Prop
  | .ok (_, next) => ¬ oversized ∧ pos < next ∧ next ≤ bytes.length
  | .error (.problem problem) => ¬ oversized ∧ problem ≠ .exhausted
  | .error .panic => oversized

section Records

variable {ε : Type} {bytes : Bytes} {pos : Nat}

theorem readUpdate_ends (fits : bytes.length < 2 ^ 63) (inside : pos < bytes.length) :
    EndsAt bytes pos (OversizedUpdate bytes pos) (readUpdate bytes pos : Replayed ε _) := by
  rw [readUpdate]
  rcases @headerLine_cases ε _ _ inside with ⟨header, nl, line, here⟩ | ⟨none_, problem, known, line⟩
  · obtain ⟨after, before⟩ := here.lt
    rw [line]
    simp only [bind, Except.bind]
    by_cases word : (splitWhitespace [] header)[0]? = some ['R', 'E', 'C']
    · rw [if_neg (not_not.mpr word)]
      cases size : (splitWhitespace [] header)[3]?.bind parseUsize64 with
      | none =>
        refine ⟨?_, nofun⟩
        rintro ⟨other, otherNl, length, there, -, named, -⟩
        rw [← (here.unique there).1] at named
        cases size.symm.trans named
      | some length =>
        dsimp only
        rw [addUsize, if_pos (by omega)]
        dsimp only
        by_cases room : nl + 1 + length < 2 ^ 64
        · have small : ¬ OversizedUpdate bytes pos := by
            rintro ⟨other, otherNl, otherLength, there, -, named, large⟩
            obtain ⟨rfl, rfl⟩ := here.unique there
            obtain rfl := Option.some.inj (size.symm.trans named)
            omega
          rw [addUsize, if_pos room]
          dsimp only
          by_cases short : bytes.length < nl + 1 + length
          · rw [if_pos short]
            exact ⟨small, nofun⟩
          · rw [if_neg short, textAt_of_le (Nat.le_add_right _ _) (Nat.le_of_not_lt short)]
            cases fromUtf8 (slice bytes (nl + 1) (nl + 1 + length)) with
            | none => exact ⟨small, nofun⟩
            | some sparql =>
              dsimp only
              rw [nextPos_of_le fits (Nat.le_of_not_lt short)]
              refine ⟨small, ?_, Nat.min_le_right _ _⟩
              rw [lt_min_iff]
              omega
        · rw [addUsize, if_neg room]
          exact ⟨header, nl, length, here, word, size, Nat.le_of_not_lt room⟩
    · rw [if_pos word]
      refine ⟨?_, nofun⟩
      rintro ⟨other, otherNl, length, there, otherWord, -⟩
      rw [← (here.unique there).1] at otherWord
      exact word otherWord
  · rw [line]
    refine ⟨?_, known⟩
    rintro ⟨header, nl, length, here, -⟩
    exact none_ header nl here

theorem readRedo_ends (fits : bytes.length < 2 ^ 63) (inside : pos < bytes.length) :
    EndsAt bytes pos (OversizedRedo bytes pos) (readRedo bytes pos : Replayed ε _) := by
  rw [readRedo]
  rcases @headerLine_cases ε _ _ inside with ⟨header, nl, line, here⟩ | ⟨none_, problem, known, line⟩
  · obtain ⟨after, before⟩ := here.lt
    rw [line]
    simp only [bind, Except.bind]
    by_cases word : (splitWhitespace [] header)[0]? = some magic
    · rw [if_neg (not_not.mpr word)]
      -- Without one of the three fields no record is oversized.
      have missing : (splitWhitespace [] header)[1]?.bind List.head? = none ∨
          (splitWhitespace [] header)[2]?.bind parseUsize64 = none ∨
          (splitWhitespace [] header)[3]?.bind parseUsize64 = none → ¬ OversizedRedo bytes pos := by
        rintro gone ⟨other, otherNl, op, graphLength, tripleLength, there, -, isOp, isGraph,
          isTriple, -⟩
        obtain ⟨rfl, rfl⟩ := here.unique there
        rw [isOp, isGraph, isTriple] at gone
        simp at gone
      cases isOp : (splitWhitespace [] header)[1]?.bind List.head? with
      | none => exact ⟨missing (.inl isOp), nofun⟩
      | some op =>
        cases isGraph : (splitWhitespace [] header)[2]?.bind parseUsize64 with
        | none => exact ⟨missing (.inr (.inl isGraph)), nofun⟩
        | some graphLength =>
          cases isTriple : (splitWhitespace [] header)[3]?.bind parseUsize64 with
          | none => exact ⟨missing (.inr (.inr isTriple)), nofun⟩
          | some tripleLength =>
            have oversized : 2 ^ 64 ≤ nl + 1 + graphLength + tripleLength →
                OversizedRedo bytes pos := fun large =>
              ⟨header, nl, op, graphLength, tripleLength, here, word, isOp, isGraph, isTriple,
                large⟩
            dsimp only
            rw [addUsize, if_pos (by omega)]
            dsimp only
            by_cases graphRoom : nl + 1 + graphLength < 2 ^ 64
            · rw [addUsize, if_pos graphRoom]
              dsimp only
              by_cases room : nl + 1 + graphLength + tripleLength < 2 ^ 64
              · have small : ¬ OversizedRedo bytes pos := by
                  rintro ⟨other, otherNl, otherOp, otherGraph, otherTriple, there, -, -,
                    graphNamed, tripleNamed, large⟩
                  obtain ⟨rfl, rfl⟩ := here.unique there
                  obtain rfl := Option.some.inj (isGraph.symm.trans graphNamed)
                  obtain rfl := Option.some.inj (isTriple.symm.trans tripleNamed)
                  omega
                rw [addUsize, if_pos room]
                dsimp only
                by_cases short : bytes.length < nl + 1 + graphLength + tripleLength
                · rw [if_pos short]
                  exact ⟨small, nofun⟩
                · rw [if_neg short, textAt_of_le (Nat.le_add_right _ _) (by omega)]
                  cases fromUtf8 (slice bytes (nl + 1) (nl + 1 + graphLength)) with
                  | none => exact ⟨small, nofun⟩
                  | some graph =>
                    dsimp only
                    rw [textAt_of_le (Nat.le_add_right _ _) (Nat.le_of_not_lt short)]
                    cases fromUtf8 (slice bytes (nl + 1 + graphLength)
                      (nl + 1 + graphLength + tripleLength)) with
                    | none => exact ⟨small, nofun⟩
                    | some triple =>
                      dsimp only
                      rw [nextPos_of_le fits (Nat.le_of_not_lt short)]
                      refine ⟨small, ?_, Nat.min_le_right _ _⟩
                      rw [lt_min_iff]
                      omega
              · rw [addUsize, if_neg room]
                exact oversized (Nat.le_of_not_lt room)
            · rw [addUsize, if_neg graphRoom]
              exact oversized (by omega)
    · rw [if_pos word]
      refine ⟨?_, nofun⟩
      rintro ⟨other, otherNl, op, graphLength, tripleLength, there, otherWord, -⟩
      rw [← (here.unique there).1] at otherWord
      exact word otherWord
  · rw [line]
    refine ⟨?_, known⟩
    rintro ⟨header, nl, op, graphLength, tripleLength, here, -⟩
    exact none_ header nl here

/-- A reader that ends so moves on, and panics just where a record is oversized. -/
theorem advances_of_ends {α : Type} {read : Bytes → Nat → Replayed ε (α × Nat)}
    {oversized : Nat → Prop}
    (ends : ∀ {pos}, pos < bytes.length → EndsAt bytes pos (oversized pos) (read bytes pos)) :
    Advances read bytes ∧
      ∀ {pos}, pos < bytes.length → (read bytes pos = .error .panic ↔ oversized pos) := by
  refine ⟨⟨?_, ?_⟩, ?_⟩
  · intro pos item next inside reads
    have here := ends inside
    rw [reads] at here
    exact here.2
  · intro pos inside exhausted
    have here := ends inside
    rw [exhausted] at here
    exact here.2 rfl
  · intro pos inside
    have here := ends inside
    constructor
    · intro panicked
      rw [panicked] at here
      exact here
    · intro large
      cases reads : read bytes pos with
      | ok step =>
        rw [reads] at here
        exact absurd large here.1
      | error stop =>
        cases stop with
        | problem problem =>
          rw [reads] at here
          exact absurd large here.1
        | panic => rfl

/-- A replay ends, and panics just where it comes to an oversized record. -/
theorem replay_ends {σ α : Type} {read : Bytes → Nat → Replayed ε (α × Nat)}
    {apply : α → σ → σ × Option ε} {oversized : Nat → Prop} {state : σ}
    (ends : ∀ {pos}, pos < bytes.length → EndsAt bytes pos (oversized pos) (read bytes pos)) :
    (replay read apply bytes state).2 ≠ .error (.problem .exhausted) ∧
      ((replay read apply bytes state).2 ≠ .error .panic ↔
        ∀ pos after, Reaches read apply bytes 0 state pos after → pos < bytes.length →
          ¬ oversized pos) := by
  obtain ⟨advances, panics⟩ := advances_of_ends ends
  refine ⟨replayLoop_ne_exhausted advances (by omega) (Nat.zero_le _), ?_⟩
  rw [replay, Ne, replayLoop_panic_iff advances (by omega) (Nat.zero_le _)]
  constructor
  · intro quiet pos after reaches inside large
    exact quiet ⟨pos, after, reaches, inside, (panics inside).mpr large⟩
  · rintro small ⟨pos, after, reaches, inside, panicked⟩
    exact small pos after reaches inside ((panics inside).mp panicked)

end Records

/-! ## Reading what was written -/

section ReadBack

variable {ε : Type}

theorem findIdx?_line {line : Bytes} (solid : ∀ byte ∈ line, byte ≠ 10) (rest : Bytes) :
    (line ++ 10 :: rest).findIdx? (· == 10) = some line.length := by
  induction line with
  | nil => rfl
  | cons byte line induction =>
    have here : (byte == 10) = false := beq_eq_false_iff_ne.mpr (solid byte List.mem_cons_self)
    have later := induction fun other member => solid other (List.mem_cons_of_mem _ member)
    rw [List.cons_append, List.findIdx?_cons, here, later]
    rfl

theorem slice_from (front rest : Bytes) :
    slice (front ++ rest) front.length (front ++ rest).length = rest := by
  rw [slice, List.take_length, List.drop_left]

theorem headerAt_line {line : Text} (solid : ∀ byte ∈ utf8 line, byte ≠ 10) (front rest : Bytes) :
    HeaderAt (front ++ (utf8 line ++ 10 :: rest)) front.length line
      (front.length + (utf8 line).length) := by
  refine ⟨(utf8 line).length, ?_, ?_, rfl⟩
  · rw [slice_from, findIdx?_line solid]
  · rw [← List.append_assoc, slice_append rfl rfl, fromUtf8_utf8]

theorem headerLine_of_headerAt {bytes : Bytes} {pos nl : Nat} {header : Text}
    (here : HeaderAt bytes pos header nl) :
    (headerLine bytes pos : Replayed ε _) = .ok (header, nl) := by
  have inside : pos < bytes.length := here.lt.1.trans_lt here.lt.2
  rcases @headerLine_cases ε _ _ inside with ⟨other, otherNl, line, there⟩ | ⟨none_, -⟩
  · obtain ⟨rfl, rfl⟩ := here.unique there
    exact line
  · exact absurd here (none_ header nl)

theorem parseUsize64_toDigits {value : Nat} (small : value < 2 ^ 64) :
    parseUsize64 (Nat.toDigits 10 value) = some value := by
  rw [parseUsize64, parseUsize_toDigits, Option.filter_some, if_pos (decide_eq_true small)]

/-- A text in the middle of the file. -/
theorem textAt_middle {front rest : Bytes} {text : Text} {start stop : Nat}
    (startEq : front.length = start) (stopEq : front.length + (utf8 text).length = stop)
    (problem : ReplayError ε) :
    textAt (front ++ utf8 text ++ rest) start stop problem = .ok text := by
  have within : stop ≤ (front ++ utf8 text ++ rest).length := by
    rw [List.length_append, List.length_append]
    omega
  rw [textAt_of_le (by omega) within, slice_append startEq stopEq, fromUtf8_utf8]

namespace UpdateEntry

variable (entry : UpdateEntry)

theorem header_ascii : ∀ char ∈ entry.header, 32 ≤ char.toNat ∧ char.toNat < 128 := by
  have digits : ∀ value, ∀ char ∈ Nat.toDigits 10 value, 32 ≤ char.toNat ∧ char.toNat < 128 := by
    intro value char member
    have visible := RedoRec.visible_digits value char member
    exact ⟨Nat.le_of_succ_le visible.1, visible.2⟩
  intro char member
  simp only [header, List.cons_append, List.nil_append, List.mem_cons, List.mem_append] at member
  rcases member with rfl | rfl | rfl | rfl | millis | rfl | changed | rfl | length
  · decide
  · decide
  · decide
  · decide
  · exact digits _ char millis
  · decide
  · exact digits _ char changed
  · decide
  · exact digits _ char length

/-- The words of a header. -/
theorem splitWhitespace_header : splitWhitespace [] entry.header =
    [['R', 'E', 'C'], Nat.toDigits 10 entry.millis, Nat.toDigits 10 entry.changed,
      Nat.toDigits 10 (utf8 entry.sparql).length] := by
  have visible : ∀ char ∈ ['R', 'E', 'C'], RedoRec.Visible char := by simp [RedoRec.Visible]
  have letters : ∀ char ∈ ['R', 'E', 'C'], isWhite char = false :=
    fun char member => (visible char member).not_white
  rw [header, splitWhitespace_word letters (List.cons_ne_nil _ _),
    splitWhitespace_word (RedoRec.digits_not_white _) Nat.toDigits_ne_nil,
    splitWhitespace_word (RedoRec.digits_not_white _) Nat.toDigits_ne_nil,
    splitWhitespace_last (RedoRec.digits_not_white _) Nat.toDigits_ne_nil]

/-- A record of the update log is read where it stands. -/
theorem readUpdate_bytes (front rest : Bytes)
    (fits : (front ++ (entry.bytes ++ rest)).length < 2 ^ 63) :
    (readUpdate (front ++ (entry.bytes ++ rest)) front.length : Replayed ε _) =
      .ok (entry.sparql, front.length + entry.bytes.length) := by
  have here := headerAt_line (fun byte => RedoRec.ne_newline_of_printed entry.header_ascii)
    front (utf8 entry.sparql ++ 10 :: rest)
  have shape : front ++ (utf8 entry.header ++ 10 :: (utf8 entry.sparql ++ 10 :: rest)) =
      front ++ (entry.bytes ++ rest) := by simp [bytes]
  have around : front ++ (entry.bytes ++ rest) =
      (front ++ (utf8 entry.header ++ [10])) ++ utf8 entry.sparql ++ 10 :: rest := by simp [bytes]
  have length : (front ++ (entry.bytes ++ rest)).length =
      front.length + ((utf8 entry.header).length + (1 + (utf8 entry.sparql).length)) + 1 +
        rest.length := by
    simp [bytes]
    omega
  rw [shape] at here
  have short : (utf8 entry.sparql).length < 2 ^ 64 := by omega
  have size := parseUsize64_toDigits short
  have text : (textAt (front ++ (entry.bytes ++ rest))
      (front.length + (utf8 entry.header).length + 1)
      (front.length + (utf8 entry.header).length + 1 + (utf8 entry.sparql).length) .bodyText :
      Replayed ε Text) = .ok entry.sparql := by
    rw [around]
    apply textAt_middle
    · simp [Nat.add_assoc]
    · simp [Nat.add_assoc]
  rw [readUpdate, headerLine_of_headerAt here]
  simp only [bind, Except.bind, splitWhitespace_header, List.getElem?_cons_zero,
    List.getElem?_cons_succ, Option.bind_some, ne_eq, not_true_eq_false, if_false, size]
  rw [addUsize, if_pos (by omega)]
  dsimp only
  rw [addUsize, if_pos (by omega)]
  dsimp only
  rw [if_neg (by omega), text]
  dsimp only
  rw [nextPos_of_le fits (by omega)]
  have next : min (front.length + (utf8 entry.header).length + 1 + (utf8 entry.sparql).length + 1)
      (front ++ (entry.bytes ++ rest)).length = front.length + entry.bytes.length := by
    rw [length, bytes]
    simp
    omega
  rw [next]
  rfl

end UpdateEntry

namespace RedoRec

variable (record : RedoRec)

/-- The fields as a replay finds them: an empty graph name is no graph. -/
def readBack : RedoFields where
  op := record.op.char
  graph := if record.graphText = [] then none else some record.graphText
  triple := record.triple

/-- A record of the redo log is read where it stands. -/
theorem readRedo_bytes (front rest : Bytes)
    (fits : (front ++ (record.bytes ++ rest)).length < 2 ^ 63) :
    (readRedo (front ++ (record.bytes ++ rest)) front.length : Replayed ε _) =
      .ok (record.readBack, front.length + record.bytes.length) := by
  have here := headerAt_line (fun byte => ne_newline_of_printed record.header_ascii) front
    (utf8 record.graphText ++ (utf8 record.triple ++ 10 :: rest))
  have shape : front ++ (utf8 record.header ++
      10 :: (utf8 record.graphText ++ (utf8 record.triple ++ 10 :: rest))) =
      front ++ (record.bytes ++ rest) := by simp [bytes]
  rw [shape] at here
  have aroundGraph : front ++ (record.bytes ++ rest) =
      (front ++ (utf8 record.header ++ [10])) ++ utf8 record.graphText ++
        (utf8 record.triple ++ 10 :: rest) := by simp [bytes]
  have aroundTriple : front ++ (record.bytes ++ rest) =
      (front ++ (utf8 record.header ++ 10 :: utf8 record.graphText)) ++ utf8 record.triple ++
        10 :: rest := by simp [bytes]
  have length : (front ++ (record.bytes ++ rest)).length =
      front.length + ((utf8 record.header).length +
        (1 + ((utf8 record.graphText).length + (utf8 record.triple).length))) + 1 +
        rest.length := by
    simp [bytes]
    omega
  have shortGraph : (utf8 record.graphText).length < 2 ^ 64 := by omega
  have shortTriple : (utf8 record.triple).length < 2 ^ 64 := by omega
  have graphSize := parseUsize64_toDigits shortGraph
  have tripleSize := parseUsize64_toDigits shortTriple
  have graph : (textAt (front ++ (record.bytes ++ rest))
      (front.length + (utf8 record.header).length + 1)
      (front.length + (utf8 record.header).length + 1 + (utf8 record.graphText).length)
      .graphText : Replayed ε Text) = .ok record.graphText := by
    rw [aroundGraph]
    apply textAt_middle
    · simp [Nat.add_assoc]
    · simp [Nat.add_assoc]
  have triple : (textAt (front ++ (record.bytes ++ rest))
      (front.length + (utf8 record.header).length + 1 + (utf8 record.graphText).length)
      (front.length + (utf8 record.header).length + 1 + (utf8 record.graphText).length +
        (utf8 record.triple).length) .tripleText : Replayed ε Text) = .ok record.triple := by
    rw [aroundTriple]
    apply textAt_middle
    · simp [Nat.add_assoc, Nat.add_comm 1]
    · simp [Nat.add_assoc, Nat.add_comm 1]
  rw [readRedo, headerLine_of_headerAt here]
  simp only [bind, Except.bind, splitWhitespace_header, List.getElem?_cons_zero,
    List.getElem?_cons_succ, Option.bind_some, List.head?_cons, ne_eq, not_true_eq_false, if_false,
    graphSize, tripleSize]
  rw [addUsize, if_pos (by omega)]
  dsimp only
  rw [addUsize, if_pos (by omega)]
  dsimp only
  rw [addUsize, if_pos (by omega)]
  dsimp only
  rw [if_neg (by omega), graph]
  dsimp only
  rw [triple]
  dsimp only
  rw [nextPos_of_le fits (by omega)]
  have next : min (front.length + (utf8 record.header).length + 1 +
      (utf8 record.graphText).length + (utf8 record.triple).length + 1)
      (front ++ (record.bytes ++ rest)).length = front.length + record.bytes.length := by
    rw [length, bytes]
    simp
    omega
  rw [next]
  rfl

theorem readBack_eq_fields_iff : record.readBack = record.fields ↔ record.graph ≠ some [] := by
  rw [readBack, fields, RedoFields.mk.injEq, graphText]
  cases record.graph with
  | none => simp
  | some graph => cases graph <;> simp

end RedoRec

end ReadBack

/-! ## The replays of the files -/

section Files

variable {σ ε : Type}

theorem replayRecords_updateFile {entries : List UpdateEntry}
    (fits : (updateFile entries).length < 2 ^ 63) (query : Text → σ → σ × Option ε) (state : σ) :
    replayRecords query (updateFile entries) state =
      applyEach query (entries.map UpdateEntry.sparql) 0 state :=
  replayLoop_records (fun entry => by simp [UpdateEntry.bytes])
    (fun front entry rest room => entry.readUpdate_bytes front rest room) entries [] fits
    (Nat.lt_succ_self _)

theorem applyRedoRecords_fileOf {records : List RedoRec}
    (fits : (fileOf records).length < 2 ^ 63) (parse : Text → Except ε (List Triple))
    (insertQuad deleteQuad : Triple → Option Text → σ → σ) (state : σ) :
    applyRedoRecords parse insertQuad deleteQuad (fileOf records) state =
      applyEach (applyRecord parse insertQuad deleteQuad) (records.map RedoRec.readBack) 0 state :=
  replayLoop_records (fun record => by simp [RedoRec.bytes])
    (fun front record rest room => record.readRedo_bytes front rest room) records [] fits
    (Nat.lt_succ_self _)

/-- A database that only notes the graph that each quad goes into or is taken out of. -/
def noteGraph (_ : Triple) (graph : Option Text) (noted : List (Option Text)) :
    List (Option Text) := noted ++ [graph]

def oneTriple (_ : Text) : Except Unit (List Triple) := .ok [⟨.iri [], .iri [], .iri []⟩]

theorem applyRecord_noteGraph (op : RedoOp) (graph : Option Text) (triple : Text)
    (noted : List (Option Text)) :
    applyRecord oneTriple noteGraph noteGraph ⟨op.char, graph, triple⟩ noted =
      (noted ++ [graph], none) := by
  cases op <;> rfl

theorem applyEach_noteGraph {fields : RedoRec → RedoFields}
    (op : ∀ record, (fields record).op = record.op.char) (records : List RedoRec) :
    ∀ (applied : Nat) (noted : List (Option Text)),
      (applyEach (applyRecord oneTriple noteGraph noteGraph) (records.map fields) applied noted).1 =
        noted ++ records.map fun record => (fields record).graph := by
  induction records with
  | nil =>
    intro applied noted
    exact (List.append_nil noted).symm
  | cons record rest induction =>
    intro applied noted
    have once : applyRecord oneTriple noteGraph noteGraph (fields record) noted =
        (noted ++ [(fields record).graph], none) := by
      have shape : fields record =
          ⟨record.op.char, (fields record).graph, (fields record).triple⟩ := by
        rw [← op record]
      rw [shape]
      exact applyRecord_noteGraph record.op _ _ noted
    rw [List.map_cons, applyEach, once]
    dsimp only
    rw [induction, List.append_assoc]
    rfl

/-- Every record comes back as it was written, unless one names the empty graph. -/
theorem fileOf_read_back_iff {records : List RedoRec} (fits : (fileOf records).length < 2 ^ 63) :
    (∀ (σ ε : Type) (parse : Text → Except ε (List Triple))
        (insertQuad deleteQuad : Triple → Option Text → σ → σ) (state : σ),
      applyRedoRecords parse insertQuad deleteQuad (fileOf records) state =
        applyEach (applyRecord parse insertQuad deleteQuad) (records.map RedoRec.fields) 0 state) ↔
      ∀ record ∈ records, record.graph ≠ some [] := by
  constructor
  · intro same record member
    have noted := same _ _ oneTriple noteGraph noteGraph []
    rw [applyRedoRecords_fileOf fits] at noted
    have states := congrArg Prod.fst noted
    rw [applyEach_noteGraph (fun _ => rfl), applyEach_noteGraph (fun _ => rfl), List.nil_append,
      List.nil_append] at states
    have graph : record.readBack.graph = record.fields.graph :=
      List.map_inj_left.mp states record member
    apply record.readBack_eq_fields_iff.mp
    rw [RedoRec.readBack, RedoRec.fields, RedoFields.mk.injEq]
    exact ⟨rfl, graph, rfl⟩
  · intro named σ ε parse insertQuad deleteQuad state
    rw [applyRedoRecords_fileOf fits, List.map_congr_left fun record member =>
      record.readBack_eq_fields_iff.mpr (named record member)]

/-- The two logs: what was appended is replayed as it was written just when no redo record names
the empty graph, and the replay of any bytes ends, without a panic just when no record that it
comes to names lengths that `usize` has no room for. -/
theorem logs_replay (records : List RedoRec) (entries : List UpdateEntry) (bytes : Bytes)
    (recordsFit : (fileOf records).length < 2 ^ 63) (entriesFit : (updateFile entries).length < 2 ^ 63)
    (fits : bytes.length < 2 ^ 63) (query : Text → σ → σ × Option ε)
    (parse : Text → Except ε (List Triple)) (insertQuad deleteQuad : Triple → Option Text → σ → σ)
    (state : σ) :
    ((∀ (σ ε : Type) (parse : Text → Except ε (List Triple))
        (insertQuad deleteQuad : Triple → Option Text → σ → σ) (state : σ),
      applyRedoRecords parse insertQuad deleteQuad (fileOf records) state =
        applyEach (applyRecord parse insertQuad deleteQuad) (records.map RedoRec.fields) 0 state) ↔
      ∀ record ∈ records, record.graph ≠ some []) ∧
    (replayRecords query (updateFile entries) state =
      applyEach query (entries.map UpdateEntry.sparql) 0 state) ∧
    ((replayRecords query bytes state).2 ≠ .error (.problem .exhausted) ∧
      ((replayRecords query bytes state).2 ≠ .error .panic ↔
        ∀ pos after, Reaches readUpdate query bytes 0 state pos after → pos < bytes.length →
          ¬ OversizedUpdate bytes pos)) ∧
    (applyRedoRecords parse insertQuad deleteQuad bytes state).2 ≠ .error (.problem .exhausted) ∧
      ((applyRedoRecords parse insertQuad deleteQuad bytes state).2 ≠ .error .panic ↔
        ∀ pos after, Reaches readRedo (applyRecord parse insertQuad deleteQuad) bytes 0 state
          pos after → pos < bytes.length → ¬ OversizedRedo bytes pos) :=
  ⟨fileOf_read_back_iff recordsFit, replayRecords_updateFile entriesFit query state,
    replay_ends (readUpdate_ends fits), replay_ends (readRedo_ends fits)⟩

def skip (_ : Text) (noted : List (Option Text)) : List (Option Text) × Option Unit := (noted, none)

theorem logs_replay_one :
    (∀ (σ ε : Type) (parse : Text → Except ε (List Triple))
      (insertQuad deleteQuad : Triple → Option Text → σ → σ) (state : σ),
      applyRedoRecords parse insertQuad deleteQuad (fileOf [⟨.insert, some ['g'], ['t']⟩]) state =
        applyEach (applyRecord parse insertQuad deleteQuad) [⟨'I', some ['g'], ['t']⟩] 0 state) ∧
    (replayRecords skip (updateFile [⟨1, 2, ['a']⟩]) []).2 = .ok 1 ∧
    (replayRecords skip [82, 10] []).2 ≠ .error .panic := by
  have whole := logs_replay [⟨.insert, some ['g'], ['t']⟩] [⟨1, 2, ['a']⟩] [82, 10]
    (by decide) (by decide) (by decide) skip oneTriple noteGraph noteGraph []
  refine ⟨whole.1.mpr ?_, ?_, ?_⟩
  · simp
  · rw [whole.2.1]
    rfl
  · exact nofun

/-- A header alone, with a length that its position has no room for. -/
def damagedTail : Bytes := utf8 "REC 0 0 18446744073709551615\n".toList

theorem logs_replay_damaged :
    ¬ ∀ bytes : Bytes, bytes.length < 2 ^ 63 →
      (replayRecords skip bytes []).2 ≠ .error .panic := by
  intro quiet
  exact quiet damagedTail (by decide) rfl

end Files

end GStore.Db
