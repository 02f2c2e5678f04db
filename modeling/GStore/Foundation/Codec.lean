import GStore.Foundation.ByteKeys

/-! # Decoders of byte strings

A decoder moves a cursor over a buffer. It reads a value from the bytes that stand for it, whatever
follows them, and it fails where the buffer ends in the middle of them. -/

namespace GStore

/-- How a decoder ends without a value; a panic ends the program. -/
inductive Stop (ε : Type) where
  | problem (problem : ε)
  | panic
deriving DecidableEq

structure Cursor where
  buf : Bytes
  pos : Nat

namespace Cursor

/-- What is not read yet. -/
def left (cursor : Cursor) : Bytes := cursor.buf.drop cursor.pos

def advance (cursor : Cursor) (count : Nat) : Cursor := { cursor with pos := cursor.pos + count }

def Within (cursor : Cursor) : Prop := cursor.pos ≤ cursor.buf.length

variable {cursor : Cursor} {front rest : Bytes}

theorem Within.advance (left : cursor.left = front ++ rest) (within : cursor.Within) :
    (cursor.advance front.length).Within ∧ (cursor.advance front.length).left = rest := by
  have length := congrArg List.length left
  rw [Cursor.left, List.length_drop, List.length_append] at length
  refine ⟨?_, ?_⟩
  · rw [Within, Cursor.advance]
    rw [Within] at within
    dsimp only
    omega
  · rw [Cursor.left, Cursor.advance, ← List.drop_drop]
    rw [Cursor.left] at left
    rw [left, List.drop_left]

end Cursor

abbrev Decoder (ε α : Type) := StateT Cursor (Except (Stop ε)) α

namespace Decoder

variable {ε α β : Type}

def fail (problem : ε) : Decoder ε α := fun _ => .error (.problem problem)

/-- `&buf[start..stop]`. -/
def slice (start stop : Nat) : Decoder ε Bytes := fun cursor =>
  if start ≤ stop ∧ stop ≤ cursor.buf.length then
    .ok (GStore.slice cursor.buf start stop, cursor)
  else .error .panic

/-- `bytes[index]`. -/
def index (bytes : Bytes) (index : Nat) : Decoder ε UInt8 := fun cursor =>
  match bytes[index]? with
  | some byte => .ok (byte, cursor)
  | none => .error .panic

/-- The next `count` bytes, or the problem that there are not so many. -/
def take (short : ε) (count : Nat) : Decoder ε Bytes := do
  let cursor ← get
  if cursor.pos + count ≤ cursor.buf.length then
    let bytes ← slice cursor.pos (cursor.pos + count)
    set (cursor.advance count)
    return bytes
  else fail short

/-- The first `count` of the bytes, one after the other. -/
def indexes (bytes : Bytes) (count : Nat) : Decoder ε Bytes :=
  (List.range count).mapM (index bytes)

/-- A big-endian integer of `width` bytes. -/
def bigEndian (short : ε) (width : Nat) : Decoder ε Nat := do
  let bytes ← take short width
  return beValue (← indexes bytes width)

/-- The same value so many times. -/
def times (read : Decoder ε α) : Nat → Decoder ε (List α)
  | 0 => return []
  | count + 1 => do
    let first ← read
    return first :: (← times read count)

/-! ## Values and the bytes that stand for them -/

/-- The decoder reads the value from the bytes, whatever follows them, and not from a part of
them. -/
structure Reads (read : Decoder ε α) (bytes : Bytes) (value : α) : Prop where
  whole : ∀ {cursor : Cursor} {rest : Bytes}, cursor.Within → cursor.left = bytes ++ rest →
    read cursor = .ok (value, cursor.advance bytes.length)
  cut : ∀ {cursor : Cursor} {missing : Bytes}, cursor.Within → missing ≠ [] →
    cursor.left ++ missing = bytes → ∃ problem, read cursor = .error (.problem problem)

section Reads

variable {read : Decoder ε α} {next : α → Decoder ε β} {front back bytes : Bytes} {value : α}
  {result : β}

theorem Reads.pure (value : α) : Reads (Pure.pure value : Decoder ε α) [] value where
  whole _ _ := rfl
  cut _ some split := absurd (List.append_eq_nil_iff.mp split).2 some

theorem bind_apply (read : Decoder ε α) (next : α → Decoder ε β) (cursor : Cursor) :
    (read >>= next) cursor = read cursor >>= fun step => next step.1 step.2 := rfl

theorem Reads.bind (first : Reads read front value) (second : Reads (next value) back result) :
    Reads (read >>= next) (front ++ back) result where
  whole := by
    intro cursor rest within left
    rw [List.append_assoc] at left
    have moved := within.advance left
    rw [bind_apply, first.whole within left]
    change next value _ = _
    rw [second.whole moved.1 moved.2, Cursor.advance, Cursor.advance, Cursor.advance,
      List.length_append, Nat.add_assoc]
  cut := by
    intro cursor missing within some split
    rcases List.append_eq_append_iff.mp split with ⟨gap, here, more⟩ | ⟨seen, here, more⟩
    · -- The bytes end within the first value, or right after it.
      by_cases gone : gap = []
      · rw [gone, List.append_nil] at here
        rw [gone, List.nil_append] at more
        have left : cursor.left = front ++ [] := by rw [List.append_nil, here]
        have moved := within.advance left
        rw [bind_apply, first.whole within left]
        exact second.cut moved.1 some (by rw [moved.2, List.nil_append, more])
      · obtain ⟨problem, failed⟩ := first.cut within gone here.symm
        exact ⟨problem, by rw [bind_apply, failed]; rfl⟩
    · have moved := within.advance here
      rw [bind_apply, first.whole within here]
      exact second.cut moved.1 some (by rw [moved.2, more])

/-- What is left to do after the last byte reads nothing. -/
theorem Reads.bind_pure (first : Reads read bytes value) (same : next value = Pure.pure result) :
    Reads (read >>= next) bytes result := by
  have rest : Reads (next value) [] result := same ▸ .pure result
  have composed := first.bind rest
  rwa [List.append_nil] at composed

theorem Reads.map (first : Reads read bytes value) (transform : α → β) :
    Reads (transform <$> read) bytes (transform value) := by
  have composed : Reads (read >>= fun value => Pure.pure (transform value)) bytes
    (transform value) := first.bind_pure rfl
  exact composed

theorem Reads.times {item : α → Bytes} {items : List α}
    (reads : ∀ value ∈ items, Reads read (item value) value) :
    Reads (times read items.length) (items.flatMap item) items := by
  induction items with
  | nil => exact .pure []
  | cons first rest induction =>
    have here := reads first List.mem_cons_self
    have later := induction fun value member => reads value (List.mem_cons_of_mem _ member)
    rw [List.flatMap_cons]
    exact here.bind (later.map (first :: ·))

end Reads

/-! ## Decoders that do not panic -/

/-- Wherever the decoder starts, it ends within the buffer, and not with a panic. -/
def Calm (read : Decoder ε α) : Prop := ∀ cursor : Cursor, cursor.Within →
  match read cursor with
  | .ok (_, after) => after.Within
  | .error stop => stop ≠ .panic

section Calm

variable {read : Decoder ε α} {next : α → Decoder ε β}

theorem Calm.pure (value : α) : Calm (Pure.pure value : Decoder ε α) := fun _ inside => inside

theorem Calm.fail (problem : ε) : Calm (fail problem : Decoder ε α) := fun _ _ impossible => by
  cases impossible

theorem Calm.bind (first : Calm read) (second : ∀ value, Calm (next value)) :
    Calm (read >>= next) := by
  intro cursor within
  have here := first cursor within
  rw [bind_apply]
  cases step : read cursor with
  | error stop =>
    rw [step] at here
    exact here
  | ok moved =>
    rw [step] at here
    exact second moved.1 moved.2 here

theorem Calm.map (first : Calm read) (transform : α → β) : Calm (transform <$> read) :=
  first.bind fun _ => .pure _

theorem Calm.times (calm : Calm read) (count : Nat) : Calm (times read count) := by
  induction count with
  | zero => exact .pure []
  | succ count induction => exact calm.bind fun _ => induction.map _

end Calm

/-! ## Integers -/

section Take

variable {short : ε} {count : Nat}

theorem take_apply (cursor : Cursor) : take short count cursor =
    if cursor.pos + count ≤ cursor.buf.length then
      .ok (cursor.left.take count, cursor.advance count)
    else .error (.problem short) := by
  change (if cursor.pos + count ≤ cursor.buf.length then _ else fail short) cursor = _
  split
  · rename_i enough
    have inside : cursor.pos ≤ cursor.pos + count ∧ cursor.pos + count ≤ cursor.buf.length :=
      ⟨Nat.le_add_right _ _, enough⟩
    change (slice cursor.pos (cursor.pos + count) cursor >>= _) = _
    rw [slice, if_pos inside]
    change Except.ok (GStore.slice _ _ _, _) = _
    rw [GStore.slice, List.drop_take, Nat.add_sub_cancel_left]
    rfl
  · rfl

theorem Reads.take (short : ε) (bytes : Bytes) : Reads (take short bytes.length) bytes bytes where
  whole := by
    intro cursor rest within left
    have length := congrArg List.length left
    rw [Cursor.left, List.length_drop, List.length_append] at length
    rw [take_apply, left, List.take_left, if_pos]
    rw [Cursor.Within] at within
    omega
  cut := by
    intro cursor missing within some split
    have length := congrArg List.length split
    have positive := List.length_pos_of_ne_nil some
    rw [List.length_append, Cursor.left, List.length_drop] at length
    refine ⟨short, ?_⟩
    rw [take_apply, if_neg]
    omega

theorem Calm.take (short : ε) (count : Nat) : Calm (take short count) := by
  intro cursor within
  rw [take_apply]
  by_cases enough : cursor.pos + count ≤ cursor.buf.length
  · rw [if_pos enough]
    exact enough
  · rw [if_neg enough]
    intro impossible
    cases impossible

theorem Calm.take_bind {next : Bytes → Decoder ε α}
    (calm : ∀ bytes, bytes.length = count → Calm (next bytes)) :
    Calm (Decoder.take short count >>= next) := by
  intro cursor within
  rw [bind_apply, take_apply]
  by_cases enough : cursor.pos + count ≤ cursor.buf.length
  · rw [if_pos enough]
    have length : (cursor.left.take count).length = count := by
      rw [List.length_take, Cursor.left, List.length_drop]
      omega
    exact calm _ length (cursor.advance count) enough
  · rw [if_neg enough]
    intro impossible
    cases impossible

theorem Calm.index {bytes : Bytes} {position : Nat} (inside : position < bytes.length) :
    Calm (Decoder.index bytes position : Decoder ε UInt8) := by
  intro cursor within
  rw [Decoder.index, List.getElem?_eq_getElem inside]
  exact within

theorem indexes_eq {bytes : Bytes} {cursor : Cursor} (count : Nat) (enough : count ≤ bytes.length) :
    (indexes bytes count : Decoder ε Bytes) cursor = .ok (bytes.take count, cursor) := by
  have step : ∀ indices : List Nat, (∀ position ∈ indices, position < bytes.length) →
      (indices.mapM (index bytes) : Decoder ε Bytes) cursor =
        .ok (indices.map fun position => bytes.getD position 0, cursor) := by
    intro indices
    induction indices with
    | nil => intro _; rfl
    | cons position rest induction =>
      intro inside
      have here := inside position List.mem_cons_self
      have found : (index bytes position : Decoder ε UInt8) cursor =
          .ok (bytes.getD position 0, cursor) := by
        rw [index, List.getElem?_eq_getElem here, List.getD_eq_getElem _ _ here]
      rw [List.mapM_cons, bind_apply, found]
      change (List.mapM (index bytes) rest >>= fun more =>
        Pure.pure (bytes.getD position 0 :: more) : Decoder ε Bytes) cursor = _
      rw [bind_apply, induction fun other member => inside other (List.mem_cons_of_mem _ member)]
      rfl
  rw [indexes, step _ fun position member => (List.mem_range.mp member).trans_le enough]
  have same : (List.range count).map (fun position => bytes.getD position 0) = bytes.take count := by
    apply List.ext_getElem
    · rw [List.length_map, List.length_range, List.length_take, Nat.min_eq_left enough]
    · intro position first second
      rw [List.length_map, List.length_range] at first
      rw [List.getElem_map, List.getElem_range, List.getElem_take, List.getD_eq_getElem]
  rw [same]

theorem bigEndian_apply (cursor : Cursor) (short : ε) (width : Nat) :
    bigEndian short width cursor = (beValue <$> take short width : Decoder ε Nat) cursor := by
  rw [bigEndian, bind_apply]
  change _ = take short width cursor >>= _
  rw [take_apply]
  split
  · rename_i enough
    have length : width ≤ (cursor.left.take width).length := by
      rw [List.length_take, Cursor.left, List.length_drop]
      omega
    change (indexes (cursor.left.take width) width >>= fun bytes =>
      Pure.pure (beValue bytes) : Decoder ε Nat) (cursor.advance width) = _
    rw [bind_apply, indexes_eq width length, List.take_take, Nat.min_self]
    rfl
  · rfl

theorem Reads.bigEndian (short : ε) {width value : Nat} (fits : value < 256 ^ width) :
    Reads (bigEndian short width) (beBytes value width) value := by
  have taken := (Reads.take short (beBytes value width)).map beValue
  rw [beValue_beBytes, Nat.mod_eq_of_lt fits, length_beBytes] at taken
  refine ⟨?_, ?_⟩
  · intro cursor rest within left
    rw [bigEndian_apply]
    exact taken.whole within left
  · intro cursor missing within some split
    rw [bigEndian_apply]
    exact taken.cut within some split

theorem Calm.bigEndian (short : ε) (width : Nat) : Calm (bigEndian short width) := by
  intro cursor within
  rw [bigEndian_apply]
  exact (Calm.take short width).map beValue cursor within

end Take

/-! ## Whole buffers -/

/-- The value that a decoder reads at the start of a buffer; what follows it does not matter. -/
def run (read : Decoder ε α) (buf : Bytes) : Except (Stop ε) α :=
  (read { buf, pos := 0 }).map Prod.fst

/-- Decoding gives the value back, and no strict part of the bytes decodes. -/
structure RoundTrips (decode : Bytes → Except (Stop ε) α) (bytes : Bytes) (value : α) : Prop where
  whole : decode bytes = .ok value
  cut : ∀ part, part <+: bytes → part ≠ bytes → ∃ problem, decode part = .error (.problem problem)

theorem Reads.roundTrips {read : Decoder ε α} {bytes : Bytes} {value : α}
    (reads : Reads read bytes value) : RoundTrips (run read) bytes value where
  whole := by
    have within : ({ buf := bytes, pos := 0 } : Cursor).Within := Nat.zero_le _
    have left : ({ buf := bytes, pos := 0 } : Cursor).left = bytes ++ [] := by
      rw [List.append_nil]
      rfl
    rw [run, reads.whole within left]
    rfl
  cut := by
    intro part front different
    obtain ⟨missing, split⟩ := front
    have within : ({ buf := part, pos := 0 } : Cursor).Within := Nat.zero_le _
    have some : missing ≠ [] := by
      intro none
      rw [none, List.append_nil] at split
      exact different split
    obtain ⟨problem, failed⟩ := reads.cut within some split
    exact ⟨problem, by rw [run, failed]; rfl⟩

theorem Calm.run_ne_panic {read : Decoder ε α} (calm : Calm read) (buf : Bytes) :
    run read buf ≠ .error .panic := by
  have ends := calm { buf, pos := 0 } (Nat.zero_le _)
  intro panicked
  rw [run] at panicked
  cases step : read { buf, pos := 0 } with
  | ok value =>
    rw [step] at panicked
    cases panicked
  | error stop =>
    rw [step] at ends panicked
    cases panicked
    exact ends rfl

end Decoder

end GStore
