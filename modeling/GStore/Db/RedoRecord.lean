import GStore.Db.Session
import GStore.Model.Utf8
import GStore.Parser.NTriples

/-! # The redo log file

`db/mod.rs`, `append_redo_log` and the reading half of `apply_redo_records`: each
record is a header line with the operation and the two lengths, then that many
bytes of graph and of triple. -/

namespace GStore

open Reason

/-! ## Words -/

theorem splitWhitespace_solid {word : Text} (solid : ∀ char ∈ word, isWhite char = false)
    (seen tail : Text) :
    splitWhitespace seen (word ++ tail) = splitWhitespace (seen ++ word) tail := by
  induction word generalizing seen with
  | nil => simp
  | cons char word induction =>
    rw [List.cons_append, splitWhitespace, solid char List.mem_cons_self]
    simp only [Bool.false_eq_true, if_false]
    rw [induction fun other member => solid other (List.mem_cons_of_mem _ member)]
    simp

theorem splitWhitespace_word {word : Text} (solid : ∀ char ∈ word, isWhite char = false)
    (nonempty : word ≠ []) (rest : Text) :
    splitWhitespace [] (word ++ ' ' :: rest) = word :: splitWhitespace [] rest := by
  rw [splitWhitespace_solid solid, List.nil_append, splitWhitespace, if_pos (by decide),
    if_neg nonempty]

theorem splitWhitespace_last {word : Text} (solid : ∀ char ∈ word, isWhite char = false)
    (nonempty : word ≠ []) : splitWhitespace [] word = [word] := by
  have reads := splitWhitespace_solid solid [] []
  rwa [List.append_nil, List.nil_append, splitWhitespace, if_neg nonempty] at reads

/-- `str::parse::<usize>`. No text is as long as the type has room for, and a number
out of its range is left as it is: no body has that length either. -/
def parseUsize (text : Text) : Option Nat :=
  let digits := if text.head? = some '+' then text.tail else text
  if digits ≠ [] ∧ digits.all Char.isDigit then some (Nat.ofDigitChars 10 digits 0) else none

theorem parseUsize_toDigits (value : Nat) : parseUsize (Nat.toDigits 10 value) = some value := by
  have digits : ∀ char ∈ Nat.toDigits 10 value, char.isDigit = true :=
    fun char member => Nat.isDigit_of_mem_toDigits (by omega) (Nat.le_refl _) member
  have unsigned : (Nat.toDigits 10 value).head? ≠ some '+' := by
    intro plus
    have digit := digits '+' (List.mem_of_mem_head? plus)
    revert digit
    decide
  have all : (Nat.toDigits 10 value).all Char.isDigit = true := List.all_eq_true.mpr digits
  simp only [parseUsize, if_neg unsigned]
  rw [if_pos ⟨Nat.toDigits_ne_nil, all⟩, Nat.ofDigitChars_ten_toDigits]

end GStore

namespace GStore.Db

open Reason

/-! ## Writing -/

/-- The first word of a header. -/
def magic : Text := ['R', 'E', 'D', 'O']

namespace RedoOp

/-- The byte of the operation. -/
def char : RedoOp → Char
  | .insert => 'I'
  | .delete => 'D'

end RedoOp

namespace RedoRec

/-- The text of the graph; the default graph has none. -/
def graphText (record : RedoRec) : Text := record.graph.getD []

/-- `REDO <op> <graph_len> <triple_len>`. -/
def header (record : RedoRec) : Text :=
  magic ++ ' ' :: record.op.char :: ' ' :: (Nat.toDigits 10 (utf8 record.graphText).length ++
    ' ' :: Nat.toDigits 10 (utf8 record.triple).length)

def bytes (record : RedoRec) : Bytes :=
  utf8 record.header ++ 10 :: (utf8 record.graphText ++ (utf8 record.triple ++ [10]))

end RedoRec

/-- `append_redo_log`, onto an empty file. -/
def fileOf (records : List RedoRec) : Bytes := records.flatMap RedoRec.bytes

/-! ## Reading -/

inductive RedoError where
  | truncatedHeader
  | headerText
  | malformedHeader (header : Text)
  | missingOp
  | missingGraphLength
  | missingTripleLength
  | truncatedBody
  | graphText
  | tripleText
  | triple (problem : Nat × Parser.Problem)
  | unknownOp (op : Char)

/-- A record as it is read: any operation, and a graph text that may be empty. -/
structure RawRecord where
  op : Char
  graph : Text
  triple : Text

/-- The operation and the two lengths. -/
def readHeader (header : Text) : Except RedoError (Char × Nat × Nat) :=
  let words := splitWhitespace [] header
  if words[0]? ≠ some magic then .error (.malformedHeader header)
  else
    match words[1]?.bind List.head?, words[2]?.bind parseUsize, words[3]?.bind parseUsize with
    | none, _, _ => .error .missingOp
    | some _, none, _ => .error .missingGraphLength
    | some _, some _, none => .error .missingTripleLength
    | some op, some graph, some triple => .ok (op, graph, triple)

def readBody (op : Char) (graphLength tripleLength : Nat) (body : Bytes) :
    Except RedoError (RawRecord × Bytes) :=
  if body.length < graphLength + tripleLength then .error .truncatedBody
  else
    match fromUtf8 (body.take graphLength),
      fromUtf8 ((body.drop graphLength).take tripleLength) with
    | none, _ => .error .graphText
    | some _, none => .error .tripleText
    | some graph, some triple =>
      .ok ({ op, graph, triple }, body.drop (graphLength + tripleLength + 1))

/-- One record, and what is left of the file. -/
def readRecord (bytes : Bytes) : Except RedoError (RawRecord × Bytes) :=
  match bytes.dropWhile (· != 10) with
  | [] => .error .truncatedHeader
  | _ :: body =>
    match fromUtf8 (bytes.takeWhile (· != 10)) with
    | none => .error .headerText
    | some header => do
      let (op, graphLength, tripleLength) ← readHeader header
      readBody op graphLength tripleLength body

/-! ## Round trip -/

namespace RedoRec

/-- How a record that was written is read. -/
def raw (record : RedoRec) : RawRecord where
  op := record.op.char
  graph := record.graphText
  triple := record.triple

/-- A visible character of ASCII. -/
def Visible (char : Char) : Prop := 33 ≤ char.toNat ∧ char.toNat < 128

theorem Visible.not_white {char : Char} (visible : Visible char) : isWhite char = false := by
  rcases visible with ⟨lower, upper⟩
  simp only [isWhite, Bool.or_eq_false_iff, Bool.and_eq_false_iff, decide_eq_false_iff_not,
    beq_eq_false_iff_ne]
  omega

theorem visible_digits (value : Nat) : ∀ char ∈ Nat.toDigits 10 value, Visible char := by
  intro char member
  have digit := Nat.isDigit_of_mem_toDigits (by omega) (Nat.le_refl _) member
  rw [Char.isDigit, Bool.and_eq_true, decide_eq_true_eq, decide_eq_true_eq] at digit
  have lower : 48 ≤ char.toNat := UInt32.le_iff_toNat_le.mp digit.1
  have upper : char.toNat ≤ 57 := UInt32.le_iff_toNat_le.mp digit.2
  exact ⟨by omega, by omega⟩

theorem visible_magic : ∀ char ∈ magic, Visible char := by
  simp [magic, Visible]

theorem visible_op (op : RedoOp) : Visible op.char := by
  cases op <;> simp [RedoOp.char, Visible]

theorem header_ascii (record : RedoRec) :
    ∀ char ∈ record.header, 32 ≤ char.toNat ∧ char.toNat < 128 := by
  intro char member
  have visible : Visible char → 32 ≤ char.toNat ∧ char.toNat < 128 :=
    fun seen => ⟨Nat.le_of_succ_le seen.1, seen.2⟩
  rw [header, List.mem_append, List.mem_cons, List.mem_cons, List.mem_cons, List.mem_append,
    List.mem_cons] at member
  rcases member with word | blank | op | blank | graph | blank | triple
  · exact visible (visible_magic char word)
  · simp [blank]
  · exact visible (op ▸ visible_op record.op)
  · simp [blank]
  · exact visible (visible_digits _ char graph)
  · simp [blank]
  · exact visible (visible_digits _ char triple)

/-- Printed ASCII holds no newline. -/
theorem ne_newline_of_printed {text : Text}
    (printed : ∀ char ∈ text, 32 ≤ char.toNat ∧ char.toNat < 128) {byte : UInt8}
    (member : byte ∈ utf8 text) : byte ≠ 10 := by
  rcases mem_utf8_of_ascii (fun char here => (printed char here).2) member with ⟨char, here, rfl⟩
  intro newline
  have range := printed char here
  have code : char.toNat % 2 ^ 8 = 10 :=
    (UInt32.toNat_toUInt8 char.val).symm.trans (congrArg UInt8.toNat newline)
  omega

/-- A number is written in visible characters. -/
theorem digits_not_white (value : Nat) : ∀ char ∈ Nat.toDigits 10 value, isWhite char = false :=
  fun char member => (visible_digits value char member).not_white

/-- The words of a header. -/
theorem splitWhitespace_header (record : RedoRec) : splitWhitespace [] record.header =
    [magic, [record.op.char], Nat.toDigits 10 (utf8 record.graphText).length,
      Nat.toDigits 10 (utf8 record.triple).length] := by
  have shape : record.header = magic ++ ' ' :: ([record.op.char] ++
      ' ' :: (Nat.toDigits 10 (utf8 record.graphText).length ++
        ' ' :: Nat.toDigits 10 (utf8 record.triple).length)) := rfl
  have letters : ∀ char ∈ magic, isWhite char = false :=
    fun char member => (visible_magic char member).not_white
  have op : ∀ char ∈ [record.op.char], isWhite char = false := by
    intro char member
    rw [List.mem_singleton.mp member]
    exact (visible_op record.op).not_white
  rw [shape, splitWhitespace_word letters (List.cons_ne_nil _ _),
    splitWhitespace_word op (List.cons_ne_nil _ _),
    splitWhitespace_word (digits_not_white _) Nat.toDigits_ne_nil,
    splitWhitespace_last (digits_not_white _) Nat.toDigits_ne_nil]

end RedoRec

end GStore.Db
