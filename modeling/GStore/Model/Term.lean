import Mathlib

/-! # RDF terms and triples

`model/term.rs`. A string is the list of its characters. The surface form of a
term is its key in the dictionary, and the surface form of a triple is its key
in a transaction. -/

namespace GStore

abbrev Text := List Char

inductive Term where
  | iri (text : Text)
  | literal (value : Text) (datatype lang : Option Text)
  | blank (label : Text)
deriving DecidableEq, Repr

structure Triple where
  subject : Term
  predicate : Term
  object : Term
deriving DecidableEq, Repr

namespace Term

def isLiteral : Term → Bool
  | .literal _ _ _ => true
  | _ => false

def escapeChar : Char → Text
  | '\\' => ['\\', '\\']
  | '"' => ['\\', '"']
  | '\n' => ['\\', 'n']
  | '\r' => ['\\', 'r']
  | '\t' => ['\\', 't']
  | other => [other]

def escapeLiteral (value : Text) : Text := value.flatMap escapeChar

/-- The datatype or the language tag; the datatype wins when both are set. -/
def literalSuffix (datatype lang : Option Text) : Text :=
  match datatype, lang with
  | some dt, _ => ['^', '^', '<'] ++ dt ++ ['>']
  | none, some tag => '@' :: tag
  | none, none => []

/-- N-Triples surface syntax. -/
def display : Term → Text
  | .iri text => '<' :: text ++ ['>']
  | .blank label => ['_', ':'] ++ label
  | .literal value datatype lang =>
    '"' :: escapeLiteral value ++ '"' :: literalSuffix datatype lang

def dictKey (term : Term) : Text := term.display

/-- The terms of RDF: an IRI does not hold the bracket that closes it, a label
or a language tag holds no blank, and a literal has a datatype or a tag, not
both. -/
def WellFormed : Term → Prop
  | .iri text => '>' ∉ text
  | .blank label => ' ' ∉ label
  | .literal _ datatype lang =>
    (∀ iri ∈ datatype, '>' ∉ iri) ∧ (∀ tag ∈ lang, ' ' ∉ tag) ∧
      (datatype = none ∨ lang = none)

instance (term : Term) : Decidable term.WellFormed := by
  cases term <;> (unfold WellFormed; infer_instance)

end Term

namespace Triple

def display (triple : Triple) : Text :=
  triple.subject.display ++ ' ' :: triple.predicate.display ++ ' ' :: triple.object.display ++
    [' ', '.']

structure WellFormed (triple : Triple) : Prop where
  subject : triple.subject.WellFormed
  predicate : triple.predicate.WellFormed
  object : triple.object.WellFormed

end Triple

/-! ## Surface forms are distinct -/

/-- The text before the first occurrence of a mark is determined. -/
theorem before_mark_injective {mark : Char} {left right leftRest rightRest : Text}
    (leftAbsent : mark ∉ left) (rightAbsent : mark ∉ right)
    (equal : left ++ mark :: leftRest = right ++ mark :: rightRest) :
    left = right ∧ leftRest = rightRest := by
  induction left generalizing right with
  | nil =>
    cases right with
    | nil => exact ⟨rfl, (List.cons.inj equal).2⟩
    | cons char rest =>
      have heads := (List.cons.inj equal).1
      exact absurd List.mem_cons_self (heads ▸ rightAbsent)
  | cons head tail induction =>
    cases right with
    | nil =>
      have heads := (List.cons.inj equal).1
      exact absurd List.mem_cons_self (heads ▸ leftAbsent)
    | cons char rest =>
      have parts := List.cons.inj equal
      have tails := induction (fun member => leftAbsent (List.mem_cons_of_mem _ member))
        (fun member => rightAbsent (List.mem_cons_of_mem _ member)) parts.2
      exact ⟨by rw [parts.1, tails.1], tails.2⟩

namespace Term

theorem escapeChar_injective {left right : Char} {leftRest rightRest : Text}
    (equal : escapeChar left ++ leftRest = escapeChar right ++ rightRest) :
    left = right ∧ leftRest = rightRest := by
  unfold escapeChar at equal
  split at equal <;> split at equal <;> grind

theorem escapeChar_ne_quote (char : Char) (rest quoteRest : Text) :
    escapeChar char ++ rest ≠ '"' :: quoteRest := by
  unfold escapeChar
  split <;> simp_all

/-- The closing quote is the first one that no backslash precedes. -/
theorem escapeLiteral_injective {left right leftRest rightRest : Text}
    (equal : escapeLiteral left ++ '"' :: leftRest = escapeLiteral right ++ '"' :: rightRest) :
    left = right ∧ leftRest = rightRest := by
  induction left generalizing right with
  | nil =>
    cases right with
    | nil => exact ⟨rfl, (List.cons.inj equal).2⟩
    | cons char rest =>
      rw [escapeLiteral, escapeLiteral, List.flatMap_cons, List.append_assoc] at equal
      exact absurd equal.symm (escapeChar_ne_quote _ _ _)
  | cons head tail induction =>
    rw [escapeLiteral, List.flatMap_cons, List.append_assoc] at equal
    cases right with
    | nil => exact absurd equal (escapeChar_ne_quote _ _ _)
    | cons char rest =>
      rw [escapeLiteral, List.flatMap_cons, List.append_assoc] at equal
      have heads := escapeChar_injective equal
      have tails := induction heads.2
      exact ⟨by rw [heads.1, tails.1], tails.2⟩

theorem literalSuffix_injective {datatype lang otherDatatype otherLang : Option Text}
    {value otherValue rest otherRest : Text}
    (wellFormed : (literal value datatype lang).WellFormed)
    (otherWellFormed : (literal otherValue otherDatatype otherLang).WellFormed)
    (equal : literalSuffix datatype lang ++ ' ' :: rest =
      literalSuffix otherDatatype otherLang ++ ' ' :: otherRest) :
    datatype = otherDatatype ∧ lang = otherLang ∧ rest = otherRest := by
  rcases wellFormed with ⟨iriClosed, tagClosed, one⟩
  rcases otherWellFormed with ⟨otherIriClosed, otherTagClosed, otherOne⟩
  cases datatype with
  | some iri =>
    have lang_none : lang = none := one.resolve_left (by simp)
    cases otherDatatype with
    | some otherIri =>
      have otherLang_none : otherLang = none := otherOne.resolve_left (by simp)
      simp only [literalSuffix, List.cons_append, List.nil_append, List.append_assoc,
        List.cons.injEq, true_and] at equal
      have same := before_mark_injective (iriClosed iri rfl)
        (otherIriClosed otherIri rfl) equal
      simp_all
    | none => cases otherLang <;> simp [literalSuffix] at equal
  | none =>
    cases otherDatatype with
    | some otherIri => cases lang <;> simp [literalSuffix] at equal
    | none =>
      cases lang with
      | none => cases otherLang <;> simp_all [literalSuffix]
      | some tag =>
        cases otherLang with
        | none => simp [literalSuffix] at equal
        | some otherTag =>
          simp only [literalSuffix, List.cons_append, List.cons.injEq, true_and] at equal
          have same := before_mark_injective (tagClosed tag rfl)
            (otherTagClosed otherTag rfl) equal
          simp_all

/-- A blank after a well-formed term ends it. -/
theorem display_injective {left right : Term} {leftRest rightRest : Text}
    (leftWellFormed : left.WellFormed) (rightWellFormed : right.WellFormed)
    (equal : left.display ++ ' ' :: leftRest = right.display ++ ' ' :: rightRest) :
    left = right ∧ leftRest = rightRest := by
  cases left with
  | iri text =>
    cases right with
    | iri otherText =>
      simp only [display, List.cons_append, List.append_assoc, List.nil_append,
        List.cons.injEq, true_and] at equal
      have same := before_mark_injective leftWellFormed rightWellFormed equal
      simp_all
    | literal value datatype lang => simp [display] at equal
    | blank label => simp [display] at equal
  | blank label =>
    cases right with
    | iri otherText => simp [display] at equal
    | literal value datatype lang => simp [display] at equal
    | blank otherLabel =>
      simp only [display, List.cons_append, List.nil_append, List.cons.injEq,
        true_and] at equal
      have same := before_mark_injective leftWellFormed rightWellFormed equal
      simp_all
  | literal value datatype lang =>
    cases right with
    | iri otherText => simp [display] at equal
    | blank label => simp [display] at equal
    | literal otherValue otherDatatype otherLang =>
      simp only [display, List.cons_append, List.append_assoc, List.cons.injEq,
        true_and] at equal
      rcases escapeLiteral_injective equal with ⟨rfl, suffixes⟩
      rcases literalSuffix_injective leftWellFormed rightWellFormed suffixes
        with ⟨rfl, rfl, rfl⟩
      exact ⟨rfl, rfl⟩

theorem dictKey_injective {left right : Term} (leftWellFormed : left.WellFormed)
    (rightWellFormed : right.WellFormed) (equal : left.dictKey = right.dictKey) :
    left = right :=
  (display_injective leftWellFormed rightWellFormed
    (congrArg (fun key : Text => key ++ [' ']) equal)).1

end Term

/-- Distinct well-formed triples have distinct transaction keys. -/
theorem Triple.display_injective {left right : Triple} (leftWellFormed : left.WellFormed)
    (rightWellFormed : right.WellFormed) (equal : left.display = right.display) :
    left = right := by
  simp only [Triple.display, List.append_assoc, List.cons_append] at equal
  rcases Term.display_injective leftWellFormed.subject rightWellFormed.subject equal
    with ⟨subjects, rest⟩
  rcases Term.display_injective leftWellFormed.predicate rightWellFormed.predicate rest
    with ⟨predicates, rest⟩
  rcases Term.display_injective leftWellFormed.object rightWellFormed.object rest
    with ⟨objects, -⟩
  cases left
  cases right
  simp_all

/-- A triple of well-formed terms, as the parsers and the clients of a
transaction supply it. -/
structure RdfTriple extends Triple where
  wellFormed : toTriple.WellFormed
deriving DecidableEq

namespace RdfTriple

/-- The transaction key: the surface form. -/
def key (triple : RdfTriple) : Text := triple.toTriple.display

theorem key_injective : Function.Injective key := by
  intro left right equal
  have same := Triple.display_injective left.wellFormed right.wellFormed equal
  cases left
  cases right
  simp_all

end RdfTriple

end GStore
