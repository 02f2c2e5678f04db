import GStore.Parser.Turtle

/-! # Surface forms

`model/term.rs` writes terms and triples; `parser/ntriples.rs` and `parser/turtle.rs` read them
back. -/

namespace GStore.Parser

open Reason

/-- A term that every reader tells from what follows it. A language tag is not empty either. -/
structure Writable (unicode : Alphanumeric) (term : Term) : Prop where
  plain : Turtle.PlainTerm unicode term
  tagged : ∀ value datatype, term ≠ .literal value datatype (some [])

structure WritableTriple (unicode : Alphanumeric) (triple : Triple) : Prop where
  subject : Writable unicode triple.subject
  predicate : Writable unicode triple.predicate
  object : Writable unicode triple.object

/-- The IRIs of a term. -/
def irisOf : Term → List Text
  | .iri iri => [iri]
  | .blank _ => []
  | .literal _ datatype _ => datatype.toList

namespace NTriples

variable {unicode : Alphanumeric} {term : Term} {triple : Triple} {rest : Text}

/-! ## Terms -/

/-- What may follow a term: nothing, or a blank. -/
def Ended (rest : Text) : Prop := rest = [] ∨ ∃ more, rest = ' ' :: more

theorem Ended.stops (ended : Ended rest) {test : Char → Bool} (blank : test ' ' = false) :
    rest.head?.all (fun char => !test char) = true := by
  rcases ended with rfl | ⟨more, rfl⟩
  · rfl
  · rw [List.head?_cons, Option.all_some, blank]
    rfl

theorem parseIri_plain {iri : Text} (plain : PlainIri iri) (rest : Text) :
    parseIri (iri ++ '>' :: rest) = .ok (iri, rest) :=
  scanIri_plain plain rest [] (by simp)

theorem parseBlank_plain {label : Text} (plain : Turtle.PlainLabel unicode label)
    (ended : Ended rest) : parseBlank unicode (':' :: (label ++ rest)) = .ok (.blank label, rest) := by
  obtain ⟨before, after⟩ := takeWhile_dropWhile_of_stop plain.chars
    (ended.stops Turtle.space_not_label)
  rw [parseBlank, before, after]
  exact if_neg plain.nonempty

theorem parseLiteral_plain {value : Text} {datatype lang : Option Text}
    (writable : Writable unicode (.literal value datatype lang)) (ended : Ended rest) :
    parseLiteral (Term.escapeLiteral value ++ '"' :: (Term.literalSuffix datatype lang ++ rest)) =
      .ok (.literal value datatype lang, rest) := by
  obtain ⟨⟨iris, tags, one⟩, tagged⟩ := writable
  have longer := length_le_escapeLiteral value
  rw [parseLiteral, scanString_escapeLiteral value _ [] (by rw [List.length_append]; omega)]
  dsimp only [bind, Except.bind]
  cases datatype with
  | some datatype =>
    obtain rfl : lang = none := one.resolve_left (Option.some_ne_none _)
    have suffix : Term.literalSuffix (some datatype) none ++ rest =
        '^' :: '^' :: '<' :: (datatype ++ '>' :: rest) := by
      simp [Term.literalSuffix]
    rw [suffix]
    change (parseIri (datatype ++ '>' :: rest) >>= _) = _
    rw [parseIri_plain (iris datatype rfl)]
    rfl
  | none =>
    cases lang with
    | some tag =>
      have nonempty : tag ≠ [] := by
        rintro rfl
        exact tagged value none rfl
      obtain ⟨before, after⟩ := takeWhile_dropWhile_of_stop (tags tag rfl)
        (ended.stops (show isLangChar ' ' = false by decide))
      change (if (tag ++ rest).takeWhile isLangChar = [] then _ else
        Except.ok (Term.literal value none (some ((tag ++ rest).takeWhile isLangChar)),
          (tag ++ rest).dropWhile isLangChar)) = _
      rw [before, after, if_neg nonempty]
    | none =>
      rcases ended with rfl | ⟨more, rfl⟩ <;> rfl

theorem skipWs_display {lead : Text} (blank : lead = [] ∨ lead = [' ']) (term : Term) (rest : Text) :
    skipWs (lead ++ (term.display ++ rest)) = term.display ++ rest := by
  obtain ⟨char, text, shape, first⟩ := Turtle.display_head term
  rw [shape]
  rcases blank with rfl | rfl
  · rcases first with rfl | rfl | rfl <;> rfl
  · rcases first with rfl | rfl | rfl <;> rfl

/-- The scanner reads a term where its surface form stands. -/
theorem scanTerm_display (writable : Writable unicode term) {lead : Text}
    (blank : lead = [] ∨ lead = [' ']) (ended : Ended rest) :
    scanTerm unicode (lead ++ (term.display ++ rest)) = .ok (term, rest) := by
  rw [scanTerm, skipWs_display blank]
  cases term with
  | iri iri =>
    have shape : (Term.iri iri).display ++ rest = '<' :: (iri ++ '>' :: rest) := by
      simp [Term.display]
    rw [shape]
    change (parseIri (iri ++ '>' :: rest) >>= _) = _
    rw [parseIri_plain writable.plain]
    rfl
  | blank label =>
    have shape : (Term.blank label).display ++ rest = '_' :: ':' :: (label ++ rest) := rfl
    rw [shape]
    exact parseBlank_plain writable.plain ended
  | literal value datatype lang =>
    have shape : (Term.literal value datatype lang).display ++ rest =
        '"' :: (Term.escapeLiteral value ++ '"' :: (Term.literalSuffix datatype lang ++ rest)) := by
      simp [Term.display]
    rw [shape]
    exact parseLiteral_plain writable ended

theorem last_solid {text : Text} {test : Char → Bool} (nonempty : text ≠ [])
    (solid : ∀ char, test char = true → isWhite char = false)
    (all : ∀ char ∈ text, test char = true) :
    ∃ front last, text = front ++ [last] ∧ isWhite last = false :=
  ⟨text.dropLast, text.getLast nonempty, (List.dropLast_append_getLast nonempty).symm,
    solid _ (all _ (List.getLast_mem nonempty))⟩

theorem not_white_of_isLangChar {char : Char} (tag : isLangChar char = true) :
    isWhite char = false := by
  rw [Bool.eq_false_iff]
  intro white
  have letter := asciiOnly.white char white
  rw [isLangChar, Bool.or_eq_true, beq_iff_eq] at tag
  rcases tag with alphanumeric | rfl
  · exact absurd (letter.symm.trans alphanumeric) Bool.false_ne_true
  · exact absurd white (by decide)

/-- A surface form ends in no white space. -/
theorem display_last (writable : Writable unicode term) :
    ∃ front last, term.display = front ++ [last] ∧ isWhite last = false := by
  cases term with
  | iri iri => exact ⟨'<' :: iri, '>', rfl, by decide⟩
  | blank label =>
    obtain ⟨front, last, shape, solid⟩ := last_solid writable.plain.nonempty
      (fun char => Turtle.not_white_of_isLabelChar) writable.plain.chars
    refine ⟨'_' :: ':' :: front, last, ?_, solid⟩
    rw [Term.display, shape]
    rfl
  | literal value datatype lang =>
    rw [Term.display]
    cases datatype with
    | some datatype =>
      refine ⟨'"' :: Term.escapeLiteral value ++ ('"' :: '^' :: '^' :: '<' :: datatype), '>', ?_,
        by decide⟩
      simp [Term.literalSuffix]
    | none =>
      cases lang with
      | some tag =>
        have nonempty : tag ≠ [] := by
          rintro rfl
          exact writable.tagged value none rfl
        obtain ⟨front, last, shape, solid⟩ := last_solid nonempty
          (fun char => not_white_of_isLangChar) (writable.plain.2.1 tag rfl)
        refine ⟨'"' :: Term.escapeLiteral value ++ ('"' :: '@' :: front), last, ?_, solid⟩
        rw [Term.literalSuffix, shape]
        simp
      | none => exact ⟨'"' :: Term.escapeLiteral value, '"', rfl, by decide⟩

theorem head_solid {char : Char} (first : char = '<' ∨ char = '_' ∨ char = '"') :
    isWhite char = false := by
  rcases first with rfl | rfl | rfl <;> decide

/-- A term is what its surface form reads back as. -/
theorem parseTerm_display (writable : Writable unicode term) :
    parseTerm unicode term.display = .ok term := by
  obtain ⟨first, middle, head, isFirst⟩ := Turtle.display_head term
  obtain ⟨front, last, tail, lastSolid⟩ := display_last writable
  have scanned : scanTerm unicode term.display = .ok (term, []) := by
    have here := scanTerm_display writable (.inl rfl) (.inl rfl)
    rw [List.nil_append, List.append_nil] at here
    exact here
  rw [parseTerm, trim_of_ends head tail (head_solid isFirst) lastSolid, scanned]
  rfl

/-! ## Lines -/

theorem parseLine_display (writable : WritableTriple unicode triple) :
    parseLine unicode triple.display = .ok (some triple) := by
  obtain ⟨first, middle, head, isFirst⟩ := Turtle.display_head triple.subject
  have whole : triple.display = triple.subject.display ++ (' ' :: (triple.predicate.display ++
      (' ' :: (triple.object.display ++ [' ', '.'])))) := by
    simp [Triple.display]
  have begins : triple.display = first :: (middle ++ (' ' :: (triple.predicate.display ++
      (' ' :: (triple.object.display ++ [' ', '.']))))) := by
    rw [whole, head]
    rfl
  have ends : triple.display = (triple.subject.display ++ ' ' :: triple.predicate.display ++
      ' ' :: triple.object.display ++ [' ']) ++ ['.'] := by
    simp [Triple.display]
  have trimmed : trim triple.display = triple.display :=
    trim_of_ends begins ends (head_solid isFirst) (by decide)
  have some_ : ¬ (triple.display = [] ∨ triple.display.head? = some '#') := by
    rw [begins]
    rcases isFirst with rfl | rfl | rfl <;> simp
  have subject : scanTerm unicode triple.display = .ok (triple.subject,
      ' ' :: (triple.predicate.display ++ ' ' :: (triple.object.display ++ [' ', '.']))) := by
    rw [whole]
    exact scanTerm_display writable.subject (.inl rfl) (.inr ⟨_, rfl⟩)
  have predicate : scanTerm unicode
      (' ' :: (triple.predicate.display ++ ' ' :: (triple.object.display ++ [' ', '.']))) =
      .ok (triple.predicate, ' ' :: (triple.object.display ++ [' ', '.'])) :=
    scanTerm_display writable.predicate (.inr rfl) (.inr ⟨_, rfl⟩)
  have object : scanTerm unicode (' ' :: (triple.object.display ++ [' ', '.'])) =
      .ok (triple.object, [' ', '.']) :=
    scanTerm_display writable.object (.inr rfl) (.inr ⟨_, rfl⟩)
  rw [parseLine, trimmed, if_neg some_]
  simp only [bind, Except.bind, subject, predicate, object]
  rfl

theorem newline_not_mem_escapeLiteral (value : Text) : '\n' ∉ Term.escapeLiteral value := by
  intro member
  obtain ⟨char, -, here⟩ := List.mem_flatMap.mp member
  unfold Term.escapeChar at here
  split at here
  case h_6 =>
    rename_i newline _ _
    exact newline (List.mem_singleton.mp here).symm
  all_goals simp at here

theorem newline_not_mem_of_solid {text : Text} {test : Char → Bool}
    (solid : ∀ char, test char = true → isWhite char = false)
    (all : ∀ char ∈ text, test char = true) : '\n' ∉ text := by
  intro member
  exact absurd ((solid _ (all _ member)).symm.trans (by decide : isWhite '\n' = true))
    Bool.false_ne_true

/-- A surface form is on one line when its IRIs are. -/
theorem newline_not_mem_display (writable : Writable unicode term)
    (oneLine : ∀ iri ∈ irisOf term, '\n' ∉ iri) : '\n' ∉ term.display := by
  cases term with
  | iri iri =>
    have absent := oneLine iri List.mem_cons_self
    simp [Term.display, absent]
  | blank label =>
    have absent := newline_not_mem_of_solid (fun char => Turtle.not_white_of_isLabelChar)
      writable.plain.chars
    simp [Term.display, absent]
  | literal value datatype lang =>
    have absent := newline_not_mem_escapeLiteral value
    cases datatype with
    | some datatype =>
      have datatypeAbsent := oneLine datatype List.mem_cons_self
      simp [Term.display, Term.literalSuffix, absent, datatypeAbsent]
    | none =>
      cases lang with
      | some tag =>
        have tagAbsent := newline_not_mem_of_solid (fun char => not_white_of_isLangChar)
          (writable.plain.2.1 tag rfl)
        simp [Term.display, Term.literalSuffix, absent, tagAbsent]
      | none => simp [Term.display, Term.literalSuffix, absent]

/-- The lines of texts that were joined by newlines. -/
theorem lines_intercalate {texts : List Text} (oneLine : ∀ text ∈ texts, '\n' ∉ text)
    (ended : ∀ text ∈ texts, ∃ front last, text = front ++ [last] ∧ isWhite last = false) :
    lines (['\n'].intercalate texts) = texts := by
  by_cases empty : texts = []
  · rw [empty]
    rfl
  · have last : texts.getLastD [] = texts.getLast empty := List.getLastD_eq_getLast? .. |>.trans (by
      rw [List.getLast?_eq_some_getLast empty, Option.getD_some])
    have stays : texts.dropLast.map (fun line =>
        if line.getLast? = some '\r' then line.dropLast else line) = texts.dropLast := by
      rw [List.map_congr_left, List.map_id]
      intro line member
      obtain ⟨front, char, shape, solid⟩ := ended line (List.mem_of_mem_dropLast member)
      rw [id, if_neg]
      intro carriage
      rw [shape, List.getLast?_concat] at carriage
      rw [Option.some.inj carriage] at solid
      exact absurd (solid.symm.trans (by decide : isWhite '\r' = true)) Bool.false_ne_true
    have nonempty : texts.getLast empty ≠ [] := by
      obtain ⟨front, char, shape, -⟩ := ended _ (List.getLast_mem empty)
      rw [shape]
      simp
    rw [lines, List.splitOn_intercalate _ oneLine empty, last, if_neg nonempty, stays, List.dropLast_append_getLast]

/-- A fold over numbered lines, each of which reads as one item. -/
theorem foldlM_zipIdx_reads {α ε : Type} {line : α → Text}
    {step : List α → Text × Nat → Except ε (List α)} (items : List α) :
    ∀ (number : Nat) (before : List α),
      (∀ item ∈ items, ∀ number before, step before (line item, number) = .ok (before ++ [item])) →
      ((items.map line).zipIdx number).foldlM step before = .ok (before ++ items) := by
  induction items with
  | nil =>
    intro number before _
    rw [List.append_nil]
    rfl
  | cons item items induction =>
    intro number before each
    have later := induction (number + 1) (before ++ [item])
      fun other member => each other (List.mem_cons_of_mem _ member)
    rw [List.append_assoc] at later
    rw [List.map_cons, List.zipIdx_cons, List.foldlM_cons,
      each item List.mem_cons_self number before]
    exact later

/-- A document of triples, one on each line. -/
theorem parseStr_lines {triples : List Triple}
    (writable : ∀ triple ∈ triples, WritableTriple unicode triple)
    (oneLine : ∀ triple ∈ triples, ∀ term ∈ [triple.subject, triple.predicate, triple.object],
      ∀ iri ∈ irisOf term, '\n' ∉ iri) :
    parseStr unicode (['\n'].intercalate (triples.map Triple.display)) = .ok triples := by
  have separate : lines (['\n'].intercalate (triples.map Triple.display)) =
      triples.map Triple.display := by
    apply lines_intercalate
    · intro text member
      obtain ⟨triple, isTriple, rfl⟩ := List.mem_map.mp member
      have each := oneLine triple isTriple
      have subject := newline_not_mem_display (writable triple isTriple).subject
        (each _ (by simp))
      have predicate := newline_not_mem_display (writable triple isTriple).predicate
        (each _ (by simp))
      have object := newline_not_mem_display (writable triple isTriple).object
        (each _ (by simp))
      simp [Triple.display, subject, predicate, object]
    · intro text member
      obtain ⟨triple, -, rfl⟩ := List.mem_map.mp member
      exact ⟨triple.subject.display ++ ' ' :: triple.predicate.display ++
        ' ' :: triple.object.display ++ [' '], '.', by simp [Triple.display], by decide⟩
  rw [parseStr, separate]
  apply foldlM_zipIdx_reads
  intro triple member number before
  dsimp only
  rw [parseLine_display (writable triple member)]
  rfl

end NTriples

/-! ## Keys -/

/-- The end of a literal tells its datatype and its tag. -/
theorem literalSuffix_injective_of_one {datatype lang otherDatatype otherLang : Option Text}
    (one : datatype = none ∨ lang = none) (otherOne : otherDatatype = none ∨ otherLang = none)
    (equal : Term.literalSuffix datatype lang = Term.literalSuffix otherDatatype otherLang) :
    datatype = otherDatatype ∧ lang = otherLang := by
  cases datatype with
  | some iri =>
    obtain rfl : lang = none := one.resolve_left (Option.some_ne_none _)
    cases otherDatatype with
    | some otherIri =>
      obtain rfl : otherLang = none := otherOne.resolve_left (Option.some_ne_none _)
      simpa [Term.literalSuffix] using equal
    | none => cases otherLang <;> simp [Term.literalSuffix] at equal
  | none =>
    cases otherDatatype with
    | some otherIri => cases lang <;> simp [Term.literalSuffix] at equal
    | none => cases lang <;> cases otherLang <;> simp_all [Term.literalSuffix]

/-- A term has a datatype or a tag, not both. -/
def OneSuffix : Term → Prop
  | .literal _ datatype lang => datatype = none ∨ lang = none
  | _ => True

theorem dictKey_injective_of_one {left right : Term} (one : OneSuffix left)
    (otherOne : OneSuffix right) (equal : left.dictKey = right.dictKey) : left = right := by
  rw [Term.dictKey, Term.dictKey] at equal
  cases left with
  | iri text =>
    cases right with
    | iri otherText => simpa [Term.display] using equal
    | literal value datatype lang => simp [Term.display] at equal
    | blank label => simp [Term.display] at equal
  | blank label =>
    cases right with
    | iri otherText => simp [Term.display] at equal
    | literal value datatype lang => simp [Term.display] at equal
    | blank otherLabel => simpa [Term.display] using equal
  | literal value datatype lang =>
    cases right with
    | iri otherText => simp [Term.display] at equal
    | blank label => simp [Term.display] at equal
    | literal otherValue otherDatatype otherLang =>
      simp only [Term.display, List.cons_append, List.cons.injEq, true_and] at equal
      obtain ⟨rfl, suffixes⟩ := Term.escapeLiteral_injective equal
      obtain ⟨rfl, rfl⟩ := literalSuffix_injective_of_one one otherOne suffixes
      rfl

/-! ## The round trip -/

/-- Every surface form reads back: of a term, of the terms as keys, and of the triples of a
document in either syntax, in N-Triples as long as no IRI goes over a line. -/
theorem surface_forms (unicode : Alphanumeric) (fuel : Nat) (term left right : Term)
    (triples : List Triple) :
    (Writable unicode term → NTriples.parseTerm unicode term.display = .ok term) ∧
    (OneSuffix left → OneSuffix right → left.dictKey = right.dictKey → left = right) ∧
    ((∀ triple ∈ triples, WritableTriple unicode triple ∧ triple.subject.isLiteral = false ∧
        ∃ iri, triple.predicate = .iri iri) →
      (triples.length + 6 < fuel → Turtle.parseStr unicode fuel
        (['\n'].intercalate (triples.map Triple.display)) = .ok triples) ∧
      ((∀ triple ∈ triples, ∀ term ∈ [triple.subject, triple.predicate, triple.object],
          ∀ iri ∈ irisOf term, '\n' ∉ iri) →
        NTriples.parseStr unicode (['\n'].intercalate (triples.map Triple.display)) =
          .ok triples)) := by
  refine ⟨NTriples.parseTerm_display, dictKey_injective_of_one, fun each => ⟨?_, ?_⟩⟩
  · apply Turtle.parseStr_lines
    intro triple member
    obtain ⟨writable, -, iri, verb⟩ := each triple member
    refine ⟨writable.subject.plain, writable.predicate.plain, writable.object.plain, ?_⟩
    rw [verb]
    rfl
  · exact NTriples.parseStr_lines fun triple member => (each triple member).1

/-- `<s> <p> "\n"@en`. -/
def taggedTriple : Triple :=
  ⟨.iri ['s'], .iri ['p'], .literal ['\n'] none (some ['e', 'n'])⟩

theorem surface_forms_tagged :
    NTriples.parseTerm asciiOnly taggedTriple.object.display = .ok taggedTriple.object ∧
    taggedTriple.subject.dictKey ≠ taggedTriple.predicate.dictKey ∧
    Turtle.parseStr asciiOnly 8 taggedTriple.display = .ok [taggedTriple] ∧
    NTriples.parseStr asciiOnly taggedTriple.display = .ok [taggedTriple] := by
  have writable : WritableTriple asciiOnly taggedTriple := by
    refine ⟨⟨?_, nofun⟩, ⟨?_, nofun⟩, ⟨⟨nofun, ?_, .inl rfl⟩, ?_⟩⟩
    · simp [taggedTriple, Turtle.PlainTerm, PlainIri]
    · simp [taggedTriple, Turtle.PlainTerm, PlainIri]
    · simp [isLangChar]
    · simp [taggedTriple]
  have one : ∀ triple ∈ [taggedTriple], WritableTriple asciiOnly triple ∧
      triple.subject.isLiteral = false ∧ ∃ iri, triple.predicate = .iri iri := by
    intro triple member
    rw [List.mem_singleton.mp member]
    exact ⟨writable, rfl, ['p'], rfl⟩
  obtain ⟨object, keys, documents⟩ := surface_forms asciiOnly 8 taggedTriple.object
    taggedTriple.subject taggedTriple.predicate [taggedTriple]
  refine ⟨object writable.object, ?_, (documents one).1 (by decide), (documents one).2 ?_⟩
  · intro same
    cases keys trivial trivial same
  · intro triple member
    rw [List.mem_singleton.mp member]
    decide

/-- `<a\nb> <p> _:o`. -/
def brokenTriple : Triple := ⟨.iri ['a', '\n', 'b'], .iri ['p'], .blank ['o']⟩

/-- An IRI may hold a newline, and a line of N-Triples ends there. -/
theorem surface_forms_broken :
    ¬ ∀ triples : List Triple, (∀ triple ∈ triples, WritableTriple asciiOnly triple ∧
        triple.subject.isLiteral = false ∧ ∃ iri, triple.predicate = .iri iri) →
      NTriples.parseStr asciiOnly (['\n'].intercalate (triples.map Triple.display)) =
        .ok triples := by
  intro reads
  have writable : WritableTriple asciiOnly brokenTriple := by
    refine ⟨⟨?_, nofun⟩, ⟨?_, nofun⟩, ⟨⟨?_, ?_, ?_⟩, nofun⟩⟩
    · simp [brokenTriple, Turtle.PlainTerm, PlainIri]
    · simp [brokenTriple, Turtle.PlainTerm, PlainIri]
    · exact List.cons_ne_nil _ _
    · intro char member
      rw [List.mem_singleton.mp member]
      rfl
    · decide
  have broken := reads [brokenTriple] fun triple member => by
    rw [List.mem_singleton.mp member]
    exact ⟨writable, rfl, ['p'], rfl⟩
  have stops : NTriples.parseStr asciiOnly
      (['\n'].intercalate ([brokenTriple].map Triple.display)) =
      .error (1, .unterminatedIri) := rfl
  cases stops.symm.trans broken

end GStore.Parser
