import GStore.Reason.Rules

/-! # Terms and their text

`reason/mod.rs`, `parse_term`: a term that was read from a text is what its own surface form reads
as. So a derived term, which the rules intern by that form, is read once more without a change. -/

namespace GStore.Reason

/-- A text with no white space at either end. -/
structure Trimmed (text : Text) : Prop where
  head : ∀ first ∈ text.head?, isWhite first = false
  last : ∀ last ∈ text.getLast?, isWhite last = false

theorem dropWhile_head (text : Text) : ∀ first ∈ (text.dropWhile isWhite).head?,
    isWhite first = false := by
  intro first isFirst
  have stopped := List.head?_dropWhile_not isWhite text
  rw [isFirst] at stopped
  exact stopped

theorem trimmed_trim (text : Text) : Trimmed (trim text) := by
  have reversed : (trim text).reverse = (text.dropWhile isWhite).reverse.dropWhile isWhite :=
    List.reverse_reverse _
  constructor
  · intro first isFirst
    obtain ⟨front, whole⟩ := List.dropWhile_suffix isWhite (l := (text.dropWhile isWhite).reverse)
    have shape : text.dropWhile isWhite = trim text ++ front.reverse := by
      rw [← List.reverse_inj, List.reverse_append, List.reverse_reverse, reversed, whole]
    apply dropWhile_head text
    rw [shape, List.head?_append, isFirst]
    rfl
  · intro last isLast
    apply dropWhile_head (text.dropWhile isWhite).reverse
    rw [← reversed, List.head?_reverse]
    exact isLast

theorem Trimmed.trim_eq {text : Text} (trimmed : Trimmed text) : trim text = text := by
  cases text with
  | nil => rfl
  | cons first rest =>
    have nonempty : first :: rest ≠ [] := List.cons_ne_nil _ _
    exact trim_of_ends rfl (List.dropLast_append_getLast nonempty).symm (trimmed.head first rfl)
      (trimmed.last _ (List.getLast?_eq_some_getLast nonempty))

theorem stripBrackets_cases {text inner : Text} (stripped : stripBrackets text = some inner) :
    text = '<' :: inner ++ ['>'] := by
  unfold stripBrackets at stripped
  split at stripped
  · rename_i rest
    split at stripped
    · rename_i closes
      obtain rfl := Option.some.inj stripped
      obtain ⟨front, rfl⟩ := List.getLast?_eq_some_iff.mp closes
      simp
    · cases stripped
  · cases stripped

theorem stripBrackets_bracketed (inner : Text) : stripBrackets ('<' :: inner ++ ['>']) = some inner := by
  rw [List.cons_append, stripBrackets, List.getLast?_concat, if_pos rfl, List.dropLast_concat]

theorem scanLiteral_escapeChar (char : Char) (value rest : Text) :
    scanLiteral value (Term.escapeChar char ++ rest) = scanLiteral (char :: value) rest := by
  unfold Term.escapeChar
  split
  case h_6 =>
    rename_i backslash quote _ _ _
    rw [List.singleton_append]
    exact scanLiteral.eq_5 value char rest quote (fun same => absurd same backslash)
      (fun _ _ same => absurd same backslash)
  all_goals rfl

theorem scanLiteral_escapeLiteral (text rest : Text) : ∀ value : Text,
    scanLiteral value (Term.escapeLiteral text ++ '"' :: rest) = some (value.reverse ++ text, rest) := by
  induction text with
  | nil =>
    intro value
    rw [List.append_nil]
    rfl
  | cons char text induction =>
    intro value
    rw [Term.escapeLiteral, List.flatMap_cons, List.append_assoc, scanLiteral_escapeChar]
    change scanLiteral _ (Term.escapeLiteral text ++ _) = _
    rw [induction, List.reverse_cons, List.append_assoc]
    rfl

theorem scanLiteral_suffix {value text read rest : Text}
    (scanned : scanLiteral value text = some (read, rest)) : rest <:+ text := by
  induction value, text using scanLiteral.induct with
  | case1 value => cases scanned
  | case2 value text =>
    cases scanned
    exact List.suffix_cons _ _
  | case3 value => cases scanned
  | case4 value escaped text induction =>
    rw [scanLiteral.eq_4] at scanned
    exact (induction scanned).trans ((List.suffix_cons _ _).trans (List.suffix_cons _ _))
  | case5 value char text quote only pair induction =>
    rw [scanLiteral.eq_5 value char text quote only pair] at scanned
    exact (induction scanned).trans (List.suffix_cons _ _)

/-- A text that goes on as a trimmed one ends is trimmed. -/
theorem Trimmed.of_suffix {text rest : Text} (trimmed : Trimmed text) (suffix : rest <:+ text)
    (nonempty : rest ≠ []) (front : Text) {first : Char} (solid : isWhite first = false) :
    Trimmed (first :: front ++ rest) := by
  constructor
  · intro other isFirst
    obtain rfl := Option.some.inj isFirst
    exact solid
  · intro last isLast
    apply trimmed.last
    obtain ⟨before, rfl⟩ := suffix
    rw [List.getLast?_append_of_ne_nil _ nonempty] at isLast ⊢
    exact isLast

/-- A literal of a value, by what stands behind its closing quote. -/
def literalOf (value : Text) : Text → Option Term
  | '@' :: lang => some (.literal value none (some lang))
  | '^' :: '^' :: datatype =>
    (stripBrackets datatype).map fun iri => .literal value (some iri) none
  | [] => some (.literal value none none)
  | _ => none

theorem parseTerm_quoted {text quoted value rest : Text} (trimmed : trim text = '"' :: quoted)
    (scanned : scanLiteral [] quoted = some (value, rest)) : parseTerm text = literalOf value rest := by
  have unbracketed : stripBrackets ('"' :: quoted) = none := rfl
  simp only [parseTerm, trimmed, unbracketed, scanned]
  split
  case h_1 nothing => cases nothing
  case h_2 value lang same =>
      cases same
      rfl
  case h_3 value datatype same =>
      cases same
      rfl
  case h_4 value same =>
      cases same
      rfl
  case h_5 pair notLang notDatatype notPlain same =>
      obtain rfl := Option.some.inj same
      unfold literalOf
      split
      · exact absurd rfl (notLang _ _)
      · exact absurd rfl (notDatatype _ _)
      · exact absurd rfl (notPlain _)
      · rfl

theorem dictKey_of_literalOf {value rest : Text} {term : Term}
    (isLiteral : literalOf value rest = some term) :
    term.dictKey = '"' :: (Term.escapeLiteral value ++ '"' :: rest) := by
  unfold literalOf at isLiteral
  split at isLiteral
  · obtain rfl := Option.some.inj isLiteral
    rfl
  · obtain ⟨iri, stripped, rfl⟩ := Option.map_eq_some_iff.mp isLiteral
    rw [stripBrackets_cases stripped]
    simp [Term.dictKey, Term.display, Term.literalSuffix]
  · obtain rfl := Option.some.inj isLiteral
    rfl
  · cases isLiteral

theorem parseTerm_cases {text : Text} {term : Term} (parsed : parseTerm text = some term) :
    (∃ inner, trim text = '<' :: inner ++ ['>'] ∧ term = .iri inner) ∨
    (∃ label, trim text = '_' :: ':' :: label ∧ label ≠ [] ∧ term = .blank label) ∨
    ∃ quoted value rest, trim text = '"' :: quoted ∧
      scanLiteral [] quoted = some (value, rest) ∧ literalOf value rest = some term := by
  have whole := parsed
  rw [parseTerm] at parsed
  split at parsed
  · rename_i inner stripped
    exact .inl ⟨inner, stripBrackets_cases stripped, (Option.some.inj parsed).symm⟩
  · right
    split at parsed
    · rename_i label shape
      split at parsed
      · cases parsed
      · rename_i nonempty
        exact .inl ⟨label, shape, nonempty, (Option.some.inj parsed).symm⟩
    · rename_i quoted shape
      right
      cases scanned : scanLiteral [] quoted with
      | none =>
        rw [scanned] at parsed
        cases parsed
      | some pair =>
        have isLiteral := (parseTerm_quoted shape scanned).symm.trans whole
        exact ⟨quoted, pair.1, pair.2, shape, scanned, isLiteral⟩
    · cases parsed

/-- What was read as a term is what its surface form reads as. -/
theorem parseTerm_dictKey {text : Text} {term : Term} (parsed : parseTerm text = some term) :
    parseTerm term.dictKey = some term := by
  have trimmed := trimmed_trim text
  rcases parseTerm_cases parsed with ⟨inner, shape, rfl⟩ | ⟨label, shape, nonempty, rfl⟩ |
    ⟨quoted, value, rest, shape, scanned, isLiteral⟩
  · have key : trim (Term.iri inner).dictKey = '<' :: inner ++ ['>'] := by
      rw [shape] at trimmed
      exact trimmed.trim_eq
    rw [parseTerm, key, stripBrackets_bracketed]
  · have key : trim (Term.blank label).dictKey = '_' :: ':' :: label := by
      rw [shape] at trimmed
      exact trimmed.trim_eq
    rw [parseTerm, key]
    exact if_neg nonempty
  · have written := dictKey_of_literalOf isLiteral
    have ends : Trimmed term.dictKey := by
      rw [written]
      rw [shape] at trimmed
      cases rest with
      | nil =>
        constructor
        · intro first isFirst
          obtain rfl := Option.some.inj isFirst
          rfl
        · intro last isLast
          rw [← List.cons_append, List.getLast?_concat] at isLast
          obtain rfl := Option.some.inj isLast
          rfl
      | cons first rest =>
        have behind := (scanLiteral_suffix scanned).trans (List.suffix_cons '"' quoted)
        have joined := trimmed.of_suffix behind (List.cons_ne_nil _ _)
          (Term.escapeLiteral value ++ ['"']) (show isWhite '"' = false from rfl)
        rwa [List.cons_append, List.append_assoc] at joined
    have scannedKey : scanLiteral [] (Term.escapeLiteral value ++ '"' :: rest) = some (value, rest) :=
      scanLiteral_escapeLiteral value rest []
    rw [parseTerm_quoted (ends.trim_eq.trans written) scannedKey, isLiteral]

end GStore.Reason
