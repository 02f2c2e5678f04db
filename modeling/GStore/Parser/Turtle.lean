import GStore.Parser.NTriples

/-! # Turtle

`parser/turtle.rs`. The parser is a recursion over the characters that are left;
fuel bounds its depth. The source counts the lines that it has passed, the model
keeps what is left and counts at the end. -/

namespace GStore.Parser.Turtle

open Reason

def xsd (name : String) : Text := ("http://www.w3.org/2001/XMLSchema#" ++ name).toList

def rdf (name : String) : Text := ("http://www.w3.org/1999/02/22-rdf-syntax-ns#" ++ name).toList

/-! ## References

RFC 3986, as far as a relative reference needs it. -/

def isValidScheme : Text → Bool
  | [] => false
  | first :: rest =>
    first.isAlpha && rest.all fun char =>
      char.isAlphanum || char == '+' || char == '-' || char == '.'

/-- What stands before the first such character, and what stands after it. -/
def splitFirst (mark : Char) (text : Text) : Option (Text × Text) :=
  if mark ∈ text then
    some (text.takeWhile (· ≠ mark), (text.dropWhile (· ≠ mark)).tail)
  else none

/-- What stands before the last such character. -/
def beforeLast (mark : Char) (text : Text) : Option Text :=
  (splitFirst mark text.reverse).map fun parts => parts.2.reverse

def isAbsoluteIri (text : Text) : Bool :=
  match splitFirst ':' text with
  | some (scheme, _) => isValidScheme scheme
  | none => false

structure IriParts where
  scheme : Text
  authority : Option Text
  path : Text
  query : Option Text
  fragment : Option Text

def splitIri (text : Text) : IriParts :=
  let (rest, fragment) := match splitFirst '#' text with
    | some (before, after) => (before, some after)
    | none => (text, none)
  let (rest, query) := match splitFirst '?' rest with
    | some (before, after) => (before, some after)
    | none => (rest, none)
  let (scheme, rest) := match splitFirst ':' rest with
    | some (before, after) => if isValidScheme before then (before, after) else ([], rest)
    | none => ([], rest)
  match rest with
  | '/' :: '/' :: after =>
    { scheme, authority := some (after.takeWhile (· ≠ '/')), path := after.dropWhile (· ≠ '/')
      query, fragment }
  | path => { scheme, authority := none, path, query, fragment }

def mergePaths (authority : Option Text) (path reference : Text) : Text :=
  if authority.isSome ∧ path = [] then '/' :: reference
  else
    match beforeLast '/' path with
    | some before => before ++ '/' :: reference
    | none => reference

/-- `remove_dot_segments`; the output only grows by what the input loses. -/
def removeDotSegments : Nat → Text → Text → Text
  | 0, _, output => output
  | _ + 1, [], output => output
  | fuel + 1, input, output =>
    if "../".toList.isPrefixOf input then removeDotSegments fuel (input.drop 3) output
    else if "./".toList.isPrefixOf input then removeDotSegments fuel (input.drop 2) output
    else if "/./".toList.isPrefixOf input then
      removeDotSegments fuel ('/' :: input.drop 3) output
    else if input = "/.".toList then removeDotSegments fuel ['/'] output
    else if "/../".toList.isPrefixOf input then
      removeDotSegments fuel ('/' :: input.drop 4) ((beforeLast '/' output).getD [])
    else if input = "/..".toList then
      removeDotSegments fuel ['/'] ((beforeLast '/' output).getD [])
    else if input = ".".toList ∨ input = "..".toList then output
    else
      let start := if input.head? = some '/' then 1 else 0
      let length := start + ((input.drop start).takeWhile (· ≠ '/')).length
      removeDotSegments fuel (input.drop length) (output ++ input.take length)

def cleanPath (path : Text) : Text := removeDotSegments (path.length + 1) path []

def recompose (parts : IriParts) : Text :=
  (if parts.scheme = [] then [] else parts.scheme ++ [':']) ++
    (parts.authority.map ("//".toList ++ ·)).getD [] ++ parts.path ++
    (parts.query.map ('?' :: ·)).getD [] ++ (parts.fragment.map ('#' :: ·)).getD []

def resolveReference (base reference : Text) : Text :=
  let base := splitIri base
  let reference := splitIri reference
  let resolved :=
    if reference.authority.isSome then
      { reference with path := cleanPath reference.path }
    else if reference.path = [] then
      { base with query := reference.query.or base.query }
    else if reference.path.head? = some '/' then
      { reference with authority := base.authority, path := cleanPath reference.path }
    else
      { reference with
        authority := base.authority
        path := cleanPath (mergePaths base.authority base.path reference.path) }
  recompose { resolved with scheme := base.scheme, fragment := reference.fragment }

/-! ## The parser -/

structure State where
  /-- The characters that are left. -/
  rest : Text
  prefixes : List (Text × Text)
  base : Option Text
  triples : List Triple
  /-- How many blank nodes were minted. -/
  bnode : Nat
  bnodeScope : Text
  depth : Nat

def maxNestingDepth : Nat := 256

namespace State

def new (content scope : Text) : State where
  rest := content
  prefixes := []
  base := none
  triples := []
  bnode := 0
  bnodeScope := scope
  depth := 0

def fail {α : Type} (s : State) (problem : Problem) : Except Failure α :=
  .error ⟨problem, s.rest⟩

end State

/-- White space and comments. -/
def skipWs : Bool → Text → Text
  | _, [] => []
  | true, char :: rest => if char = '\n' then skipWs false rest else skipWs true rest
  | false, char :: rest =>
    if isWhite char then skipWs false rest
    else if char = '#' then skipWs true rest
    else char :: rest

namespace State

def skip (s : State) : State := { s with rest := skipWs false s.rest }

def peek (s : State) : Option Char := s.rest.head?

def bump (s : State) : State := { s with rest := s.rest.tail }

def expect (char : Char) (s : State) : Except Failure State :=
  if s.peek = some char then .ok s.bump else s.fail (.expected char s.peek)

def expectDot (s : State) : Except Failure State := s.skip.expect '.'

def push (s : State) (subject predicate object : Term) : State :=
  { s with triples := s.triples ++ [{ subject, predicate, object }] }

/-- A blank node that no label of a document names. -/
def freshBlank (s : State) : Term × State :=
  (.blank (s.bnodeScope ++ '~' :: (toString s.bnode).toList), { s with bnode := s.bnode + 1 })

def resolveIri (s : State) (text : Text) : Text :=
  match s.base with
  | some base => if isAbsoluteIri text then text else resolveReference base text
  | none => text

end State

def parseIriref (s : State) : Except Failure (Text × State) := do
  let s ← s.expect '<'
  let (iri, rest) ← scanIri (s.rest.length + 1) [] s.rest
  return (s.resolveIri iri, { s with rest })

/-- A label stops before a point that ends the statement. -/
def scanLabel (unicode : Alphanumeric) : Text → Text × Text
  | [] => ([], [])
  | char :: rest =>
    if isLabelChar unicode char ∧ ¬ (char = '.' ∧ rest.head?.all isWhite) then
      let (label, rest) := scanLabel unicode rest
      (char :: label, rest)
    else ([], char :: rest)

def parseBlank (unicode : Alphanumeric) (s : State) : Except Failure (Term × State) := do
  let s ← s.expect '_'
  let s ← s.expect ':'
  let (label, rest) := scanLabel unicode s.rest
  let s := { s with rest }
  if label = [] then s.fail .emptyLabel else return (.blank label, s)

def isLocalChar (unicode : Alphanumeric) (char : Char) : Bool :=
  unicode.accepts char || char == '_' || char == '-' || char == '%'

/-- A point belongs to a local name when a name character follows. -/
def scanLocal (unicode : Alphanumeric) : Text → Text × Text
  | [] => ([], [])
  | char :: rest =>
    if isLocalChar unicode char ∨ char = '.' ∧ rest.head?.any (isLocalChar unicode) then
      let (text, rest) := scanLocal unicode rest
      (char :: text, rest)
    else ([], char :: rest)

/-- What ends the prefix of a name. -/
def isNameEnd (char : Char) : Bool :=
  char == ':' || isWhite char || char == '.' || char == ';' || char == ','

def parsePrefixedOrKeyword (unicode : Alphanumeric) (verbPos : Bool) (s : State) :
    Except Failure (Term × State) :=
  let name := s.rest.takeWhile fun char => !isNameEnd char
  let rest := s.rest.dropWhile fun char => !isNameEnd char
  if rest.head? = some ':' then
    let (text, rest) := scanLocal unicode rest.tail
    match s.prefixes.lookup name with
    | some ns => .ok (.iri (ns ++ text), { s with rest })
    | none => .error ⟨.undefinedPrefix name, rest⟩
  else if verbPos = false ∧ (name = "true".toList ∨ name = "false".toList) then
    .ok (.literal name (some (xsd "boolean")) none, { s with rest })
  else s.fail (.expectedName (s.peek.getD ' '))

/-- The digits of a number, and whether a point and an exponent were met. -/
def scanNumber : Text → Text × Bool × Bool × Text
  | [] => ([], false, false, [])
  | char :: rest =>
    if char.isDigit then
      let (text, decimal, double, rest) := scanNumber rest
      (char :: text, decimal, double, rest)
    else if char = '.' ∧ rest.head?.any Char.isDigit then
      let (text, _, double, rest) := scanNumber rest
      (char :: text, true, double, rest)
    else if char = 'e' ∨ char = 'E' then
      match rest with
      | sign :: after =>
        if sign = '+' ∨ sign = '-' then
          let (text, decimal, _, rest) := scanNumber after
          (char :: sign :: text, decimal, true, rest)
        else
          let (text, decimal, _, rest) := scanNumber (sign :: after)
          (char :: text, decimal, true, rest)
      | [] => ([char], false, true, [])
    else ([], false, false, char :: rest)

def parseNumeric (s : State) : Except Failure (Term × State) :=
  let signed := s.peek = some '+' ∨ s.peek = some '-'
  let sign := if signed then s.rest.take 1 else []
  let (digits, decimal, double, rest) := scanNumber (if signed then s.rest.tail else s.rest)
  let text := sign ++ digits
  let s := { s with rest }
  if text.all fun char => char == '+' || char == '-' then s.fail .numeric
  else
    let datatype := if double then xsd "double" else if decimal then xsd "decimal" else xsd "integer"
    .ok (.literal text (some datatype) none, s)

/-- The chain of a collection, from its head on. -/
def chain (s : State) (current : Term) : List Term → State
  | [] => s
  | [item] =>
    (s.push current (.iri (rdf "first")) item).push current (.iri (rdf "rest")) (.iri (rdf "nil"))
  | item :: items =>
    let (next, s) := (s.push current (.iri (rdf "first")) item).freshBlank
    chain (s.push current (.iri (rdf "rest")) next) next items

/-- Every term is one level down. -/
def State.enter (s : State) : State := { s.skip with depth := s.depth + 1 }

/-- A term that was read is one level up again. -/
def leave (read : Except Failure (Term × State)) : Except Failure (Term × State) :=
  read.map fun (term, s) => (term, { s with depth := s.depth - 1 })

section Recursion

variable (unicode : Alphanumeric)

mutual

def parseTerm : Nat → Bool → State → Except Failure (Term × State)
  | 0, _, s => s.fail .exhausted
  | fuel + 1, verbPos, s =>
    let s := s.enter
    if maxNestingDepth < s.depth then s.fail .nesting
    else
      leave <| match s.peek with
        | none => s.fail (.expectedTerm none)
        | some char =>
          if char = '<' then (parseIriref s).map fun (iri, s) => (.iri iri, s)
          else if (char = '"' ∨ char = '\'') ∧ verbPos = false then parseLiteral fuel s
          else if char = '[' ∧ verbPos = false then parseBlankNodePropertyList fuel s
          else if char = '(' ∧ verbPos = false then parseCollection fuel s
          else if char = '_' then parseBlank unicode s
          else if (char.isDigit ∨ char = '+' ∨ char = '-' ∨ char = '.') ∧ verbPos = false then
            parseNumeric s
          else parsePrefixedOrKeyword unicode verbPos s

def parseLiteral : Nat → State → Except Failure (Term × State)
  | 0, s => s.fail .exhausted
  | fuel + 1, s => do
    let quote := s.peek.getD '"'
    let s := s.bump
    let long := decide (s.rest.take 2 = [quote, quote])
    let rest := if long then s.rest.drop 2 else s.rest
    let (value, rest) ← scanString quote long (rest.length + 1) [] rest
    let s := { s with rest }
    match rest with
    | '@' :: rest =>
      let lang := rest.takeWhile isLangChar
      return (.literal value none (some lang), { s with rest := rest.dropWhile isLangChar })
    | '^' :: '^' :: rest =>
      let (datatype, s) ← parseTerm fuel true { s with rest }
      match datatype with
      | .iri datatype => return (.literal value (some datatype) none, s)
      | other => s.fail (.datatypeTerm other)
    | _ => return (.literal value none none, s)

def parseBlankNodePropertyList : Nat → State → Except Failure (Term × State)
  | 0, s => s.fail .exhausted
  | fuel + 1, s => do
    let s ← s.expect '['
    let (node, s) := s.freshBlank
    let s := s.skip
    if s.peek = some ']' then return (node, s.bump)
    else do
      let s ← parsePredicateObjectList fuel node s
      let s ← s.skip.expect ']'
      return (node, s)

def parseCollection : Nat → State → Except Failure (Term × State)
  | 0, s => s.fail .exhausted
  | fuel + 1, s => do
    let s ← s.expect '('
    let (items, s) ← parseItems fuel s
    if items = [] then return (.iri (rdf "nil"), s)
    else
      let (head, s) := s.freshBlank
      return (head, chain s head items)

/-- The items up to the closing parenthesis. -/
def parseItems : Nat → State → Except Failure (List Term × State)
  | 0, s => s.fail .exhausted
  | fuel + 1, s => do
    let s := s.skip
    match s.peek with
    | some ')' => return ([], s.bump)
    | none => s.fail .unterminatedCollection
    | _ =>
      let (item, s) ← parseTerm fuel false s
      let (items, s) ← parseItems fuel s
      return (item :: items, s)

def parseVerb : Nat → State → Except Failure (Term × State)
  | 0, s => s.fail .exhausted
  | fuel + 1, s =>
    let s := s.skip
    if s.peek = some 'a' ∧ s.bump.peek.all (fun char => isWhite char || char == '<') then
      .ok (.iri (rdf "type"), s.bump)
    else parseTerm fuel true s

/-- Objects as long as a comma follows. -/
def parseObjects : Nat → Term → Term → State → Except Failure State
  | 0, _, _, s => s.fail .exhausted
  | fuel + 1, subject, predicate, s => do
    let (object, s) ← parseTerm fuel false s
    let s := (s.push subject predicate object).skip
    if s.peek = some ',' then parseObjects fuel subject predicate s.bump else return s

def parsePredicateObjectList : Nat → Term → State → Except Failure State
  | 0, _, s => s.fail .exhausted
  | fuel + 1, subject, s => do
    let (predicate, s) ← parseVerb fuel s.skip
    let s ← parseObjects fuel subject predicate s
    let s := s.skip
    if s.peek = some ';' then
      let s := s.bump.skip
      -- A semicolon may stand before the point.
      if s.peek = some '.' ∨ s.rest = [] then return s
      else parsePredicateObjectList fuel subject s
    else return s

end

/-! ## Documents -/

/-- After a `[ … ]` subject the predicates may be missing. -/
def parseTriplesStatement (fuel : Nat) (s : State) : Except Failure State := do
  let s := s.skip
  let list := s.peek = some '['
  let (subject, s) ← parseTerm unicode fuel false s
  let s := s.skip
  if list ∧ s.peek = some '.' then s.expectDot
  else do
    let s ← parsePredicateObjectList unicode fuel subject s
    s.expectDot

def readBareword (s : State) : Text × State :=
  (s.rest.takeWhile Char.isAlpha, { s with rest := s.rest.dropWhile Char.isAlpha })

/-- The prefix of a declaration, without its colon. -/
def readPrefixNs (s : State) : Except Failure (Text × State) :=
  let stops (char : Char) : Bool := char == ':' || isWhite char
  let s' := { s with rest := s.rest.dropWhile fun char => !stops char }
  if s'.peek = some ':' then .ok (s.rest.takeWhile fun char => !stops char, s'.bump)
  else s'.fail .prefixColon

def upper (text : Text) : Text := text.map Char.toUpper

def readDeclared (isPrefix : Bool) (s : State) : Except Failure (Text × State) :=
  if isPrefix then readPrefixNs s.skip else .ok ([], s)

/-- After an `@`, a declaration ends in a point. -/
def endDeclaration (dotted : Bool) (s : State) : Except Failure State :=
  if dotted then s.expectDot else .ok s

def parseDeclaration (isPrefix dotted : Bool) (s : State) : Except Failure State := do
  let (ns, s) ← readDeclared isPrefix s
  let (iri, s) ← parseIriref s.skip
  let s ← endDeclaration dotted s
  if isPrefix then return { s with prefixes := assocInsert ns iri s.prefixes }
  else return { s with base := some iri }

def parseDirective (s : State) : Except Failure State :=
  let (word, s) := readBareword s.bump
  if word = "prefix".toList then parseDeclaration true true s
  else if word = "base".toList then parseDeclaration false true s
  else s.fail (.directive word)

def parseSparqlDirective (s : State) : Except Failure State :=
  let (word, s) := readBareword s
  if upper word = "PREFIX".toList then parseDeclaration true false s
  else if upper word = "BASE".toList then parseDeclaration false false s
  else s.fail (.directive (upper word))

def looksLikeKeywordDirective (s : State) : Bool :=
  let word := upper (s.rest.take 6)
  "PREFIX".toList.isPrefixOf word || "BASE".toList.isPrefixOf word

/-- A directive or a statement, by its first character. -/
def parseOne (fuel : Nat) (char : Char) (s : State) : Except Failure State :=
  if char = '@' then parseDirective s
  else if char.isAlpha ∧ looksLikeKeywordDirective s then parseSparqlDirective s
  else parseTriplesStatement unicode fuel s

def parseDocument : Nat → State → Except Failure State
  | 0, s => s.fail .exhausted
  | fuel + 1, s => do
    let s := s.skip
    match s.peek with
    | none => return s
    | some char =>
      let s ← parseOne unicode fuel char s
      parseDocument fuel s

/-- `parse_str_scoped`; an error comes with the number of its line. -/
def parseStrScoped (fuel : Nat) (content scope : Text) :
    Except (Nat × Problem) (List Triple) :=
  match parseDocument unicode fuel (.new content scope) with
  | .ok s => .ok s.triples
  | .error failure =>
    let passed := content.take (content.length - failure.rest.length)
    .error (1 + passed.count '\n', failure.problem)

def parseStr (fuel : Nat) (content : Text) : Except (Nat × Problem) (List Triple) :=
  parseStrScoped unicode fuel content ['g']

end Recursion

/-! ## Predicates are no literals -/

/-- Every triple that was put down is a triple from before or has no literal for
its predicate. -/
def Kept (s after : State) : Prop :=
  ∀ triple ∈ after.triples, triple ∈ s.triples ∨ triple.predicate.isLiteral = false

section Kept

variable {s middle after : State} {term : Term} {unicode : Alphanumeric}

theorem kept_of_eq (same : after.triples = s.triples) : Kept s after :=
  fun _ member => .inl (same ▸ member)

theorem Kept.trans (first : Kept s middle) (second : Kept middle after) : Kept s after := by
  intro triple member
  rcases second triple member with between | predicate
  · exact first triple between
  · exact .inr predicate

theorem kept_push {subject predicate object : Term} (verb : predicate.isLiteral = false) :
    Kept s (s.push subject predicate object) := by
  intro _ member
  rcases List.mem_append.mp member with before | here
  · exact .inl before
  · rw [List.mem_singleton.mp here]
    exact .inr verb

theorem triples_expect {char : Char} (ran : s.expect char = .ok after) :
    after.triples = s.triples := by
  rw [State.expect] at ran
  split at ran
  · cases ran
    rfl
  · cases ran

theorem triples_parseIriref {iri : Text} (ran : parseIriref s = .ok (iri, after)) :
    after.triples = s.triples := by
  simp only [parseIriref, bind_eq_ok, Prod.exists] at ran
  rcases ran with ⟨opened, expected, text, rest, -, result⟩
  cases result
  exact (triples_expect expected : opened.triples = s.triples)

theorem triples_parseBlank (ran : parseBlank unicode s = .ok (term, after)) :
    after.triples = s.triples ∧ term.isLiteral = false := by
  simp only [parseBlank, bind_eq_ok] at ran
  rcases ran with ⟨first, underscore, second, colon, ran⟩
  split at ran
  · cases ran
  · cases ran
    exact ⟨(triples_expect colon).trans (triples_expect underscore), rfl⟩

theorem triples_parsePrefixedOrKeyword {verbPos : Bool}
    (ran : parsePrefixedOrKeyword unicode verbPos s = .ok (term, after)) :
    after.triples = s.triples ∧ (verbPos = true → term.isLiteral = false) := by
  rw [parsePrefixedOrKeyword] at ran
  dsimp only at ran
  split at ran
  · split at ran
    · cases ran
      exact ⟨rfl, fun _ => rfl⟩
    · cases ran
  · split at ran
    · rename_i keyword
      cases ran
      refine ⟨rfl, fun verb => ?_⟩
      rw [keyword.1] at verb
      cases verb
    · cases ran

theorem triples_parseNumeric (ran : parseNumeric s = .ok (term, after)) :
    after.triples = s.triples := by
  rw [parseNumeric] at ran
  dsimp only at ran
  split at ran
  all_goals
    split at ran
    · cases ran
    · cases ran
      rfl

theorem kept_chain (items : List Term) :
    ∀ (s : State) (current : Term), Kept s (chain s current items) := by
  induction items with
  | nil => exact fun s current => kept_of_eq rfl
  | cons item items induction =>
    intro s current
    cases items with
    | nil => exact (kept_push rfl).trans (kept_push rfl)
    | cons next items =>
      rw [chain]
      · have minted : Kept s ((s.push current (.iri (rdf "first")) item).freshBlank).2 :=
          (kept_push rfl).trans (kept_of_eq rfl)
        exact (minted.trans (kept_push rfl)).trans (induction _ _)
      · simp

/-- What a call may put down, at one depth of the recursion. -/
structure KeepsAt (unicode : Alphanumeric) (fuel : Nat) : Prop where
  term : ∀ {verbPos s term after}, parseTerm unicode fuel verbPos s = .ok (term, after) →
    Kept s after ∧ (verbPos = true → term.isLiteral = false)
  literal : ∀ {s term after}, parseLiteral unicode fuel s = .ok (term, after) → Kept s after
  propertyList : ∀ {s term after},
    parseBlankNodePropertyList unicode fuel s = .ok (term, after) → Kept s after
  collection : ∀ {s term after}, parseCollection unicode fuel s = .ok (term, after) → Kept s after
  items : ∀ {s items after}, parseItems unicode fuel s = .ok (items, after) → Kept s after
  verb : ∀ {s term after}, parseVerb unicode fuel s = .ok (term, after) →
    Kept s after ∧ term.isLiteral = false
  objects : ∀ {subject predicate s after}, predicate.isLiteral = false →
    parseObjects unicode fuel subject predicate s = .ok after → Kept s after
  predicates : ∀ {subject s after},
    parsePredicateObjectList unicode fuel subject s = .ok after → Kept s after

theorem KeepsAt.nextTerm {fuel : Nat} (keeps : KeepsAt unicode fuel) {verbPos : Bool}
    (ran : parseTerm unicode (fuel + 1) verbPos s = .ok (term, after)) :
    Kept s after ∧ (verbPos = true → term.isLiteral = false) := by
  rw [parseTerm] at ran
  dsimp only at ran
  split at ran
  · cases ran
  · rcases map_eq_ok.mp ran with ⟨⟨inner, middle⟩, read, result⟩
    have inside : Kept s.enter middle ∧ (verbPos = true → inner.isLiteral = false) := by
      split at read
      · cases read
      · split at read
        · rcases map_eq_ok.mp read with ⟨⟨iri, last⟩, found, same⟩
          cases same
          exact ⟨kept_of_eq (triples_parseIriref found), fun _ => rfl⟩
        split at read
        · rename_i position
          exact ⟨keeps.literal read, fun verb => by simp [verb] at position⟩
        split at read
        · rename_i position
          exact ⟨keeps.propertyList read, fun verb => by simp [verb] at position⟩
        split at read
        · rename_i position
          exact ⟨keeps.collection read, fun verb => by simp [verb] at position⟩
        split at read
        · exact ⟨kept_of_eq (triples_parseBlank read).1, fun _ => (triples_parseBlank read).2⟩
        split at read
        · rename_i position
          exact ⟨kept_of_eq (triples_parseNumeric read), fun verb => by simp [verb] at position⟩
        · exact ⟨kept_of_eq (triples_parsePrefixedOrKeyword read).1,
            (triples_parsePrefixedOrKeyword read).2⟩
    cases result
    exact inside

theorem KeepsAt.succ {fuel : Nat} (keeps : KeepsAt unicode fuel) : KeepsAt unicode (fuel + 1) where
  term := keeps.nextTerm
  literal := by
    intro s term after ran
    simp only [parseLiteral, bind_eq_ok, Prod.exists] at ran
    rcases ran with ⟨value, rest, -, ran⟩
    split at ran
    · cases ran
      exact kept_of_eq rfl
    · rcases bind_eq_ok.mp ran with ⟨⟨datatype, last⟩, read, ran⟩
      dsimp only at ran
      have inside := (keeps.term read).1
      split at ran
      · cases ran
        exact inside
      · cases ran
    · cases ran
      exact kept_of_eq rfl
  propertyList := by
    intro s term after ran
    rw [parseBlankNodePropertyList] at ran
    rcases bind_eq_ok.mp ran with ⟨opened, expected, ran⟩
    have start : Kept s opened.freshBlank.2.skip :=
      kept_of_eq (triples_expect expected : opened.triples = s.triples)
    dsimp only at ran
    split at ran
    · cases ran
      exact start
    · rcases bind_eq_ok.mp ran with ⟨listed, list, ran⟩
      rcases bind_eq_ok.mp ran with ⟨closed, closing, result⟩
      cases result
      have last : after.triples = listed.skip.triples := triples_expect closing
      exact (start.trans (keeps.predicates list)).trans (kept_of_eq last)
  collection := by
    intro s term after ran
    rw [parseCollection] at ran
    rcases bind_eq_ok.mp ran with ⟨opened, expected, ran⟩
    rcases bind_eq_ok.mp ran with ⟨⟨items, listed⟩, list, ran⟩
    have start : Kept s listed := (kept_of_eq (triples_expect expected)).trans (keeps.items list)
    dsimp only at ran
    split at ran
    · cases ran
      exact start
    · cases ran
      exact (start.trans (kept_of_eq rfl)).trans (kept_chain items listed.freshBlank.2 _)
  items := by
    intro s items after ran
    rw [parseItems] at ran
    dsimp only at ran
    split at ran
    · cases ran
      exact kept_of_eq rfl
    · cases ran
    · rcases bind_eq_ok.mp ran with ⟨⟨item, first⟩, read, ran⟩
      rcases bind_eq_ok.mp ran with ⟨⟨items, last⟩, list, result⟩
      cases result
      exact (keeps.term read).1.trans (keeps.items list)
  verb := by
    intro s term after ran
    rw [parseVerb] at ran
    split at ran
    · cases ran
      exact ⟨kept_of_eq rfl, rfl⟩
    · have inside := keeps.term ran
      exact ⟨inside.1, inside.2 rfl⟩
  objects := by
    intro subject predicate s after verb ran
    rw [parseObjects] at ran
    rcases bind_eq_ok.mp ran with ⟨⟨object, read⟩, term, ran⟩
    have pushed : Kept s (read.push subject predicate object) :=
      (keeps.term term).1.trans (kept_push verb)
    dsimp only at ran
    split at ran
    · have further := keeps.objects verb ran
      exact pushed.trans further
    · cases ran
      exact pushed
  predicates := by
    intro subject s after ran
    rw [parsePredicateObjectList] at ran
    rcases bind_eq_ok.mp ran with ⟨⟨predicate, read⟩, verb, ran⟩
    rcases bind_eq_ok.mp ran with ⟨listed, list, ran⟩
    have inside := keeps.verb verb
    have start : Kept s listed := inside.1.trans (keeps.objects inside.2 list)
    dsimp only at ran
    split at ran
    · split at ran
      · cases ran
        exact start
      · have further := keeps.predicates ran
        exact start.trans further
    · cases ran
      exact start

theorem keepsAt (unicode : Alphanumeric) (fuel : Nat) : KeepsAt unicode fuel := by
  induction fuel with
  | zero =>
    constructor <;> intros <;> contradiction
  | succ fuel induction => exact induction.succ

theorem kept_parseTriplesStatement {fuel : Nat}
    (ran : parseTriplesStatement unicode fuel s = .ok after) : Kept s after := by
  rw [parseTriplesStatement] at ran
  rcases bind_eq_ok.mp ran with ⟨⟨subject, read⟩, term, ran⟩
  have start : Kept s read := ((keepsAt unicode fuel).term term).1
  dsimp only at ran
  split at ran
  · have last : after.triples = read.skip.skip.triples := triples_expect ran
    exact start.trans (kept_of_eq last)
  · rcases bind_eq_ok.mp ran with ⟨listed, list, ran⟩
    have further := (keepsAt unicode fuel).predicates list
    have last : after.triples = listed.skip.triples := triples_expect ran
    exact (start.trans further).trans (kept_of_eq last)

theorem triples_parseDeclaration {isPrefix dotted : Bool}
    (ran : parseDeclaration isPrefix dotted s = .ok after) : after.triples = s.triples := by
  rw [parseDeclaration] at ran
  rcases bind_eq_ok.mp ran with ⟨⟨ns, first⟩, named, ran⟩
  rcases bind_eq_ok.mp ran with ⟨⟨iri, second⟩, read, ran⟩
  rcases bind_eq_ok.mp ran with ⟨third, ended, ran⟩
  have name : first.triples = s.triples := by
    rw [readDeclared] at named
    split at named
    · rw [readPrefixNs] at named
      dsimp only at named
      split at named
      · cases named
        rfl
      · cases named
    · cases named
      rfl
  have reference : second.triples = first.skip.triples := triples_parseIriref read
  have point : third.triples = second.triples := by
    rw [endDeclaration] at ended
    split at ended
    · have closed : third.triples = second.skip.triples := triples_expect ended
      exact closed
    · cases ended
      rfl
  have whole := (point.trans reference).trans name
  split at ran
  · cases ran
    exact whole
  · cases ran
    exact whole

theorem kept_parseOne {fuel : Nat} {char : Char} (ran : parseOne unicode fuel char s = .ok after) :
    Kept s after := by
  rw [parseOne] at ran
  split at ran
  · rw [parseDirective] at ran
    dsimp only at ran
    split at ran
    · exact kept_of_eq (triples_parseDeclaration ran : after.triples = (readBareword s.bump).2.triples)
    · split at ran
      · exact kept_of_eq (triples_parseDeclaration ran : after.triples = (readBareword s.bump).2.triples)
      · cases ran
  · split at ran
    · rw [parseSparqlDirective] at ran
      dsimp only at ran
      split at ran
      · exact kept_of_eq (triples_parseDeclaration ran : after.triples = (readBareword s).2.triples)
      · split at ran
        · exact kept_of_eq
            (triples_parseDeclaration ran : after.triples = (readBareword s).2.triples)
        · cases ran
    · exact kept_parseTriplesStatement ran

theorem kept_parseDocument (fuel : Nat) :
    ∀ {s : State}, parseDocument unicode fuel s = .ok after → Kept s after := by
  induction fuel with
  | zero =>
    intro s ran
    cases ran
  | succ fuel induction =>
    intro s ran
    rw [parseDocument] at ran
    split at ran
    · cases ran
      exact kept_of_eq rfl
    · rcases bind_eq_ok.mp ran with ⟨middle, one, further⟩
      have here : Kept s.skip middle := kept_parseOne one
      exact here.trans (induction further)

/-- No document that the parser accepts has a literal for a predicate. -/
theorem predicate_of_parseStr {fuel : Nat} {content : Text} {triples : List Triple}
    (parsed : parseStr unicode fuel content = .ok triples) :
    ∀ triple ∈ triples, triple.predicate.isLiteral = false := by
  rw [parseStr, parseStrScoped] at parsed
  split at parsed
  · rename_i s ran
    cases parsed
    intro triple member
    rcases kept_parseDocument fuel ran triple member with before | predicate
    · cases before
    · exact predicate
  · cases parsed

end Kept

/-! ## Surface forms read back -/

section ReadBack

variable {unicode : Alphanumeric} {s : State} {rest : Text} {fuel : Nat}

/-- A label that can be told from what follows it. -/
structure PlainLabel (unicode : Alphanumeric) (label : Text) : Prop where
  nonempty : label ≠ []
  chars : ∀ char ∈ label, isLabelChar unicode char = true
  last : label.getLast? ≠ some '.'

/-- A term whose surface form reads back. -/
def PlainTerm (unicode : Alphanumeric) : Term → Prop
  | .iri iri => PlainIri iri
  | .blank label => PlainLabel unicode label
  | .literal _ datatype lang =>
    (∀ iri ∈ datatype, PlainIri iri) ∧ (∀ tag ∈ lang, ∀ char ∈ tag, isLangChar char = true) ∧
      (datatype = none ∨ lang = none)

theorem parseIriref_plain {iri : Text} (plain : PlainIri iri) (unbased : s.base = none)
    (text : s.rest = '<' :: (iri ++ '>' :: rest)) :
    parseIriref s = .ok (iri, { s with rest }) := by
  have opened : s.expect '<' = .ok s.bump := by simp [State.expect, State.peek, text]
  have scanned : scanIri (s.bump.rest.length + 1) [] s.bump.rest = .ok (iri, rest) := by
    have body : s.bump.rest = iri ++ '>' :: rest := by simp [State.bump, text]
    rw [body]
    exact scanIri_plain plain rest [] (by simp)
  rw [parseIriref, opened]
  change (scanIri (s.bump.rest.length + 1) [] s.bump.rest >>= _) = _
  rw [scanned]
  simp [bind, Except.bind, pure, Except.pure, State.resolveIri, State.bump, unbased]

theorem not_white_of_isLabelChar {char : Char} (label : isLabelChar unicode char = true) :
    isWhite char = false := by
  rw [Bool.eq_false_iff]
  intro white
  have accepted := unicode.white char white
  simp only [isLabelChar, accepted, Bool.false_or, Bool.or_eq_true, beq_iff_eq] at label
  rcases label with (rfl | rfl) | rfl <;> exact absurd white (by decide)

theorem scanLabel_plain {label : Text} (chars : ∀ char ∈ label, isLabelChar unicode char = true)
    (last : label.getLast? ≠ some '.') (stops : isLabelChar unicode ' ' = false) :
    scanLabel unicode (label ++ ' ' :: rest) = (label, ' ' :: rest) := by
  induction label with
  | nil => simp [scanLabel, stops]
  | cons char label induction =>
    have here := chars char List.mem_cons_self
    have goesOn : ¬ (char = '.' ∧ (label ++ ' ' :: rest).head?.all isWhite = true) := by
      rintro ⟨rfl, ends⟩
      cases label with
      | nil => exact last rfl
      | cons next label =>
        have white : isWhite next = true := by simpa using ends
        rw [not_white_of_isLabelChar (chars next (by simp))] at white
        cases white
    have further := induction (fun other member => chars other (List.mem_cons_of_mem _ member))
      (by
        cases label with
        | nil => simp
        | cons next label => simpa [List.getLast?_cons_cons] using last)
    rw [List.cons_append, scanLabel, if_pos ⟨here, goesOn⟩, further]

theorem space_not_label : isLabelChar unicode ' ' = false := by
  rw [isLabelChar, unicode.white ' ' (by decide)]
  decide

theorem parseBlank_plain {label : Text} (plain : PlainLabel unicode label)
    (text : s.rest = '_' :: ':' :: (label ++ ' ' :: rest)) :
    parseBlank unicode s = .ok (.blank label, { s with rest := ' ' :: rest }) := by
  have first : s.expect '_' = .ok s.bump := by simp [State.expect, State.peek, text]
  have second : s.bump.expect ':' = .ok s.bump.bump := by
    simp [State.expect, State.peek, State.bump, text]
  have scanned : scanLabel unicode (label ++ ' ' :: rest) = (label, ' ' :: rest) :=
    scanLabel_plain plain.chars plain.last space_not_label
  rw [parseBlank, first]
  change (s.bump.expect ':' >>= _) = _
  rw [second]
  simp [bind, Except.bind, pure, Except.pure, State.bump, text, scanned, plain.nonempty]

theorem head_escapeLiteral (value rest : Text) :
    (Term.escapeLiteral value ++ '"' :: rest).take 2 = ['"', '"'] → rest.head? = some '"' := by
  cases value with
  | nil =>
    intro both
    cases rest with
    | nil => cases both
    | cons char rest => simpa [Term.escapeLiteral] using both
  | cons char value =>
    rw [Term.escapeLiteral, List.flatMap_cons]
    unfold Term.escapeChar
    split <;> simp_all

theorem skip_of_head {char : Char} (white : isWhite char = false) (mark : char ≠ '#')
    (text : s.rest = char :: rest) : s.skip = s := by
  rw [State.skip, text, skipWs, if_neg (by simp [white]), if_neg mark, ← text]

/-- The datatype of a literal, or an IRI in any place. -/
theorem parseTerm_iri {iri : Text} {verbPos : Bool} (plain : PlainIri iri) (unbased : s.base = none)
    (shallow : s.depth < maxNestingDepth) (text : s.skip.rest = '<' :: (iri ++ '>' :: rest)) :
    parseTerm unicode (fuel + 1) verbPos s = .ok (.iri iri, { s with rest }) := by
  have read : parseIriref s.enter = .ok (iri, { s.enter with rest }) :=
    parseIriref_plain plain unbased text
  have first : s.enter.peek = some '<' := by
    change s.skip.rest.head? = _
    rw [text]
    rfl
  rw [parseTerm]
  dsimp only
  rw [if_neg (by simp only [State.enter]; omega), first]
  dsimp only
  rw [if_pos rfl, read]
  rfl

theorem parseLiteral_plain {value : Text} {datatype lang : Option Text}
    (plain : PlainTerm unicode (.literal value datatype lang)) (unbased : s.base = none)
    (shallow : s.depth < maxNestingDepth)
    (text : s.rest = (Term.literal value datatype lang).display ++ ' ' :: rest) :
    parseLiteral unicode (fuel + 2) s =
      .ok (.literal value datatype lang, { s with rest := ' ' :: rest }) := by
  rcases plain with ⟨datatypePlain, langPlain, one⟩
  have body : s.bump.rest = Term.escapeLiteral value ++
      '"' :: (Term.literalSuffix datatype lang ++ ' ' :: rest) := by
    rw [State.bump, text]
    simp [Term.display]
  have short : ¬ s.bump.rest.take 2 = ['"', '"'] := by
    rw [body]
    intro both
    have quote := head_escapeLiteral _ _ both
    cases datatype <;> cases lang <;> simp [Term.literalSuffix] at quote
  have scanned : scanString '"' false (s.bump.rest.length + 1) [] s.bump.rest =
      .ok (value, Term.literalSuffix datatype lang ++ ' ' :: rest) := by
    rw [body]
    apply scanString_escapeLiteral value _ []
    have longer := length_le_escapeLiteral value
    rw [List.length_append]
    omega
  have quote : s.peek.getD '"' = '"' := by
    rw [State.peek, text]
    rfl
  rw [parseLiteral, quote]
  dsimp only
  rw [decide_eq_false short]
  simp only [Bool.false_eq_true, if_false]
  cases datatype with
  | none =>
    cases lang with
    | none =>
      rw [scanned]
      rfl
    | some lang =>
      have parts : (lang ++ ' ' :: rest).takeWhile isLangChar = lang ∧
          (lang ++ ' ' :: rest).dropWhile isLangChar = ' ' :: rest :=
        takeWhile_dropWhile_of_stop (langPlain lang rfl) rfl
      have suffix : Term.literalSuffix none (some lang) ++ ' ' :: rest =
          '@' :: (lang ++ ' ' :: rest) := rfl
      rw [scanned, suffix]
      change Except.ok _ = _
      dsimp only
      rw [parts.1, parts.2]
      rfl
  | some datatype =>
    have lang : lang = none := by simpa using one
    subst lang
    have suffix : Term.literalSuffix (some datatype) none ++ ' ' :: rest =
        '^' :: '^' :: '<' :: (datatype ++ '>' :: ' ' :: rest) := by
      simp [Term.literalSuffix]
    have read : parseTerm unicode (fuel + 1) true
        { s.bump with rest := '<' :: (datatype ++ '>' :: ' ' :: rest) } =
        .ok (.iri datatype, { s.bump with rest := ' ' :: rest }) :=
      parseTerm_iri (datatypePlain datatype rfl) unbased shallow
        (by rw [skip_of_head (by decide) (by decide) rfl])
    rw [scanned, suffix]
    change (parseTerm unicode (fuel + 1) true
      { s.bump with rest := '<' :: (datatype ++ '>' :: ' ' :: rest) } >>= _) = _
    rw [read]
    rfl

/-- What follows the surface form of a term is left. -/
theorem parseTerm_plain {term : Term} {verbPos : Bool} (plain : PlainTerm unicode term)
    (position : verbPos = true → term.isLiteral = false) (unbased : s.base = none)
    (shallow : s.depth + 1 < maxNestingDepth) (text : s.skip.rest = term.display ++ ' ' :: rest) :
    parseTerm unicode (fuel + 3) verbPos s = .ok (term, { s with rest := ' ' :: rest }) := by
  cases term with
  | iri iri =>
    apply parseTerm_iri plain unbased (by omega)
    rw [text]
    simp [Term.display]
  | blank label =>
    have read : parseBlank unicode s.enter = .ok (.blank label, { s.enter with rest := ' ' :: rest }) :=
      parseBlank_plain plain text
    have first : s.enter.peek = some '_' := by
      change s.skip.rest.head? = _
      rw [text]
      rfl
    rw [parseTerm]
    dsimp only
    rw [if_neg (by simp only [State.enter]; omega), first]
    simp only [leave, read, Char.reduceEq, false_and, false_or, if_false, if_true]
    rfl
  | literal value datatype lang =>
    have object : verbPos = false := by
      cases verbPos
      · rfl
      · exact absurd (position rfl) (by simp [Term.isLiteral])
    have read : parseLiteral unicode (fuel + 2) s.enter =
        .ok (.literal value datatype lang, { s.enter with rest := ' ' :: rest }) :=
      parseLiteral_plain plain unbased shallow text
    have first : s.enter.peek = some '"' := by
      change s.skip.rest.head? = _
      rw [text]
      rfl
    rw [parseTerm]
    dsimp only
    rw [if_neg (by simp only [State.enter]; omega), first]
    simp only [leave, read, object, Char.reduceEq, true_or, and_self, if_false, if_true]
    rfl

/-- How the surface form of a term begins. -/
theorem display_head (term : Term) : ∃ char text, term.display = char :: text ∧
    (char = '<' ∨ char = '_' ∨ char = '"') := by
  cases term with
  | iri iri => exact ⟨'<', iri ++ ['>'], rfl, .inl rfl⟩
  | blank label => exact ⟨'_', ':' :: label, rfl, .inr (.inl rfl)⟩
  | literal value datatype lang => exact ⟨'"', _, rfl, .inr (.inr rfl)⟩

theorem blank_white : ∀ char ∈ [' '], isWhite char = true := by
  intro char member
  rw [List.mem_singleton.mp member]
  decide

theorem skip_display {term : Term} (blanks : Text)
    (white : ∀ char ∈ blanks, isWhite char = true)
    (text : s.rest = blanks ++ (term.display ++ rest)) : s.skip.rest = term.display ++ rest := by
  rcases display_head term with ⟨char, tail, shape, first⟩
  have solid : isWhite char = false ∧ char ≠ '#' := by
    rcases first with rfl | rfl | rfl <;> decide
  rw [State.skip, text, shape]
  clear text
  induction blanks with
  | nil => simp [skipWs, solid.1, solid.2]
  | cons blank blanks induction =>
    rw [List.cons_append, skipWs, if_pos (white blank List.mem_cons_self)]
    exact induction fun other member => white other (List.mem_cons_of_mem _ member)

/-- No verb that reads back starts with the keyword `a`. -/
theorem parseVerb_plain {term : Term} (plain : PlainTerm unicode term)
    (verb : term.isLiteral = false) (unbased : s.base = none)
    (shallow : s.depth + 1 < maxNestingDepth) (text : s.skip.rest = term.display ++ ' ' :: rest) :
    parseVerb unicode (fuel + 4) s = .ok (term, { s with rest := ' ' :: rest }) := by
  rcases display_head term with ⟨char, tail, shape, first⟩
  have keyword : s.skip.peek ≠ some 'a' := by
    rw [State.peek, text, shape]
    rcases first with rfl | rfl | rfl <;> simp
  have again : s.skip.skip.rest = term.display ++ ' ' :: rest := skip_display [] (by simp) text
  rw [parseVerb, if_neg (fun both => keyword both.1)]
  have unbased : s.skip.base = none := unbased
  have shallow : s.skip.depth + 1 < maxNestingDepth := shallow
  rw [parseTerm_plain plain (fun _ => verb) unbased shallow again]
  rfl

/-- One object before the final point. -/
theorem parseObjects_plain {subject predicate object : Term} (plain : PlainTerm unicode object)
    (unbased : s.base = none) (shallow : s.depth + 1 < maxNestingDepth)
    (text : s.skip.rest = object.display ++ ' ' :: '.' :: rest) :
    parseObjects unicode (fuel + 4) subject predicate s =
      .ok ({ s with rest := '.' :: rest }.push subject predicate object) := by
  rw [parseObjects, parseTerm_plain plain (fun impossible => by cases impossible) unbased shallow text]
  rfl

theorem parsePredicateObjectList_plain {subject predicate object : Term}
    (predicatePlain : PlainTerm unicode predicate) (objectPlain : PlainTerm unicode object)
    (verb : predicate.isLiteral = false) (unbased : s.base = none)
    (shallow : s.depth + 1 < maxNestingDepth)
    (text : s.skip.rest = predicate.display ++ ' ' :: (object.display ++ ' ' :: '.' :: rest)) :
    parsePredicateObjectList unicode (fuel + 5) subject s =
      .ok ({ s with rest := '.' :: rest }.push subject predicate object) := by
  let afterVerb : State := { s with rest := ' ' :: (object.display ++ ' ' :: '.' :: rest) }
  have verbRead : parseVerb unicode (fuel + 4) s.skip = .ok (predicate, afterVerb) :=
    parseVerb_plain predicatePlain verb unbased shallow (skip_display [] (by simp) text)
  have later : afterVerb.skip.rest = object.display ++ ' ' :: '.' :: rest :=
    skip_display [' '] blank_white rfl
  have objectRead : parseObjects unicode (fuel + 4) subject predicate afterVerb =
      .ok ({ s with rest := '.' :: rest }.push subject predicate object) :=
    parseObjects_plain objectPlain unbased shallow later
  rw [parsePredicateObjectList, verbRead]
  change (parseObjects unicode (fuel + 4) subject predicate afterVerb >>= _) = _
  rw [objectRead]
  rfl

/-- One statement, as a redo record or a line of a document holds it. -/
theorem parseTriplesStatement_plain {triple : Triple} (subject : PlainTerm unicode triple.subject)
    (predicate : PlainTerm unicode triple.predicate) (object : PlainTerm unicode triple.object)
    (verb : triple.predicate.isLiteral = false) (unbased : s.base = none)
    (shallow : s.depth + 1 < maxNestingDepth) (text : s.skip.rest = triple.display ++ rest) :
    parseTriplesStatement unicode (fuel + 5) s =
      .ok { s with rest, triples := s.triples ++ [triple] } := by
  rcases display_head triple.subject with ⟨char, tail, shape, first⟩
  let after : Text := triple.predicate.display ++ ' ' :: (triple.object.display ++ ' ' :: '.' :: rest)
  have whole : s.skip.rest = triple.subject.display ++ ' ' :: after := by
    simp [text, Triple.display, after]
  let afterSubject : State := { s with rest := ' ' :: after }
  have list : s.skip.peek ≠ some '[' := by
    rw [State.peek, whole, shape]
    rcases first with rfl | rfl | rfl <;> simp
  have unbased : s.skip.base = none := unbased
  have shallow : s.skip.depth + 1 < maxNestingDepth := shallow
  have subjectRead : parseTerm unicode (fuel + 5) false s.skip = .ok (triple.subject, afterSubject) :=
    parseTerm_plain subject (fun impossible => by cases impossible) unbased shallow
      (skip_display [] (by simp) whole)
  have skipped : afterSubject.skip.rest = after := skip_display [' '] blank_white rfl
  have listRead : parsePredicateObjectList unicode (fuel + 5) triple.subject afterSubject.skip =
      .ok ({ s with rest := '.' :: rest }.push triple.subject triple.predicate triple.object) :=
    parsePredicateObjectList_plain predicate object verb unbased shallow
      (skip_display [] (by simp) skipped)
  rw [parseTriplesStatement, subjectRead]
  change (if s.skip.peek = some '[' ∧ afterSubject.skip.peek = some '.' then _
    else parsePredicateObjectList unicode (fuel + 5) triple.subject afterSubject.skip >>= _) = _
  rw [if_neg (fun both => list both.1), listRead]
  rfl

/-- A triple whose surface form is read as a statement. -/
structure PlainTriple (unicode : Alphanumeric) (triple : Triple) : Prop where
  subject : PlainTerm unicode triple.subject
  predicate : PlainTerm unicode triple.predicate
  object : PlainTerm unicode triple.object
  verb : triple.predicate.isLiteral = false

/-- A document goes on behind a triple that it starts with. -/
theorem parseDocument_triple {triple : Triple} (plain : PlainTriple unicode triple)
    (unbased : s.base = none) (shallow : s.depth + 1 < maxNestingDepth) (blanks : Text)
    (white : ∀ char ∈ blanks, isWhite char = true)
    (text : s.rest = blanks ++ (triple.display ++ rest)) : parseDocument unicode (fuel + 6) s =
      parseDocument unicode (fuel + 5) { s with rest, triples := s.triples ++ [triple] } := by
  rcases display_head triple.subject with ⟨char, tail, shape, first⟩
  have whole : triple.display ++ rest = triple.subject.display ++
      (' ' :: (triple.predicate.display ++ ' ' :: (triple.object.display ++ ' ' :: '.' :: rest))) := by
    simp [Triple.display]
  have here : s.skip.rest = triple.display ++ rest := by
    rw [whole] at text ⊢
    exact skip_display blanks white text
  have begins : s.skip.peek = some char := by
    rw [State.peek, here, whole, shape]
    rfl
  have statement : parseOne unicode (fuel + 5) char s.skip =
      parseTriplesStatement unicode (fuel + 5) s.skip := by
    rcases first with rfl | rfl | rfl <;> rfl
  have again : s.skip.skip.rest = triple.display ++ rest := by
    rw [whole] at here ⊢
    exact skip_display [] (by simp) here
  have unbased : s.skip.base = none := unbased
  have shallow : s.skip.depth + 1 < maxNestingDepth := shallow
  have read : parseTriplesStatement unicode (fuel + 5) s.skip =
      .ok { s with rest, triples := s.triples ++ [triple] } :=
    parseTriplesStatement_plain plain.subject plain.predicate plain.object plain.verb unbased shallow
      again
  rw [parseDocument, begins]
  change (parseOne unicode (fuel + 5) char s.skip >>= _) = _
  rw [statement, read]
  rfl

theorem isWhite_newline : ∀ char ∈ ['\n'], isWhite char = true := by
  intro char member
  rw [List.mem_singleton.mp member]
  decide

/-- Triples on lines of their own, behind each other. -/
theorem parseDocument_lines (triples : List Triple) :
    ∀ {s : State} {fuel : Nat}, (∀ triple ∈ triples, PlainTriple unicode triple) → s.base = none →
      s.depth + 1 < maxNestingDepth → s.rest = triples.flatMap (fun triple => '\n' :: triple.display) →
      triples.length + 5 < fuel →
      parseDocument unicode fuel s = .ok { s with rest := [], triples := s.triples ++ triples } := by
  induction triples with
  | nil =>
    intro s fuel _ _ _ text enough
    obtain ⟨fuel, rfl⟩ := Nat.exists_eq_add_of_lt enough
    have done : s.skip = { s with rest := [], triples := s.triples ++ [] } := by
      rw [State.skip, text, List.append_nil]
      rfl
    rw [parseDocument, ← done, State.peek, State.skip, text]
    rfl
  | cons triple rest induction =>
    intro s fuel plain unbased shallow text enough
    obtain ⟨more, rfl⟩ := Nat.exists_eq_add_of_lt enough
    have size : (triple :: rest).length + 5 + more + 1 = rest.length + more + 1 + 6 := by
      rw [List.length_cons]
      omega
    have line : s.rest = ['\n'] ++ (triple.display ++
        rest.flatMap fun triple => '\n' :: triple.display) := by
      rw [text, List.flatMap_cons]
      rfl
    rw [size, parseDocument_triple (plain triple List.mem_cons_self) unbased shallow ['\n']
      isWhite_newline line]
    have later := @induction { s with
      rest := rest.flatMap fun triple => '\n' :: triple.display
      triples := s.triples ++ [triple] } (rest.length + more + 1 + 5)
      (fun other member => plain other (List.mem_cons_of_mem _ member)) unbased shallow rfl (by omega)
    rw [later, List.append_assoc]
    rfl

/-- A document of triples, one on each line. -/
theorem parseStr_lines {triples : List Triple}
    (plain : ∀ triple ∈ triples, PlainTriple unicode triple) (enough : triples.length + 6 < fuel) :
    parseStr unicode fuel (['\n'].intercalate (triples.map Triple.display)) = .ok triples := by
  have joined : ∀ (first : Triple) (rest : List Triple),
      ['\n'].intercalate ((first :: rest).map Triple.display) =
        first.display ++ rest.flatMap fun triple => '\n' :: triple.display := by
    intro first rest
    induction rest generalizing first with
    | nil => simp [List.intercalate]
    | cons second rest induction =>
      rw [List.map_cons, List.map_cons, List.intercalate_cons_cons, ← List.map_cons, induction,
        List.flatMap_cons]
      simp
  have document : parseDocument unicode fuel
      (.new (['\n'].intercalate (triples.map Triple.display)) ['g']) =
      .ok { State.new [] ['g'] with triples } := by
    have shallow : ∀ text, (State.new text ['g']).depth + 1 < maxNestingDepth := by
      intro text
      change 0 + 1 < 256
      decide
    cases triples with
    | nil => exact parseDocument_lines [] plain rfl (shallow _) rfl (by omega)
    | cons first rest =>
      obtain ⟨more, rfl⟩ := Nat.exists_eq_add_of_lt enough
      have size : (first :: rest).length + 6 + more + 1 = rest.length + more + 2 + 6 := by
        rw [List.length_cons]
        omega
      let start : State :=
        .new (first.display ++ rest.flatMap fun triple => '\n' :: triple.display) ['g']
      have line : start.rest =
          [] ++ (first.display ++ rest.flatMap fun triple => '\n' :: triple.display) := rfl
      rw [joined, size, parseDocument_triple (plain first List.mem_cons_self) rfl (shallow _) []
        nofun line]
      exact parseDocument_lines rest (fun other member => plain other (List.mem_cons_of_mem _ member))
        rfl (shallow []) rfl (by omega)
  rw [parseStr, parseStrScoped, document]

end ReadBack

end GStore.Parser.Turtle
