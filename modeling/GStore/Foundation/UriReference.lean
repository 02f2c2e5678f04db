import Mathlib.Logic.Relation
import Mathlib.Data.List.TakeWhile

/-! # References to resources

RFC 3986: the components of a reference and the text that they make up, the removal of dot
segments, and the resolution against a base. -/

namespace GStore

/-- `ALPHA *( ALPHA / DIGIT / "+" / "-" / "." )`, section 3.1. -/
def IsScheme (text : List Char) : Prop :=
  ∃ first rest, text = first :: rest ∧ first.isAlpha = true ∧
    ∀ char ∈ rest, char.isAlphanum = true ∨ char = '+' ∨ char = '-' ∨ char = '.'

theorem IsScheme.ne_mark {scheme : List Char} (isScheme : IsScheme scheme) {mark : Char}
    (special : mark.isAlphanum = false ∧ mark ≠ '+' ∧ mark ≠ '-' ∧ mark ≠ '.') : mark ∉ scheme := by
  obtain ⟨first, rest, rfl, letter, others⟩ := isScheme
  intro member
  rcases List.mem_cons.mp member with rfl | later
  · have alphanumeric : mark.isAlphanum = true := by
      rw [Char.isAlphanum, letter, Bool.true_or]
    cases special.1.symm.trans alphanumeric
  · rcases others mark later with alphanumeric | plus | minus | dot
    · cases special.1.symm.trans alphanumeric
    · exact special.2.1 plus
    · exact special.2.2.1 minus
    · exact special.2.2.2 dot

/-! ## Marks -/

section Marks

variable {mark : Char}

/-- A component that its mark introduces, where there is one. -/
def marked (mark : Char) (component : Option (List Char)) : List Char :=
  (component.map (mark :: ·)).getD []

/-- A text ends in at most one way with a marked component. -/
theorem marked_injective {left right : List Char} {component other : Option (List Char)}
    (leftAbsent : mark ∉ left) (rightAbsent : mark ∉ right)
    (equal : left ++ marked mark component = right ++ marked mark other) :
    left = right ∧ component = other := by
  induction left generalizing right with
  | nil =>
    cases right with
    | nil =>
      refine ⟨rfl, ?_⟩
      cases component with
      | none =>
        cases other with
        | none => rfl
        | some text => cases equal
      | some text =>
        cases other with
        | none => cases equal
        | some otherText => exact congrArg some (List.cons.inj equal).2
    | cons char right =>
      cases component with
      | none => cases equal
      | some text =>
        have same : mark = char := (List.cons.inj equal).1
        exact absurd (same ▸ List.mem_cons_self) rightAbsent
  | cons char left induction =>
    cases right with
    | nil =>
      cases other with
      | none => cases equal
      | some text =>
        have same : char = mark := (List.cons.inj equal).1
        exact absurd (same ▸ List.mem_cons_self) leftAbsent
    | cons otherChar right =>
      have parts := List.cons.inj equal
      have tails := induction (fun member => leftAbsent (List.mem_cons_of_mem _ member))
        (fun member => rightAbsent (List.mem_cons_of_mem _ member)) parts.2
      exact ⟨by rw [parts.1, tails.1], tails.2⟩

theorem mark_not_mem_marked {other : Char} {component : Option (List Char)} (different : mark ≠ other)
    (absent : ∀ text, component = some text → mark ∉ text) : mark ∉ marked other component := by
  cases component with
  | none => exact List.not_mem_nil
  | some text =>
    intro member
    rcases List.mem_cons.mp member with same | later
    · exact different same
    · exact absent text rfl later

theorem not_mem_takeWhile (mark : Char) (text : List Char) : mark ∉ text.takeWhile (· ≠ mark) := by
  intro inside
  have passed := List.mem_takeWhile_imp inside
  simp at passed

theorem dropWhile_mark (mark : Char) (text : List Char) :
    text.dropWhile (· ≠ mark) = [] ∨ ∃ rest, text.dropWhile (· ≠ mark) = mark :: rest := by
  cases ends : text.dropWhile (· ≠ mark) with
  | nil => exact .inl rfl
  | cons last rest =>
    have stopped := List.head_dropWhile_not (fun char => decide (char ≠ mark))
      (by rw [ends]; exact List.cons_ne_nil _ _ : text.dropWhile (· ≠ mark) ≠ [])
    simp only [ends, List.head_cons, decide_eq_false_iff_not, ne_eq, not_not] at stopped
    exact .inr ⟨rest, by rw [stopped]⟩

end Marks

/-! ## Components -/

structure UriReference where
  scheme : Option (List Char)
  authority : Option (List Char)
  path : List Char
  query : Option (List Char)
  fragment : Option (List Char)

namespace UriReference

variable {parts other : UriReference}

/-- The part in front of the path. -/
def front (parts : UriReference) : List Char :=
  (parts.scheme.map (· ++ [':'])).getD [] ++ (parts.authority.map ('/' :: '/' :: ·)).getD []

/-- Section 5.3. -/
def text (parts : UriReference) : List Char :=
  parts.front ++ parts.path ++ marked '?' parts.query ++ marked '#' parts.fragment

/-- The components are such that their text can only be read as them: section 3, without the
characters that each component excludes for other reasons. -/
structure WellFormed (parts : UriReference) : Prop where
  scheme : ∀ scheme, parts.scheme = some scheme → IsScheme scheme
  authority : ∀ authority, parts.authority = some authority →
    '/' ∉ authority ∧ '?' ∉ authority ∧ '#' ∉ authority
  path : '?' ∉ parts.path ∧ '#' ∉ parts.path
  query : ∀ query, parts.query = some query → '#' ∉ query
  /-- Behind an authority a path is empty or starts with a slash. -/
  rooted : parts.authority.isSome → parts.path = [] ∨ parts.path.head? = some '/'
  unrooted : parts.authority = none → ∀ rest, parts.path ≠ '/' :: '/' :: rest
  /-- Nothing at the start of a bare path is a scheme. -/
  bare : parts.scheme = none → parts.authority = none →
    ∀ scheme rest, IsScheme scheme → parts.path ≠ scheme ++ ':' :: rest

/-- The components of a text. -/
structure Splits (parts : UriReference) (text : List Char) : Prop where
  wellFormed : parts.WellFormed
  text_eq : parts.text = text

theorem WellFormed.not_mem_front (wellFormed : parts.WellFormed) {mark : Char}
    (delimiter : mark = '?' ∨ mark = '#') : mark ∉ parts.front := by
  have special : (mark.isAlphanum = false ∧ mark ≠ '+' ∧ mark ≠ '-' ∧ mark ≠ '.') ∧
      mark ≠ ':' ∧ mark ≠ '/' := by
    rcases delimiter with rfl | rfl <;> decide
  intro member
  rcases List.mem_append.mp member with inScheme | inAuthority
  · cases named : parts.scheme with
    | none =>
      rw [named] at inScheme
      cases inScheme
    | some scheme =>
      rw [named] at inScheme
      rcases List.mem_append.mp inScheme with inside | colon
      · exact (wellFormed.scheme scheme named).ne_mark special.1 inside
      · exact special.2.1 (List.mem_singleton.mp colon)
  · cases named : parts.authority with
    | none =>
      rw [named] at inAuthority
      cases inAuthority
    | some authority =>
      rw [named] at inAuthority
      have absent := wellFormed.authority authority named
      simp only [Option.map_some, Option.getD_some, List.mem_cons] at inAuthority
      rcases inAuthority with slash | slash | inside
      · exact special.2.2 slash
      · exact special.2.2 slash
      · rcases delimiter with rfl | rfl
        · exact absent.2.1 inside
        · exact absent.2.2 inside

theorem WellFormed.not_mem_path (wellFormed : parts.WellFormed) {mark : Char}
    (delimiter : mark = '?' ∨ mark = '#') : mark ∉ parts.front ++ parts.path := by
  intro member
  rcases List.mem_append.mp member with inFront | inPath
  · exact wellFormed.not_mem_front delimiter inFront
  · rcases delimiter with rfl | rfl
    · exact wellFormed.path.1 inPath
    · exact wellFormed.path.2 inPath

theorem WellFormed.hash_not_mem (wellFormed : parts.WellFormed) :
    '#' ∉ parts.front ++ parts.path ++ marked '?' parts.query := by
  intro member
  rcases List.mem_append.mp member with inPath | inQuery
  · exact wellFormed.not_mem_path (.inr rfl) inPath
  · exact mark_not_mem_marked (by decide) wellFormed.query inQuery

/-- An authority ends where the path starts. -/
theorem authority_injective {authority other path otherPath : List Char}
    (absent : '/' ∉ authority) (otherAbsent : '/' ∉ other)
    (rooted : path = [] ∨ path.head? = some '/') (otherRooted : otherPath = [] ∨ otherPath.head? = some '/')
    (equal : authority ++ path = other ++ otherPath) : authority = other ∧ path = otherPath := by
  have shape : ∀ {path : List Char}, (path = [] ∨ path.head? = some '/') →
      ∃ component, path = marked '/' component := by
    intro path rooted
    rcases rooted with rfl | slash
    · exact ⟨none, rfl⟩
    · cases path with
      | nil => cases slash
      | cons char rest =>
        obtain rfl := Option.some.inj slash
        exact ⟨some rest, rfl⟩
  obtain ⟨component, rfl⟩ := shape rooted
  obtain ⟨otherComponent, rfl⟩ := shape otherRooted
  obtain ⟨sameAuthority, sameComponent⟩ := marked_injective absent otherAbsent equal
  exact ⟨sameAuthority, by rw [sameComponent]⟩

/-- Behind the scheme. -/
def hierarchy (parts : UriReference) : List Char :=
  (parts.authority.map ('/' :: '/' :: ·)).getD [] ++ parts.path

theorem hierarchy_injective (wellFormed : parts.WellFormed) (otherFormed : other.WellFormed)
    (equal : parts.hierarchy = other.hierarchy) :
    parts.authority = other.authority ∧ parts.path = other.path := by
  rw [hierarchy, hierarchy] at equal
  cases named : parts.authority with
  | none =>
    cases otherNamed : other.authority with
    | none =>
      rw [named, otherNamed] at equal
      exact ⟨rfl, equal⟩
    | some authority =>
      rw [named, otherNamed] at equal
      exact absurd equal (wellFormed.unrooted named _)
  | some authority =>
    cases otherNamed : other.authority with
    | none =>
      rw [named, otherNamed] at equal
      exact absurd equal.symm (otherFormed.unrooted otherNamed _)
    | some otherAuthority =>
      rw [named, otherNamed] at equal
      have rest := (List.cons.inj (List.cons.inj equal).2).2
      obtain ⟨sameAuthority, samePath⟩ := authority_injective
        (wellFormed.authority _ named).1 (otherFormed.authority _ otherNamed).1
        (wellFormed.rooted (by rw [named]; rfl)) (otherFormed.rooted (by rw [otherNamed]; rfl)) rest
      exact ⟨by rw [sameAuthority], samePath⟩

/-- Without a scheme a text does not start like one with a scheme. -/
theorem WellFormed.not_scheme (wellFormed : parts.WellFormed) (bare : parts.scheme = none)
    {scheme rest : List Char} (isScheme : IsScheme scheme) :
    parts.hierarchy ≠ scheme ++ ':' :: rest := by
  intro equal
  rw [hierarchy] at equal
  cases named : parts.authority with
  | none =>
    rw [named] at equal
    exact wellFormed.bare bare named scheme rest isScheme equal
  | some authority =>
    rw [named] at equal
    have slash : '/' ∉ scheme := isScheme.ne_mark (by decide)
    obtain ⟨first, others, rfl, -⟩ := isScheme
    exact slash ((List.cons.inj equal).1 ▸ List.mem_cons_self)

/-- A text has its components in one way only. -/
theorem Splits.unique {written : List Char} (splits : parts.Splits written)
    (otherSplits : other.Splits written) : parts = other := by
  have formed := splits.wellFormed
  have otherFormed := otherSplits.wellFormed
  have equal : parts.text = other.text := splits.text_eq.trans otherSplits.text_eq.symm
  obtain ⟨stems, fragments⟩ := marked_injective formed.hash_not_mem otherFormed.hash_not_mem equal
  obtain ⟨fronts, queries⟩ := marked_injective (formed.not_mem_path (.inl rfl))
    (otherFormed.not_mem_path (.inl rfl)) stems
  rw [front, front, List.append_assoc, List.append_assoc] at fronts
  change _ ++ parts.hierarchy = _ ++ other.hierarchy at fronts
  have schemes : parts.scheme = other.scheme ∧ parts.hierarchy = other.hierarchy := by
    cases named : parts.scheme with
    | none =>
      cases otherNamed : other.scheme with
      | none =>
        rw [named, otherNamed] at fronts
        exact ⟨rfl, fronts⟩
      | some scheme =>
        rw [named, otherNamed] at fronts
        simp only [Option.map_none, Option.map_some, Option.getD_none, Option.getD_some,
          List.nil_append, List.append_assoc, List.singleton_append] at fronts
        exact absurd fronts (formed.not_scheme named (otherFormed.scheme _ otherNamed))
    | some scheme =>
      cases otherNamed : other.scheme with
      | none =>
        rw [named, otherNamed] at fronts
        simp only [Option.map_none, Option.map_some, Option.getD_none, Option.getD_some,
          List.nil_append, List.append_assoc, List.singleton_append] at fronts
        exact absurd fronts.symm (otherFormed.not_scheme otherNamed (formed.scheme _ named))
      | some otherScheme =>
        rw [named, otherNamed] at fronts
        simp only [Option.map_some, Option.getD_some, List.append_assoc,
          List.singleton_append] at fronts
        have colon : ':' ∉ scheme := (formed.scheme _ named).ne_mark (by decide)
        have otherColon : ':' ∉ otherScheme := (otherFormed.scheme _ otherNamed).ne_mark (by decide)
        obtain ⟨same, rest⟩ := @marked_injective _ _ _ (some parts.hierarchy)
          (some other.hierarchy) colon otherColon fronts
        exact ⟨by rw [same], Option.some.inj rest⟩
  obtain ⟨authorities, paths⟩ := hierarchy_injective formed otherFormed schemes.2
  cases parts
  cases other
  simp only [UriReference.mk.injEq]
  exact ⟨schemes.1, authorities, paths, queries, fragments⟩

/-- A text has a scheme when it starts like one. -/
theorem Splits.scheme_isSome_iff {written : List Char} (splits : parts.Splits written) :
    parts.scheme.isSome ↔ ∃ scheme rest, IsScheme scheme ∧ written = scheme ++ ':' :: rest := by
  obtain ⟨formed, rfl⟩ := splits
  constructor
  · intro someScheme
    obtain ⟨scheme, named⟩ := Option.isSome_iff_exists.mp someScheme
    refine ⟨scheme, parts.hierarchy ++ marked '?' parts.query ++ marked '#' parts.fragment,
      formed.scheme scheme named, ?_⟩
    rw [text, front, hierarchy, named]
    simp only [Option.map_some, Option.getD_some, List.append_assoc, List.cons_append,
      List.nil_append]
  · rintro ⟨scheme, rest, isScheme, shape⟩
    by_contra noScheme
    have bare : parts.scheme = none := Option.not_isSome_iff_eq_none.mp noScheme
    have question : '?' ∉ scheme := isScheme.ne_mark (by decide)
    have hash : '#' ∉ scheme := isScheme.ne_mark (by decide)
    -- What follows the path starts with a mark that no scheme holds.
    have later : ∀ char after, marked '?' parts.query ++ marked '#' parts.fragment = char :: after →
        char = '?' ∨ char = '#' := by
      intro char after same
      cases query : parts.query with
      | some _ =>
        rw [query] at same
        exact .inl (List.cons.inj same).1.symm
      | none =>
        cases fragment : parts.fragment with
        | some _ =>
          rw [query, fragment] at same
          exact .inr (List.cons.inj same).1.symm
        | none =>
          rw [query, fragment] at same
          cases same
    have whole : parts.hierarchy ++ (marked '?' parts.query ++ marked '#' parts.fragment) =
        scheme ++ ':' :: rest := by
      rw [← shape, text, front, bare, hierarchy]
      simp only [Option.map_none, Option.getD_none, List.nil_append, List.append_assoc]
    rcases List.append_eq_append_iff.mp whole with ⟨more, isScheme', tail⟩ | ⟨more, isPath, tail⟩
    · cases more with
      | nil =>
        rcases later _ _ tail with impossible | impossible <;> cases impossible
      | cons char more =>
        have member : char ∈ scheme := isScheme' ▸ List.mem_append_right _ List.mem_cons_self
        rcases later _ _ tail with rfl | rfl
        · exact question member
        · exact hash member
    · cases more with
      | nil =>
        rcases later _ _ tail.symm with impossible | impossible <;> cases impossible
      | cons char more =>
        rw [← (List.cons.inj tail).1] at isPath
        exact formed.not_scheme bare isScheme isPath

/-! ## Resolution -/

/-- Section 5.2.3. -/
def merge (base : UriReference) (path : List Char) : List Char :=
  if base.authority.isSome ∧ base.path = [] then '/' :: path
  else (base.path.reverse.dropWhile (· ≠ '/')).reverse ++ path

/-- Section 5.2.2, with the removal of dot segments. -/
def resolve (removeDots : List Char → List Char) (base reference : UriReference) : UriReference :=
  if reference.scheme.isSome then { reference with path := removeDots reference.path }
  else if reference.authority.isSome then
    { reference with scheme := base.scheme, path := removeDots reference.path }
  else if reference.path = [] then
    { base with
      query := if reference.query.isSome then reference.query else base.query
      fragment := reference.fragment }
  else if reference.path.head? = some '/' then
    { reference with
      scheme := base.scheme
      authority := base.authority
      path := removeDots reference.path }
  else
    { reference with
      scheme := base.scheme
      authority := base.authority
      path := removeDots (base.merge reference.path) }

end UriReference

/-! ## Dot segments -/

/-- No segment of a path is `.` or `..`. -/
def DotFree (path : List Char) : Prop :=
  ∀ segment ∈ path.splitOn '/', segment ≠ ['.'] ∧ segment ≠ ['.', '.']

/-- Without the last segment and the slash in front of it, if there is one. -/
def withoutLast (path : List Char) : List Char := (path.reverse.dropWhile (· ≠ '/')).tail.reverse

/-- Section 5.2.4, rules A to D: how an input that starts with a dot segment goes on, and whether
the output loses its last segment. -/
inductive DotRule : List Char → List Char → Bool → Prop
  | parent (rest : List Char) : DotRule ('.' :: '.' :: '/' :: rest) rest false
  | current (rest : List Char) : DotRule ('.' :: '/' :: rest) rest false
  | innerCurrent (rest : List Char) : DotRule ('/' :: '.' :: '/' :: rest) ('/' :: rest) false
  | lastCurrent : DotRule ['/', '.'] ['/'] false
  | innerParent (rest : List Char) : DotRule ('/' :: '.' :: '.' :: '/' :: rest) ('/' :: rest) true
  | lastParent : DotRule ['/', '.', '.'] ['/'] true
  | onlyCurrent : DotRule ['.'] [] false
  | onlyParent : DotRule ['.', '.'] [] false

/-- An input of which the first segment may move to the output: with the slash in front of it, and
up to the next slash or the end. -/
structure FirstSegment (input moved left : List Char) : Prop where
  nonempty : moved ≠ []
  shape : input = moved ++ left
  solid : '/' ∉ moved.tail
  ends : left = [] ∨ left.head? = some '/'

/-- One step of section 5.2.4, on the input and the output. -/
inductive DotStep : List Char × List Char → List Char × List Char → Prop
  | current {input left : List Char} (output : List Char) (rule : DotRule input left false) :
      DotStep (input, output) (left, output)
  | parent {input left : List Char} (output : List Char) (rule : DotRule input left true) :
      DotStep (input, output) (left, withoutLast output)
  | segment {input moved left : List Char} (output : List Char)
      (otherwise : ∀ left drops, ¬ DotRule input left drops)
      (first : FirstSegment input moved left) : DotStep (input, output) (left, output ++ moved)

/-- Section 5.2.4. -/
def RemovesDots (path result : List Char) : Prop :=
  Relation.ReflTransGen DotStep (path, []) ([], result)

section Determinism

variable {input left otherLeft moved otherMoved : List Char}

theorem DotRule.unique {drops otherDrops : Bool} (rule : DotRule input left drops)
    (other : DotRule input otherLeft otherDrops) : left = otherLeft ∧ drops = otherDrops := by
  cases rule <;> cases other <;> exact ⟨rfl, rfl⟩

theorem FirstSegment.unique (first : FirstSegment input moved left)
    (other : FirstSegment input otherMoved otherLeft) : moved = otherMoved ∧ left = otherLeft := by
  cases moved with
  | nil => exact absurd rfl first.nonempty
  | cons char rest =>
    cases otherMoved with
    | nil => exact absurd rfl other.nonempty
    | cons otherChar otherRest =>
      have parts := List.cons.inj (first.shape.symm.trans other.shape)
      obtain ⟨same, sameLeft⟩ := UriReference.authority_injective first.solid other.solid
        first.ends other.ends parts.2
      rw [List.tail_cons, List.tail_cons] at same
      exact ⟨by rw [parts.1, same], sameLeft⟩

theorem DotStep.unique : Relator.RightUnique DotStep := by
  intro state next other step otherStep
  cases step with
  | current output rule =>
    cases otherStep with
    | current _ otherRule => rw [(rule.unique otherRule).1]
    | parent _ otherRule => exact absurd (rule.unique otherRule).2 (by decide)
    | segment _ otherwise => exact absurd rule (otherwise _ _)
  | parent output rule =>
    cases otherStep with
    | current _ otherRule => exact absurd (rule.unique otherRule).2 (by decide)
    | parent _ otherRule => rw [(rule.unique otherRule).1]
    | segment _ otherwise => exact absurd rule (otherwise _ _)
  | segment output otherwise first =>
    cases otherStep with
    | current _ otherRule => exact absurd otherRule (otherwise _ _)
    | parent _ otherRule => exact absurd otherRule (otherwise _ _)
    | segment _ _ otherFirst =>
      obtain ⟨sameMoved, sameLeft⟩ := first.unique otherFirst
      rw [sameMoved, sameLeft]

/-- Nothing is done without input. -/
theorem DotStep.input_ne_nil {state next : List Char × List Char} (step : DotStep state next) :
    state.1 ≠ [] := by
  cases step with
  | current output rule => cases rule <;> exact List.cons_ne_nil _ _
  | parent output rule => cases rule <;> exact List.cons_ne_nil _ _
  | segment output otherwise first =>
    intro empty
    have parts := List.append_eq_nil_iff.mp (first.shape.symm.trans empty)
    exact first.nonempty parts.1

theorem RemovesDots.unique {path result other : List Char} (removes : RemovesDots path result)
    (otherRemoves : RemovesDots path other) : result = other := by
  have stuck : ∀ {output other : List Char},
      Relation.ReflTransGen DotStep ([], output) ([], other) → output = other := by
    intro output other run
    rcases run.cases_head with same | ⟨next, step, -⟩
    · exact (Prod.mk.inj same).2
    · exact absurd rfl step.input_ne_nil
  rcases removes.total_of_right_unique DotStep.unique otherRemoves with run | run
  · exact stuck run
  · exact (stuck run).symm

end Determinism

section DotFree

variable {front rest segment input path : List Char}

theorem dotFree_append_slash :
    DotFree (front ++ '/' :: rest) ↔ DotFree front ∧ DotFree rest := by
  rw [DotFree, List.splitOn_append_cons_self, List.forall_mem_append]
  rfl

theorem dotFree_slash : DotFree ('/' :: rest) ↔ DotFree rest := by
  rw [← List.nil_append ('/' :: rest), dotFree_append_slash]
  refine ⟨And.right, fun free => ⟨?_, free⟩⟩
  intro segment member
  rw [List.mem_singleton.mp member]
  exact ⟨nofun, nofun⟩

theorem dotFree_segment (solid : '/' ∉ segment) :
    DotFree segment ↔ segment ≠ ['.'] ∧ segment ≠ ['.', '.'] := by
  rw [DotFree, List.splitOn_eq_singleton solid]
  exact ⟨fun free => free segment List.mem_cons_self, fun free other member =>
    List.mem_singleton.mp member ▸ free⟩

theorem dotFree_nil : DotFree [] := (dotFree_segment List.not_mem_nil).mpr ⟨nofun, nofun⟩

/-- A rule answers a dot segment. -/
theorem DotRule.not_dotFree {left : List Char} {drops : Bool} (rule : DotRule input left drops) :
    ¬ DotFree input := by
  have single : ¬ DotFree ['.'] := fun free => ((dotFree_segment (by decide)).mp free).1 rfl
  have double : ¬ DotFree ['.', '.'] := fun free => ((dotFree_segment (by decide)).mp free).2 rfl
  intro free
  cases rule with
  | parent => exact double ((@dotFree_append_slash ['.', '.'] left).mp free).1
  | current => exact single ((@dotFree_append_slash ['.'] left).mp free).1
  | innerCurrent rest =>
    exact single ((@dotFree_append_slash ['.'] rest).mp (dotFree_slash.mp free)).1
  | lastCurrent => exact single (dotFree_slash.mp free)
  | innerParent rest =>
    exact double ((@dotFree_append_slash ['.', '.'] rest).mp (dotFree_slash.mp free)).1
  | lastParent => exact double (dotFree_slash.mp free)
  | onlyCurrent => exact single free
  | onlyParent => exact double free

theorem FirstSegment.of_ne_nil (nonempty : input ≠ []) :
    ∃ moved left, FirstSegment input moved left := by
  cases input with
  | nil => exact absurd rfl nonempty
  | cons char rest =>
    refine ⟨char :: rest.takeWhile (· ≠ '/'), rest.dropWhile (· ≠ '/'), ⟨?_, ?_, ?_, ?_⟩⟩
    · exact List.cons_ne_nil _ _
    · rw [List.cons_append, List.takeWhile_append_dropWhile]
    · exact not_mem_takeWhile '/' rest
    · rcases dropWhile_mark '/' rest with empty | ⟨left, slash⟩
      · exact .inl empty
      · rw [slash]
        exact .inr rfl

/-- A segment that no rule answers is not a dot segment. -/
theorem FirstSegment.dotFree {moved left : List Char} (first : FirstSegment input moved left)
    (otherwise : ∀ left drops, ¬ DotRule input left drops) : DotFree moved := by
  obtain ⟨nonempty, rfl, solid, ends⟩ := first
  have tails : ∀ {segment : List Char}, (segment = ['.'] ∨ segment = ['.', '.'] ∨
      segment = ['/', '.'] ∨ segment = ['/', '.', '.']) → moved ≠ segment := by
    rintro segment dots rfl
    have rooted : left = [] ∨ ∃ rest, left = '/' :: rest := by
      cases left with
      | nil => exact .inl rfl
      | cons char rest =>
        rcases ends with empty | slash
        · cases empty
        · exact .inr ⟨rest, by rw [Option.some.inj slash]⟩
    rcases rooted with rfl | ⟨rest, rfl⟩
    · rcases dots with rfl | rfl | rfl | rfl
      · exact otherwise _ _ .onlyCurrent
      · exact otherwise _ _ .onlyParent
      · exact otherwise _ _ .lastCurrent
      · exact otherwise _ _ .lastParent
    · rcases dots with rfl | rfl | rfl | rfl
      · exact otherwise _ _ (.current rest)
      · exact otherwise _ _ (.parent rest)
      · exact otherwise _ _ (.innerCurrent rest)
      · exact otherwise _ _ (.innerParent rest)
  cases moved with
  | nil => exact absurd rfl nonempty
  | cons char segment =>
    by_cases slash : char = '/'
    · obtain rfl := slash
      rw [List.tail_cons] at solid
      rw [dotFree_slash, dotFree_segment solid]
      constructor
      · rintro rfl
        exact tails (.inr (.inr (.inl rfl))) rfl
      · rintro rfl
        exact tails (.inr (.inr (.inr rfl))) rfl
    · have absent : '/' ∉ char :: segment := by
        intro member
        rcases List.mem_cons.mp member with same | later
        · exact slash same.symm
        · exact solid later
      rw [dotFree_segment absent]
      exact ⟨tails (.inl rfl), tails (.inr (.inl rfl))⟩

/-- A path ends in a segment behind its last slash. -/
theorem withoutLast_cases (path : List Char) :
    ('/' ∉ path ∧ withoutLast path = []) ∨
      ∃ last, '/' ∉ last ∧ path = withoutLast path ++ '/' :: last := by
  have absent : '/' ∉ (path.reverse.takeWhile (· ≠ '/')).reverse := by
    rw [List.mem_reverse]
    exact not_mem_takeWhile '/' _
  have shape : path = (path.reverse.dropWhile (· ≠ '/')).reverse ++
      (path.reverse.takeWhile (· ≠ '/')).reverse := by
    rw [← List.reverse_append, List.takeWhile_append_dropWhile, List.reverse_reverse]
  rcases dropWhile_mark '/' path.reverse with none_ | ⟨rest, some_⟩
  · rw [none_, List.reverse_nil, List.nil_append] at shape
    refine .inl ⟨?_, ?_⟩
    · rw [shape]
      exact absent
    · rw [withoutLast, none_]
      rfl
  · refine .inr ⟨_, absent, ?_⟩
    rw [some_, List.reverse_cons, List.append_assoc] at shape
    rw [withoutLast, some_]
    exact shape

theorem dotFree_withoutLast (free : DotFree path) : DotFree (withoutLast path) := by
  rcases withoutLast_cases path with ⟨-, empty⟩ | ⟨last, -, shape⟩
  · rw [empty]
    exact dotFree_nil
  · rw [shape] at free
    exact (dotFree_append_slash.mp free).1

/-- The output has no dot segments, and the input continues it with a slash. -/
structure DotsGone (state : List Char × List Char) : Prop where
  output : DotFree state.2
  continues : state.2 = [] ∨ state.1 = [] ∨ state.1.head? = some '/'

theorem DotStep.dotsGone {state next : List Char × List Char} (step : DotStep state next)
    (gone : DotsGone state) : DotsGone next := by
  obtain ⟨free, continues⟩ := gone
  cases step with
  | current output rule =>
    refine ⟨free, ?_⟩
    cases rule with
    | parent rest =>
      rcases continues with empty | empty | slash
      · exact .inl empty
      · cases empty
      · cases slash
    | current rest =>
      rcases continues with empty | empty | slash
      · exact .inl empty
      · cases empty
      · cases slash
    | innerCurrent rest => exact .inr (.inr rfl)
    | lastCurrent => exact .inr (.inr rfl)
    | onlyCurrent => exact .inr (.inl rfl)
    | onlyParent => exact .inr (.inl rfl)
  | parent output rule =>
    refine ⟨dotFree_withoutLast free, ?_⟩
    cases rule with
    | innerParent rest => exact .inr (.inr rfl)
    | lastParent => exact .inr (.inr rfl)
  | @segment input moved left output otherwise first =>
    refine ⟨?_, .inr first.ends⟩
    have movedFree := first.dotFree otherwise
    rcases continues with rfl | rfl | slash
    · exact movedFree
    · exact absurd (List.append_eq_nil_iff.mp first.shape.symm).1 first.nonempty
    · obtain ⟨nonempty, rfl, -, -⟩ := first
      cases moved with
      | nil => exact absurd rfl nonempty
      | cons char segment =>
        obtain rfl := Option.some.inj slash
        exact dotFree_append_slash.mpr ⟨free, dotFree_slash.mp movedFree⟩

/-- The result has no dot segments. -/
theorem RemovesDots.dotFree {result : List Char} (removes : RemovesDots path result) :
    DotFree result := by
  have gone : ∀ {state next}, Relation.ReflTransGen DotStep state next → DotsGone state →
      DotsGone next := by
    intro state next run start
    induction run with
    | refl => exact start
    | tail _ step induction => exact step.dotsGone induction
  exact (gone removes ⟨dotFree_nil, .inl rfl⟩).output

/-- A path without dot segments moves to the output as it is. -/
theorem removesDots_self (free : DotFree path) : RemovesDots path path := by
  have moves : ∀ (size : Nat) (input output : List Char), input.length ≤ size → DotFree input →
      Relation.ReflTransGen DotStep (input, output) ([], output ++ input) := by
    intro size
    induction size with
    | zero =>
      intro input output small _
      rw [List.length_eq_zero_iff.mp (Nat.le_zero.mp small), List.append_nil]
    | succ size induction =>
      intro input output small free
      by_cases empty : input = []
      · rw [empty, List.append_nil]
      · obtain ⟨moved, left, first⟩ := FirstSegment.of_ne_nil empty
        have step := DotStep.segment output (fun _ _ rule => rule.not_dotFree free) first
        have shorter : left.length ≤ size := by
          have length := congrArg List.length first.shape
          rw [List.length_append] at length
          have positive := List.length_pos_iff.mpr first.nonempty
          omega
        have leftFree : DotFree left := by
          rcases first.ends with rfl | slash
          · exact dotFree_nil
          · cases left with
            | nil => cases slash
            | cons char rest =>
              obtain rfl := Option.some.inj slash
              rw [first.shape] at free
              exact dotFree_slash.mpr (dotFree_append_slash.mp free).2
        have later := induction left (output ++ moved) shorter leftFree
        rw [List.append_assoc, ← first.shape] at later
        exact .head step later
  exact moves path.length path [] (Nat.le_refl _) free

end DotFree

/-! ## Removal without effect -/

section Removal

variable {path result : List Char}

theorem length_withoutLast_le (path : List Char) : (withoutLast path).length ≤ path.length := by
  rcases withoutLast_cases path with ⟨-, empty⟩ | ⟨last, -, shape⟩
  · rw [empty]
    exact Nat.zero_le _
  · have length := congrArg List.length shape
    rw [List.length_append] at length
    omega

theorem DotRule.length_le {input left : List Char} {drops : Bool} (rule : DotRule input left drops) :
    left.length ≤ input.length := by
  cases rule <;> simp only [List.length_cons, List.length_nil] <;> omega

theorem DotStep.length_le {state next : List Char × List Char} (step : DotStep state next) :
    next.1.length + next.2.length ≤ state.1.length + state.2.length := by
  cases step with
  | current output rule =>
    have shorter := rule.length_le
    dsimp only
    omega
  | parent output rule =>
    have shorter := rule.length_le
    have dropped := length_withoutLast_le output
    dsimp only
    omega
  | segment output otherwise first =>
    rw [first.shape]
    simp only [List.length_append]
    omega

theorem RemovesDots.length_le (removes : RemovesDots path result) : result.length ≤ path.length := by
  have shrinks : ∀ {state next}, Relation.ReflTransGen DotStep state next →
      next.1.length + next.2.length ≤ state.1.length + state.2.length := by
    intro state next run
    induction run with
    | refl => exact Nat.le_refl _
    | tail _ step induction => exact step.length_le.trans induction
  have whole := shrinks removes
  simp only [List.length_nil] at whole
  omega

/-- Nothing, or something that starts with a slash. -/
def Rooted (path : List Char) : Prop := path = [] ∨ path.head? = some '/'

theorem rooted_withoutLast (rooted : Rooted path) : Rooted (withoutLast path) := by
  rcases withoutLast_cases path with ⟨-, empty⟩ | ⟨last, -, shape⟩
  · exact .inl empty
  · cases front : withoutLast path with
    | nil => exact .inl rfl
    | cons char rest =>
      rw [front] at shape
      rw [shape] at rooted
      rcases rooted with impossible | slash
      · cases impossible
      · exact .inr slash

theorem DotStep.rooted {state next : List Char × List Char} (step : DotStep state next)
    (input : Rooted state.1) (output : Rooted state.2) : Rooted next.1 ∧ Rooted next.2 := by
  cases step with
  | current output' rule =>
    refine ⟨?_, output⟩
    cases rule with
    | parent rest => rcases input with impossible | impossible <;> cases impossible
    | current rest => rcases input with impossible | impossible <;> cases impossible
    | innerCurrent rest => exact .inr rfl
    | lastCurrent => exact .inr rfl
    | onlyCurrent => exact .inl rfl
    | onlyParent => exact .inl rfl
  | parent output' rule =>
    refine ⟨?_, rooted_withoutLast output⟩
    cases rule with
    | innerParent rest => exact .inr rfl
    | lastParent => exact .inr rfl
  | @segment text moved left output' otherwise first =>
    refine ⟨first.ends, ?_⟩
    have movedRooted : Rooted (moved ++ left) := first.shape ▸ input
    cases moved with
    | nil => exact absurd rfl first.nonempty
    | cons char segment =>
      rcases movedRooted with impossible | slash
      · cases impossible
      · rcases output with empty | front
        · dsimp only at empty ⊢
          rw [empty]
          exact .inr slash
        · cases output' with
          | nil => cases front
          | cons first rest => exact .inr front

theorem RemovesDots.rooted (removes : RemovesDots path result) (rooted : Rooted path) :
    Rooted result := by
  have keeps : ∀ {state next}, Relation.ReflTransGen DotStep state next → Rooted state.1 →
      Rooted state.2 → Rooted next.1 ∧ Rooted next.2 := by
    intro state next run input output
    induction run with
    | refl => exact ⟨input, output⟩
    | tail _ step induction => exact step.rooted induction.1 induction.2
  exact (keeps removes rooted (.inl rfl)).2

theorem RemovesDots.eq_iff (removes : RemovesDots path result) : result = path ↔ DotFree path := by
  constructor
  · intro same
    exact same ▸ removes.dotFree
  · intro free
    exact removes.unique (removesDots_self free)

end Removal

/-! ## Appending -/

theorem marked_eq_nil {mark : Char} {component : Option (List Char)} :
    marked mark component = [] ↔ component = none := by
  cases component with
  | none => exact ⟨fun _ => rfl, fun _ => rfl⟩
  | some text => exact ⟨fun impossible => (List.cons_ne_nil _ _ impossible).elim, fun impossible =>
    (Option.some_ne_none _ impossible).elim⟩

namespace UriReference

/-- Behind the path. -/
def suffix (parts : UriReference) : List Char :=
  marked '?' parts.query ++ marked '#' parts.fragment

theorem text_eq (parts : UriReference) : parts.text = parts.front ++ (parts.path ++ parts.suffix) := by
  rw [text, suffix, List.append_assoc, List.append_assoc]

theorem suffix_eq_nil {parts : UriReference} :
    parts.suffix = [] ↔ parts.query = none ∧ parts.fragment = none := by
  rw [suffix, List.append_eq_nil_iff, marked_eq_nil, marked_eq_nil]

/-- Nothing but a mark is too short for a suffix that ends in a slash. -/
theorem suffix_eq_nil_of_length {parts : UriReference} (short : parts.suffix.length ≤ 1)
    (ends : parts.suffix = [] ∨ parts.suffix.getLast? = some '/') : parts.suffix = [] := by
  rcases ends with empty | slash
  · exact empty
  · cases parts with
    | mk scheme authority path query fragment =>
      cases query with
      | none =>
        cases fragment with
        | none => rfl
        | some fragment =>
          cases fragment with
          | nil => cases slash
          | cons char rest => cases Nat.le_of_succ_le_succ short
      | some query =>
        cases query with
        | cons char rest => cases Nat.le_of_succ_le_succ short
        | nil =>
          cases fragment with
          | none => cases slash
          | some fragment => cases Nat.le_of_succ_le_succ short

/-- A base to which a reference is appended when it is resolved: nothing stands behind its path,
the reference has no authority, and the paths go on as they are. -/
structure Appends (base reference : UriReference) : Prop where
  bare : base.query = none ∧ base.fragment = none
  relative : reference.authority = none
  free : reference.path ≠ [] → DotFree base.path ∧ DotFree reference.path
  rooted : reference.path ≠ [] → (reference.path.head? = some '/' ↔ base.path = [])

section Appending

variable {base reference : UriReference} {clean : List Char → List Char} {path : List Char}

/-- Behind a directory a path is merged as it is. -/
theorem merge_directory (slash : base.path.getLast? = some '/') (path : List Char) :
    base.merge path = base.path ++ path := by
  have nonempty : base.path ≠ [] := by
    intro empty
    rw [empty] at slash
    cases slash
  have stays : base.path.reverse.dropWhile (· ≠ '/') = base.path.reverse := by
    rw [List.getLast?_eq_head?_reverse] at slash
    cases reversed : base.path.reverse with
    | nil => rfl
    | cons last rest =>
      rw [reversed] at slash
      rw [Option.some.inj slash]
      exact List.dropWhile_cons_of_neg (by decide)
  rw [merge, if_neg fun empty => nonempty empty.2, stays, List.reverse_reverse]

theorem length_merge_le (nonempty : base.path ≠ []) (path : List Char) :
    (base.merge path).length ≤ base.path.length + path.length := by
  have shorter := (List.dropWhile_sublist (fun char => decide (char ≠ '/'))
    (l := base.path.reverse)).length_le
  rw [merge, if_neg fun empty => nonempty empty.2, List.length_append, List.length_reverse]
  rw [List.length_reverse] at shorter
  omega

theorem dotFree_directory (slash : base.path.getLast? = some '/') :
    DotFree (base.path ++ path) ↔ DotFree base.path ∧ DotFree path := by
  obtain ⟨front, shape⟩ := List.getLast?_eq_some_iff.mp slash
  have whole : DotFree base.path ↔ DotFree front := by
    rw [shape, dotFree_append_slash]
    exact ⟨And.left, fun free => ⟨free, dotFree_nil⟩⟩
  rw [whole, shape, List.append_assoc, List.singleton_append, dotFree_append_slash]

theorem front_of_relative (relative : reference.scheme = none) (local_ : reference.authority = none) :
    reference.front = [] := by
  rw [front, relative, local_]
  rfl

/-- A text that ends in a slash has no suffix, or one that ends in a slash. -/
theorem suffix_ends (directory : base.text.getLast? = some '/') :
    base.suffix = [] ∨ base.suffix.getLast? = some '/' := by
  rw [text_eq, ← List.append_assoc] at directory
  by_cases empty : base.suffix = []
  · exact .inl empty
  · have last := List.getLast?_eq_some_getLast empty
    rw [List.getLast?_append, last, Option.some_or] at directory
    exact .inr (last.trans directory)

theorem scheme_ends (absolute : base.scheme.isSome) :
    ((base.scheme.map (· ++ [':'])).getD []).getLast? = some ':' := by
  obtain ⟨scheme, named⟩ := Option.isSome_iff_exists.mp absolute
  rw [named]
  exact List.getLast?_concat

theorem not_appended_to_network (cleans : ∀ path, RemovesDots path (clean path))
    (absolute : base.scheme.isSome) (relative : reference.scheme = none)
    (directory : base.text.getLast? = some '/') (network : reference.authority.isSome) :
    (base.resolve clean reference).text ≠ base.text ++ reference.text := by
  intro same
  have noScheme : ¬ reference.scheme.isSome = true := by
    rw [relative]
    exact Bool.false_ne_true
  rw [resolve, if_neg noScheme, if_pos network] at same
  have shorter := (cleans reference.path).length_le
  have lengths := congrArg List.length same
  have nothing : ((base.authority.map ('/' :: '/' :: ·)).getD [] ++
      (base.path ++ base.suffix)).length = 0 := by
    simp only [text_eq, front, suffix, relative, Option.map_none, Option.getD_none, List.length_append,
      List.length_nil] at lengths ⊢
    omega
  have ends := scheme_ends absolute
  rw [text_eq, front, List.append_assoc, List.eq_nil_of_length_eq_zero nothing, List.append_nil,
    ends] at directory
  cases directory

theorem appended_query_iff (relative : reference.scheme = none) (local_ : reference.authority = none)
    (empty : reference.path = []) (query : reference.query.isSome) :
    (base.resolve clean reference).text = base.text ++ reference.text ↔ base.Appends reference := by
  have resolved : (base.resolve clean reference).text =
      base.front ++ (base.path ++ reference.suffix) := by
    rw [resolve, if_neg (by rw [relative]; exact Bool.false_ne_true),
      if_neg (by rw [local_]; exact Bool.false_ne_true), if_pos empty, text_eq, suffix, if_pos query]
    rfl
  have whole : reference.text = reference.suffix := by
    rw [text_eq, front_of_relative relative local_, empty]
    rfl
  rw [resolved, whole, text_eq, List.append_assoc, List.append_assoc, List.append_cancel_left_eq,
    List.append_cancel_left_eq]
  constructor
  · intro same
    exact ⟨suffix_eq_nil.mp (List.self_eq_append_left.mp same), local_, fun nonempty =>
      absurd empty nonempty, fun nonempty => absurd empty nonempty⟩
  · intro appends
    rw [suffix_eq_nil.mpr appends.bare]
    rfl

theorem appended_rooted_iff (cleans : ∀ path, RemovesDots path (clean path))
    (relative : reference.scheme = none) (local_ : reference.authority = none)
    (slash : reference.path.head? = some '/') :
    (base.resolve clean reference).text = base.text ++ reference.text ↔ base.Appends reference := by
  have nonempty : reference.path ≠ [] := by
    intro empty
    rw [empty] at slash
    cases slash
  have resolved : (base.resolve clean reference).text =
      base.front ++ (clean reference.path ++ reference.suffix) := by
    rw [resolve, if_neg (by rw [relative]; exact Bool.false_ne_true),
      if_neg (by rw [local_]; exact Bool.false_ne_true), if_neg nonempty, if_pos slash, text_eq]
    rfl
  have whole : reference.text = reference.path ++ reference.suffix := by
    rw [text_eq, front_of_relative relative local_]
    rfl
  rw [resolved, whole, text_eq, List.append_assoc, List.append_cancel_left_eq]
  constructor
  · intro same
    have shorter := (cleans reference.path).length_le
    have lengths := congrArg List.length same
    simp only [List.length_append] at lengths
    have noPath : base.path = [] := List.eq_nil_of_length_eq_zero (by omega)
    have noSuffix : base.suffix = [] := List.eq_nil_of_length_eq_zero (by omega)
    rw [noPath, noSuffix, List.nil_append, List.nil_append, List.append_cancel_right_eq] at same
    have free := (cleans reference.path).eq_iff.mp same
    exact ⟨suffix_eq_nil.mp noSuffix, local_, fun _ => ⟨noPath ▸ dotFree_nil, free⟩,
      fun _ => ⟨fun _ => noPath, fun _ => slash⟩⟩
  · intro appends
    rw [suffix_eq_nil.mpr appends.bare, (appends.rooted nonempty).mp slash,
      (cleans reference.path).eq_iff.mpr (appends.free nonempty).2]
    rfl

theorem appended_relative_iff (cleans : ∀ path, RemovesDots path (clean path))
    (absolute : base.scheme.isSome) (relative : reference.scheme = none)
    (local_ : reference.authority = none) (directory : base.text.getLast? = some '/')
    (nonempty : reference.path ≠ []) (slash : reference.path.head? ≠ some '/') :
    (base.resolve clean reference).text = base.text ++ reference.text ↔ base.Appends reference := by
  have resolved : (base.resolve clean reference).text =
      base.front ++ (clean (base.merge reference.path) ++ reference.suffix) := by
    rw [resolve, if_neg (by rw [relative]; exact Bool.false_ne_true),
      if_neg (by rw [local_]; exact Bool.false_ne_true), if_neg nonempty, if_neg slash, text_eq]
    rfl
  have whole : reference.text = reference.path ++ reference.suffix := by
    rw [text_eq, front_of_relative relative local_]
    rfl
  have shorter := (cleans (base.merge reference.path)).length_le
  have ends := suffix_ends directory
  have pathEnds : base.suffix = [] → base.path ≠ [] → base.path.getLast? = some '/' := by
    intro noSuffix some_
    rw [text_eq, noSuffix, List.append_nil, List.getLast?_append,
      List.getLast?_eq_some_getLast some_, Option.some_or] at directory
    rw [List.getLast?_eq_some_getLast some_]
    exact directory
  rw [resolved, whole, text_eq, List.append_assoc, List.append_cancel_left_eq]
  constructor
  · intro same
    have lengths := congrArg List.length same
    simp only [List.length_append] at lengths
    by_cases noPath : base.path = []
    · rw [noPath, List.nil_append] at same
      by_cases host : base.authority.isSome = true
      · have merged : base.merge reference.path = '/' :: reference.path := if_pos ⟨host, noPath⟩
        rw [merged, List.length_cons] at shorter
        rw [merged, noPath, List.length_nil] at lengths
        have noSuffix := suffix_eq_nil_of_length (by omega) ends
        rw [merged, noSuffix, List.nil_append, List.append_cancel_right_eq] at same
        have rooted := (cleans ('/' :: reference.path)).rooted (.inr rfl)
        rw [same] at rooted
        exact (rooted.elim nonempty slash).elim
      · have merged : base.merge reference.path = reference.path := by
          rw [merge, if_neg fun both => host both.1, noPath]
          rfl
        rw [merged] at shorter lengths
        rw [noPath, List.length_nil] at lengths
        have noSuffix : base.suffix = [] := List.eq_nil_of_length_eq_zero (by omega)
        have noHost : base.authority = none := Option.not_isSome_iff_eq_none.mp host
        have last := scheme_ends absolute
        rw [text_eq, noPath, noSuffix, front, noHost, Option.map_none, Option.getD_none,
          List.append_nil, List.append_nil, List.append_nil, last] at directory
        cases directory
    · have merged := length_merge_le noPath reference.path
      have noSuffix : base.suffix = [] := List.eq_nil_of_length_eq_zero (by omega)
      have last := pathEnds noSuffix noPath
      rw [merge_directory last, noSuffix, List.append_nil, ← List.append_assoc,
        List.append_cancel_right_eq, (cleans _).eq_iff, dotFree_directory last] at same
      exact ⟨suffix_eq_nil.mp noSuffix, local_, fun _ => same,
        fun _ => ⟨fun rooted => absurd rooted slash, fun empty => absurd empty noPath⟩⟩
  · intro appends
    have noSuffix := suffix_eq_nil.mpr appends.bare
    have somePath : base.path ≠ [] := fun empty => slash ((appends.rooted nonempty).mpr empty)
    have last := pathEnds noSuffix somePath
    have free := (dotFree_directory last).mpr (appends.free nonempty)
    rw [merge_directory last, noSuffix, (cleans _).eq_iff.mpr free, List.append_assoc,
      List.append_nil]

theorem scheme_resolve (relative : reference.scheme = none) :
    (base.resolve clean reference).scheme = base.scheme := by
  rw [resolve, if_neg (by rw [relative]; exact Bool.false_ne_true)]
  split_ifs <;> rfl

/-- Resolution against a text that ends in a slash is concatenation exactly where it is appending. -/
theorem text_resolve_eq_append_iff (cleans : ∀ path, RemovesDots path (clean path))
    (absolute : base.scheme.isSome) (relative : reference.scheme = none)
    (directory : base.text.getLast? = some '/')
    (moves : reference.authority.isSome ∨ reference.path ≠ [] ∨ reference.query.isSome) :
    (base.resolve clean reference).text = base.text ++ reference.text ↔ base.Appends reference := by
  by_cases network : reference.authority.isSome = true
  · constructor
    · exact fun same =>
        absurd same (not_appended_to_network cleans absolute relative directory network)
    · intro appends
      rw [appends.relative] at network
      cases network
  · have local_ : reference.authority = none := Option.not_isSome_iff_eq_none.mp network
    by_cases empty : reference.path = []
    · have query := (moves.resolve_left network).resolve_left fun nonempty => nonempty empty
      exact appended_query_iff relative local_ empty query
    · by_cases slash : reference.path.head? = some '/'
      · exact appended_rooted_iff cleans relative local_ slash
      · exact appended_relative_iff cleans absolute relative local_ directory empty slash

end Appending

end UriReference

end GStore
