import GStore.Foundation.UriReference
import GStore.Parser.Turtle

/-! # The resolution of references in Turtle

`parser/turtle.rs`, `resolve_reference`, as an instance of RFC 3986: the split is the only one that
the components allow, and the loop over a path runs the rules for dot segments. -/

namespace GStore.Parser.Turtle

/-! ## Schemes and marks -/

theorem isValidScheme_iff {text : Text} : isValidScheme text = true ↔ IsScheme text := by
  cases text with
  | nil =>
    constructor
    · intro impossible
      cases impossible
    · rintro ⟨first, rest, impossible, -⟩
      cases impossible
  | cons first rest =>
    simp only [isValidScheme, Bool.and_eq_true, List.all_eq_true, Bool.or_eq_true, beq_iff_eq]
    constructor
    · rintro ⟨letter, others⟩
      refine ⟨first, rest, rfl, letter, fun char member => ?_⟩
      rcases others char member with ((alphanumeric | plus) | minus) | dot
      · exact .inl alphanumeric
      · exact .inr (.inl plus)
      · exact .inr (.inr (.inl minus))
      · exact .inr (.inr (.inr dot))
    · rintro ⟨first, rest, shape, letter, others⟩
      cases shape
      refine ⟨letter, fun char member => ?_⟩
      rcases others char member with alphanumeric | plus | minus | dot
      · exact .inl (.inl (.inl alphanumeric))
      · exact .inl (.inl (.inr plus))
      · exact .inl (.inr minus)
      · exact .inr dot

theorem splitFirst_cases (mark : Char) (text : Text) :
    (splitFirst mark text = none ∧ mark ∉ text) ∨
      ∃ before after, splitFirst mark text = some (before, after) ∧ mark ∉ before ∧
        text = before ++ mark :: after := by
  rw [splitFirst]
  by_cases member : mark ∈ text
  · rw [if_pos member]
    refine .inr ⟨_, _, rfl, not_mem_takeWhile mark text, ?_⟩
    have whole : text = text.takeWhile (· ≠ mark) ++ text.dropWhile (· ≠ mark) :=
      List.takeWhile_append_dropWhile.symm
    rcases dropWhile_mark mark text with empty | ⟨rest, stops⟩
    · rw [empty, List.append_nil] at whole
      rw [whole] at member
      exact absurd member (not_mem_takeWhile mark text)
    · rw [stops] at whole ⊢
      exact whole
  · rw [if_neg member]
    exact .inl ⟨rfl, member⟩

theorem splitFirst_append {mark : Char} {before after : Text} (absent : mark ∉ before) :
    splitFirst mark (before ++ mark :: after) = some (before, after) := by
  rcases splitFirst_cases mark (before ++ mark :: after) with ⟨-, missing⟩ | ⟨front, back, found, other, shape⟩
  · exact absurd (List.mem_append_right _ List.mem_cons_self) missing
  · obtain ⟨rfl, rfl⟩ := before_mark_injective absent other shape
    exact found

/-! ## The split -/

/-- A stem, and what stands behind its first such mark. -/
def cut (mark : Char) (text : Text) : Text × Option Text :=
  match splitFirst mark text with
  | some (before, after) => (before, some after)
  | none => (text, none)

def cutScheme (text : Text) : Text × Text :=
  match splitFirst ':' text with
  | some (before, after) => if isValidScheme before then (before, after) else ([], text)
  | none => ([], text)

def cutAuthority : Text → Option Text × Text
  | '/' :: '/' :: after => (some (after.takeWhile (· ≠ '/')), after.dropWhile (· ≠ '/'))
  | path => (none, path)

/-- The stages of the split. -/
theorem splitIri_eq (text : Text) : splitIri text =
    { scheme := (cutScheme (cut '?' (cut '#' text).1).1).1
      authority := (cutAuthority (cutScheme (cut '?' (cut '#' text).1).1).2).1
      path := (cutAuthority (cutScheme (cut '?' (cut '#' text).1).1).2).2
      query := (cut '?' (cut '#' text).1).2
      fragment := (cut '#' text).2 } := by
  change (match (cutScheme (cut '?' (cut '#' text).1).1).2 with
    | '/' :: '/' :: after => ({
        scheme := (cutScheme (cut '?' (cut '#' text).1).1).1
        authority := some (after.takeWhile (· ≠ '/')), path := after.dropWhile (· ≠ '/')
        query := (cut '?' (cut '#' text).1).2, fragment := (cut '#' text).2 } : IriParts)
    | path => {
        scheme := (cutScheme (cut '?' (cut '#' text).1).1).1
        authority := none, path
        query := (cut '?' (cut '#' text).1).2, fragment := (cut '#' text).2 }) = _
  unfold cutAuthority
  split <;> rfl

theorem cut_spec (mark : Char) (text : Text) :
    mark ∉ (cut mark text).1 ∧ text = (cut mark text).1 ++ marked mark (cut mark text).2 := by
  rw [cut]
  rcases splitFirst_cases mark text with ⟨found, absent⟩ | ⟨before, after, found, absent, shape⟩
  · rw [found]
    exact ⟨absent, (List.append_nil text).symm⟩
  · rw [found]
    exact ⟨absent, shape⟩

theorem cutScheme_cases (text : Text) :
    (∃ scheme rest, cutScheme text = (scheme, rest) ∧ IsScheme scheme ∧ text = scheme ++ ':' :: rest) ∨
      cutScheme text = ([], text) ∧
        ∀ scheme rest, IsScheme scheme → text ≠ scheme ++ ':' :: rest := by
  rw [cutScheme]
  rcases splitFirst_cases ':' text with ⟨found, absent⟩ | ⟨before, after, found, absent, shape⟩
  · rw [found]
    refine .inr ⟨rfl, fun scheme rest _ other => ?_⟩
    rw [other] at absent
    exact absent (List.mem_append_right _ List.mem_cons_self)
  · rw [found]
    dsimp only
    by_cases valid : isValidScheme before = true
    · rw [if_pos valid]
      exact .inl ⟨before, after, rfl, isValidScheme_iff.mp valid, shape⟩
    · rw [if_neg valid]
      refine .inr ⟨rfl, fun scheme rest isScheme other => ?_⟩
      have colon : ':' ∉ scheme := isScheme.ne_mark (by decide)
      have same := (before_mark_injective absent colon (shape.symm.trans other)).1
      exact valid (same ▸ isValidScheme_iff.mpr isScheme)

theorem cutAuthority_cases (text : Text) :
    (∃ authority path, cutAuthority text = (some authority, path) ∧ '/' ∉ authority ∧
      (path = [] ∨ path.head? = some '/') ∧ text = '/' :: '/' :: (authority ++ path)) ∨
      cutAuthority text = (none, text) ∧ ∀ rest, text ≠ '/' :: '/' :: rest := by
  rw [cutAuthority.eq_def]
  split
  · rename_i after
    refine .inl ⟨_, _, rfl, not_mem_takeWhile '/' after, ?_, ?_⟩
    · rcases dropWhile_mark '/' after with empty | ⟨rest, slash⟩
      · exact .inl empty
      · rw [slash]
        exact .inr rfl
    · rw [List.takeWhile_append_dropWhile]
  · rename_i other
    exact .inr ⟨rfl, other⟩

/-- The components, where an empty scheme is none. -/
def IriParts.reference (parts : IriParts) : UriReference where
  scheme := if parts.scheme = [] then none else some parts.scheme
  authority := parts.authority
  path := parts.path
  query := parts.query
  fragment := parts.fragment

theorem recompose_eq_text (parts : IriParts) : recompose parts = parts.reference.text := by
  rw [recompose, UriReference.text, UriReference.front, IriParts.reference]
  by_cases empty : parts.scheme = []
  · simp [empty, marked]
  · simp [empty, marked]

/-- What stands around an authority and a path. -/
theorem splits_of_stages {scheme rest stem path : Text} {authority query fragment : Option Text}
    {text : Text} (schemes : (IsScheme scheme ∧ stem = scheme ++ ':' :: rest) ∨
      (scheme = [] ∧ stem = rest ∧ ∀ scheme after, IsScheme scheme → stem ≠ scheme ++ ':' :: after))
    (authorities : (∃ host, authority = some host ∧ '/' ∉ host ∧ (path = [] ∨ path.head? = some '/') ∧
        rest = '/' :: '/' :: (host ++ path)) ∨
      (authority = none ∧ path = rest ∧ ∀ after, rest ≠ '/' :: '/' :: after))
    (noQuestion : '?' ∉ stem) (noHash : '#' ∉ stem ++ marked '?' query)
    (shape : text = stem ++ marked '?' query ++ marked '#' fragment) :
    (IriParts.mk scheme authority path query fragment).reference.Splits text := by
  have restIn : ∀ char ∈ rest, char ∈ stem := by
    intro char member
    rcases schemes with ⟨-, rfl⟩ | ⟨-, rfl, -⟩
    · exact List.mem_append_right _ (List.mem_cons_of_mem _ member)
    · exact member
  have pathIn : ∀ char ∈ path, char ∈ stem := by
    intro char member
    apply restIn
    rcases authorities with ⟨host, -, -, -, rfl⟩ | ⟨-, rfl, -⟩
    · simp [member]
    · exact member
  have stemHash : '#' ∉ stem := fun member => noHash (List.mem_append_left _ member)
  refine ⟨⟨?_, ?_, ?_, ?_, ?_, ?_, ?_⟩, ?_⟩
  · intro named isNamed
    rcases schemes with ⟨isScheme, -⟩ | ⟨rfl, -⟩
    · have nonempty : scheme ≠ [] := by
        rintro rfl
        obtain ⟨first, others, impossible, -⟩ := isScheme
        cases impossible
      rw [IriParts.reference, if_neg nonempty] at isNamed
      exact Option.some.inj isNamed ▸ isScheme
    · cases isNamed
  · intro host isHost
    rcases authorities with ⟨other, rfl, slash, -, rfl⟩ | ⟨rfl, -⟩
    · obtain rfl := Option.some.inj isHost
      refine ⟨slash, fun member => noQuestion (restIn _ ?_), fun member => stemHash (restIn _ ?_)⟩
      · simp [member]
      · simp [member]
    · cases isHost
  · exact ⟨fun member => noQuestion (pathIn _ member), fun member => stemHash (pathIn _ member)⟩
  · intro isQuery found member
    cases found
    exact noHash (List.mem_append_right _ (List.mem_cons_of_mem _ member))
  · intro someAuthority
    rcases authorities with ⟨host, -, -, rooted, -⟩ | ⟨rfl, -⟩
    · exact rooted
    · cases someAuthority
  · intro noAuthority after
    rcases authorities with ⟨host, rfl, -⟩ | ⟨-, rfl, unrooted⟩
    · cases noAuthority
    · exact unrooted after
  · intro noScheme noAuthority named after isScheme
    rcases authorities with ⟨host, rfl, -⟩ | ⟨-, rfl, -⟩
    · cases noAuthority
    · rcases schemes with ⟨⟨first, others, rfl, -⟩, -⟩ | ⟨-, rfl, bare⟩
      · rw [IriParts.reference, if_neg (List.cons_ne_nil _ _)] at noScheme
        cases noScheme
      · exact bare named after isScheme
  · rw [shape, ← recompose_eq_text, recompose]
    have hierarchy : (authority.map ("//".toList ++ ·)).getD [] ++ path = rest := by
      rcases authorities with ⟨host, rfl, -, -, rfl⟩ | ⟨rfl, rfl, -⟩
      · rfl
      · rfl
    have front : (if scheme = [] then [] else scheme ++ [':']) ++ rest = stem := by
      rcases schemes with ⟨⟨first, others, rfl, -⟩, rfl⟩ | ⟨rfl, rfl, -⟩
      · simp
      · rfl
    rw [← front, ← hierarchy]
    simp [marked]

/-- The split of a text answers its components. -/
theorem splitIri_splits (text : Text) : (splitIri text).reference.Splits text := by
  obtain ⟨noHash, fragments⟩ := cut_spec '#' text
  obtain ⟨noQuestion, queries⟩ := cut_spec '?' (cut '#' text).1
  rw [splitIri_eq]
  rcases cutScheme_cases (cut '?' (cut '#' text).1).1 with
    ⟨scheme, rest, isCut, isScheme, stem⟩ | ⟨isCut, bare⟩
  · rw [isCut]
    apply splits_of_stages (.inl ⟨isScheme, stem⟩) ?_ noQuestion
    · rw [← queries]
      exact noHash
    · rw [← queries]
      exact fragments
    · rcases cutAuthority_cases rest with ⟨host, path, found, others⟩ | ⟨found, unrooted⟩
      · rw [found]
        exact .inl ⟨host, rfl, others⟩
      · rw [found]
        exact .inr ⟨rfl, rfl, unrooted⟩
  · rw [isCut]
    apply splits_of_stages (.inr ⟨rfl, rfl, bare⟩) ?_ noQuestion
    · rw [← queries]
      exact noHash
    · rw [← queries]
      exact fragments
    · rcases cutAuthority_cases (cut '?' (cut '#' text).1).1 with
        ⟨host, path, found, others⟩ | ⟨found, unrooted⟩
      · rw [found]
        exact .inl ⟨host, rfl, others⟩
      · rw [found]
        exact .inr ⟨rfl, rfl, unrooted⟩

/-- A text is absolute when its components have a scheme. -/
theorem isAbsoluteIri_iff {text : Text} {parts : UriReference} (splits : parts.Splits text) :
    isAbsoluteIri text = true ↔ parts.scheme.isSome := by
  rw [splits.scheme_isSome_iff, isAbsoluteIri]
  constructor
  · intro absolute
    rcases splitFirst_cases ':' text with ⟨found, -⟩ | ⟨before, after, found, -, shape⟩
    · rw [found] at absolute
      cases absolute
    · rw [found] at absolute
      exact ⟨before, after, isValidScheme_iff.mp absolute, shape⟩
  · rintro ⟨scheme, rest, isScheme, rfl⟩
    have colon : ':' ∉ scheme := isScheme.ne_mark (by decide)
    rw [splitFirst_append colon]
    exact isValidScheme_iff.mpr isScheme

/-! ## Paths -/

theorem beforeLast_eq (text : Text) : (beforeLast '/' text).getD [] = withoutLast text := by
  rw [beforeLast]
  rcases withoutLast_cases text with ⟨absent, empty⟩ | ⟨last, absent, shape⟩
  · rcases splitFirst_cases '/' text.reverse with ⟨found, -⟩ | ⟨before, after, -, -, reversed⟩
    · rw [found, empty]
      rfl
    · have member : '/' ∈ text.reverse := by
        rw [reversed]
        exact List.mem_append_right _ List.mem_cons_self
      exact absurd (List.mem_reverse.mp member) absent
  · have reversed : text.reverse = last.reverse ++ '/' :: (withoutLast text).reverse := by
      rw [shape]
      simp only [List.reverse_append, List.reverse_cons, List.append_assoc, List.singleton_append]
      rw [← shape]
    rw [reversed, splitFirst_append (fun member => absent (List.mem_reverse.mp member))]
    exact List.reverse_reverse _

/-- What the loop moves is the first segment. -/
theorem segmentLength {input moved left : Text} (first : FirstSegment input moved left) :
    (if input.head? = some '/' then 1 else 0) +
      ((input.drop (if input.head? = some '/' then 1 else 0)).takeWhile (· ≠ '/')).length =
        moved.length := by
  obtain ⟨nonempty, rfl, solid, ends⟩ := first
  have stops : left.head?.all (fun char => !decide (char ≠ '/')) = true := by
    rcases ends with rfl | slash
    · rfl
    · rw [slash]
      rfl
  cases moved with
  | nil => exact absurd rfl nonempty
  | cons char segment =>
    by_cases slash : char = '/'
    · have all : ∀ other ∈ segment, decide (other ≠ '/') = true := by
        intro other member
        exact decide_eq_true fun same => solid (same ▸ member)
      have parts := takeWhile_dropWhile_of_stop all stops
      rw [List.cons_append, List.head?_cons, if_pos (congrArg some slash), List.drop_succ_cons,
        List.drop_zero, parts.1, List.length_cons, Nat.add_comm]
    · have all : ∀ other ∈ char :: segment, decide (other ≠ '/') = true := by
        intro other member
        rcases List.mem_cons.mp member with rfl | later
        · exact decide_eq_true slash
        · exact decide_eq_true fun same => solid (same ▸ later)
      have parts := takeWhile_dropWhile_of_stop all stops
      rw [List.cons_append, List.head?_cons, if_neg fun same => slash (Option.some.inj same),
        List.drop_zero, ← List.cons_append, parts.1, Nat.zero_add]

/-- The loop takes a step of the removal. -/
theorem removeDotSegments_step {input : Text} (nonempty : input ≠ []) (output : Text) :
    ∃ left after, DotStep (input, output) (left, after) ∧ left.length < input.length ∧
      ∀ fuel, removeDotSegments (fuel + 1) input output = removeDotSegments fuel left after := by
  have unfolded := fun fuel => removeDotSegments.eq_3 input output fuel nonempty
  by_cases parent : "../".toList.isPrefixOf input = true
  · obtain ⟨rest, rfl⟩ := List.isPrefixOf_iff_prefix.mp parent
    refine ⟨rest, output, .current output (.parent rest), ?_, fun fuel => ?_⟩
    · rw [List.length_append]
      exact Nat.lt_add_of_pos_left (by decide)
    · rw [unfolded, if_pos parent]
      rfl
  by_cases current : "./".toList.isPrefixOf input = true
  · obtain ⟨rest, rfl⟩ := List.isPrefixOf_iff_prefix.mp current
    refine ⟨rest, output, .current output (.current rest), ?_, fun fuel => ?_⟩
    · rw [List.length_append]
      exact Nat.lt_add_of_pos_left (by decide)
    · rw [unfolded, if_neg parent, if_pos current]
      rfl
  by_cases innerCurrent : "/./".toList.isPrefixOf input = true
  · obtain ⟨rest, rfl⟩ := List.isPrefixOf_iff_prefix.mp innerCurrent
    refine ⟨'/' :: rest, output, .current output (.innerCurrent rest), ?_, fun fuel => ?_⟩
    · simp
    · rw [unfolded, if_neg parent, if_neg current, if_pos innerCurrent]
      rfl
  by_cases lastCurrent : input = "/.".toList
  · refine ⟨['/'], output, ?_, ?_, fun fuel => ?_⟩
    · rw [lastCurrent]
      exact .current output .lastCurrent
    · rw [lastCurrent]
      decide
    · rw [unfolded, if_neg parent, if_neg current, if_neg innerCurrent, if_pos lastCurrent]
  by_cases innerParent : "/../".toList.isPrefixOf input = true
  · obtain ⟨rest, rfl⟩ := List.isPrefixOf_iff_prefix.mp innerParent
    refine ⟨'/' :: rest, withoutLast output, .parent output (.innerParent rest), ?_, fun fuel => ?_⟩
    · simp
    · rw [unfolded, if_neg parent, if_neg current, if_neg innerCurrent, if_neg lastCurrent,
        if_pos innerParent, beforeLast_eq]
      rfl
  by_cases lastParent : input = "/..".toList
  · refine ⟨['/'], withoutLast output, ?_, ?_, fun fuel => ?_⟩
    · rw [lastParent]
      exact .parent output .lastParent
    · rw [lastParent]
      decide
    · rw [unfolded, if_neg parent, if_neg current, if_neg innerCurrent, if_neg lastCurrent,
        if_neg innerParent, if_pos lastParent, beforeLast_eq]
  by_cases only : input = ".".toList ∨ input = "..".toList
  · refine ⟨[], output, ?_, List.length_pos_iff.mpr nonempty, fun fuel => ?_⟩
    · rcases only with rfl | rfl
      · exact .current output .onlyCurrent
      · exact .current output .onlyParent
    · rw [unfolded, if_neg parent, if_neg current, if_neg innerCurrent, if_neg lastCurrent,
        if_neg innerParent, if_neg lastParent, if_pos only]
      cases fuel <;> rfl
  have otherwise : ∀ left drops, ¬ DotRule input left drops := by
    intro left drops rule
    cases rule with
    | parent => exact parent rfl
    | current => exact current rfl
    | innerCurrent rest => exact innerCurrent rfl
    | lastCurrent => exact lastCurrent rfl
    | innerParent rest => exact innerParent rfl
    | lastParent => exact lastParent rfl
    | onlyCurrent => exact only (.inl rfl)
    | onlyParent => exact only (.inr rfl)
  obtain ⟨moved, left, first⟩ := FirstSegment.of_ne_nil nonempty
  refine ⟨left, output ++ moved, .segment output otherwise first, ?_, fun fuel => ?_⟩
  · rw [first.shape, List.length_append]
    exact Nat.lt_add_of_pos_left (List.length_pos_iff.mpr first.nonempty)
  · rw [unfolded, if_neg parent, if_neg current, if_neg innerCurrent, if_neg lastCurrent,
      if_neg innerParent, if_neg lastParent, if_neg only]
    dsimp only
    rw [segmentLength first, first.shape, List.drop_left, List.take_left]

/-- The loop ends, and what it answers is what is left when the dot segments are removed. -/
theorem removesDots_cleanPath (path : Text) : RemovesDots path (cleanPath path) := by
  have runs : ∀ (fuel : Nat) (input output : Text), input.length < fuel →
      Relation.ReflTransGen DotStep (input, output) ([], removeDotSegments fuel input output) := by
    intro fuel
    induction fuel with
    | zero =>
      intro input output enough
      cases enough
    | succ fuel induction =>
      intro input output enough
      by_cases empty : input = []
      · rw [empty]
        exact .refl
      · obtain ⟨left, after, step, shorter, goesOn⟩ := removeDotSegments_step empty output
        rw [goesOn]
        exact .head step (induction left after (by omega))
  exact runs _ path [] (Nat.lt_succ_self _)

theorem cleanPath_of_dotFree {path : Text} (free : DotFree path) : cleanPath path = path :=
  (removesDots_cleanPath path).unique (removesDots_self free)

/-! ## Resolution -/

theorem mergePaths_eq (base : IriParts) (path : Text) :
    mergePaths base.authority base.path path = base.reference.merge path := by
  rw [mergePaths, UriReference.merge]
  by_cases authority : base.authority.isSome ∧ base.path = []
  · rw [if_pos authority]
    exact (if_pos authority).symm
  · rw [if_neg authority, beforeLast]
    refine Eq.trans ?_ (if_neg authority).symm
    change _ = (base.path.reverse.dropWhile (· ≠ '/')).reverse ++ path
    rcases splitFirst_cases '/' base.path.reverse with ⟨found, absent⟩ | ⟨before, after, found, absent, shape⟩
    · rw [found, List.dropWhile_eq_nil_iff.mpr]
      · rfl
      · intro char member
        exact decide_eq_true fun same => absent (same ▸ member)
    · have all : ∀ char ∈ before, decide (char ≠ '/') = true := fun char member =>
        decide_eq_true fun same => absent (same ▸ member)
      rw [found, shape, List.dropWhile_append_of_pos all, List.dropWhile_cons_of_neg (by decide),
        List.reverse_cons, List.append_assoc]
      rfl

theorem resolveReference_eq {base reference : Text} (relative : (splitIri reference).scheme = []) :
    resolveReference base reference =
      ((splitIri base).reference.resolve cleanPath (splitIri reference).reference).text := by
  rw [resolveReference]
  generalize splitIri base = base
  generalize splitIri reference = reference at relative
  rw [recompose_eq_text]
  congr 1
  have noScheme : ¬ reference.reference.scheme.isSome = true := by
    rw [IriParts.reference, if_pos relative]
    exact Bool.false_ne_true
  rw [UriReference.resolve, if_neg noScheme]
  by_cases authority : reference.authority.isSome = true
  · rw [if_pos authority, if_pos (show reference.reference.authority.isSome = true from authority)]
    rfl
  rw [if_neg authority, if_neg (show ¬ reference.reference.authority.isSome = true from authority)]
  by_cases empty : reference.path = []
  · have queries : reference.query.or base.query =
        if reference.query.isSome then reference.query else base.query := by
      cases reference.query <;> rfl
    rw [if_pos empty, if_pos (show reference.reference.path = [] from empty), queries]
    rfl
  rw [if_neg empty, if_neg (show ¬ reference.reference.path = [] from empty)]
  by_cases rooted : reference.path.head? = some '/'
  · rw [if_pos rooted, if_pos (show reference.reference.path.head? = some '/' from rooted)]
    rfl
  · rw [if_neg rooted, if_neg (show ¬ reference.reference.path.head? = some '/' from rooted),
      mergePaths_eq]
    rfl

/-- Resolution in Turtle is that of RFC 3986, whatever the base: of the components of the two texts,
with a removal of dot segments that ends for every path, leaves none and does nothing the second
time. -/
theorem resolveReference_rfc3986 (base reference : Text)
    (relative : isAbsoluteIri reference = false) :
    (∃ baseParts referenceParts : UriReference,
      (∀ parts : UriReference, parts.Splits base ↔ parts = baseParts) ∧
      (∀ parts : UriReference, parts.Splits reference ↔ parts = referenceParts) ∧
      resolveReference base reference = (baseParts.resolve cleanPath referenceParts).text) ∧
    ∀ path, (∀ result, RemovesDots path result ↔ result = cleanPath path) ∧
      DotFree (cleanPath path) ∧ cleanPath (cleanPath path) = cleanPath path := by
  have only : ∀ (text : Text) (parts : UriReference),
      parts.Splits text ↔ parts = (splitIri text).reference := by
    intro text parts
    constructor
    · exact fun splits => splits.unique (splitIri_splits text)
    · rintro rfl
      exact splitIri_splits text
  have referenceScheme : (splitIri reference).scheme = [] := by
    by_contra nonempty
    have isAbsolute := (isAbsoluteIri_iff (splitIri_splits reference)).mpr
      (by rw [IriParts.reference, if_neg nonempty]; rfl)
    cases relative.symm.trans isAbsolute
  refine ⟨⟨_, _, only base, only reference, resolveReference_eq referenceScheme⟩, ?_⟩
  intro path
  have removes := removesDots_cleanPath path
  refine ⟨fun result => ⟨fun other => other.unique removes, fun same => same ▸ removes⟩,
    removes.dotFree, cleanPath_of_dotFree removes.dotFree⟩

theorem resolveReference_rfc3986_parent :
    ∃ baseParts referenceParts : UriReference, baseParts.Splits "http://a/b/c/d;p?q".toList ∧
      referenceParts.Splits "../g".toList ∧
      "http://a/b/g".toList = (baseParts.resolve cleanPath referenceParts).text := by
  obtain ⟨⟨baseParts, referenceParts, onlyBase, onlyReference, resolved⟩, -⟩ :=
    resolveReference_rfc3986 "http://a/b/c/d;p?q".toList "../g".toList (by decide)
  refine ⟨baseParts, referenceParts, (onlyBase _).mpr rfl, (onlyReference _).mpr rfl, ?_⟩
  rw [← resolved]
  decide

end GStore.Parser.Turtle
