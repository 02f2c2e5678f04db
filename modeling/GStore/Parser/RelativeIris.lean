import GStore.Parser.IriResolution
import GStore.Parser.Sparql

/-! # Relative references in four readers

`resolve_iri` of the SPARQL parser and of `turtle.rs`, `resolve` of `rdfxml.rs` and `expand_iri` of
`jsonld.rs`: what each makes of a reference under the same base, and when that is the same IRI. -/

namespace GStore.Parser

open Turtle

/-! ## RDF/XML -/

namespace RdfXml

/-- A scheme that starts with a letter stands before the first colon. -/
def isAbsolute (text : Text) : Bool :=
  match splitFirst ':' text with
  | some (scheme, _) =>
    scheme ≠ [] && scheme.head?.any Char.isAlpha &&
      scheme.all fun char => char.isAlphanum || char == '+' || char == '-' || char == '.'
  | none => false

/-- Resolve a reference against the base in force. -/
def resolve (base reference : Text) : Text :=
  if reference = [] then base
  else if isAbsolute reference then reference
  else if base = [] then reference
  else if reference.head? = some '#' then base.takeWhile (· ≠ '#') ++ '#' :: reference.tail
  else
    match beforeLast '/' base with
    | some before => before ++ '/' :: reference
    | none => reference

end RdfXml

/-! ## JSON-LD -/

namespace JsonLd

/-- The active context, as far as an IRI is expanded by it. -/
structure Context where
  base : Option Text
  vocab : Option Text
  /-- What each term or prefix expands to, if its definition says so. -/
  terms : List (Text × Option Text)

/-- A copy of `rdfxml.rs`'s, as is the next. -/
def isAbsoluteIri (text : Text) : Bool := RdfXml.isAbsolute text

def resolveAgainstBase (base reference : Text) : Text := RdfXml.resolve base reference

/-- Expand a value: by terms and the vocabulary, against the base, or both. -/
def expandIri (context : Context) (value : Text) (vocab document : Bool) : Text :=
  if value = [] then if document then context.base.getD value else value
  else if value.head? = some '@' ∨ "_:".toList.isPrefixOf value then value
  else
    match if vocab then (context.terms.lookup value).join else none with
    | some id => id
    | none =>
      match splitFirst ':' value with
      | some (head, tail) =>
        if "//".toList.isPrefixOf tail ∨ head = ['_'] then value
        else
          match (context.terms.lookup head).join with
          | some id => id ++ tail
          | none => value
      | none =>
        match if vocab then context.vocab else none with
        | some namespace_ => namespace_ ++ value
        | none =>
          match if document then context.base else none with
          | some base => resolveAgainstBase base value
          | none => value

end JsonLd

/-! ## Each reader -/

variable {base reference : Text}

theorem isAbsolute_eq (text : Text) : RdfXml.isAbsolute text = Turtle.isAbsoluteIri text := by
  rw [RdfXml.isAbsolute, Turtle.isAbsoluteIri]
  rcases splitFirst_cases ':' text with ⟨found, -⟩ | ⟨scheme, after, found, -, -⟩
  · rw [found]
  · rw [found]
    cases scheme with
    | nil => rfl
    | cons first rest =>
      cases letter : first.isAlpha with
      | false => simp [isValidScheme, letter]
      | true => simp [isValidScheme, letter, Char.isAlphanum]

theorem sparql_of_absolute (absolute : Turtle.isAbsoluteIri reference = true) :
    Sparql.isAbsoluteIri reference = true := by
  rw [Turtle.isAbsoluteIri] at absolute
  rw [Sparql.isAbsoluteIri]
  rcases splitFirst_cases ':' reference with ⟨found, -⟩ | ⟨scheme, after, found, -, -⟩
  · rw [found] at absolute
    cases absolute
  · rw [found] at absolute ⊢
    cases scheme with
    | nil => cases absolute
    | cons first rest =>
      obtain ⟨letter, others⟩ := Bool.and_eq_true_iff.mp absolute
      have all : ((first :: rest).all fun char =>
          char.isAlphanum || char == '+' || char == '-' || char == '.') = true := by
        rw [List.all_cons, others, Char.isAlphanum, letter]
        rfl
      exact Bool.and_eq_true_iff.mpr ⟨rfl, all⟩

theorem colon_of_absolute (absolute : Turtle.isAbsoluteIri reference = true) : ':' ∈ reference := by
  by_contra absent
  rw [Turtle.isAbsoluteIri, splitFirst, if_neg absent] at absolute
  cases absolute

theorem resolve_absolute (nonempty : reference ≠ [])
    (absolute : Turtle.isAbsoluteIri reference = true) :
    RdfXml.resolve base reference = reference := by
  rw [RdfXml.resolve, if_neg nonempty, isAbsolute_eq, if_pos absolute]

theorem resolve_fragment (relative : Turtle.isAbsoluteIri reference = false) (based : base ≠ [])
    (hash : reference.head? = some '#') :
    RdfXml.resolve base reference = base.takeWhile (· ≠ '#') ++ reference := by
  have nonempty : reference ≠ [] := by
    intro empty
    rw [empty] at hash
    cases hash
  rw [RdfXml.resolve, if_neg nonempty, isAbsolute_eq, relative, if_neg Bool.false_ne_true,
    if_neg based, if_pos hash, List.cons_head?_tail hash]

/-- A path is appended to a base that ends in a slash, and to no other. -/
theorem resolve_eq_append_iff (relative : Turtle.isAbsoluteIri reference = false)
    (nonempty : reference ≠ []) (based : base ≠ []) (hash : reference.head? ≠ some '#') :
    RdfXml.resolve base reference = base ++ reference ↔ base.getLast? = some '/' := by
  rw [RdfXml.resolve, if_neg nonempty, isAbsolute_eq, relative, if_neg Bool.false_ne_true,
    if_neg based, if_neg hash, beforeLast]
  rcases splitFirst_cases '/' base.reverse with ⟨found, absent⟩ | ⟨last, before, found, absent, shape⟩
  · rw [found]
    constructor
    · intro same
      exact absurd (List.self_eq_append_left.mp same) based
    · intro slash
      rw [List.getLast?_eq_head?_reverse] at slash
      exact absurd (List.mem_of_mem_head? slash) absent
  · have written : base = before.reverse ++ '/' :: last.reverse := by
      rw [← List.reverse_reverse base, shape]
      simp
    rw [found, List.getLast?_eq_head?_reverse, shape]
    change before.reverse ++ '/' :: reference = base ++ reference ↔ _
    rw [written, List.append_assoc, List.append_cancel_left_eq, List.cons_append]
    constructor
    · intro same
      have empty := List.self_eq_append_left.mp (List.cons.inj same).2
      rw [List.reverse_eq_nil_iff.mp empty]
      rfl
    · intro slash
      cases last with
      | nil => rfl
      | cons char rest =>
        have same : char = '/' := Option.some.inj slash
        exact absurd (same ▸ List.mem_cons_self) absent

/-- Without a colon a reference is resolved against the base, unless it looks like a keyword. -/
theorem expandIri_document {context : JsonLd.Context} (based : context.base = some base)
    (nonempty : reference ≠ []) (colon : ':' ∉ reference) :
    JsonLd.expandIri context reference false true =
      if reference.head? = some '@' then reference else RdfXml.resolve base reference := by
  have blank : ¬ "_:".toList.isPrefixOf reference = true := by
    intro starts
    obtain ⟨rest, rfl⟩ := List.isPrefixOf_iff_prefix.mp starts
    exact colon (List.mem_append_left _ (by decide))
  rw [JsonLd.expandIri, if_neg nonempty]
  by_cases keyword : reference.head? = some '@'
  · rw [if_pos (.inl keyword), if_pos keyword]
  · rw [if_neg (not_or.mpr ⟨keyword, blank⟩), if_neg keyword, splitFirst, if_neg colon, based]
    rfl

/-! ## The components of a relative reference -/

theorem splits_fragment (fragment : Text) :
    (UriReference.mk none none [] none (some fragment)).Splits ('#' :: fragment) where
  text_eq := rfl
  wellFormed := by
    refine ⟨?_, ?_, ⟨?_, ?_⟩, ?_, fun _ => .inl rfl, ?_, ?_⟩
    · intro scheme impossible
      cases impossible
    · intro authority impossible
      cases impossible
    · exact List.not_mem_nil
    · exact List.not_mem_nil
    · intro query impossible
      cases impossible
    · intro _ rest impossible
      cases impossible
    · intro _ _ scheme rest _ impossible
      exact List.cons_ne_nil _ _ (List.append_eq_nil_iff.mp impossible.symm).2

theorem scheme_of_relative {parts : UriReference} (splits : parts.Splits reference)
    (relative : Turtle.isAbsoluteIri reference = false) : parts.scheme = none := by
  apply Option.not_isSome_iff_eq_none.mp
  intro someScheme
  cases relative.symm.trans ((isAbsoluteIri_iff splits).mpr someScheme)

theorem resolveReference_splits {baseParts parts : UriReference} (baseSplits : baseParts.Splits base)
    (splits : parts.Splits reference) (relative : Turtle.isAbsoluteIri reference = false) :
    resolveReference base reference = (baseParts.resolve cleanPath parts).text := by
  have scheme := scheme_of_relative (splitIri_splits reference) relative
  have bare : (splitIri reference).scheme = [] := by
    by_contra nonempty
    rw [IriParts.reference, if_neg nonempty] at scheme
    cases scheme
  rw [resolveReference_eq bare, baseSplits.unique (splitIri_splits base),
    splits.unique (splitIri_splits reference)]

theorem takeWhile_hash {parts : UriReference} (splits : parts.Splits base) :
    base.takeWhile (· ≠ '#') = parts.front ++ parts.path ++ marked '?' parts.query := by
  obtain ⟨formed, rfl⟩ := splits
  have absent := formed.hash_not_mem
  rw [UriReference.text]
  generalize parts.front ++ parts.path ++ marked '?' parts.query = stem at absent
  have passes : ∀ char ∈ stem, decide (char ≠ '#') = true := by
    intro char member
    exact decide_eq_true fun same => absent (same ▸ member)
  rw [List.takeWhile_append_of_pos passes]
  cases parts.fragment with
  | none => exact List.append_nil stem
  | some fragment => exact List.append_nil stem

/-- Turtle, too, replaces the fragment of the base by another. -/
theorem resolveReference_fragment (relative : Turtle.isAbsoluteIri reference = false)
    (hash : reference.head? = some '#') :
    resolveReference base reference = base.takeWhile (· ≠ '#') ++ reference := by
  cases reference with
  | nil => cases hash
  | cons char fragment =>
    obtain rfl := Option.some.inj hash
    have splits := splitIri_splits base
    rw [resolveReference_splits splits (splits_fragment fragment) relative, takeWhile_hash splits]
    rfl

/-- What a reference has in front of a fragment. -/
theorem moves_of_not_fragment {parts : UriReference} (splits : parts.Splits reference)
    (relative : Turtle.isAbsoluteIri reference = false) (nonempty : reference ≠ [])
    (hash : reference.head? ≠ some '#') :
    parts.authority.isSome ∨ parts.path ≠ [] ∨ parts.query.isSome := by
  by_contra still
  obtain ⟨network, path, query⟩ := not_or.mp still |>.imp_right not_or.mp
  have written := splits.text_eq
  rw [UriReference.text_eq, UriReference.front_of_relative (scheme_of_relative splits relative)
    (Option.not_isSome_iff_eq_none.mp network), not_not.mp path, UriReference.suffix,
    Option.not_isSome_iff_eq_none.mp query] at written
  cases fragment : parts.fragment with
  | none =>
    rw [fragment] at written
    exact nonempty written.symm
  | some text =>
    rw [fragment] at written
    rw [← written] at hash
    exact hash rfl

/-! ## Agreement -/

/-- When the four readers make the same of a reference. -/
def ResolvesAlike (base reference : Text) : Prop :=
  Turtle.isAbsoluteIri reference = true ∨
    Sparql.isAbsoluteIri reference = false ∧ (reference.head? = some '@' → ':' ∈ reference) ∧
      if reference.head? = some '#' then '#' ∉ base
      else base.getLast? = some '/' ∧ ∃ baseParts referenceParts : UriReference,
        baseParts.Splits base ∧ referenceParts.Splits reference ∧ baseParts.Appends referenceParts

theorem resolveReference_eq_append_iff (absolute : Turtle.isAbsoluteIri base = true)
    (relative : Turtle.isAbsoluteIri reference = false) (nonempty : reference ≠ [])
    (hash : reference.head? ≠ some '#') (slash : base.getLast? = some '/') :
    resolveReference base reference = base ++ reference ↔
      ∃ baseParts referenceParts : UriReference, baseParts.Splits base ∧
        referenceParts.Splits reference ∧ baseParts.Appends referenceParts := by
  have baseSplits := splitIri_splits base
  have splits := splitIri_splits reference
  have directory : (splitIri base).reference.text.getLast? = some '/' := by
    rw [baseSplits.text_eq]
    exact slash
  have whole := UriReference.text_resolve_eq_append_iff removesDots_cleanPath
    ((isAbsoluteIri_iff baseSplits).mp absolute) (scheme_of_relative splits relative) directory
    (moves_of_not_fragment splits relative nonempty hash)
  rw [baseSplits.text_eq, splits.text_eq] at whole
  rw [resolveReference_splits baseSplits splits relative, whole]
  constructor
  · exact fun appends => ⟨_, _, baseSplits, splits, appends⟩
  · rintro ⟨baseParts, parts, otherBase, other, appends⟩
    rwa [otherBase.unique baseSplits, other.unique splits] at appends

/-- What Turtle resolves is absolute. -/
theorem isAbsoluteIri_resolveReference (absolute : Turtle.isAbsoluteIri base = true)
    (relative : Turtle.isAbsoluteIri reference = false) :
    Turtle.isAbsoluteIri (resolveReference base reference) = true := by
  have baseSplits := splitIri_splits base
  have splits := splitIri_splits reference
  obtain ⟨scheme, named⟩ := Option.isSome_iff_exists.mp ((isAbsoluteIri_iff baseSplits).mp absolute)
  have isScheme := baseSplits.wellFormed.scheme scheme named
  have kept := @UriReference.scheme_resolve (splitIri base).reference (splitIri reference).reference
    cleanPath (scheme_of_relative splits relative)
  rw [named] at kept
  rw [resolveReference_splits baseSplits splits relative, UriReference.text_eq, UriReference.front,
    kept, Option.map_some, Option.getD_some, List.append_assoc, List.append_assoc,
    List.singleton_append, Turtle.isAbsoluteIri,
    splitFirst_append (isScheme.ne_mark (by decide))]
  exact isValidScheme_iff.mpr isScheme

theorem fragment_agrees_iff {context : JsonLd.Context} (jsonBase : context.base = some base)
    (based : base ≠ []) (relative : Turtle.isAbsoluteIri reference = false)
    (hash : reference.head? = some '#') :
    (base ++ reference = resolveReference base reference ∧
      RdfXml.resolve base reference = resolveReference base reference ∧
      (':' ∉ reference →
        JsonLd.expandIri context reference false true = resolveReference base reference)) ↔
      '#' ∉ base := by
  have nonempty : reference ≠ [] := by
    intro empty
    rw [empty] at hash
    cases hash
  have keyword : reference.head? ≠ some '@' := by
    rw [hash]
    decide
  have resolved := resolve_fragment relative based hash
  rw [resolveReference_fragment relative hash, List.append_cancel_right_eq]
  have stem : base = base.takeWhile (· ≠ '#') ↔ '#' ∉ base := by
    rw [eq_comm, List.takeWhile_eq_self_iff]
    constructor
    · intro passes member
      exact absurd (passes '#' member) (by decide)
    · intro absent char member
      exact decide_eq_true fun same => absent (same ▸ member)
  rw [← stem]
  refine ⟨And.left, fun same => ⟨same, resolved, fun colon => ?_⟩⟩
  rw [expandIri_document jsonBase nonempty colon, if_neg keyword]
  exact resolved

theorem path_agrees_iff {context : JsonLd.Context} (jsonBase : context.base = some base)
    (absolute : Turtle.isAbsoluteIri base = true) (based : base ≠ [])
    (relative : Turtle.isAbsoluteIri reference = false) (nonempty : reference ≠ [])
    (hash : reference.head? ≠ some '#') :
    (base ++ reference = resolveReference base reference ∧
      RdfXml.resolve base reference = resolveReference base reference ∧
      (':' ∉ reference →
        JsonLd.expandIri context reference false true = resolveReference base reference)) ↔
      (reference.head? = some '@' → ':' ∈ reference) ∧ base.getLast? = some '/' ∧
        ∃ baseParts referenceParts : UriReference, baseParts.Splits base ∧
          referenceParts.Splits reference ∧ baseParts.Appends referenceParts := by
  have directory := resolve_eq_append_iff relative nonempty based hash
  constructor
  · rintro ⟨sparql, rdfxml, json⟩
    have slash := directory.mp (rdfxml.trans sparql.symm)
    refine ⟨fun keyword => ?_, slash,
      (resolveReference_eq_append_iff absolute relative nonempty hash slash).mp sparql.symm⟩
    by_contra colon
    have same := json colon
    rw [expandIri_document jsonBase nonempty colon, if_pos keyword, ← sparql] at same
    exact based (List.self_eq_append_left.mp same)
  · rintro ⟨keyword, slash, appends⟩
    have turtle :=
      (resolveReference_eq_append_iff absolute relative nonempty hash slash).mpr appends
    have rdfxml := directory.mpr slash
    rw [turtle, rdfxml]
    refine ⟨rfl, rfl, fun colon => ?_⟩
    rw [expandIri_document jsonBase nonempty colon, if_neg fun looks => colon (keyword looks)]
    exact rdfxml

/-- Under an absolute base the four readers expand a reference to the same IRI exactly when they
resolve it alike; JSON-LD is asked about references without a colon. -/
theorem readers_agree_iff (c : Sparql.Cursor) (s : Turtle.State) (context : JsonLd.Context)
    (sparqlBase : c.base = some base) (turtleBase : s.base = some base)
    (jsonBase : context.base = some base) (absolute : Turtle.isAbsoluteIri base = true)
    (nonempty : reference ≠ []) :
    (c.resolveIri reference = s.resolveIri reference ∧
      RdfXml.resolve base reference = s.resolveIri reference ∧
      (':' ∉ reference → JsonLd.expandIri context reference false true = s.resolveIri reference)) ↔
      ResolvesAlike base reference := by
  have based : base ≠ [] := by
    intro empty
    rw [empty] at absolute
    cases absolute
  cases relative : Turtle.isAbsoluteIri reference with
  | true =>
    refine iff_of_true ⟨?_, ?_, ?_⟩ (.inl relative)
    · rw [Sparql.Cursor.resolveIri, sparqlBase, Turtle.State.resolveIri, turtleBase]
      dsimp only
      rw [if_pos (sparql_of_absolute relative), if_pos relative]
    · rw [resolve_absolute nonempty relative, Turtle.State.resolveIri, turtleBase]
      exact (if_pos relative).symm
    · exact fun colon => absurd (colon_of_absolute relative) colon
  | false =>
    have turtle : s.resolveIri reference = resolveReference base reference := by
      rw [Turtle.State.resolveIri, turtleBase]
      exact if_neg (by rw [relative]; exact Bool.false_ne_true)
    have moved : resolveReference base reference ≠ reference := by
      intro same
      have resolved := isAbsoluteIri_resolveReference absolute relative
      rw [same, relative] at resolved
      cases resolved
    rw [turtle, ResolvesAlike, relative]
    cases sparql : Sparql.isAbsoluteIri reference with
    | true =>
      have taken : c.resolveIri reference = reference := by
        rw [Sparql.Cursor.resolveIri, sparqlBase]
        exact if_pos sparql
      rw [taken]
      constructor
      · exact fun agree => absurd agree.1.symm moved
      · rintro (impossible | ⟨impossible, -⟩) <;> cases impossible
    | false =>
      have appended : c.resolveIri reference = base ++ reference := by
        rw [Sparql.Cursor.resolveIri, sparqlBase]
        exact if_neg (by rw [sparql]; exact Bool.false_ne_true)
      rw [appended]
      by_cases hash : reference.head? = some '#'
      · have keyword : reference.head? ≠ some '@' := by
          rw [hash]
          decide
        rw [fragment_agrees_iff jsonBase based relative hash, if_pos hash]
        exact ⟨fun absent => .inr ⟨rfl, fun looks => absurd looks keyword, absent⟩,
          fun alike => (alike.resolve_left Bool.false_ne_true).2.2⟩
      · rw [path_agrees_iff jsonBase absolute based relative nonempty hash, if_neg hash]
        exact ⟨fun alike => .inr ⟨rfl, alike⟩,
          fun alike => (alike.resolve_left Bool.false_ne_true).2⟩

/-- A document's context with a base and nothing else. -/
def JsonLd.Context.ofBase (base : Text) : JsonLd.Context where
  base := some base
  vocab := none
  terms := []

def Sparql.Cursor.ofBase (base : Text) : Sparql.Cursor where
  tokens := []
  prefixes := []
  base := some base

def Turtle.State.ofBase (base : Text) : Turtle.State := { State.new [] [] with base := some base }

theorem readers_agree_iff_directory : ResolvesAlike "http://ex.com/a/".toList "file".toList :=
  (readers_agree_iff (.ofBase "http://ex.com/a/".toList) (.ofBase "http://ex.com/a/".toList)
    (.ofBase "http://ex.com/a/".toList) rfl rfl rfl (by decide) (by decide)).mp
    ⟨by decide, by decide, fun _ => by decide⟩

/-- Under `http://ex.com/path` SPARQL alone makes `http://ex.com/pathfile` of `file`. -/
theorem not_readers_agree :
    ¬ ∀ (c : Sparql.Cursor) (s : Turtle.State) (context : JsonLd.Context) (base reference : Text),
      c.base = some base → s.base = some base → context.base = some base →
      Turtle.isAbsoluteIri base = true → reference ≠ [] →
      c.resolveIri reference = s.resolveIri reference ∧
        RdfXml.resolve base reference = s.resolveIri reference ∧
        (':' ∉ reference →
          JsonLd.expandIri context reference false true = s.resolveIri reference) := by
  intro agree
  have same := (agree (.ofBase "http://ex.com/path".toList) (.ofBase "http://ex.com/path".toList)
    (.ofBase "http://ex.com/path".toList) "http://ex.com/path".toList "file".toList rfl rfl rfl
    (by decide) (by decide)).1
  revert same
  decide

end GStore.Parser
