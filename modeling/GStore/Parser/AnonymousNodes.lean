import GStore.Parser.Turtle

/-! # Anonymous nodes in Turtle

`parser/turtle.rs`, `fresh_blank`: the blank nodes that a document does not label. Every blank node
that a document puts down has a label from the document, or one that the counter has passed. -/

namespace GStore.Parser.Turtle

open Reason

variable {unicode : Alphanumeric} {s middle after : State} {term : Term}

/-- A label that a document may write. -/
def Explicit (unicode : Alphanumeric) (label : Text) : Prop :=
  ∀ char ∈ label, isLabelChar unicode char = true

/-- A blank node that was minted on the way to a state. -/
def State.Minted (s : State) (term : Term) : Prop :=
  ∃ number < s.bnode, term = ({ s with bnode := number }).freshBlank.1

/-- A blank node comes from the document, or was minted. -/
def State.Known (unicode : Alphanumeric) (s : State) (term : Term) : Prop :=
  ∀ label, term = .blank label → Explicit unicode label ∨ s.Minted term

/-! ## Labels -/

theorem not_explicit_fresh : ∀ label, s.freshBlank.1 = .blank label → ¬ Explicit unicode label := by
  rintro label same explicit
  obtain rfl := Term.blank.inj same
  have tilde := explicit '~' (List.mem_append_right _ List.mem_cons_self)
  rw [isLabelChar, unicode.ascii '~' (by decide)] at tilde
  exact absurd tilde (by decide)

/-! ## What a call may do -/

/-- The counter does not go back, and only known nodes are put down. -/
structure Grows (unicode : Alphanumeric) (s after : State) : Prop where
  scope : after.bnodeScope = s.bnodeScope
  count : s.bnode ≤ after.bnode
  triples : ∀ triple ∈ after.triples, triple ∈ s.triples ∨ after.Known unicode triple.subject ∧
    after.Known unicode triple.predicate ∧ after.Known unicode triple.object

theorem State.Minted.mono (scope : after.bnodeScope = s.bnodeScope) (count : s.bnode ≤ after.bnode)
    (minted : s.Minted term) : after.Minted term := by
  obtain ⟨number, below, rfl⟩ := minted
  refine ⟨number, below.trans_le count, ?_⟩
  rw [State.freshBlank, State.freshBlank, scope]

theorem State.Known.mono (known : s.Known unicode term) (grows : Grows unicode s after) :
    after.Known unicode term := fun label same =>
  (known label same).imp_right (State.Minted.mono grows.scope grows.count)

theorem Grows.refl (s : State) : Grows unicode s s := ⟨rfl, Nat.le_refl _, fun _ => .inl⟩

theorem Grows.trans (first : Grows unicode s middle) (second : Grows unicode middle after) :
    Grows unicode s after where
  scope := second.scope.trans first.scope
  count := first.count.trans second.count
  triples := by
    intro triple member
    rcases second.triples triple member with between | known
    · rcases first.triples triple between with before | ⟨subject, predicate, object⟩
      · exact .inl before
      · exact .inr ⟨subject.mono second, predicate.mono second, object.mono second⟩
    · exact .inr known

/-- What moves the text alone. -/
structure Reads (s after : State) : Prop where
  scope : after.bnodeScope = s.bnodeScope
  count : after.bnode = s.bnode
  triples : after.triples = s.triples

theorem Reads.grows (reads : Reads s after) : Grows unicode s after :=
  ⟨reads.scope, reads.count.ge, fun _ member => .inl (reads.triples ▸ member)⟩

theorem Reads.trans (first : Reads s middle) (second : Reads middle after) : Reads s after :=
  ⟨second.scope.trans first.scope, second.count.trans first.count,
    second.triples.trans first.triples⟩

theorem grows_push {subject predicate object : Term} (knownSubject : s.Known unicode subject)
    (knownPredicate : s.Known unicode predicate) (knownObject : s.Known unicode object) :
    Grows unicode s (s.push subject predicate object) := by
  refine ⟨rfl, Nat.le_refl _, fun triple member => ?_⟩
  rcases List.mem_append.mp member with before | here
  · exact .inl before
  · rw [List.mem_singleton.mp here]
    exact .inr ⟨knownSubject, knownPredicate, knownObject⟩

theorem grows_freshBlank (s : State) : Grows unicode s s.freshBlank.2 ∧
    s.freshBlank.2.Known unicode s.freshBlank.1 :=
  ⟨⟨rfl, Nat.le_succ _, fun _ => .inl⟩, fun _ _ => .inr ⟨s.bnode, Nat.lt_succ_self _, rfl⟩⟩

theorem known_iri (iri : Text) : s.Known unicode (.iri iri) := by
  intro label same
  cases same

theorem known_literal (value : Text) (datatype lang : Option Text) :
    s.Known unicode (.literal value datatype lang) := by
  intro label same
  cases same

/-! ## The readers of a term -/

theorem reads_expect {char : Char} (ran : s.expect char = .ok after) : Reads s after := by
  rw [State.expect] at ran
  split at ran
  · cases ran
    exact ⟨rfl, rfl, rfl⟩
  · cases ran

theorem reads_parseIriref {iri : Text} (ran : parseIriref s = .ok (iri, after)) : Reads s after := by
  simp only [parseIriref, bind_eq_ok, Prod.exists] at ran
  obtain ⟨opened, expected, text, rest, -, result⟩ := ran
  cases result
  obtain ⟨scope, count, triples⟩ := reads_expect expected
  exact ⟨scope, count, triples⟩

theorem explicit_nil : Explicit unicode [] := by
  intro char member
  cases member

theorem explicit_scanLabel (text : Text) : Explicit unicode (scanLabel unicode text).1 := by
  induction text with
  | nil => exact explicit_nil
  | cons char rest induction =>
    rw [scanLabel]
    split
    · rename_i labelled
      intro other member
      rcases List.mem_cons.mp member with rfl | later
      · exact labelled.1
      · exact induction other later
    · exact explicit_nil

theorem reads_parseBlank (ran : parseBlank unicode s = .ok (term, after)) :
    Reads s after ∧ after.Known unicode term := by
  simp only [parseBlank, bind_eq_ok] at ran
  obtain ⟨first, underscore, second, colon, ran⟩ := ran
  split at ran
  · cases ran
  · cases ran
    obtain ⟨scope, count, triples⟩ := (reads_expect underscore).trans (reads_expect colon)
    refine ⟨⟨scope, count, triples⟩, ?_⟩
    rintro label same
    obtain rfl := Term.blank.inj same
    exact .inl (explicit_scanLabel second.rest)

theorem reads_parsePrefixedOrKeyword {verbPos : Bool}
    (ran : parsePrefixedOrKeyword unicode verbPos s = .ok (term, after)) :
    Reads s after ∧ after.Known unicode term := by
  rw [parsePrefixedOrKeyword] at ran
  dsimp only at ran
  split at ran
  · split at ran
    · cases ran
      exact ⟨⟨rfl, rfl, rfl⟩, known_iri _⟩
    · cases ran
  · split at ran
    · cases ran
      exact ⟨⟨rfl, rfl, rfl⟩, known_literal _ _ _⟩
    · cases ran

theorem reads_parseNumeric (ran : parseNumeric s = .ok (term, after)) :
    Reads s after ∧ after.Known unicode term := by
  rw [parseNumeric] at ran
  dsimp only at ran
  split at ran
  all_goals
    split at ran
    · cases ran
    · cases ran
      exact ⟨⟨rfl, rfl, rfl⟩, known_literal _ _ _⟩

theorem grows_chain (items : List Term) :
    ∀ (s : State) (current : Term), s.Known unicode current →
      (∀ item ∈ items, s.Known unicode item) → Grows unicode s (chain s current items) := by
  induction items with
  | nil => exact fun s current _ _ => .refl s
  | cons item items induction =>
    intro s current known each
    have first := grows_push known (known_iri (rdf "first")) (each item List.mem_cons_self)
    cases items with
    | nil =>
      have last := grows_push (known.mono first) (known_iri (rdf "rest"))
        (known_iri (rdf "nil"))
      exact first.trans last
    | cons next items =>
      rw [chain]
      · obtain ⟨fresh, knownFresh⟩ := @grows_freshBlank unicode
          (s.push current (.iri (rdf "first")) item)
        have minted := first.trans fresh
        have linked := grows_push (known.mono minted) (known_iri (rdf "rest")) knownFresh
        have whole := minted.trans linked
        exact whole.trans (induction _ _ (knownFresh.mono linked) fun other member =>
          (each other (List.mem_cons_of_mem _ member)).mono whole)
      · simp

/-! ## The recursion -/

/-- What the calls at one depth of the recursion may do. -/
structure GrowsAt (unicode : Alphanumeric) (fuel : Nat) : Prop where
  term : ∀ {verbPos s term after}, parseTerm unicode fuel verbPos s = .ok (term, after) →
    Grows unicode s after ∧ after.Known unicode term
  literal : ∀ {s term after}, parseLiteral unicode fuel s = .ok (term, after) →
    Grows unicode s after ∧ after.Known unicode term
  propertyList : ∀ {s term after}, parseBlankNodePropertyList unicode fuel s = .ok (term, after) →
    Grows unicode s after ∧ after.Known unicode term
  collection : ∀ {s term after}, parseCollection unicode fuel s = .ok (term, after) →
    Grows unicode s after ∧ after.Known unicode term
  items : ∀ {s items after}, parseItems unicode fuel s = .ok (items, after) →
    Grows unicode s after ∧ ∀ item ∈ items, after.Known unicode item
  verb : ∀ {s term after}, parseVerb unicode fuel s = .ok (term, after) →
    Grows unicode s after ∧ after.Known unicode term
  objects : ∀ {subject predicate s after}, s.Known unicode subject → s.Known unicode predicate →
    parseObjects unicode fuel subject predicate s = .ok after → Grows unicode s after
  predicates : ∀ {subject s after}, s.Known unicode subject →
    parsePredicateObjectList unicode fuel subject s = .ok after → Grows unicode s after

theorem GrowsAt.nextTerm {fuel : Nat} (grows : GrowsAt unicode fuel) {verbPos : Bool}
    (ran : parseTerm unicode (fuel + 1) verbPos s = .ok (term, after)) :
    Grows unicode s after ∧ after.Known unicode term := by
  rw [parseTerm] at ran
  dsimp only at ran
  split at ran
  · cases ran
  · obtain ⟨⟨inner, middle⟩, read, result⟩ := map_eq_ok.mp ran
    have inside : Grows unicode s.enter middle ∧ middle.Known unicode inner := by
      split at read
      · cases read
      · split at read
        · obtain ⟨⟨iri, last⟩, found, same⟩ := map_eq_ok.mp read
          cases same
          exact ⟨(reads_parseIriref found).grows, known_iri iri⟩
        split at read
        · exact grows.literal read
        split at read
        · exact grows.propertyList read
        split at read
        · exact grows.collection read
        split at read
        · obtain ⟨reads, known⟩ := reads_parseBlank read
          exact ⟨reads.grows, known⟩
        split at read
        · have whole : Reads s.enter middle ∧ middle.Known unicode inner := reads_parseNumeric read
          exact ⟨whole.1.grows, whole.2⟩
        · obtain ⟨reads, known⟩ := reads_parsePrefixedOrKeyword read
          exact ⟨reads.grows, known⟩
    cases result
    exact ⟨⟨inside.1.scope, inside.1.count, inside.1.triples⟩, inside.2⟩

theorem GrowsAt.nextPropertyList {fuel : Nat} (grows : GrowsAt unicode fuel)
    (ran : parseBlankNodePropertyList unicode (fuel + 1) s = .ok (term, after)) :
    Grows unicode s after ∧ after.Known unicode term := by
  rw [parseBlankNodePropertyList] at ran
  obtain ⟨opened, expected, ran⟩ := bind_eq_ok.mp ran
  obtain ⟨fresh, known⟩ := @grows_freshBlank unicode opened
  have start : Grows unicode s opened.freshBlank.2 := (reads_expect expected).grows.trans fresh
  dsimp only at ran
  split at ran
  · cases ran
    exact ⟨⟨start.scope, start.count, start.triples⟩, known⟩
  · obtain ⟨listed, list, ran⟩ := bind_eq_ok.mp ran
    obtain ⟨closed, closing, result⟩ := bind_eq_ok.mp ran
    cases result
    have inside : Grows unicode opened.freshBlank.2.skip listed := grows.predicates known list
    have listedSkip : Reads listed listed.skip := ⟨rfl, rfl, rfl⟩
    have listing := inside.trans (listedSkip.trans (reads_expect closing)).grows
    have further : Grows unicode opened.freshBlank.2 after :=
      ⟨listing.scope, listing.count, listing.triples⟩
    exact ⟨start.trans further, known.mono further⟩

theorem GrowsAt.nextCollection {fuel : Nat} (grows : GrowsAt unicode fuel)
    (ran : parseCollection unicode (fuel + 1) s = .ok (term, after)) :
    Grows unicode s after ∧ after.Known unicode term := by
  rw [parseCollection] at ran
  obtain ⟨opened, expected, ran⟩ := bind_eq_ok.mp ran
  obtain ⟨⟨items, listed⟩, list, ran⟩ := bind_eq_ok.mp ran
  obtain ⟨inside, each⟩ := grows.items list
  have start : Grows unicode s listed := (reads_expect expected).grows.trans inside
  dsimp only at ran
  split at ran
  · cases ran
    exact ⟨start, known_iri _⟩
  · cases ran
    obtain ⟨fresh, known⟩ := @grows_freshBlank unicode listed
    have chained := grows_chain items listed.freshBlank.2 _ known fun item member =>
      (each item member).mono fresh
    exact ⟨(start.trans fresh).trans chained, known.mono chained⟩

theorem GrowsAt.succ {fuel : Nat} (grows : GrowsAt unicode fuel) : GrowsAt unicode (fuel + 1) where
  term := grows.nextTerm
  propertyList := grows.nextPropertyList
  collection := grows.nextCollection
  literal := by
    intro s term after ran
    simp only [parseLiteral, bind_eq_ok, Prod.exists] at ran
    obtain ⟨value, rest, -, ran⟩ := ran
    split at ran
    · cases ran
      exact ⟨⟨rfl, Nat.le_refl _, fun _ => .inl⟩, known_literal _ _ _⟩
    · obtain ⟨⟨datatype, last⟩, read, ran⟩ := bind_eq_ok.mp ran
      have inside := (grows.term read).1
      dsimp only at ran
      split at ran
      · cases ran
        exact ⟨⟨inside.scope, inside.count, inside.triples⟩, known_literal _ _ _⟩
      · cases ran
    · cases ran
      exact ⟨⟨rfl, Nat.le_refl _, fun _ => .inl⟩, known_literal _ _ _⟩
  items := by
    intro s items after ran
    rw [parseItems] at ran
    dsimp only at ran
    split at ran
    · cases ran
      refine ⟨⟨rfl, Nat.le_refl _, fun _ => .inl⟩, fun item member => ?_⟩
      cases member
    · cases ran
    · obtain ⟨⟨item, first⟩, read, ran⟩ := bind_eq_ok.mp ran
      obtain ⟨⟨items, last⟩, list, result⟩ := bind_eq_ok.mp ran
      cases result
      obtain ⟨one, known⟩ := grows.term read
      obtain ⟨others, each⟩ := grows.items list
      have start : Grows unicode s first := ⟨one.scope, one.count, one.triples⟩
      refine ⟨start.trans others, fun other member => ?_⟩
      rcases List.mem_cons.mp member with rfl | later
      · exact known.mono others
      · exact each other later
  verb := by
    intro s term after ran
    rw [parseVerb] at ran
    split at ran
    · cases ran
      exact ⟨⟨rfl, Nat.le_refl _, fun _ => .inl⟩, known_iri _⟩
    · obtain ⟨inside, known⟩ := grows.term ran
      exact ⟨⟨inside.scope, inside.count, inside.triples⟩, known⟩
  objects := by
    intro subject predicate s after knownSubject knownPredicate ran
    rw [parseObjects] at ran
    obtain ⟨⟨object, read⟩, term, ran⟩ := bind_eq_ok.mp ran
    obtain ⟨inside, knownObject⟩ := grows.term term
    have pushed : Grows unicode s (read.push subject predicate object) := inside.trans
      (grows_push (knownSubject.mono inside) (knownPredicate.mono inside) knownObject)
    dsimp only at ran
    split at ran
    · have comma : Reads (read.push subject predicate object)
          (read.push subject predicate object).skip.bump := ⟨rfl, rfl, rfl⟩
      have moved := pushed.trans comma.grows
      exact moved.trans (grows.objects (knownSubject.mono moved) (knownPredicate.mono moved) ran)
    · cases ran
      exact ⟨pushed.scope, pushed.count, pushed.triples⟩
  predicates := by
    intro subject s after knownSubject ran
    rw [parsePredicateObjectList] at ran
    obtain ⟨⟨predicate, read⟩, verb, ran⟩ := bind_eq_ok.mp ran
    obtain ⟨listed, list, ran⟩ := bind_eq_ok.mp ran
    obtain ⟨inside, knownPredicate⟩ := grows.verb verb
    have start : Grows unicode s read := ⟨inside.scope, inside.count, inside.triples⟩
    have objects : Grows unicode s listed :=
      start.trans (grows.objects (knownSubject.mono start) knownPredicate list)
    dsimp only at ran
    split at ran
    · split at ran
      · cases ran
        exact ⟨objects.scope, objects.count, objects.triples⟩
      · have semicolon : Reads listed listed.skip.bump.skip := ⟨rfl, rfl, rfl⟩
        have moved := objects.trans semicolon.grows
        exact moved.trans (grows.predicates (knownSubject.mono moved) ran)
    · cases ran
      exact ⟨objects.scope, objects.count, objects.triples⟩

theorem growsAt (unicode : Alphanumeric) (fuel : Nat) : GrowsAt unicode fuel := by
  induction fuel with
  | zero => constructor <;> intros <;> contradiction
  | succ fuel induction => exact induction.succ

/-! ## Documents -/

theorem grows_parseTriplesStatement {fuel : Nat}
    (ran : parseTriplesStatement unicode fuel s = .ok after) : Grows unicode s after := by
  rw [parseTriplesStatement] at ran
  obtain ⟨⟨subject, read⟩, term, ran⟩ := bind_eq_ok.mp ran
  obtain ⟨inside, known⟩ := (growsAt unicode fuel).term term
  have start : Grows unicode s read := ⟨inside.scope, inside.count, inside.triples⟩
  have skipped : Reads read read.skip := ⟨rfl, rfl, rfl⟩
  have moved := start.trans skipped.grows
  have atDot : ∀ {before : State}, before.expectDot = .ok after → Reads before after := by
    intro before closing
    have skipped : Reads before before.skip := ⟨rfl, rfl, rfl⟩
    exact skipped.trans (reads_expect closing)
  dsimp only at ran
  split at ran
  · exact moved.trans (atDot ran).grows
  · obtain ⟨listed, list, ran⟩ := bind_eq_ok.mp ran
    have further := (growsAt unicode fuel).predicates (known.mono skipped.grows) list
    exact (moved.trans further).trans (atDot ran).grows

theorem reads_parseDeclaration {isPrefix dotted : Bool}
    (ran : parseDeclaration isPrefix dotted s = .ok after) : Reads s after := by
  rw [parseDeclaration] at ran
  obtain ⟨⟨ns, first⟩, named, ran⟩ := bind_eq_ok.mp ran
  obtain ⟨⟨iri, second⟩, read, ran⟩ := bind_eq_ok.mp ran
  obtain ⟨third, ended, ran⟩ := bind_eq_ok.mp ran
  have name : Reads s first := by
    rw [readDeclared] at named
    split at named
    · rw [readPrefixNs] at named
      dsimp only at named
      split at named
      · cases named
        exact ⟨rfl, rfl, rfl⟩
      · cases named
    · cases named
      exact ⟨rfl, rfl, rfl⟩
  have skipped : Reads first first.skip := ⟨rfl, rfl, rfl⟩
  have reference : Reads s second := (name.trans skipped).trans (reads_parseIriref read)
  have point : Reads s third := by
    rw [endDeclaration] at ended
    split at ended
    · have skipped : Reads second second.skip := ⟨rfl, rfl, rfl⟩
      exact (reference.trans skipped).trans (reads_expect ended)
    · cases ended
      exact reference
  split at ran
  · cases ran
    exact ⟨point.scope, point.count, point.triples⟩
  · cases ran
    exact ⟨point.scope, point.count, point.triples⟩

theorem grows_parseOne {fuel : Nat} {char : Char} (ran : parseOne unicode fuel char s = .ok after) :
    Grows unicode s after := by
  have word : ∀ before : State, Reads before (readBareword before).2 := fun _ => ⟨rfl, rfl, rfl⟩
  have bumped : Reads s s.bump := ⟨rfl, rfl, rfl⟩
  rw [parseOne] at ran
  split at ran
  · rw [parseDirective] at ran
    dsimp only at ran
    split at ran
    · exact ((bumped.trans (word s.bump)).trans (reads_parseDeclaration ran)).grows
    · split at ran
      · exact ((bumped.trans (word s.bump)).trans (reads_parseDeclaration ran)).grows
      · cases ran
  · split at ran
    · rw [parseSparqlDirective] at ran
      dsimp only at ran
      split at ran
      · exact ((word s).trans (reads_parseDeclaration ran)).grows
      · split at ran
        · exact ((word s).trans (reads_parseDeclaration ran)).grows
        · cases ran
    · exact grows_parseTriplesStatement ran

theorem grows_parseDocument (fuel : Nat) :
    ∀ {s : State}, parseDocument unicode fuel s = .ok after → Grows unicode s after := by
  induction fuel with
  | zero =>
    intro s ran
    cases ran
  | succ fuel induction =>
    intro s ran
    have skipped : Reads s s.skip := ⟨rfl, rfl, rfl⟩
    rw [parseDocument] at ran
    split at ran
    · cases ran
      exact skipped.grows
    · obtain ⟨middle, one, further⟩ := bind_eq_ok.mp ran
      exact (skipped.grows.trans (grows_parseOne one)).trans (induction further)

/-- The blank nodes of a document are from its labels, or minted. -/
theorem known_of_parseDocument {fuel : Nat} {content scope : Text}
    (ran : parseDocument unicode fuel (.new content scope) = .ok after) :
    after.bnodeScope = scope ∧ ∀ triple ∈ after.triples, after.Known unicode triple.subject ∧
      after.Known unicode triple.predicate ∧ after.Known unicode triple.object := by
  have grows := grows_parseDocument fuel ran
  refine ⟨grows.scope, fun triple member => ?_⟩
  rcases grows.triples triple member with before | known
  · cases before
  · exact known

/-! ## Two documents in one graph -/

/-- A blank node that stands in a triple. -/
def Occurs (triples : List Triple) (term : Term) : Prop :=
  (∃ label, term = .blank label) ∧
    ∃ triple ∈ triples, term = triple.subject ∨ term = triple.predicate ∨ term = triple.object

/-- The minted nodes of two documents are apart from each other, and from whatever a document may
label. -/
structure StayApart (unicode : Alphanumeric) (first second : State) : Prop where
  minted : ∀ term, first.Minted term → ¬ second.Minted term
  labelled : ∀ label, Explicit unicode label →
    ¬ first.Minted (.blank label) ∧ ¬ second.Minted (.blank label)

theorem not_minted_of_explicit {label : Text} (explicit : Explicit unicode label) :
    ¬ s.Minted (.blank label) := by
  rintro ⟨number, -, same⟩
  exact not_explicit_fresh label same.symm explicit

theorem occurs_known {fuel : Nat} {content scope : Text}
    (ran : parseDocument unicode fuel (.new content scope) = .ok after)
    (occurs : Occurs after.triples term) : after.Known unicode term := by
  obtain ⟨-, triple, member, position⟩ := occurs
  obtain ⟨subject, predicate, object⟩ := (known_of_parseDocument ran).2 triple member
  rcases position with rfl | rfl | rfl
  · exact subject
  · exact predicate
  · exact object

/-- Two documents that `parse_str` reads keep their anonymous nodes apart just when one of them has
none; then the nodes that occur in both are labelled in both. -/
theorem stayApart_iff {fuel otherFuel : Nat} {content other : Text} {first second : State}
    (ran : parseDocument unicode fuel (.new content ['g']) = .ok first)
    (otherRan : parseDocument unicode otherFuel (.new other ['g']) = .ok second) :
    (StayApart unicode first second ↔ first.bnode = 0 ∨ second.bnode = 0) ∧
    (StayApart unicode first second → ∀ label, Occurs first.triples (.blank label) →
      Occurs second.triples (.blank label) → Explicit unicode label) := by
  have scopes : first.bnodeScope = second.bnodeScope :=
    (known_of_parseDocument ran).1.trans (known_of_parseDocument otherRan).1.symm
  refine ⟨⟨fun apart => ?_, fun none_ => ⟨?_, ?_⟩⟩, ?_⟩
  · by_contra both
    obtain ⟨firstSome, secondSome⟩ := not_or.mp both
    refine apart.minted _ ⟨0, Nat.pos_of_ne_zero firstSome, rfl⟩
      ⟨0, Nat.pos_of_ne_zero secondSome, ?_⟩
    rw [State.freshBlank, State.freshBlank, scopes]
  · rintro term ⟨number, below, -⟩ ⟨otherNumber, otherBelow, -⟩
    rcases none_ with empty | empty
    · rw [empty] at below
      cases below
    · rw [empty] at otherBelow
      cases otherBelow
  · exact fun label explicit => ⟨not_minted_of_explicit explicit, not_minted_of_explicit explicit⟩
  · intro apart label inFirst inSecond
    rcases occurs_known ran inFirst label rfl with explicit | minted
    · exact explicit
    · rcases occurs_known otherRan inSecond label rfl with explicit | otherMinted
      · exact explicit
      · exact absurd otherMinted (apart.minted _ minted)

/-- How many nodes a document mints. -/
def mintCount (content : Text) : Option Nat :=
  match parseDocument asciiOnly 8 (.new content ['g']) with
  | .ok s => some s.bnode
  | .error _ => none

theorem exists_of_mintCount {content : Text} {count : Nat} (counted : mintCount content = some count) :
    ∃ s, parseDocument asciiOnly 8 (.new content ['g']) = .ok s ∧ s.bnode = count := by
  rw [mintCount] at counted
  cases ran : parseDocument asciiOnly 8 (.new content ['g']) with
  | error failure =>
    rw [ran] at counted
    cases counted
  | ok s =>
    rw [ran] at counted
    exact ⟨s, rfl, Option.some.inj counted⟩

theorem stayApart_labelled : ∃ first second,
    parseDocument asciiOnly 8 (.new "<s> <p> _:o .".toList ['g']) = .ok first ∧
    parseDocument asciiOnly 8 (.new "[] <p> <o> .".toList ['g']) = .ok second ∧
    StayApart asciiOnly first second := by
  have none_ : mintCount "<s> <p> _:o .".toList = some 0 := by decide +kernel
  have one : mintCount "[] <p> <o> .".toList = some 1 := by decide +kernel
  obtain ⟨first, ran, empty⟩ := exists_of_mintCount none_
  obtain ⟨second, otherRan, -⟩ := exists_of_mintCount one
  exact ⟨first, second, ran, otherRan, (stayApart_iff ran otherRan).1.mpr (.inl empty)⟩

/-- The node of `[]` is the same one in every document. -/
theorem not_stayApart_anonymous :
    ¬ ∀ (content other : Text) (first second : State),
      parseDocument asciiOnly 8 (.new content ['g']) = .ok first →
      parseDocument asciiOnly 8 (.new other ['g']) = .ok second →
        StayApart asciiOnly first second := by
  intro apart
  have one : mintCount "[] <p> <o> .".toList = some 1 := by decide +kernel
  obtain ⟨s, ran, count⟩ := exists_of_mintCount one
  have minted : s.Minted ({ s with bnode := 0 }).freshBlank.1 :=
    ⟨0, count ▸ Nat.one_pos, rfl⟩
  exact (apart _ _ _ _ ran ran).minted _ minted minted

end GStore.Parser.Turtle
