import GStore.Parser.NTriples

/-! # Blank nodes of a reader

The readers of `rdfxml.rs`, `jsonld.rs` and `rdfa.rs` mint blank nodes with a counter and take the
labels of a document as they are. Here the labels are a parameter: those of the source put both in
one space, those that are apart do not, and the second is what the first forgets. -/

namespace GStore.Parser

/-- How a minted blank node is labelled, and how one that the document names. -/
structure Labels where
  minted : Nat → Text
  named : Text → Text

/-- `Extractor` of two readers and `Processor` of the third. -/
structure Extractor where
  triples : List Triple
  /-- How many blank nodes were minted. -/
  bnode : Nat
deriving DecidableEq

namespace Extractor

def new : Extractor where
  triples := []
  bnode := 0

def push (s : Extractor) (subject predicate object : Term) : Extractor :=
  { s with triples := s.triples ++ [{ subject, predicate, object }] }

def freshBlank (labels : Labels) (s : Extractor) : Term × Extractor :=
  (.blank (labels.minted s.bnode), { s with bnode := s.bnode + 1 })

end Extractor

namespace Labels

/-- Minted labels have a mark in front of a number, and named ones are what they are. -/
def marked (mark : String) : Labels where
  minted number := mark.toList ++ Nat.toDigits 10 number
  named label := label

/-- No minted label is a named one. -/
def apart : Labels where
  minted number := 'm' :: Nat.toDigits 10 number
  named label := 'n' :: label

/-- What is apart, put in one space. -/
def merge (mark : String) : Text → Text
  | 'm' :: digits => mark.toList ++ digits
  | _ :: label => label
  | [] => []

theorem toDigits_injective : Function.Injective (Nat.toDigits 10) :=
  fun first second same => by
    rw [← Nat.ofDigitChars_ten_toDigits (n := first), same, Nat.ofDigitChars_ten_toDigits]

theorem minted_injective (mark : String) : Function.Injective (marked mark).minted :=
  fun _ _ same => toDigits_injective (List.append_cancel_left same)

end Labels

end GStore.Parser

/-! ## Renaming -/

namespace GStore

def Term.relabel (rename : Text → Text) : Term → Term
  | .blank label => .blank (rename label)
  | .iri text => .iri text
  | .literal value datatype lang => .literal value datatype lang

def Term.labels : Term → List Text
  | .blank label => [label]
  | .iri _ => []
  | .literal _ _ _ => []

def Triple.relabel (rename : Text → Text) (triple : Triple) : Triple where
  subject := triple.subject.relabel rename
  predicate := triple.predicate.relabel rename
  object := triple.object.relabel rename

def Triple.labels (triple : Triple) : List Text :=
  triple.subject.labels ++ triple.predicate.labels ++ triple.object.labels

end GStore

namespace GStore.Parser

def Extractor.relabel (rename : Text → Text) (s : Extractor) : Extractor :=
  { s with triples := s.triples.map (Triple.relabel rename) }

theorem Extractor.relabel_push (rename : Text → Text) (s : Extractor)
    (subject predicate object : Term) :
    (s.push subject predicate object).relabel rename = (s.relabel rename).push
      (subject.relabel rename) (predicate.relabel rename) (object.relabel rename) := by
  rw [relabel, push, List.map_append]
  rfl

/-! ## Identities

What a document says of its blank nodes, in the order of the reader: `none` for an anonymous one. -/

/-- Labels that a renaming makes the same, on these names and so many minted labels. -/
structure Agree (rename : Text → Text) (all : List (Option Text)) (last : Nat)
    (labels other : Labels) : Prop where
  named : ∀ name, some name ∈ all → other.named name = rename (labels.named name)
  minted : ∀ number < last, other.minted number = rename (labels.minted number)

/-- From a state on, these identities are among those that labels agree on. -/
structure Foreseen (all : List (Option Text)) (last : Nat) (identities : List (Option Text))
    (s : Extractor) : Prop where
  names : identities ⊆ all
  room : s.bnode + identities.count none ≤ last

/-- A step mints for the anonymous nodes among these identities, and over the other labels it is the
step renamed. -/
structure Follows {ε σ τ : Type} (state : σ → Extractor) (change : σ → τ)
    (identities : List (Option Text)) (s : Extractor) (run : Except ε σ) (other : Except ε τ) :
    Prop where
  same : other = run.map change
  count : ∀ after, run = .ok after → (state after).bnode = s.bnode + identities.count none

/-- A term and the state after it, renamed. -/
def relabelRead (rename : Text → Text) : Term × Extractor → Term × Extractor :=
  Prod.map (Term.relabel rename) (Extractor.relabel rename)

section Following

variable {ε α σ τ υ φ : Type} {rename : Text → Text} {all first second : List (Option Text)}
  {last : Nat} {labels other : Labels} {s after : Extractor}

theorem Foreseen.left (foreseen : Foreseen all last (first ++ second) s) :
    Foreseen all last first s where
  names := (List.append_subset.mp foreseen.names).1
  room := by
    have room := foreseen.room
    rw [List.count_append] at room
    omega

theorem Foreseen.right (foreseen : Foreseen all last (first ++ second) s)
    (count : after.bnode = s.bnode + first.count none) : Foreseen all last second after where
  names := (List.append_subset.mp foreseen.names).2
  room := by
    have room := foreseen.room
    rwa [List.count_append, ← Nat.add_assoc, ← count] at room

theorem Foreseen.later (foreseen : Foreseen all last second s) (same : after.bnode = s.bnode) :
    Foreseen all last second after :=
  @Foreseen.right _ [] second _ _ _ foreseen same

theorem Foreseen.mint (foreseen : Foreseen all last (none :: first) s) : s.bnode < last := by
  have room := foreseen.room
  rw [List.count_cons_self] at room
  omega

theorem foreseen_new : Foreseen first (first.count none) first .new :=
  ⟨List.Subset.refl _, (Nat.zero_add _).le⟩

theorem Agree.freshBlank (agree : Agree rename all last labels other) (room : s.bnode < last) :
    (s.relabel rename).freshBlank other = relabelRead rename (s.freshBlank labels) :=
  congrArg (fun label => (Term.blank label, (s.freshBlank labels).2.relabel rename))
    (agree.minted s.bnode room)

variable {state : σ → Extractor} {change : σ → τ} {run : Except ε σ} {runOther : Except ε τ}

theorem Follows.ok {value : σ} (count : (state value).bnode = s.bnode + first.count none)
    (same : runOther = .ok (change value)) : Follows state change first s (.ok value) runOther where
  same := same
  count _ ran := by
    cases ran
    exact count

theorem Follows.error {problem : ε} :
    Follows state change first s (.error problem) (.error problem) where
  same := rfl
  count _ ran := by cases ran

theorem Follows.bind {stateLast : υ → Extractor} {changeLast : υ → φ} {later : σ → Except ε υ}
    {laterOther : τ → Except ε φ} (follows : Follows state change first s run runOther)
    (next : ∀ value, (state value).bnode = s.bnode + first.count none →
      Follows stateLast changeLast second (state value) (later value) (laterOther (change value))) :
    Follows stateLast changeLast (first ++ second) s (run >>= later) (runOther >>= laterOther) := by
  rw [follows.same]
  cases run with
  | error problem => exact .error
  | ok between =>
    have here := follows.count between rfl
    have onward := next between here
    refine ⟨onward.same, fun value ran => ?_⟩
    rw [onward.count value ran, here, List.count_append, Nat.add_assoc]

/-- What comes last neither mints nor names. -/
theorem Follows.closing {stateLast : υ → Extractor} {changeLast : υ → φ} {later : σ → Except ε υ}
    {laterOther : τ → Except ε φ} (follows : Follows state change first s run runOther)
    (next : ∀ value, Follows stateLast changeLast [] (state value) (later value)
      (laterOther (change value))) :
    Follows stateLast changeLast first s (run >>= later) (runOther >>= laterOther) :=
  List.append_nil first ▸ follows.bind fun value _ => next value

/-- What comes first neither mints nor names. -/
theorem Follows.opening {stateLast : υ → Extractor} {changeLast : υ → φ} {later : σ → Except ε υ}
    {laterOther : τ → Except ε φ} (follows : Follows state change [] s run runOther)
    (next : ∀ value, (state value).bnode = s.bnode →
      Follows stateLast changeLast second (state value) (later value) (laterOther (change value))) :
    Follows stateLast changeLast second s (run >>= later) (runOther >>= laterOther) :=
  follows.bind next

/-- A step that no label touches. -/
theorem Follows.given {start : Except ε α} {later : α → Except ε σ} {laterOther : α → Except ε τ}
    (next : ∀ value, start = .ok value →
      Follows state change first s (later value) (laterOther value)) :
    Follows state change first s (start >>= later) (start >>= laterOther) := by
  cases start with
  | error problem => exact .error
  | ok value => exact next value rfl

/-- A step after one that mints for the first identities. -/
theorem Follows.behind (follows : Follows state change second after run runOther)
    (count : after.bnode = s.bnode + first.count none) :
    Follows state change (first ++ second) s run runOther where
  same := follows.same
  count value ran := by
    rw [follows.count value ran, count, List.count_append, Nat.add_assoc]

theorem Follows.minted (follows : Follows state change first after run runOther)
    (one : after.bnode = s.bnode + 1) : Follows state change (none :: first) s run runOther :=
  @Follows.behind _ _ _ [none] first _ _ _ _ _ _ follows one

theorem Follows.silent (follows : Follows state change first after run runOther)
    (same : after.bnode = s.bnode) : Follows state change first s run runOther :=
  @Follows.behind _ _ _ [] first _ _ _ _ _ _ follows same

/-- The state after a term that was read. -/
theorem Follows.snd {read readOther : Except ε (Term × Extractor)}
    (follows : Follows Prod.snd (relabelRead rename) first s read readOther) :
    Follows id (Extractor.relabel rename) first s (read.map Prod.snd) (readOther.map Prod.snd) := by
  refine ⟨?_, fun value ran => ?_⟩
  · rw [follows.same]
    cases read <;> rfl
  · obtain ⟨result, isRead, rfl⟩ := map_eq_ok.mp ran
    exact follows.count result isRead

/-- A loop over items follows what its items do, one after the other. -/
theorem foldlM_follows {identities : α → List (Option Text)} {read : σ → α → Except ε σ}
    {readOther : τ → α → Except ε τ} {items : List α}
    (step : ∀ item ∈ items, ∀ s, Foreseen all last (identities item) (state s) →
      Follows state change (identities item) (state s) (read s item) (readOther (change s) item)) :
    ∀ s, Foreseen all last (items.flatMap identities) (state s) →
      Follows state change (items.flatMap identities) (state s) (items.foldlM read s)
        (items.foldlM readOther (change s)) := by
  induction items with
  | nil => exact fun s _ => .ok rfl rfl
  | cons item rest induction =>
    intro s foreseen
    rw [List.flatMap_cons] at foreseen ⊢
    rw [List.foldlM_cons, List.foldlM_cons]
    refine (step item List.mem_cons_self s foreseen.left).bind fun after count => ?_
    exact induction (fun other member => step other (List.mem_cons_of_mem _ member)) after
      (foreseen.right count)

theorem each_follows {identities : α → List (Option Text)}
    {read readOther : Extractor → α → Except ε Extractor} {items : List α}
    (step : ∀ item ∈ items, ∀ s, Foreseen all last (identities item) s →
      Follows id (Extractor.relabel rename) (identities item) s (read s item)
        (readOther (s.relabel rename) item))
    (foreseen : Foreseen all last (items.flatMap identities) s) :
    Follows id (Extractor.relabel rename) (items.flatMap identities) s (items.foldlM read s)
      (items.foldlM readOther (s.relabel rename)) :=
  foldlM_follows step s foreseen

end Following

/-- No name is a label that is minted. -/
def Distinct (mark : String) (identities : List (Option Text)) : Prop :=
  ∀ name, some name ∈ identities → ∀ number < identities.count none,
    name ≠ (Labels.marked mark).minted number

/-- The minted blank nodes are pairwise distinct and differ from every one that is named, and the
graph identifies what the document does: it is the one with labels apart, renamed one-to-one. -/
structure Faithful (mark : String) (identities : List (Option Text)) (source stated : Extractor) :
    Prop where
  minted : ∀ first < source.bnode, ∀ second < source.bnode,
    (Labels.marked mark).minted first = (Labels.marked mark).minted second → first = second
  differ : ∀ name, some name ∈ identities → ∀ number < source.bnode,
    name ≠ (Labels.marked mark).minted number
  graph : source.triples = stated.triples.map (Triple.relabel (Labels.merge mark))
  injective : Set.InjOn (Labels.merge mark)
    {label | ∃ triple ∈ stated.triples, label ∈ triple.labels}

/-- A label that is accounted for, among names and so many minted labels. -/
def Accounted (labels : Labels) (all : List (Option Text)) (last : Nat) (label : Text) : Prop :=
  (∃ name, some name ∈ all ∧ label = labels.named name) ∨
    ∃ number < last, label = labels.minted number

theorem injOn_merge {mark : String} {identities : List (Option Text)}
    (distinct : Distinct mark identities) :
    Set.InjOn (Labels.merge mark)
      {label | Accounted Labels.apart identities (identities.count none) label} := by
  rintro _ (⟨first, isFirst, rfl⟩ | ⟨first, below, rfl⟩) _
    (⟨second, isSecond, rfl⟩ | ⟨second, under, rfl⟩) same
  · exact congrArg Labels.apart.named same
  · exact absurd same (distinct first isFirst second under)
  · exact absurd same.symm (distinct second isSecond first below)
  · exact congrArg Labels.apart.minted (Labels.minted_injective mark same)

/-- What a run over labels that are apart says about the same run of the source. -/
structure Explains (mark : String) (identities : List (Option Text)) (source stated : Extractor) :
    Prop where
  same : source = stated.relabel (Labels.merge mark)
  count : stated.bnode = identities.count none
  known : ∀ triple ∈ stated.triples, ∀ label ∈ triple.labels,
    Accounted .apart identities (identities.count none) label

theorem Term.rename_of_relabel {rename : Text → Text} {term : Term}
    (same : term.relabel rename = term) : ∀ label ∈ term.labels, rename label = label := by
  cases term with
  | blank name =>
    intro label member
    rw [List.mem_singleton.mp member]
    exact Term.blank.inj same
  | _ => exact fun label member => absurd member List.not_mem_nil

/-- What no renaming of other labels changes has only labels that are accounted for. -/
theorem accounted_of_relabel {all : List (Option Text)} {last : Nat} {labels : Labels}
    {s : Extractor} (same : ∀ rename, Agree rename all last labels labels → s.relabel rename = s) :
    ∀ triple ∈ s.triples, ∀ label ∈ triple.labels, Accounted labels all last label := by
  classical
  intro triple member label mentions
  let rename (label : Text) : Text :=
    if Accounted labels all last label then label else 'x' :: label
  have agree : Agree rename all last labels labels :=
    ⟨fun name isName => (if_pos (.inl ⟨name, isName, rfl⟩)).symm,
      fun number below => (if_pos (.inr ⟨number, below, rfl⟩)).symm⟩
  have triples : s.triples.map (Triple.relabel rename) = s.triples.map id :=
    (congrArg Extractor.triples (same rename agree)).trans (List.map_id _).symm
  have kept : triple.relabel rename = triple := List.map_inj_left.mp triples triple member
  have fixed : rename label = label := by
    rcases List.mem_append.mp mentions with front | isObject
    · rcases List.mem_append.mp front with isSubject | isPredicate
      · exact Term.rename_of_relabel (congrArg Triple.subject kept) label isSubject
      · exact Term.rename_of_relabel (congrArg Triple.predicate kept) label isPredicate
    · exact Term.rename_of_relabel (congrArg Triple.object kept) label isObject
  by_contra unaccounted
  rw [show rename label = 'x' :: label from if_neg unaccounted] at fixed
  exact List.cons_ne_self 'x' label fixed

/-- A reader that follows its labels is explained by what it does with labels that are apart. -/
theorem explains_of_follows {ε : Type} {mark : String} {identities : List (Option Text)}
    {run : Labels → Except ε Extractor} {source : Extractor}
    (follows : ∀ {rename labels other},
      Agree rename identities (identities.count none) labels other →
      Follows id (Extractor.relabel rename) identities .new (run labels) (run other))
    (ran : run (.marked mark) = .ok source) :
    ∃ stated, run .apart = .ok stated ∧ Explains mark identities source stated := by
  have merged := @follows (Labels.merge mark) .apart (.marked mark)
    ⟨fun _ _ => rfl, fun _ _ => rfl⟩
  obtain ⟨stated, isStated, same⟩ := map_eq_ok.mp (merged.same.symm.trans ran)
  refine ⟨stated, isStated, same.symm, (merged.count stated isStated).trans (Nat.zero_add _), ?_⟩
  refine accounted_of_relabel fun rename agree => ?_
  have kept := (follows agree).same
  rw [isStated] at kept
  exact (Except.ok.inj kept).symm

theorem Explains.faithful_iff {mark : String} {identities : List (Option Text)}
    {source stated : Extractor} (explains : Explains mark identities source stated) :
    Faithful mark identities source stated ↔ Distinct mark identities := by
  obtain ⟨rfl, count, known⟩ := explains
  constructor
  · intro faithful name isName number below
    exact faithful.differ name isName number (count.symm ▸ below)
  · intro distinct
    refine ⟨fun first _ second _ same => Labels.minted_injective mark same, ?_, rfl, ?_⟩
    · intro name isName number below
      exact distinct name isName number (count ▸ below)
    · refine (injOn_merge distinct).mono ?_
      rintro label ⟨triple, member, mentions⟩
      exact known triple member label mentions

end GStore.Parser
