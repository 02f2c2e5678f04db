import GStore.Db.Engine
import GStore.Db.Rollback

/-! # Well-formed RDF

Subjects and predicates are interned without a look at their kind, so a stored
triple is as well-formed as whoever produced it made it: the parsers, the
templates of a modification, the rules. -/

namespace GStore

/-- The subject is no literal and the predicate is an IRI. -/
structure Triple.Proper (triple : Triple) : Prop where
  subject : triple.subject.isLiteral = false
  predicate : ∃ iri, triple.predicate = .iri iri

/-- A dictionary key of an IRI or a blank node. -/
def EntityKey (text : Text) : Prop := ∃ term : Term, term.isLiteral = false ∧ text = term.dictKey

end GStore

namespace GStore.Db

open Dict GStore.Parser Query Reason Store

/-- No id in the entity space resolves to a literal. -/
def EntityKeys (dict : Dictionary) : Prop :=
  ∀ id text, dict.entities.resolve id = some text → EntityKey text

/-- The subject of a stored triple is an IRI or a blank node, its predicate an
IRI. -/
structure ProperId (dict : Dictionary) (id : IdTriple) : Prop where
  subject : ∃ text, dict.entities.resolve id.sub = some text ∧ EntityKey text
  predicate : ∃ iri, dict.predicates.resolve id.pred = some (key iri)

section Dictionary

variable {dict grown : Dictionary} {id : UInt32} {text : Text}

theorem entityKeys_internEntity (valid : dict.Valid) (keys : EntityKeys dict)
    (entity : EntityKey text) (interned : dict.internEntity text = some (grown, id)) :
    EntityKeys grown := by
  rw [Dictionary.internEntity] at interned
  split at interned
  · rename_i entities index entry
    split at interned
    · cases interned
      intro other found resolved
      cases known : dict.entities.get text with
      | none =>
        rw [show Dictionary.entities _ = entities from rfl,
          Interner.resolve_intern valid.entities known entry] at resolved
        split at resolved
        · cases resolved
          exact entity
        · exact keys other found resolved
      | some index =>
        rw [Interner.intern, known] at entry
        cases entry
        exact keys other found resolved
    · cases interned
  · cases interned

theorem entityKeys_internTerm {term : Term} (valid : dict.Valid) (keys : EntityKeys dict)
    (interned : dict.internTerm term = some (grown, id)) : EntityKeys grown := by
  rw [Dictionary.internTerm] at interned
  split at interned
  · rw [Dictionary.internLiteral] at interned
    split at interned
    · split at interned
      · cases interned
        exact keys
      · cases interned
    · cases interned
  · rename_i entity
    rw [Bool.not_eq_true] at entity
    exact entityKeys_internEntity valid keys ⟨term, entity, rfl⟩ interned

theorem entityKeys_encodeTriple {triple : Triple} {encodedId : IdTriple} (valid : dict.Valid)
    (keys : EntityKeys dict) (proper : triple.Proper)
    (encoded : dict.encodeTriple triple = some (grown, encodedId)) : EntityKeys grown := by
  simp only [Dictionary.encodeTriple, Option.bind_eq_bind, Option.bind_eq_some_iff, Option.pure_def,
    Option.some.injEq, Prod.mk.injEq, Prod.exists] at encoded
  rcases encoded with ⟨first, sub, entity, second, pred, predicate, third, obj, term, rfl, rfl⟩
  rcases Dictionary.internEntity_spec valid entity with ⟨firstValid, -, -⟩
  rcases Dictionary.internPredicate_spec firstValid predicate with ⟨secondValid, -, -⟩
  have firstKeys := entityKeys_internEntity valid keys ⟨_, proper.subject, rfl⟩ entity
  have secondKeys : EntityKeys second := by
    rw [Dictionary.internPredicate] at predicate
    split at predicate
    · cases predicate
      exact firstKeys
    · cases predicate
  exact entityKeys_internTerm secondValid secondKeys term

theorem entityKeys_encodeQuad {triple : Triple} {graph : Option Text} {gid : Option UInt32}
    {encodedId : IdTriple} (valid : dict.Valid) (keys : EntityKeys dict) (proper : triple.Proper)
    (encoded : encodeQuad dict triple graph = some (grown, gid, encodedId)) : EntityKeys grown := by
  cases graph with
  | none =>
    rcases Option.map_eq_some_iff.mp encoded with ⟨⟨_, _⟩, found, result⟩
    cases result
    exact entityKeys_encodeTriple valid keys proper found
  | some name =>
    simp only [encodeQuad, Option.bind_eq_bind, Option.bind_eq_some_iff, Prod.exists] at encoded
    rcases encoded with ⟨middle, graphId, interned, last, tripleId, found, result⟩
    cases result
    rcases Dictionary.internEntity_spec valid interned with ⟨middleValid, -, -⟩
    have middleKeys := entityKeys_internEntity valid keys ⟨.iri name, rfl, rfl⟩ interned
    exact entityKeys_encodeTriple middleValid middleKeys proper found

theorem properId_of_lookup {triple : Triple} {encodedId : IdTriple} (valid : dict.Valid)
    (proper : triple.Proper) (known : dict.lookup triple = some encodedId) :
    ProperId dict encodedId := by
  rw [Dictionary.lookup_eq_some_iff] at known
  rcases proper.predicate with ⟨iri, named⟩
  refine ⟨⟨_, (valid.entities.get_iff _ _).mp known.1, _, proper.subject, rfl⟩, iri, ?_⟩
  have resolved := (valid.predicates.get_iff _ _).mp known.2.1
  rw [named] at resolved
  exact resolved

theorem ProperId.grow {encodedId : IdTriple} (proper : ProperId dict encodedId)
    (grows : dict.Extends grown) (valid : dict.Valid) (grownValid : grown.Valid) :
    ProperId grown encodedId := by
  rcases proper with ⟨⟨text, resolved, entity⟩, iri, predicate⟩
  refine ⟨⟨text, ?_, entity⟩, iri, ?_⟩
  · rw [grows.entities.resolve valid.entities grownValid.entities (by rw [resolved]; rfl), resolved]
  · rw [grows.predicates.resolve valid.predicates grownValid.predicates (by rw [predicate]; rfl),
      predicate]

end Dictionary

namespace Session

/-! ## The invariant -/

structure WellFormed (s : Session) : Prop where
  entities : EntityKeys s.dict
  triples : ∀ graph, ∀ triple ∈ s.triples graph, ProperId s.dict triple

section Steps

variable {s after : Session} {triple : Triple} {graph : Option Text} {changed : Bool}

theorem WellFormed.reduced (wellFormed : s.WellFormed) (reduced : Reduced s after) :
    after.WellFormed where
  entities := reduced.dict ▸ wellFormed.entities
  triples graph triple member :=
    reduced.dict ▸ wellFormed.triples graph triple (reduced.within graph member)

theorem WellFormed.insertQuad (wellFormed : s.WellFormed) (valid : s.Valid)
    (proper : triple.Proper) (ran : s.insertQuad triple graph = some (after, changed)) :
    after.WellFormed := by
  rw [insertQuad_eq, Option.map_eq_some_iff] at ran
  rcases ran with ⟨⟨dict, gid, id⟩, encoded, result⟩
  cases result
  rcases encodeQuad_spec valid.dict encoded with ⟨dictValid, grows, known⟩
  constructor
  · rw [inserted_dict]
    exact entityKeys_encodeQuad valid.dict wellFormed.entities proper encoded
  · rw [inserted_dict, triples_inserted valid]
    intro other stored member
    have old : stored ∈ s.triples other → ProperId dict stored := fun before =>
      (wellFormed.triples other stored before).grow grows valid.dict dictValid
    by_cases same : other = gid
    · subst same
      rw [Function.update_self] at member
      rcases member with rfl | before
      · exact properId_of_lookup dictValid proper (lookupQuad_eq_some.mp known).1
      · exact old before
    · rw [Function.update_of_ne same] at member
      exact old member

theorem WellFormed.insertAll (triples : List GroundTriple) :
    ∀ {s after : Session} {count : Nat}, s.WellFormed → s.Valid →
      (∀ ground ∈ triples, ground.triple.Proper) → s.insertAll triples = some (after, count) →
      after.WellFormed := by
  induction triples with
  | nil =>
    intro s after count wellFormed _ _ ran
    cases ran
    exact wellFormed
  | cons ground rest induction =>
    intro s after count wellFormed valid proper ran
    rcases insertAll_cons ran with ⟨middle, changed, further, inserted, later⟩
    have here := wellFormed.insertQuad valid (proper ground List.mem_cons_self) inserted
    exact induction here (logged_insertQuad valid inserted).valid
      (fun other member => proper other (List.mem_cons_of_mem _ member)) later

theorem reduced_deleteAll (triples : List GroundTriple) :
    ∀ {s : Session}, s.Valid → Reduced s (s.deleteAll triples).1 := by
  induction triples with
  | nil => exact fun _ => .refl _
  | cons ground rest induction =>
    intro s valid
    rw [deleteAll]
    exact (reduced_deleteQuad valid _ _).trans (induction (logged_deleteQuad valid _ _).valid)

theorem reduced_clearTarget (valid : s.Valid) (target : GraphTarget) :
    Reduced s (s.clearTarget target).1 := by
  have cleared := cleared_clearTarget valid target
  refine ⟨cleared.dict, fun gid => ?_⟩
  rw [cleared.triples]
  exact fun triple member => member.1

end Steps

/-! ## Rules -/

section Rules

variable {s after : Session} {dict : Dictionary} {store : TripleStore}

theorem recordInferred_eq (added : List IdTriple) :
    (s.recordInferred added).dict = s.dict ∧ (s.recordInferred added).triples = s.triples := by
  rw [recordInferred]
  split <;> exact ⟨rfl, rfl⟩

/-- A reasoner leaves the named graphs alone. -/
theorem WellFormed.inferred (wellFormed : s.WellFormed) (valid : s.Valid) (dictValid : dict.Valid)
    (grows : s.dict.Extends dict) (keys : EntityKeys dict)
    (proper : ∀ triple ∈ stored store, ProperId dict triple) (added : List IdTriple) :
    ({ s with dict, store }.recordInferred added).WellFormed := by
  rcases recordInferred_eq (s := { s with dict, store }) added with ⟨sameDict, sameTriples⟩
  constructor
  · rw [sameDict]
    exact keys
  · rw [sameDict, sameTriples]
    intro graph triple member
    cases graph with
    | none => exact proper triple member
    | some gid => exact (wellFormed.triples (some gid) triple member).grow grows valid.dict dictValid

theorem WellFormed.runRules {fuel : Nat} {rules : List Rule} {count : Nat}
    (wellFormed : s.WellFormed) (valid : s.Valid)
    (ran : s.runRules fuel rules = some (after, count)) : after.WellFormed := by
  rcases Option.map_eq_some_iff.mp ran with ⟨⟨_, run⟩, derived, result⟩
  have kept : KeptByInsert fun run => run.dict.Valid ∧ Indexed run.store ∧ s.dict.Extends run.dict ∧
      EntityKeys run.dict ∧ ∀ triple ∈ stored run.store, ProperId run.dict triple := by
    rintro run after triple isNew ⟨runValid, indexed, grown, keys, proper⟩ subject predicate inserted
    rw [RuleRun.insert, Option.map_eq_some_iff] at inserted
    rcases inserted with ⟨⟨dict, id⟩, encoded, result⟩
    cases result
    rcases Dictionary.encodeTriple_spec runValid encoded with ⟨dictValid, grows, known⟩
    rcases indexed.insert id with ⟨still, holds, -⟩
    refine ⟨dictValid, still, grown.trans grows, ?_, ?_⟩
    · exact entityKeys_encodeTriple runValid keys ⟨subject, predicate⟩ encoded
    · intro stored_ member
      rw [holds] at member
      rcases member with rfl | before
      · exact properId_of_lookup dictValid ⟨subject, predicate⟩ known
      · exact (proper stored_ before).grow grows runValid dictValid
  have start : s.dict.Valid ∧ Indexed s.store ∧ s.dict.Extends s.dict ∧ EntityKeys s.dict ∧
      ∀ triple ∈ stored s.store, ProperId s.dict triple :=
    ⟨valid.dict, valid.store, .refl _, wellFormed.entities, wellFormed.triples none⟩
  rcases applyRuleSet_keeps kept start derived with ⟨dictValid, -, grows, keys, proper⟩
  cases result
  exact wellFormed.inferred valid dictValid grows keys proper run.added

/-! ### RDFS -/

theorem entities_prepare {grown : Dictionary} {voc : Vocabulary}
    (prepared : prepare dict store = some (grown, voc)) : grown.entities = dict.entities := by
  have one : ∀ {first last : Dictionary} {text : Text} {id : UInt32},
      first.internPredicate text = some (last, id) → last.entities = first.entities := by
    intro first last text id interned
    rw [Dictionary.internPredicate] at interned
    split at interned
    · cases interned
      rfl
    · cases interned
  have many : ∀ (keys : List Text) {first : Dictionary}, internPredicates first keys = some grown →
      grown.entities = first.entities := by
    intro keys
    induction keys with
    | nil =>
      intro first interned
      cases interned
      rfl
    | cons text rest induction =>
      intro first interned
      rw [internPredicates, List.foldlM_cons] at interned
      rcases Option.bind_eq_some_iff.mp interned with ⟨middle, here, further⟩
      rcases Option.map_eq_some_iff.mp here with ⟨⟨_, id⟩, found, rfl⟩
      exact (induction further).trans (one found)
  simp only [prepare, Option.bind_eq_bind, Option.bind_eq_some_iff] at prepared
  rcases prepared with ⟨typed, interned, prepared⟩
  have first : typed.entities = dict.entities := by
    simp only [internType] at interned
    split at interned
    · rcases Option.map_eq_some_iff.mp interned with ⟨⟨_, id⟩, found, rfl⟩
      exact one found
    · cases interned
      rfl
  split at prepared
  · simp only [Option.bind_eq_some_iff, Option.pure_def, Option.some.injEq, Prod.mk.injEq]
      at prepared
    rcases prepared with ⟨last, names, rfl, -⟩
    exact (many _ names).trans first
  · cases prepared
    exact first

/-- No statement that the rules give, from what is stored on, applies a range to
a literal, and no property of one is below a property that is no IRI. -/
structure ProperSchema (dict : Dictionary) (store : TripleStore) : Prop where
  range : ∀ grown voc, prepare dict store = some (grown, voc) → ∀ rng property pred cls sub obj,
    voc.rngP = some rng → entToPred grown property = some pred →
    ⟨property, rng, cls⟩ ∈ chained (Entails grown voc) (stored store) →
    ⟨sub, pred, obj⟩ ∈ chained (Entails grown voc) (stored store) →
    ∃ text, dict.entities.resolve obj = some text
  properties : ∀ grown voc, prepare dict store = some (grown, voc) →
    ∀ spo lower upper lowerPred upperPred sub obj, voc.spoP = some spo →
    entToPred grown lower = some lowerPred → entToPred grown upper = some upperPred →
    ⟨lower, spo, upper⟩ ∈ chained (Entails grown voc) (stored store) →
    ⟨sub, lowerPred, obj⟩ ∈ chained (Entails grown voc) (stored store) →
    ∃ iri, dict.idToString upper = some (key iri)

theorem materialize_cases {grown : Dictionary} {closed : TripleStore} {added : List IdTriple}
    (indexed : Indexed store)
    (ran : materialize dict store = some (grown, closed, added)) :
    ∃ voc, prepare dict store = some (grown, voc) ∧
      stored closed = chained (Entails grown voc) (stored store) := by
  rcases indexed with ⟨triples, refines⟩
  have ready := ran
  rw [materialize_eq, Option.map_eq_some_iff] at ready
  rcases ready with ⟨⟨used, voc⟩, ready, same⟩
  have named : grown = used := (Prod.mk.inj same).1.symm
  subst named
  rcases materialize_spec refines ready with ⟨last, list, result, again, lastRefines, least, -, -⟩
  rw [ran] at again
  cases again
  refine ⟨voc, ready, ?_⟩
  rw [stored_eq lastRefines, stored_eq refines, least]

section Chained

variable {grown : Dictionary} {voc : Vocabulary}

theorem resolve_of_predicateId (valid : grown.Valid) {text : Text} {pred : UInt32}
    (found : grown.predicateId text = some pred) : grown.predicates.resolve pred = some text :=
  (valid.predicates.get_iff text pred).mp found

/-- Every other rule takes its subject from a subject and its predicate from a
predicate or from the vocabulary. -/
theorem properId_chained (ready : prepare dict store = some (grown, voc)) (valid : dict.Valid)
    (keys : EntityKeys dict) (schema : ProperSchema dict store)
    (base : ∀ triple ∈ stored store, ProperId grown triple) :
    ∀ triple ∈ chained (Entails grown voc) (stored store), ProperId grown triple := by
  have prepared := prepare_spec valid ready
  have closure : chained (Entails grown voc) (stored store) ∈
      ClosedOver (Entails grown voc) (stored store) :=
    (isLeast_chained (monotone_entails grown voc)).1
  have typed : ∀ {typeP}, voc.typeP = some typeP →
      ∃ iri, grown.predicates.resolve typeP = some (key iri) := fun slot =>
    ⟨_, resolve_of_predicateId prepared.valid (prepared.typeP _ slot)⟩
  have covers : chained (Entails grown voc) (stored store) ⊆
      {triple | triple ∈ chained (Entails grown voc) (stored store) ∧ ProperId grown triple} := by
    apply chained_subset
    refine ⟨fun triple member => ⟨closure.1 member, base triple member⟩, ?_⟩
    intro triple derived
    have known := monotone_entails grown voc (fun _ both => And.left both) triple derived
    refine ⟨closure.2 triple known, ?_⟩
    cases derived with
    | subClass _ first _ _ => exact ⟨first.2.subject, first.2.predicate⟩
    | types _ slot first _ => exact ⟨first.2.subject, first.2.predicate⟩
    | subProperty _ first _ _ => exact ⟨first.2.subject, first.2.predicate⟩
    | properties resolved below above first second _ =>
      rcases schema.properties _ _ ready _ _ _ _ _ _ _ resolved below above first.1 second.1 with
        ⟨iri, named⟩
      rcases entToPred_eq_some.mp above with ⟨text, again, found⟩
      rw [prepared.nameOf, named] at again
      cases again
      exact ⟨second.2.subject, iri, resolve_of_predicateId prepared.valid found⟩
    | domain _ slot _ _ second => exact ⟨second.2.subject, typed slot⟩
    | range resolved slot named first second =>
      rcases schema.range _ _ ready _ _ _ _ _ _ resolved named first.1 second.1 with
        ⟨text, entity⟩
      have same : grown.entities.resolve = dict.entities.resolve := by
        rw [entities_prepare ready]
      exact ⟨⟨text, same ▸ entity, keys _ _ entity⟩, typed slot⟩
  exact fun triple member => (covers member).2

theorem properSchema_of_chained (ready : prepare dict store = some (grown, voc))
    (valid : dict.Valid)
    (proper : ∀ triple ∈ chained (Entails grown voc) (stored store), ProperId grown triple) :
    ProperSchema dict store := by
  have prepared := prepare_spec valid ready
  have closure : chained (Entails grown voc) (stored store) ∈
      ClosedOver (Entails grown voc) (stored store) :=
    (isLeast_chained (monotone_entails grown voc)).1
  constructor
  · intro other voc' again rng property pred cls sub obj resolved named first second
    rw [ready] at again
    cases again
    rcases prepared.typeP_of_known (by simp [resolved]) with ⟨typeP, slot, -⟩
    have derived := closure.2 _ (.range resolved slot named first second)
    rcases (proper _ derived).subject with ⟨text, entity, -⟩
    rw [entities_prepare ready] at entity
    exact ⟨text, entity⟩
  · intro other voc' again spo lower upper lowerPred upperPred sub obj resolved below above first second
    rw [ready] at again
    cases again
    have used : ⟨sub, upperPred, obj⟩ ∈ chained (Entails grown voc) (stored store) := by
      by_cases apart : lowerPred = upperPred
      · exact apart ▸ second
      · exact closure.2 _ (.properties resolved below above first second apart)
    rcases (proper _ used).predicate with ⟨iri, resolvedKey⟩
    rcases entToPred_eq_some.mp above with ⟨text, named, found⟩
    have same := (resolve_of_predicateId prepared.valid found).symm.trans resolvedKey
    rw [prepared.nameOf] at named
    exact ⟨iri, Option.some.inj same ▸ named⟩

end Chained

/-- Materialization keeps the database well formed exactly where the schema is
proper. -/
theorem wellFormed_materializeRdfs {count : Nat} (wellFormed : s.WellFormed) (valid : s.Valid)
    (ran : s.materializeRdfs = some (after, count)) :
    after.WellFormed ↔ ProperSchema s.dict s.store := by
  rcases Option.map_eq_some_iff.mp ran with ⟨⟨grown, closed, added⟩, derived, result⟩
  cases result
  rcases materialize_cases valid.store derived with ⟨voc, ready, least⟩
  have prepared := prepare_spec valid.dict ready
  rcases recordInferred_eq (s := { s with dict := grown, store := closed }) added with
    ⟨sameDict, sameTriples⟩
  constructor
  · intro closedWell
    apply properSchema_of_chained ready valid.dict
    intro triple member
    have held : triple ∈ stored closed := least ▸ member
    have proper := closedWell.triples none triple (sameTriples ▸ held)
    rwa [sameDict] at proper
  · intro schema
    apply wellFormed.inferred valid prepared.valid prepared.grows
    · intro id text resolved
      rw [entities_prepare ready] at resolved
      exact wellFormed.entities id text resolved
    · rw [least]
      apply properId_chained ready valid.dict wellFormed.entities schema
      intro triple member
      exact (wellFormed.triples none triple member).grow prepared.grows valid.dict prepared.valid

end Rules

theorem WellFormed.reclaimUnused {s : Session} (wellFormed : s.WellFormed) (valid : s.Valid) :
    s.reclaimUnused.1.WellFormed := by
  have entities := (Interner.reclaim_spec valid.dict.entities s.usedEntLit).2.1
  have predicates := (Interner.reclaim_spec valid.dict.predicates s.usedPred).2.1
  constructor
  · intro id text resolved
    change (s.dict.entities.reclaim s.usedEntLit).1.resolve id = some text at resolved
    rw [entities] at resolved
    split at resolved
    · exact wellFormed.entities id text resolved
    · cases resolved
  · intro graph triple member
    rcases used_of_mem valid member with ⟨sub, pred, -⟩
    rcases wellFormed.triples graph triple member with ⟨⟨text, resolved, entity⟩, iri, predicate⟩
    refine ⟨⟨text, ?_, entity⟩, iri, ?_⟩
    · change (s.dict.entities.reclaim s.usedEntLit).1.resolve triple.sub = some text
      rw [entities, if_pos sub, resolved]
    · change (s.dict.predicates.reclaim s.usedPred).1.resolve triple.pred = some (key iri)
      rw [predicates, if_pos pred, predicate]

/-! ## Requests -/

section Requests

variable {Pattern Function : Type} {engine : Engine Pattern Function} {s after : Session}

/-- No row fills a template with a literal for its subject or with anything but
an IRI for its predicate. -/
def ProperTemplates (dict : Dictionary) (unicode : Alphanumeric) (solutions : Solutions)
    (templates : List TriplePattern) : Prop :=
  ∀ row ∈ solutions.rows, ∀ pattern ∈ templates, ∀ subject predicate object,
    solutions.resolveTemplate dict unicode row false pattern.subject = some subject →
    solutions.resolveTemplate dict unicode row true pattern.predicate = some predicate →
    solutions.resolveTemplate dict unicode row false pattern.object = some object →
    subject.isLiteral = false ∧ ∃ iri, predicate = .iri iri

/-- What an operation inserts is RDF. Of a document this asks that no statement
has a literal for its subject or a blank node for its predicate: the Turtle parser
lets both pass. -/
def ProperOp (engine : Engine Pattern Function) (s : Session) : UpdateOp (Modify Pattern) → Prop
  | .insertData triples => ∀ ground ∈ triples, ground.triple.Proper
  | .modify request => ProperTemplates s.dict engine.unicode
      (engine.solveUpdate s.dict s.store.source request.pattern) request.insert
  | .load source _ => isRemote source = false →
      ∀ triples, engine.parseFile (localPath source) = .ok triples →
        ∀ triple ∈ triples, triple.subject.isLiteral = false ∧
          ∀ label, triple.predicate ≠ .blank label
  | _ => True

theorem proper_instances {templates : List TriplePattern} {dict : Dictionary}
    {unicode : Alphanumeric} {solutions : Solutions}
    (proper : ProperTemplates dict unicode solutions templates) :
    ∀ triple ∈ solutions.instances dict unicode templates, triple.Proper := by
  intro triple member
  rcases Solutions.mem_instances member with ⟨row, rowMember, pattern, patternMember, filled⟩
  simp only [Solutions.instantiateTemplate, Option.bind_eq_bind, Option.bind_eq_some_iff,
    Option.pure_def, Option.some.injEq] at filled
  rcases filled with ⟨subject, first, predicate, second, object, third, rfl⟩
  rcases proper row rowMember pattern patternMember _ _ _ first second third with ⟨entity, iri, named⟩
  exact ⟨entity, iri, named⟩

theorem proper_inDefault {triples : List Triple} (proper : ∀ triple ∈ triples, triple.Proper) :
    ∀ ground ∈ triples.map inDefault, ground.triple.Proper := by
  intro ground member
  rcases List.mem_map.mp member with ⟨triple, here, rfl⟩
  exact proper triple here

theorem proper_inserts {op : UpdateOp (Modify Pattern)} (proper : ProperOp engine s op) :
    ∀ ground ∈ s.inserts engine.host op, ground.triple.Proper := by
  cases op with
  | insertData triples => exact proper
  | modify request => exact proper_inDefault (proper_instances proper)
  | load source silent =>
    rw [inserts]
    split
    · exact List.forall_mem_nil _
    · rename_i near
      apply proper_inDefault
      intro triple member
      cases parsed : engine.parseFile (localPath source) with
      | error message =>
        rw [show engine.host.parseFile _ = _ from parsed] at member
        cases member
      | ok triples =>
        rw [show engine.host.parseFile _ = _ from parsed] at member
        have read := proper (Bool.eq_false_iff.mpr near) triples parsed triple member
        have verb := engine.predicate_of_parseFile parsed triple member
        refine ⟨read.1, ?_⟩
        cases shape : triple.predicate with
        | iri iri => exact ⟨iri, rfl⟩
        | blank label => exact absurd shape (read.2 label)
        | literal value datatype lang =>
          rw [shape] at verb
          cases verb
  | _ => exact List.forall_mem_nil _

theorem WellFormed.execUpdateOp {op : UpdateOp (Modify Pattern)} {outcome : Except DbError Nat}
    (wellFormed : s.WellFormed) (valid : s.Valid) (proper : ProperOp engine s op)
    (ran : s.execUpdateOp engine.host op = some (outcome, after)) : after.WellFormed := by
  rcases execUpdateOp_cases ran with ⟨target, silent, -, rfl⟩ | ⟨-, count, inserted⟩
  · exact wellFormed.reduced (reduced_clearTarget valid target)
  · have reduced := wellFormed.reduced (reduced_deleteAll (s.deletes engine.host op) valid)
    exact WellFormed.insertAll _ reduced (logged_deleteAll _ valid).valid (proper_inserts proper)
      inserted

/-- Each operation is proper where it runs. -/
def ProperOps (engine : Engine Pattern Function) : Session → List (UpdateOp (Modify Pattern)) → Prop
  | _, [] => True
  | s, op :: rest => ProperOp engine s op ∧
      ∀ changed after, s.execUpdateOp engine.host op = some (.ok changed, after) →
        ProperOps engine after rest

theorem WellFormed.execOps (ops : List (UpdateOp (Modify Pattern))) :
    ∀ {s after : Session} {outcome : Except DbError Nat}, s.WellFormed → s.Valid →
      ProperOps engine s ops → s.execOps engine.host ops = some (outcome, after) →
      after.WellFormed := by
  induction ops with
  | nil =>
    intro s after outcome wellFormed _ _ ran
    cases ran
    exact wellFormed
  | cons op rest induction =>
    intro s after outcome wellFormed valid proper ran
    rcases execOps_cases ran with ⟨error, failed⟩ | ⟨changed, middle, further, here, later⟩
    · exact wellFormed.execUpdateOp valid proper.1 failed
    · exact induction (wellFormed.execUpdateOp valid proper.1 here)
        (logged_execUpdateOp valid here).valid (proper.2 _ _ here) later

theorem WellFormed.query {sparql : Text} {outcome : Except DbError Nat} (wellFormed : s.WellFormed)
    (valid : s.Valid) (proper : ∀ ops, engine.parse sparql = .ok ops → ProperOps engine s ops)
    (ran : s.query engine.host sparql = some (outcome, after)) : after.WellFormed := by
  rcases query_cases ran with ⟨rfl, -⟩ | ⟨ops, answer, last, updateLog, parsed, applied, rfl, -⟩
  · exact wellFormed
  · have kept := WellFormed.execOps ops wellFormed valid (proper ops parsed) applied
    exact ⟨kept.entities, kept.triples⟩

end Requests

/-! ## Runs -/

section Runs

variable {Pattern Function : Type} {s after last : Session}

/-- The call brings nothing into the database that is no RDF. -/
def ProperCall (s : Session) : Call Pattern Function → Prop
  | .request engine sparql => ∀ ops, engine.parse sparql = .ok ops → ProperOps engine s ops
  | .insertTriple triple => triple.Proper
  | .materializeRdfs => ProperSchema s.dict s.store
  | _ => True

/-- Every call of a run is proper where it is made. -/
def ProperRun : Session → List (Call Pattern Function) → Prop
  | _, [] => True
  | s, call :: rest => s.ProperCall call ∧
      ∀ after, s.apply call.mutation = some after → ProperRun after rest

theorem WellFormed.apply {call : Call Pattern Function} (wellFormed : s.WellFormed) (valid : s.Valid)
    (proper : s.ProperCall call) (ran : s.apply call.mutation = some after) : after.WellFormed := by
  cases call with
  | request engine sparql =>
    rcases Option.map_eq_some_iff.mp ran with ⟨⟨outcome, last⟩, answered, rfl⟩
    exact wellFormed.query valid proper answered
  | insertTriple triple =>
    rcases Option.map_eq_some_iff.mp ran with ⟨⟨last, changed⟩, inserted, rfl⟩
    have quad : s.insertQuad triple none = some (last, changed) := inserted
    exact wellFormed.insertQuad valid proper quad
  | removeTriple triple =>
    cases ran
    exact wellFormed.reduced (reduced_deleteQuad valid triple none)
  | materializeRdfs =>
    rcases Option.map_eq_some_iff.mp ran with ⟨⟨last, count⟩, reasoned, rfl⟩
    exact (wellFormed_materializeRdfs wellFormed valid reasoned).mpr proper
  | runRules fuel rules =>
    rcases Option.map_eq_some_iff.mp ran with ⟨⟨last, count⟩, reasoned, rfl⟩
    exact wellFormed.runRules valid reasoned
  | reclaimUnused =>
    cases ran
    exact wellFormed.reclaimUnused valid

theorem WellFormed.run (calls : List (Call Pattern Function)) :
    ∀ {s : Session}, s.WellFormed → s.Consistent → s.ProperRun calls →
      s.run (calls.map Call.mutation) = some last → last.WellFormed := by
  induction calls with
  | nil =>
    intro s wellFormed _ _ ran
    cases ran
    exact wellFormed
  | cons call rest induction =>
    intro s wellFormed consistent proper ran
    rcases Option.bind_eq_some_iff.mp ran with ⟨middle, here, further⟩
    exact induction (wellFormed.apply consistent.valid proper.1 here) (consistent.apply here)
      (proper.2 middle here) further

/-! ### Builds -/

structure EncodedAll (dict grown : Dictionary) (ids : List IdTriple) : Prop where
  valid : grown.Valid
  grows : dict.Extends grown
  keys : EntityKeys grown
  proper : ∀ id ∈ ids, ProperId grown id

theorem encodeAll_spec (triples : List Triple) :
    ∀ {dict grown : Dictionary} {ids : List IdTriple}, dict.Valid → EntityKeys dict →
      (∀ triple ∈ triples, triple.Proper) → encodeAll dict triples = some (grown, ids) →
      EncodedAll dict grown ids := by
  induction triples with
  | nil =>
    intro dict grown ids valid keys _ ran
    cases ran
    exact ⟨valid, .refl _, keys, by simp⟩
  | cons triple rest induction =>
    intro dict grown ids valid keys proper ran
    simp only [encodeAll, Option.bind_eq_bind, Option.bind_eq_some_iff, Prod.exists] at ran
    rcases ran with ⟨middle, id, encoded, last, further, later, result⟩
    cases result
    have here := proper triple List.mem_cons_self
    rcases Dictionary.encodeTriple_spec valid encoded with ⟨middleValid, grows, known⟩
    have rest := induction middleValid (entityKeys_encodeTriple valid keys here encoded)
      (fun other member => proper other (List.mem_cons_of_mem _ member)) later
    refine ⟨rest.valid, grows.trans rest.grows, rest.keys, ?_⟩
    intro other member
    rcases List.mem_cons.mp member with rfl | member
    · exact (properId_of_lookup middleValid here known).grow rest.grows middleValid rest.valid
    · exact rest.proper other member

/-- The ids of any triples are those of strings. -/
theorem live_encodeAll (triples : List Triple) :
    ∀ {dict grown : Dictionary} {ids : List IdTriple}, dict.Valid →
      encodeAll dict triples = some (grown, ids) →
      grown.Valid ∧ dict.Extends grown ∧ ∀ id ∈ ids, grown.Live id := by
  induction triples with
  | nil =>
    intro dict grown ids valid ran
    cases ran
    exact ⟨valid, .refl _, by simp⟩
  | cons triple rest induction =>
    intro dict grown ids valid ran
    simp only [encodeAll, Option.bind_eq_bind, Option.bind_eq_some_iff, Prod.exists] at ran
    rcases ran with ⟨middle, id, encoded, last, further, later, result⟩
    cases result
    rcases Dictionary.encodeTriple_spec valid encoded with ⟨middleValid, grows, known⟩
    rcases induction middleValid later with ⟨lastValid, growsOn, live⟩
    refine ⟨lastValid, grows.trans growsOn, ?_⟩
    intro other member
    rcases List.mem_cons.mp member with same | member
    · rw [same]
      have here := Dictionary.live_of_lookup middleValid known
      exact (growsOn.agrees middleValid lastValid here).live here
    · exact live other member

theorem triples_built {dict : Dictionary} {ids : List IdTriple} (graph : Option UInt32) :
    ∀ triple ∈ Session.triples
      { new false false with dict, store := TripleStore.new.bulkLoad ids } graph, triple ∈ ids := by
  intro triple member
  have held : stored (TripleStore.new.bulkLoad ids) = {id | id ∈ ids} := by
    rw [stored_eq (refines_new.bulkLoad ids)]
    ext id
    simp
  cases graph with
  | none =>
    change triple ∈ stored _ at member
    rw [held] at member
    exact member
  | some gid =>
    rcases member with ⟨store, found, -⟩
    simp [new] at found

theorem consistent_build {triples : List Triple} (built : build triples = some s) :
    s.Consistent := by
  rcases Option.map_eq_some_iff.mp built with ⟨⟨dict, ids⟩, encoded, result⟩
  rcases live_encodeAll triples Dictionary.valid_empty encoded with ⟨valid, -, live⟩
  cases result
  refine ⟨⟨valid, ⟨_, refines_new.bulkLoad ids⟩, by simp [new]⟩,
    ⟨fun graph triple member => live triple (triples_built graph triple member), ?_⟩, fun _ => rfl⟩
  rintro gid ⟨store, found⟩
  simp [new] at found

theorem wellFormed_build {triples : List Triple} (proper : ∀ triple ∈ triples, triple.Proper)
    (built : build triples = some s) : s.WellFormed ∧ s.Consistent := by
  refine ⟨?_, consistent_build built⟩
  rcases Option.map_eq_some_iff.mp built with ⟨⟨dict, ids⟩, encoded, result⟩
  have keys : EntityKeys Dictionary.empty := by
    intro id text resolved
    simp [Dictionary.empty, Interner.empty, Interner.resolve] at resolved
  have spec := encodeAll_spec triples Dictionary.valid_empty keys proper encoded
  cases result
  exact ⟨spec.keys, fun graph triple member => spec.proper triple (triples_built graph triple member)⟩

/-- What a document gives is RDF: no subject is a literal, and no predicate is a
blank node or, in N-Triples, a literal. -/
def ProperDocument (unicode : Alphanumeric) (fuel : Nat) (document : Document) : Prop :=
  ∀ triples, document.triples unicode fuel = some triples → ∀ triple ∈ triples,
    triple.subject.isLiteral = false ∧ (∀ label, triple.predicate ≠ .blank label) ∧
      ∀ content, document = .ntriples content → triple.predicate.isLiteral = false

theorem proper_document {unicode : Alphanumeric} {fuel : Nat} {document : Document}
    {triples : List Triple} (proper : ProperDocument unicode fuel document)
    (parsed : document.triples unicode fuel = some triples) :
    ∀ triple ∈ triples, triple.Proper := by
  intro triple member
  rcases proper triples parsed triple member with ⟨entity, blank, nTriples⟩
  have verb : triple.predicate.isLiteral = false := by
    cases document with
    | turtle content =>
      rw [Document.triples] at parsed
      cases read : Turtle.parseStr unicode fuel content with
      | error problem =>
        rw [read] at parsed
        cases parsed
      | ok found =>
        rw [read] at parsed
        cases parsed
        exact Turtle.predicate_of_parseStr read triple member
    | ntriples content => exact nTriples content rfl
  refine ⟨entity, ?_⟩
  cases shape : triple.predicate with
  | iri iri => exact ⟨iri, rfl⟩
  | blank label => exact absurd shape (blank label)
  | literal value datatype lang =>
    rw [shape] at verb
    cases verb

/-- From a document on, every database that proper calls reach is well formed. -/
theorem wellFormed_reached {unicode : Alphanumeric} {fuel : Nat} {document : Document}
    {triples : List Triple} {calls : List (Call Pattern Function)}
    (parsed : document.triples unicode fuel = some triples)
    (sound : ProperDocument unicode fuel document) (built : build triples = some s)
    (proper : s.ProperRun calls) (ran : s.run (calls.map Call.mutation) = some last) :
    last.WellFormed := by
  rcases wellFormed_build (proper_document sound parsed) built with ⟨wellFormed, consistent⟩
  exact WellFormed.run calls wellFormed consistent proper ran

set_option maxRecDepth 8192 in
theorem wellFormed_reached_insert : ∃ triples s last,
    (Document.turtle "<a> <p> \"x\" .".toList).triples asciiOnly 10 = some triples ∧
      build triples = some s ∧
      s.run ([.materializeRdfs, .insertTriple (ground "c" "q" "d")].map
        (Call.mutation : Call Unit Unit → _)) = some last ∧ last.WellFormed := by
  have runs : (((Document.turtle "<a> <p> \"x\" .".toList).triples asciiOnly 10).bind fun triples =>
      (build triples).bind fun s => (prepare s.dict s.store).bind fun ready =>
        (s.run ([.materializeRdfs, .insertTriple (ground "c" "q" "d")].map
          (Call.mutation : Call Unit Unit → _))).map fun _ =>
            (triples, ready.2.rngP, ready.2.spoP)) =
      some ([⟨.iri ['a'], .iri ['p'], .literal ['x'] none none⟩], none, none) := by
    decide +kernel
  rcases Option.bind_eq_some_iff.mp runs with ⟨triples, parsed, runs⟩
  rcases Option.bind_eq_some_iff.mp runs with ⟨s, built, runs⟩
  rcases Option.bind_eq_some_iff.mp runs with ⟨⟨grown, voc⟩, ready, runs⟩
  rcases Option.map_eq_some_iff.mp runs with ⟨last, ran, found⟩
  simp only [Prod.mk.injEq] at found
  rcases found with ⟨shape, rng, spo⟩
  have sound : ProperDocument asciiOnly 10 (.turtle "<a> <p> \"x\" .".toList) := by
    intro again parsedAgain triple member
    rw [parsed, shape] at parsedAgain
    cases parsedAgain
    rw [List.mem_singleton.mp member]
    simp [Term.isLiteral]
  have schema : ProperSchema s.dict s.store := by
    constructor
    · intro _ _ again _ _ _ _ _ _ resolved
      rw [ready] at again
      cases again
      rw [rng] at resolved
      cases resolved
    · intro _ _ again _ _ _ _ _ _ _ resolved
      rw [ready] at again
      cases again
      rw [spo] at resolved
      cases resolved
  have proper : s.ProperRun [(.materializeRdfs : Call Unit Unit),
      .insertTriple (ground "c" "q" "d")] :=
    ⟨schema, fun _ _ => ⟨⟨rfl, _, rfl⟩, fun _ _ => trivial⟩⟩
  exact ⟨triples, s, last, parsed, built, ran, wellFormed_reached parsed sound built proper ran⟩

/-- `<a> <p> "x" . <p> rdfs:range <C> .` in N-Triples: materialization makes the
literal a subject. -/
def rangeOfLiteral : Document :=
  .ntriples "<a> <p> \"x\" .\n<p> <http://www.w3.org/2000/01/rdf-schema#range> <C> .\n".toList

set_option maxRecDepth 8192 in
theorem range_types_a_literal : ¬ ∀ (document : Document) (triples : List Triple) (s last : Session)
    (calls : List (Call Unit Unit)), document.triples asciiOnly 10 = some triples →
      build triples = some s → s.run (calls.map Call.mutation) = some last → last.WellFormed := by
  intro always
  have runs : ((rangeOfLiteral.triples asciiOnly 10).bind fun triples =>
      (build triples).bind fun s =>
        (s.run ([.materializeRdfs].map (Call.mutation : Call Unit Unit → _))).map fun last =>
          (last.store.exists 2000000000 2 2, last.dict.entities.resolve 2000000000)) =
      some (true, none) := by
    decide +kernel
  rcases Option.bind_eq_some_iff.mp runs with ⟨triples, parsed, runs⟩
  rcases Option.bind_eq_some_iff.mp runs with ⟨s, built, runs⟩
  rcases Option.map_eq_some_iff.mp runs with ⟨last, ran, found⟩
  simp only [Prod.mk.injEq] at found
  have wellFormed := always _ _ _ _ _ parsed built ran
  rcases (wellFormed.triples none ⟨2000000000, 2, 2⟩ found.1).subject with ⟨text, entity, -⟩
  rw [found.2] at entity
  cases entity

end Runs

end Session

end GStore.Db
