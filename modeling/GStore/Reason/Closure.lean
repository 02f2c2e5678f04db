import GStore.Db.Database
import GStore.Reason.Rdfs

/-! # What materialization closes

The RDFS rules are stated on facts whose predicate is a key, so that they say
nothing about which keys have a predicate id. A round applies those instances
whose vocabulary was known when the run began and whose properties have a
predicate id. -/

namespace GStore.Reason

open Dict Store

/-! ## The rules -/

/-- A triple with its predicate written out. -/
structure Fact where
  sub : UInt32
  pred : Text
  obj : UInt32

def factsOf (dict : Dictionary) (triples : Set IdTriple) : Set Fact :=
  {fact | ∃ pred, dict.predicateId fact.pred = some pred ∧ ⟨fact.sub, pred, fact.obj⟩ ∈ triples}

/-- The implemented rules; `nameOf` is the string of an entity or literal. -/
structure RdfsClosed (nameOf : UInt32 → Option Text) (facts : Set Fact) : Prop where
  subClass : ∀ lower middle upper, ⟨lower, key rdfsSubclass, middle⟩ ∈ facts →
    ⟨middle, key rdfsSubclass, upper⟩ ∈ facts → lower ≠ upper →
    ⟨lower, key rdfsSubclass, upper⟩ ∈ facts
  types : ∀ sub lower upper, ⟨sub, key rdfType, lower⟩ ∈ facts →
    ⟨lower, key rdfsSubclass, upper⟩ ∈ facts → ⟨sub, key rdfType, upper⟩ ∈ facts
  subProperty : ∀ lower middle upper, ⟨lower, key rdfsSubprop, middle⟩ ∈ facts →
    ⟨middle, key rdfsSubprop, upper⟩ ∈ facts → lower ≠ upper →
    ⟨lower, key rdfsSubprop, upper⟩ ∈ facts
  properties : ∀ lower upper lowerKey upperKey sub obj, nameOf lower = some lowerKey →
    nameOf upper = some upperKey → ⟨lower, key rdfsSubprop, upper⟩ ∈ facts →
    ⟨sub, lowerKey, obj⟩ ∈ facts → ⟨sub, upperKey, obj⟩ ∈ facts
  domain : ∀ property propertyKey cls sub obj, nameOf property = some propertyKey →
    ⟨property, key rdfsDomain, cls⟩ ∈ facts → ⟨sub, propertyKey, obj⟩ ∈ facts →
    ⟨sub, key rdfType, cls⟩ ∈ facts
  range : ∀ property propertyKey cls sub obj, nameOf property = some propertyKey →
    ⟨property, key rdfsRange, cls⟩ ∈ facts → ⟨sub, propertyKey, obj⟩ ∈ facts →
    ⟨obj, key rdfType, cls⟩ ∈ facts

/-- What one round derives. -/
inductive Entails (dict : Dictionary) (voc : Vocabulary) (known : Set IdTriple) : IdTriple → Prop
  | subClass {sco lower middle upper : UInt32} (resolved : voc.scoP = some sco)
      (first : ⟨lower, sco, middle⟩ ∈ known) (second : ⟨middle, sco, upper⟩ ∈ known)
      (apart : lower ≠ upper) : Entails dict voc known ⟨lower, sco, upper⟩
  | types {sco typeP sub lower upper : UInt32} (resolved : voc.scoP = some sco)
      (typed : voc.typeP = some typeP) (first : ⟨sub, typeP, lower⟩ ∈ known)
      (second : ⟨lower, sco, upper⟩ ∈ known) : Entails dict voc known ⟨sub, typeP, upper⟩
  | subProperty {spo lower middle upper : UInt32} (resolved : voc.spoP = some spo)
      (first : ⟨lower, spo, middle⟩ ∈ known) (second : ⟨middle, spo, upper⟩ ∈ known)
      (apart : lower ≠ upper) : Entails dict voc known ⟨lower, spo, upper⟩
  | properties {spo lower upper lowerPred upperPred sub obj : UInt32}
      (resolved : voc.spoP = some spo) (below : entToPred dict lower = some lowerPred)
      (above : entToPred dict upper = some upperPred) (first : ⟨lower, spo, upper⟩ ∈ known)
      (second : ⟨sub, lowerPred, obj⟩ ∈ known) (apart : lowerPred ≠ upperPred) :
      Entails dict voc known ⟨sub, upperPred, obj⟩
  | domain {dom typeP property pred cls sub obj : UInt32} (resolved : voc.domP = some dom)
      (typed : voc.typeP = some typeP) (named : entToPred dict property = some pred)
      (first : ⟨property, dom, cls⟩ ∈ known) (second : ⟨sub, pred, obj⟩ ∈ known) :
      Entails dict voc known ⟨sub, typeP, cls⟩
  | range {rng typeP property pred cls sub obj : UInt32} (resolved : voc.rngP = some rng)
      (typed : voc.typeP = some typeP) (named : entToPred dict property = some pred)
      (first : ⟨property, rng, cls⟩ ∈ known) (second : ⟨sub, pred, obj⟩ ∈ known) :
      Entails dict voc known ⟨obj, typeP, cls⟩

theorem monotone_entails (dict : Dictionary) (voc : Vocabulary) :
    MonotoneRules (Entails dict voc) := by
  intro known more within fact derived
  cases derived with
  | subClass resolved first second apart =>
    exact .subClass resolved (within first) (within second) apart
  | types resolved typed first second => exact .types resolved typed (within first) (within second)
  | subProperty resolved first second apart =>
    exact .subProperty resolved (within first) (within second) apart
  | properties resolved below above first second apart =>
    exact .properties resolved below above (within first) (within second) apart
  | domain resolved typed named first second =>
    exact .domain resolved typed named (within first) (within second)
  | range resolved typed named first second =>
    exact .range resolved typed named (within first) (within second)

/-! ## A round lists what it derives -/

section Round

variable {dict : Dictionary} {store : TripleStore} {triples : Finset IdTriple}

theorem mem_objectsOf {pairs : List (UInt32 × UInt32)} {sub obj : UInt32} :
    obj ∈ objectsOf pairs sub ↔ (sub, obj) ∈ pairs := by
  simp [objectsOf]

section Lists

variable (refines : Refines store triples)

include refines

theorem mem_soByP {pred sub obj : UInt32} :
    (sub, obj) ∈ store.soByP pred ↔ ⟨sub, pred, obj⟩ ∈ triples :=
  (refines.source_describes.soByP pred).mem_iff (sub, obj)

theorem mem_transitive {pred : UInt32} {triple : IdTriple} :
    triple ∈ transitive store pred ↔ ∃ lower middle upper, ⟨lower, pred, middle⟩ ∈ triples ∧
      ⟨middle, pred, upper⟩ ∈ triples ∧ lower ≠ upper ∧ triple = ⟨lower, pred, upper⟩ := by
  simp only [transitive, List.mem_flatMap, Prod.exists, mem_soByP refines, List.mem_map,
    List.mem_filter, mem_objectsOf, ne_eq, decide_not, Bool.not_eq_true', decide_eq_false_iff_not]
  constructor
  · rintro ⟨lower, middle, first, upper, ⟨second, apart⟩, rfl⟩
    exact ⟨lower, middle, upper, first, second, apart, rfl⟩
  · rintro ⟨lower, middle, upper, first, second, apart, rfl⟩
    exact ⟨lower, middle, first, upper, ⟨second, apart⟩, rfl⟩

theorem mem_propagateTypes {typeP sco : UInt32} {triple : IdTriple} :
    triple ∈ propagateTypes store typeP sco ↔ ∃ sub lower upper, ⟨sub, typeP, lower⟩ ∈ triples ∧
      ⟨lower, sco, upper⟩ ∈ triples ∧ triple = ⟨sub, typeP, upper⟩ := by
  simp only [propagateTypes, List.mem_flatMap, Prod.exists, mem_soByP refines, List.mem_map,
    mem_objectsOf]
  constructor
  · rintro ⟨sub, lower, first, upper, second, rfl⟩
    exact ⟨sub, lower, upper, first, second, rfl⟩
  · rintro ⟨sub, lower, upper, first, second, rfl⟩
    exact ⟨sub, lower, first, upper, second, rfl⟩

theorem mem_propagateProperties {spo : UInt32} {triple : IdTriple} :
    triple ∈ propagateProperties dict store spo ↔
      ∃ lower upper lowerPred upperPred sub obj, entToPred dict lower = some lowerPred ∧
        entToPred dict upper = some upperPred ∧ ⟨lower, spo, upper⟩ ∈ triples ∧
        ⟨sub, lowerPred, obj⟩ ∈ triples ∧ lowerPred ≠ upperPred ∧
        triple = ⟨sub, upperPred, obj⟩ := by
  simp only [propagateProperties, List.mem_flatMap, Prod.exists, mem_soByP refines]
  constructor
  · rintro ⟨lower, upper, first, listed⟩
    split at listed
    · rename_i lowerPred upperPred below above
      split at listed
      · cases listed
      · rename_i apart
        simp only [List.mem_map, Prod.exists, mem_soByP refines] at listed
        rcases listed with ⟨sub, obj, second, rfl⟩
        exact ⟨lower, upper, lowerPred, upperPred, sub, obj, below, above, first, second, apart, rfl⟩
    · cases listed
  · rintro ⟨lower, upper, lowerPred, upperPred, sub, obj, below, above, first, second, apart, rfl⟩
    refine ⟨lower, upper, first, ?_⟩
    simp only [below, above, if_neg apart, List.mem_map, Prod.exists, mem_soByP refines]
    exact ⟨sub, obj, second, rfl⟩

theorem mem_typeEnds {typeP schema : UInt32} {side : UInt32 × UInt32 → UInt32}
    {triple : IdTriple} :
    triple ∈ typeEnds dict store typeP schema side ↔
      ∃ property pred cls sub obj, entToPred dict property = some pred ∧
        ⟨property, schema, cls⟩ ∈ triples ∧ ⟨sub, pred, obj⟩ ∈ triples ∧
        triple = ⟨side (sub, obj), typeP, cls⟩ := by
  simp only [typeEnds, List.mem_flatMap, Prod.exists, mem_soByP refines]
  constructor
  · rintro ⟨property, cls, first, listed⟩
    split at listed
    · rename_i pred named
      simp only [List.mem_map, Prod.exists, mem_soByP refines] at listed
      rcases listed with ⟨sub, obj, second, rfl⟩
      exact ⟨property, pred, cls, sub, obj, named, first, second, rfl⟩
    · cases listed
  · rintro ⟨property, pred, cls, sub, obj, named, first, second, rfl⟩
    refine ⟨property, cls, first, ?_⟩
    simp only [named, List.mem_map, Prod.exists, mem_soByP refines]
    exact ⟨sub, obj, second, rfl⟩

theorem mem_gather {voc : Vocabulary} {triple : IdTriple} :
    triple ∈ gather dict store voc ↔ Entails dict voc (triples : Set IdTriple) triple := by
  rcases voc with ⟨typeP, scoP, spoP, domP, rngP⟩
  simp only [gather, List.mem_append]
  constructor
  · rintro (((listed | listed) | listed) | listed)
    · cases scoP with
      | none => cases listed
      | some sco =>
        rcases List.mem_append.mp listed with listed | listed
        · rcases (mem_transitive refines).mp listed with ⟨lower, middle, upper, first, second, apart, rfl⟩
          exact .subClass rfl first second apart
        · cases typeP with
          | none => cases listed
          | some typeP =>
            rcases (mem_propagateTypes refines).mp listed with ⟨sub, lower, upper, first, second, rfl⟩
            exact .types rfl rfl first second
    · cases spoP with
      | none => cases listed
      | some spo =>
        rcases List.mem_append.mp listed with listed | listed
        · rcases (mem_transitive refines).mp listed with ⟨lower, middle, upper, first, second, apart, rfl⟩
          exact .subProperty rfl first second apart
        · rcases (mem_propagateProperties refines).mp listed with
            ⟨lower, upper, lowerPred, upperPred, sub, obj, below, above, first, second, apart, rfl⟩
          exact .properties rfl below above first second apart
    · cases domP with
      | none => cases listed
      | some dom =>
        cases typeP with
        | none => cases listed
        | some typeP =>
          rcases (mem_typeEnds refines).mp listed with
            ⟨property, pred, cls, sub, obj, named, first, second, rfl⟩
          exact .domain rfl rfl named first second
    · cases rngP with
      | none => cases listed
      | some rng =>
        cases typeP with
        | none => cases listed
        | some typeP =>
          rcases (mem_typeEnds refines).mp listed with
            ⟨property, pred, cls, sub, obj, named, first, second, rfl⟩
          exact .range rfl rfl named first second
  · intro derived
    cases derived with
    | subClass resolved first second apart =>
      cases resolved
      refine .inl (.inl (.inl (List.mem_append_left _ ?_)))
      exact (mem_transitive refines).mpr ⟨_, _, _, first, second, apart, rfl⟩
    | types resolved typed first second =>
      cases resolved
      cases typed
      refine .inl (.inl (.inl (List.mem_append_right _ ?_)))
      exact (mem_propagateTypes refines).mpr ⟨_, _, _, first, second, rfl⟩
    | subProperty resolved first second apart =>
      cases resolved
      refine .inl (.inl (.inr (List.mem_append_left _ ?_)))
      exact (mem_transitive refines).mpr ⟨_, _, _, first, second, apart, rfl⟩
    | properties resolved below above first second apart =>
      cases resolved
      refine .inl (.inl (.inr (List.mem_append_right _ ?_)))
      exact (mem_propagateProperties refines).mpr
        ⟨_, _, _, _, _, _, below, above, first, second, apart, rfl⟩
    | domain resolved typed named first second =>
      cases resolved
      cases typed
      exact .inl (.inr ((mem_typeEnds refines).mpr ⟨_, _, _, _, _, named, first, second, rfl⟩))
    | range resolved typed named first second =>
      cases resolved
      cases typed
      exact .inr ((mem_typeEnds refines).mpr ⟨_, _, _, _, _, named, first, second, rfl⟩)

end Lists

end Round

/-! ## Interning before the rounds -/

section Prepare

variable {dict grown : Dictionary} {store : TripleStore} {voc : Vocabulary}

/-- The dictionary has grown by predicates only. -/
structure Renamed (dict grown : Dictionary) : Prop where
  valid : grown.Valid
  grows : dict.Extends grown
  nameOf : grown.idToString = dict.idToString

theorem Renamed.trans {middle : Dictionary} (first : Renamed dict middle)
    (second : Renamed middle grown) : Renamed dict grown where
  valid := second.valid
  grows := first.grows.trans second.grows
  nameOf := second.nameOf.trans first.nameOf

theorem renamed_internPredicate {text : Text} {id : UInt32} (valid : dict.Valid)
    (interned : dict.internPredicate text = some (grown, id)) : Renamed dict grown := by
  rcases Dictionary.internPredicate_spec valid interned with ⟨grownValid, grows, -⟩
  refine ⟨grownValid, grows, ?_⟩
  rw [Dictionary.internPredicate] at interned
  split at interned
  · cases interned
    rfl
  · cases interned

theorem renamed_internPredicates (keys : List Text) :
    ∀ {dict : Dictionary}, dict.Valid → internPredicates dict keys = some grown →
      Renamed dict grown := by
  induction keys with
  | nil =>
    intro dict valid interned
    cases interned
    exact ⟨valid, .refl _, rfl⟩
  | cons text rest induction =>
    intro dict valid interned
    rw [internPredicates, List.foldlM_cons] at interned
    rcases Option.bind_eq_some_iff.mp interned with ⟨middle, first, further⟩
    rcases Option.map_eq_some_iff.mp first with ⟨⟨_, id⟩, one, rfl⟩
    have renamed := renamed_internPredicate valid one
    exact renamed.trans (induction renamed.valid further)

/-- What the rounds run with. -/
structure Prepared (dict grown : Dictionary) (voc : Vocabulary) : Prop extends
    Renamed dict grown where
  sco : voc.scoP = dict.predicateId (key rdfsSubclass)
  spo : voc.spoP = dict.predicateId (key rdfsSubprop)
  dom : voc.domP = dict.predicateId (key rdfsDomain)
  rng : voc.rngP = dict.predicateId (key rdfsRange)
  typeP : ∀ typeP, voc.typeP = some typeP → grown.predicateId (key rdfType) = some typeP
  untyped : voc.typeP = none → voc.scoP = none ∧ voc.domP = none ∧ voc.rngP = none
  noSubprop : voc.spoP = none → grown.predicateId (key rdfsSubprop) = none

theorem internType_spec (valid : dict.Valid) (interned : internType dict = some grown) :
    Renamed dict grown ∧
      (dict.predicateId (key rdfsSubprop) = none → grown.predicateId (key rdfsSubprop) = none) ∧
      (grown.predicateId (key rdfType) = none → dict.predicateId (key rdfsSubclass) = none ∧
        dict.predicateId (key rdfsDomain) = none ∧ dict.predicateId (key rdfsRange) = none) := by
  simp only [internType] at interned
  split at interned
  · rcases Option.map_eq_some_iff.mp interned with ⟨⟨_, id⟩, one, rfl⟩
    rcases Dictionary.internPredicate_spec valid one with ⟨-, -, found⟩
    refine ⟨renamed_internPredicate valid one, ?_, fun unknown => absurd found (by simp [unknown])⟩
    intro unknown
    rw [Dictionary.internPredicate] at one
    split at one
    · rename_i predicates index entry
      cases one
      have apart : key rdfsSubprop ≠ key rdfType := by decide
      exact (Interner.get_intern entry).trans ((if_neg apart).trans unknown)
    · cases one
  · rename_i none
    cases interned
    refine ⟨⟨valid, .refl _, rfl⟩, id, ?_⟩
    intro _
    simpa [knownVocabulary, not_or, and_assoc] using none

theorem prepare_spec (valid : dict.Valid) (prepared : prepare dict store = some (grown, voc)) :
    Prepared dict grown voc := by
  simp only [prepare, Option.bind_eq_bind, Option.bind_eq_some_iff] at prepared
  rcases prepared with ⟨typed, interned, prepared⟩
  rcases internType_spec valid interned with ⟨renamed, noSubprop, untyped⟩
  split at prepared
  · rename_i spo known
    simp only [Option.bind_eq_some_iff, Option.pure_def, Option.some.injEq, Prod.mk.injEq]
      at prepared
    rcases prepared with ⟨last, names, rfl, rfl⟩
    have further := renamed_internPredicates _ renamed.valid names
    refine { renamed.trans further with
      sco := rfl, spo := rfl, dom := rfl, rng := rfl
      typeP := fun typeP resolved => further.grows.predicates _ _ resolved
      untyped := fun none => untyped none
      noSubprop := fun none => ?_ }
    rw [known] at none
    cases none
  · rename_i unknown
    simp only [Option.pure_def, Option.some.injEq, Prod.mk.injEq] at prepared
    rcases prepared with ⟨rfl, rfl⟩
    exact { renamed with
      sco := rfl, spo := rfl, dom := rfl, rng := rfl
      typeP := fun typeP resolved => resolved
      untyped := fun none => untyped none
      noSubprop := fun none => noSubprop none }

end Prepare

/-! ## The rounds close the store -/

section Rounds

variable {dict grown : Dictionary} {store : TripleStore} {voc : Vocabulary}
  {triples : Finset IdTriple}

theorem card_le_roundLimit (triples : Finset IdTriple) : triples.card ≤ 2 ^ 96 := by
  let number (triple : IdTriple) : Nat :=
    (triple.sub.toNat * 2 ^ 32 + triple.pred.toNat) * 2 ^ 32 + triple.obj.toNat
  have below : ∀ triple ∈ triples, number triple ∈ Finset.range (2 ^ 96) := by
    intro triple _
    have sub := triple.sub.toNat_lt
    have pred := triple.pred.toNat_lt
    have obj := triple.obj.toNat_lt
    rw [Finset.mem_range]
    simp only [number]
    omega
  have injective : Set.InjOn number triples := by
    intro left _ right _ same
    have leftPred := left.pred.toNat_lt
    have leftObj := left.obj.toNat_lt
    have rightPred := right.pred.toNat_lt
    have rightObj := right.obj.toNat_lt
    simp only [number] at same
    have sub : left.sub = right.sub := UInt32.toNat_inj.mp (by omega)
    have pred : left.pred = right.pred := UInt32.toNat_inj.mp (by omega)
    have obj : left.obj = right.obj := UInt32.toNat_inj.mp (by omega)
    cases left
    cases right
    simp_all
  have bound := Finset.card_le_card_of_injOn number below injective
  rwa [Finset.card_range] at bound

theorem insertsInto_insert : InsertsInto TripleStore.insert Refines := by
  intro store known fact refines
  rcases refines.insert fact with ⟨grown, flag⟩
  exact ⟨grown, by rw [flag]; exact decide_eq_true_iff⟩

theorem materialize_eq (dict : Dictionary) (store : TripleStore) :
    materialize dict store = (prepare dict store).map fun ready =>
      (ready.1, saturate TripleStore.insert (fun store => gather ready.1 store ready.2) roundLimit
        store) := by
  simp only [materialize]
  split
  · rename_i none
    simp only [Bool.and_eq_true, Option.isNone_iff_eq_none] at none
    rcases none with ⟨⟨⟨sco, spo⟩, dom⟩, rng⟩
    have typed : internType dict = some dict := by simp [internType, sco, dom, rng]
    have ready : prepare dict store =
        some (dict, { knownVocabulary dict with typeP := dict.predicateId (key rdfType) }) := by
      simp [prepare, typed, spo]
    have quiet : gather dict store
        { knownVocabulary dict with typeP := dict.predicateId (key rdfType) } = [] := by
      simp [gather, sco, spo, dom, rng]
    rw [ready, Option.map_some, roundLimit, saturate, quiet]
    rfl
  · cases prepare dict store <;> rfl

/-- A run ends in the least set that the rounds close, and lists what it added. -/
theorem materialize_spec (refines : Refines store triples)
    (prepared : prepare dict store = some (grown, voc)) :
    ∃ (closed : TripleStore) (added : List IdTriple) (result : Finset IdTriple),
      materialize dict store = some (grown, closed, added) ∧ Refines closed result ∧
      (result : Set IdTriple) = chained (Entails grown voc) triples ∧ added.Nodup ∧
      ∀ triple, triple ∈ added ↔ triple ∈ result ∧ triple ∉ triples := by
  have enough : 2 ^ 96 < triples.card + roundLimit := by
    rw [roundLimit]
    omega
  rcases saturate_spec insertsInto_insert (fun refines _ => mem_gather refines)
    (monotone_entails grown voc) card_le_roundLimit roundLimit refines enough with
    ⟨result, closed, least, nodup, listed⟩
  refine ⟨_, _, result, ?_, closed, least, nodup, listed⟩
  rw [materialize_eq, prepared]
  rfl

end Rounds

/-! ## Rounds against rules -/

/-- Every predicate id in use is that of some key. -/
def Resolved (dict : Dictionary) (known : Set IdTriple) : Prop :=
  ∀ triple ∈ known, ∃ text, dict.predicateId text = some triple.pred

theorem predicateId_injective {dict : Dictionary} (valid : dict.Valid) {left right : Text}
    {pred : UInt32} (leftKnown : dict.predicateId left = some pred)
    (rightKnown : dict.predicateId right = some pred) : left = right := by
  have leftFound := (valid.predicates.get_iff left pred).mp leftKnown
  have rightFound := (valid.predicates.get_iff right pred).mp rightKnown
  exact Option.some.inj (leftFound.symm.trans rightFound)

theorem entToPred_eq_some {dict : Dictionary} {ent pred : UInt32} :
    entToPred dict ent = some pred ↔
      ∃ text, dict.idToString ent = some text ∧ dict.predicateId text = some pred := by
  rw [entToPred, Option.bind_eq_some_iff]

/-- Facts do not depend on what else a dictionary holds. -/
theorem factsOf_grow {dict grown : Dictionary} {known : Set IdTriple} (grows : dict.Extends grown)
    (valid : grown.Valid) (resolved : Resolved dict known) :
    factsOf grown known = factsOf dict known := by
  ext fact
  constructor
  · rintro ⟨pred, found, member⟩
    rcases resolved _ member with ⟨text, before⟩
    have same := predicateId_injective valid found (grows.predicates _ _ before)
    exact ⟨pred, same ▸ before, member⟩
  · rintro ⟨pred, found, member⟩
    exact ⟨pred, grows.predicates _ _ found, member⟩

section Rules

variable {dict grown : Dictionary} {voc : Vocabulary} {base known : Set IdTriple}

/-- No instance of a rule that the rounds leave out has something to add: those
of a vocabulary term that had no predicate id when the run began, and those that
would need a predicate id for a superproperty. -/
structure NothingLeftOut (grown : Dictionary) (voc : Vocabulary) (known : Set IdTriple) :
    Prop where
  subClass : voc.scoP = none → ∀ sco lower middle upper,
    grown.predicateId (key rdfsSubclass) = some sco → ⟨lower, sco, middle⟩ ∈ known →
    ⟨middle, sco, upper⟩ ∈ known → lower ≠ upper → ⟨lower, sco, upper⟩ ∈ known
  types : voc.scoP = none → ∀ sco typeP sub lower upper,
    grown.predicateId (key rdfsSubclass) = some sco → grown.predicateId (key rdfType) = some typeP →
    ⟨sub, typeP, lower⟩ ∈ known → ⟨lower, sco, upper⟩ ∈ known → ⟨sub, typeP, upper⟩ ∈ known
  properties : ∀ spo lower upper lowerPred upperKey sub obj, voc.spoP = some spo →
    entToPred grown lower = some lowerPred → grown.idToString upper = some upperKey →
    ⟨lower, spo, upper⟩ ∈ known → ⟨sub, lowerPred, obj⟩ ∈ known →
    ∃ upperPred, grown.predicateId upperKey = some upperPred
  domain : voc.domP = none → ∀ dom property pred cls sub obj,
    grown.predicateId (key rdfsDomain) = some dom → entToPred grown property = some pred →
    ⟨property, dom, cls⟩ ∈ known → ⟨sub, pred, obj⟩ ∈ known →
    ∃ typeP, grown.predicateId (key rdfType) = some typeP ∧ ⟨sub, typeP, cls⟩ ∈ known
  range : voc.rngP = none → ∀ rng property pred cls sub obj,
    grown.predicateId (key rdfsRange) = some rng → entToPred grown property = some pred →
    ⟨property, rng, cls⟩ ∈ known → ⟨sub, pred, obj⟩ ∈ known →
    ∃ typeP, grown.predicateId (key rdfType) = some typeP ∧ ⟨obj, typeP, cls⟩ ∈ known

theorem nothingLeftOut_of_closed (prepared : Prepared dict grown voc)
    (closed : RdfsClosed grown.idToString (factsOf grown known)) :
    NothingLeftOut grown voc known where
  subClass := by
    intro _ sco lower middle upper found first second apart
    rcases closed.subClass lower middle upper ⟨sco, found, first⟩ ⟨sco, found, second⟩ apart with
      ⟨pred, again, member⟩
    exact Option.some.inj (found.symm.trans again) ▸ member
  types := by
    intro _ sco typeP sub lower upper found typed first second
    rcases closed.types sub lower upper ⟨typeP, typed, first⟩ ⟨sco, found, second⟩ with
      ⟨pred, again, member⟩
    exact Option.some.inj (typed.symm.trans again) ▸ member
  properties := by
    intro spo lower upper lowerPred upperKey sub obj resolved below above first second
    rcases entToPred_eq_some.mp below with ⟨lowerKey, named, found⟩
    have schema : grown.predicateId (key rdfsSubprop) = some spo :=
      prepared.grows.predicates _ _ (prepared.spo.symm.trans resolved)
    rcases closed.properties lower upper lowerKey upperKey sub obj named above
      ⟨spo, schema, first⟩ ⟨lowerPred, found, second⟩ with ⟨pred, upperFound, -⟩
    exact ⟨pred, upperFound⟩
  domain := by
    intro _ dom property pred cls sub obj found property_ first second
    rcases entToPred_eq_some.mp property_ with ⟨text, named, predFound⟩
    exact closed.domain property text cls sub obj named ⟨dom, found, first⟩
      ⟨pred, predFound, second⟩
  range := by
    intro _ rng property pred cls sub obj found property_ first second
    rcases entToPred_eq_some.mp property_ with ⟨text, named, predFound⟩
    exact closed.range property text cls sub obj named ⟨rng, found, first⟩
      ⟨pred, predFound, second⟩

/-- A vocabulary term has one predicate id, known at the start or not. -/
theorem Prepared.known_or_none (prepared : Prepared dict grown voc) {slot : Option UInt32}
    {text : Text} {pred : UInt32} (initial : slot = dict.predicateId text)
    (found : grown.predicateId text = some pred) : slot = some pred ∨ slot = none := by
  cases slot with
  | none => exact .inr rfl
  | some other =>
    have later := prepared.grows.predicates _ _ initial.symm
    exact .inl (later.symm.trans found)

theorem Prepared.typeP_of_known (prepared : Prepared dict grown voc)
    (known : ¬ (voc.scoP = none ∧ voc.domP = none ∧ voc.rngP = none)) :
    ∃ typeP, voc.typeP = some typeP ∧ grown.predicateId (key rdfType) = some typeP := by
  cases typed : voc.typeP with
  | none => exact absurd (prepared.untyped typed) known
  | some typeP => exact ⟨typeP, rfl, prepared.typeP typeP typed⟩

/-- What the rounds close satisfies the rules if nothing was left out. -/
theorem closed_of_nothingLeftOut (prepared : Prepared dict grown voc)
    (rounds : ∀ triple, Entails grown voc known triple → triple ∈ known)
    (complete : NothingLeftOut grown voc known) :
    RdfsClosed grown.idToString (factsOf grown known) where
  subClass := by
    rintro lower middle upper ⟨sco, found, first⟩ ⟨again, foundAgain, second⟩ apart
    cases Option.some.inj (found.symm.trans foundAgain)
    refine ⟨sco, found, ?_⟩
    rcases prepared.known_or_none prepared.sco found with resolved | unresolved
    · exact rounds _ (.subClass resolved first second apart)
    · exact complete.subClass unresolved sco lower middle upper found first second apart
  types := by
    rintro sub lower upper ⟨typeP, typed, first⟩ ⟨sco, found, second⟩
    refine ⟨typeP, typed, ?_⟩
    rcases prepared.known_or_none prepared.sco found with resolved | unresolved
    · rcases prepared.typeP_of_known (by simp [resolved]) with ⟨other, slot, otherFound⟩
      cases Option.some.inj (typed.symm.trans otherFound)
      exact rounds _ (.types resolved slot first second)
    · exact complete.types unresolved sco typeP sub lower upper found typed first second
  subProperty := by
    rintro lower middle upper ⟨spo, found, first⟩ ⟨again, foundAgain, second⟩ apart
    cases Option.some.inj (found.symm.trans foundAgain)
    refine ⟨spo, found, ?_⟩
    rcases prepared.known_or_none prepared.spo found with resolved | unresolved
    · exact rounds _ (.subProperty resolved first second apart)
    · rw [prepared.noSubprop unresolved] at found
      cases found
  properties := by
    rintro lower upper lowerKey upperKey sub obj named above ⟨spo, found, first⟩
      ⟨lowerPred, lowerFound, second⟩
    rcases prepared.known_or_none prepared.spo found with resolved | unresolved
    · have below := entToPred_eq_some.mpr ⟨lowerKey, named, lowerFound⟩
      rcases complete.properties spo lower upper lowerPred upperKey sub obj resolved below above
        first second with ⟨upperPred, upperFound⟩
      refine ⟨upperPred, upperFound, ?_⟩
      by_cases apart : lowerPred = upperPred
      · exact apart ▸ second
      · exact rounds _ (.properties resolved below
          (entToPred_eq_some.mpr ⟨upperKey, above, upperFound⟩) first second apart)
    · rw [prepared.noSubprop unresolved] at found
      cases found
  domain := by
    rintro property text cls sub obj named ⟨dom, found, first⟩ ⟨pred, predFound, second⟩
    have property_ := entToPred_eq_some.mpr ⟨text, named, predFound⟩
    rcases prepared.known_or_none prepared.dom found with resolved | unresolved
    · rcases prepared.typeP_of_known (by simp [resolved]) with ⟨typeP, slot, typed⟩
      exact ⟨typeP, typed, rounds _ (.domain resolved slot property_ first second)⟩
    · exact complete.domain unresolved dom property pred cls sub obj found property_ first second
  range := by
    rintro property text cls sub obj named ⟨rng, found, first⟩ ⟨pred, predFound, second⟩
    have property_ := entToPred_eq_some.mpr ⟨text, named, predFound⟩
    rcases prepared.known_or_none prepared.rng found with resolved | unresolved
    · rcases prepared.typeP_of_known (by simp [resolved]) with ⟨typeP, slot, typed⟩
      exact ⟨typeP, typed, rounds _ (.range resolved slot property_ first second)⟩
    · exact complete.range unresolved rng property pred cls sub obj found property_ first second

/-- What the rounds derive is in every set of facts that the rules close. -/
theorem factsOf_chained_subset (prepared : Prepared dict grown voc) {facts : Set Fact}
    (holds : factsOf grown base ⊆ facts) (closed : RdfsClosed grown.idToString facts) :
    factsOf grown (chained (Entails grown voc) base) ⊆ facts := by
  have vocabulary : ∀ {slot : Option UInt32} {text : Text} {pred : UInt32},
      slot = dict.predicateId text → slot = some pred → grown.predicateId text = some pred :=
    fun initial resolved => prepared.grows.predicates _ _ (initial.symm.trans resolved)
  let sound : Set IdTriple := {triple | ∀ text, grown.predicateId text = some triple.pred →
    ⟨triple.sub, text, triple.obj⟩ ∈ facts}
  have covers : chained (Entails grown voc) base ⊆ sound := by
    apply chained_subset
    refine ⟨fun triple member text found => holds ⟨triple.pred, found, member⟩, ?_⟩
    intro triple derived text found
    cases derived with
    | subClass resolved first second apart =>
      have schema := vocabulary prepared.sco resolved
      cases predicateId_injective prepared.valid found schema
      exact closed.subClass _ _ _ (first _ schema) (second _ schema) apart
    | types resolved typed first second =>
      have schema := vocabulary prepared.sco resolved
      have type_ := prepared.typeP _ typed
      cases predicateId_injective prepared.valid found type_
      exact closed.types _ _ _ (first _ type_) (second _ schema)
    | subProperty resolved first second apart =>
      have schema := vocabulary prepared.spo resolved
      cases predicateId_injective prepared.valid found schema
      exact closed.subProperty _ _ _ (first _ schema) (second _ schema) apart
    | properties resolved below above first second apart =>
      have schema := vocabulary prepared.spo resolved
      rcases entToPred_eq_some.mp below with ⟨lowerKey, lowerNamed, lowerFound⟩
      rcases entToPred_eq_some.mp above with ⟨upperKey, upperNamed, upperFound⟩
      cases predicateId_injective prepared.valid found upperFound
      exact closed.properties _ _ _ _ _ _ lowerNamed upperNamed (first _ schema)
        (second _ lowerFound)
    | domain resolved typed named first second =>
      have schema := vocabulary prepared.dom resolved
      have type_ := prepared.typeP _ typed
      rcases entToPred_eq_some.mp named with ⟨property, propertyNamed, propertyFound⟩
      cases predicateId_injective prepared.valid found type_
      exact closed.domain _ _ _ _ _ propertyNamed (first _ schema) (second _ propertyFound)
    | range resolved typed named first second =>
      have schema := vocabulary prepared.rng resolved
      have type_ := prepared.typeP _ typed
      rcases entToPred_eq_some.mp named with ⟨property, propertyNamed, propertyFound⟩
      cases predicateId_injective prepared.valid found type_
      exact closed.range _ _ _ _ _ propertyNamed (first _ schema) (second _ propertyFound)
  rintro ⟨sub, text, obj⟩ ⟨pred, found, member⟩
  exact covers member text found

/-- The rounds use no predicate id without a key. -/
theorem resolved_chained (prepared : Prepared dict grown voc) (resolved : Resolved dict base) :
    Resolved grown (chained (Entails grown voc) base) := by
  have covers : chained (Entails grown voc) base ⊆
      {triple | ∃ text, grown.predicateId text = some triple.pred} := by
    apply chained_subset
    constructor
    · intro triple member
      rcases resolved triple member with ⟨text, found⟩
      exact ⟨text, prepared.grows.predicates _ _ found⟩
    · intro triple derived
      cases derived with
      | subClass _ first _ _ => exact first
      | types _ _ first _ => exact first
      | subProperty _ first _ _ => exact first
      | properties _ _ above _ _ _ =>
        rcases entToPred_eq_some.mp above with ⟨text, -, found⟩
        exact ⟨text, found⟩
      | domain _ typed _ _ _ => exact ⟨_, prepared.typeP _ typed⟩
      | range _ typed _ _ _ => exact ⟨_, prepared.typeP _ typed⟩
  exact fun triple member => covers member

end Rules

/-! ## The closure that a run computes -/

/-- The store holds the least closed superset of the facts, the list is what was
added, each triple once, and another run adds nothing. -/
def ComputesClosure (dict : Dictionary) (triples : Finset IdTriple)
    (outcome : Dictionary × TripleStore × List IdTriple) : Prop :=
  ∃ result : Finset IdTriple, Refines outcome.2.1 result ∧
    IsLeast {facts | factsOf dict triples ⊆ facts ∧ RdfsClosed dict.idToString facts}
      (factsOf outcome.1 result) ∧
    outcome.2.2.Nodup ∧
    (∀ triple, triple ∈ outcome.2.2 ↔ triple ∈ result ∧ triple ∉ triples) ∧
    ∀ again, materialize outcome.1 outcome.2.1 = some again → again.2.2 = []

/-- On a store that the rules close, a run adds nothing. -/
theorem materialize_closed {dict : Dictionary} {store : TripleStore} {triples : Finset IdTriple}
    (valid : dict.Valid) (refines : Refines store triples) (resolved : Resolved dict triples)
    (closed : RdfsClosed dict.idToString (factsOf dict triples))
    {again : Dictionary × TripleStore × List IdTriple}
    (ran : materialize dict store = some again) : again.2.2 = [] := by
  cases ready : prepare dict store with
  | none =>
    rw [materialize_eq, ready] at ran
    cases ran
  | some ready_ =>
    rcases ready_ with ⟨grown, voc⟩
    have prepared := prepare_spec valid ready
    rcases materialize_spec refines ready with ⟨last, added, result, spec, -, least, -, listed⟩
    rw [spec] at ran
    cases ran
    have grownClosed : RdfsClosed grown.idToString (factsOf dict triples) := by
      rw [prepared.nameOf]
      exact closed
    have same := factsOf_grow prepared.grows prepared.valid resolved
    have within := factsOf_chained_subset prepared same.le grownClosed
    rw [List.eq_nil_iff_forall_not_mem]
    intro triple member
    rcases (listed triple).mp member with ⟨derived, absent⟩
    have chainedTriple : triple ∈ chained (Entails grown voc) triples := by
      rw [← least]
      exact derived
    rcases resolved_chained prepared resolved triple chainedTriple with ⟨text, found⟩
    have fact : (⟨triple.sub, text, triple.obj⟩ : Fact) ∈ factsOf dict triples :=
      within ⟨triple.pred, found, chainedTriple⟩
    rcases fact with ⟨pred, before, held⟩
    have samePred := (prepared.grows.predicates _ _ before).symm.trans found
    cases Option.some.inj samePred
    exact absent held

/-- A run computes the closure exactly when it leaves nothing out. -/
theorem rdfs_materialize_closes_iff {dict : Dictionary} {store : TripleStore}
    {triples : Finset IdTriple} (valid : dict.Valid) (refines : Refines store triples)
    (resolved : Resolved dict triples) :
    (materialize dict store = none ↔ prepare dict store = none) ∧
    ∀ grown voc, prepare dict store = some (grown, voc) →
      ∃ outcome, materialize dict store = some outcome ∧
        (ComputesClosure dict triples outcome ↔
          NothingLeftOut grown voc (chained (Entails grown voc) triples)) := by
  refine ⟨by rw [materialize_eq, Option.map_eq_none_iff], ?_⟩
  intro grown voc ready
  have prepared := prepare_spec valid ready
  rcases materialize_spec refines ready with
    ⟨closed, added, result, ran, closedRefines, least, nodup, listed⟩
  have sameNames := prepared.nameOf
  have sameBase := factsOf_grow prepared.grows prepared.valid resolved
  refine ⟨_, ran, ?_, ?_⟩
  · rintro ⟨other, otherRefines, ⟨⟨-, otherClosed⟩, -⟩, -⟩
    have same := closedRefines.unique otherRefines
    subst same
    rw [least, ← sameNames] at otherClosed
    exact nothingLeftOut_of_closed prepared otherClosed
  · intro complete
    have rounds : chained (Entails grown voc) triples ∈
        ClosedOver (Entails grown voc) (triples : Set IdTriple) :=
      (isLeast_chained (monotone_entails grown voc)).1
    have rules := closed_of_nothingLeftOut prepared rounds.2 complete
    refine ⟨result, closedRefines, ⟨⟨?_, ?_⟩, ?_⟩, nodup, listed, ?_⟩
    · rw [least, ← sameBase]
      rintro fact ⟨pred, found, member⟩
      exact ⟨pred, found, rounds.1 member⟩
    · rw [least, ← sameNames]
      exact rules
    · rintro facts ⟨holds, factsClosed⟩
      rw [least]
      exact factsOf_chained_subset prepared (sameBase ▸ holds) (sameNames ▸ factsClosed)
    · intro again ranAgain
      apply materialize_closed prepared.valid closedRefines _ _ ranAgain
      · rw [least]
        exact resolved_chained prepared resolved
      · rw [least]
        exact rules

/-- A database after `insert_triple` of each triple. -/
def loaded (triples : List Triple) : Option Db.Database :=
  triples.foldlM (fun db triple => (db.insertTriple triple).map Prod.fst) .empty

theorem resolved_of_encoded {dict : Dictionary} {store : TripleStore}
    (encoded : Db.Encoded dict store) :
    ∃ triples : Finset IdTriple, Refines store triples ∧ Resolved dict triples := by
  rcases encoded with ⟨triples, refines, known⟩
  refine ⟨triples, refines, ?_⟩
  intro id member
  rcases known id member with ⟨triple, found⟩
  exact ⟨_, (Dictionary.lookup_eq_some_iff.mp found).2.1⟩

set_option maxRecDepth 4096 in
/-- A chain of two subclass triples is closed. -/
theorem rdfs_materialize_closes_chain :
    ∃ db triples outcome, loaded
        [⟨.iri ['a'], .iri rdfsSubclass, .iri ['b']⟩, ⟨.iri ['b'], .iri rdfsSubclass, .iri ['c']⟩] =
          some db ∧
      Refines db.store triples ∧ materialize db.dict db.store = some outcome ∧
      ComputesClosure db.dict triples outcome := by
  have facts : ((loaded [⟨.iri ['a'], .iri rdfsSubclass, .iri ['b']⟩,
      ⟨.iri ['b'], .iri rdfsSubclass, .iri ['c']⟩]).bind fun db =>
        (prepare db.dict db.store).map fun ready =>
          (ready.2.scoP.isSome, ready.2.spoP, ready.1.predicateId (key rdfsDomain),
            ready.1.predicateId (key rdfsRange))) = some (true, none, none, none) := by
    decide +kernel
  rcases Option.bind_eq_some_iff.mp facts with ⟨db, found, facts⟩
  rcases Option.map_eq_some_iff.mp facts with ⟨⟨grown, voc⟩, ready, known⟩
  simp only [Prod.mk.injEq] at known
  rcases known with ⟨sco, spo, dom, rng⟩
  rcases resolved_of_encoded db.valid.encoded with ⟨triples, refines, resolved⟩
  rcases (rdfs_materialize_closes_iff db.valid.dictionary refines resolved).2 grown voc ready with
    ⟨outcome, ran, correct⟩
  refine ⟨db, triples, outcome, found, refines, ran, correct.mpr ?_⟩
  constructor
  · intro none
    simp [none] at sco
  · intro none
    simp [none] at sco
  · intro _ _ _ _ _ _ _ resolved
    simp [spo] at resolved
  · intro _ _ _ _ _ _ _ known
    simp [dom] at known
  · intro _ _ _ _ _ _ _ known
    simp [rng] at known

set_option maxRecDepth 4096 in
/-- `:p rdfs:subPropertyOf rdfs:subClassOf . :a :p :b . :b :p :c`: the first run
makes `:a` a subclass of `:b` and `:b` one of `:c`, and only a second run makes
`:a` one of `:c`. -/
theorem derived_schema_is_not_closed :
    ∃ db triples outcome, loaded
        [⟨.iri ['p'], .iri rdfsSubprop, .iri rdfsSubclass⟩, ⟨.iri ['a'], .iri ['p'], .iri ['b']⟩,
          ⟨.iri ['b'], .iri ['p'], .iri ['c']⟩] = some db ∧
      Refines db.store triples ∧ materialize db.dict db.store = some outcome ∧
      ¬ ComputesClosure db.dict triples outcome := by
  have twice : ((loaded [⟨.iri ['p'], .iri rdfsSubprop, .iri rdfsSubclass⟩,
      ⟨.iri ['a'], .iri ['p'], .iri ['b']⟩, ⟨.iri ['b'], .iri ['p'], .iri ['c']⟩]).bind fun db =>
        (materialize db.dict db.store).bind fun first =>
          (materialize first.1 first.2.1).map fun second => second.2.2) =
        some [⟨2, 2, 4⟩] := by
    decide +kernel
  rcases Option.bind_eq_some_iff.mp twice with ⟨db, found, twice⟩
  rcases Option.bind_eq_some_iff.mp twice with ⟨first, ran, twice⟩
  rcases Option.map_eq_some_iff.mp twice with ⟨second, ranAgain, added⟩
  rcases resolved_of_encoded db.valid.encoded with ⟨triples, refines, -⟩
  refine ⟨db, triples, first, found, refines, ran, ?_⟩
  rintro ⟨-, -, -, -, -, quiet⟩
  rw [quiet second ranAgain] at added
  cases added

end GStore.Reason
