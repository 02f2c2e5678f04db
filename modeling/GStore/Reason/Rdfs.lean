import GStore.Dict.Dictionary
import GStore.Foundation.ForwardChain
import GStore.Store.TripleSource

/-! # RDFS materialization

`reason/mod.rs`, the schema-driven rules. A property is an entity where a schema
triple names it and a predicate where data uses it; the dictionary key bridges
the two id spaces. -/

namespace GStore.Reason

open Dict Store

def rdfType : Text := "http://www.w3.org/1999/02/22-rdf-syntax-ns#type".toList
def rdfsSubclass : Text := "http://www.w3.org/2000/01/rdf-schema#subClassOf".toList
def rdfsSubprop : Text := "http://www.w3.org/2000/01/rdf-schema#subPropertyOf".toList
def rdfsDomain : Text := "http://www.w3.org/2000/01/rdf-schema#domain".toList
def rdfsRange : Text := "http://www.w3.org/2000/01/rdf-schema#range".toList

def key (iri : Text) : Text := (Term.iri iri).dictKey

/-! ## One round -/

/-- The predicate ids of the vocabulary, as far as they are known. -/
structure Vocabulary where
  typeP : Option UInt32
  scoP : Option UInt32
  spoP : Option UInt32
  domP : Option UInt32
  rngP : Option UInt32

/-- The entry of a subject in the map of the pairs. -/
def objectsOf (pairs : List (UInt32 × UInt32)) (sub : UInt32) : List UInt32 :=
  (pairs.filter fun pair => pair.1 = sub).map Prod.snd

/-- Map an entity id to its predicate id, via the shared dictionary key. -/
def entToPred (dict : Dictionary) (ent : UInt32) : Option UInt32 :=
  (dict.idToString ent).bind dict.predicateId

section Gather

variable (dict : Dictionary) (store : TripleStore)

/-- `c ⊑ d`, `d ⊑ e` ⇒ `c ⊑ e`, without the reflexive ones. -/
def transitive (pred : UInt32) : List IdTriple :=
  let pairs := store.soByP pred
  pairs.flatMap fun (first, second) =>
    ((objectsOf pairs second).filter fun third => first ≠ third).map fun third =>
      ⟨first, pred, third⟩

def propagateTypes (typeP sco : UInt32) : List IdTriple :=
  (store.soByP typeP).flatMap fun (instance_, cls) =>
    (objectsOf (store.soByP sco) cls).map fun upper => ⟨instance_, typeP, upper⟩

def propagateProperties (spo : UInt32) : List IdTriple :=
  (store.soByP spo).flatMap fun (pEnt, qEnt) =>
    match entToPred dict pEnt, entToPred dict qEnt with
    | some pPred, some qPred =>
      if pPred = qPred then []
      else (store.soByP pPred).map fun (sub, obj) => ⟨sub, qPred, obj⟩
    | _, _ => []

/-- Domain and range: the subjects, or the objects, of a property get a class. -/
def typeEnds (typeP schema : UInt32) (side : UInt32 × UInt32 → UInt32) : List IdTriple :=
  (store.soByP schema).flatMap fun (pEnt, cls) =>
    match entToPred dict pEnt with
    | some pPred => (store.soByP pPred).map fun pair => ⟨side pair, typeP, cls⟩
    | none => []

/-- All directly entailed triples. -/
def gather (voc : Vocabulary) : List IdTriple :=
  (match voc.scoP with
    | some sco => transitive store sco ++
        match voc.typeP with
        | some typeP => propagateTypes store typeP sco
        | none => []
    | none => []) ++
  (match voc.spoP with
    | some spo => transitive store spo ++ propagateProperties dict store spo
    | none => []) ++
  (match voc.domP, voc.typeP with
    | some dom, some typeP => typeEnds dict store typeP dom Prod.fst
    | _, _ => []) ++
  (match voc.rngP, voc.typeP with
    | some rng, some typeP => typeEnds dict store typeP rng Prod.snd
    | _, _ => [])

end Gather

/-! ## Materialization -/

/-- What the dictionary knows of the vocabulary before anything is interned. -/
def knownVocabulary (dict : Dictionary) : Vocabulary where
  typeP := dict.predicateId (key rdfType)
  scoP := dict.predicateId (key rdfsSubclass)
  spoP := dict.predicateId (key rdfsSubprop)
  domP := dict.predicateId (key rdfsDomain)
  rngP := dict.predicateId (key rdfsRange)

def internPredicates (dict : Dictionary) (keys : List Text) : Option Dictionary :=
  keys.foldlM (fun dict key => (dict.internPredicate key).map Prod.fst) dict

/-- The names in the `subPropertyOf` statements. -/
def propertyKeys (dict : Dictionary) (store : TripleStore) (spo : UInt32) : List Text :=
  ((store.soByP spo).flatMap fun (sub, obj) => [sub, obj]).filterMap dict.idToString

/-- The type predicate is interned when a rule may assert it. -/
def internType (dict : Dictionary) : Option Dictionary :=
  let voc := knownVocabulary dict
  if voc.scoP.isSome || voc.domP.isSome || voc.rngP.isSome then
    (dict.internPredicate (key rdfType)).map Prod.fst
  else some dict

/-- The dictionary and the vocabulary that the rounds run with. -/
def prepare (dict : Dictionary) (store : TripleStore) : Option (Dictionary × Vocabulary) := do
  let voc := knownVocabulary dict
  let typed ← internType dict
  let typeP := typed.predicateId (key rdfType)
  match voc.spoP with
  | some spo => do
    let grown ← internPredicates typed (propertyKeys typed store spo)
    return (grown, { voc with typeP })
  | none => return (typed, { voc with typeP })

/-- More rounds than there are triples. -/
def roundLimit : Nat := 2 ^ 96 + 1

/-- `reason::materialize`; `none` is the panic of a full dictionary. -/
def materialize (dict : Dictionary) (store : TripleStore) :
    Option (Dictionary × TripleStore × List IdTriple) :=
  let voc := knownVocabulary dict
  if voc.scoP.isNone && voc.spoP.isNone && voc.domP.isNone && voc.rngP.isNone then
    some (dict, store, [])
  else do
    let (grown, voc) ← prepare dict store
    return (grown, saturate TripleStore.insert (fun store => gather grown store voc) roundLimit store)

end GStore.Reason
