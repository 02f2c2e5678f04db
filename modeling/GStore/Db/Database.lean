import GStore.Dict.Dictionary
import GStore.Store.TripleSource

/-! # The database under a transaction

`db/mod.rs`, as far as a snapshot copies it and a transaction writes it: the
dictionary, the default graph and the named graphs. The signature tree, the
query cache and the logs hang off the same calls and are left out, as no reader
of a snapshot sees them. -/

namespace GStore

/-- The terms are stored under the same dictionary keys. -/
def Triple.SameKeys (left right : Triple) : Prop :=
  left.subject.dictKey = right.subject.dictKey ∧
    left.predicate.dictKey = right.predicate.dictKey ∧
    left.object.dictKey = right.object.dictKey

instance (left right : Triple) : Decidable (left.SameKeys right) :=
  inferInstanceAs (Decidable (_ ∧ _ ∧ _))

theorem Term.isLiteral_iff_head (term : Term) :
    term.isLiteral = decide (term.dictKey.head? = some '"') := by
  cases term <;> simp [isLiteral, dictKey, display]

theorem RdfTriple.sameKeys_iff {left right : RdfTriple} :
    left.toTriple.SameKeys right.toTriple ↔ left = right := by
  constructor
  · rintro ⟨subjects, predicates, objects⟩
    have subject := Term.dictKey_injective left.wellFormed.subject right.wellFormed.subject
      subjects
    have predicate := Term.dictKey_injective left.wellFormed.predicate
      right.wellFormed.predicate predicates
    have object := Term.dictKey_injective left.wellFormed.object right.wellFormed.object objects
    rcases left with ⟨⟨_, _, _⟩, _⟩
    rcases right with ⟨⟨_, _, _⟩, _⟩
    simp_all
  · rintro rfl
    exact ⟨rfl, rfl, rfl⟩

namespace Dict.Dictionary

variable {dict : Dictionary} {left right : Triple} {id : IdTriple}

theorem lookup_congr (same : left.SameKeys right) : dict.lookup left = dict.lookup right := by
  rcases same with ⟨subjects, predicates, objects⟩
  have kinds : left.object.isLiteral = right.object.isLiteral := by
    rw [Term.isLiteral_iff_head, Term.isLiteral_iff_head, objects]
  simp only [lookup, termId, subjects, predicates, objects, kinds]

theorem Valid.lookup_injective (valid : dict.Valid) (leftKnown : dict.lookup left = some id)
    (rightKnown : dict.lookup right = some id) : left.SameKeys right := by
  rw [lookup_eq_some_iff] at leftKnown rightKnown
  refine ⟨?_, ?_, valid.termId_injective leftKnown.2.2 rightKnown.2.2⟩
  · have leftFound := (valid.entities.get_iff _ _).mp leftKnown.1
    have rightFound := (valid.entities.get_iff _ _).mp rightKnown.1
    exact Option.some.inj (leftFound.symm.trans rightFound)
  · have leftFound := (valid.predicates.get_iff _ _).mp leftKnown.2.1
    have rightFound := (valid.predicates.get_iff _ _).mp rightKnown.2.1
    exact Option.some.inj (leftFound.symm.trans rightFound)

end Dict.Dictionary

namespace Db

open Dict Store

/-- A graph written in the ids of a dictionary: the index is that of a set of
triples, and each of them is the encoding of some triple. -/
def Encoded (dict : Dictionary) (store : TripleStore) : Prop :=
  ∃ triples, Refines store triples ∧ ∀ id ∈ triples, ∃ triple, dict.lookup triple = some id

structure Valid (dict : Dictionary) (store : TripleStore) : Prop where
  dictionary : dict.Valid
  encoded : Encoded dict store

/-- Named graphs are kept under the entity ids of their names. -/
def NamedEncoded (dict : Dictionary) (named : List (UInt32 × TripleStore)) : Prop :=
  ∀ graph ∈ named, (∃ key, dict.entityId key = some graph.1) ∧ Encoded dict graph.2

structure Database where
  dict : Dictionary
  store : TripleStore
  named : List (UInt32 × TripleStore)
  valid : Valid dict store
  namedEncoded : NamedEncoded dict named

/-- `Snapshot::contains`: whether a graph holds a triple. -/
def holds (dict : Dictionary) (store : TripleStore) (triple : Triple) : Bool :=
  match dict.lookup triple with
  | some id => store.exists id.sub id.pred id.obj
  | none => false

theorem holds_eq_true_iff {dict : Dictionary} {store : TripleStore} {triples : Finset IdTriple}
    (refines : Refines store triples) (triple : Triple) :
    holds dict store triple = true ↔ ∃ id ∈ triples, dict.lookup triple = some id := by
  unfold holds
  split
  · rename_i id known
    rw [refines.exists_iff]
    simp [known]
  · rename_i unknown
    simp [unknown]

section Growth

variable {dict grown : Dictionary} {store : TripleStore}

theorem Encoded.grow (encoded : Encoded dict store) (grows : dict.Extends grown) :
    Encoded grown store := by
  rcases encoded with ⟨triples, refines, known⟩
  refine ⟨triples, refines, ?_⟩
  intro id member
  rcases known id member with ⟨triple, found⟩
  exact ⟨triple, grows.lookup found⟩

theorem NamedEncoded.grow {named : List (UInt32 × TripleStore)}
    (encoded : NamedEncoded dict named) (grows : dict.Extends grown) :
    NamedEncoded grown named := by
  intro graph member
  rcases (encoded graph member).1 with ⟨key, found⟩
  exact ⟨⟨key, grows.entities _ _ found⟩, (encoded graph member).2.grow grows⟩

/-- New terms get ids that no stored triple uses, so a graph holds under a larger
dictionary what it held before. -/
theorem holds_grow (encoded : Encoded dict store) (grows : dict.Extends grown)
    (grownValid : grown.Valid) (triple : Triple) :
    holds grown store triple = holds dict store triple := by
  rcases encoded with ⟨triples, refines, known⟩
  rw [Bool.eq_iff_iff, holds_eq_true_iff refines, holds_eq_true_iff refines]
  constructor
  · rintro ⟨id, member, found⟩
    rcases known id member with ⟨source, sourceFound⟩
    have same := grownValid.lookup_injective found (grows.lookup sourceFound)
    exact ⟨id, member, (Dictionary.lookup_congr same).trans sourceFound⟩
  · rintro ⟨id, member, found⟩
    exact ⟨id, member, grows.lookup found⟩

end Growth

section Writes

variable {dict grown : Dictionary} {store : TripleStore} {triple : Triple} {id : IdTriple}

theorem Valid.insert (valid : Valid dict store)
    (encoded : dict.encodeTriple triple = some (grown, id)) :
    Valid grown (store.insert id).1 := by
  rcases Dictionary.encodeTriple_spec valid.dictionary encoded with ⟨grownValid, grows, known⟩
  rcases valid.encoded.grow grows with ⟨triples, refines, named⟩
  refine ⟨grownValid, _, (refines.insert id).1, ?_⟩
  intro stored member
  rcases Finset.mem_union.mp member with added | kept
  · rw [Finset.mem_singleton.mp added]
    exact ⟨triple, known⟩
  · exact named stored kept

/-- An insertion adds its triple and nothing else. -/
theorem holds_insert (valid : Valid dict store)
    (encoded : dict.encodeTriple triple = some (grown, id)) (other : Triple) :
    holds grown (store.insert id).1 other =
      (decide (other.SameKeys triple) || holds dict store other) := by
  rcases Dictionary.encodeTriple_spec valid.dictionary encoded with ⟨grownValid, grows, known⟩
  rw [← holds_grow valid.encoded grows grownValid]
  rcases valid.encoded with ⟨triples, refines, -⟩
  rw [Bool.eq_iff_iff, holds_eq_true_iff (refines.insert id).1, Bool.or_eq_true,
    holds_eq_true_iff refines, decide_eq_true_iff]
  constructor
  · rintro ⟨stored, member, found⟩
    rcases Finset.mem_union.mp member with added | kept
    · rw [Finset.mem_singleton.mp added] at found
      exact .inl (grownValid.lookup_injective found known)
    · exact .inr ⟨stored, kept, found⟩
  · rintro (same | ⟨stored, kept, found⟩)
    · exact ⟨id, by simp, (Dictionary.lookup_congr same).trans known⟩
    · exact ⟨stored, Finset.mem_union_right _ kept, found⟩

theorem Valid.remove (valid : Valid dict store) (id : IdTriple) :
    Valid dict (store.remove id).1 := by
  rcases valid.encoded with ⟨triples, refines, named⟩
  exact ⟨valid.dictionary, _, (refines.remove id).1,
    fun stored member => named stored (Finset.mem_of_mem_erase member)⟩

theorem holds_remove (valid : Valid dict store) (known : dict.lookup triple = some id)
    (other : Triple) :
    holds dict (store.remove id).1 other = (!decide (other.SameKeys triple) && holds dict store other) := by
  rcases valid.encoded with ⟨triples, refines, -⟩
  rw [Bool.eq_iff_iff, holds_eq_true_iff (refines.remove id).1, Bool.and_eq_true,
    holds_eq_true_iff refines, Bool.not_eq_true', decide_eq_false_iff_not]
  constructor
  · rintro ⟨stored, member, found⟩
    rcases Finset.mem_erase.mp member with ⟨different, kept⟩
    refine ⟨fun same => different ?_, stored, kept, found⟩
    rw [Dictionary.lookup_congr same, known] at found
    exact (Option.some.inj found).symm
  · rintro ⟨distinct, stored, kept, found⟩
    refine ⟨stored, Finset.mem_erase.mpr ⟨?_, kept⟩, found⟩
    rintro rfl
    exact distinct (valid.dictionary.lookup_injective found known)

/-- A triple with an unknown term is nowhere. -/
theorem holds_of_lookup_none (unknown : dict.lookup triple = none) (other : Triple) :
    holds dict store other = (!decide (other.SameKeys triple) && holds dict store other) := by
  by_cases same : other.SameKeys triple
  · simp [holds, Dictionary.lookup_congr same, unknown]
  · simp [same]

end Writes

namespace Database

def empty : Database where
  dict := .empty
  store := .new
  named := []
  valid := ⟨Dictionary.valid_empty, ∅, refines_new, by simp⟩
  namedEncoded := by simp [NamedEncoded]

def contains (db : Database) (triple : Triple) : Bool := holds db.dict db.store triple

/-- Insert into the default graph; the flag tells whether it was new. -/
def insertTriple (db : Database) (triple : Triple) : Option (Database × Bool) :=
  match encoded : db.dict.encodeTriple triple with
  | some (dict, id) =>
    some ({ dict, store := (db.store.insert id).1, named := db.named
            valid := db.valid.insert encoded
            namedEncoded := db.namedEncoded.grow
              (Dictionary.encodeTriple_spec db.valid.dictionary encoded).2.1 },
      (db.store.insert id).2)
  | none => none

/-- Remove from the default graph; the flag tells whether it was there. -/
def removeTriple (db : Database) (triple : Triple) : Database × Bool :=
  match db.dict.lookup triple with
  | some id =>
    ({ db with store := (db.store.remove id).1, valid := db.valid.remove id },
      (db.store.remove id).2)
  | none => (db, false)

variable {db written : Database} {triple : Triple} {changed : Bool}

/-- Dictionary, graph and named graphs after an insertion. -/
theorem insertTriple_cases (inserted : db.insertTriple triple = some (written, changed)) :
    ∃ dict id, db.dict.encodeTriple triple = some (dict, id) ∧ written.dict = dict ∧
      written.store = (db.store.insert id).1 ∧ written.named = db.named := by
  unfold insertTriple at inserted
  split at inserted
  · rename_i dict id encoded
    cases inserted
    exact ⟨dict, id, encoded, rfl, rfl, rfl⟩
  · cases inserted

theorem contains_insertTriple (inserted : db.insertTriple triple = some (written, changed))
    (other : Triple) :
    written.contains other = (decide (other.SameKeys triple) || db.contains other) := by
  rcases insertTriple_cases inserted with ⟨dict, id, encoded, dictEq, storeEq, -⟩
  rw [contains, dictEq, storeEq, holds_insert db.valid encoded]
  rfl

theorem contains_removeTriple (db : Database) (triple other : Triple) :
    (db.removeTriple triple).1.contains other =
      (!decide (other.SameKeys triple) && db.contains other) := by
  unfold removeTriple
  split
  · rename_i id known
    exact holds_remove db.valid known other
  · rename_i unknown
    exact holds_of_lookup_none unknown other

end Database

end Db

end GStore
