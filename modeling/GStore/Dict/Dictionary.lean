import GStore.Model.Term
import GStore.Store.TripleStore

/-! # The in-memory dictionary

`dict/mod.rs`: three interners, one per id space. An interner hands out dense
indices and reuses the freed ones first. Literal ids are interner indices moved
up by `literalFirstId`, so that an object id tells its kind. A panic of the
source is the result `none`. -/

namespace GStore.Dict

/-- `LITERAL_FIRST_ID`. -/
def literalFirstId : Nat := 2000000000

/-- The free stack is kept with its top first. -/
structure Interner where
  forward : List (Text × UInt32)
  backward : List (Option Text)
  free : List UInt32
deriving DecidableEq, Repr

namespace Interner

def empty : Interner := { forward := [], backward := [], free := [] }

def get (interner : Interner) (key : Text) : Option UInt32 :=
  interner.forward.lookup key

def resolve (interner : Interner) (index : UInt32) : Option Text :=
  interner.backward[index.toNat]?.join

/-- The index of a string, which is interned if it is new. -/
def intern (interner : Interner) (key : Text) : Option (Interner × UInt32) :=
  match interner.get key with
  | some index => some (interner, index)
  | none =>
    match interner.free with
    | reused :: free =>
      some ({ forward := (key, reused) :: interner.forward
              backward := interner.backward.set reused.toNat (some key)
              free }, reused)
    | [] =>
      if interner.backward.length < 2 ^ 32 then
        let index := UInt32.ofNat interner.backward.length
        some ({ forward := (key, index) :: interner.forward
                backward := interner.backward ++ [some key]
                free := [] }, index)
      else
        none

/-- The two directions agree, the free stack holds each hole once, and every
slot is either live or a hole. -/
structure Valid (interner : Interner) : Prop where
  get_iff : ∀ key index, interner.get key = some index ↔ interner.resolve index = some key
  keys_nodup : (interner.forward.map Prod.fst).Nodup
  free_nodup : interner.free.Nodup
  free_hole : ∀ index ∈ interner.free, interner.backward[index.toNat]? = some none
  slots : interner.backward.length = interner.forward.length + interner.free.length
  bounded : interner.backward.length ≤ 2 ^ 32

theorem valid_empty : Valid empty where
  get_iff := by simp [get, resolve, empty]
  keys_nodup := by simp [empty]
  free_nodup := by simp [empty]
  free_hole := by simp [empty]
  slots := rfl
  bounded := by simp [empty]

theorem get_eq_none_iff (interner : Interner) (key : Text) :
    interner.get key = none ↔ key ∉ interner.forward.map Prod.fst := by
  rw [get, List.lookup_eq_none_iff]
  constructor
  · intro absent member
    rcases List.mem_map.mp member with ⟨entry, found, rfl⟩
    simpa using absent entry found
  · intro absent entry found
    have different : key ≠ entry.1 := fun equal =>
      absent (List.mem_map.mpr ⟨entry, found, equal.symm⟩)
    simpa using different

section Intern

variable {interner grown : Interner} {key other : Text} {index otherIndex : UInt32}

/-- What interning does: nothing to a known string; a new one takes the top of
the free stack, or the next slot. -/
theorem intern_cases (interned : interner.intern key = some (grown, index)) :
    (interner.get key = some index ∧ grown = interner) ∨
      (interner.get key = none ∧ grown.forward = (key, index) :: interner.forward ∧
        ((interner.free = index :: grown.free ∧
            grown.backward = interner.backward.set index.toNat (some key)) ∨
          (interner.free = [] ∧ grown.free = [] ∧ interner.backward.length < 2 ^ 32 ∧
            index = UInt32.ofNat interner.backward.length ∧
            grown.backward = interner.backward ++ [some key]))) := by
  unfold intern at interned
  split at interned
  · rename_i known
    cases interned
    exact .inl ⟨known, rfl⟩
  · rename_i unknown
    split at interned
    · rename_i free stack
      cases interned
      exact .inr ⟨unknown, rfl, .inl ⟨stack, rfl⟩⟩
    · rename_i stack
      split at interned
      · rename_i room
        cases interned
        exact .inr ⟨unknown, rfl, .inr ⟨stack, rfl, room, rfl, rfl⟩⟩
      · cases interned

theorem get_intern (interned : interner.intern key = some (grown, index)) :
    grown.get other = if other = key then some index else interner.get other := by
  rcases intern_cases interned with ⟨known, rfl⟩ | ⟨unknown, forward, -⟩
  · split
    · rename_i same
      rw [same, known]
    · rfl
  · rw [get, forward, List.lookup_cons]
    by_cases same : other = key
    · simp [same]
    · rw [if_neg same, beq_eq_false_iff_ne.mpr same]
      rfl

theorem get_intern_self (interned : interner.intern key = some (grown, index)) :
    grown.get key = some index := by
  rw [get_intern interned, if_pos rfl]

/-- An interned string keeps its index. -/
theorem get_intern_of_some (interned : interner.intern key = some (grown, index))
    (known : interner.get other = some otherIndex) : grown.get other = some otherIndex := by
  rw [get_intern interned]
  split
  · rename_i same
    rcases intern_cases interned with ⟨found, -⟩ | ⟨unknown, -⟩
    · rw [← known, same, found]
    · rw [same, unknown] at known
      cases known
  · exact known

/-- The table grows only to hold the new index. -/
theorem length_intern (interned : interner.intern key = some (grown, index)) :
    grown.backward.length = interner.backward.length ∨
      grown.backward.length = index.toNat + 1 := by
  rcases intern_cases interned with
    ⟨-, rfl⟩ | ⟨-, -, ⟨-, backward⟩ | ⟨-, -, room, rfl, backward⟩⟩
  · exact .inl rfl
  · exact .inl (by rw [backward, List.length_set])
  · exact .inr (by rw [backward, List.length_append, UInt32.toNat_ofNat_of_lt' room]; rfl)

theorem Valid.index_lt (valid : interner.Valid) (known : interner.get key = some index) :
    index.toNat < interner.backward.length := by
  have found := (valid.get_iff key index).mp known
  rw [resolve, Option.join_eq_some_iff] at found
  exact (List.getElem?_eq_some_iff.mp found).1

theorem intern_slot_fresh (valid : interner.Valid)
    (unknown : interner.get key = none)
    (interned : interner.intern key = some (grown, index)) : interner.resolve index = none := by
  rcases intern_cases interned with ⟨known, -⟩ | ⟨-, -, ⟨stack, -⟩ | ⟨-, -, room, rfl, -⟩⟩
  · rw [unknown] at known
    cases known
  · rw [resolve, valid.free_hole index (by simp [stack])]
    rfl
  · rw [resolve, UInt32.toNat_ofNat_of_lt' room, List.getElem?_eq_none (Nat.le_refl _)]
    rfl

theorem resolve_intern (valid : interner.Valid)
    (unknown : interner.get key = none)
    (interned : interner.intern key = some (grown, index)) :
    grown.resolve otherIndex =
      if otherIndex = index then some key else interner.resolve otherIndex := by
  rcases intern_cases interned with
    ⟨known, -⟩ | ⟨-, -, ⟨stack, backward⟩ | ⟨-, -, room, rfl, backward⟩⟩
  · rw [unknown] at known
    cases known
  · have inside : index.toNat < interner.backward.length :=
      (List.getElem?_eq_some_iff.mp (valid.free_hole index (by simp [stack]))).1
    by_cases same : otherIndex = index
    · subst same
      simp [resolve, backward, inside]
    · have different : index.toNat ≠ otherIndex.toNat := fun equal =>
        same (UInt32.toNat_inj.mp equal.symm)
      simp [resolve, backward, same, List.getElem?_set_ne different]
  · by_cases same : otherIndex = UInt32.ofNat interner.backward.length
    · subst same
      simp [resolve, backward, UInt32.toNat_ofNat_of_lt' room]
    · have different : otherIndex.toNat ≠ interner.backward.length := by
        intro equal
        exact same (by rw [← equal, UInt32.ofNat_toNat])
      rw [if_neg same, resolve, resolve, backward]
      by_cases below : otherIndex.toNat < interner.backward.length
      · rw [List.getElem?_append_left below]
      · rw [List.getElem?_eq_none (by rw [List.length_append]; simp; omega),
          List.getElem?_eq_none (by omega)]

theorem Valid.intern (valid : interner.Valid)
    (interned : interner.intern key = some (grown, index)) : grown.Valid := by
  rcases intern_cases interned with ⟨-, rfl⟩ | ⟨unknown, forward, place⟩
  · exact valid
  · have fresh := intern_slot_fresh valid unknown interned
    constructor
    case get_iff =>
      intro other otherIndex
      rw [get_intern interned, resolve_intern valid unknown interned]
      by_cases sameKey : other = key
      · subst sameKey
        by_cases sameIndex : otherIndex = index
        · simp [sameIndex]
        · have absent : interner.resolve otherIndex ≠ some other := by
            rw [ne_eq, ← valid.get_iff, unknown]
            simp
          simp [sameIndex, Ne.symm sameIndex, absent]
      · rw [if_neg sameKey]
        by_cases sameIndex : otherIndex = index
        · subst sameIndex
          rw [valid.get_iff, fresh]
          simp [Ne.symm sameKey]
        · rw [if_neg sameIndex, valid.get_iff]
    case keys_nodup =>
      rw [forward, List.map_cons, List.nodup_cons]
      exact ⟨(get_eq_none_iff _ _).mp unknown, valid.keys_nodup⟩
    case free_nodup =>
      rcases place with ⟨stack, -⟩ | ⟨-, emptied, -⟩
      · have nodup := valid.free_nodup
        rw [stack] at nodup
        exact (List.nodup_cons.mp nodup).2
      · simp [emptied]
    case free_hole =>
      intro hole member
      rcases place with ⟨stack, backward⟩ | ⟨-, emptied, -⟩
      · have nodup := valid.free_nodup
        rw [stack] at nodup
        have different : index.toNat ≠ hole.toNat := fun equal =>
          (List.nodup_cons.mp nodup).1 (UInt32.toNat_inj.mp equal ▸ member)
        rw [backward, List.getElem?_set_ne different]
        exact valid.free_hole hole (by simp [stack, member])
      · simp [emptied] at member
    case slots =>
      have slots := valid.slots
      rcases place with ⟨stack, backward⟩ | ⟨stack, emptied, -, -, backward⟩
      · rw [backward, List.length_set, forward]
        simp only [stack, List.length_cons] at slots ⊢
        omega
      · simp only [backward, forward, emptied, stack, List.length_append, List.length_cons,
          List.length_nil] at slots ⊢
        omega
    case bounded =>
      rcases place with ⟨-, backward⟩ | ⟨-, -, room, -, backward⟩
      · rw [backward, List.length_set]
        exact valid.bounded
      · rw [backward, List.length_append]
        simpa using room

end Intern

/-- Every interned string is interned in the other one too, under the same
index. -/
def Extends (interner grown : Interner) : Prop :=
  ∀ key index, interner.get key = some index → grown.get key = some index

/-- Every interned string is interned in the other one too. -/
def Within (interner other : Interner) : Prop :=
  ∀ key index, interner.get key = some index → ∃ otherIndex, other.get key = some otherIndex

theorem mem_keys_iff (interner : Interner) (key : Text) :
    key ∈ interner.forward.map Prod.fst ↔ ∃ index, interner.get key = some index := by
  rw [← Option.isSome_iff_exists, Option.isSome_iff_ne_none, ne_eq, get_eq_none_iff, not_not]

/-- A valid interner that holds more strings shows that there is room. -/
theorem intern_within {interner other : Interner} {key : Text} {otherIndex : UInt32}
    (valid : interner.Valid) (otherValid : other.Valid) (within : interner.Within other)
    (known : other.get key = some otherIndex) :
    ∃ grown index, interner.intern key = some (grown, index) ∧ grown.Within other ∧
      (index.toNat < interner.backward.length ∨ index.toNat < other.backward.length) := by
  have ofNew : ∀ {grown index}, interner.intern key = some (grown, index) →
      grown.Within other := by
    intro grown index interned found foundIndex has
    rw [get_intern interned] at has
    split at has
    · rename_i same
      exact ⟨otherIndex, same ▸ known⟩
    · exact within found foundIndex has
  cases found : interner.get key with
  | some index =>
    have interned : interner.intern key = some (interner, index) := by simp [intern, found]
    exact ⟨interner, index, interned, ofNew interned, .inl (valid.index_lt found)⟩
  | none =>
    cases stack : interner.free with
    | cons reused free =>
      have interned : interner.intern key = some
          ({ forward := (key, reused) :: interner.forward
             backward := interner.backward.set reused.toNat (some key), free }, reused) := by
        simp [intern, found, stack]
      have hole := valid.free_hole reused (by simp [stack])
      exact ⟨_, _, interned, ofNew interned, .inl (List.getElem?_eq_some_iff.mp hole).1⟩
    | nil =>
      have smaller : interner.forward.length < other.forward.length := by
        have nodup : (key :: interner.forward.map Prod.fst).Nodup :=
          List.nodup_cons.mpr ⟨(get_eq_none_iff _ _).mp found, valid.keys_nodup⟩
        have subset : key :: interner.forward.map Prod.fst ⊆ other.forward.map Prod.fst := by
          intro string member
          rw [mem_keys_iff]
          rcases List.mem_cons.mp member with rfl | held
          · exact ⟨otherIndex, known⟩
          · rcases (mem_keys_iff interner string).mp held with ⟨index, has⟩
            exact within string index has
        have length := (List.subperm_of_subset nodup subset).length_le
        simpa using length
      have slots := valid.slots
      have otherSlots := otherValid.slots
      have bounded := otherValid.bounded
      rw [stack, List.length_nil] at slots
      have room : interner.backward.length < 2 ^ 32 := by omega
      have interned : interner.intern key = some
          ({ forward := (key, UInt32.ofNat interner.backward.length) :: interner.forward
             backward := interner.backward ++ [some key], free := [] },
            UInt32.ofNat interner.backward.length) := by
        simp only [intern, found, stack, if_pos room]
      refine ⟨_, _, interned, ofNew interned, .inr ?_⟩
      rw [UInt32.toNat_ofNat_of_lt' room]
      omega

theorem extends_intern {interner grown : Interner} {key : Text} {index : UInt32}
    (interned : interner.intern key = some (grown, index)) : interner.Extends grown :=
  fun _ _ known => get_intern_of_some interned known

end Interner

structure Dictionary where
  entities : Interner
  literals : Interner
  predicates : Interner
deriving DecidableEq, Repr

namespace Dictionary

def empty : Dictionary :=
  { entities := .empty, literals := .empty, predicates := .empty }

/-! ## Lookup -/

def entityId (dict : Dictionary) (key : Text) : Option UInt32 := dict.entities.get key

def literalId (dict : Dictionary) (key : Text) : Option UInt32 :=
  (dict.literals.get key).map (· + UInt32.ofNat literalFirstId)

def predicateId (dict : Dictionary) (key : Text) : Option UInt32 := dict.predicates.get key

def termId (dict : Dictionary) (term : Term) : Option UInt32 :=
  if term.isLiteral then dict.literalId term.dictKey else dict.entityId term.dictKey

/-- The ids of a triple all of whose terms are known. -/
def lookup (dict : Dictionary) (triple : Triple) : Option IdTriple :=
  match dict.entityId triple.subject.dictKey, dict.predicateId triple.predicate.dictKey,
    dict.termId triple.object with
  | some sub, some pred, some obj => some ⟨sub, pred, obj⟩
  | _, _, _ => none

/-- The string of an entity or literal id; `u32::MAX` stands for no id. -/
def idToString (dict : Dictionary) (id : UInt32) : Option Text :=
  if id.toNat = 2 ^ 32 - 1 then
    none
  else if literalFirstId ≤ id.toNat then
    dict.literals.resolve (id - UInt32.ofNat literalFirstId)
  else
    dict.entities.resolve id

/-! ## Interning -/

/-- Entity ids end where literal ids begin. The source leaves that bound to its
callers; the model stops there. -/
def internEntity (dict : Dictionary) (key : Text) : Option (Dictionary × UInt32) :=
  match dict.entities.intern key with
  | some (entities, index) =>
    if index.toNat < literalFirstId then some ({ dict with entities }, index) else none
  | none => none

def internLiteral (dict : Dictionary) (key : Text) : Option (Dictionary × UInt32) :=
  match dict.literals.intern key with
  | some (literals, index) =>
    if index.toNat + literalFirstId < 2 ^ 32 then
      some ({ dict with literals }, index + UInt32.ofNat literalFirstId)
    else
      none
  | none => none

def internPredicate (dict : Dictionary) (key : Text) : Option (Dictionary × UInt32) :=
  match dict.predicates.intern key with
  | some (predicates, index) => some ({ dict with predicates }, index)
  | none => none

def internTerm (dict : Dictionary) (term : Term) : Option (Dictionary × UInt32) :=
  if term.isLiteral then dict.internLiteral term.dictKey else dict.internEntity term.dictKey

/-- `Database::encode_triple`. -/
def encodeTriple (dict : Dictionary) (triple : Triple) : Option (Dictionary × IdTriple) := do
  let (dict, sub) ← dict.internEntity triple.subject.dictKey
  let (dict, pred) ← dict.internPredicate triple.predicate.dictKey
  let (dict, obj) ← dict.internTerm triple.object
  return (dict, ⟨sub, pred, obj⟩)

/-! ## Validity -/

structure Valid (dict : Dictionary) : Prop where
  entities : dict.entities.Valid
  literals : dict.literals.Valid
  predicates : dict.predicates.Valid
  entities_bounded : dict.entities.backward.length ≤ literalFirstId
  literals_bounded : dict.literals.backward.length + literalFirstId ≤ 2 ^ 32

structure Extends (dict grown : Dictionary) : Prop where
  entities : dict.entities.Extends grown.entities
  literals : dict.literals.Extends grown.literals
  predicates : dict.predicates.Extends grown.predicates

theorem valid_empty : Valid empty where
  entities := Interner.valid_empty
  literals := Interner.valid_empty
  predicates := Interner.valid_empty
  entities_bounded := by simp [empty, Interner.empty]
  literals_bounded := by simp [empty, Interner.empty, literalFirstId]

theorem Extends.refl (dict : Dictionary) : dict.Extends dict :=
  ⟨fun _ _ => id, fun _ _ => id, fun _ _ => id⟩

theorem Extends.trans {first second third : Dictionary} (left : first.Extends second)
    (right : second.Extends third) : first.Extends third where
  entities key index known := right.entities key index (left.entities key index known)
  literals key index known := right.literals key index (left.literals key index known)
  predicates key index known := right.predicates key index (left.predicates key index known)

section Grow

variable {dict grown : Dictionary} {key : Text} {id : UInt32} {term : Term}

theorem internEntity_spec (valid : dict.Valid)
    (interned : dict.internEntity key = some (grown, id)) :
    grown.Valid ∧ dict.Extends grown ∧ grown.entityId key = some id := by
  unfold internEntity at interned
  split at interned
  · rename_i entities index entry
    split at interned
    · rename_i room
      cases interned
      refine ⟨{ valid with entities := valid.entities.intern entry, entities_bounded := ?_ },
        ⟨Interner.extends_intern entry, fun _ _ known => known, fun _ _ known => known⟩,
        Interner.get_intern_self entry⟩
      have bounded := valid.entities_bounded
      rcases Interner.length_intern entry with same | pushed
      · exact same ▸ bounded
      · exact pushed ▸ room
    · cases interned
  · cases interned

theorem internLiteral_spec (valid : dict.Valid)
    (interned : dict.internLiteral key = some (grown, id)) :
    grown.Valid ∧ dict.Extends grown ∧ grown.literalId key = some id := by
  unfold internLiteral at interned
  split at interned
  · rename_i literals index entry
    split at interned
    · rename_i room
      cases interned
      refine ⟨{ valid with literals := valid.literals.intern entry, literals_bounded := ?_ },
        ⟨fun _ _ known => known, Interner.extends_intern entry, fun _ _ known => known⟩, ?_⟩
      · have bounded := valid.literals_bounded
        rcases Interner.length_intern entry with same | pushed
        · exact same ▸ bounded
        · change literals.backward.length + literalFirstId ≤ 2 ^ 32
          omega
      · simp [literalId, Interner.get_intern_self entry]
    · cases interned
  · cases interned

theorem internPredicate_spec (valid : dict.Valid)
    (interned : dict.internPredicate key = some (grown, id)) :
    grown.Valid ∧ dict.Extends grown ∧ grown.predicateId key = some id := by
  unfold internPredicate at interned
  split at interned
  · rename_i predicates index entry
    cases interned
    exact ⟨{ valid with predicates := valid.predicates.intern entry },
      ⟨fun _ _ known => known, fun _ _ known => known, Interner.extends_intern entry⟩,
      Interner.get_intern_self entry⟩
  · cases interned

theorem internTerm_spec (valid : dict.Valid)
    (interned : dict.internTerm term = some (grown, id)) :
    grown.Valid ∧ dict.Extends grown ∧ grown.termId term = some id := by
  unfold internTerm at interned
  unfold termId
  split at interned
  · rename_i literal
    rw [if_pos literal]
    exact internLiteral_spec valid interned
  · rename_i literal
    rw [if_neg literal]
    exact internEntity_spec valid interned

end Grow

section Lookup

variable {dict grown : Dictionary} {triple other : Triple} {id : IdTriple}

theorem lookup_eq_some_iff :
    dict.lookup triple = some id ↔
      dict.entityId triple.subject.dictKey = some id.sub ∧
        dict.predicateId triple.predicate.dictKey = some id.pred ∧
        dict.termId triple.object = some id.obj := by
  unfold lookup
  cases dict.entityId triple.subject.dictKey <;>
    cases dict.predicateId triple.predicate.dictKey <;>
    cases dict.termId triple.object <;> cases id <;> simp

theorem Extends.termId (grows : dict.Extends grown) {term : Term} {id : UInt32}
    (known : dict.termId term = some id) : grown.termId term = some id := by
  unfold Dictionary.termId at known ⊢
  split
  · rename_i literal
    rw [if_pos literal, literalId, Option.map_eq_some_iff] at known
    rcases known with ⟨index, found, shifted⟩
    rw [literalId, grows.literals _ _ found, ← shifted]
    rfl
  · rename_i literal
    rw [if_neg literal] at known
    exact grows.entities _ _ known

theorem Extends.lookup (grows : dict.Extends grown) (known : dict.lookup triple = some id) :
    grown.lookup triple = some id := by
  rw [lookup_eq_some_iff] at known ⊢
  exact ⟨grows.entities _ _ known.1, grows.predicates _ _ known.2.1, grows.termId known.2.2⟩

theorem encodeTriple_spec (valid : dict.Valid)
    (encoded : dict.encodeTriple triple = some (grown, id)) :
    grown.Valid ∧ dict.Extends grown ∧ grown.lookup triple = some id := by
  simp only [encodeTriple, Option.bind_eq_bind, Option.bind_eq_some_iff, Option.pure_def,
    Option.some.injEq, Prod.mk.injEq, Prod.exists] at encoded
  rcases encoded with ⟨first, sub, entity, second, pred, predicate, third, obj, term, rfl, rfl⟩
  rcases internEntity_spec valid entity with ⟨firstValid, firstGrows, subject⟩
  rcases internPredicate_spec firstValid predicate with ⟨secondValid, secondGrows, middle⟩
  rcases internTerm_spec secondValid term with ⟨thirdValid, thirdGrows, object⟩
  refine ⟨thirdValid, firstGrows.trans (secondGrows.trans thirdGrows), ?_⟩
  rw [lookup_eq_some_iff]
  exact ⟨(secondGrows.trans thirdGrows).entities _ _ subject, thirdGrows.predicates _ _ middle,
    object⟩

/-- An id below `literalFirstId` is an entity's, one above it a literal's. -/
theorem Valid.termId_injective (valid : dict.Valid) {left right : Term} {id : UInt32}
    (leftKnown : dict.termId left = some id) (rightKnown : dict.termId right = some id) :
    left.dictKey = right.dictKey := by
  have shift : (UInt32.ofNat literalFirstId).toNat = literalFirstId := rfl
  have entity : ∀ {term : Term}, ¬ term.isLiteral → dict.termId term = some id →
      dict.entities.get term.dictKey = some id := by
    intro term kind known
    rwa [termId, if_neg kind] at known
  have literal : ∀ {term : Term}, term.isLiteral → dict.termId term = some id →
      dict.literals.get term.dictKey = some (id - UInt32.ofNat literalFirstId) ∧
        literalFirstId ≤ id.toNat := by
    intro term kind known
    rw [termId, if_pos kind, literalId, Option.map_eq_some_iff] at known
    rcases known with ⟨index, found, rfl⟩
    have inside := valid.literals.index_lt found
    have bounded := valid.literals_bounded
    refine ⟨by simpa using found, ?_⟩
    rw [UInt32.toNat_add, shift, Nat.mod_eq_of_lt (by omega)]
    omega
  by_cases leftKind : left.isLiteral <;> by_cases rightKind : right.isLiteral
  · have leftFound := (valid.literals.get_iff _ _).mp (literal leftKind leftKnown).1
    have rightFound := (valid.literals.get_iff _ _).mp (literal rightKind rightKnown).1
    exact Option.some.inj (leftFound.symm.trans rightFound)
  · have below := valid.entities.index_lt (entity rightKind rightKnown)
    have bounded := valid.entities_bounded
    have above := (literal leftKind leftKnown).2
    omega
  · have below := valid.entities.index_lt (entity leftKind leftKnown)
    have bounded := valid.entities_bounded
    have above := (literal rightKind rightKnown).2
    omega
  · have leftFound := (valid.entities.get_iff _ _).mp (entity leftKind leftKnown)
    have rightFound := (valid.entities.get_iff _ _).mp (entity rightKind rightKnown)
    exact Option.some.inj (leftFound.symm.trans rightFound)

end Lookup

/-! ## Room -/

structure Within (dict other : Dictionary) : Prop where
  entities : dict.entities.Within other.entities
  literals : dict.literals.Within other.literals
  predicates : dict.predicates.Within other.predicates

section Room

variable {dict other : Dictionary} {key : Text} {id : UInt32} {term : Term}

theorem Extends.within (grows : dict.Extends other) : dict.Within other :=
  ⟨fun _ _ known => ⟨_, grows.entities _ _ known⟩, fun _ _ known => ⟨_, grows.literals _ _ known⟩,
    fun _ _ known => ⟨_, grows.predicates _ _ known⟩⟩

theorem internEntity_within (valid : dict.Valid) (otherValid : other.Valid)
    (within : dict.Within other) (known : other.entityId key = some id) :
    ∃ grown index, dict.internEntity key = some (grown, index) ∧ grown.Within other := by
  rcases Interner.intern_within valid.entities otherValid.entities within.entities known
    with ⟨entities, index, interned, holds, bound⟩
  have mine := valid.entities_bounded
  have theirs := otherValid.entities_bounded
  refine ⟨{ dict with entities }, index, ?_, ⟨holds, within.literals, within.predicates⟩⟩
  simp only [internEntity, interned]
  rw [if_pos (by omega)]

theorem internLiteral_within (valid : dict.Valid) (otherValid : other.Valid)
    (within : dict.Within other) (known : other.literalId key = some id) :
    ∃ grown index, dict.internLiteral key = some (grown, index) ∧ grown.Within other := by
  rcases Option.map_eq_some_iff.mp known with ⟨otherIndex, found, -⟩
  rcases Interner.intern_within valid.literals otherValid.literals within.literals found
    with ⟨literals, index, interned, holds, bound⟩
  have mine := valid.literals_bounded
  have theirs := otherValid.literals_bounded
  refine ⟨{ dict with literals }, index + UInt32.ofNat literalFirstId, ?_,
    ⟨within.entities, holds, within.predicates⟩⟩
  simp only [internLiteral, interned]
  rw [if_pos (by omega)]

theorem internPredicate_within (valid : dict.Valid) (otherValid : other.Valid)
    (within : dict.Within other) (known : other.predicateId key = some id) :
    ∃ grown index, dict.internPredicate key = some (grown, index) ∧ grown.Within other := by
  rcases Interner.intern_within valid.predicates otherValid.predicates within.predicates known
    with ⟨predicates, index, interned, holds, -⟩
  exact ⟨{ dict with predicates }, index, by simp only [internPredicate, interned],
    ⟨within.entities, within.literals, holds⟩⟩

theorem internTerm_within (valid : dict.Valid) (otherValid : other.Valid)
    (within : dict.Within other) (known : other.termId term = some id) :
    ∃ grown index, dict.internTerm term = some (grown, index) ∧ grown.Within other := by
  unfold internTerm
  unfold termId at known
  split
  · rename_i literal
    rw [if_pos literal] at known
    exact internLiteral_within valid otherValid within known
  · rename_i literal
    rw [if_neg literal] at known
    exact internEntity_within valid otherValid within known

/-- A triple that a larger dictionary knows can be encoded. -/
theorem encodeTriple_within (valid : dict.Valid) (otherValid : other.Valid)
    (within : dict.Within other) {triple : Triple} {id : IdTriple}
    (known : other.lookup triple = some id) :
    ∃ grown encoded, dict.encodeTriple triple = some (grown, encoded) ∧ grown.Within other := by
  rw [lookup_eq_some_iff] at known
  rcases internEntity_within valid otherValid within known.1 with ⟨first, sub, entity, firstWithin⟩
  have firstValid := (internEntity_spec valid entity).1
  rcases internPredicate_within firstValid otherValid firstWithin known.2.1
    with ⟨second, pred, predicate, secondWithin⟩
  have secondValid := (internPredicate_spec firstValid predicate).1
  rcases internTerm_within secondValid otherValid secondWithin known.2.2
    with ⟨third, obj, term, thirdWithin⟩
  exact ⟨third, ⟨sub, pred, obj⟩, by simp [encodeTriple, entity, predicate, term], thirdWithin⟩

end Room

end Dictionary

end GStore.Dict
