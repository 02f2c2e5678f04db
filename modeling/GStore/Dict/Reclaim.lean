import GStore.Dict.Dictionary

/-! # Reclaiming ids

`dict/mod.rs`, the freelist: a freed string leaves a hole that a later string
takes. -/

namespace GStore.Dict

namespace Interner

/-- Free a string's index for reuse; the flag tells whether it was interned. -/
def freeKey (interner : Interner) (key : Text) : Interner × Bool :=
  match interner.get key with
  | none => (interner, false)
  | some index =>
    ({ forward := interner.forward.filter fun entry => entry.1 ≠ key
       backward := interner.backward.set index.toNat none
       free := index :: interner.free }, true)

/-- Live pairs of index and string, in index order. -/
def entries (interner : Interner) : List (UInt32 × Text) :=
  interner.backward.zipIdx.filterMap fun slot => slot.1.map fun key => (UInt32.ofNat slot.2, key)

/-- Free the strings whose index is not in use, and count them. -/
def reclaim (interner : Interner) (used : UInt32 → Bool) : Interner × Nat :=
  let dead := (interner.entries.filter fun entry => !used entry.1).map Prod.snd
  dead.foldl (fun state key =>
    let freed := state.1.freeKey key
    (freed.1, if freed.2 then state.2 + 1 else state.2)) (interner, 0)

section Free

variable {interner : Interner} {key : Text}

theorem get_freeKey (interner : Interner) (key other : Text) :
    (interner.freeKey key).1.get other = if other = key then none else interner.get other := by
  have filtered : ∀ forward : List (Text × UInt32),
      (forward.filter fun entry => entry.1 ≠ key).lookup other =
        if other = key then none else forward.lookup other := by
    intro forward
    induction forward with
    | nil => simp
    | cons entry rest induction =>
      rcases entry with ⟨stored, index⟩
      by_cases same : stored = key
      · subst same
        rw [List.filter_cons_of_neg (by simp), induction, List.lookup_cons]
        by_cases asked : other = stored
        · simp [asked]
        · simp [asked, beq_eq_false_iff_ne.mpr asked]
      · rw [List.filter_cons_of_pos (by simpa using same), List.lookup_cons, induction,
          List.lookup_cons]
        by_cases asked : other = stored
        · subst asked
          simp [same]
        · simp [beq_eq_false_iff_ne.mpr asked]
  rw [freeKey]
  cases known : interner.get key with
  | none =>
    dsimp only
    split
    · rename_i same
      rw [same, known]
    · rfl
  | some index => exact filtered interner.forward

theorem resolve_freeKey (valid : interner.Valid) (key : Text) (index : UInt32) :
    (interner.freeKey key).1.resolve index =
      if interner.resolve index = some key then none else interner.resolve index := by
  rw [freeKey]
  cases known : interner.get key with
  | none =>
    have absent : interner.resolve index ≠ some key := by
      rw [ne_eq, ← valid.get_iff, known]
      simp
    rw [if_neg absent]
  | some freed =>
    have inside := valid.index_lt known
    by_cases same : index = freed
    · subst same
      rw [if_pos ((valid.get_iff key index).mp known)]
      simp [resolve, inside]
    · have different : freed.toNat ≠ index.toNat := fun equal =>
        same (UInt32.toNat_inj.mp equal).symm
      have apart : interner.resolve index ≠ some key := by
        rw [ne_eq, ← valid.get_iff, known, Option.some.injEq]
        exact Ne.symm same
      rw [if_neg apart]
      simp [resolve, List.getElem?_set_ne different]

theorem Valid.freeKey (valid : interner.Valid) (key : Text) : (interner.freeKey key).1.Valid := by
  have gets := get_freeKey interner key
  have resolves := resolve_freeKey valid key
  rw [Interner.freeKey] at gets resolves ⊢
  cases known : interner.get key with
  | none => exact valid
  | some index =>
    rw [known] at gets resolves
    dsimp only at gets resolves ⊢
    have live := (valid.get_iff key index).mp known
    have inside := valid.index_lt known
    have notFree : index ∉ interner.free := by
      intro member
      have hole := valid.free_hole index member
      rw [resolve, hole] at live
      cases live
    constructor
    case get_iff =>
      intro other otherIndex
      rw [gets, resolves]
      by_cases same : other = key
      · subst same
        by_cases freed : interner.resolve otherIndex = some other
        · simp [freed]
        · simp [freed]
      · rw [if_neg same, valid.get_iff]
        by_cases freed : interner.resolve otherIndex = some key
        · simp [freed, Ne.symm same]
        · rw [if_neg freed]
    case keys_nodup => exact valid.keys_nodup.sublist (List.filter_sublist.map _)
    case free_nodup => exact List.nodup_cons.mpr ⟨notFree, valid.free_nodup⟩
    case free_hole =>
      intro hole member
      rcases List.mem_cons.mp member with same | further
      · subst same
        simp [inside]
      · have different : index.toNat ≠ hole.toNat := fun equal =>
          notFree (UInt32.toNat_inj.mp equal ▸ further)
        rw [List.getElem?_set_ne different]
        exact valid.free_hole hole further
    case slots =>
      have slots := valid.slots
      have fewer : (interner.forward.filter fun entry => entry.1 ≠ key).length + 1 =
          interner.forward.length := by
        have kept : interner.forward.filter (fun entry => entry.1 ≠ key) =
            interner.forward.eraseP fun entry => entry.1 = key := by
          have nodup := valid.keys_nodup
          generalize interner.forward = forward at nodup
          induction forward with
          | nil => rfl
          | cons entry rest induction =>
            rw [List.map_cons, List.nodup_cons] at nodup
            by_cases same : entry.1 = key
            · rw [List.filter_cons_of_neg (by simpa using same),
                List.eraseP_cons_of_pos (by simpa using same), List.filter_eq_self]
              intro other member
              have apart : other.1 ≠ key := fun equal =>
                nodup.1 (same ▸ equal ▸ List.mem_map_of_mem member)
              simpa using apart
            · rw [List.filter_cons_of_pos (by simpa using same),
                List.eraseP_cons_of_neg (by simpa using same), induction nodup.2]
        have stored : ∃ entry ∈ interner.forward, entry.1 = key :=
          List.mem_map.mp ((mem_keys_iff interner key).mpr ⟨index, known⟩)
        rcases stored with ⟨entry, member, same⟩
        have positive := List.length_pos_of_mem member
        rw [kept, List.length_eraseP_of_mem member (by simpa using same)]
        omega
      change (interner.backward.set index.toNat none).length =
        (interner.forward.filter fun entry => entry.1 ≠ key).length +
          (index :: interner.free).length
      rw [List.length_set, List.length_cons]
      omega
    case bounded =>
      rw [List.length_set]
      exact valid.bounded

/-- The table keeps its length. -/
theorem length_freeKey (interner : Interner) (key : Text) :
    (interner.freeKey key).1.backward.length = interner.backward.length := by
  rw [freeKey]
  split
  · rfl
  · exact List.length_set

theorem mem_entries (valid : interner.Valid) {index : UInt32} {key : Text} :
    (index, key) ∈ interner.entries ↔ interner.resolve index = some key := by
  simp only [entries, List.mem_filterMap, Option.map_eq_some_iff, Prod.mk.injEq, Prod.exists,
    List.mem_zipIdx_iff_getElem?]
  constructor
  · rintro ⟨slot, place, stored, text, rfl, same, rfl⟩
    have inside := (List.getElem?_eq_some_iff.mp stored).1
    have bounded := valid.bounded
    have small : place < UInt32.size := lt_of_lt_of_le inside bounded
    rw [← same, resolve, UInt32.toNat_ofNat_of_lt' small, stored]
    rfl
  · intro live
    rw [resolve, Option.join_eq_some_iff] at live
    exact ⟨some key, index.toNat, live, key, rfl, UInt32.ofNat_toNat, rfl⟩

/-- Reclaiming keeps what is in use and nothing else. -/
theorem reclaim_spec (valid : interner.Valid) (used : UInt32 → Bool) :
    (interner.reclaim used).1.Valid ∧
      (∀ index, (interner.reclaim used).1.resolve index =
        if used index then interner.resolve index else none) ∧
      (interner.reclaim used).1.backward.length = interner.backward.length := by
  have loop : ∀ (dead : List Text) (current : Interner) (count : Nat), current.Valid →
      (dead.foldl (fun state key =>
        let freed := state.1.freeKey key
        (freed.1, if freed.2 then state.2 + 1 else state.2)) (current, count)).1.Valid ∧
      (∀ index, (dead.foldl (fun state key =>
        let freed := state.1.freeKey key
        (freed.1, if freed.2 then state.2 + 1 else state.2)) (current, count)).1.resolve index =
          if ∃ key ∈ dead, current.resolve index = some key then none
          else current.resolve index) ∧
      (dead.foldl (fun state key =>
        let freed := state.1.freeKey key
        (freed.1, if freed.2 then state.2 + 1 else state.2)) (current, count)).1.backward.length =
          current.backward.length := by
    intro dead
    induction dead with
    | nil => simp
    | cons key rest induction =>
      intro current count currentValid
      rcases induction (current.freeKey key).1
        (if (current.freeKey key).2 then count + 1 else count) (currentValid.freeKey key) with
        ⟨laterValid, resolved, length⟩
      refine ⟨laterValid, ?_, length.trans (length_freeKey current key)⟩
      intro index
      refine (resolved index).trans ?_
      rw [resolve_freeKey currentValid]
      by_cases here : current.resolve index = some key
      · simp [here]
      · simp [here]
  have dead : ∀ index key, interner.resolve index = some key →
      (key ∈ (interner.entries.filter fun entry => !used entry.1).map Prod.snd ↔
        used index = false) := by
    intro index key live
    simp only [List.mem_map, List.mem_filter, Prod.exists, mem_entries valid,
      Bool.not_eq_true', exists_eq_right]
    constructor
    · rintro ⟨other, found, unused⟩
      have one := ((valid.get_iff key other).mpr found).symm.trans
        ((valid.get_iff key index).mpr live)
      rwa [← Option.some.inj one]
    · intro unused
      exact ⟨index, live, unused⟩
  rcases loop ((interner.entries.filter fun entry => !used entry.1).map Prod.snd) interner 0 valid
    with ⟨kept, resolved, length⟩
  refine ⟨kept, fun index => (resolved index).trans ?_, length⟩
  cases live : interner.resolve index with
  | none => simp
  | some key =>
    have freed := dead index key live
    cases inUse : used index with
    | true =>
      rw [inUse] at freed
      rw [if_neg, if_pos rfl]
      rintro ⟨other, member, same⟩
      cases Option.some.inj same
      exact Bool.noConfusion (freed.mp member)
    | false => exact if_pos ⟨key, freed.mpr inUse, rfl⟩

end Free

/-- A live index keeps its string. -/
theorem Extends.resolve {interner grown : Interner} (grows : interner.Extends grown)
    (valid : interner.Valid) (grownValid : grown.Valid) {index : UInt32}
    (live : (interner.resolve index).isSome) : grown.resolve index = interner.resolve index := by
  rcases Option.isSome_iff_exists.mp live with ⟨key, known⟩
  rw [known]
  exact (grownValid.get_iff key index).mp (grows key index ((valid.get_iff key index).mpr known))

end Interner

namespace Dictionary

/-- Resolve a predicate id; `u32::MAX` stands for no id. -/
def predicateToString (dict : Dictionary) (id : UInt32) : Option Text :=
  if id.toNat = 2 ^ 32 - 1 then none else dict.predicates.resolve id

/-- Free every id that is not in the given sets, and count them. -/
def reclaimUnused (dict : Dictionary) (entLit preds : UInt32 → Bool) : Dictionary × Nat :=
  let entities := dict.entities.reclaim entLit
  let literals := dict.literals.reclaim fun index => entLit (index + UInt32.ofNat literalFirstId)
  let predicates := dict.predicates.reclaim preds
  ({ entities := entities.1, literals := literals.1, predicates := predicates.1 },
    entities.2 + literals.2 + predicates.2)

theorem Valid.reclaimUnused {dict : Dictionary} (valid : dict.Valid) (entLit preds : UInt32 → Bool) :
    (dict.reclaimUnused entLit preds).1.Valid := by
  have entities := Interner.reclaim_spec valid.entities entLit
  have literals := Interner.reclaim_spec valid.literals
    fun index => entLit (index + UInt32.ofNat literalFirstId)
  have predicates := Interner.reclaim_spec valid.predicates preds
  refine ⟨entities.1, literals.1, predicates.1, ?_, ?_⟩
  · exact entities.2.2.le.trans valid.entities_bounded
  · have bounded := valid.literals_bounded
    have same : (dict.reclaimUnused entLit preds).1.literals.backward.length =
        dict.literals.backward.length := literals.2.2
    omega

/-! ## Ids in use -/

/-- What stands behind an entity or a literal id. -/
def slot (dict : Dictionary) (id : UInt32) : Option Text :=
  if literalFirstId ≤ id.toNat then dict.literals.resolve (id - UInt32.ofNat literalFirstId)
  else dict.entities.resolve id

theorem idToString_eq (dict : Dictionary) (id : UInt32) :
    dict.idToString id = if id.toNat = 2 ^ 32 - 1 then none else dict.slot id := rfl

/-- The ids that a triple uses are those of strings. -/
structure Live (dict : Dictionary) (id : IdTriple) : Prop where
  sub : (dict.slot id.sub).isSome
  pred : (dict.predicates.resolve id.pred).isSome
  obj : (dict.slot id.obj).isSome

section Live

variable {dict grown : Dictionary} {id : UInt32}

theorem slot_of_entityId (valid : dict.Valid) {key : Text} (known : dict.entityId key = some id) :
    dict.slot id = some key := by
  have below := valid.entities.index_lt known
  have bounded := valid.entities_bounded
  rw [slot, if_neg (by omega)]
  exact (valid.entities.get_iff key id).mp known

theorem idToString_of_entityId (valid : dict.Valid) {key : Text}
    (known : dict.entityId key = some id) : dict.idToString id = some key := by
  have below := valid.entities.index_lt known
  have bounded := valid.entities_bounded
  have first : literalFirstId = 2000000000 := rfl
  rw [idToString_eq, if_neg (by omega), slot_of_entityId valid known]

theorem slot_of_termId (valid : dict.Valid) {term : Term} (known : dict.termId term = some id) :
    dict.slot id = some term.dictKey := by
  rw [termId] at known
  split at known
  · rw [literalId, Option.map_eq_some_iff] at known
    rcases known with ⟨index, found, rfl⟩
    have shift : (UInt32.ofNat literalFirstId).toNat = literalFirstId := rfl
    have inside := valid.literals.index_lt found
    have bounded := valid.literals_bounded
    rw [slot, if_pos, UInt32.add_sub_cancel]
    · exact (valid.literals.get_iff _ index).mp found
    · rw [UInt32.toNat_add, shift, Nat.mod_eq_of_lt (by omega)]
      omega
  · exact slot_of_entityId valid known

theorem live_of_lookup (valid : dict.Valid) {triple : Triple} {id : IdTriple}
    (known : dict.lookup triple = some id) : dict.Live id := by
  rw [lookup_eq_some_iff] at known
  rcases known with ⟨sub, pred, obj⟩
  refine ⟨?_, ?_, ?_⟩
  · rw [slot_of_entityId valid sub, Option.isSome_some]
  · rw [(valid.predicates.get_iff _ _).mp pred, Option.isSome_some]
  · rw [slot_of_termId valid obj, Option.isSome_some]

end Live

/-! ## Strings that stay -/

/-- The strings of these ids are the same in both dictionaries. -/
structure Agrees (dict other : Dictionary) (id : IdTriple) : Prop where
  sub : other.slot id.sub = dict.slot id.sub
  pred : other.predicates.resolve id.pred = dict.predicates.resolve id.pred
  obj : other.slot id.obj = dict.slot id.obj

section Agrees

variable {dict other : Dictionary} {id : IdTriple}

theorem Extends.slot {grown : Dictionary} (grows : dict.Extends grown) (valid : dict.Valid)
    (grownValid : grown.Valid) {id : UInt32} (live : (dict.slot id).isSome) :
    grown.slot id = dict.slot id := by
  rw [Dictionary.slot] at live ⊢
  rw [Dictionary.slot]
  split
  · rename_i literal
    rw [if_pos literal] at live
    exact grows.literals.resolve valid.literals grownValid.literals live
  · rename_i literal
    rw [if_neg literal] at live
    exact grows.entities.resolve valid.entities grownValid.entities live

theorem Extends.agrees {grown : Dictionary} (grows : dict.Extends grown) (valid : dict.Valid)
    (grownValid : grown.Valid) (live : dict.Live id) : dict.Agrees grown id where
  sub := grows.slot valid grownValid live.sub
  pred := grows.predicates.resolve valid.predicates grownValid.predicates live.pred
  obj := grows.slot valid grownValid live.obj

theorem Extends.entityId_of_live {grown : Dictionary} (grows : dict.Extends grown)
    (valid : dict.Valid) (grownValid : grown.Valid) {key : Text} {id : UInt32}
    (known : grown.entityId key = some id) (live : (dict.slot id).isSome) :
    dict.entityId key = some id := by
  have below := grownValid.entities.index_lt known
  have bounded := grownValid.entities_bounded
  have same := grows.slot valid grownValid live
  rw [slot_of_entityId grownValid known, Dictionary.slot, if_neg (by omega)] at same
  exact (valid.entities.get_iff key id).mpr same.symm

/-- A string that a larger dictionary knows under a live id is known under it. -/
theorem Extends.lookup_of_live {grown : Dictionary} (grows : dict.Extends grown) (valid : dict.Valid)
    (grownValid : grown.Valid) {triple : Triple} (known : grown.lookup triple = some id)
    (live : dict.Live id) : dict.lookup triple = some id := by
  rw [lookup_eq_some_iff] at known ⊢
  refine ⟨?_, ?_, ?_⟩
  · exact grows.entityId_of_live valid grownValid known.1 live.sub
  · have same := grows.predicates.resolve valid.predicates grownValid.predicates live.pred
    rw [(grownValid.predicates.get_iff _ _).mp known.2.1] at same
    exact (valid.predicates.get_iff _ _).mpr same.symm
  · have object := known.2.2
    rw [Dictionary.termId] at object ⊢
    split at object
    · rename_i literal
      rw [if_pos literal]
      have same := grows.slot valid grownValid live.obj
      rw [slot_of_termId grownValid known.2.2] at same
      rw [literalId, Option.map_eq_some_iff] at object ⊢
      rcases object with ⟨index, found, shifted⟩
      refine ⟨index, ?_, shifted⟩
      have shift : (UInt32.ofNat literalFirstId).toNat = literalFirstId := rfl
      have inside := grownValid.literals.index_lt found
      have bounded := grownValid.literals_bounded
      rw [Dictionary.slot, ← shifted, if_pos, UInt32.add_sub_cancel] at same
      · exact (valid.literals.get_iff _ _).mpr same.symm
      · rw [UInt32.toNat_add, shift, Nat.mod_eq_of_lt (by omega)]
        omega
    · rename_i entity
      rw [if_neg entity]
      exact grows.entityId_of_live valid grownValid object live.obj

/-- What is in use keeps its string. -/
theorem slot_reclaimUnused (valid : dict.Valid) {entLit preds : UInt32 → Bool} {id : UInt32}
    (used : entLit id = true) : (dict.reclaimUnused entLit preds).1.slot id = dict.slot id := by
  simp only [slot, reclaimUnused]
  rw [(Interner.reclaim_spec valid.entities entLit).2.1 id,
    (Interner.reclaim_spec valid.literals
      fun index => entLit (index + UInt32.ofNat literalFirstId)).2.1]
  simp [used]

theorem agrees_reclaimUnused (valid : dict.Valid) {entLit preds : UInt32 → Bool}
    (sub : entLit id.sub = true) (pred : preds id.pred = true) (obj : entLit id.obj = true) :
    dict.Agrees (dict.reclaimUnused entLit preds).1 id where
  sub := slot_reclaimUnused valid sub
  pred := by
    simp only [reclaimUnused]
    rw [(Interner.reclaim_spec valid.predicates preds).2.1 id.pred, if_pos pred]
  obj := slot_reclaimUnused valid obj

theorem Agrees.live (agrees : dict.Agrees other id) (live : dict.Live id) : other.Live id where
  sub := agrees.sub ▸ live.sub
  pred := agrees.pred ▸ live.pred
  obj := agrees.obj ▸ live.obj

theorem Agrees.trans {last : Dictionary} (first : dict.Agrees other id)
    (second : other.Agrees last id) : dict.Agrees last id where
  sub := second.sub.trans first.sub
  pred := second.pred.trans first.pred
  obj := second.obj.trans first.obj

end Agrees

end Dictionary

end GStore.Dict
