import GStore.Store.Refinement

/-! # The triple-access interface

`TripleSource` is the trait the query engine evaluates against. A source
describes a set of triples when every access pattern lists the corresponding
projection of the set without repetition, and every statistic is its size. -/

namespace GStore.Store

open SortedSlice

structure TripleSource where
  «exists» : UInt32 → UInt32 → UInt32 → Bool
  poByS : UInt32 → List (UInt32 × UInt32)
  oBySp : UInt32 → UInt32 → List UInt32
  pBySo : UInt32 → UInt32 → List UInt32
  psByO : UInt32 → List (UInt32 × UInt32)
  sByPo : UInt32 → UInt32 → List UInt32
  soByP : UInt32 → List (UInt32 × UInt32)
  subsByP : UInt32 → List UInt32
  objsByP : UInt32 → List UInt32
  subjectKeys : List UInt32
  objectKeys : List UInt32
  tripleCount : Nat
  distinctSubjects : Nat
  distinctObjects : Nat
  numPredicates : Nat
  predCard : UInt32 → Nat
  predDistinctSubj : UInt32 → Nat
  predDistinctObj : UInt32 → Nat
  iterAll : List IdTriple

/-- `impl TripleSource for TripleStore`. -/
def TripleStore.source (store : TripleStore) : TripleSource where
  «exists» := store.exists
  poByS := store.poByS
  oBySp := store.oBySp
  pBySo := store.pBySo
  psByO := store.psByO
  sByPo := store.sByPo
  soByP := store.soByP
  subsByP := store.subsByP
  objsByP := store.objsByP
  subjectKeys := store.subjectKeys
  objectKeys := store.objectKeys
  tripleCount := store.tripleCount
  distinctSubjects := store.distinctSubjects
  distinctObjects := store.distinctObjects
  numPredicates := store.numPredicates
  predCard := store.predCard
  predDistinctSubj := store.predDistinctSubj
  predDistinctObj := store.predDistinctObj
  iterAll := store.iterAll

/-! ## Enumerations -/

/-- The list holds exactly the elements with the property, each once. -/
structure Enumerates {α : Type*} (list : List α) (holds : α → Prop) : Prop where
  nodup : list.Nodup
  mem_iff : ∀ element, element ∈ list ↔ holds element

/-- An enumeration in ascending order; it is determined by the property. -/
structure Ascends {α : Type*} (less : α → α → Prop) (list : List α)
    (holds : α → Prop) : Prop extends Enumerates list holds where
  ordered : list.Pairwise less

section Enumeration

variable {α β : Type*} {list : List α} {holds : α → Prop}

theorem Ascends.of_pairwise [Preorder α] (ordered : list.Pairwise (· < ·))
    (mem_iff : ∀ element, element ∈ list ↔ holds element) :
    Ascends (· < ·) list holds where
  nodup := ordered.imp ne_of_lt
  mem_iff := mem_iff
  ordered := ordered

theorem Enumerates.congr {other : α → Prop} (enumerates : Enumerates list holds)
    (same : ∀ element, holds element ↔ other element) : Enumerates list other where
  nodup := enumerates.nodup
  mem_iff element := (enumerates.mem_iff element).trans (same element)

theorem Ascends.congr {less : α → α → Prop} {other : α → Prop}
    (ascends : Ascends less list holds)
    (same : ∀ element, holds element ↔ other element) : Ascends less list other where
  toEnumerates := ascends.toEnumerates.congr same
  ordered := ascends.ordered

theorem Enumerates.length_eq_card [DecidableEq α] (enumerates : Enumerates list holds)
    (set : Finset α) (members : ∀ element, element ∈ set ↔ holds element) :
    list.length = set.card := by
  rw [← List.toFinset_card_of_nodup enumerates.nodup]
  congr 1
  ext element
  rw [List.mem_toFinset, enumerates.mem_iff, members]

end Enumeration

/-- The order of the `(u32, u32)` results. -/
def PairLt (left right : UInt32 × UInt32) : Prop := toLex left < toLex right

/-- The order of `iter_all`: by predicate, then subject, then object. -/
def PredicateMajor (left right : IdTriple) : Prop :=
  left.pred < right.pred ∨
    (left.pred = right.pred ∧ PairLt (left.sub, left.obj) (right.sub, right.obj))

/-- A source whose every answer is the projection of one set of triples. The
lists other than `iterAll` come out ascending. -/
structure TripleSource.Describes (source : TripleSource) (triples : Finset IdTriple) :
    Prop where
  exists_iff : ∀ sub pred obj, source.exists sub pred obj = true ↔ ⟨sub, pred, obj⟩ ∈ triples
  poByS : ∀ sub, Ascends PairLt (source.poByS sub)
    fun pair => ⟨sub, pair.1, pair.2⟩ ∈ triples
  oBySp : ∀ sub pred, Ascends (· < ·) (source.oBySp sub pred)
    fun obj => ⟨sub, pred, obj⟩ ∈ triples
  pBySo : ∀ sub obj, Ascends (· < ·) (source.pBySo sub obj)
    fun pred => ⟨sub, pred, obj⟩ ∈ triples
  psByO : ∀ obj, Ascends PairLt (source.psByO obj)
    fun pair => ⟨pair.2, pair.1, obj⟩ ∈ triples
  sByPo : ∀ pred obj, Ascends (· < ·) (source.sByPo pred obj)
    fun sub => ⟨sub, pred, obj⟩ ∈ triples
  soByP : ∀ pred, Ascends PairLt (source.soByP pred)
    fun pair => ⟨pair.1, pred, pair.2⟩ ∈ triples
  subsByP : ∀ pred, Ascends (· < ·) (source.subsByP pred)
    fun sub => ∃ obj, ⟨sub, pred, obj⟩ ∈ triples
  objsByP : ∀ pred, Ascends (· < ·) (source.objsByP pred)
    fun obj => ∃ sub, ⟨sub, pred, obj⟩ ∈ triples
  subjectKeys : Ascends (· < ·) source.subjectKeys
    fun sub => ∃ pred obj, ⟨sub, pred, obj⟩ ∈ triples
  objectKeys : Ascends (· < ·) source.objectKeys
    fun obj => ∃ sub pred, ⟨sub, pred, obj⟩ ∈ triples
  iterAll : Enumerates source.iterAll fun triple => triple ∈ triples
  tripleCount : source.tripleCount = triples.card
  distinctSubjects : source.distinctSubjects = (triples.image IdTriple.sub).card
  distinctObjects : source.distinctObjects = (triples.image IdTriple.obj).card
  numPredicates : source.numPredicates = (triples.image IdTriple.pred).card
  predCard : ∀ pred, source.predCard pred =
    (triples.filter fun triple => triple.pred = pred).card
  predDistinctSubj : ∀ pred, source.predDistinctSubj pred =
    ((triples.filter fun triple => triple.pred = pred).image IdTriple.sub).card
  predDistinctObj : ∀ pred, source.predDistinctObj pred =
    ((triples.filter fun triple => triple.pred = pred).image IdTriple.obj).card

/-! ## The in-memory store describes the set it refines -/

/-- Counting transitions along a list counts what `dedup` keeps. -/
theorem foldl_transitions_eq_length_destutter (ids : List UInt32) :
    (ids.foldl (fun (state : Nat × Option UInt32) id =>
      if state.2 ≠ some id then (state.1 + 1, some id) else state) (0, none)).1 =
      (ids.destutter (· ≠ ·)).length := by
  have running : ∀ (rest : List UInt32) (count : Nat) (last : UInt32),
      (rest.foldl (fun (state : Nat × Option UInt32) id =>
        if state.2 ≠ some id then (state.1 + 1, some id) else state)
        (count, some last)).1 + 1 = count + (rest.destutter' (· ≠ ·) last).length := by
    intro rest
    induction rest with
    | nil => simp
    | cons head tail induction =>
      intro count last
      by_cases same : last = head
      · simpa [same] using induction count head
      · have step := induction (count + 1) head
        simp only [ne_eq] at step
        simp only [List.foldl_cons, ne_eq, Option.some.injEq, same, not_false_eq_true,
          if_true, List.destutter'_cons, List.length_cons]
        omega
  cases ids with
  | nil => rfl
  | cons head tail =>
    have rest := running tail 1 head
    simp only [List.foldl_cons, List.destutter_cons']
    simp only [ne_eq, reduceCtorEq, not_false_eq_true, if_true, Nat.zero_add] at rest ⊢
    omega

section Describes

variable {store : TripleStore} {triples : Finset IdTriple}

theorem Indexes.ascends_getD {index : AdjMap} {related : UInt32 → Pair → Prop}
    (indexes : Indexes index related) (key : UInt32) :
    Ascends PairLt ((index.getD key []).map ofLex) fun pair => related key (toLex pair) where
  nodup := (List.nodup_map_iff ofLex.injective).mpr
    ((indexes.getD_ascending key).imp ne_of_lt)
  mem_iff pair := by
    rw [← indexes.mem_iff]
    constructor
    · intro member
      obtain ⟨original, present, rfl⟩ := List.mem_map.mp member
      exact present
    · intro member
      exact List.mem_map.mpr ⟨toLex pair, member, rfl⟩
  ordered := List.pairwise_map.mpr (indexes.getD_ascending key)

/-- The second components of the range with a given first component. -/
theorem Indexes.ascends_range {index : AdjMap} {related : UInt32 → Pair → Prop}
    (indexes : Indexes index related) (key first : UInt32) :
    Ascends (· < ·)
      (match index[key]? with
        | some vec => (rangeByFirst vec first).map fun pair => (ofLex pair).2
        | none => [])
      fun second => related key (.mk first second) := by
  have range : (match index[key]? with
        | some vec => (rangeByFirst vec first).map fun pair => (ofLex pair).2
        | none => []) =
      ((index.getD key []).filter fun pair => decide ((ofLex pair).1 = first)).map
        fun pair => (ofLex pair).2 := by
    rw [getD_eq]
    cases entry : index[key]? with
    | none => rfl
    | some vec =>
      simp only [Option.getD_some]
      rw [rangeByFirst_eq_filter vec (indexes.ascending key vec entry)]
  rw [range]
  apply Ascends.of_pairwise
  · refine List.pairwise_map.mpr ((List.pairwise_filter).mpr ?_)
    refine (indexes.getD_ascending key).imp ?_
    intro left right less leftFirst rightFirst
    simp only [decide_eq_true_eq] at leftFirst rightFirst
    exact Pair.snd_lt_of_lt_of_fst_eq less (leftFirst.trans rightFirst.symm)
  · intro second
    rw [← indexes.mem_iff]
    constructor
    · intro member
      obtain ⟨pair, kept, rfl⟩ := List.mem_map.mp member
      obtain ⟨present, sameFirst⟩ := List.mem_filter.mp kept
      have rebuilt : pair = .mk first (ofLex pair).2 :=
        Pair.eq_mk_iff.mpr ⟨by simpa using sameFirst, rfl⟩
      exact rebuilt ▸ present
    · intro member
      exact List.mem_map.mpr ⟨_, List.mem_filter.mpr ⟨member, by simp⟩, rfl⟩

theorem Refines.exists_iff (refines : Refines store triples) (sub pred obj : UInt32) :
    store.exists sub pred obj = true ↔ ⟨sub, pred, obj⟩ ∈ triples := by
  have member := refines.s2po.mem_iff sub (.mk pred obj)
  rw [getD_eq] at member
  rw [show (⟨sub, pred, obj⟩ : IdTriple) = ofSub sub (.mk pred obj) from rfl, ← member,
    TripleStore.exists]
  cases entry : store.s2po[sub]? with
  | none => simp
  | some vec =>
    exact binarySearch_isOk_iff vec (refines.s2po.ascending sub vec entry) _

theorem Refines.pBySo (refines : Refines store triples) (sub obj : UInt32) :
    Ascends (· < ·) (store.pBySo sub obj) fun pred => ⟨sub, pred, obj⟩ ∈ triples := by
  have unfolded : store.pBySo sub obj =
      (((store.s2po.getD sub []).filter fun pair => decide ((ofLex pair).2 = obj)).map
        fun pair => (ofLex pair).1).destutter (· ≠ ·) := by
    rw [getD_eq, TripleStore.pBySo]
    cases store.s2po[sub]? <;> rfl
  have ascending : (((store.s2po.getD sub []).filter
      fun pair => decide ((ofLex pair).2 = obj)).map
        fun pair => (ofLex pair).1).Pairwise (· ≤ ·) :=
    List.pairwise_map.mpr
      (((refines.s2po.getD_ascending sub).sublist List.filter_sublist).imp
        Pair.fst_le_of_lt)
  rw [unfolded]
  refine Ascends.of_pairwise (destutter_pairwise ascending) ?_
  intro pred
  rw [mem_destutter ascending,
    show (⟨sub, pred, obj⟩ : IdTriple) = ofSub sub (.mk pred obj) from rfl,
    ← refines.s2po.mem_iff]
  constructor
  · intro member
    obtain ⟨pair, kept, rfl⟩ := List.mem_map.mp member
    obtain ⟨present, sameObject⟩ := List.mem_filter.mp kept
    have rebuilt : pair = .mk (ofLex pair).1 obj :=
      Pair.eq_mk_iff.mpr ⟨rfl, by simpa using sameObject⟩
    exact rebuilt ▸ present
  · intro member
    exact List.mem_map.mpr ⟨_, List.mem_filter.mpr ⟨member, by simp⟩, rfl⟩

theorem Refines.soByP (refines : Refines store triples) (pred : UInt32) :
    Ascends PairLt (store.soByP pred) fun pair => ⟨pair.1, pred, pair.2⟩ ∈ triples :=
  refines.p2so.ascends_getD pred

theorem Refines.subsByP (refines : Refines store triples) (pred : UInt32) :
    Ascends (· < ·) (store.subsByP pred) fun sub => ∃ obj, ⟨sub, pred, obj⟩ ∈ triples := by
  have pairs := refines.soByP pred
  have ascending : ((store.soByP pred).map Prod.fst).Pairwise (· ≤ ·) :=
    List.pairwise_map.mpr (pairs.ordered.imp fun less => Pair.fst_le_of_lt less)
  refine Ascends.of_pairwise (destutter_pairwise ascending) ?_
  intro sub
  rw [TripleStore.subsByP, mem_destutter ascending]
  simp [pairs.mem_iff]

theorem Refines.objsByP (refines : Refines store triples) (pred : UInt32) :
    Ascends (· < ·) (store.objsByP pred) fun obj => ∃ sub, ⟨sub, pred, obj⟩ ∈ triples := by
  refine Ascends.of_pairwise (sortDedup_pairwise _) ?_
  intro obj
  rw [TripleStore.objsByP, mem_sortDedup]
  simp [(refines.soByP pred).mem_iff]

theorem Refines.subjectKeys (refines : Refines store triples) :
    Ascends (· < ·) store.subjectKeys fun sub => ∃ pred obj, ⟨sub, pred, obj⟩ ∈ triples := by
  refine Ascends.of_pairwise (keys_ascending _) ?_
  intro sub
  rw [TripleStore.subjectKeys, mem_keys_iff refines.s2po.toLists]
  exact ⟨fun ⟨pair, member⟩ => ⟨_, _, member⟩, fun ⟨pred, obj, member⟩ => ⟨.mk pred obj, member⟩⟩

theorem Refines.objectKeys (refines : Refines store triples) :
    Ascends (· < ·) store.objectKeys fun obj => ∃ sub pred, ⟨sub, pred, obj⟩ ∈ triples := by
  refine Ascends.of_pairwise (keys_ascending _) ?_
  intro obj
  rw [TripleStore.objectKeys, mem_keys_iff refines.o2ps.toLists]
  exact ⟨fun ⟨pair, member⟩ => ⟨_, _, member⟩, fun ⟨sub, pred, member⟩ => ⟨.mk pred sub, member⟩⟩

theorem Refines.predicates (refines : Refines store triples) :
    Ascends (· < ·) store.predicates fun pred => ∃ sub obj, ⟨sub, pred, obj⟩ ∈ triples := by
  refine Ascends.of_pairwise (keys_ascending _) ?_
  intro pred
  rw [TripleStore.predicates, mem_keys_iff refines.p2so.toLists]
  exact ⟨fun ⟨pair, member⟩ => ⟨_, _, member⟩, fun ⟨sub, obj, member⟩ => ⟨.mk sub obj, member⟩⟩

theorem Refines.iterAll (refines : Refines store triples) :
    Enumerates store.iterAll fun triple => triple ∈ triples where
  nodup := nodup_flatten refines.p2so ofPred fun _ _ _ _ same => ofPred_eq_iff.mp same
  mem_iff triple := by
    refine (mem_flatten refines.p2so.toLists ofPred triple).trans ?_
    constructor
    · rintro ⟨pred, pair, member, rfl⟩
      exact member
    · intro member
      exact ⟨triple.pred, .mk triple.sub triple.obj, member, rfl⟩

/-- A store holds one set. -/
theorem Refines.unique {other : Finset IdTriple} (refines : Refines store triples)
    (also : Refines store other) : triples = other := by
  ext triple
  rw [← refines.iterAll.mem_iff, also.iterAll.mem_iff]

theorem Refines.predCard (refines : Refines store triples) (pred : UInt32) :
    store.predCard pred = (triples.filter fun triple => triple.pred = pred).card := by
  have pairs := refines.soByP pred
  have built : Enumerates ((store.soByP pred).map fun pair => ⟨pair.1, pred, pair.2⟩)
      fun triple : IdTriple => triple ∈ triples ∧ triple.pred = pred := by
    refine ⟨pairs.nodup.map ?_, ?_⟩
    · intro left right same
      simpa [Prod.ext_iff] using same
    · intro triple
      obtain ⟨sub, pred', obj⟩ := triple
      simp only [List.mem_map, pairs.mem_iff, IdTriple.mk.injEq, Prod.exists]
      constructor
      · rintro ⟨sub', obj', member, rfl, rfl, rfl⟩
        exact ⟨member, rfl⟩
      · rintro ⟨member, rfl⟩
        exact ⟨sub, obj, member, rfl, rfl, rfl⟩
  rw [TripleStore.predCard, ← built.length_eq_card, List.length_map]
  intro triple
  simp

/-- `iter_all` lists the triples by predicate, then subject, then object. -/
theorem Refines.iterAll_ordered (refines : Refines store triples) :
    store.iterAll.Pairwise PredicateMajor := by
  refine List.pairwise_flatMap.mpr ⟨?_, ?_⟩
  · rintro ⟨pred, vec⟩ member
    have entry := Std.TreeMap.mem_toList_iff_getElem?_eq_some.mp member
    refine List.pairwise_map.mpr ((refines.p2so.ascending pred vec entry).imp ?_)
    intro left right less
    exact .inr ⟨rfl, less⟩
  · refine Std.TreeMap.ordered_keys_toList.imp ?_
    rintro ⟨leftPred, leftVec⟩ ⟨rightPred, rightVec⟩ less left leftMember right rightMember
    obtain ⟨leftPair, -, rfl⟩ := List.mem_map.mp leftMember
    obtain ⟨rightPair, -, rfl⟩ := List.mem_map.mp rightMember
    exact .inl (by simpa [compare_lt_iff_lt] using less)

theorem size_eq_length_keys (index : AdjMap) : index.size = index.keys.length :=
  Std.TreeMap.length_keys.symm

theorem Refines.source_describes (refines : Refines store triples) :
    store.source.Describes triples where
  exists_iff := refines.exists_iff
  poByS := refines.s2po.ascends_getD
  oBySp := refines.s2po.ascends_range
  pBySo := refines.pBySo
  psByO := refines.o2ps.ascends_getD
  sByPo pred obj := refines.o2ps.ascends_range obj pred
  soByP := refines.soByP
  subsByP := refines.subsByP
  objsByP := refines.objsByP
  subjectKeys := refines.subjectKeys
  objectKeys := refines.objectKeys
  iterAll := refines.iterAll
  tripleCount := refines.count
  distinctSubjects := by
    refine (size_eq_length_keys _).trans (refines.subjectKeys.length_eq_card _ ?_)
    intro sub
    simp [Finset.mem_image, IdTriple.exists_iff]
  distinctObjects := by
    refine (size_eq_length_keys _).trans (refines.objectKeys.length_eq_card _ ?_)
    intro obj
    simp [Finset.mem_image, IdTriple.exists_iff]
  numPredicates := by
    refine (size_eq_length_keys _).trans (refines.predicates.length_eq_card _ ?_)
    intro pred
    simp [Finset.mem_image, IdTriple.exists_iff]
  predCard pred := refines.predCard pred
  predDistinctSubj pred := by
    refine Eq.trans ?_ ((refines.subsByP pred).length_eq_card _ ?_)
    · rw [TripleStore.subsByP, ← foldl_transitions_eq_length_destutter, List.foldl_map]
      rfl
    · intro sub
      simp [Finset.mem_image, IdTriple.exists_iff]
  predDistinctObj pred := by
    refine (refines.objsByP pred).length_eq_card _ ?_
    intro obj
    simp [Finset.mem_image, IdTriple.exists_iff]

end Describes

/-! ## A source is determined by its set

Two sources that describe one set and list it in the same order give the same
answer to every call. -/

theorem Ascends.eq {α : Type*} {less : α → α → Prop} {left right : List α} {holds : α → Prop}
    (asymmetric : ∀ first second, less first second → ¬ less second first)
    (leftAscends : Ascends less left holds) (rightAscends : Ascends less right holds) :
    left = right := by
  have permuted : left.Perm right := by
    rw [List.perm_ext_iff_of_nodup leftAscends.nodup rightAscends.nodup]
    intro element
    rw [leftAscends.mem_iff, rightAscends.mem_iff]
  exact permuted.eq_of_pairwise
    (fun first second _ _ forward backward => absurd backward (asymmetric first second forward))
    leftAscends.ordered rightAscends.ordered

theorem Ascends.eq_of_lt {α : Type*} [Preorder α] {left right : List α} {holds : α → Prop}
    (leftAscends : Ascends (· < ·) left holds) (rightAscends : Ascends (· < ·) right holds) :
    left = right :=
  leftAscends.eq (fun _ _ => lt_asymm) rightAscends

theorem Ascends.eq_of_pairLt {left right : List (UInt32 × UInt32)}
    {holds : UInt32 × UInt32 → Prop} (leftAscends : Ascends PairLt left holds)
    (rightAscends : Ascends PairLt right holds) : left = right :=
  leftAscends.eq (fun _ _ => lt_asymm) rightAscends

theorem PredicateMajor.asymm {left right : IdTriple} (less : PredicateMajor left right) :
    ¬ PredicateMajor right left := by
  rintro (greater | ⟨same, greater⟩) <;> rcases less with less | ⟨equal, less⟩
  · exact lt_asymm less greater
  · exact absurd greater (by rw [equal]; exact lt_irrefl _)
  · exact absurd less (by rw [same]; exact lt_irrefl _)
  · exact lt_asymm (α := UInt32 ×ₗ UInt32) less greater

theorem TripleSource.Describes.unique {left right : TripleSource} {triples : Finset IdTriple}
    (leftDescribes : left.Describes triples) (rightDescribes : right.Describes triples)
    (leftOrdered : left.iterAll.Pairwise PredicateMajor)
    (rightOrdered : right.iterAll.Pairwise PredicateMajor) : left = right := by
  have existsEq : left.exists = right.exists := by
    funext sub pred obj
    rw [Bool.eq_iff_iff, leftDescribes.exists_iff, rightDescribes.exists_iff]
  have iterEq : left.iterAll = right.iterAll :=
    Ascends.eq (fun _ _ => PredicateMajor.asymm) ⟨leftDescribes.iterAll, leftOrdered⟩
      ⟨rightDescribes.iterAll, rightOrdered⟩
  cases left
  cases right
  rw [TripleSource.mk.injEq]
  refine ⟨existsEq, ?_, ?_, ?_, ?_, ?_, ?_, ?_, ?_, ?_, ?_, ?_, ?_, ?_, ?_, ?_, ?_, ?_, iterEq⟩
  · exact funext fun sub => (leftDescribes.poByS sub).eq_of_pairLt (rightDescribes.poByS sub)
  · exact funext₂ fun sub pred =>
      (leftDescribes.oBySp sub pred).eq_of_lt (rightDescribes.oBySp sub pred)
  · exact funext₂ fun sub obj =>
      (leftDescribes.pBySo sub obj).eq_of_lt (rightDescribes.pBySo sub obj)
  · exact funext fun obj => (leftDescribes.psByO obj).eq_of_pairLt (rightDescribes.psByO obj)
  · exact funext₂ fun pred obj =>
      (leftDescribes.sByPo pred obj).eq_of_lt (rightDescribes.sByPo pred obj)
  · exact funext fun pred => (leftDescribes.soByP pred).eq_of_pairLt (rightDescribes.soByP pred)
  · exact funext fun pred => (leftDescribes.subsByP pred).eq_of_lt (rightDescribes.subsByP pred)
  · exact funext fun pred => (leftDescribes.objsByP pred).eq_of_lt (rightDescribes.objsByP pred)
  · exact leftDescribes.subjectKeys.eq_of_lt rightDescribes.subjectKeys
  · exact leftDescribes.objectKeys.eq_of_lt rightDescribes.objectKeys
  · exact leftDescribes.tripleCount.trans rightDescribes.tripleCount.symm
  · exact leftDescribes.distinctSubjects.trans rightDescribes.distinctSubjects.symm
  · exact leftDescribes.distinctObjects.trans rightDescribes.distinctObjects.symm
  · exact leftDescribes.numPredicates.trans rightDescribes.numPredicates.symm
  · exact funext fun pred => (leftDescribes.predCard pred).trans (rightDescribes.predCard pred).symm
  · exact funext fun pred =>
      (leftDescribes.predDistinctSubj pred).trans (rightDescribes.predDistinctSubj pred).symm
  · exact funext fun pred =>
      (leftDescribes.predDistinctObj pred).trans (rightDescribes.predDistinctObj pred).symm

/-- The six-way index refines a set of triples. From the empty store, any run of
insertions, removals and bulk loads leaves three indexes over one set: each
list is strictly ascending, none is empty, the counter is the set's size, every
reported flag says whether the set changed, and every access pattern and
statistic reads off the set. -/
theorem tripleStore_refines_set (ops : List StoreOp) :
    Refines (runOps TripleStore.new ops).1 (applyOps ∅ ops).1 ∧
      (runOps TripleStore.new ops).2 = (applyOps ∅ ops).2 ∧
      (runOps TripleStore.new ops).1.source.Describes (applyOps ∅ ops).1 := by
  obtain ⟨refines, reports⟩ := Refines.runOps ops refines_new
  exact ⟨refines, reports, refines.source_describes⟩

end GStore.Store
