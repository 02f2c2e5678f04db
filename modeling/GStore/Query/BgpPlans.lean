import GStore.Query.Bgp

/-! # Plans of a basic graph pattern

Over a source that describes a set of triples, a pattern extends a row by joining it with the rows
that the pattern has alone. So the rows of a plan are the join of the rows of all patterns, and the
order of the plan and the shape of its tree only decide the order of the rows. -/

namespace GStore.Query

open Store

variable {width : ℕ} {source : TripleSource} {triples : Finset IdTriple}
  {plan : PatPlan width} {cands : Candidates width}

/-! ## The triples of a pattern -/

/-- A part that is known is that of the triple. -/
def Known (part : Option UInt32) (value : UInt32) : Prop := ∀ id, part = some id → id = value

instance (part : Option UInt32) (value : UInt32) : Decidable (Known part value) :=
  match part with
  | none => .isTrue fun _ none_ => by cases none_
  | some id => decidable_of_iff (id = value)
      ⟨fun same _ held => Option.some.inj held ▸ same, fun known => known id rfl⟩

@[simp] theorem known_none (value : UInt32) : Known none value := fun _ none_ => by cases none_

@[simp] theorem known_some {id value : UInt32} : Known (some id) value ↔ id = value :=
  ⟨fun known => known id rfl, fun same _ held => Option.some.inj held ▸ same⟩

def KnownIn (s p o : Option UInt32) (triple : IdTriple) : Prop :=
  Known s triple.sub ∧ Known p triple.pred ∧ Known o triple.obj

instance (s p o : Option UInt32) (triple : IdTriple) : Decidable (KnownIn s p o triple) :=
  inferInstanceAs (Decidable (_ ∧ _ ∧ _))

/-- An index lists the triples that it is asked for through an injective function. -/
theorem enumerates_map {α : Type} {list : List α} {holds : α → Prop} {build : α → IdTriple}
    {s p o : Option UInt32} (enumerates : Enumerates list holds) (injective : build.Injective)
    (same : ∀ triple, (∃ element, holds element ∧ build element = triple) ↔
      triple ∈ triples ∧ KnownIn s p o triple) :
    Enumerates (list.map build) fun triple => triple ∈ triples ∧ KnownIn s p o triple where
  nodup := enumerates.nodup.map injective
  mem_iff := by
    intro triple
    rw [← same, List.mem_map]
    simp only [enumerates.mem_iff]

theorem enumerates_enumerate (describes : source.Describes triples) (s p o : Option UInt32) :
    Enumerates (enumerate source s p o) fun triple =>
      triple ∈ triples ∧ KnownIn s p o triple := by
  cases s with
  | none =>
    cases p with
    | none =>
      cases o with
      | none =>
        refine describes.iterAll.congr fun triple => ?_
        simp [KnownIn]
      | some o =>
        refine enumerates_map (describes.psByO o).toEnumerates ?_ ?_
        · intro left right same
          simp_all [Prod.ext_iff]
        · rintro ⟨sub, pred, obj⟩
          simp [KnownIn]
          grind
    | some p =>
      cases o with
      | none =>
        refine enumerates_map (describes.soByP p).toEnumerates ?_ ?_
        · intro left right same
          simp_all [Prod.ext_iff]
        · rintro ⟨sub, pred, obj⟩
          simp [KnownIn]
          grind
      | some o =>
        refine enumerates_map (describes.sByPo p o).toEnumerates ?_ ?_
        · intro left right same
          simp_all
        · rintro ⟨sub, pred, obj⟩
          simp [KnownIn]
          grind
  | some s =>
    cases p with
    | none =>
      cases o with
      | none =>
        refine enumerates_map (describes.poByS s).toEnumerates ?_ ?_
        · intro left right same
          simp_all [Prod.ext_iff]
        · rintro ⟨sub, pred, obj⟩
          simp [KnownIn]
          grind
      | some o =>
        refine enumerates_map (describes.pBySo s o).toEnumerates ?_ ?_
        · intro left right same
          simp_all
        · rintro ⟨sub, pred, obj⟩
          simp [KnownIn]
          grind
    | some p =>
      cases o with
      | none =>
        refine enumerates_map (describes.oBySp s p).toEnumerates ?_ ?_
        · intro left right same
          simp_all
        · rintro ⟨sub, pred, obj⟩
          simp [KnownIn]
          grind
      | some o =>
        have known : ∀ triple : IdTriple, KnownIn (some s) (some p) (some o) triple ↔
            triple = ⟨s, p, o⟩ := by
          rintro ⟨sub, pred, obj⟩
          simp [KnownIn, eq_comm]
        rw [enumerate]
        split
        · rename_i found
          refine ⟨List.nodup_singleton _, fun triple => ?_⟩
          rw [known, List.mem_singleton, and_iff_right_of_imp]
          rintro rfl
          exact (describes.exists_iff s p o).mp found
        · rename_i missing
          refine ⟨List.nodup_nil, fun triple => ?_⟩
          rw [known]
          refine iff_of_false List.not_mem_nil ?_
          rintro ⟨member, rfl⟩
          exact missing ((describes.exists_iff s p o).mpr member)

/-! ## Extension as a join -/

/-- The row of one slot. -/
def slotRow (slot : Slot width) (value : UInt32) : Option (Row width) :=
  unify (unboundRow width) slot value

theorem mergeBindings_unboundRow (row : Row width) :
    mergeBindings row (unboundRow width) = some row := by
  rw [merging_mergeBindings.comm, merging_mergeBindings.unit_left]

theorem unify_eq (binding : Row width) (slot : Slot width) (value : UInt32) :
    unify binding slot value = (slotRow slot value).bind (mergeBindings binding) := by
  cases slot with
  | const id =>
    rw [slotRow, unify, unify]
    split
    · exact (mergeBindings_unboundRow binding).symm
    · rfl
  | var index =>
    have single : slotRow (.var index) value =
        some (Function.update (unboundRow width) index (some value)) := rfl
    have agree : ∀ other, other ≠ index →
        Agree (binding other) (Function.update (unboundRow width) index (some value) other) := by
      intro other different
      rw [Function.update_of_ne different]
      exact .inr (.inl rfl)
    have compatible : Compatible binding (Function.update (unboundRow width) index (some value)) ↔
        Agree (binding index) (some value) := by
      constructor
      · intro all
        have here := all index
        rwa [Function.update_self] at here
      · intro here other
        by_cases same : other = index
        · rwa [same, Function.update_self]
        · exact agree other same
    have merged : (fun other =>
        (Function.update (unboundRow width) index (some value) other).or (binding other)) =
        Function.update binding index (some value) := by
      funext other
      by_cases same : other = index
      · rw [same, Function.update_self, Function.update_self, Option.some_or]
      · rw [Function.update_of_ne same, Function.update_of_ne same]
        rfl
    rw [single, Option.bind_some, mergeBindings_eq, merged, unify]
    simp only [compatible]
    cases held : binding index with
    | none => rw [if_pos (.inl rfl)]
    | some existing =>
      dsimp only
      by_cases same : existing = value
      · have agrees : Agree (some existing) (some value) := .inr (.inr (congrArg some same))
        rw [if_pos same, if_pos agrees, ← same, ← held, Function.update_eq_self]
      · have differs : ¬ Agree (some existing) (some value) := by simp [Agree, same]
        rw [if_neg same, if_neg differs]

/-- A triple extends a row by the row that it has alone. -/
theorem unifyTriple_eq (binding : Row width) (triple : IdTriple) :
    unifyTriple plan binding triple =
      (unifyTriple plan (unboundRow width) triple).bind (mergeBindings binding) := by
  have assoc := (@merging_mergeBindings width).assoc
  have alone : ∀ start : Row width, unifyTriple plan start triple =
      (slotRow plan.s triple.sub).bind fun s => (slotRow plan.p triple.pred).bind fun p =>
        (slotRow plan.o triple.obj).bind fun o =>
          ((mergeBindings start s).bind (mergeBindings · p)).bind (mergeBindings · o) := by
    intro start
    rw [unifyTriple, unify_eq]
    simp only [unify_eq]
    cases slotRow plan.s triple.sub with
    | none => rfl
    | some s =>
      cases slotRow plan.p triple.pred with
      | none => cases first : mergeBindings start s <;> simp [first]
      | some p =>
        cases slotRow plan.o triple.obj with
        | none =>
          cases first : mergeBindings start s with
          | none => simp [first]
          | some row => cases second : mergeBindings row p <;> simp [first]
        | some o =>
          cases first : mergeBindings start s with
          | none => simp [first]
          | some row => cases second : mergeBindings row p <;> simp [first, second]
  rw [alone, alone]
  cases slotRow plan.s triple.sub with
  | none => rfl
  | some s =>
    cases slotRow plan.p triple.pred with
    | none => rfl
    | some p =>
      cases slotRow plan.o triple.obj with
      | none => rfl
      | some o =>
        simp only [Option.bind_some, merging_mergeBindings.unit_left]
        calc ((mergeBindings binding s).bind (mergeBindings · p)).bind (mergeBindings · o)
          _ = ((mergeBindings s p).bind (mergeBindings binding)).bind
              (mergeBindings · o) := by rw [assoc]
          _ = (mergeBindings s p).bind fun row =>
              (mergeBindings binding row).bind (mergeBindings · o) := Option.bind_assoc ..
          _ = (mergeBindings s p).bind fun row =>
              (mergeBindings row o).bind (mergeBindings binding) := by simp only [assoc]
          _ = ((mergeBindings s p).bind (mergeBindings · o)).bind (mergeBindings binding) :=
              (Option.bind_assoc ..).symm

/-- An id of the binding stays. -/
theorem unify_keeps {binding row : Row width} {slot : Slot width} {value : UInt32}
    (unified : unify binding slot value = some row) {index : Fin width} {id : UInt32}
    (held : binding index = some id) : row index = some id := by
  rw [unify_eq] at unified
  obtain ⟨single, -, merged⟩ := Option.bind_eq_some_iff.mp unified
  rw [mergeBindings_eq] at merged
  split at merged
  case isFalse => cases merged
  case isTrue compatible =>
      rw [← Option.some.inj merged]
      dsimp only
      rw [← (compatible index).or_comm.symm, held]
      rfl

theorem known_of_unify {binding row : Row width} {slot : Slot width} {value : UInt32}
    (unified : unify binding slot value = some row) : Known (slotKnown slot binding) value := by
  cases slot with
  | const id =>
    rw [unify] at unified
    split at unified
    · exact known_some.mpr ‹_›
    · cases unified
  | var index =>
    rw [slotKnown]
    cases held : binding index with
    | none => exact known_none value
    | some existing =>
      rw [unify, held] at unified
      dsimp only at unified
      split at unified
      · exact known_some.mpr ‹_›
      · cases unified

theorem Known.of_unify {binding row : Row width} {slot other : Slot width} {value part : UInt32}
    (unified : unify binding slot value = some row) (known : Known (slotKnown other row) part) :
    Known (slotKnown other binding) part := by
  cases other with
  | const id => exact known
  | var index => exact fun id held => known id (unify_keeps unified held)

/-- Only a triple with the parts that are known extends a row. -/
theorem knownIn_of_unifyTriple {binding row : Row width} {triple : IdTriple}
    (unified : unifyTriple plan binding triple = some row) :
    KnownIn (slotKnown plan.s binding) (slotKnown plan.p binding) (slotKnown plan.o binding)
      triple := by
  obtain ⟨first, unifiedS, unified⟩ := Option.bind_eq_some_iff.mp unified
  obtain ⟨second, unifiedP, unifiedO⟩ := Option.bind_eq_some_iff.mp unified
  refine ⟨known_of_unify unifiedS, ?_, ?_⟩
  · exact (known_of_unify unifiedP).of_unify unifiedS
  · exact ((known_of_unify unifiedO).of_unify unifiedP).of_unify unifiedS

theorem extendBy_eq (binding : Row width) (triple : IdTriple) :
    extendBy plan cands binding triple =
      (extendBy plan cands (unboundRow width) triple).bind (mergeBindings binding) := by
  rw [extendBy, extendBy]
  split
  · exact unifyTriple_eq binding triple
  · rfl

variable (plan cands) in
/-- The extensions of a row, from all triples. -/
theorem extend_perm (describes : source.Describes triples) (binding : Row width) :
    (extend source plan cands binding).Perm
      (triples.toList.filterMap (extendBy plan cands binding)) := by
  have listed := enumerates_enumerate describes (slotKnown plan.s binding)
    (slotKnown plan.p binding) (slotKnown plan.o binding)
  have perm : (enumerate source (slotKnown plan.s binding) (slotKnown plan.p binding)
      (slotKnown plan.o binding)).Perm (triples.toList.filter fun triple =>
        KnownIn (slotKnown plan.s binding) (slotKnown plan.p binding) (slotKnown plan.o binding)
          triple) := by
    refine (List.perm_ext_iff_of_nodup listed.nodup (triples.nodup_toList.filter _)).mpr ?_
    intro triple
    rw [listed.mem_iff, List.mem_filter, Finset.mem_toList, decide_eq_true_eq]
  have whole : (triples.toList.filter fun triple =>
        KnownIn (slotKnown plan.s binding) (slotKnown plan.p binding) (slotKnown plan.o binding)
          triple).filterMap (extendBy plan cands binding) =
      triples.toList.filterMap (extendBy plan cands binding) := by
    rw [List.filterMap_filter]
    refine List.filterMap_congr fun triple _ => ?_
    split
    · rfl
    · rename_i unknown
      rw [extendBy]
      split
      · cases unified : unifyTriple plan binding triple with
        | none => rfl
        | some row => exact absurd (knownIn_of_unifyTriple unified) (by simpa using unknown)
      · rfl
  rw [extend, ← whole]
  exact perm.filterMap _

variable (source plan cands) in
/-- The rows of a pattern alone. -/
def aloneRows : Multiset (Row width) := extend source plan cands (unboundRow width)

theorem coe_extend (describes : source.Describes triples) (binding : Row width) :
    (extend source plan cands binding : Multiset (Row width)) =
      multisetJoin mergeBindings {binding} (aloneRows source plan cands) := by
  have alone := Multiset.coe_eq_coe.mpr
    (extend_perm plan cands describes (unboundRow width))
  rw [aloneRows, alone, Multiset.coe_eq_coe.mpr (extend_perm plan cands describes binding),
    ← Multiset.coe_singleton, ← coe_joinPairs, joinPairs, List.flatMap_cons, List.flatMap_nil,
    List.append_nil, List.filterMap_filterMap]
  congr 1
  exact List.filterMap_congr fun triple _ => extendBy_eq binding triple

theorem coe_flatMap_extend (describes : source.Describes triples) (rows : List (Row width)) :
    (rows.flatMap (extend source plan cands) : Multiset (Row width)) =
      multisetJoin mergeBindings rows (aloneRows source plan cands) := by
  rw [← Multiset.coe_bind, multisetJoin]
  congr 1
  funext binding
  rw [coe_extend describes, multisetJoin, Multiset.singleton_bind]

/-! ## Plans -/

theorem coe_runOrder (describes : source.Describes triples) (plans : List (PatPlan width))
    (rows : List (Row width)) :
    (runOrder source cands plans rows : Multiset (Row width)) =
      (plans.map fun plan => aloneRows source plan cands).foldl (multisetJoin mergeBindings)
        rows := by
  induction plans generalizing rows with
  | nil => rfl
  | cons plan rest induction =>
    rw [runOrder_cons, induction, coe_flatMap_extend describes, List.map_cons, List.foldl_cons]

theorem coe_evalJoinTree (plans : List (PatPlan width))
    (tree : JoinTree plans.length) :
    ((evalJoinTree source cands plans tree).1 : Multiset (Row width)) =
      (tree.leaves.map fun index => aloneRows source (plans.get index) cands).foldl
        (multisetJoin mergeBindings) {unboundRow width} := by
  induction tree with
  | leaf index =>
    rw [JoinTree.leaves, List.map_singleton, List.foldl_cons, List.foldl_nil,
      multisetJoin_unit merging_mergeBindings]
    rfl
  | join left right leftInduction rightInduction =>
    rw [evalJoinTree_join, coe_joinPairs, leftInduction, rightInduction, JoinTree.leaves,
      List.map_append, foldl_multisetJoin_append merging_mergeBindings]

/-- Whatever the plan, its rows are those of all patterns joined. -/
theorem coe_runPlan (describes : source.Describes triples) (plans : List (PatPlan width))
    (chosen : ExecPlan plans.length) :
    (runPlan source cands plans chosen : Multiset (Row width)) =
      ((List.finRange plans.length).map fun index => aloneRows source (plans.get index) cands).foldl
        (multisetJoin mergeBindings) {unboundRow width} := by
  have anyOrder : ∀ {order : List (Fin plans.length)}, order.Perm (List.finRange plans.length) →
      (order.map fun index => aloneRows source (plans.get index) cands).foldl
          (multisetJoin mergeBindings) {unboundRow width} =
        ((List.finRange plans.length).map fun index => aloneRows source (plans.get index) cands).foldl
          (multisetJoin mergeBindings) {unboundRow width} := fun perm =>
    foldl_multisetJoin_perm merging_mergeBindings ((perm.map _).cons _)
  rw [runPlan]
  cases isTree : chosen.tree with
  | some tree =>
    have whole := anyOrder (chosen.leaves tree isTree)
    exact (coe_evalJoinTree plans tree).trans whole
  | none =>
    refine Eq.trans ?_ (anyOrder chosen.ordered)
    dsimp only
    rw [coe_runOrder describes, List.map_map]
    rfl

variable (cands) in
/-- Two plans have the same rows, in another order. -/
theorem runPlan_perm (describes : source.Describes triples) {plans : List (PatPlan width)}
    (chosen other : ExecPlan plans.length) :
    (runPlan source cands plans chosen).Perm (runPlan source cands plans other) := by
  rw [← Multiset.coe_eq_coe, coe_runPlan describes, coe_runPlan describes]

end GStore.Query
