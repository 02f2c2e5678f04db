import GStore.Store.AdjacencyIndex

/-! # The triple store refines a set of triples

The abstract store is a finite set of id triples. A mutation of the store is
simulated by one on the set, and every access pattern and statistic of the
store is the corresponding projection of that set. -/

namespace GStore.Store

open SortedSlice

/-! ## The abstract store -/

inductive StoreOp where
  | insert (triple : IdTriple)
  | remove (triple : IdTriple)
  | bulkLoad (triples : List IdTriple)

namespace StoreOp

/-- One mutation of the store, with the flag it returns. -/
def run (store : TripleStore) : StoreOp → TripleStore × Option Bool
  | .insert triple => (store.insert triple).map id some
  | .remove triple => (store.remove triple).map id some
  | .bulkLoad triples => (store.bulkLoad triples, none)

/-- What the mutation does to the set. -/
def apply (triples : Finset IdTriple) : StoreOp → Finset IdTriple
  | .insert triple => {triple} ∪ triples
  | .remove triple => triples.erase triple
  | .bulkLoad loaded => triples ∪ loaded.toFinset

/-- Whether the mutation changes the set, for those that report it. -/
def changes (triples : Finset IdTriple) : StoreOp → Option Bool
  | .insert triple => some (decide (triple ∉ triples))
  | .remove triple => some (decide (triple ∈ triples))
  | .bulkLoad _ => none

end StoreOp

def runOps : TripleStore → List StoreOp → TripleStore × List (Option Bool)
  | store, [] => (store, [])
  | store, op :: rest =>
    let (next, reported) := op.run store
    let (final, reports) := runOps next rest
    (final, reported :: reports)

def applyOps : Finset IdTriple → List StoreOp → Finset IdTriple × List (Option Bool)
  | triples, [] => (triples, [])
  | triples, op :: rest =>
    let (final, reports) := applyOps (op.apply triples) rest
    (final, op.changes triples :: reports)

/-! ## The refinement relation -/

/-- The triples an index key and pair stand for, one reading per index. -/
def ofSub (sub : UInt32) (pair : Pair) : IdTriple := ⟨sub, (ofLex pair).1, (ofLex pair).2⟩

def ofObj (obj : UInt32) (pair : Pair) : IdTriple := ⟨(ofLex pair).2, (ofLex pair).1, obj⟩

def ofPred (pred : UInt32) (pair : Pair) : IdTriple := ⟨(ofLex pair).1, pred, (ofLex pair).2⟩

theorem ofSub_eq_iff {key : UInt32} {pair : Pair} {triple : IdTriple} :
    ofSub key pair = triple ↔ key = triple.sub ∧ pair = .mk triple.pred triple.obj := by
  cases triple
  simp [ofSub, Pair.eq_mk_iff]

theorem ofObj_eq_iff {key : UInt32} {pair : Pair} {triple : IdTriple} :
    ofObj key pair = triple ↔ key = triple.obj ∧ pair = .mk triple.pred triple.sub := by
  cases triple
  simp only [ofObj, Pair.eq_mk_iff, IdTriple.mk.injEq]
  tauto

theorem ofPred_eq_iff {key : UInt32} {pair : Pair} {triple : IdTriple} :
    ofPred key pair = triple ↔ key = triple.pred ∧ pair = .mk triple.sub triple.obj := by
  cases triple
  simp only [ofPred, Pair.eq_mk_iff, IdTriple.mk.injEq]
  tauto

/-- The three indexes describe the same set, and the counter is its size. -/
structure Refines (store : TripleStore) (triples : Finset IdTriple) : Prop where
  s2po : Indexes store.s2po fun sub pair => ofSub sub pair ∈ triples
  o2ps : Indexes store.o2ps fun obj pair => ofObj obj pair ∈ triples
  p2so : Indexes store.p2so fun pred pair => ofPred pred pair ∈ triples
  count : store.tripleCount = triples.card

theorem refines_new : Refines TripleStore.new ∅ where
  s2po := indexes_empty.congr (by simp)
  o2ps := indexes_empty.congr (by simp)
  p2so := indexes_empty.congr (by simp)
  count := rfl

section Mutation

variable {store : TripleStore} {triples : Finset IdTriple}

theorem Refines.insert (refines : Refines store triples) (triple : IdTriple) :
    Refines (store.insert triple).1 ({triple} ∪ triples) ∧
      (store.insert triple).2 = decide (triple ∉ triples) := by
  have bySubject := refines.s2po.sortedInsert triple.sub (.mk triple.pred triple.obj)
  have byObject := (refines.o2ps.sortedInsert triple.obj (.mk triple.pred triple.sub)).1
  have byPredicate := (refines.p2so.sortedInsert triple.pred (.mk triple.sub triple.obj)).1
  rw [show ofSub triple.sub (.mk triple.pred triple.obj) = triple from rfl] at bySubject
  by_cases member : triple ∈ triples
  · have flag : (AdjMap.sortedInsert store.s2po triple.sub
        (.mk triple.pred triple.obj)).2 = false := by
      rw [← Bool.not_eq_true, bySubject.2]
      simpa using member
    have same : {triple} ∪ triples = triples :=
      Finset.union_eq_right.mpr (by simpa using member)
    rw [same]
    refine ⟨?_, by simp [TripleStore.insert, flag, member]⟩
    simp only [TripleStore.insert, flag, Bool.false_eq_true, if_false]
    refine ⟨bySubject.1.congr ?_, refines.o2ps, refines.p2so, refines.count⟩
    intro key pair
    rw [← ofSub_eq_iff]
    constructor
    · rintro (equal | holds)
      · exact equal ▸ member
      · exact holds
    · exact .inr
  · have flag := bySubject.2.mpr member
    refine ⟨?_, by simp [TripleStore.insert, flag, member]⟩
    simp only [TripleStore.insert, flag, if_true]
    refine ⟨bySubject.1.congr ?_, byObject.congr ?_, byPredicate.congr ?_, ?_⟩
    · simp [← ofSub_eq_iff]
    · simp [← ofObj_eq_iff]
    · simp [← ofPred_eq_iff]
    · rw [Finset.card_union_of_disjoint (by simpa using member), refines.count,
        Finset.card_singleton, Nat.add_comm]

theorem Refines.remove (refines : Refines store triples) (triple : IdTriple) :
    Refines (store.remove triple).1 (triples.erase triple) ∧
      (store.remove triple).2 = decide (triple ∈ triples) := by
  have flagIff := refines.s2po.sortedRemove_flag triple.sub (.mk triple.pred triple.obj)
  rw [show ofSub triple.sub (.mk triple.pred triple.obj) = triple from rfl] at flagIff
  by_cases member : triple ∈ triples
  · have flag := flagIff.mpr member
    refine ⟨?_, by simp [TripleStore.remove, flag, member]⟩
    simp only [TripleStore.remove, flag, if_true, TripleStore.pruneEmpty]
    refine ⟨(refines.s2po.remove_prune triple.sub (.mk triple.pred triple.obj) member).congr ?_,
      (refines.o2ps.remove_prune triple.obj (.mk triple.pred triple.sub) member).congr ?_,
      (refines.p2so.remove_prune triple.pred (.mk triple.sub triple.obj) member).congr ?_, ?_⟩
    · simp [← ofSub_eq_iff, and_comm]
    · simp [← ofObj_eq_iff, and_comm]
    · simp [← ofPred_eq_iff, and_comm]
    · rw [Finset.card_erase_of_mem member, refines.count]
  · have flag : (AdjMap.sortedRemove store.s2po triple.sub
        (.mk triple.pred triple.obj)).2 = false := by
      rw [← Bool.not_eq_true, flagIff]
      exact member
    rw [Finset.erase_eq_of_notMem member]
    refine ⟨?_, by simp [TripleStore.remove, flag, member]⟩
    simp only [TripleStore.remove, flag, Bool.false_eq_true, if_false]
    exact ⟨refines.s2po.sortedRemove_unchanged triple.sub _ member, refines.o2ps,
      refines.p2so, refines.count⟩

/-- The maps while `bulk_load` is still appending: the right elements, in any
order and number. -/
structure Gathers (store : TripleStore) (triples : Finset IdTriple) : Prop where
  s2po : Lists store.s2po fun sub pair => ofSub sub pair ∈ triples
  o2ps : Lists store.o2ps fun obj pair => ofObj obj pair ∈ triples
  p2so : Lists store.p2so fun pred pair => ofPred pred pair ∈ triples

theorem Gathers.pushTriple (gathers : Gathers store triples) (triple : IdTriple) :
    Gathers (store.pushTriple triple) (triples ∪ {triple}) where
  s2po := (gathers.s2po.push triple.sub _).congr (by simp [← ofSub_eq_iff])
  o2ps := (gathers.o2ps.push triple.obj _).congr (by simp [← ofObj_eq_iff])
  p2so := (gathers.p2so.push triple.pred _).congr (by simp [← ofPred_eq_iff])

theorem Gathers.pushAll (loaded : List IdTriple) :
    ∀ {store : TripleStore} {triples : Finset IdTriple}, Gathers store triples →
      Gathers (loaded.foldl TripleStore.pushTriple store) (triples ∪ loaded.toFinset) := by
  induction loaded with
  | nil => simp
  | cons head tail induction =>
    intro store triples gathers
    have rest := induction (gathers.pushTriple head)
    rwa [Finset.union_assoc, ← Finset.insert_eq, ← List.toFinset_cons] at rest

theorem length_flatten_ofSub {index : AdjMap}
    (indexes : Indexes index fun sub pair => ofSub sub pair ∈ triples) :
    (index.toList.map fun entry => entry.2.length).sum = triples.card := by
  have distinct : (flatten index ofSub).Nodup := by
    refine nodup_flatten indexes ofSub ?_
    intro key pair key' pair' same
    exact ofSub_eq_iff.mp same
  have members : (flatten index ofSub).toFinset = triples := by
    ext triple
    rw [List.mem_toFinset, mem_flatten indexes.toLists]
    constructor
    · rintro ⟨key, pair, member, rfl⟩
      exact member
    · intro member
      exact ⟨triple.sub, .mk triple.pred triple.obj, member, rfl⟩
  rw [← members, List.toFinset_card_of_nodup distinct, flatten, List.length_flatMap]
  simp

theorem Refines.bulkLoad (refines : Refines store triples) (loaded : List IdTriple) :
    Refines (store.bulkLoad loaded) (triples ∪ loaded.toFinset) := by
  have gathered := Gathers.pushAll loaded
    ⟨refines.s2po.toLists, refines.o2ps.toLists, refines.p2so.toLists⟩
  exact ⟨gathered.s2po.normalize, gathered.o2ps.normalize, gathered.p2so.normalize,
    length_flatten_ofSub gathered.s2po.normalize⟩

theorem Refines.run (refines : Refines store triples) (op : StoreOp) :
    Refines (op.run store).1 (op.apply triples) ∧
      (op.run store).2 = op.changes triples := by
  cases op with
  | insert triple =>
    have step := refines.insert triple
    exact ⟨step.1, congrArg some step.2⟩
  | remove triple =>
    have step := refines.remove triple
    exact ⟨step.1, congrArg some step.2⟩
  | bulkLoad loaded => exact ⟨refines.bulkLoad loaded, rfl⟩

theorem Refines.runOps (ops : List StoreOp) :
    ∀ {store : TripleStore} {triples : Finset IdTriple}, Refines store triples →
      Refines (runOps store ops).1 (applyOps triples ops).1 ∧
        (Store.runOps store ops).2 = (applyOps triples ops).2 := by
  induction ops with
  | nil =>
    intro store triples refines
    exact ⟨refines, rfl⟩
  | cons op rest induction =>
    intro store triples refines
    obtain ⟨next, reported⟩ := refines.run op
    obtain ⟨final, reports⟩ := induction next
    exact ⟨final, congrArg₂ List.cons reported reports⟩

end Mutation

end GStore.Store
