import GStore.Foundation.RefCount
import GStore.Store.RocksStore

/-! # The counters of the RocksDB store

Every counter has the value of one statistic of the set of triples. A mutation moves the
counters of the triple it adds or takes away by reference counting, so no counter goes below
zero. -/

namespace GStore.Store

/-! ## The statistics -/

/-- What the counters count. -/
inductive Counter where
  | triples
  | preds
  | subjects
  | objects
  | card (pred : UInt32)
  | predSubjs (pred : UInt32)
  | predObjs (pred : UInt32)
  | subCount (sub : UInt32)
  | objCount (obj : UInt32)
  | predSub (pred sub : UInt32)
  | predObj (pred obj : UInt32)
deriving DecidableEq

namespace Counter

def key : Counter → Bytes
  | triples => kTriples
  | preds => kPreds
  | subjects => kSubjects
  | objects => kObjects
  | card pred => tag1 tCard pred
  | predSubjs pred => tag1 tPsubj pred
  | predObjs pred => tag1 tPobj pred
  | subCount sub => tag1 tSub sub
  | objCount obj => tag1 tObj obj
  | predSub pred sub => tag2 tPs pred sub
  | predObj pred obj => tag2 tPo pred obj

/-- The global counters are kept at zero; a tagged one is deleted. -/
def Tagged : Counter → Prop
  | triples | preds | subjects | objects => False
  | _ => True

def value (set : Finset IdTriple) : Counter → Nat
  | triples => set.card
  | preds => distinct IdTriple.pred set
  | subjects => distinct IdTriple.sub set
  | objects => distinct IdTriple.obj set
  | card pred => multiplicity IdTriple.pred pred set
  | predSubjs pred => distinct IdTriple.sub (set.filter fun triple => triple.pred = pred)
  | predObjs pred => distinct IdTriple.obj (set.filter fun triple => triple.pred = pred)
  | subCount sub => multiplicity IdTriple.sub sub set
  | objCount obj => multiplicity IdTriple.obj obj set
  | predSub pred sub =>
    multiplicity IdTriple.sub sub (set.filter fun triple => triple.pred = pred)
  | predObj pred obj =>
    multiplicity IdTriple.obj obj (set.filter fun triple => triple.pred = pred)

/-- By how much a new triple moves each counter. -/
def gain (set : Finset IdTriple) (triple : IdTriple) : Counter → Nat
  | triples => 1
  | preds => if value set (.card triple.pred) = 0 then 1 else 0
  | subjects => if value set (.subCount triple.sub) = 0 then 1 else 0
  | objects => if value set (.objCount triple.obj) = 0 then 1 else 0
  | card pred => if triple.pred = pred then 1 else 0
  | predSubjs pred =>
    if triple.pred = pred ∧ value set (.predSub triple.pred triple.sub) = 0 then 1 else 0
  | predObjs pred =>
    if triple.pred = pred ∧ value set (.predObj triple.pred triple.obj) = 0 then 1 else 0
  | subCount sub => if triple.sub = sub then 1 else 0
  | objCount obj => if triple.obj = obj then 1 else 0
  | predSub pred sub => if triple.pred = pred ∧ triple.sub = sub then 1 else 0
  | predObj pred obj => if triple.pred = pred ∧ triple.obj = obj then 1 else 0

/-- The first byte of the key. -/
def tag : Counter → UInt8
  | triples => 'T'.toUInt8
  | preds => 'P'.toUInt8
  | subjects => 'S'.toUInt8
  | objects => 'O'.toUInt8
  | card _ => tCard
  | predSubjs _ => tPsubj
  | predObjs _ => tPobj
  | subCount _ => tSub
  | objCount _ => tObj
  | predSub _ _ => tPs
  | predObj _ _ => tPo

theorem head_key (counter : Counter) : ∃ ids, counter.key = counter.tag :: ids := by
  cases counter <;> exact ⟨_, rfl⟩

theorem tag_eq_of_key_eq {left right : Counter} (same : left.key = right.key) :
    left.tag = right.tag := by
  cases left.head_key with
  | intro leftIds leftKey =>
    cases right.head_key with
    | intro rightIds rightKey =>
      rw [leftKey, rightKey] at same
      exact (List.cons.inj same).1

theorem eq_subCount_of_tag {counter : Counter} (same : counter.tag = tSub) :
    ∃ sub, counter = subCount sub := by
  cases counter <;>
    first
      | exact ⟨_, rfl⟩
      | exact absurd same (by
          dsimp only [tag, tCard, tPsubj, tPobj, tSub, tObj, tPs, tPo]
          decide)

theorem eq_objCount_of_tag {counter : Counter} (same : counter.tag = tObj) :
    ∃ obj, counter = objCount obj := by
  cases counter <;>
    first
      | exact ⟨_, rfl⟩
      | exact absurd same (by
          dsimp only [tag, tCard, tPsubj, tPobj, tSub, tObj, tPs, tPo]
          decide)

theorem key_inj {left right : Counter} : left.key = right.key ↔ left = right := by
  constructor
  · intro same
    have sameTag := tag_eq_of_key_eq same
    cases left <;> cases right <;>
      first
        | rfl
        | simpa [key, tag1, tag2] using same
        | exact absurd sameTag (by
            dsimp only [tag, tCard, tPsubj, tPobj, tSub, tObj, tPs, tPo]
            decide)
  · exact congrArg key

/-- The counters of a predicate see the triples of the predicate only. -/
theorem value_filter_insert {set : Finset IdTriple} {triple : IdTriple} (pred : UInt32)
    (count : Finset IdTriple → Nat) :
    count ((insert triple set).filter fun other => other.pred = pred) =
      if triple.pred = pred then count (insert triple (set.filter fun other => other.pred = pred))
      else count (set.filter fun other => other.pred = pred) := by
  rw [Finset.filter_insert]
  split <;> rfl

theorem value_insert {set : Finset IdTriple} {triple : IdTriple} (fresh : triple ∉ set)
    (counter : Counter) :
    value (insert triple set) counter = value set counter + gain set triple counter := by
  have freshUnder : ∀ pred, triple ∉ set.filter fun other => other.pred = pred :=
    fun pred member => fresh (Finset.mem_of_mem_filter _ member)
  cases counter with
  | triples => exact Finset.card_insert_of_notMem fresh
  | preds => exact distinct_insert _ _ _
  | subjects => exact distinct_insert _ _ _
  | objects => exact distinct_insert _ _ _
  | card pred => exact multiplicity_insert _ _ fresh
  | subCount sub => exact multiplicity_insert _ _ fresh
  | objCount obj => exact multiplicity_insert _ _ fresh
  | predSubjs pred =>
    rw [value, value_filter_insert pred (distinct IdTriple.sub), distinct_insert, gain, value]
    by_cases same : triple.pred = pred
    · subst same
      simp only [true_and, if_true]
      rfl
    · simp only [same, false_and, if_false, Nat.add_zero]
  | predObjs pred =>
    rw [value, value_filter_insert pred (distinct IdTriple.obj), distinct_insert, gain, value]
    by_cases same : triple.pred = pred
    · subst same
      simp only [true_and, if_true]
      rfl
    · simp only [same, false_and, if_false, Nat.add_zero]
  | predSub pred sub =>
    rw [value, value_filter_insert pred (multiplicity IdTriple.sub sub),
      multiplicity_insert _ _ (freshUnder pred), gain, value]
    by_cases same : triple.pred = pred
    · simp only [same, true_and, if_true]
    · simp only [same, false_and, if_false, Nat.add_zero]
  | predObj pred obj =>
    rw [value, value_filter_insert pred (multiplicity IdTriple.obj obj),
      multiplicity_insert _ _ (freshUnder pred), gain, value]
    by_cases same : triple.pred = pred
    · simp only [same, true_and, if_true]
    · simp only [same, false_and, if_false, Nat.add_zero]

end Counter

/-! ## The counters on disk -/

/-- The counter family holds the values; no tagged counter is kept at zero, and there are
no other keys. -/
structure Counted (stats : ColumnFamily Nat) (value : Counter → Nat) : Prop where
  getD_eq : ∀ counter : Counter, stats.getD counter.key 0 = value counter
  known : ∀ key count, stats[key]? = some count →
    ∃ counter : Counter, key = counter.key ∧ (counter.Tagged → count ≠ 0)

section Counted

variable {stats : ColumnFamily Nat} {value : Counter → Nat}

theorem counted_empty : Counted ∅ fun _ => 0 where
  getD_eq counter := by simp
  known key count found := by simp at found

theorem Counted.put (counted : Counted stats value) (counter : Counter) {count : Nat}
    (live : counter.Tagged → count ≠ 0) :
    Counted (stats.insert counter.key count) (Function.update value counter count) := by
  constructor
  · intro other
    simp only [Std.TreeMap.getD_insert, Function.update_apply, Std.compare_eq_iff_eq,
      Counter.key_inj, counted.getD_eq, @eq_comm _ other]
  · intro key found present
    simp only [Std.TreeMap.getElem?_insert, Std.compare_eq_iff_eq] at present
    by_cases same : counter.key = key
    · rw [if_pos same] at present
      refine ⟨counter, same.symm, ?_⟩
      rwa [← Option.some.inj present]
    · rw [if_neg same] at present
      exact counted.known key found present

theorem Counted.delete (counted : Counted stats value) (counter : Counter) :
    Counted (stats.erase counter.key) (Function.update value counter 0) := by
  constructor
  · intro other
    simp only [Std.TreeMap.getD_erase, Function.update_apply, Std.compare_eq_iff_eq,
      Counter.key_inj, counted.getD_eq, @eq_comm _ other]
  · intro key found present
    simp only [Std.TreeMap.getElem?_erase, Std.compare_eq_iff_eq] at present
    by_cases same : counter.key = key
    · rw [if_pos same] at present
      cases present
    · rw [if_neg same] at present
      exact counted.known key found present

/-- A counter is stored exactly when it is not zero, if its zeros are deleted. -/
theorem Counted.mem_iff (counted : Counted stats value) {counter : Counter}
    (tagged : counter.Tagged) : counter.key ∈ stats ↔ value counter ≠ 0 := by
  rw [← counted.getD_eq]
  constructor
  · intro present
    rw [Std.TreeMap.mem_iff_isSome_getElem?] at present
    cases found : stats[counter.key]? with
    | none => simp [found] at present
    | some count =>
      cases counted.known _ _ found with
      | intro other same =>
        rw [Std.TreeMap.getD_eq_getD_getElem?, found]
        exact same.2 (by rwa [← Counter.key_inj.mp same.1])
  · intro positive
    by_contra absent
    exact positive (Std.TreeMap.getD_eq_fallback absent)

end Counted

/-! ## One mutation

Going up the counters move from the values of the smaller set to those of the larger one,
going down they move back. Either way the counter is moved once, by its gain, and a
distinct-count moves with a counter whose smaller value is zero. -/

/-- The end a counter starts from and the one it moves to. -/
def startOf (up : Bool) (small large : Counter → Nat) : Counter → Nat :=
  if up then small else large

def targetOf (up : Bool) (small large : Counter → Nat) : Counter → Nat :=
  if up then large else small

theorem write_append (db : RocksDb) (batch more : WriteBatch) :
    db.write (batch ++ more) = (db.write batch).write more := by
  rw [RocksDb.write, List.foldl_append]
  rfl

/-- After the batch the triple families are the given ones, and the counters in `done` have
moved. -/
structure Moved (db families : RocksDb) (start target : Counter → Nat) (batch : WriteBatch)
    (done : Finset Counter) : Prop where
  spo : (db.write batch).spo = families.spo
  pos : (db.write batch).pos = families.pos
  osp : (db.write batch).osp = families.osp
  stats : Counted (db.write batch).stats fun counter =>
    if counter ∈ done then target counter else start counter

section Moved

variable {db families : RocksDb} {start target : Counter → Nat} {batch : WriteBatch}
  {done : Finset Counter} {counter : Counter}

theorem moved_update (counter : Counter) :
    (fun other => if other ∈ insert counter done then target other else start other) =
      Function.update (fun other => if other ∈ done then target other else start other) counter
        (target counter) := by
  funext other
  by_cases same : other = counter
  · rw [same, Function.update_self, if_pos (Finset.mem_insert_self _ _)]
  · simp only [Finset.mem_insert, same, false_or, Function.update_apply, if_false]

/-- A batch that has not reached the counters yet. -/
theorem moved_start (batch : WriteBatch) (counted : Counted db.stats start)
    (stats : (db.write batch).stats = db.stats) :
    Moved db (db.write batch) start target batch ∅ where
  spo := rfl
  pos := rfl
  osp := rfl
  stats := by
    rw [stats]
    exact counted

theorem Moved.keep (moved : Moved db families start target batch done)
    (still : target counter = start counter) :
    Moved db families start target batch (insert counter done) where
  spo := moved.spo
  pos := moved.pos
  osp := moved.osp
  stats := by
    have same : (if counter ∈ done then target counter else start counter) = target counter := by
      rw [still, ite_self]
    rw [moved_update, ← same, Function.update_eq_self]
    exact moved.stats

theorem Moved.put (moved : Moved db families start target batch done) (counter : Counter)
    (live : counter.Tagged → target counter ≠ 0) :
    Moved db families start target (batch ++ [.putStat counter.key (target counter)])
      (insert counter done) := by
  constructor <;> rw [write_append]
  · exact moved.spo
  · exact moved.pos
  · exact moved.osp
  · rw [moved_update]
    exact moved.stats.put counter live

theorem Moved.delete (moved : Moved db families start target batch done)
    (zero : target counter = 0) :
    Moved db families start target (batch ++ [.deleteStat counter.key]) (insert counter done) := by
  constructor <;> rw [write_append]
  · exact moved.spo
  · exact moved.pos
  · exact moved.osp
  · rw [moved_update, zero]
    exact moved.stats.delete counter

end Moved

section Recount

variable {db families : RocksDb} {up : Bool} {small large : Counter → Nat} {batch : WriteBatch}
  {done : Finset Counter}

theorem stepped_eq {counter : Counter} (gain : large counter = small counter + 1) :
    stepped up (startOf up small large counter) = some (targetOf up small large counter) := by
  cases up <;> simp [stepped, startOf, targetOf, gain]

theorem step_spec (counted : Counted db.stats (startOf up small large))
    (moved : Moved db families (startOf up small large) (targetOf up small large) batch done)
    {counter : Counter} (gain : large counter = small counter + 1) :
    ∃ after, db.step batch counter.key up =
        some (after, startOf up small large counter, targetOf up small large counter) ∧
      Moved db families (startOf up small large) (targetOf up small large) after
        (insert counter done) := by
  have read : db.getU64 counter.key = startOf up small large counter := counted.getD_eq counter
  rw [RocksDb.step, read, stepped_eq gain]
  by_cases zero : targetOf up small large counter = 0
  · refine ⟨_, ?_, moved.delete zero⟩
    simp [zero]
  · refine ⟨_, ?_, moved.put counter fun _ => zero⟩
    simp [zero]

/-- The value a mutation tests for a transition is the smaller one. -/
theorem crossing_eq (counter : Counter) :
    (if up then startOf up small large counter else targetOf up small large counter) =
      small counter := by
  cases up <;> rfl

theorem targetOf_eq_startOf (up : Bool) {counter : Counter} (same : large counter = small counter) :
    targetOf up small large counter = startOf up small large counter := by
  cases up <;> simp [targetOf, startOf, same]

theorem stepGlobal_spec (counter global : Counter)
    (counted : Counted db.stats (startOf up small large))
    (moved : Moved db families (startOf up small large) (targetOf up small large) batch done)
    (gain : large counter = small counter + 1)
    (distinct : large global = small global + if small counter = 0 then 1 else 0)
    (untagged : ¬ global.Tagged) :
    ∃ after, db.stepGlobal batch counter.key up global.key (startOf up small large global) =
        some (after, targetOf up small large global) ∧
      Moved db families (startOf up small large) (targetOf up small large) after
        (insert global (insert counter done)) := by
  cases step_spec counted moved gain with
  | intro after step =>
    simp only [RocksDb.stepGlobal, step.1, Option.bind_eq_bind, Option.bind_some, crossing_eq]
    by_cases zero : small counter = 0
    · rw [if_pos zero] at distinct ⊢
      refine ⟨setGlobal after global.key (targetOf up small large global), ?_,
        step.2.put global fun tagged => absurd tagged untagged⟩
      rw [stepped_eq distinct]
      rfl
    · rw [if_neg zero] at distinct ⊢
      have still := targetOf_eq_startOf up distinct
      exact ⟨after, by rw [still]; rfl, step.2.keep still⟩

theorem stepDistinct_spec (counter count : Counter)
    (counted : Counted db.stats (startOf up small large))
    (moved : Moved db families (startOf up small large) (targetOf up small large) batch done)
    (gain : large counter = small counter + 1)
    (distinct : large count = small count + if small counter = 0 then 1 else 0) :
    ∃ after, db.stepDistinct batch counter.key up count.key = some after ∧
      Moved db families (startOf up small large) (targetOf up small large) after
        (insert count (insert counter done)) := by
  cases step_spec counted moved gain with
  | intro after step =>
    simp only [RocksDb.stepDistinct, step.1, Option.bind_eq_bind, Option.bind_some, crossing_eq]
    by_cases zero : small counter = 0
    · rw [if_pos zero] at distinct ⊢
      cases step_spec counted step.2 distinct with
      | intro final further =>
        refine ⟨final, ?_, further.2⟩
        rw [further.1]
        rfl
    · rw [if_neg zero] at distinct ⊢
      exact ⟨after, rfl, step.2.keep (targetOf_eq_startOf up distinct)⟩

/-- The counters a triple moves. -/
def touched (triple : IdTriple) : Finset Counter :=
  {.predObjs triple.pred, .predObj triple.pred triple.obj, .predSubjs triple.pred,
    .predSub triple.pred triple.sub, .objects, .objCount triple.obj, .subjects,
    .subCount triple.sub, .preds, .card triple.pred, .triples}

theorem gain_of_not_touched {set : Finset IdTriple} {triple : IdTriple} {counter : Counter}
    (outside : counter ∉ touched triple) : Counter.gain set triple counter = 0 := by
  simp only [touched, Finset.mem_insert, Finset.mem_singleton, not_or] at outside
  cases counter <;> simp_all [Counter.gain, eq_comm]

/-- The four cached counters. -/
structure Cached (store : RocksStore) (value : Counter → Nat) : Prop where
  tripleCount : store.tripleCount = value .triples
  numPredicates : store.numPredicates = value .preds
  distinctSubjects : store.distinctSubjects = value .subjects
  distinctObjects : store.distinctObjects = value .objects

/-- A mutation takes every counter from one end to the other, none below zero. -/
theorem recount_spec (up : Bool) {store : RocksStore} {set : Finset IdTriple} {triple : IdTriple}
    (fresh : triple ∉ set) (smallEq : small = Counter.value set)
    (largeEq : large = Counter.value (insert triple set))
    (cached : Cached store (startOf up small large))
    (counted : Counted store.db.stats (startOf up small large))
    (moved : Moved store.db families (startOf up small large) (targetOf up small large) batch ∅) :
    ∃ after, store.recount batch triple up = some after ∧
      after.db.spo = families.spo ∧ after.db.pos = families.pos ∧ after.db.osp = families.osp ∧
      Cached after (targetOf up small large) ∧
      Counted after.db.stats (targetOf up small large) := by
  have gains : ∀ counter, large counter = small counter + Counter.gain set triple counter := by
    rw [smallEq, largeEq]
    exact Counter.value_insert fresh
  have total := moved.put .triples fun tagged => tagged.elim
  rcases stepGlobal_spec (.card triple.pred) .preds counted total
    (by rw [gains]; simp [Counter.gain]) (by rw [gains, smallEq]; rfl) id
    with ⟨_, cardStep, cardMoved⟩
  rcases stepGlobal_spec (.subCount triple.sub) .subjects counted cardMoved
    (by rw [gains]; simp [Counter.gain]) (by rw [gains, smallEq]; rfl) id
    with ⟨_, subStep, subMoved⟩
  rcases stepGlobal_spec (.objCount triple.obj) .objects counted subMoved
    (by rw [gains]; simp [Counter.gain]) (by rw [gains, smallEq]; rfl) id
    with ⟨_, objStep, objMoved⟩
  rcases stepDistinct_spec (.predSub triple.pred triple.sub) (.predSubjs triple.pred) counted
    objMoved (by rw [gains]; simp [Counter.gain])
    (by rw [gains, smallEq]; simp [Counter.gain]) with ⟨_, predSubStep, predSubMoved⟩
  rcases stepDistinct_spec (.predObj triple.pred triple.obj) (.predObjs triple.pred) counted
    predSubMoved (by rw [gains]; simp [Counter.gain])
    (by rw [gains, smallEq]; simp [Counter.gain]) with ⟨written, predObjStep, done⟩
  have counts : stepped up store.tripleCount = some (targetOf up small large .triples) := by
    rw [cached.tripleCount]
    exact stepped_eq (gains .triples)
  have run : store.recount batch triple up = some
      { db := store.db.write written
        tripleCount := targetOf up small large .triples
        numPredicates := targetOf up small large .preds
        distinctSubjects := targetOf up small large .subjects
        distinctObjects := targetOf up small large .objects } := by
    simp only [Counter.key] at cardStep subStep objStep predSubStep predObjStep
    simp only [RocksStore.recount, counts, cached.numPredicates, cached.distinctSubjects,
      cached.distinctObjects, setGlobal, Option.bind_eq_bind, Option.bind_some]
    rw [cardStep, Option.bind_some, subStep, Option.bind_some, objStep, Option.bind_some,
      predSubStep, Option.bind_some, predObjStep]
    rfl
  have all : targetOf up small large = fun counter =>
      if counter ∈ touched triple then targetOf up small large counter
      else startOf up small large counter := by
    funext counter
    split_ifs with inside
    · rfl
    · apply targetOf_eq_startOf
      rw [gains, gain_of_not_touched inside, Nat.add_zero]
  refine ⟨_, run, done.spo, done.pos, done.osp, ⟨rfl, rfl, rfl, rfl⟩, ?_⟩
  rw [all]
  exact done.stats

end Recount

end GStore.Store
