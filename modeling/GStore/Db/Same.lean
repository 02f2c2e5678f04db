import GStore.Db.Quads
import GStore.Db.Rollback

/-! # Sessions that no call tells apart

Two sessions with one dictionary, the same graphs and the same logs, whatever the
shape of their indexes. A request has the same answer on both and leaves them
alike. -/

namespace GStore.Db

open Dict Reason Store

/-- A source depends on the set that its store holds only. -/
theorem source_congr {left right : TripleStore} (leftIndexed : Indexed left)
    (rightIndexed : Indexed right) (same : stored left = stored right) :
    left.source = right.source := by
  rcases leftIndexed.refines with ⟨triples, refines, leftHolds⟩
  rcases rightIndexed.refines with ⟨others, also, rightHolds⟩
  have equal : others = triples := by
    rw [← Finset.coe_inj, ← rightHolds, ← leftHolds, same]
  subst equal
  exact refines.source_describes.unique also.source_describes refines.iterAll_ordered
    also.iterAll_ordered

namespace Session

structure Same (s t : Session) : Prop where
  dict : t.dict = s.dict
  triples : t.triples = s.triples
  graphs : t.graphs = s.graphs
  txn : t.txn = s.txn
  redoLog : t.redoLog = s.redoLog
  redoPending : t.redoPending = s.redoPending
  updateLog : t.updateLog = s.updateLog

section Same

variable {s t : Session} {graph : Option UInt32}

theorem Same.refl (s : Session) : Same s s := ⟨rfl, rfl, rfl, rfl, rfl, rfl, rfl⟩

theorem Same.symm (same : Same s t) : Same t s :=
  ⟨same.dict.symm, same.triples.symm, same.graphs.symm, same.txn.symm, same.redoLog.symm,
    same.redoPending.symm, same.updateLog.symm⟩

theorem Same.trans {last : Session} (first : Same s t) (second : Same t last) : Same s last :=
  ⟨second.dict.trans first.dict, second.triples.trans first.triples,
    second.graphs.trans first.graphs, second.txn.trans first.txn,
    second.redoLog.trans first.redoLog, second.redoPending.trans first.redoPending,
    second.updateLog.trans first.updateLog⟩

theorem Same.dataset (same : Same s t) : t.dataset = s.dataset := by
  apply dataset_congr same.triples same.graphs
  · intro _ _ _
    rw [same.dict]
    exact ⟨rfl, rfl, rfl⟩
  · intro _ _
    rw [same.dict]

/-! ## Logs -/

theorem Same.pushUndo (same : Same s t) (entries : List UndoOp) :
    Same (s.pushUndo entries) (t.pushUndo entries) where
  dict := same.dict
  triples := same.triples
  graphs := same.graphs
  txn := by rw [Session.pushUndo, Session.pushUndo, same.txn]
  redoLog := same.redoLog
  redoPending := same.redoPending
  updateLog := same.updateLog

/-- The redo log after a record, and what is pending. -/
def recorded (s : Session) (op : RedoOp) (graph : Option UInt32) (id : IdTriple) :
    Option (List RedoRec) × List RedoRec :=
  ((s.recordRedo op graph id).redoLog, (s.recordRedo op graph id).redoPending)

theorem Same.recorded (same : Same s t) (op : RedoOp) (graph : Option UInt32) (id : IdTriple) :
    t.recorded op graph id = s.recorded op graph id := by
  rcases s with ⟨dict, store, named, txn, redoLog, redoPending, updateLog⟩
  rcases t with ⟨_, otherStore, otherNamed, _, _, _, _⟩
  cases same.dict
  cases same.txn
  cases same.redoLog
  cases same.redoPending
  simp only [Session.recorded, recordRedo]
  split
  · rfl
  · split
    · rfl
    · split <;> rfl

theorem recordRedo_updateLog (s : Session) (op : RedoOp) (graph : Option UInt32) (id : IdTriple) :
    (s.recordRedo op graph id).updateLog = s.updateLog := by
  rcases recordRedo_cases s op graph id with ⟨_, _, same, -⟩
  rw [same]

theorem Same.recordRedo (same : Same s t) (op : RedoOp) (graph : Option UInt32) (id : IdTriple) :
    Same (s.recordRedo op graph id) (t.recordRedo op graph id) where
  dict := by rw [recordRedo_dict, recordRedo_dict, same.dict]
  triples := by rw [recordRedo_triples, recordRedo_triples, same.triples]
  graphs := by rw [recordRedo_graphs, recordRedo_graphs, same.graphs]
  txn := by rw [recordRedo_txn, recordRedo_txn, same.txn]
  redoLog := congrArg Prod.fst (same.recorded op graph id)
  redoPending := congrArg Prod.snd (same.recorded op graph id)
  updateLog := by rw [recordRedo_updateLog, recordRedo_updateLog, same.updateLog]

/-! ## Graphs -/

theorem Same.setGraph {left right : TripleStore} (same : Same s t) (dict : Dictionary)
    (graph : Option UInt32) (holds : stored right = stored left) :
    Same ({ s with dict }.setGraph graph left) ({ t with dict }.setGraph graph right) where
  dict := by rw [setGraph_dict, setGraph_dict]
  triples := by
    rw [triples_setGraph, triples_setGraph, holds]
    exact congrArg (Function.update · graph (stored left)) same.triples
  graphs := by
    rw [graphs_setGraph, graphs_setGraph]
    exact congrArg (· ∪ {gid | graph = some gid}) same.graphs
  txn := by rw [setGraph_txn, setGraph_txn]; exact same.txn
  redoLog := by rw [setGraph_redoLog, setGraph_redoLog]; exact same.redoLog
  redoPending := by rw [setGraph_redoPending, setGraph_redoPending]; exact same.redoPending
  updateLog := by rw [setGraph_updateLog, setGraph_updateLog]; exact same.updateLog

theorem Same.source (same : Same s t) (left : s.Valid) (right : t.Valid) (graph : Option UInt32) :
    (t.graphStore graph).source = (s.graphStore graph).source := by
  apply source_congr (right.graphStore graph) (left.graphStore graph)
  rw [stored_graphStore, stored_graphStore, same.triples]

theorem Same.hasGraph (same : Same s t) : t.hasGraph graph = s.hasGraph graph := by
  rw [Bool.eq_iff_iff, hasGraph_iff, hasGraph_iff, same.graphs]

theorem Same.inserted (same : Same s t) (left : s.Valid) (right : t.Valid) (dict : Dictionary)
    (graph : Option UInt32) (id : IdTriple) :
    Same (s.inserted dict graph id) (t.inserted dict graph id) ∧
      ((t.graphStore graph).insert id).2 = ((s.graphStore graph).insert id).2 := by
  rcases (left.graphStore graph).insert id with ⟨-, leftHolds, leftNew⟩
  rcases (right.graphStore graph).insert id with ⟨-, rightHolds, rightNew⟩
  rw [stored_graphStore] at leftHolds leftNew rightHolds rightNew
  have flag : ((t.graphStore graph).insert id).2 = ((s.graphStore graph).insert id).2 := by
    rw [Bool.eq_iff_iff, leftNew, rightNew, same.triples]
  have holds : stored ((t.graphStore graph).insert id).1 =
      stored ((s.graphStore graph).insert id).1 := by
    rw [leftHolds, rightHolds, same.triples]
  have changed := same.setGraph dict graph holds
  refine ⟨?_, flag⟩
  rw [Session.inserted, Session.inserted, flag]
  split
  · exact (changed.pushUndo _).recordRedo _ _ _
  · exact changed

theorem Same.removed (same : Same s t) (left : s.Valid) (right : t.Valid)
    (graph : Option UInt32) (id : IdTriple) :
    Same (s.removed graph id) (t.removed graph id) ∧
      ((t.graphStore graph).remove id).2 = ((s.graphStore graph).remove id).2 := by
  rcases (left.graphStore graph).remove id with ⟨-, leftHolds, leftOld⟩
  rcases (right.graphStore graph).remove id with ⟨-, rightHolds, rightOld⟩
  rw [stored_graphStore] at leftHolds leftOld rightHolds rightOld
  have flag : ((t.graphStore graph).remove id).2 = ((s.graphStore graph).remove id).2 := by
    rw [Bool.eq_iff_iff, leftOld, rightOld, same.triples]
  have holds : stored ((t.graphStore graph).remove id).1 =
      stored ((s.graphStore graph).remove id).1 := by
    rw [leftHolds, rightHolds, same.triples]
  have changed := same.setGraph s.dict graph holds
  have dict : { t with dict := s.dict } = t := by rw [← same.dict]
  rw [dict] at changed
  refine ⟨?_, flag⟩
  rw [Session.removed, Session.removed, flag]
  split
  · exact (changed.pushUndo _).recordRedo _ _ _
  · exact changed

end Same

/-! ## Lists of quads -/

section Quads

variable {s t after : Session} {triple : Triple} {graph : Option Text} {changed : Bool}

theorem Same.insertQuad (same : Same s t) (left : s.Valid) (right : t.Valid)
    (ran : s.insertQuad triple graph = some (after, changed)) :
    ∃ last, t.insertQuad triple graph = some (last, changed) ∧ Same after last := by
  rw [insertQuad_eq, Option.map_eq_some_iff] at ran
  rcases ran with ⟨⟨dict, gid, id⟩, encoded, result⟩
  cases result
  rcases same.inserted left right dict gid id with ⟨alike, flag⟩
  refine ⟨t.inserted dict gid id, ?_, alike⟩
  rw [insertQuad_eq, same.dict, encoded, Option.map_some]
  simp only [flag]

theorem Same.deleteQuad (same : Same s t) (left : s.Valid) (right : t.Valid) (triple : Triple)
    (graph : Option Text) :
    Same (s.deleteQuad triple graph).1 (t.deleteQuad triple graph).1 ∧
      (t.deleteQuad triple graph).2 = (s.deleteQuad triple graph).2 := by
  rw [deleteQuad_eq, deleteQuad_eq, same.dict]
  split
  · exact ⟨same, rfl⟩
  · rw [same.hasGraph]
    split
    · exact same.removed left right _ _
    · exact ⟨same, rfl⟩

theorem Same.insertAll (triples : List GroundTriple) :
    ∀ {s t after : Session} {count : Nat}, Same s t → s.Valid → t.Valid →
      s.insertAll triples = some (after, count) →
      ∃ last, t.insertAll triples = some (last, count) ∧ Same after last := by
  induction triples with
  | nil =>
    intro s t after count same left right ran
    cases ran
    exact ⟨t, rfl, same⟩
  | cons ground rest induction =>
    intro s t after count same left right ran
    simp only [Session.insertAll, Option.bind_eq_bind, Option.bind_eq_some_iff,
      Prod.exists] at ran
    rcases ran with ⟨middle, changed, inserted, end_, further, later, result⟩
    cases result
    rcases same.insertQuad left right inserted with ⟨other, alsoInserted, alike⟩
    have middleValid := (logged_insertQuad left inserted).valid
    have otherValid := (logged_insertQuad right alsoInserted).valid
    rcases induction alike middleValid otherValid later with ⟨last, alsoLater, final⟩
    refine ⟨last, ?_, final⟩
    simp only [Session.insertAll, alsoInserted, alsoLater, Option.bind_eq_bind,
      Option.bind_some, Option.pure_def]

theorem Same.deleteAll (triples : List GroundTriple) :
    ∀ {s t : Session}, Same s t → s.Valid → t.Valid →
      Same (s.deleteAll triples).1 (t.deleteAll triples).1 ∧
        (t.deleteAll triples).2 = (s.deleteAll triples).2 := by
  induction triples with
  | nil => exact fun same _ _ => ⟨same, rfl⟩
  | cons ground rest induction =>
    intro s t same left right
    rcases same.deleteQuad left right ground.triple ground.graph with ⟨alike, flag⟩
    rcases induction alike (logged_deleteQuad left _ _).valid (logged_deleteQuad right _ _).valid
      with ⟨final, count⟩
    simp only [Session.deleteAll, flag, count]
    exact ⟨final, trivial⟩

end Quads

/-! ## Clearing -/

section Clear

variable {s t : Session}

theorem Same.clearDefault (same : Same s t) (left : s.Valid) (right : t.Valid) :
    Same s.clearDefault.1 t.clearDefault.1 ∧ t.clearDefault.2 = s.clearDefault.2 := by
  have source := same.source left right none
  have count : t.store.tripleCount = s.store.tripleCount := congrArg TripleSource.tripleCount source
  have listed : t.store.iterAll = s.store.iterAll := congrArg TripleSource.iterAll source
  rw [Session.clearDefault, Session.clearDefault, count, listed]
  split
  · have cleared := same.setGraph s.dict none (rfl : stored TripleStore.new = stored TripleStore.new)
    rw [show { t with dict := s.dict } = t by rw [← same.dict]] at cleared
    exact ⟨cleared.pushUndo _, rfl⟩
  · exact ⟨same, rfl⟩

theorem Same.withNamed {left right : NamedGraphs} (same : Same s t) (cleared : UInt32 → Prop)
    [DecidablePred cleared]
    (leftCleared : ∀ gid, left[gid]? = if cleared gid then none else s.named[gid]?)
    (rightCleared : ∀ gid, right[gid]? = if cleared gid then none else t.named[gid]?) :
    Same { s with named := left } { t with named := right } where
  dict := same.dict
  triples := by
    rw [triples_cleared cleared leftCleared, triples_cleared cleared rightCleared, same.triples]
  graphs := by
    rw [graphs_cleared cleared leftCleared, graphs_cleared cleared rightCleared, same.graphs]
  txn := same.txn
  redoLog := same.redoLog
  redoPending := same.redoPending
  updateLog := same.updateLog

theorem Same.clearNamed (same : Same s t) (left : s.Valid) (right : t.Valid) (graph : Text) :
    Same (s.clearNamed graph).1 (t.clearNamed graph).1 ∧
      (t.clearNamed graph).2 = (s.clearNamed graph).2 := by
  have interned : t.dict.entityId (Term.iri graph).dictKey =
      s.dict.entityId (Term.iri graph).dictKey := by rw [same.dict]
  rw [Session.clearNamed, Session.clearNamed, interned]
  split
  · exact ⟨same, rfl⟩
  · rename_i gid known
    have source := same.source left right (some gid)
    have count : (t.named.getD gid TripleStore.new).tripleCount =
        (s.named.getD gid TripleStore.new).tripleCount := congrArg TripleSource.tripleCount source
    have listed : (t.named.getD gid TripleStore.new).iterAll =
        (s.named.getD gid TripleStore.new).iterAll := congrArg TripleSource.iterAll source
    dsimp only
    rw [count, listed]
    split
    · have cleared := same.withNamed (· = gid) (getElem?_erase_named s.named gid)
        (getElem?_erase_named t.named gid)
      exact ⟨cleared.pushUndo _, rfl⟩
    · exact ⟨same, rfl⟩

/-- The named graphs in the order of their ids. -/
theorem toList_eq (s : Session) :
    s.named.toList = s.named.keys.map fun gid => (gid, s.graphStore (some gid)) := by
  rw [← Std.TreeMap.map_fst_toList_eq_keys, List.map_map]
  refine (List.map_id _).symm.trans (List.map_congr_left ?_)
  rintro ⟨gid, held⟩ member
  have found := Std.TreeMap.mem_toList_iff_getElem?_eq_some.mp member
  simp only [Function.comp_apply, graphStore, Std.TreeMap.getD_eq_getD_getElem?, found,
    Option.getD_some, id_eq]

theorem Same.keys (same : Same s t) : t.named.keys = s.named.keys := by
  have ascends : ∀ session : Session,
      Ascends (· < ·) session.named.keys fun gid => gid ∈ session.graphs := by
    intro session
    apply Ascends.of_pairwise
    · exact Std.TreeMap.ordered_keys.imp fun less => by simpa [compare_lt_iff_lt] using less
    · intro gid
      rw [Std.TreeMap.mem_keys, Std.TreeMap.mem_iff_isSome_getElem?, Option.isSome_iff_exists]
      rfl
  apply (ascends t).eq_of_lt
  rw [same.graphs]
  exact ascends s

theorem Same.clearAllNamed (same : Same s t) (left : s.Valid) (right : t.Valid) :
    Same s.clearAllNamed.1 t.clearAllNamed.1 ∧ t.clearAllNamed.2 = s.clearAllNamed.2 := by
  have source := fun gid => same.source left right (some gid)
  have counts : (t.named.toList.map fun graph => graph.2.tripleCount) =
      s.named.toList.map fun graph => graph.2.tripleCount := by
    rw [toList_eq, toList_eq, same.keys, List.map_map, List.map_map]
    exact List.map_congr_left fun gid _ => congrArg TripleSource.tripleCount (source gid)
  have entries : namedUndo t.named = namedUndo s.named := by
    rw [namedUndo, namedUndo, toList_eq, toList_eq, same.keys, List.flatMap_map, List.flatMap_map]
    apply List.flatMap_congr
    intro gid _
    exact congrArg (List.map _) (congrArg TripleSource.iterAll (source gid))
  rw [Session.clearAllNamed, Session.clearAllNamed, counts, entries]
  split
  · have cleared : Same { s with named := ∅ } { t with named := ∅ } :=
      same.withNamed (fun _ => True) (by simp) (by simp)
    exact ⟨cleared.pushUndo _, rfl⟩
  · exact ⟨same, rfl⟩

theorem Same.clearTarget (same : Same s t) (left : s.Valid) (right : t.Valid)
    (target : GraphTarget) : Same (s.clearTarget target).1 (t.clearTarget target).1 ∧
      (t.clearTarget target).2 = (s.clearTarget target).2 := by
  cases target with
  | default => exact same.clearDefault left right
  | all =>
    rcases same.clearDefault left right with ⟨alike, count⟩
    rcases alike.clearAllNamed (logged_clearDefault left).valid (logged_clearDefault right).valid
      with ⟨final, further⟩
    simp only [Session.clearTarget, count, further]
    exact ⟨final, trivial⟩
  | named name =>
    rw [Session.clearTarget, Session.clearTarget]
    split
    · exact same.clearAllNamed left right
    · exact same.clearNamed left right name

end Clear

/-! ## Requests -/

section Requests

variable {α : Type} {host : Host α} {s t after : Session} {outcome : Except DbError Nat}

theorem Same.loadRdfSource {source : Text} (same : Same s t) (left : s.Valid) (right : t.Valid)
    (ran : s.loadRdfSource host source = some (outcome, after)) :
    ∃ last, t.loadRdfSource host source = some (outcome, last) ∧ Same after last := by
  rw [Session.loadRdfSource] at ran ⊢
  split
  · rename_i remote
    rw [if_pos remote] at ran
    cases ran
    exact ⟨t, rfl, same⟩
  · rename_i here
    rw [if_neg here] at ran
    cases read : host.parseFile (localPath source) with
    | error message =>
      rw [read] at ran
      cases ran
      exact ⟨t, rfl, same⟩
    | ok triples =>
      rw [read] at ran
      rcases Option.map_eq_some_iff.mp ran with ⟨⟨end_, count⟩, loaded, result⟩
      cases result
      rcases same.insertAll _ left right loaded with ⟨last, alsoLoaded, alike⟩
      exact ⟨last, by simp only [alsoLoaded, Option.map_some], alike⟩

theorem Same.applyModify {dels ins : List Triple} (same : Same s t) (left : s.Valid)
    (right : t.Valid) (ran : s.applyModify dels ins = some (outcome, after)) :
    ∃ last, t.applyModify dels ins = some (outcome, last) ∧ Same after last := by
  simp only [Session.applyModify, Option.bind_eq_bind, Option.bind_eq_some_iff, Prod.exists] at ran ⊢
  rcases ran with ⟨end_, count, added, result⟩
  cases result
  rcases same.deleteAll (dels.map inDefault) left right with ⟨middle, deleted⟩
  rcases middle.insertAll _ (logged_deleteAll _ left).valid (logged_deleteAll _ right).valid added
    with ⟨last, alsoAdded, alike⟩
  refine ⟨last, ⟨last, count, alsoAdded, ?_⟩, alike⟩
  rw [deleted]
  rfl

theorem Same.execUpdateOp {op : UpdateOp α} (same : Same s t) (left : s.Valid) (right : t.Valid)
    (ran : s.execUpdateOp host op = some (outcome, after)) :
    ∃ last, t.execUpdateOp host op = some (outcome, last) ∧ Same after last := by
  cases op with
  | insertData triples =>
    rcases Option.map_eq_some_iff.mp ran with ⟨⟨end_, count⟩, inserted, result⟩
    cases result
    rcases same.insertAll triples left right inserted with ⟨last, alsoInserted, alike⟩
    exact ⟨last, by simp only [Session.execUpdateOp, alsoInserted, Option.map_some], alike⟩
  | deleteData triples =>
    simp only [Session.execUpdateOp, Option.some.injEq, Prod.mk.injEq] at ran ⊢
    rcases ran with ⟨rfl, rfl⟩
    rcases same.deleteAll triples left right with ⟨alike, count⟩
    exact ⟨_, ⟨by rw [count], rfl⟩, alike⟩
  | modify request =>
    have answer : host.modify t.dict t.store.source request =
        host.modify s.dict s.store.source request := by
      rw [same.dict, show t.store.source = s.store.source from same.source left right none]
    rw [Session.execUpdateOp] at ran ⊢
    rw [answer]
    exact same.applyModify left right ran
  | load source silent =>
    simp only [Session.execUpdateOp, Option.bind_eq_bind, Option.bind_eq_some_iff,
      Prod.exists] at ran ⊢
    rcases ran with ⟨answer, end_, loaded, result⟩
    rcases same.loadRdfSource left right loaded with ⟨last, alsoLoaded, alike⟩
    cases answer <;> cases result <;> exact ⟨last, ⟨_, last, alsoLoaded, rfl⟩, alike⟩
  | clear target silent | drop target silent =>
    simp only [Session.execUpdateOp, Option.some.injEq, Prod.mk.injEq] at ran ⊢
    rcases ran with ⟨rfl, rfl⟩
    rcases same.clearTarget left right target with ⟨alike, count⟩
    exact ⟨_, ⟨by rw [count], rfl⟩, alike⟩
  | create name silent =>
    cases ran
    exact ⟨t, rfl, same⟩

theorem Same.execOps (ops : List (UpdateOp α)) :
    ∀ {s t after : Session} {outcome : Except DbError Nat}, Same s t → s.Valid → t.Valid →
      s.execOps host ops = some (outcome, after) →
      ∃ last, t.execOps host ops = some (outcome, last) ∧ Same after last := by
  induction ops with
  | nil =>
    intro s t after outcome same left right ran
    cases ran
    exact ⟨t, rfl, same⟩
  | cons op rest induction =>
    intro s t after outcome same left right ran
    simp only [Session.execOps, Option.bind_eq_bind, Option.bind_eq_some_iff,
      Prod.exists] at ran ⊢
    rcases ran with ⟨answer, middle, here, ran⟩
    rcases same.execUpdateOp left right here with ⟨other, alsoHere, alike⟩
    have middleValid := (logged_execUpdateOp left here).valid
    have otherValid := (logged_execUpdateOp right alsoHere).valid
    cases answer with
    | error error =>
      cases ran
      exact ⟨other, ⟨_, other, alsoHere, rfl⟩, alike⟩
    | ok changed =>
      simp only [Option.bind_eq_some_iff, Prod.exists] at ran
      rcases ran with ⟨further, end_, later, result⟩
      rcases induction alike middleValid otherValid later with ⟨last, alsoLater, final⟩
      refine ⟨last, ⟨_, other, alsoHere, ?_⟩, ?_⟩
      · simp only [alsoLater, Option.bind_some]
        cases further <;> cases result <;> rfl
      · cases further <;> cases result <;> exact final

theorem Same.query {sparql : Text} (same : Same s t) (left : s.Valid) (right : t.Valid)
    (ran : s.query host sparql = some (outcome, after)) :
    ∃ last, t.query host sparql = some (outcome, last) ∧ Same after last := by
  rw [Session.query] at ran ⊢
  cases parsed : host.parse sparql with
  | error message =>
    rw [parsed] at ran
    cases ran
    exact ⟨t, rfl, same⟩
  | ok ops =>
    rw [parsed] at ran
    simp only [Option.bind_eq_bind, Option.bind_eq_some_iff, Prod.exists] at ran ⊢
    rcases ran with ⟨answer, end_, applied, ran⟩
    rcases same.execOps ops left right applied with ⟨last, alsoApplied, alike⟩
    cases answer with
    | error error =>
      cases ran
      exact ⟨last, ⟨_, last, alsoApplied, rfl⟩, alike⟩
    | ok changed =>
      dsimp only at ran
      cases kept : end_.updateLog with
      | none =>
        rw [kept] at ran
        cases ran
        refine ⟨last, ⟨_, last, alsoApplied, ?_⟩, alike⟩
        simp only [alike.updateLog, kept]
        rfl
      | some log =>
        rw [kept] at ran
        dsimp only at ran
        split at ran
        · rename_i appends
          cases ran
          refine ⟨{ last with updateLog := some (log ++ [{ changed, statement := sparql }]) },
            ⟨_, last, alsoApplied, ?_⟩, ?_⟩
          · simp only [alike.updateLog, kept, if_pos appends]
            rfl
          · exact ⟨alike.dict, alike.triples, alike.graphs, alike.txn, alike.redoLog,
              alike.redoPending, rfl⟩
        · rename_i fails
          cases ran
          refine ⟨last, ⟨_, last, alsoApplied, ?_⟩, alike⟩
          simp only [alike.updateLog, kept, if_neg fails]
          rfl

end Requests

end Session

/-! ## Runs -/

/-- The mutations that a shared database knows: requests, and the writes of a
transaction. -/
def Mutation.IsWrite {α : Type} : Mutation α → Prop
  | .request _ _ => True
  | .insertTriple _ => True
  | .removeTriple _ => True
  | _ => False

namespace Session

section Runs

variable {α : Type}

theorem apply_valid {mutation : Mutation α} {s after : Session} (valid : s.Valid)
    (ran : s.apply mutation = some after) : after.Valid := by
  rcases apply_cases valid ran with logged | ⟨-, rfl⟩
  · exact logged.valid
  · exact valid.reclaimUnused

theorem Same.apply {mutation : Mutation α} {s t after : Session} (same : Same s t)
    (left : s.Valid) (right : t.Valid) (write : mutation.IsWrite)
    (ran : s.apply mutation = some after) :
    ∃ last, t.apply mutation = some last ∧ Same after last := by
  cases mutation with
  | request host sparql =>
    rcases Option.map_eq_some_iff.mp ran with ⟨⟨outcome, end_⟩, answered, rfl⟩
    rcases same.query left right answered with ⟨last, alsoAnswered, alike⟩
    exact ⟨last, by rw [Session.apply, alsoAnswered, Option.map_some], alike⟩
  | insertTriple triple =>
    rcases Option.map_eq_some_iff.mp ran with ⟨⟨end_, changed⟩, inserted, rfl⟩
    have quad : s.insertQuad triple none = some (end_, changed) := inserted
    rcases same.insertQuad left right quad with ⟨last, alsoInserted, alike⟩
    have triple_ : t.insertTriple triple = some (last, changed) := alsoInserted
    exact ⟨last, by rw [Session.apply, triple_, Option.map_some], alike⟩
  | removeTriple triple =>
    cases ran
    exact ⟨_, rfl, (same.deleteQuad left right triple none).1⟩
  | materializeRdfs => exact write.elim
  | runRules fuel rules => exact write.elim
  | reclaimUnused => exact write.elim

theorem Same.run (mutations : List (Mutation α)) :
    ∀ {s t after : Session}, Same s t → s.Valid → t.Valid →
      (∀ mutation ∈ mutations, mutation.IsWrite) → s.run mutations = some after →
      ∃ last, t.run mutations = some last ∧ Same after last := by
  induction mutations with
  | nil =>
    intro s t after same left right _ ran
    cases ran
    exact ⟨t, rfl, same⟩
  | cons mutation rest induction =>
    intro s t after same left right writes ran
    rcases Option.bind_eq_some_iff.mp ran with ⟨middle, here, later⟩
    rcases same.apply left right (writes mutation List.mem_cons_self) here with
      ⟨other, alsoHere, alike⟩
    rcases induction alike (apply_valid left here) (apply_valid right alsoHere)
      (fun other member => writes other (List.mem_cons_of_mem _ member)) later with
      ⟨last, alsoLater, final⟩
    exact ⟨last, by rw [Session.run, alsoHere, Option.bind_some, alsoLater], final⟩

end Runs

end Session

end GStore.Db
