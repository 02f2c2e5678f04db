import GStore.Db.Inference
import GStore.Db.Quads

/-! # Rollback

What a rollback would leave, from any point inside a transaction, and which steps
keep that as it was at the start of the transaction. -/

namespace GStore.Db

open Dict Reason Store UndoEntry

namespace Session

/-- The undo log, empty outside a transaction. -/
def log (s : Session) : List UndoOp := s.txn.getD []

/-- The triples that a rollback would leave. -/
def restored (s : Session) : Option UInt32 → Set IdTriple := undone s.log s.triples

/-- The graphs that a rollback would leave: those that are there and those that the
undo log inserts into. -/
def kept (s : Session) : Set UInt32 := s.graphs ∪ {gid | some gid ∈ readded s.log}

/-! ## Logged changes -/

/-- The graphs that the undo log inserts into have names. -/
def LogKnown (s : Session) : Prop := ∀ gid, some gid ∈ readded s.log → (s.dict.slot gid).isSome

/-- The step logs how to take it back, where `safe` also which graphs there were. -/
structure Logged (safe : Prop) (s after : Session) : Prop where
  valid : after.Valid
  known : s.Known → after.Known
  grows : s.dict.Extends after.dict
  active : after.txn.isSome = s.txn.isSome
  restored : s.txn.isSome → after.restored = s.restored
  kept : safe → s.txn.isSome → after.kept = s.kept
  logKnown : s.Known → s.LogKnown → after.LogKnown
  redoLog : s.txn.isSome → after.redoLog = s.redoLog
  pending : s.txn = none → s.redoPending = [] → after.redoPending = []

section Logged

variable {safe further : Prop} {s middle after : Session}

theorem Logged.refl (valid : s.Valid) : Logged safe s s where
  valid := valid
  known := id
  grows := .refl _
  active := rfl
  restored _ := rfl
  kept _ _ := rfl
  logKnown _ := id
  redoLog _ := rfl
  pending _ quiet := quiet

theorem Logged.trans {both : Prop} (first : Logged safe s middle)
    (second : Logged further middle after) (implies : both → s.txn.isSome → safe ∧ further) :
    Logged both s after where
  valid := second.valid
  known known := second.known (first.known known)
  grows := first.grows.trans second.grows
  active := second.active.trans first.active
  restored active := (second.restored (first.active ▸ active)).trans (first.restored active)
  kept both active := by
    rcases implies both active with ⟨early, late⟩
    exact (second.kept late (first.active ▸ active)).trans (first.kept early active)
  logKnown known log := second.logKnown (first.known known) (first.logKnown known log)
  redoLog active := (second.redoLog (first.active ▸ active)).trans (first.redoLog active)
  pending auto quiet := by
    have still : middle.txn = none := by
      rw [← Option.isNone_iff_eq_none, ← Option.not_isSome, first.active, auto]
      rfl
    exact second.pending still (first.pending auto quiet)

theorem Logged.mono {stronger : Prop} (logged : Logged safe s after) (implies : stronger → safe) :
    Logged stronger s after :=
  { logged with kept := fun strong => logged.kept (implies strong) }

/-- The entries put back what `added` says and nothing else. -/
theorem undone_puts {entries : List UndoOp} {held : Option UInt32 → Set IdTriple}
    (added : Option UInt32 → Set IdTriple)
    (adds : ∀ entry ∈ entries, ∃ key item, entry = .add key item)
    (listed : ∀ graph triple, UndoEntry.add graph triple ∈ entries ↔ triple ∈ added graph) :
    undone entries held = fun graph => held graph ∪ added graph := by
  funext graph
  rw [undone_adds adds]
  congr 1
  exact Set.ext fun triple => listed graph triple

/-- The change leaves the transaction and the redo log alone. -/
structure Unlogged (s changed : Session) : Prop where
  txn : changed.txn = s.txn
  redoLog : changed.redoLog = s.redoLog
  pending : changed.redoPending = s.redoPending

/-- A change of the graphs, logged with the entries that take it back. -/
theorem logged_of_undone {changed : Session} (entries : List UndoOp) (unlogged : Unlogged s changed)
    (valid : changed.Valid) (known : s.Known → changed.Known) (dictValid : s.dict.Valid)
    (grows : s.dict.Extends changed.dict) (undoes : undone entries changed.triples = s.triples)
    (entered : ∀ gid, some gid ∈ readded entries → gid ∈ s.graphs)
    (graphs : safe → changed.graphs ∪ {gid | some gid ∈ readded entries} ∪
      {gid | some gid ∈ readded s.log} = s.kept) : Logged safe s (changed.pushUndo entries) where
  valid := ⟨valid.dict, valid.store, valid.named⟩
  known held := ⟨(known held).triple, (known held).graph⟩
  grows := grows
  active := by rw [pushUndo, Option.isSome_map, unlogged.txn]
  restored active := by
    rcases Option.isSome_iff_exists.mp active with ⟨log, opened⟩
    change undone _ changed.triples = undone _ _
    rw [Session.log, Session.log, pushUndo, unlogged.txn, opened]
    simp [undoes]
  kept safe active := by
    rw [← graphs safe]
    rcases Option.isSome_iff_exists.mp active with ⟨log, opened⟩
    change changed.graphs ∪ _ = _
    simp only [Session.log, pushUndo, unlogged.txn, opened, Option.map_some, Option.getD_some,
      readded_append]
    ext gid
    simp only [Set.mem_union, Set.mem_ofPred_eq]
    tauto
  logKnown held log := by
    intro gid member
    have live : (s.dict.slot gid).isSome := by
      cases opened : s.txn with
      | none => simp [Session.log, pushUndo, unlogged.txn, opened, readded] at member
      | some earlier =>
        simp only [Session.log, pushUndo, unlogged.txn, opened, Option.map_some,
          Option.getD_some, readded_append] at member
        rcases member with before | here
        · exact log gid (by rwa [Session.log, opened])
        · exact held.graph gid (entered gid here)
    exact (grows.slot dictValid valid.dict live).symm ▸ live
  redoLog _ := unlogged.redoLog
  pending _ quiet := unlogged.pending.trans quiet

/-- A redo record leaves the database alone. -/
theorem Logged.record (logged : Logged safe s after) (op : RedoOp) (graph : Option UInt32)
    (id : IdTriple) : Logged safe s (after.recordRedo op graph id) := by
  have log : (after.recordRedo op graph id).log = after.log := by
    rw [Session.log, Session.log, recordRedo_txn]
  constructor
  case valid =>
    constructor
    · rw [recordRedo_dict]
      exact logged.valid.dict
    · rw [recordRedo_store]
      exact logged.valid.store
    · rw [recordRedo_named]
      exact logged.valid.named
  case known =>
    intro known
    constructor
    · rw [recordRedo_triples, recordRedo_dict]
      exact (logged.known known).triple
    · rw [recordRedo_graphs, recordRedo_dict]
      exact (logged.known known).graph
  case grows =>
    rw [recordRedo_dict]
    exact logged.grows
  case active => rw [recordRedo_txn, logged.active]
  case restored =>
    intro active
    rw [Session.restored, log, recordRedo_triples]
    exact logged.restored active
  case kept =>
    intro safe active
    rw [Session.kept, log, recordRedo_graphs]
    exact logged.kept safe active
  case logKnown =>
    intro known before
    rw [LogKnown, log, recordRedo_dict]
    exact logged.logKnown known before
  case redoLog =>
    intro active
    rw [recordRedo_redoLog (logged.active ▸ active)]
    exact logged.redoLog active
  case pending =>
    intro auto quiet
    have still : after.txn = none := by
      rw [← Option.isNone_iff_eq_none, ← Option.not_isSome, logged.active, auto]
      rfl
    exact recordRedo_pending still (logged.pending auto quiet)

/-- A change that changes no graph needs no entry. -/
theorem logged_of_same {changed : Session} (unlogged : Unlogged s changed) (valid : changed.Valid)
    (known : s.Known → changed.Known) (dictValid : s.dict.Valid) (grows : s.dict.Extends changed.dict)
    (triples : changed.triples = s.triples)
    (graphs : safe → changed.graphs ∪ {gid | some gid ∈ readded s.log} = s.kept) :
    Logged safe s changed := by
  have logged : Logged safe s (changed.pushUndo []) :=
    logged_of_undone [] unlogged valid known dictValid grows triples
      (by simp [readded]) (by simpa [readded] using graphs)
  have same : changed.pushUndo [] = changed := by
    rw [pushUndo]
    cases opened : changed.txn <;> simp [← opened]
  rwa [same] at logged

end Logged

/-! ## One triple -/

section One

variable {s : Session} {dict : Dictionary} {graph : Option UInt32} {id : IdTriple}
  {store : TripleStore}

theorem unlogged_setGraph : Unlogged s ({ s with dict }.setGraph graph store) := by
  cases graph <;> exact ⟨rfl, rfl, rfl⟩

theorem Known.setGraph (known : s.Known) (graph : Option UInt32) (valid : s.dict.Valid) (dictValid : dict.Valid)
    (grows : s.dict.Extends dict)
    (triples : ∀ triple ∈ stored store, triple ∈ s.triples graph ∨ dict.Live triple)
    (graphs : ∀ gid, graph = some gid → gid ∈ s.graphs ∨ (dict.slot gid).isSome) :
    ({ s with dict }.setGraph graph store).Known := by
  apply known.change valid
  · rwa [setGraph_dict]
  · rwa [setGraph_dict]
  · intro other triple member
    rw [triples_setGraph] at member
    rw [setGraph_dict]
    by_cases same : other = graph
    · subst same
      rw [Function.update_self] at member
      exact triples triple member
    · rw [Function.update_of_ne same] at member
      exact .inl member
  · intro gid member
    rw [graphs_setGraph] at member
    rw [setGraph_dict]
    rcases member with before | here
    · exact .inl before
    · exact graphs gid here

theorem logged_inserted (valid : s.Valid) (dictValid : dict.Valid) (grows : s.dict.Extends dict)
    (live : dict.Live id) (named : ∀ gid, graph = some gid → (dict.slot gid).isSome) :
    Logged (∀ gid, graph = some gid → gid ∈ s.kept) s (s.inserted dict graph id) := by
  rcases (valid.graphStore graph).insert id with ⟨indexed, holds, isNew⟩
  rw [stored_graphStore] at holds isNew
  have regraphed : Session.Valid { s with dict } := ⟨dictValid, valid.store, valid.named⟩
  have stillValid := regraphed.setGraph graph indexed
  have triples : ({ s with dict }.setGraph graph ((s.graphStore graph).insert id).1).triples =
      Function.update s.triples graph (insert id (s.triples graph)) := by
    rw [triples_setGraph, holds]
    rfl
  have known : s.Known →
      ({ s with dict }.setGraph graph ((s.graphStore graph).insert id).1).Known := by
    intro known
    apply known.setGraph graph valid.dict dictValid grows
    · intro triple member
      rw [holds] at member
      rcases member with here | before
      · cases here
        exact .inr live
      · exact .inl before
    · exact fun gid here => .inr (named gid here)
  have graphs : (∀ gid, graph = some gid → gid ∈ s.kept) →
      ({ s with dict }.setGraph graph ((s.graphStore graph).insert id).1).graphs ∪
        {gid | some gid ∈ readded s.log} = s.kept := by
    intro present
    rw [graphs_setGraph, Set.union_right_comm]
    exact Set.union_eq_left.mpr fun gid here => present gid here
  have grown : s.dict.Extends
      ({ s with dict }.setGraph graph ((s.graphStore graph).insert id).1).dict := by
    rw [setGraph_dict]
    exact grows
  rw [inserted]
  by_cases flag : ((s.graphStore graph).insert id).2 = true
  · rw [if_pos flag]
    apply Logged.record
    apply logged_of_undone [.del graph id] unlogged_setGraph stillValid known valid.dict grown
    · rw [triples]
      exact undone_insert (isNew.mp flag)
    · simp [readded]
    · intro present
      rw [← graphs present]
      simp [readded]
  · rw [if_neg flag]
    apply logged_of_same unlogged_setGraph stillValid known valid.dict grown _ graphs
    rw [isNew, not_not] at flag
    rw [triples, Set.insert_eq_of_mem flag, Function.update_eq_self]

theorem logged_removed (valid : s.Valid) (named : ∀ gid, graph = some gid → gid ∈ s.graphs) :
    Logged True s (s.removed graph id) := by
  rcases (valid.graphStore graph).remove id with ⟨indexed, holds, isOld⟩
  rw [stored_graphStore] at holds isOld
  have stillValid := valid.setGraph graph indexed
  have triples : (s.setGraph graph ((s.graphStore graph).remove id).1).triples =
      Function.update s.triples graph (s.triples graph \ {id}) := by
    rw [triples_setGraph, holds]
  have known : s.Known → (s.setGraph graph ((s.graphStore graph).remove id).1).Known := by
    intro known
    apply known.setGraph graph valid.dict valid.dict (.refl _)
    · intro triple member
      rw [holds] at member
      exact .inl member.1
    · exact fun gid here => .inl (named gid here)
  have graphs : (s.setGraph graph ((s.graphStore graph).remove id).1).graphs = s.graphs := by
    rw [graphs_setGraph]
    exact Set.union_eq_left.mpr fun gid here => named gid here
  have grown : s.dict.Extends (s.setGraph graph ((s.graphStore graph).remove id).1).dict := by
    rw [setGraph_dict]
    exact .refl _
  rw [removed]
  by_cases flag : ((s.graphStore graph).remove id).2 = true
  · rw [if_pos flag]
    apply Logged.record
    have entered : ∀ gid, some gid ∈ readded [(.add graph id : UndoOp)] → gid ∈ s.graphs := by
      rintro gid ⟨triple, member⟩
      simp only [List.mem_singleton, add.injEq] at member
      exact named gid member.1.symm
    apply logged_of_undone [.add graph id] unlogged_setGraph stillValid known valid.dict grown
    · rw [triples]
      exact undone_remove (isOld.mp flag)
    · exact entered
    · intro _
      rw [graphs, kept]
      congr 1
      exact Set.union_eq_left.mpr entered
  · rw [if_neg flag]
    apply logged_of_same unlogged_setGraph stillValid known valid.dict grown
    · have absent : id ∉ s.triples graph := fun member => flag (isOld.mpr member)
      rw [triples, Set.sdiff_singleton_eq_self absent, Function.update_eq_self]
    · intro _
      rw [graphs, kept]

end One

/-! ## Reasoners -/

theorem logged_inferred {s : Session} {dict : Dictionary} {store : TripleStore}
    {added : List IdTriple} (valid : s.Valid) (inferred : Inferred s.dict s.store dict store added) :
    Logged True s ({ s with dict, store }.recordInferred added) := by
  have reasoned : Session.Valid { s with dict, store } :=
    ⟨inferred.valid, inferred.indexed, valid.named⟩
  have triples : Session.triples { s with dict, store } =
      Function.update s.triples none (stored s.store ∪ {triple | triple ∈ added}) := by
    rw [← inferred.holds]
    exact triples_setGraph { s with dict } none store
  have known : s.Known → Session.Known { s with dict, store } := by
    intro known
    apply known.setGraph none valid.dict inferred.valid inferred.grows
    · intro triple member
      rw [inferred.holds] at member
      exact member.imp_right (inferred.live (known.triple none) triple)
    · simp
  have unlogged : Unlogged s { s with dict, store } := ⟨rfl, rfl, rfl⟩
  rw [recordInferred]
  by_cases none : added = []
  · rw [if_pos none]
    apply logged_of_same unlogged reasoned known valid.dict inferred.grows
    · rw [triples, none]
      simp only [List.not_mem_nil, Set.ofPred_false, Set.union_empty]
      exact Function.update_eq_self (f := s.triples) _
    · exact fun _ => rfl
  · rw [if_neg none]
    apply logged_of_undone _ unlogged reasoned known valid.dict inferred.grows
    · funext graph
      rw [undone_dels (by simp), triples]
      cases graph with
      | none =>
        rw [Function.update_self]
        ext triple
        simp only [List.mem_map, del.injEq, true_and, exists_eq_right, Set.mem_sdiff,
          Set.mem_union, Set.mem_ofPred_eq]
        constructor
        · rintro ⟨before | new, old⟩
          · exact before
          · exact absurd new old
        · exact fun before => ⟨.inl before, fun new => inferred.fresh triple new before⟩
      | some gid =>
        rw [Function.update_of_ne (by simp)]
        simp
    · simp [readded]
    · intro _
      rw [kept]
      simp [readded]
      rfl

/-! ## Clearing -/

theorem logged_clearDefault {s : Session} (valid : s.Valid) : Logged True s s.clearDefault.1 := by
  rw [clearDefault]
  split
  · have cleared : Session.Valid { s with store := .new } := ⟨valid.dict, indexed_new, valid.named⟩
    have triples : Session.triples { s with store := .new } = Function.update s.triples none ∅ := by
      rw [← stored_new]
      exact triples_setGraph s none _
    have known : s.Known → Session.Known { s with store := .new } := by
      intro known
      apply known.setGraph none valid.dict valid.dict (.refl _)
      · simp
      · simp
    have unlogged : Unlogged s { s with store := .new } := ⟨rfl, rfl, rfl⟩
    apply logged_of_undone _ unlogged cleared known valid.dict (.refl _)
    · rw [undone_puts (fun graph => {triple | graph = none ∧ triple ∈ s.triples none}) (by simp), triples]
      · funext graph
        cases graph with
        | none => simp
        | some gid => simp
      · intro graph triple
        simp only [List.mem_map, valid.store.mem_iterAll, add.injEq, Set.mem_ofPred_eq]
        constructor
        · rintro ⟨_, member, rfl, rfl⟩
          exact ⟨rfl, member⟩
        · rintro ⟨rfl, member⟩
          exact ⟨triple, member, rfl, rfl⟩
    · simp [readded]
    · intro _
      rw [kept]
      simp [readded]
      rfl
  · exact .refl valid

section Clear

variable {s : Session}

/-- The empty graphs among the cleared ones are lost, unless the undo log inserts
into them. -/
theorem logged_cleared {safe : Prop} {named : NamedGraphs} {entries : List UndoOp}
    (cleared : UInt32 → Prop) [DecidablePred cleared] (valid : s.Valid)
    (left : ∀ gid, named[gid]? = if cleared gid then none else s.named[gid]?)
    (adds : ∀ entry ∈ entries, ∃ gid triple, entry = .add (some gid) triple)
    (listed : ∀ gid triple, .add (some gid) triple ∈ entries ↔
      cleared gid ∧ triple ∈ s.triples (some gid))
    (present : safe → ∀ gid ∈ s.graphs, cleared gid →
      (s.triples (some gid)).Nonempty ∨ some gid ∈ readded s.log) :
    Logged safe s ({ s with named }.pushUndo entries) := by
  have stays : ∀ gid held, named[gid]? = some held → ¬ cleared gid ∧ s.named[gid]? = some held := by
    intro gid held found
    rw [left] at found
    split at found
    · cases found
    · rename_i here
      exact ⟨here, found⟩
  have graphs := graphs_cleared cleared left
  have triples := triples_cleared cleared left
  have still : Session.Valid { s with named } :=
    ⟨valid.dict, valid.store, fun gid held found => valid.named gid held (stays gid held found).2⟩
  have known : s.Known → Session.Known { s with named } := by
    intro known
    constructor
    · intro graph triple member
      rw [triples] at member
      exact known.triple graph triple member.1
    · intro gid member
      rw [graphs] at member
      exact known.graph gid member.1
  have unlogged : Unlogged s { s with named } := ⟨rfl, rfl, rfl⟩
  apply logged_of_undone entries unlogged still known valid.dict (.refl _)
  · rw [undone_puts (fun graph =>
      {triple | ∃ gid, graph = some gid ∧ cleared gid ∧ triple ∈ s.triples graph}), triples]
    · funext graph
      ext triple
      cases graph with
      | none => simp
      | some gid =>
        by_cases here : cleared gid
        · simp [here]
        · simp [here]
    · intro entry member
      rcases adds entry member with ⟨gid, triple, rfl⟩
      exact ⟨_, _, rfl⟩
    · intro graph triple
      cases graph with
      | none =>
        simp only [Set.mem_ofPred_eq, reduceCtorEq, false_and, exists_false, iff_false]
        intro member
        rcases adds _ member with ⟨gid, other, same⟩
        cases same
      | some gid => simp [listed]
  · rintro gid ⟨triple, member⟩
    exact triples_subset_graphs ((listed gid triple).mp member).2
  · intro safe
    rw [graphs, kept]
    ext gid
    simp only [readded, Set.mem_union, Set.mem_ofPred_eq, listed]
    constructor
    · rintro ((⟨member, -⟩ | ⟨triple, -, member⟩) | logged)
      · exact .inl member
      · exact .inl (triples_subset_graphs member)
      · exact .inr logged
    · rintro (member | logged)
      · by_cases here : cleared gid
        · rcases present safe gid member here with ⟨triple, held⟩ | logged
          · exact .inl (.inr ⟨triple, here, held⟩)
          · exact .inr logged
        · exact .inl (.inl ⟨member, here⟩)
      · exact .inr logged

theorem logged_clearNamed (valid : s.Valid) (graph : Text) : Logged True s (s.clearNamed graph).1 := by
  rw [clearNamed]
  split
  · exact .refl valid
  · rename_i gid known
    dsimp only
    split
    · rename_i positive
      have indexed := valid.graphStore (some gid)
      have holds := stored_graphStore s (some gid)
      rw [graphStore] at indexed holds
      apply logged_cleared (· = gid) valid
      · exact getElem?_erase_named s.named gid
      · intro entry member
        rcases List.mem_map.mp member with ⟨triple, -, rfl⟩
        exact ⟨gid, triple, rfl⟩
      · intro other triple
        simp only [List.mem_map, indexed.mem_iterAll, add.injEq, Option.some.injEq]
        constructor
        · rintro ⟨_, member, rfl, rfl⟩
          exact ⟨rfl, holds ▸ member⟩
        · rintro ⟨rfl, member⟩
          exact ⟨triple, holds ▸ member, rfl, rfl⟩
      · rintro - other - rfl
        rw [← holds]
        exact .inl (indexed.count_pos.mp positive)
    · exact .refl valid

/-- Some graph holds a triple, and then the empty ones are of this transaction. -/
def EmptyLogged (s : Session) : Prop :=
  (∃ gid, (s.triples (some gid)).Nonempty) →
    ∀ gid ∈ s.graphs, (s.triples (some gid)).Nonempty ∨ some gid ∈ readded s.log

theorem count_named_pos (valid : s.Valid) :
    0 < (s.named.toList.map fun graph => graph.2.tripleCount).sum ↔
      ∃ gid, (s.triples (some gid)).Nonempty := by
  rw [← not_iff_not, Nat.not_lt, Nat.le_zero, List.sum_eq_zero_iff]
  simp only [List.mem_map, Prod.exists, forall_exists_index, and_imp,
    Std.TreeMap.mem_toList_iff_getElem?_eq_some, not_exists, Set.not_nonempty_iff_eq_empty]
  constructor
  · intro zero gid
    ext triple
    simp only [triples, Set.mem_ofPred_eq, Set.mem_empty_iff_false, iff_false]
    rintro ⟨held, found, member⟩
    have positive := (valid.named gid held found).count_pos.mpr ⟨triple, member⟩
    have none := zero _ gid held found rfl
    omega
  · rintro empty _ gid held found rfl
    by_contra positive
    rcases (valid.named gid held found).count_pos.mp (Nat.pos_of_ne_zero positive) with
      ⟨triple, member⟩
    have here : triple ∈ s.triples (some gid) := ⟨held, found, member⟩
    rw [empty gid] at here
    exact here

theorem logged_clearAllNamed (valid : s.Valid) : Logged s.EmptyLogged s s.clearAllNamed.1 := by
  rw [clearAllNamed]
  split
  · rename_i positive
    rw [count_named_pos valid] at positive
    apply logged_cleared (fun _ => True) valid
    · simp
    · intro entry member
      simp only [namedUndo, List.mem_flatMap, List.mem_map] at member
      rcases member with ⟨⟨gid, held⟩, -, triple, -, rfl⟩
      exact ⟨gid, triple, rfl⟩
    · intro gid triple
      simp only [namedUndo, List.mem_flatMap, List.mem_map, Prod.exists, add.injEq,
        Option.some.injEq, Std.TreeMap.mem_toList_iff_getElem?_eq_some, true_and, triples,
        Set.mem_ofPred_eq]
      constructor
      · rintro ⟨_, held, found, _, member, rfl, rfl⟩
        exact ⟨held, found, ((valid.named _ held found).mem_iterAll _).mp member⟩
      · rintro ⟨held, found, member⟩
        exact ⟨gid, held, found, triple, ((valid.named _ held found).mem_iterAll _).mpr member,
          rfl, rfl⟩
    · exact fun safe gid member _ => safe positive gid member
  · exact .refl valid

theorem EmptyLogged.clearDefault (empty : s.EmptyLogged) : s.clearDefault.1.EmptyLogged := by
  rw [Session.clearDefault]
  split
  · intro some gid member
    rcases empty some gid member with held | logged
    · exact .inl held
    · apply Or.inr
      change _ ∈ readded ((s.txn.map _).getD [])
      rw [log] at logged
      cases opened : s.txn with
      | none =>
        rw [opened] at logged
        exact logged
      | some entries =>
        rw [opened] at logged
        rw [Option.map_some, Option.getD_some, readded_append]
        exact .inl logged
  · exact empty

/-- A rollback brings back the graphs that the target names. -/
def SafeTarget (s : Session) : GraphTarget → Prop
  | .default => True
  | .all => s.EmptyLogged
  | .named name => name = [] → s.EmptyLogged

theorem logged_clearTarget (valid : s.Valid) (target : GraphTarget) :
    Logged (s.SafeTarget target) s (s.clearTarget target).1 := by
  cases target with
  | default => exact logged_clearDefault valid
  | all =>
    have first := logged_clearDefault valid
    apply first.trans (logged_clearAllNamed first.valid)
    exact fun empty _ => ⟨trivial, EmptyLogged.clearDefault empty⟩
  | named name =>
    rw [clearTarget]
    split
    · rename_i every
      exact (logged_clearAllNamed valid).mono fun safe => safe every
    · exact (logged_clearNamed valid name).mono fun _ => trivial

/-- The graphs with these ids lose their triples, and where they have none, nothing happens. -/
structure Cleared (gone : Option UInt32 → Prop) (s after : Session) : Prop where
  dict : after.dict = s.dict
  redoLog : after.redoLog = s.redoLog
  triples : ∀ gid, after.triples gid = {triple | triple ∈ s.triples gid ∧ ¬ gone gid}
  idle : (∀ gid, gone gid → s.triples gid = ∅) → after = s

theorem Cleared.refl {gone : Option UInt32 → Prop} (empty : ∀ gid, gone gid → s.triples gid = ∅) :
    Cleared gone s s := by
  refine ⟨rfl, rfl, fun gid => ?_, fun _ => rfl⟩
  ext triple
  refine ⟨fun member => ⟨member, fun here => ?_⟩, And.left⟩
  rw [empty gid here] at member
  exact member

theorem Cleared.trans {first second both : Option UInt32 → Prop} {middle after : Session}
    (before : Cleared first s middle) (later : Cleared second middle after)
    (either : ∀ gid, both gid ↔ first gid ∨ second gid) : Cleared both s after := by
  refine ⟨later.dict.trans before.dict, later.redoLog.trans before.redoLog, fun gid => ?_, ?_⟩
  · rw [later.triples, before.triples]
    ext triple
    simp [either, and_assoc]
  · intro empty
    have same := before.idle fun gid here => empty gid ((either gid).mpr (.inl here))
    subst same
    exact later.idle fun gid here => empty gid ((either gid).mpr (.inr here))

theorem cleared_clearDefault (valid : s.Valid) : Cleared (· = none) s s.clearDefault.1 := by
  rw [clearDefault]
  split
  · rename_i some
    rw [valid.store.count_pos] at some
    refine ⟨rfl, rfl, fun gid => ?_, fun empty => absurd (empty none rfl) some.ne_empty⟩
    change Session.triples { s with store := .new } gid = _
    cases gid <;> simp [triples]
  · rename_i nothing
    rw [valid.store.count_pos, Set.not_nonempty_iff_eq_empty] at nothing
    exact .refl fun gid here => here ▸ nothing

theorem cleared_named {named : NamedGraphs} (cleared : UInt32 → Prop) [DecidablePred cleared]
    (left : ∀ gid, named[gid]? = if cleared gid then none else s.named[gid]?)
    (entries : List UndoOp) (some : ∃ gid, cleared gid ∧ (s.triples (.some gid)).Nonempty) :
    Cleared (fun gid => ∃ known, gid = .some known ∧ cleared known) s
      ({ s with named }.pushUndo entries) := by
  refine ⟨rfl, rfl, fun gid => ?_, fun empty => ?_⟩
  · change Session.triples { s with named } gid = _
    rw [triples_cleared cleared left]
    ext triple
    simp
  · rcases some with ⟨gid, here, held⟩
    exact absurd (empty gid ⟨gid, rfl, here⟩) held.ne_empty

theorem cleared_clearNamed (valid : s.Valid) (name : Text) :
    Cleared (fun gid => ∃ known, gid = some known ∧
      s.dict.entityId (Term.iri name).dictKey = some known) s (s.clearNamed name).1 := by
  rw [clearNamed]
  split
  · rename_i unknown
    rw [unknown]
    exact .refl fun gid here => by simp at here
  · rename_i gid known
    have holds := (valid.graphStore (some gid)).count_pos
    rw [stored_graphStore] at holds
    simp only [known, Option.some.injEq, @eq_comm _ gid]
    split
    · rename_i some
      exact cleared_named (· = gid) (getElem?_erase_named s.named gid) _ ⟨gid, rfl, holds.mp some⟩
    · rename_i nothing
      refine .refl ?_
      rintro _ ⟨_, rfl, rfl⟩
      exact Set.not_nonempty_iff_eq_empty.mp fun some => nothing (holds.mpr some)

theorem cleared_clearAllNamed (valid : s.Valid) :
    Cleared (fun gid => ∃ known, gid = some known ∧ True) s s.clearAllNamed.1 := by
  rw [clearAllNamed]
  split
  · rename_i positive
    rcases (count_named_pos valid).mp positive with ⟨gid, held⟩
    exact cleared_named (fun _ => True) (by simp) _ ⟨gid, trivial, held⟩
  · rename_i nothing
    rw [count_named_pos valid] at nothing
    refine .refl ?_
    rintro _ ⟨gid, rfl, -⟩
    exact Set.not_nonempty_iff_eq_empty.mp fun held => nothing ⟨gid, held⟩

/-- The ids of the graphs that the target names. -/
def Targets (s : Session) : GraphTarget → Option UInt32 → Prop
  | .default => (· = none)
  | .all => fun _ => True
  | .named name => fun gid => ∃ known, gid = some known ∧
      (name = [] ∨ s.dict.entityId (Term.iri name).dictKey = some known)

theorem cleared_clearTarget (valid : s.Valid) (target : GraphTarget) :
    Cleared (s.Targets target) s (s.clearTarget target).1 := by
  cases target with
  | default => exact cleared_clearDefault valid
  | all =>
    apply (cleared_clearDefault valid).trans
    · exact cleared_clearAllNamed (logged_clearDefault valid).valid
    · intro gid
      cases gid <;> simp [Targets]
  | named name =>
    rw [clearTarget]
    split
    · rename_i every
      simpa [Targets, every] using cleared_clearAllNamed valid
    · rename_i one
      simpa [Targets, one] using cleared_clearNamed valid name

end Clear

/-! ## Quads -/

section Quads

variable {s after : Session} {triple : Triple} {graph : Option Text}

/-- A rollback leaves the graph. -/
def SafeGraph (s : Session) (graph : Option Text) : Prop :=
  ∀ name, graph = some name → ∃ gid ∈ s.kept, s.dict.entityId (Term.iri name).dictKey = some gid

theorem SafeGraph.step {safe : Prop} (present : s.SafeGraph graph) (logged : Logged safe s after)
    (holds : safe) (active : s.txn.isSome) : after.SafeGraph graph := by
  intro name here
  rcases present name here with ⟨gid, member, found⟩
  exact ⟨gid, logged.kept holds active ▸ member, logged.grows.entities _ _ found⟩

theorem logged_insertQuad {changed : Bool} (valid : s.Valid)
    (ran : s.insertQuad triple graph = some (after, changed)) :
    Logged (s.SafeGraph graph) s after := by
  rw [insertQuad_eq, Option.map_eq_some_iff] at ran
  rcases ran with ⟨⟨dict, gid, id⟩, encoded, result⟩
  cases result
  rcases encodeQuad_spec valid.dict encoded with ⟨dictValid, grows, known⟩
  rcases live_of_lookupQuad dictValid known with ⟨live, named⟩
  refine (logged_inserted valid dictValid grows live named).mono ?_
  rintro present found rfl
  cases graph with
  | none => cases (lookupQuad_eq_some.mp known).2
  | some name =>
    rcases (lookupQuad_eq_some.mp known).2 with ⟨other, same, interned⟩
    rcases present name rfl with ⟨earlier, member, before⟩
    have one := (grows.entities _ _ before).symm.trans interned
    cases same
    exact Option.some.inj one ▸ member

theorem logged_deleteQuad (valid : s.Valid) (triple : Triple) (graph : Option Text) :
    Logged True s (s.deleteQuad triple graph).1 := by
  rw [deleteQuad_eq]
  split
  · exact .refl valid
  · split
    · rename_i there
      exact logged_removed valid (hasGraph_iff.mp there)
    · exact .refl valid

theorem logged_insertAll (triples : List GroundTriple) :
    ∀ {s after : Session} {count : Nat}, s.Valid → s.insertAll triples = some (after, count) →
      Logged (∀ ground ∈ triples, s.SafeGraph ground.graph) s after := by
  induction triples with
  | nil =>
    intro s after count valid ran
    cases ran
    exact .refl valid
  | cons ground rest induction =>
    intro s after count valid ran
    rcases insertAll_cons ran with ⟨middle, changed, further, inserted, later⟩
    have first := logged_insertQuad valid inserted
    apply first.trans (induction first.valid later)
    intro safe active
    have here := safe ground List.mem_cons_self
    refine ⟨here, fun other member => ?_⟩
    exact (safe other (List.mem_cons_of_mem _ member)).step first here active

theorem logged_deleteAll (triples : List GroundTriple) :
    ∀ {s : Session}, s.Valid → Logged True s (s.deleteAll triples).1 := by
  induction triples with
  | nil => exact .refl
  | cons ground rest induction =>
    intro s valid
    have first := logged_deleteQuad valid ground.triple ground.graph
    rw [deleteAll]
    exact first.trans (induction first.valid) fun _ _ => ⟨trivial, trivial⟩

end Quads

/-! ## Requests -/

section Requests

variable {α : Type} {s after : Session} {host : Host α}

/-- A rollback leaves the graphs that the operation inserts into, and brings back
those that it clears. -/
def SafeOp (s : Session) : UpdateOp α → Prop
  | .insertData triples => ∀ ground ∈ triples, s.SafeGraph ground.graph
  | .clear target _ => s.SafeTarget target
  | .drop target _ => s.SafeTarget target
  | _ => True

theorem safeGraph_default (s : Session) (triples : List Triple) :
    ∀ ground ∈ triples.map inDefault, s.SafeGraph ground.graph := by
  intro ground member name here
  rcases List.mem_map.mp member with ⟨triple, -, rfl⟩
  cases here

theorem safe_inserts {op : UpdateOp α} (safe : s.SafeOp op) :
    ∀ ground ∈ s.inserts host op, (s.deleteAll (s.deletes host op)).1.SafeGraph ground.graph := by
  cases op with
  | insertData triples => exact safe
  | modify request => exact safeGraph_default _ _
  | load source silent =>
    rw [inserts]
    split
    · exact List.forall_mem_nil _
    · exact safeGraph_default _ _
  | _ => exact List.forall_mem_nil _

theorem logged_execUpdateOp {op : UpdateOp α} {outcome : Except DbError Nat} (valid : s.Valid)
    (ran : s.execUpdateOp host op = some (outcome, after)) : Logged (s.SafeOp op) s after := by
  rcases execUpdateOp_cases ran with ⟨target, silent, rfl | rfl, rfl⟩ | ⟨-, count, inserted⟩
  · exact logged_clearTarget valid target
  · exact logged_clearTarget valid target
  · have first := logged_deleteAll (s.deletes host op) valid
    apply first.trans (logged_insertAll _ first.valid inserted)
    exact fun safe _ => ⟨trivial, safe_inserts safe⟩

/-- Each operation is safe where it runs. -/
def SafeOps (host : Host α) : Session → List (UpdateOp α) → Prop
  | _, [] => True
  | s, op :: rest => s.SafeOp op ∧
      ∀ changed after, s.execUpdateOp host op = some (.ok changed, after) → SafeOps host after rest

theorem logged_execOps (ops : List (UpdateOp α)) :
    ∀ {s after : Session} {outcome : Except DbError Nat}, s.Valid →
      s.execOps host ops = some (outcome, after) → Logged (SafeOps host s ops) s after := by
  induction ops with
  | nil =>
    intro s after outcome valid ran
    cases ran
    exact .refl valid
  | cons op rest induction =>
    intro s after outcome valid ran
    rcases execOps_cases ran with ⟨error, failed⟩ | ⟨changed, middle, further, here, later⟩
    · exact (logged_execUpdateOp valid failed).mono fun safe => safe.1
    · have first := logged_execUpdateOp valid here
      exact first.trans (induction first.valid later) fun safe _ => ⟨safe.1, safe.2 _ _ here⟩

def SafeRequest (host : Host α) (s : Session) (sparql : Text) : Prop :=
  ∀ ops, host.parse sparql = .ok ops → SafeOps host s ops

theorem logged_query {sparql : Text} {outcome : Except DbError Nat} (valid : s.Valid)
    (ran : s.query host sparql = some (outcome, after)) :
    Logged (SafeRequest host s sparql) s after := by
  rcases query_cases ran with ⟨rfl, -⟩ | ⟨ops, answer, last, updateLog, parsed, applied, rfl, -⟩
  · exact .refl valid
  · have logged : Logged (SafeRequest host s sparql) s last :=
      (logged_execOps ops valid applied).mono fun safe => safe ops parsed
    exact { logged with
      valid := ⟨logged.valid.dict, logged.valid.store, logged.valid.named⟩
      known := fun known => ⟨(logged.known known).triple, (logged.known known).graph⟩ }

end Requests

end Session

/-! ## Runs -/

namespace Session

section Runs

variable {α : Type} {start s after : Session}

/-- All that a rollback would bring back is in use. -/
structure RestoredInUse (s : Session) : Prop where
  triple : ∀ graph, ∀ triple ∈ s.restored graph,
    s.usedEntLit triple.sub = true ∧ s.usedPred triple.pred = true ∧ s.usedEntLit triple.obj = true
  graph : ∀ gid ∈ s.kept, s.usedEntLit gid = true

/-- The step can be taken back. -/
def Safe (s : Session) : Mutation α → Prop
  | .request host sparql => SafeRequest host s sparql
  | .reclaimUnused => s.RestoredInUse
  | _ => True

def SafeRun : Session → List (Mutation α) → Prop
  | _, [] => True
  | s, mutation :: rest => s.Safe mutation ∧
      ∀ after, s.apply mutation = some after → after.SafeRun rest

theorem apply_cases {mutation : Mutation α} (valid : s.Valid)
    (ran : s.apply mutation = some after) :
    Logged (s.Safe mutation) s after ∨ mutation = .reclaimUnused ∧ after = s.reclaimUnused.1 := by
  cases mutation with
  | request host sparql =>
    rcases Option.map_eq_some_iff.mp ran with ⟨⟨outcome, last⟩, answered, rfl⟩
    exact .inl (logged_query valid answered)
  | insertTriple triple =>
    rcases Option.map_eq_some_iff.mp ran with ⟨⟨last, changed⟩, inserted, rfl⟩
    have logged : Logged (s.SafeGraph none) s last := logged_insertQuad valid inserted
    refine .inl (logged.mono ?_)
    intro _ name here
    cases here
  | removeTriple triple =>
    cases ran
    exact .inl ((logged_deleteQuad valid triple none).mono fun _ => trivial)
  | materializeRdfs =>
    rcases Option.map_eq_some_iff.mp ran with ⟨⟨last, count⟩, reasoned, rfl⟩
    rcases Option.map_eq_some_iff.mp reasoned with ⟨⟨dict, store, added⟩, derived, result⟩
    cases result
    have inferred := inferred_materialize valid.dict valid.store derived
    exact .inl ((logged_inferred valid inferred).mono fun _ => trivial)
  | runRules fuel rules =>
    rcases Option.map_eq_some_iff.mp ran with ⟨⟨last, count⟩, reasoned, rfl⟩
    rcases Option.map_eq_some_iff.mp reasoned with ⟨⟨_, rulesRun⟩, derived, result⟩
    cases result
    have inferred := inferred_applyRuleSet valid.dict valid.store derived
    exact .inl ((logged_inferred valid inferred).mono fun _ => trivial)
  | reclaimUnused =>
    cases ran
    exact .inr ⟨rfl, rfl⟩

/-! ### Reclaiming -/

theorem Valid.reclaimUnused (valid : s.Valid) : s.reclaimUnused.1.Valid where
  dict := valid.dict.reclaimUnused _ _
  store := valid.store
  named := valid.named

theorem used_of_mem (valid : s.Valid) {graph : Option UInt32} {triple : IdTriple}
    (member : triple ∈ s.triples graph) :
    s.usedEntLit triple.sub = true ∧ s.usedPred triple.pred = true ∧
      s.usedEntLit triple.obj = true := by
  have keys : ∀ {store : TripleStore}, Indexed store → triple ∈ stored store →
      triple.sub ∈ store.subjectKeys ∧ triple.pred ∈ store.predicates ∧
        triple.obj ∈ store.objectKeys := by
    intro store indexed held
    rcases indexed.refines with ⟨triples, refines, same⟩
    rw [same, Finset.mem_coe] at held
    exact ⟨(refines.subjectKeys.mem_iff _).mpr ⟨_, _, held⟩,
      (refines.predicates.mem_iff _).mpr ⟨_, _, held⟩, (refines.objectKeys.mem_iff _).mpr ⟨_, _, held⟩⟩
  cases graph with
  | none =>
    have here := keys valid.store member
    simp [usedEntLit, usedPred, here]
  | some gid =>
    rcases member with ⟨held, found, member⟩
    have here := keys (valid.named gid held found) member
    have listed := Std.TreeMap.mem_toList_iff_getElem?_eq_some.mpr found
    simp only [usedEntLit, usedPred, Bool.or_eq_true, List.any_eq_true, List.contains_iff_mem]
    exact ⟨.inr ⟨_, listed, .inl (.inr here.1)⟩, .inr ⟨_, listed, here.2.1⟩,
      .inr ⟨_, listed, .inr here.2.2⟩⟩

theorem used_graph {gid : UInt32} (member : gid ∈ s.graphs) : s.usedEntLit gid = true := by
  rcases member with ⟨held, found⟩
  have listed := Std.TreeMap.mem_toList_iff_getElem?_eq_some.mpr found
  simp only [usedEntLit, Bool.or_eq_true, List.any_eq_true]
  exact .inr ⟨_, listed, .inl (.inl (beq_self_eq_true gid))⟩

theorem Known.reclaimUnused (known : s.Known) (valid : s.Valid) : s.reclaimUnused.1.Known where
  triple graph triple member := by
    rcases used_of_mem valid member with ⟨sub, pred, obj⟩
    exact (Dictionary.agrees_reclaimUnused valid.dict sub pred obj).live
      (known.triple graph triple member)
  graph gid member := by
    have same : s.reclaimUnused.1.dict.slot gid = s.dict.slot gid :=
      Dictionary.slot_reclaimUnused valid.dict (used_graph member)
    exact same ▸ known.graph gid member

/-! ### Consistent databases -/

/-- What holds of a database from one call to the next. -/
structure Consistent (s : Session) : Prop where
  valid : s.Valid
  known : s.Known
  quiet : s.txn = none → s.redoPending = []

theorem consistent_new (redo update : Bool) : (new redo update).Consistent where
  valid := ⟨Dictionary.valid_empty, indexed_new, by simp [new]⟩
  known := by
    constructor
    · intro graph triple member
      cases graph with
      | none =>
        change triple ∈ stored TripleStore.new at member
        rw [stored_new] at member
        cases member
      | some gid =>
        rcases member with ⟨held, found, -⟩
        simp [new] at found
    · rintro gid ⟨held, found⟩
      simp [new] at found
  quiet _ := rfl

theorem Consistent.apply {mutation : Mutation α} (consistent : s.Consistent)
    (ran : s.apply mutation = some after) : after.Consistent := by
  rcases apply_cases consistent.valid ran with logged | ⟨rfl, rfl⟩
  · refine ⟨logged.valid, logged.known consistent.known, ?_⟩
    intro auto
    have before : s.txn = none := by
      rw [← Option.isNone_iff_eq_none, ← Option.not_isSome, ← logged.active, auto]
      rfl
    exact logged.pending before (consistent.quiet before)
  · exact ⟨consistent.valid.reclaimUnused, consistent.known.reclaimUnused consistent.valid,
      consistent.quiet⟩

theorem Consistent.run (mutations : List (Mutation α)) :
    ∀ {s after : Session}, s.Consistent → s.run mutations = some after → after.Consistent := by
  induction mutations with
  | nil =>
    intro s after consistent ran
    cases ran
    exact consistent
  | cons mutation rest induction =>
    intro s after consistent ran
    rcases Option.bind_eq_some_iff.mp ran with ⟨middle, here, later⟩
    exact induction (consistent.apply here) later

theorem Consistent.commit (consistent : s.Consistent) : s.commit.2.Consistent := by
  rw [Session.commit]
  split
  · exact consistent
  · exact ⟨⟨consistent.valid.dict, consistent.valid.store, consistent.valid.named⟩,
      ⟨consistent.known.triple, consistent.known.graph⟩, fun _ => rfl⟩

/-! ### Taking back -/

theorem undo_spec (valid : s.Valid) (op : UndoOp) :
    (s.undo op).Valid ∧ (s.undo op).triples = op.revert s.triples ∧
      (s.undo op).graphs = s.graphs ∪ {gid | some gid ∈ readded [op]} := by
  cases op with
  | add graph id =>
    have same : s.undo (.add graph id) = s.setGraph graph ((s.graphStore graph).insert id).1 := by
      cases graph <;> rfl
    rcases (valid.graphStore graph).insert id with ⟨indexed, holds, -⟩
    rw [same, triples_setGraph, graphs_setGraph, holds, stored_graphStore]
    refine ⟨valid.setGraph graph indexed, rfl, ?_⟩
    congr 1
    ext gid
    simp [readded, eq_comm]
  | del graph id =>
    have noGraph : {gid | some gid ∈ readded [(.del graph id : UndoOp)]} = ∅ := by
      simp [readded]
    rw [noGraph, Set.union_empty]
    by_cases there : ∀ gid, graph = some gid → gid ∈ s.graphs
    · have same : s.undo (.del graph id) = s.setGraph graph ((s.graphStore graph).remove id).1 := by
        cases graph with
        | none => rfl
        | some gid =>
          rcases there gid rfl with ⟨held, found⟩
          rw [undo, found, graphStore, Std.TreeMap.getD_eq_getD_getElem?, found]
          rfl
      rcases (valid.graphStore graph).remove id with ⟨indexed, holds, -⟩
      rw [same, triples_setGraph, graphs_setGraph, holds, stored_graphStore]
      exact ⟨valid.setGraph graph indexed, rfl, Set.union_eq_left.mpr fun gid here => there gid here⟩
    · push Not at there
      rcases there with ⟨gid, rfl, absent⟩
      have missing : s.named[gid]? = none := by
        by_contra found
        exact absent (Option.ne_none_iff_exists'.mp found)
      have same : s.undo (.del (some gid) id) = s := by
        rw [undo, missing]
      have empty : s.triples (some gid) = ∅ := by simp [triples, missing]
      rw [same]
      refine ⟨valid, ?_, rfl⟩
      rw [revert, empty, Set.empty_sdiff, ← empty, Function.update_eq_self]

/-- The log is taken back from its end. -/
theorem undo_all (log : List UndoOp) (valid : s.Valid) :
    (log.foldr (fun op s => s.undo op) s).Valid ∧
      (log.foldr (fun op s => s.undo op) s).triples = undone log s.triples ∧
      (log.foldr (fun op s => s.undo op) s).graphs =
        s.graphs ∪ {gid | some gid ∈ readded log} := by
  induction log with
  | nil => exact ⟨valid, rfl, by simp [readded]⟩
  | cons op rest induction =>
    rcases induction with ⟨middle, triples, graphs⟩
    rcases undo_spec middle op with ⟨last, reverted, regraphed⟩
    rw [List.foldr_cons]
    refine ⟨last, ?_, ?_⟩
    · rw [reverted, triples]
      rfl
    · rw [regraphed, graphs, Set.union_assoc]
      congr 1
      have split : op :: rest = [op] ++ rest := rfl
      rw [split, readded_append]
      ext gid
      simp only [Set.mem_union, Set.mem_ofPred_eq]
      tauto

theorem undo_frame (log : List UndoOp) (s : Session) :
    (log.foldr (fun op s => s.undo op) s).dict = s.dict ∧
      Unlogged s (log.foldr (fun op s => s.undo op) s) := by
  induction log with
  | nil => exact ⟨rfl, rfl, rfl, rfl⟩
  | cons op rest induction =>
    have one : ∀ state : Session, (state.undo op).dict = state.dict ∧
        Unlogged state (state.undo op) := by
      intro state
      cases op with
      | add graph id => cases graph <;> exact ⟨rfl, rfl, rfl, rfl⟩
      | del graph id =>
        cases graph with
        | none => exact ⟨rfl, rfl, rfl, rfl⟩
        | some gid =>
          rw [undo]
          split <;> exact ⟨rfl, rfl, rfl, rfl⟩
    rcases one (rest.foldr (fun op s => s.undo op) s) with ⟨dict, frame⟩
    rcases induction with ⟨before, rested⟩
    rw [List.foldr_cons]
    exact ⟨dict.trans before, frame.txn.trans rested.txn, frame.redoLog.trans rested.redoLog,
      frame.pending.trans rested.pending⟩

/-- Inside a transaction: a rollback now would bring back the start. -/
structure Undoable (start s : Session) : Prop where
  valid : s.Valid
  known : s.Known
  active : s.txn.isSome
  restored : s.restored = start.triples
  kept : s.kept = start.graphs
  agrees : ∀ graph, ∀ triple ∈ start.triples graph, start.dict.Agrees s.dict triple
  names : ∀ gid ∈ start.graphs, s.dict.slot gid = start.dict.slot gid
  redoLog : s.redoLog = start.redoLog

theorem undoable_begin (consistent : start.Consistent) (closed : start.txn = none) :
    start.begin.1 = .ok () ∧ Undoable start start.begin.2 := by
  rw [begin, closed]
  refine ⟨rfl, ⟨consistent.valid.dict, consistent.valid.store, consistent.valid.named⟩,
    ⟨consistent.known.triple, consistent.known.graph⟩, rfl, rfl, ?_, fun _ _ _ => ⟨rfl, rfl, rfl⟩,
    fun _ _ => rfl, rfl⟩
  rw [kept, log]
  simp [readded]
  rfl

theorem Undoable.apply {mutation : Mutation α} (known : start.Known) (undoable : Undoable start s)
    (safe : s.Safe mutation) (ran : s.apply mutation = some after) : Undoable start after := by
  rcases apply_cases undoable.valid ran with logged | ⟨rfl, rfl⟩
  · refine ⟨logged.valid, logged.known undoable.known, logged.active ▸ undoable.active,
      (logged.restored undoable.active).trans undoable.restored,
      (logged.kept safe undoable.active).trans undoable.kept, ?_, ?_,
      (logged.redoLog undoable.active).trans undoable.redoLog⟩
    · intro graph triple member
      have before := undoable.agrees graph triple member
      have live := before.live (known.triple graph triple member)
      exact before.trans (logged.grows.agrees undoable.valid.dict logged.valid.dict live)
    · intro gid member
      have before := undoable.names gid member
      have live := before ▸ known.graph gid member
      exact (logged.grows.slot undoable.valid.dict logged.valid.dict live).trans before
  · refine ⟨undoable.valid.reclaimUnused, undoable.known.reclaimUnused undoable.valid,
      undoable.active, undoable.restored, undoable.kept, ?_, ?_, undoable.redoLog⟩
    · intro graph triple member
      rw [← undoable.restored] at member
      rcases safe.triple graph triple member with ⟨sub, pred, obj⟩
      rw [undoable.restored] at member
      exact (undoable.agrees graph triple member).trans
        (Dictionary.agrees_reclaimUnused undoable.valid.dict sub pred obj)
    · intro gid member
      rw [← undoable.kept] at member
      have used := safe.graph gid member
      rw [undoable.kept] at member
      exact (Dictionary.slot_reclaimUnused undoable.valid.dict used).trans
        (undoable.names gid member)

theorem Undoable.run (known : start.Known) (mutations : List (Mutation α)) :
    ∀ {s after : Session}, Undoable start s → s.SafeRun mutations →
      s.run mutations = some after → Undoable start after := by
  induction mutations with
  | nil =>
    intro s after undoable _ ran
    cases ran
    exact undoable
  | cons mutation rest induction =>
    intro s after undoable safe ran
    rcases Option.bind_eq_some_iff.mp ran with ⟨middle, here, later⟩
    exact induction (undoable.apply known safe.1 here) (safe.2 middle here) later

theorem run_append (first second : List (Mutation α)) :
    ∀ s : Session, s.run (first ++ second) = (s.run first).bind fun middle => middle.run second := by
  induction first with
  | nil => exact fun _ => rfl
  | cons mutation rest induction =>
    intro s
    rw [List.cons_append, run, run, Option.bind_assoc]
    congr 1
    funext middle
    exact induction middle

/-- A rollback brings the database back, and nothing of the transaction reaches the
redo log. -/
structure RolledBack (start last : Session) : Prop where
  dataset : last.dataset = start.dataset
  redoLog : last.redoLog = start.redoLog
  pending : last.redoPending = []
  closed : last.txn = none
  consistent : last.Consistent

theorem Undoable.rollback (known : start.Known) (undoable : Undoable start s) :
    s.rollback.1 = .ok () ∧ RolledBack start s.rollback.2 := by
  rcases Option.isSome_iff_exists.mp undoable.active with ⟨log, opened⟩
  have started : Session.Valid { s with txn := none, redoPending := [] } :=
    ⟨undoable.valid.dict, undoable.valid.store, undoable.valid.named⟩
  rcases undo_all log started with ⟨valid, triples, graphs⟩
  rcases undo_frame log { s with txn := none, redoPending := [] } with ⟨dict, frame⟩
  have logged : s.log = log := by rw [Session.log, opened, Option.getD_some]
  have sameTriples := undoable.restored
  have sameGraphs := undoable.kept
  rw [Session.restored, logged] at sameTriples
  rw [Session.kept, logged] at sameGraphs
  have broughtBack := triples.trans sameTriples
  have regraphed := graphs.trans sameGraphs
  rw [Session.rollback, opened]
  dsimp only
  rw [List.foldl_reverse]
  refine ⟨rfl, ?_, frame.redoLog.trans undoable.redoLog, frame.pending, frame.txn, valid, ?_,
    fun _ => frame.pending⟩
  · apply dataset_congr broughtBack regraphed
    · rw [dict]
      exact undoable.agrees
    · rw [dict]
      exact undoable.names
  · constructor
    · rw [broughtBack, dict]
      intro graph triple member
      exact (undoable.agrees graph triple member).live (known.triple graph triple member)
    · rw [regraphed, dict]
      intro gid member
      exact undoable.names gid member ▸ known.graph gid member

/-- A transaction all of whose steps are safe is undone by its rollback. -/
theorem rollback_restores {mutations : List (Mutation α)} {last : Session}
    (consistent : start.Consistent) (closed : start.txn = none)
    (safe : start.begin.2.SafeRun mutations) (ran : start.begin.2.run mutations = some last) :
    start.begin.1 = .ok () ∧ last.rollback.1 = .ok () ∧ RolledBack start last.rollback.2 := by
  rcases undoable_begin consistent closed with ⟨begun, undoable⟩
  have known := consistent.known
  exact ⟨begun, (undoable.run known mutations safe ran).rollback known⟩

/-- A triple of three IRIs. -/
def ground (sub pred obj : String) : Triple where
  subject := .iri sub.toList
  predicate := .iri pred.toList
  object := .iri obj.toList

/-- A closed database with one triple. -/
def oneTriple : Session :=
  (((new true true).insertTriple (ground "a" "p" "b")).map Prod.fst).getD (new true true)

theorem consistent_oneTriple : oneTriple.Consistent := by
  have inserted : ∃ after, (new true true).insertTriple (ground "a" "p" "b") = some after := by
    rw [← Option.isSome_iff_exists]
    decide
  rcases inserted with ⟨after, ran⟩
  have applied : (new true true).apply (.insertTriple (ground "a" "p" "b") : Mutation Unit) =
      some after.1 := by
    rw [Session.apply, ran]
    rfl
  have same : oneTriple = after.1 := by rw [oneTriple, ran]; rfl
  exact same ▸ (consistent_new true true).apply applied

theorem rollback_restores_insert :
    ∃ last, oneTriple.begin.2.run ([.insertTriple (ground "c" "q" "d"),
      .removeTriple (ground "a" "p" "b"), .materializeRdfs] : List (Mutation Unit)) = some last ∧
      last.rollback.1 = .ok () ∧ RolledBack oneTriple last.rollback.2 := by
  have runs : (oneTriple.begin.2.run ([.insertTriple (ground "c" "q" "d"),
      .removeTriple (ground "a" "p" "b"), .materializeRdfs] : List (Mutation Unit))).isSome := by
    decide
  rcases Option.isSome_iff_exists.mp runs with ⟨last, ran⟩
  have safe : oneTriple.begin.2.SafeRun ([.insertTriple (ground "c" "q" "d"),
      .removeTriple (ground "a" "p" "b"), .materializeRdfs] : List (Mutation Unit)) :=
    ⟨trivial, fun _ _ => ⟨trivial, fun _ _ => ⟨trivial, fun _ _ => trivial⟩⟩⟩
  exact ⟨last, ran, (rollback_restores consistent_oneTriple rfl safe ran).2⟩

/-- The id of a triple that was removed goes to another term before the rollback
inserts it again. -/
theorem rollback_after_reclaim : ¬ ∀ (start last : Session) (mutations : List (Mutation Unit)),
    start.Consistent → start.txn = none → start.begin.2.run mutations = some last →
      last.rollback.2.dataset = start.dataset := by
  intro restores
  have runs : (oneTriple.begin.2.run ([.removeTriple (ground "a" "p" "b"), .reclaimUnused,
      .insertTriple (ground "c" "q" "d")] : List (Mutation Unit))).any (fun last =>
        last.rollback.2.store.exists 0 0 1 &&
          render last.rollback.2.dict ⟨0, 0, 1⟩ ==
            some ⟨"<d>".toList, "<q>".toList, "<c>".toList⟩) = true := by
    decide
  rcases (Option.any_eq_true _ _).mp runs with ⟨last, ran, found⟩
  simp only [Bool.and_eq_true, beq_iff_eq] at found
  have same := congrArg Dataset.default (restores _ _ _ consistent_oneTriple rfl ran)
  have there : (⟨"<d>".toList, "<q>".toList, "<c>".toList⟩ : TermTriple) ∈
      last.rollback.2.dataset.default := ⟨⟨0, 0, 1⟩, found.1, found.2⟩
  rw [same] at there
  rcases there with ⟨triple, member, rendered⟩
  have listed := (consistent_oneTriple.valid.store.mem_iterAll triple).mpr member
  have absent : ∀ triple ∈ oneTriple.store.iterAll, render oneTriple.dict triple ≠
      some ⟨"<d>".toList, "<q>".toList, "<c>".toList⟩ := by
    decide
  exact absent triple listed rendered

end Runs

end Session

end GStore.Db
