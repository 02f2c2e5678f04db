import GStore.Db.Same

/-! # Requests that fail

`Database::query` applies the operations of a request one by one and stops at the
first that fails; what the earlier ones did stays. A failed request changes
nothing when those were idle, and where every change is logged, only then. -/

namespace GStore.Db

open Dict Reason Store

/-- The operations that fail are loads of what cannot be read, unless silent. -/
def Host.fails {α : Type} (host : Host α) : UpdateOp α → Bool
  | .load source false => Session.isRemote source ||
      match host.parseFile (Session.localPath source) with
      | .error _ => true
      | .ok _ => false
  | _ => false

namespace Session

/-! ## Idle operations -/

/-- Whether a graph holds a triple. -/
def contains (s : Session) (triple : Triple) (graph : Option Text) : Bool :=
  match lookupQuad s.dict triple graph with
  | none => false
  | some (gid, id) => (s.graphStore gid).exists id.sub id.pred id.obj

/-- The graphs that the target names are empty. -/
def EmptyTarget (s : Session) : GraphTarget → Prop
  | .default => s.triples none = ∅
  | .all => ∀ graph, s.triples graph = ∅
  | .named name =>
    if name = [] then ∀ gid, s.triples (some gid) = ∅
    else ∀ gid, s.dict.entityId (Term.iri name).dictKey = some gid → s.triples (some gid) = ∅

/-- The operation inserts what is there, removes what is not, or clears what is
empty. -/
def Idle {α : Type} (host : Host α) (s : Session) : UpdateOp α → Prop
  | .insertData triples => ∀ ground ∈ triples, s.contains ground.triple ground.graph = true
  | .deleteData triples => ∀ ground ∈ triples, s.contains ground.triple ground.graph = false
  | .modify request =>
    (∀ triple ∈ (host.modify s.dict s.store.source request).1, s.contains triple none = false) ∧
      ∀ triple ∈ (host.modify s.dict s.store.source request).2, s.contains triple none = true
  | .load source _ => isRemote source = false → ∀ triples,
      host.parseFile (localPath source) = .ok triples → ∀ triple ∈ triples,
        s.contains triple none = true
  | .clear target _ => s.EmptyTarget target
  | .drop target _ => s.EmptyTarget target
  | .create _ _ => True

section Contains

variable {s t : Session} {triple : Triple} {graph : Option Text}

theorem contains_iff (s : Session) (triple : Triple) (graph : Option Text) :
    s.contains triple graph = true ↔
      ∃ gid id, lookupQuad s.dict triple graph = some (gid, id) ∧ id ∈ s.triples gid := by
  rw [contains]
  split
  · rename_i unknown
    simp [unknown]
  · rename_i gid id known
    simp only [known, Option.some.injEq, Prod.mk.injEq]
    constructor
    · intro held
      refine ⟨gid, id, ⟨rfl, rfl⟩, ?_⟩
      rw [← stored_graphStore]
      exact held
    · rintro ⟨_, _, ⟨rfl, rfl⟩, held⟩
      rw [← stored_graphStore] at held
      exact held

theorem Same.contains (same : Same s t) (triple : Triple) (graph : Option Text) :
    t.contains triple graph = s.contains triple graph := by
  rw [Bool.eq_iff_iff, contains_iff, contains_iff, same.dict, same.triples]

theorem Same.idle {α : Type} {host : Host α} {op : UpdateOp α} (same : Same s t) (left : s.Valid)
    (right : t.Valid) (idle : s.Idle host op) : t.Idle host op := by
  have source : t.store.source = s.store.source := same.source left right none
  have empty : ∀ target, s.EmptyTarget target → t.EmptyTarget target := by
    intro target
    cases target <;> simp only [EmptyTarget, same.triples, same.dict, imp_self]
  cases op with
  | insertData triples => exact fun ground member => same.contains _ _ ▸ idle ground member
  | deleteData triples => exact fun ground member => same.contains _ _ ▸ idle ground member
  | modify request =>
    rw [Idle, same.dict, source]
    exact ⟨fun triple member => same.contains _ _ ▸ idle.1 triple member,
      fun triple member => same.contains _ _ ▸ idle.2 triple member⟩
  | load source silent =>
    exact fun here triples read triple member =>
      same.contains _ _ ▸ idle here triples read triple member
  | clear target silent => exact empty target idle
  | drop target silent => exact empty target idle
  | create name silent => trivial

end Contains

/-! ## What idle operations leave -/

section Leave

variable {s after : Session} {triple : Triple} {graph : Option Text} {changed : Bool}

/-- A graph that gets what it had. -/
theorem same_setGraph {gid : Option UInt32} {store : TripleStore} (there : s.hasGraph gid = true)
    (holds : stored store = s.triples gid) : Same s (s.setGraph gid store) where
  dict := setGraph_dict
  triples := by
    rw [triples_setGraph, holds]
    exact Function.update_eq_self gid s.triples
  graphs := by
    rw [graphs_setGraph]
    exact Set.union_eq_left.mpr fun found here => hasGraph_iff.mp there found here
  txn := setGraph_txn
  redoLog := setGraph_redoLog
  redoPending := setGraph_redoPending
  updateLog := setGraph_updateLog

theorem same_deleteQuad (valid : s.Valid) (absent : s.contains triple graph = false) :
    Same s (s.deleteQuad triple graph).1 := by
  rw [deleteQuad_eq]
  split
  · exact .refl s
  · rename_i gid id known
    split
    · rename_i there
      have missing : id ∉ s.triples gid := by
        intro member
        rw [(contains_iff s triple graph).mpr ⟨gid, id, known, member⟩] at absent
        cases absent
      rcases (valid.graphStore gid).remove id with ⟨-, holds, isOld⟩
      rw [stored_graphStore] at holds isOld
      rw [removed, if_neg (by rw [isOld]; exact missing)]
      exact same_setGraph there (by rw [holds, Set.sdiff_singleton_eq_self missing])
    · exact .refl s

end Leave

section Requests

variable {α : Type} {host : Host α} {s after : Session} {outcome : Except DbError Nat}

end Requests

/-! ## Changes that show

Outside a transaction, with redo logging on, an insertion or a removal leaves a
record for good, and a clear leaves an empty graph. -/

/-- `u32::MAX` is the id of nothing. -/
structure Unreserved (dict : Dictionary) : Prop where
  slot : dict.slot (UInt32.ofNat (2 ^ 32 - 1)) = none
  predicate : dict.predicates.resolve (UInt32.ofNat (2 ^ 32 - 1)) = none

section Unreserved

variable {dict grown : Dictionary} {id : IdTriple}

theorem Unreserved.ne {text : Option Text} (none : text = none) {id : UInt32}
    {resolve : UInt32 → Option Text} (same : resolve (UInt32.ofNat (2 ^ 32 - 1)) = text)
    (live : (resolve id).isSome) : id.toNat ≠ 2 ^ 32 - 1 := by
  intro last
  have reserved : id = UInt32.ofNat (2 ^ 32 - 1) := UInt32.toNat_inj.mp last
  rw [reserved, same, none] at live
  cases live

theorem Unreserved.strings (unreserved : Unreserved dict) (live : dict.Live id) :
    ∃ terms, render dict id = some terms ∧
      tripleText dict id = some (terms.sub ++ ' ' :: terms.pred ++ ' ' :: terms.obj ++ [' ', '.']) := by
  rcases Option.isSome_iff_exists.mp live.sub with ⟨sub, subKnown⟩
  rcases Option.isSome_iff_exists.mp live.pred with ⟨pred, predKnown⟩
  rcases Option.isSome_iff_exists.mp live.obj with ⟨obj, objKnown⟩
  have subString : dict.idToString id.sub = some sub := by
    rw [Dictionary.idToString_eq, if_neg (ne rfl unreserved.slot live.sub), subKnown]
  have predString : dict.predicateToString id.pred = some pred := by
    rw [Dictionary.predicateToString, if_neg (ne rfl unreserved.predicate live.pred), predKnown]
  have objString : dict.idToString id.obj = some obj := by
    rw [Dictionary.idToString_eq, if_neg (ne rfl unreserved.slot live.obj), objKnown]
  refine ⟨⟨sub, pred, obj⟩, ?_, ?_⟩
  · rw [render, subString, predString, objString]
  · rw [tripleText, subString, predString, objString]

end Unreserved

/-- Every mutation is logged at once. -/
structure Auto (s : Session) : Prop where
  valid : s.Valid
  known : s.Known
  closed : s.txn = none
  quiet : s.redoPending = []
  logging : s.redoLog.isSome

def redoLength (s : Session) : Nat := (s.redoLog.getD []).length

/-- Triples went without a record, a whole graph at a time. -/
structure Shrunk (s after : Session) : Prop where
  dict : after.dict = s.dict
  redoLog : after.redoLog = s.redoLog
  within : ∀ graph, after.triples graph ⊆ s.triples graph
  emptied : ∃ graph, (s.triples graph).Nonempty ∧ after.triples graph = ∅

/-- The change shows in the redo log or in a graph. -/
def Changed (s after : Session) : Prop := s.redoLength < after.redoLength ∨ Shrunk s after

section Changed

variable {s middle after : Session}

theorem Same.redoLength (same : Same s after) : after.redoLength = s.redoLength := by
  rw [Session.redoLength, Session.redoLength, same.redoLog]

theorem Shrunk.redoLength (shrunk : Shrunk s after) : after.redoLength = s.redoLength := by
  rw [Session.redoLength, Session.redoLength, shrunk.redoLog]

theorem Same.changed (same : Same s middle) (changed : Changed middle after) : Changed s after := by
  rcases changed with grew | shrunk
  · exact .inl (same.redoLength ▸ grew)
  · refine .inr ⟨shrunk.dict.trans same.dict, shrunk.redoLog.trans same.redoLog, ?_, ?_⟩
    · rw [← same.triples]
      exact shrunk.within
    · rw [← same.triples]
      exact shrunk.emptied

/-- Nothing that follows hides a change. -/
theorem Changed.followed (changed : Changed s middle)
    (follows : Same middle after ∨ Changed middle after) : Changed s after := by
  have longer : middle.redoLength ≤ after.redoLength := by
    rcases follows with same | grew | shrunk
    · exact same.redoLength.ge
    · exact grew.le
    · exact shrunk.redoLength.ge
  rcases changed with grew | shrunk
  · exact .inl (grew.trans_le longer)
  · rcases follows with same | grew | further
    · refine .inr ⟨same.dict.trans shrunk.dict, same.redoLog.trans shrunk.redoLog, ?_, ?_⟩
      · rw [same.triples]
        exact shrunk.within
      · rw [same.triples]
        exact shrunk.emptied
    · exact .inl (shrunk.redoLength ▸ grew)
    · refine .inr ⟨further.dict.trans shrunk.dict, further.redoLog.trans shrunk.redoLog,
        fun graph => (further.within graph).trans (shrunk.within graph), ?_⟩
      rcases shrunk.emptied with ⟨graph, held, empty⟩
      refine ⟨graph, held, Set.subset_eq_empty (further.within graph) empty⟩

theorem Auto.step {safe : Prop} (auto : Auto s) (logged : Logged safe s after)
    (follows : Same s after ∨ Changed s after) : Auto after where
  valid := logged.valid
  known := logged.known auto.known
  closed := by
    rw [← Option.isNone_iff_eq_none, ← Option.not_isSome, logged.active, auto.closed]
    rfl
  quiet := logged.pending auto.closed auto.quiet
  logging := by
    rcases follows with same | grew | shrunk
    · exact same.redoLog ▸ auto.logging
    · cases log : after.redoLog with
      | none => simp [redoLength, log] at grew
      | some entries => rfl
    · exact shrunk.redoLog ▸ auto.logging

end Changed

/-! ## Records -/

section Record

variable {s after : Session} {triple : Triple} {graph : Option Text} {changed : Bool}

end Record

/-! ## Operations that are not idle -/

/-- The step found nothing to do, or it shows. -/
def Tells (idle : Prop) (s after : Session) : Prop := idle ∧ Same s after ∨ Changed s after

section Tells

variable {s middle after : Session} {idle further : Prop}

theorem Tells.same_or_changed (tells : Tells idle s after) : Same s after ∨ Changed s after :=
  tells.imp_left And.right

theorem Tells.trans {both : Prop} (first : Tells idle s middle)
    (second : Tells further middle after)
    (implies : idle → Same s middle → further → both) : Tells both s after := by
  rcases first with ⟨here, same⟩ | changed
  · rcases second with ⟨there, alike⟩ | changed
    · exact .inl ⟨implies here same there, same.trans alike⟩
    · exact .inr (same.changed changed)
  · exact .inr (changed.followed second.same_or_changed)

end Tells

section Requests

variable {α : Type} {host : Host α} {s after : Session} {outcome : Except DbError Nat}

/-- Graphs and logs are as before. -/
structure Unchanged (s after : Session) : Prop where
  facts : after.facts = s.facts
  graphs : after.graphs = s.graphs
  redoLog : after.redoLog = s.redoLog
  updateLog : after.updateLog = s.updateLog

theorem Same.unchanged (same : Same s after) : Unchanged s after where
  facts := by
    funext graph
    rw [facts, facts, same.dict, same.triples]
  graphs := same.graphs
  redoLog := same.redoLog
  updateLog := same.updateLog

end Requests

/-! ## One request -/

/-- A host that knows one request and no file. -/
def scripted (ops : List (UpdateOp Unit)) : Host Unit where
  parse _ := .ok ops
  parseFile _ := .error "no such file".toList
  modify _ _ _ := ([], [])
  appendsUpdateLog := true

/-- An insertion, and a load from a remote source. -/
def insertThenLoad (triple : Triple) : List (UpdateOp Unit) :=
  [.insertData [inDefault triple], .load "http://x".toList false]

end Session

end GStore.Db
