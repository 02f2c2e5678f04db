import GStore.Db.Dataset

/-! # Quads

`insert_quad` and `delete_quad` as one operation on the graph they name: the ids
of the quad first, then one change of one store, with its undo entry and its redo
record. -/

/-! ## Known terms -/

namespace GStore.Dict.Dictionary

open Store

variable {dict : Dictionary}

end GStore.Dict.Dictionary

namespace GStore.Db

open Dict Store

/-! ## The ids of a quad -/

/-- The graph's id and the triple's, all terms being interned. -/
def encodeQuad (dict : Dictionary) (triple : Triple) :
    Option Text → Option (Dictionary × Option UInt32 × IdTriple)
  | none => (dict.encodeTriple triple).map fun encoded => (encoded.1, none, encoded.2)
  | some name => do
    let (dict, gid) ← dict.internEntity (Term.iri name).dictKey
    let (dict, id) ← dict.encodeTriple triple
    return (dict, some gid, id)

/-- The ids of a quad all of whose terms are known. -/
def lookupQuad (dict : Dictionary) (triple : Triple) : Option Text → Option (Option UInt32 × IdTriple)
  | none => (dict.lookup triple).map fun id => (none, id)
  | some name =>
    match dict.entityId (Term.iri name).dictKey, dict.lookup triple with
    | some gid, some id => some (some gid, id)
    | _, _ => none

section Ids

variable {dict grown : Dictionary} {triple : Triple} {graph : Option Text} {gid : Option UInt32}
  {id : IdTriple}

theorem lookupQuad_eq_some :
    lookupQuad dict triple graph = some (gid, id) ↔ dict.lookup triple = some id ∧
      match graph with
      | none => gid = none
      | some name => ∃ known, gid = some known ∧
          dict.entityId (Term.iri name).dictKey = some known := by
  cases graph with
  | none =>
    simp only [lookupQuad, Option.map_eq_some_iff, Prod.mk.injEq]
    constructor
    · rintro ⟨_, known, rfl, rfl⟩
      exact ⟨known, rfl⟩
    · rintro ⟨known, rfl⟩
      exact ⟨id, known, rfl, rfl⟩
  | some name =>
    simp only [lookupQuad]
    cases named : dict.entityId (Term.iri name).dictKey with
    | none => simp
    | some known =>
      cases dict.lookup triple with
      | none => simp
      | some found =>
        simp only [Option.some.injEq, Prod.mk.injEq]
        constructor
        · rintro ⟨rfl, rfl⟩
          exact ⟨rfl, known, rfl, rfl⟩
        · rintro ⟨rfl, _, rfl, rfl⟩
          exact ⟨rfl, rfl⟩

theorem encodeQuad_spec (valid : dict.Valid)
    (encoded : encodeQuad dict triple graph = some (grown, gid, id)) :
    grown.Valid ∧ dict.Extends grown ∧ lookupQuad grown triple graph = some (gid, id) := by
  cases graph with
  | none =>
    rcases Option.map_eq_some_iff.mp encoded with ⟨⟨_, _⟩, found, result⟩
    cases result
    rcases Dictionary.encodeTriple_spec valid found with ⟨grownValid, grows, known⟩
    exact ⟨grownValid, grows, lookupQuad_eq_some.mpr ⟨known, rfl⟩⟩
  | some name =>
    simp only [encodeQuad, Option.bind_eq_bind, Option.bind_eq_some_iff, Prod.exists] at encoded
    rcases encoded with ⟨middle, graphId, interned, last, tripleId, found, result⟩
    cases result
    rcases Dictionary.internEntity_spec valid interned with ⟨middleValid, middleGrows, named⟩
    rcases Dictionary.encodeTriple_spec middleValid found with ⟨grownValid, grows, known⟩
    refine ⟨grownValid, middleGrows.trans grows, lookupQuad_eq_some.mpr ⟨known, graphId, rfl, ?_⟩⟩
    exact grows.entities _ _ named

theorem lookupQuad_of_live (grows : dict.Extends grown) (valid : dict.Valid)
    (grownValid : grown.Valid) (known : lookupQuad grown triple graph = some (gid, id))
    (live : dict.Live id) (named : ∀ found, gid = some found → (dict.slot found).isSome) :
    lookupQuad dict triple graph = some (gid, id) := by
  rw [lookupQuad_eq_some] at known ⊢
  refine ⟨grows.lookup_of_live valid grownValid known.1 live, ?_⟩
  cases graph with
  | none => exact known.2
  | some name =>
    rcases known.2 with ⟨found, same, interned⟩
    exact ⟨found, same, grows.entityId_of_live valid grownValid interned (named found same)⟩

/-- The graph of a quad has a string, and so have the parts of the triple. -/
theorem live_of_lookupQuad (valid : dict.Valid)
    (known : lookupQuad dict triple graph = some (gid, id)) :
    dict.Live id ∧ ∀ found, gid = some found → (dict.slot found).isSome := by
  rw [lookupQuad_eq_some] at known
  refine ⟨Dictionary.live_of_lookup valid known.1, ?_⟩
  rintro found rfl
  cases graph with
  | none => cases known.2
  | some name =>
    rcases known.2 with ⟨other, same, named⟩
    cases same
    rw [Dictionary.slot_of_entityId valid named, Option.isSome_some]

end Ids

namespace Session

/-! ## One change of one graph -/

/-- A triple goes into a graph; the dictionary is the one that gave its ids. -/
def inserted (s : Session) (dict : Dictionary) (graph : Option UInt32) (id : IdTriple) : Session :=
  let inserted := (s.graphStore graph).insert id
  let after := { s with dict }.setGraph graph inserted.1
  if inserted.2 then (after.pushUndo [.del graph id]).recordRedo .insert graph id else after

def removed (s : Session) (graph : Option UInt32) (id : IdTriple) : Session :=
  let removed := (s.graphStore graph).remove id
  let after := s.setGraph graph removed.1
  if removed.2 then (after.pushUndo [.add graph id]).recordRedo .delete graph id else after

/-- Whether there is such a graph; the default graph always is. -/
def hasGraph (s : Session) : Option UInt32 → Bool
  | none => true
  | some gid => s.named[gid]?.isSome

section One

variable {s : Session} {triple : Triple} {graph : Option Text}

theorem flagged (flag : Bool) (changed same : Session) :
    (if flag then (changed, true) else (same, false)) = (if flag then changed else same, flag) := by
  cases flag <;> rfl

theorem insertQuad_eq (s : Session) (triple : Triple) (graph : Option Text) :
    s.insertQuad triple graph = (encodeQuad s.dict triple graph).map fun (dict, gid, id) =>
      (s.inserted dict gid id, ((s.graphStore gid).insert id).2) := by
  cases graph with
  | none =>
    rw [insertQuad, insertTriple, encodeQuad, Option.map_map]
    congr 1
    funext encoded
    exact flagged _ _ _
  | some name =>
    simp only [insertQuad, encodeQuad, Option.bind_eq_bind, Option.map_bind]
    congr 1
    funext interned
    simp only [Function.comp_apply, Option.map_bind]
    congr 1
    funext encoded
    simp only [Option.pure_def, Option.map_some]
    rw [← apply_ite some]
    exact congrArg some (flagged _ _ _)

theorem deleteQuad_eq (s : Session) (triple : Triple) (graph : Option Text) :
    s.deleteQuad triple graph =
      match lookupQuad s.dict triple graph with
      | none => (s, false)
      | some (gid, id) =>
        if s.hasGraph gid then (s.removed gid id, ((s.graphStore gid).remove id).2)
        else (s, false) := by
  cases graph with
  | none =>
    rw [deleteQuad, removeTriple, lookupQuad]
    cases s.dict.lookup triple with
    | none => rfl
    | some id =>
      simp only [Option.map_some, hasGraph, if_true]
      exact flagged _ _ _
  | some name =>
    rw [deleteQuad, lookupQuad]
    cases s.dict.entityId (Term.iri name).dictKey with
    | none => rfl
    | some gid =>
      cases s.dict.lookup triple with
      | none => rfl
      | some id =>
        cases found : s.named[gid]? with
        | none => simp [hasGraph, found]
        | some held =>
          have same : s.graphStore (some gid) = held := by
            rw [graphStore, Std.TreeMap.getD_eq_getD_getElem?, found, Option.getD_some]
          simp only [hasGraph, found, Option.isSome_some, if_true, removed, same]
          exact flagged _ _ _

theorem hasGraph_iff {gid : Option UInt32} :
    s.hasGraph gid = true ↔ ∀ found, gid = some found → found ∈ s.graphs := by
  cases gid with
  | none => simp [hasGraph]
  | some gid =>
    rw [hasGraph, Option.isSome_iff_exists]
    simp [graphs]

end One

section Fields

variable {s : Session} {dict : Dictionary} {graph : Option UInt32} {id : IdTriple}
  {store : TripleStore}

@[simp] theorem setGraph_dict : (s.setGraph graph store).dict = s.dict := by
  cases graph <;> rfl

@[simp] theorem setGraph_txn : (s.setGraph graph store).txn = s.txn := by
  cases graph <;> rfl

@[simp] theorem setGraph_redoLog : (s.setGraph graph store).redoLog = s.redoLog := by
  cases graph <;> rfl

@[simp] theorem setGraph_redoPending : (s.setGraph graph store).redoPending = s.redoPending := by
  cases graph <;> rfl

@[simp] theorem setGraph_updateLog : (s.setGraph graph store).updateLog = s.updateLog := by
  cases graph <;> rfl

theorem inserted_dict : (s.inserted dict graph id).dict = dict := by
  rw [inserted]
  split
  · rw [recordRedo_dict]
    exact setGraph_dict
  · exact setGraph_dict

theorem removed_dict : (s.removed graph id).dict = s.dict := by
  rw [removed]
  split
  · rw [recordRedo_dict]
    exact setGraph_dict
  · exact setGraph_dict

theorem triples_inserted (valid : s.Valid) (dict : Dictionary) :
    (s.inserted dict graph id).triples =
      Function.update s.triples graph (insert id (s.triples graph)) := by
  rcases (valid.graphStore graph).insert id with ⟨-, holds, -⟩
  rw [stored_graphStore] at holds
  have changed : ({ s with dict }.setGraph graph ((s.graphStore graph).insert id).1).triples =
      Function.update s.triples graph (insert id (s.triples graph)) := by
    rw [triples_setGraph, holds]
    rfl
  rw [inserted]
  split
  · rw [recordRedo_triples]
    exact changed
  · exact changed

theorem triples_removed (valid : s.Valid) : (s.removed graph id).triples =
    Function.update s.triples graph (s.triples graph \ {id}) := by
  rcases (valid.graphStore graph).remove id with ⟨-, holds, -⟩
  rw [stored_graphStore] at holds
  have changed : (s.setGraph graph ((s.graphStore graph).remove id).1).triples =
      Function.update s.triples graph (s.triples graph \ {id}) := by
    rw [triples_setGraph, holds]
  rw [removed]
  split
  · rw [recordRedo_triples]
    exact changed
  · exact changed

end Fields

/-! ## Removals -/

/-- Only triples went. -/
structure Reduced (s after : Session) : Prop where
  dict : after.dict = s.dict
  within : ∀ graph, after.triples graph ⊆ s.triples graph

theorem Reduced.refl (s : Session) : Reduced s s := ⟨rfl, fun _ => subset_rfl⟩

theorem Reduced.trans {s middle after : Session} (first : Reduced s middle)
    (second : Reduced middle after) : Reduced s after :=
  ⟨second.dict.trans first.dict, fun graph => (second.within graph).trans (first.within graph)⟩

theorem reduced_deleteQuad {s : Session} (valid : s.Valid) (triple : Triple)
    (graph : Option Text) : Reduced s (s.deleteQuad triple graph).1 := by
  rw [deleteQuad_eq]
  split
  · exact .refl s
  · rename_i gid id _
    split
    · refine ⟨removed_dict, fun other => ?_⟩
      rw [triples_removed valid]
      by_cases same : other = gid
      · subst same
        rw [Function.update_self]
        exact Set.sdiff_subset
      · rw [Function.update_of_ne same]
    · exact .refl s

end Session

end GStore.Db
