import GStore.Db.Atomicity
import GStore.Db.UpdateFrames

/-! # What an update means

A database as the set of the quads that it states. An operation clears graphs, deletes quads and
inserts others, in this order, and a request does what its operations do one after the other. -/

namespace GStore.Db

open Dict Store

/-! ## Sets of quads -/

/-- The two are stored as one quad. -/
def GroundTriple.SameQuad (left right : GroundTriple) : Prop :=
  left.graph = right.graph ∧ left.triple.SameKeys right.triple

/-- The quads that are stored as one of those in the list. -/
def quadsOf (triples : List GroundTriple) : Set GroundTriple :=
  {quad | ∃ ground ∈ triples, quad.SameQuad ground}

theorem quadsOf_nil : quadsOf [] = ∅ := by
  simp [quadsOf]

theorem quadsOf_cons (ground : GroundTriple) (rest : List GroundTriple) :
    quadsOf (ground :: rest) = {quad | quad.SameQuad ground} ∪ quadsOf rest := by
  ext quad
  simp [quadsOf]

/-- The graphs that a target names; the empty name is that of every named graph. -/
def GraphTarget.graphs : GraphTarget → Set (Option Text)
  | .default => {none}
  | .named name => if name = [] then {none}ᶜ else {some name}
  | .all => Set.univ

def UpdateOp.cleared {α : Type} : UpdateOp α → Set (Option Text)
  | .clear target _ | .drop target _ => target.graphs
  | _ => ∅

namespace Session

/-- The quads that the graphs hold. -/
def quads (s : Session) : Set GroundTriple :=
  {quad | s.contains quad.triple quad.graph = true}

section Meaning

variable {α : Type} (host : Host α)

/-- What a modification deletes and inserts is what its pattern finds in the session. -/
def edited (s : Session) (op : UpdateOp α) (quads : Set GroundTriple) : Set GroundTriple :=
  {quad | quad ∈ quads ∧ quad.graph ∉ op.cleared} \ quadsOf (s.deletes host op) ∪
    quadsOf (s.inserts host op)

/-- Each operation finds the session that those before it left; one that fails is the last. -/
def meant : Session → List (UpdateOp α) → Set GroundTriple → Set GroundTriple
  | _, [], quads => quads
  | s, op :: rest, quads =>
    match s.execUpdateOp host op with
    | some (.ok _, middle) => meant middle rest (s.edited host op quads)
    | _ => s.edited host op quads

end Meaning

/-! ## One quad -/

section Quads

variable {s after : Session} {dict : Dictionary} {ground quad : GroundTriple}
  {gid : Option UInt32} {id : IdTriple}

theorem mem_quads : quad ∈ s.quads ↔ ∃ gid id,
    lookupQuad s.dict quad.triple quad.graph = some (gid, id) ∧ id ∈ s.triples gid :=
  contains_iff s quad.triple quad.graph

theorem lookupQuad_congr (same : quad.SameQuad ground) :
    lookupQuad dict quad.triple quad.graph = lookupQuad dict ground.triple ground.graph := by
  rw [same.1]
  cases ground.graph <;> simp only [lookupQuad, Dictionary.lookup_congr same.2]

theorem lookupQuad_grow {grown : Dictionary} {triple : Triple} {graph : Option Text}
    (grows : dict.Extends grown) (read : lookupQuad dict triple graph = some (gid, id)) :
    lookupQuad grown triple graph = some (gid, id) := by
  have isGraph := IsGraph.grow grows (isGraph_of_lookupQuad read)
  refine lookupQuad_eq_some.mpr ⟨grows.lookup (lookupQuad_eq_some.mp read).1, ?_⟩
  cases graph <;> exact isGraph

/-- Distinct graphs have distinct ids. -/
theorem isGraph_injective (valid : dict.Valid) {left right : Option Text}
    (first : IsGraph dict left gid) (second : IsGraph dict right gid) : left = right := by
  cases left with
  | none =>
    cases right with
    | none => rfl
    | some name =>
      rcases second with ⟨known, rfl, -⟩
      cases first
  | some name =>
    rcases first with ⟨known, rfl, found⟩
    cases right with
    | none => cases second
    | some other =>
      rcases second with ⟨_, same, otherFound⟩
      cases same
      have keys := Option.some.inj (((valid.entities.get_iff _ _).mp found).symm.trans
        ((valid.entities.get_iff _ _).mp otherFound))
      simpa [Term.dictKey, Term.display] using keys

theorem sameQuad_of_lookupQuad (valid : dict.Valid)
    (left : lookupQuad dict quad.triple quad.graph = some (gid, id))
    (right : lookupQuad dict ground.triple ground.graph = some (gid, id)) :
    quad.SameQuad ground :=
  ⟨isGraph_injective valid (isGraph_of_lookupQuad left) (isGraph_of_lookupQuad right),
    valid.lookup_injective (lookupQuad_eq_some.mp left).1 (lookupQuad_eq_some.mp right).1⟩

/-- Where one triple of one graph may have changed, one quad may have. -/
theorem mem_quads_update {held : Set IdTriple} (valid : s.Valid) (known : s.Known)
    (dictValid : after.dict.Valid) (grows : s.dict.Extends after.dict)
    (found : lookupQuad after.dict ground.triple ground.graph = some (gid, id))
    (triples : after.triples = Function.update s.triples gid held)
    (others : ∀ other, other ≠ id → (other ∈ held ↔ other ∈ s.triples gid)) :
    quad ∈ after.quads ↔ quad.SameQuad ground ∧ id ∈ held ∨
      ¬ quad.SameQuad ground ∧ quad ∈ s.quads := by
  by_cases same : quad.SameQuad ground
  · rw [mem_quads, lookupQuad_congr same, found]
    simp [same, triples]
  · have elsewhere : ∀ {other otherId},
        lookupQuad after.dict quad.triple quad.graph = some (other, otherId) →
          (otherId ∈ after.triples other ↔ otherId ∈ s.triples other) := by
      intro other otherId read
      rw [triples]
      by_cases here : other = gid
      · subst here
        rw [Function.update_self]
        refine others otherId fun sameId => same ?_
        exact sameQuad_of_lookupQuad dictValid (sameId ▸ read) found
      · rw [Function.update_of_ne here]
    simp only [same, false_and, false_or, not_false_eq_true, true_and, mem_quads]
    constructor
    · rintro ⟨other, otherId, read, member⟩
      have old := (elsewhere read).mp member
      refine ⟨other, otherId, ?_, old⟩
      apply lookupQuad_of_live grows valid.dict dictValid read (known.triple _ _ old)
      rintro found rfl
      exact known.graph found (triples_subset_graphs old)
    · rintro ⟨other, otherId, read, member⟩
      have grown := lookupQuad_grow grows read
      exact ⟨other, otherId, grown, (elsewhere grown).mpr member⟩

theorem quads_insertQuad {changed : Bool} (valid : s.Valid) (known : s.Known)
    (ran : s.insertQuad ground.triple ground.graph = some (after, changed)) :
    after.quads = s.quads ∪ {quad | quad.SameQuad ground} := by
  have logged := logged_insertQuad valid ran
  rw [insertQuad_eq, Option.map_eq_some_iff] at ran
  rcases ran with ⟨⟨dict, gid, id⟩, encoded, result⟩
  cases result
  have found : lookupQuad (s.inserted dict gid id).dict ground.triple ground.graph =
      some (gid, id) := by
    rw [inserted_dict]
    exact (encodeQuad_spec valid.dict encoded).2.2
  ext quad
  rw [mem_quads_update valid known logged.valid.dict logged.grows found
    (triples_inserted valid dict) (by simp +contextual)]
  by_cases same : quad.SameQuad ground <;> simp [same]

theorem quads_deleteQuad (valid : s.Valid) (known : s.Known) (ground : GroundTriple) :
    (s.deleteQuad ground.triple ground.graph).1.quads =
      s.quads \ {quad | quad.SameQuad ground} := by
  have logged := logged_deleteQuad valid ground.triple ground.graph
  cases held : s.contains ground.triple ground.graph with
  | false =>
    have same : (s.deleteQuad ground.triple ground.graph).1.quads = s.quads := by
      simp only [quads, (same_deleteQuad valid held).contains]
    rw [same, eq_comm, sdiff_eq_left, Set.disjoint_right]
    intro quad isSame member
    rw [mem_quads, lookupQuad_congr isSame, ← mem_quads] at member
    exact absurd (held.symm.trans member) Bool.false_ne_true
  | true =>
    rcases (contains_iff s _ _).mp held with ⟨gid, id, found, member⟩
    have there : s.hasGraph gid = true := by
      rw [hasGraph_iff]
      rintro known rfl
      exact triples_subset_graphs member
    rw [deleteQuad_eq, found] at logged ⊢
    dsimp only at logged ⊢
    rw [if_pos there] at logged ⊢
    have still : lookupQuad (s.removed gid id).dict ground.triple ground.graph = some (gid, id) := by
      rw [removed_dict]
      exact found
    ext quad
    rw [mem_quads_update valid known logged.valid.dict logged.grows still
      (triples_removed valid) (by simp +contextual)]
    by_cases same : quad.SameQuad ground <;> simp [same]

end Quads

/-! ## Operations -/

section Operations

variable {α : Type} {host : Host α} {s after : Session} {outcome : Except DbError Nat}

theorem quads_insertAll (triples : List GroundTriple) : ∀ {s after : Session} {count : Nat},
    s.Valid → s.Known → s.insertAll triples = some (after, count) →
      after.quads = s.quads ∪ quadsOf triples := by
  induction triples with
  | nil =>
    intro s after count _ _ ran
    cases ran
    rw [quadsOf_nil, Set.union_empty]
  | cons ground rest induction =>
    intro s after count valid known ran
    rcases insertAll_cons ran with ⟨middle, changed, further, inserted, later⟩
    have logged := logged_insertQuad valid inserted
    rw [induction logged.valid (logged.known known) later, quads_insertQuad valid known inserted,
      quadsOf_cons, Set.union_assoc]

theorem quads_deleteAll (triples : List GroundTriple) : ∀ {s : Session}, s.Valid → s.Known →
    (s.deleteAll triples).1.quads = s.quads \ quadsOf triples := by
  induction triples with
  | nil =>
    intro s _ _
    rw [quadsOf_nil, Set.sdiff_empty]
    rfl
  | cons ground rest induction =>
    intro s valid known
    have logged := logged_deleteQuad valid ground.triple ground.graph
    rw [deleteAll]
    dsimp only
    rw [induction logged.valid (logged.known known), quads_deleteQuad valid known, quadsOf_cons,
      Set.sdiff_sdiff]

theorem quads_clearTarget (valid : s.Valid) (target : GraphTarget) :
    (s.clearTarget target).1.quads = {quad | quad ∈ s.quads ∧ quad.graph ∉ target.graphs} := by
  have cleared := cleared_clearTarget valid target
  ext quad
  simp only [mem_quads, Set.mem_ofPred_eq, cleared.dict, cleared.triples]
  have named : ∀ {gid id}, lookupQuad s.dict quad.triple quad.graph = some (gid, id) →
      (s.Targets target gid ↔ quad.graph ∈ target.graphs) := by
    intro gid id read
    have isGraph := isGraph_of_lookupQuad read
    have one : ∀ graph, IsGraph s.dict graph gid ↔ quad.graph = graph :=
      fun graph => ⟨isGraph_injective valid.dict isGraph, fun same => same ▸ isGraph⟩
    cases target with
    | default => exact one none
    | all => exact iff_of_true trivial trivial
    | named name =>
      by_cases every : name = []
      · have default : gid = none ↔ quad.graph = none := one none
        simp [Targets, GraphTarget.graphs, every, ← default, Option.ne_none_iff_exists']
      · simpa [Targets, GraphTarget.graphs, every, IsGraph] using one (some name)
  constructor
  · rintro ⟨gid, id, read, member, apart⟩
    exact ⟨⟨gid, id, read, member⟩, (named read).not.mp apart⟩
  · rintro ⟨⟨gid, id, read, member⟩, apart⟩
    exact ⟨gid, id, read, member, (named read).not.mpr apart⟩

theorem quads_execUpdateOp {op : UpdateOp α} (valid : s.Valid) (known : s.Known)
    (ran : s.execUpdateOp host op = some (outcome, after)) :
    after.quads = s.edited host op s.quads := by
  rcases execUpdateOp_cases ran with ⟨target, silent, rfl | rfl, rfl⟩ | ⟨keeps, count, inserted⟩
  · simp [edited, deletes, inserts, UpdateOp.cleared, quadsOf_nil, quads_clearTarget valid]
  · simp [edited, deletes, inserts, UpdateOp.cleared, quadsOf_nil, quads_clearTarget valid]
  · have logged := logged_deleteAll (s.deletes host op) valid
    rw [quads_insertAll _ logged.valid (logged.known known) inserted,
      quads_deleteAll _ valid known, edited]
    have nothing : op.cleared = ∅ := by cases op <;> first | rfl | cases keeps
    simp [nothing]

theorem quads_execOps (ops : List (UpdateOp α)) : ∀ {s after : Session}
    {outcome : Except DbError Nat}, s.Valid → s.Known →
      s.execOps host ops = some (outcome, after) → after.quads = meant host s ops s.quads := by
  induction ops with
  | nil =>
    intro s after outcome _ _ ran
    cases ran
    rfl
  | cons op rest induction =>
    intro s after outcome valid known ran
    rcases execOps_cases ran with ⟨error, failed⟩ | ⟨changed, middle, further, first, later⟩
    · rw [meant, failed]
      exact quads_execUpdateOp valid known failed
    · have logged := logged_execUpdateOp valid first
      rw [meant, first, ← quads_execUpdateOp valid known first]
      exact induction logged.valid (logged.known known) later

/-- An update makes of a consistent database what it means, whichever way it ends. -/
theorem query_means {sparql : Text} {ops : List (UpdateOp α)} (consistent : s.Consistent)
    (parsed : host.parse sparql = .ok ops) (ran : s.query host sparql = some (outcome, after)) :
    after.quads = meant host s ops s.quads := by
  rcases query_cases ran with ⟨-, message, failed⟩ | ⟨_, answer, last, log, same, applied, rfl, -⟩
  · rw [parsed] at failed
    cases failed
  · rw [parsed] at same
    cases same
    -- The update log, which is written last, holds no quads.
    have meaning : last.quads = _ := quads_execOps ops consistent.valid consistent.known applied
    exact meaning

end Operations

theorem query_means_insertThenLoad :
    let ops := insertThenLoad (ground "c" "q" "d")
    ∃ outcome after, oneTriple.query (scripted ops) [] = some (outcome, after) ∧
      after.quads = meant (scripted ops) oneTriple ops oneTriple.quads := by
  intro ops
  have answers : (oneTriple.query (scripted ops) []).isSome := by decide
  rcases Option.isSome_iff_exists.mp answers with ⟨⟨outcome, after⟩, ran⟩
  exact ⟨outcome, after, ran, query_means consistent_oneTriple rfl ran⟩

end Session

end GStore.Db
