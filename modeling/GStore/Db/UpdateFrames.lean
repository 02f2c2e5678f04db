import GStore.Db.WellFormed

/-! # What an update leaves alone

Each operation of an update changes the graphs that it writes to; every other graph keeps its
triples, and they keep their strings. -/

namespace GStore.Db

open Dict Reason Store

/-- The id of a graph, by its name; `none` is the default graph. -/
def IsGraph (dict : Dictionary) (graph : Option Text) (gid : Option UInt32) : Prop :=
  match graph with
  | none => gid = none
  | some name => ∃ known, gid = some known ∧ dict.entityId (Term.iri name).dictKey = some known

namespace Session

/-- The graphs other than those named are as they were. -/
structure Touched (graphs : Set (Option Text)) (s after : Session) : Prop where
  valid : after.Valid
  grows : s.dict.Extends after.dict
  others : ∀ gid, (∀ graph ∈ graphs, ¬ IsGraph after.dict graph gid) →
    after.triples gid = s.triples gid

section Touched

variable {graphs more : Set (Option Text)} {s middle after : Session} {triple : Triple}
  {graph : Option Text}

theorem IsGraph.grow {dict grown : Dictionary} (grows : dict.Extends grown) {gid : Option UInt32}
    (isGraph : IsGraph dict graph gid) : IsGraph grown graph gid := by
  cases graph with
  | none => exact isGraph
  | some name =>
    obtain ⟨known, same, found⟩ := isGraph
    exact ⟨known, same, grows.entities _ _ found⟩

theorem Touched.refl (valid : s.Valid) : Touched graphs s s :=
  ⟨valid, .refl _, fun _ _ => rfl⟩

theorem Touched.trans (first : Touched graphs s middle) (second : Touched graphs middle after) :
    Touched graphs s after where
  valid := second.valid
  grows := first.grows.trans second.grows
  others gid apart := by
    rw [second.others gid apart]
    apply first.others
    exact fun graph member isGraph => apart graph member (IsGraph.grow second.grows isGraph)

/-- One graph was replaced. -/
theorem touched_update {gid : Option UInt32} {held : Set IdTriple} (valid : after.Valid)
    (grows : s.dict.Extends after.dict) (isGraph : IsGraph after.dict graph gid)
    (member : graph ∈ graphs) (triples : after.triples = Function.update s.triples gid held) :
    Touched graphs s after where
  valid := valid
  grows := grows
  others other apart := by
    have different : other ≠ gid := by
      rintro rfl
      exact apart graph member isGraph
    rw [triples, Function.update_of_ne different]

theorem isGraph_of_lookupQuad {dict : Dictionary} {gid : Option UInt32} {id : IdTriple}
    (known : lookupQuad dict triple graph = some (gid, id)) : IsGraph dict graph gid := by
  have named := (lookupQuad_eq_some.mp known).2
  cases graph <;> exact named

theorem touched_insertQuad {changed : Bool} (valid : s.Valid) (member : graph ∈ graphs)
    (ran : s.insertQuad triple graph = some (after, changed)) : Touched graphs s after := by
  have logged := logged_insertQuad valid ran
  rw [insertQuad_eq, Option.map_eq_some_iff] at ran
  obtain ⟨⟨dict, gid, id⟩, encoded, result⟩ := ran
  cases result
  have known := (encodeQuad_spec valid.dict encoded).2.2
  apply touched_update logged.valid logged.grows _ member (triples_inserted valid dict)
  rw [inserted_dict]
  exact isGraph_of_lookupQuad known

theorem touched_deleteQuad (valid : s.Valid) (member : graph ∈ graphs) :
    Touched graphs s (s.deleteQuad triple graph).1 := by
  have logged := logged_deleteQuad valid triple graph
  rw [deleteQuad_eq] at logged ⊢
  split
  · exact .refl valid
  · rename_i gid id known
    rw [known] at logged
    dsimp only at logged
    split
    · rename_i there
      rw [if_pos there] at logged
      apply touched_update logged.valid logged.grows _ member (triples_removed valid)
      rw [removed_dict]
      exact isGraph_of_lookupQuad known
    · exact .refl valid

theorem touched_insertAll (triples : List GroundTriple) :
    ∀ {s after : Session} {count : Nat}, s.Valid → (∀ ground ∈ triples, ground.graph ∈ graphs) →
      s.insertAll triples = some (after, count) → Touched graphs s after := by
  induction triples with
  | nil =>
    intro s after count valid _ ran
    cases ran
    exact .refl valid
  | cons ground rest induction =>
    intro s after count valid members ran
    obtain ⟨middle, changed, further, inserted, later⟩ := insertAll_cons ran
    have first := touched_insertQuad valid (members ground List.mem_cons_self) inserted
    exact first.trans (induction first.valid
      (fun other member => members other (List.mem_cons_of_mem _ member)) later)

theorem touched_deleteAll (triples : List GroundTriple) :
    ∀ {s : Session}, s.Valid → (∀ ground ∈ triples, ground.graph ∈ graphs) →
      Touched graphs s (s.deleteAll triples).1 := by
  induction triples with
  | nil => exact fun valid _ => .refl valid
  | cons ground rest induction =>
    intro s valid members
    have first : Touched graphs s (s.deleteQuad ground.triple ground.graph).1 :=
      touched_deleteQuad valid (members ground List.mem_cons_self)
    rw [deleteAll]
    exact first.trans (induction first.valid
      fun other member => members other (List.mem_cons_of_mem _ member))

theorem inDefault_member (triples : List Triple) (member : none ∈ graphs) :
    ∀ ground ∈ triples.map inDefault, ground.graph ∈ graphs := by
  intro ground isGround
  obtain ⟨triple, -, rfl⟩ := List.mem_map.mp isGround
  exact member

end Touched

end Session

/-! ## Operations -/

/-- A target among the graphs given; the empty name is that of every named graph. -/
def GraphTarget.Within (graphs : Set (Option Text)) : GraphTarget → Prop
  | .default => none ∈ graphs
  | .named name => name ≠ [] ∧ some name ∈ graphs
  | .all => False

/-- The graphs that the operation writes to are among those given. -/
def UpdateOp.Within {α : Type} (graphs : Set (Option Text)) : UpdateOp α → Prop
  | .insertData triples | .deleteData triples => ∀ ground ∈ triples, ground.graph ∈ graphs
  | .modify _ | .load _ _ => none ∈ graphs
  | .clear target _ | .drop target _ => target.Within graphs
  | .create _ _ => True

theorem UpdateOp.Within.mono {α : Type} {graphs more : Set (Option Text)} {op : UpdateOp α}
    (within : op.Within graphs) (subset : graphs ⊆ more) : op.Within more := by
  have targets : ∀ {target : GraphTarget}, target.Within graphs → target.Within more := by
    intro target within
    cases target with
    | default => exact subset within
    | named name => exact ⟨within.1, subset within.2⟩
    | all => exact within
  cases op with
  | insertData triples => exact fun ground member => subset (within ground member)
  | deleteData triples => exact fun ground member => subset (within ground member)
  | modify request => exact subset within
  | load source silent => exact subset within
  | clear target silent => exact targets within
  | drop target silent => exact targets within
  | create name silent => trivial

namespace Session

section Operations

variable {α : Type} {host : Host α} {graphs : Set (Option Text)} {s after : Session}
  {outcome : Except DbError Nat}

theorem within_edits (host : Host α) (s : Session) {op : UpdateOp α} (within : op.Within graphs) :
    (∀ ground ∈ s.deletes host op, ground.graph ∈ graphs) ∧
      ∀ ground ∈ s.inserts host op, ground.graph ∈ graphs := by
  cases op with
  | insertData triples => exact ⟨List.forall_mem_nil _, within⟩
  | deleteData triples => exact ⟨within, List.forall_mem_nil _⟩
  | modify request => exact ⟨inDefault_member _ within, inDefault_member _ within⟩
  | load source silent =>
    refine ⟨List.forall_mem_nil _, ?_⟩
    rw [inserts]
    split
    · exact List.forall_mem_nil _
    · exact inDefault_member _ within
  | _ => exact ⟨List.forall_mem_nil _, List.forall_mem_nil _⟩

theorem touched_clearTarget {target : GraphTarget} (valid : s.Valid)
    (within : target.Within graphs) : Touched graphs s (s.clearTarget target).1 := by
  have logged := logged_clearTarget valid target
  have cleared := cleared_clearTarget valid target
  refine ⟨logged.valid, logged.grows, fun gid apart => ?_⟩
  rw [cleared.triples]
  ext triple
  refine ⟨And.left, fun held => ⟨held, fun here => ?_⟩⟩
  cases target with
  | default => exact apart none within here
  | all => exact within.elim
  | named name =>
    obtain ⟨known, same, every | found⟩ := here
    · exact within.1 every
    · exact apart _ within.2 ⟨known, same, cleared.dict.symm ▸ found⟩

theorem touched_execUpdateOp {op : UpdateOp α} (valid : s.Valid) (within : op.Within graphs)
    (ran : s.execUpdateOp host op = some (outcome, after)) : Touched graphs s after := by
  obtain ⟨target, silent, rfl | rfl, rfl⟩ | ⟨-, count, inserted⟩ := execUpdateOp_cases ran
  · exact touched_clearTarget valid within
  · exact touched_clearTarget valid within
  · obtain ⟨deletes, inserts⟩ := within_edits host s within
    have first := touched_deleteAll _ valid deletes
    exact first.trans (touched_insertAll _ first.valid inserts inserted)

/-- A whole update touches the graphs that its operations write to, also where one of them
fails. -/
theorem touched_execOps (ops : List (UpdateOp α)) :
    ∀ {s after : Session} {outcome : Except DbError Nat}, s.Valid → (∀ op ∈ ops, op.Within graphs) →
      s.execOps host ops = some (outcome, after) → Touched graphs s after := by
  induction ops with
  | nil =>
    intro s after outcome valid _ ran
    cases ran
    exact .refl valid
  | cons op rest induction =>
    intro s after outcome valid within ran
    have here := within op List.mem_cons_self
    obtain ⟨error, failed⟩ | ⟨changed, middle, further, executed, later⟩ := execOps_cases ran
    · exact touched_execUpdateOp valid here failed
    · have first := touched_execUpdateOp valid here executed
      exact first.trans (induction first.valid
        (fun other member => within other (List.mem_cons_of_mem _ member)) later)

end Operations

/-! ## What is left alone -/

section Frame

variable {graphs : Set (Option Text)} {s after : Session}

/-- Triples that are still there say what they said. -/
theorem facts_of_touched (touched : Touched graphs s after) (valid : s.Valid) (known : s.Known)
    {gid : Option UInt32} (same : after.triples gid = s.triples gid) :
    after.facts gid = s.facts gid := by
  ext terms
  simp only [facts, same, Set.mem_ofPred_eq]
  apply exists_congr
  intro triple
  apply and_congr_right
  intro member
  rw [render_congr (touched.grows.agrees valid.dict touched.valid.dict
    (known.triple gid triple member))]

theorem Touched.default (touched : Touched graphs s after) (valid : s.Valid) (known : s.Known)
    (apart : none ∉ graphs) : after.dataset.default = s.dataset.default := by
  apply facts_of_touched touched valid known
  apply touched.others
  intro graph member isGraph
  cases graph with
  | none => exact apart member
  | some name =>
    obtain ⟨gid, impossible, -⟩ := isGraph
    cases impossible

theorem Touched.named (touched : Touched graphs s after) (valid : s.Valid) (known : s.Known)
    {key : Text} (apart : ∀ name, some name ∈ graphs → key ≠ (Term.iri name).dictKey) :
    after.dataset.named key = s.dataset.named key := by
  have others : ∀ gid, after.dict.idToString gid = some key →
      after.triples (some gid) = s.triples (some gid) := by
    intro gid shown
    apply touched.others
    intro graph member isGraph
    cases graph with
    | none => cases isGraph
    | some name =>
      obtain ⟨found, same, entity⟩ := isGraph
      cases same
      have other := Dictionary.idToString_of_entityId touched.valid.dict entity
      exact apart name member (Option.some.inj (shown.symm.trans other))
  have strings : ∀ gid ∈ s.graphs, after.dict.idToString gid = s.dict.idToString gid := by
    intro gid member
    rw [Dictionary.idToString_eq, Dictionary.idToString_eq,
      touched.grows.slot valid.dict touched.valid.dict (known.graph gid member)]
  ext terms
  constructor
  · rintro ⟨gid, shown, stated⟩
    rw [facts_of_touched touched valid known (others gid shown)] at stated
    have ⟨triple, member, _⟩ := stated
    exact ⟨gid, strings gid (triples_subset_graphs member) ▸ shown, stated⟩
  · rintro ⟨gid, shown, stated⟩
    have ⟨triple, member, _⟩ := stated
    have still := (strings gid (triples_subset_graphs member)).trans shown
    refine ⟨gid, still, ?_⟩
    rw [facts_of_touched touched valid known (others gid still)]
    exact stated

end Frame

end Session

end GStore.Db
