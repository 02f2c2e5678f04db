import GStore.Query.Path
import GStore.Signature.DiskTree
import GStore.Store.TripleSource

/-! # Candidate filtering in the engine

The data side signs every entity by its edges, `vstree_entries` of
`db/mod.rs`; the query side signs a variable by the known parts of the patterns
around it, `refine_candidates_with_vstree` of `query/engine.rs`. -/

namespace GStore.Signature

open CoverTree Dict Query SortedSlice Store

/-! ## The data side -/

/-- Sign an entity by its edges. -/
def entitySignature (store : TripleSource) (entity : UInt32) : Signature :=
  let out := (store.poByS entity).foldl (fun sig edge => sig.encodeEdge edge.1 edge.2 .out) new
  (store.psByO entity).foldl (fun sig edge => sig.encodeEdge edge.1 edge.2 .in) out

/-- Every subject, and every object that is an entity. -/
def indexedEntities (store : TripleSource) : List UInt32 :=
  sortDedup (store.subjectKeys ++ store.objectKeys.filter isEntityId)

def vstreeEntries (store : TripleSource) : List (UInt32 × Signature) :=
  (indexedEntities store).map fun entity => (entity, entitySignature store entity)

def buildVstree (store : TripleSource) : VsTree := VsTree.build (vstreeEntries store)

/-! ## The query side -/

section Engine

variable (dict : Dictionary) (index : Text → Nat)

/-- The predicate id of a constant-IRI predicate position. -/
def predIdOf : PatternTerm → Option UInt32
  | .term (.iri iri) => dict.predicateId (Term.iri iri).dictKey
  | _ => none

/-- The id of a constant neighbour position. -/
def neighborIdOf : PatternTerm → Option UInt32
  | .term term => dict.termId term
  | .var _ => none

/-- The position holds the variable. -/
def IsVar (var : Nat) : PatternTerm → Prop
  | .var name => index name = var
  | .term _ => False

instance (var : Nat) (position : PatternTerm) : Decidable (IsVar index var position) :=
  match position with
  | .var name => inferInstanceAs (Decidable (index name = var))
  | .term _ => inferInstanceAs (Decidable False)

/-- One pattern's edges at the variable: out of it where it is the subject, into
it where it is the object. -/
def encodePattern (var : Nat) (sig : Signature) (pattern : TriplePattern) : Signature :=
  let sig :=
    if IsVar index var pattern.subject then
      sig.encodeQueryEdge (predIdOf dict pattern.predicate) (neighborIdOf dict pattern.object) .out
    else sig
  if IsVar index var pattern.object then
    sig.encodeQueryEdge (predIdOf dict pattern.predicate) (neighborIdOf dict pattern.subject) .in
  else sig

def querySignature (patterns : List TriplePattern) (var : Nat) : Signature :=
  patterns.foldl (encodePattern dict index var) new

/-- Candidate ids by variable; without an entry nothing is filtered. -/
abbrev Candidates := Nat → Option (List UInt32)

/-- The source visits the subject variables in the order of a hash set; each
changes its own entry only. -/
def refineCandidates (filter : Signature → Option (List UInt32)) (candidates : Candidates)
    (patterns : List TriplePattern) : Candidates := fun var =>
  if patterns.any fun pattern => decide (IsVar index var pattern.subject) then
    let sig := querySignature dict index patterns var
    if sig.isEmpty then candidates var
    else match filter sig with
      | none => candidates var
      | some found =>
        match candidates var with
        | some existing => some (existing.filter fun id => decide (id ∈ found))
        | none => some (sortDedup found)
  else candidates var

end Engine

/-! ## The two sides fit -/

theorem foldl_encodeEdge (edges : List (UInt32 × UInt32)) (dir : EdgeDir) :
    ∀ start : Signature,
      start ≤ edges.foldl (fun sig edge => sig.encodeEdge edge.1 edge.2 dir) start ∧
      ∀ edge ∈ edges, edgeBits edge.1 edge.2 dir ≤
        edges.foldl (fun sig edge => sig.encodeEdge edge.1 edge.2 dir) start := by
  induction edges with
  | nil => intro start; exact ⟨le_refl _, by simp⟩
  | cons first rest induction =>
    intro start
    rw [List.foldl_cons]
    rcases induction (start.encodeEdge first.1 first.2 dir) with ⟨grows, covers⟩
    rw [encodeEdge_eq] at grows covers ⊢
    refine ⟨le_trans le_sup_left grows, ?_⟩
    intro edge member
    rcases List.mem_cons.mp member with rfl | further
    · exact le_trans le_sup_right grows
    · exact covers edge further

section Fit

variable {store : TripleSource} {triples : Finset IdTriple} (describes : store.Describes triples)

include describes

/-- An entity's signature has the bits of each of its edges. -/
theorem edgeBits_out_le {entity pred neighbor : UInt32}
    (edge : ⟨entity, pred, neighbor⟩ ∈ triples) :
    edgeBits pred neighbor .out ≤ entitySignature store entity := by
  have member := ((describes.poByS entity).mem_iff (pred, neighbor)).mpr edge
  have signed := (foldl_encodeEdge (store.poByS entity) .out new).2 (pred, neighbor) member
  rw [entitySignature]
  exact le_trans signed (foldl_encodeEdge (store.psByO entity) .in _).1

theorem edgeBits_in_le {entity pred neighbor : UInt32}
    (edge : ⟨neighbor, pred, entity⟩ ∈ triples) :
    edgeBits pred neighbor .in ≤ entitySignature store entity := by
  have member := ((describes.psByO entity).mem_iff (pred, neighbor)).mpr edge
  rw [entitySignature]
  exact (foldl_encodeEdge (store.psByO entity) .in _).2 (pred, neighbor) member

theorem mem_indexedEntities {entity pred neighbor : UInt32}
    (edge : ⟨entity, pred, neighbor⟩ ∈ triples) : entity ∈ indexedEntities store := by
  rw [indexedEntities, mem_sortDedup, List.mem_append]
  exact .inl ((describes.subjectKeys.mem_iff entity).mpr ⟨pred, neighbor, edge⟩)

end Fit

theorem keys_vstreeEntries (store : TripleSource) :
    (vstreeEntries store).map Prod.fst = indexedEntities store := by
  rw [vstreeEntries, List.map_map]
  exact List.map_id _

theorem nodup_indexedEntities (store : TripleSource) : (indexedEntities store).Nodup :=
  (sortDedup_pairwise _).imp ne_of_lt

/-- The entity has an edge for the known parts of each pattern around the
variable. -/
structure HasKnownEdges (dict : Dictionary) (index : Text → Nat) (triples : Finset IdTriple)
    (patterns : List TriplePattern) (var : Nat) (entity : UInt32) : Prop where
  out : ∀ pattern ∈ patterns, IsVar index var pattern.subject →
    ∃ pred neighbor, ⟨entity, pred, neighbor⟩ ∈ triples ∧
      MatchesEdge pred neighbor (predIdOf dict pattern.predicate)
        (neighborIdOf dict pattern.object)
  into : ∀ pattern ∈ patterns, IsVar index var pattern.object →
    ∃ pred neighbor, ⟨neighbor, pred, entity⟩ ∈ triples ∧
      MatchesEdge pred neighbor (predIdOf dict pattern.predicate)
        (neighborIdOf dict pattern.subject)

section Sound

variable {dict : Dictionary} {index : Text → Nat} {store : TripleSource}
  {triples : Finset IdTriple} {patterns : List TriplePattern} {var : Nat} {entity : UInt32}

/-- What the patterns ask for, the entity's signature has. -/
theorem querySignature_le (describes : store.Describes triples)
    (known : HasKnownEdges dict index triples patterns var entity) :
    querySignature dict index patterns var ≤ entitySignature store entity := by
  have loop : ∀ (rest : List TriplePattern) (sig : Signature), rest ⊆ patterns →
      sig ≤ entitySignature store entity →
      rest.foldl (encodePattern dict index var) sig ≤ entitySignature store entity := by
    intro rest
    induction rest with
    | nil => intro sig _ lower; exact lower
    | cons pattern rest induction =>
      intro sig within lower
      rw [List.foldl_cons]
      rw [List.cons_subset] at within
      apply induction _ within.2
      have outgoing : (if IsVar index var pattern.subject then
          sig.encodeQueryEdge (predIdOf dict pattern.predicate)
            (neighborIdOf dict pattern.object) .out
          else sig) ≤ entitySignature store entity := by
        split
        · rename_i here
          rcases known.out pattern within.1 here with ⟨pred, neighbor, edge, agrees⟩
          exact encodeQueryEdge_le agrees lower (edgeBits_out_le describes edge)
        · exact lower
      rw [encodePattern]
      split
      · rename_i here
        rcases known.into pattern within.1 here with ⟨pred, neighbor, edge, agrees⟩
        exact encodeQueryEdge_le agrees outgoing (edgeBits_in_le describes edge)
      · exact outgoing
  exact loop patterns new (List.Subset.refl _) bot_le

/-- A filter that returns exactly the indexed entities above a signature. -/
def Filters (filter : Signature → Option (List UInt32)) (entries : List (UInt32 × Signature)) :
    Prop :=
  ∀ query, ∀ found ∈ filter query, ∀ id, id ∈ found ↔ id ∈ above query entries

/-- `impl SigFilter for DiskTree`: an error while scanning means no filtering. -/
def DiskTree.filter (heap : Kvstore.Heap) (tree : DiskTree) (query : Signature) :
    Option (List UInt32) :=
  match ((tree.candidates query).run heap).1 with
  | .ok answer => answer
  | .error _ => none

theorem filters_candidates (entries : List (UInt32 × Signature)) :
    Filters (VsTree.build entries).candidates entries := by
  intro query found some id
  rcases VsTree.build_spec entries with ⟨sound, permuted⟩
  rw [sound.candidates_eq] at some
  split at some
  · cases some
  · cases some
    exact (above_perm permuted).mem_iff

theorem filters_disk {entries : List (UInt32 × Signature)} {disk : DiskTree} {after : Kvstore.Heap}
    (answers : ∀ query, ∃ answer, (disk.candidates query).Returns after answer after ∧
      (answer = none ↔ entries = []) ∧ (answer.getD []).Perm (above query entries)) :
    Filters (disk.filter after) entries := by
  intro query found some id
  rcases answers query with ⟨answer, returns, -, permuted⟩
  rw [Kvstore.PageM.Returns] at returns
  rw [DiskTree.filter, returns] at some
  have answered : answer = Option.some found := some
  rw [answered] at permuted
  exact permuted.mem_iff

/-- Refinement keeps every entity with the known edges of its node. -/
theorem mem_refineCandidates {filter : Signature → Option (List UInt32)}
    (describes : store.Describes triples) (filters : Filters filter (vstreeEntries store))
    (known : HasKnownEdges dict index triples patterns var entity) {candidates : Candidates}
    (kept : ∀ list ∈ candidates var, entity ∈ list) :
    ∀ list ∈ refineCandidates dict index filter candidates patterns var, entity ∈ list := by
  rw [refineCandidates]
  split
  · rename_i subject
    rw [List.any_eq_true] at subject
    rcases subject with ⟨pattern, member, here⟩
    rcases known.out pattern member (of_decide_eq_true here) with ⟨pred, neighbor, edge, -⟩
    have entry : (entity, entitySignature store entity) ∈ vstreeEntries store :=
      List.mem_map_of_mem (mem_indexedEntities describes edge)
    dsimp only
    split
    · exact kept
    · split
      · exact kept
      · rename_i found answer
        have candidate : entity ∈ found := by
          rw [filters _ found answer, mem_above]
          exact ⟨_, entry, querySignature_le describes known⟩
        intro list refined
        split at refined
        · rename_i existing before
          cases refined
          rw [List.mem_filter]
          exact ⟨kept existing before, by simpa using candidate⟩
        · cases refined
          rw [mem_sortDedup]
          exact candidate
  · exact kept

end Sound

/-- The signature index prunes exactly. After any run of tree operations with
unique entity ids the in-memory tree returns the entities whose current signature
includes the query; a tree on disk over the same entries is built, wherever the
pages suffice as they do in a new file, and returns the same set; and either of
them, built over a store, keeps for every query node the entities that have the
known edges of the node. -/
theorem signature_filter_exact (ops : List VsTree.Op)
    (unique : VsTree.UniqueOps (fun _ => none) ops) (entries : List (UInt32 × Signature))
    (ids : (entries.map Prod.fst).Nodup)
    (current : ∀ id sig, (id, sig) ∈ entries ↔
      VsTree.applyOps (fun _ => none) ops id = some sig)
    (heap : Kvstore.Heap) (valid : heap.Valid)
    (room : DiskTree.HasRoom heap entries) :
    (DiskTree.newFile.Valid ∧ DiskTree.HasRoom DiskTree.newFile entries) ∧
    (∃ tree disk after, VsTree.new.runOps ops = some tree ∧
      (DiskTree.build entries).Returns heap disk after ∧
      ∀ query, ∃ answer, (disk.candidates query).Returns after answer after ∧
        (answer = none ↔ tree.candidates query = none) ∧
        (answer.getD []).Perm ((tree.candidates query).getD []) ∧
        ((tree.candidates query).getD []).Nodup ∧
        ∀ id, id ∈ (tree.candidates query).getD [] ↔
          ∃ sig, VsTree.applyOps (fun _ => none) ops id = some sig ∧ sig.contains query = true) ∧
    ∀ (store : TripleSource) (triples : Finset IdTriple), store.Describes triples →
      ∀ (dict : Dictionary) (index : Text → Nat) (patterns : List TriplePattern) (var : Nat)
        (entity : UInt32), HasKnownEdges dict index triples patterns var entity →
        (entitySignature store entity).contains (querySignature dict index patterns var) = true ∧
        ∃ disk after,
          (DiskTree.build (vstreeEntries store)).Returns DiskTree.newFile disk after ∧
          ∀ candidates : Candidates, (∀ list ∈ candidates var, entity ∈ list) →
            (∀ list ∈ refineCandidates dict index (buildVstree store).candidates candidates
              patterns var, entity ∈ list) ∧
            ∀ list ∈ refineCandidates dict index (disk.filter after) candidates patterns var,
              entity ∈ list := by
  refine ⟨⟨DiskTree.newFile_valid, DiskTree.newFile_hasRoom ids⟩, ?_, ?_⟩
  · rcases VsTree.reflects_new.runOps ops unique with ⟨tree, ran, reflects⟩
    rcases DiskTree.build_candidates valid room with ⟨disk, after, built, answers⟩
    refine ⟨tree, disk, after, ran, built, ?_⟩
    intro query
    rcases answers query with ⟨answer, returns, empty, found⟩
    rcases reflects.candidates query with ⟨nodup, exact, unfiltered⟩
    have vacant : entries = [] ↔ ∀ id, VsTree.applyOps (fun _ => none) ops id = none := by
      simp only [List.eq_nil_iff_forall_not_mem, Prod.forall, current,
        Option.eq_none_iff_forall_ne_some, ne_eq]
    have same : (above query entries).Perm ((tree.candidates query).getD []) := by
      apply (List.perm_ext_iff_of_nodup ?_ nodup).mpr
      · intro id
        rw [mem_above, exact]
        simp only [current]
      · exact ids.sublist (List.filter_sublist.map _)
    exact ⟨answer, returns, empty.trans (vacant.trans unfiltered.symm), found.trans same, nodup,
      exact⟩
  · intro store triples describes dict index patterns var entity known
    refine ⟨querySignature_le describes known, ?_⟩
    have distinct : ((vstreeEntries store).map Prod.fst).Nodup := by
      rw [keys_vstreeEntries]
      exact nodup_indexedEntities store
    rcases DiskTree.build_candidates DiskTree.newFile_valid (DiskTree.newFile_hasRoom distinct)
      with ⟨disk, after, built, answers⟩
    refine ⟨disk, after, built, ?_⟩
    intro candidates kept
    refine ⟨mem_refineCandidates describes (filters_candidates _) known kept,
      mem_refineCandidates describes ?_ known kept⟩
    exact filters_disk answers

/-- One entity inserted, and the pattern `?x <p> ?y` over a store of one triple. -/
theorem signature_filter_exact_single :
    let sig := new.encodeEdge 0 1 .out
    let iri : Text → Term := Term.iri
    let pattern : TriplePattern := ⟨.var ['x'], .term (iri ['p']), .var ['y']⟩
    ∃ grown id, Dictionary.empty.encodeTriple ⟨iri ['s'], iri ['p'], iri ['o']⟩ =
        some (grown, id) ∧
      (∃ tree, VsTree.new.runOps [.insert 7 sig] = some tree) ∧
      (entitySignature (TripleStore.new.insert id).1.source id.sub).contains
        (querySignature grown (fun name => if name = ['x'] then 0 else 1) [pattern] 0) = true := by
  intro sig iri pattern
  refine ⟨_, ⟨0, 0, 1⟩, rfl, ?_⟩
  have describes := (refines_new.insert ⟨0, 0, 1⟩).1.source_describes
  have filter := signature_filter_exact [.insert 7 sig] (by simp [VsTree.UniqueOps, VsTree.Op.Unique])
    [(7, sig)] (by simp)
    (by simp [VsTree.applyOps, VsTree.Op.apply, Function.update_apply, eq_comm])
    DiskTree.newFile DiskTree.newFile_valid (DiskTree.newFile_hasRoom (by simp))
  rcases filter with ⟨-, ⟨tree, -, -, ran, -⟩, sound⟩
  refine ⟨⟨tree, ran⟩, (sound _ _ describes _ _ _ _ _ ?_).1⟩
  constructor
  · intro known member _
    rw [List.mem_singleton.mp member]
    refine ⟨0, 1, by simp, fun _ found => (Option.some.inj found).symm, ?_⟩
    intro _ found
    cases found
  · intro known member into
    rw [List.mem_singleton.mp member] at into
    cases into

end GStore.Signature
