import GStore.Db.Session

/-! # What a database holds

The graphs of a session as sets of id triples, the same graphs as sets of terms,
and what each mutation does to them. -/

namespace GStore.Db

open Dict Reason Store

/-! ## Stores as sets -/

def stored (store : TripleStore) : Set IdTriple :=
  {triple | store.exists triple.sub triple.pred triple.obj = true}

/-- The indexes of the store are those of one set. -/
def Indexed (store : TripleStore) : Prop := ∃ triples, Refines store triples

theorem Indexed.refines {store : TripleStore} (indexed : Indexed store) :
    ∃ triples : Finset IdTriple, Refines store triples ∧ stored store = triples := by
  rcases indexed with ⟨triples, refines⟩
  exact ⟨triples, refines, Set.ext fun triple => refines.exists_iff _ _ _⟩

theorem indexed_new : Indexed TripleStore.new := ⟨∅, refines_new⟩

theorem stored_eq {store : TripleStore} {triples : Finset IdTriple}
    (refines : Refines store triples) : stored store = triples :=
  Set.ext fun _ => refines.exists_iff _ _ _

@[simp] theorem stored_new : stored TripleStore.new = ∅ := by
  rw [stored_eq refines_new, Finset.coe_empty]

theorem Indexed.insert {store : TripleStore} (indexed : Indexed store) (triple : IdTriple) :
    Indexed (store.insert triple).1 ∧
      stored (store.insert triple).1 = Insert.insert triple (stored store) ∧
      ((store.insert triple).2 = true ↔ triple ∉ stored store) := by
  rcases indexed with ⟨triples, refines⟩
  rcases refines.insert triple with ⟨grown, flag⟩
  refine ⟨⟨_, grown⟩, ?_, ?_⟩
  · rw [stored_eq grown, stored_eq refines, Finset.coe_union, Finset.coe_singleton,
      Set.singleton_union]
  · rw [flag, stored_eq refines]
    simp

theorem Indexed.remove {store : TripleStore} (indexed : Indexed store) (triple : IdTriple) :
    Indexed (store.remove triple).1 ∧
      stored (store.remove triple).1 = stored store \ {triple} ∧
      ((store.remove triple).2 = true ↔ triple ∈ stored store) := by
  rcases indexed with ⟨triples, refines⟩
  rcases refines.remove triple with ⟨shrunk, flag⟩
  refine ⟨⟨_, shrunk⟩, ?_, ?_⟩
  · rw [stored_eq shrunk, stored_eq refines, Finset.coe_erase]
  · rw [flag, stored_eq refines]
    simp

theorem Indexed.mem_iterAll {store : TripleStore} (indexed : Indexed store) (triple : IdTriple) :
    triple ∈ store.iterAll ↔ triple ∈ stored store := by
  rcases indexed with ⟨triples, refines⟩
  rw [refines.iterAll.mem_iff, stored_eq refines, Finset.mem_coe]

theorem Indexed.count_pos {store : TripleStore} (indexed : Indexed store) :
    0 < store.tripleCount ↔ (stored store).Nonempty := by
  rcases indexed with ⟨triples, refines⟩
  rw [refines.count, stored_eq refines, Finset.card_pos, Finset.coe_nonempty]

/-! ## Strings of ids -/

/-- A triple written in the strings of its terms. -/
structure TermTriple where
  sub : Text
  pred : Text
  obj : Text
deriving DecidableEq

def render (dict : Dictionary) (triple : IdTriple) : Option TermTriple :=
  match dict.idToString triple.sub, dict.predicateToString triple.pred,
    dict.idToString triple.obj with
  | some sub, some pred, some obj => some { sub, pred, obj }
  | _, _, _ => none

theorem render_congr {dict other : Dictionary} {triple : IdTriple}
    (agrees : dict.Agrees other triple) : render other triple = render dict triple := by
  have strings : ∀ {id : UInt32}, other.slot id = dict.slot id →
      other.idToString id = dict.idToString id := by
    intro id same
    rw [Dictionary.idToString_eq, Dictionary.idToString_eq, same]
  rw [render, render, strings agrees.sub, strings agrees.obj, Dictionary.predicateToString,
    Dictionary.predicateToString, agrees.pred]

/-! ## Graphs of a session -/

/-- An RDF dataset, in the strings of its terms. -/
@[ext] structure Dataset where
  default : Set TermTriple
  /-- The graphs that `GRAPH ?g` ranges over, the empty ones included. -/
  graphs : Set Text
  named : Text → Set TermTriple

namespace Session

/-- The triples of a graph, by its id (`none` = default). -/
def triples (s : Session) : Option UInt32 → Set IdTriple
  | none => stored s.store
  | some gid => {triple | ∃ held, s.named[gid]? = some held ∧ triple ∈ stored held}

def graphs (s : Session) : Set UInt32 := {gid | ∃ held, s.named[gid]? = some held}

def facts (s : Session) (graph : Option UInt32) : Set TermTriple :=
  {terms | ∃ triple ∈ s.triples graph, render s.dict triple = some terms}

def dataset (s : Session) : Dataset where
  default := s.facts none
  graphs := {name | ∃ gid ∈ s.graphs, s.dict.idToString gid = some name}
  named name := {terms | ∃ gid, s.dict.idToString gid = some name ∧ terms ∈ s.facts (some gid)}

/-- The dictionary and the indexes are in order. -/
structure Valid (s : Session) : Prop where
  dict : s.dict.Valid
  store : Indexed s.store
  named : ∀ (gid : UInt32) (held : TripleStore), s.named[gid]? = some held → Indexed held

/-- Every id in a graph, and of a graph, is that of a string. -/
structure Known (s : Session) : Prop where
  triple : ∀ graph, ∀ triple ∈ s.triples graph, s.dict.Live triple
  graph : ∀ gid ∈ s.graphs, (s.dict.slot gid).isSome

theorem triples_subset_graphs {s : Session} {gid : UInt32} {triple : IdTriple}
    (member : triple ∈ s.triples (some gid)) : gid ∈ s.graphs := by
  rcases member with ⟨held, found, -⟩
  exact ⟨held, found⟩

theorem triples_congr {s after : Session} (store : after.store = s.store)
    (named : after.named = s.named) : after.triples = s.triples := by
  funext graph
  cases graph with
  | none => rw [triples, triples, store]
  | some gid => rw [triples, triples, named]

theorem graphs_congr {s after : Session} (named : after.named = s.named) :
    after.graphs = s.graphs := by
  rw [graphs, graphs, named]

/-- The same ids with the same strings are the same dataset. -/
theorem dataset_congr {s after : Session} (triples : after.triples = s.triples)
    (graphs : after.graphs = s.graphs)
    (agrees : ∀ graph, ∀ triple ∈ s.triples graph, s.dict.Agrees after.dict triple)
    (names : ∀ gid ∈ s.graphs, after.dict.slot gid = s.dict.slot gid) :
    after.dataset = s.dataset := by
  have facts : after.facts = s.facts := by
    funext graph
    ext terms
    simp only [Session.facts, triples, Set.mem_ofPred_eq]
    apply exists_congr
    intro triple
    apply and_congr_right
    intro member
    rw [render_congr (agrees graph triple member)]
  have named : ∀ gid ∈ s.graphs, after.dict.idToString gid = s.dict.idToString gid := by
    intro gid member
    rw [Dictionary.idToString_eq, Dictionary.idToString_eq, names gid member]
  apply Dataset.ext
  · exact congrFun facts none
  · ext name
    simp only [dataset, graphs, Set.mem_ofPred_eq]
    apply exists_congr
    intro gid
    apply and_congr_right
    intro member
    rw [named gid member]
  · funext name
    ext terms
    simp only [dataset, facts, Set.mem_ofPred_eq]
    apply exists_congr
    intro gid
    apply and_congr_left
    rintro ⟨triple, member, -⟩
    rw [named gid (triples_subset_graphs member)]

/-- New triples and new graphs have strings too. -/
theorem Known.change {s after : Session} (known : s.Known) (valid : s.dict.Valid)
    (afterValid : after.dict.Valid) (grows : s.dict.Extends after.dict)
    (triples : ∀ graph, ∀ triple ∈ after.triples graph,
      triple ∈ s.triples graph ∨ after.dict.Live triple)
    (graphs : ∀ gid ∈ after.graphs, gid ∈ s.graphs ∨ (after.dict.slot gid).isSome) :
    after.Known := by
  constructor
  · intro graph triple member
    rcases triples graph triple member with old | new
    · have live := known.triple graph triple old
      exact (grows.agrees valid afterValid live).live live
    · exact new
  · intro gid member
    rcases graphs gid member with old | new
    · have live := known.graph gid old
      rwa [grows.slot valid afterValid live]
    · exact new

@[simp] theorem recordRedo_triples {s : Session} {op : RedoOp} {graph : Option UInt32}
    {id : IdTriple} : (s.recordRedo op graph id).triples = s.triples :=
  triples_congr recordRedo_store recordRedo_named

@[simp] theorem recordRedo_graphs {s : Session} {op : RedoOp} {graph : Option UInt32}
    {id : IdTriple} : (s.recordRedo op graph id).graphs = s.graphs :=
  graphs_congr recordRedo_named

/-! ## Removing graphs -/

section Clear

variable {s : Session} {named : NamedGraphs} (cleared : UInt32 → Prop) [DecidablePred cleared]
  (left : ∀ gid, named[gid]? = if cleared gid then none else s.named[gid]?)

include left

theorem graphs_cleared : Session.graphs { s with named } = {gid | gid ∈ s.graphs ∧ ¬ cleared gid} := by
  ext gid
  simp only [graphs, Set.mem_ofPred_eq, left]
  by_cases here : cleared gid
  · simp [here]
  · simp [here]

theorem triples_cleared : Session.triples { s with named } =
    fun graph => {triple | triple ∈ s.triples graph ∧ ∀ gid, graph = some gid → ¬ cleared gid} := by
  funext graph
  cases graph with
  | none => simp [triples]
  | some gid =>
    ext triple
    simp only [triples, Set.mem_ofPred_eq, left]
    by_cases here : cleared gid
    · simp [here]
    · simp [here]

end Clear

theorem getElem?_erase_named (named : NamedGraphs) (gid other : UInt32) :
    (named.erase gid)[other]? = if other = gid then none else named[other]? := by
  rw [Std.TreeMap.getElem?_erase]
  by_cases same : other = gid
  · simp [same]
  · simp [same, Ne.symm same]

/-! ## Replacing a graph -/

/-- The store of a graph; a graph that is not there is empty. -/
def graphStore (s : Session) : Option UInt32 → TripleStore
  | none => s.store
  | some gid => s.named.getD gid TripleStore.new

def setGraph (s : Session) (graph : Option UInt32) (store : TripleStore) : Session :=
  match graph with
  | none => { s with store }
  | some gid => { s with named := s.named.insert gid store }

section Replace

variable {s : Session} {store : TripleStore}

theorem stored_graphStore (s : Session) (graph : Option UInt32) :
    stored (s.graphStore graph) = s.triples graph := by
  cases graph with
  | none => rfl
  | some gid =>
    rw [graphStore, Std.TreeMap.getD_eq_getD_getElem?]
    cases found : s.named[gid]? with
    | none => simp [triples, found]
    | some held => simp [triples, found]

theorem Valid.graphStore (valid : s.Valid) (graph : Option UInt32) :
    Indexed (s.graphStore graph) := by
  cases graph with
  | none => exact valid.store
  | some gid =>
    rw [Session.graphStore, Std.TreeMap.getD_eq_getD_getElem?]
    cases found : s.named[gid]? with
    | none => exact indexed_new
    | some held => exact valid.named gid held found

theorem getElem?_insert_named (named : NamedGraphs) (gid other : UInt32) (store : TripleStore) :
    (named.insert gid store)[other]? = if other = gid then some store else named[other]? := by
  rw [Std.TreeMap.getElem?_insert]
  by_cases same : other = gid
  · simp [same]
  · simp [same, Ne.symm same]

theorem triples_setGraph (s : Session) (graph : Option UInt32) (store : TripleStore) :
    (s.setGraph graph store).triples = Function.update s.triples graph (stored store) := by
  funext other
  cases graph with
  | none =>
    cases other with
    | none => simp [setGraph, triples]
    | some gid =>
      rw [Function.update_of_ne (by simp)]
      rfl
  | some gid =>
    cases other with
    | none =>
      rw [Function.update_of_ne (by simp)]
      rfl
    | some otherGid =>
      by_cases same : otherGid = gid
      · subst same
        simp [setGraph, triples]
      · rw [Function.update_of_ne (by simpa using same)]
        simp [setGraph, triples, getElem?_insert_named, same]

theorem graphs_setGraph (s : Session) (graph : Option UInt32) (store : TripleStore) :
    (s.setGraph graph store).graphs = s.graphs ∪ {gid | graph = some gid} := by
  ext other
  cases graph with
  | none => simp [setGraph, graphs]
  | some gid =>
    simp only [setGraph, graphs, getElem?_insert_named, Set.mem_union, Set.mem_ofPred_eq,
      Option.some.injEq]
    by_cases same : other = gid
    · subst same
      simp
    · simp [same, Ne.symm same]

theorem Valid.setGraph (valid : s.Valid) (graph : Option UInt32) (indexed : Indexed store) :
    (s.setGraph graph store).Valid := by
  cases graph with
  | none => exact ⟨valid.dict, indexed, valid.named⟩
  | some gid =>
    refine ⟨valid.dict, valid.store, ?_⟩
    intro other held found
    simp only [Session.setGraph, getElem?_insert_named] at found
    split at found
    · cases found
      exact indexed
    · exact valid.named other held found

end Replace

end Session

end GStore.Db
