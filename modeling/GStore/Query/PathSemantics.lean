import GStore.Query.Path
import GStore.Store.TripleSource

/-! # What property paths mean

A path denotes a relation on nodes. Following a path from a node gives the ends of the relation,
going against it gives the starts, and the worklist of a closure runs empty on any graph. A
negated set is the exception: which of its members are banned depends on the direction in which
it is followed. -/

namespace GStore.Query

open Dict Store

/-! ## Relations -/

section Relation

variable (dict : Dictionary) (triples : Finset IdTriple)

/-- The ids of the members of a negated set in one direction. -/
def bannedIds (members : List (Text × Bool)) (inverse : Bool) : List UInt32 :=
  (members.filter fun member => member.2 == inverse).filterMap fun member =>
    pathPredId dict member.1

/-- Whether a negated set has members in one direction. -/
def hasMembers (members : List (Text × Bool)) (inverse : Bool) : Prop :=
  ∃ member ∈ members, member.2 = inverse

/-- An edge from one node to another whose predicate is not among the given ones. -/
def EdgeOutside (banned : List UInt32) (start stop : UInt32) : Prop :=
  ∃ pred, pred ∉ banned ∧ (⟨start, pred, stop⟩ : IdTriple) ∈ triples

/-- A negated set steps forward if it has forward members or none, and backward if it has
inverse members. -/
def negatedRelation (members : List (Text × Bool)) (start stop : UInt32) : Prop :=
  ((hasMembers members false ∨ members = []) ∧
    EdgeOutside triples (bannedIds dict members false) start stop) ∨
  (hasMembers members true ∧ EdgeOutside triples (bannedIds dict members true) stop start)

/-- The relation that a path denotes. -/
def PathExpr.relation : PathExpr → UInt32 → UInt32 → Prop
  | .pred iri => fun start stop =>
    ∃ pred, pathPredId dict iri = some pred ∧ (⟨start, pred, stop⟩ : IdTriple) ∈ triples
  | .inverse inner => Function.swap inner.relation
  | .seq first second => Relation.Comp first.relation second.relation
  | .alt left right => fun start stop => left.relation start stop ∨ right.relation start stop
  | .zeroOrOne inner => Relation.ReflGen inner.relation
  | .zeroOrMore inner => Relation.ReflTransGen inner.relation
  | .oneOrMore inner => Relation.TransGen inner.relation
  | .negatedSet members => negatedRelation dict triples members

/-- A path without negated sets. -/
def PathExpr.Plain : PathExpr → Prop
  | .pred _ => True
  | .inverse inner | .zeroOrOne inner | .zeroOrMore inner | .oneOrMore inner => inner.Plain
  | .seq first second => first.Plain ∧ second.Plain
  | .alt left right => left.Plain ∧ right.Plain
  | .negatedSet _ => False

/-- A relation, or its converse against the direction. -/
def oriented (relation : UInt32 → UInt32 → Prop) (reverse : Bool) : UInt32 → UInt32 → Prop :=
  if reverse then Function.swap relation else relation

end Relation

section Oriented

variable {relation : UInt32 → UInt32 → Prop} {reverse : Bool} {start stop : UInt32}

theorem oriented_swap : oriented (Function.swap relation) reverse = oriented relation (!reverse) := by
  cases reverse <;> rfl

theorem reflGen_oriented : Relation.ReflGen (oriented relation reverse) start stop ↔
    oriented (Relation.ReflGen relation) reverse start stop := by
  cases reverse with
  | false => rfl
  | true =>
    rw [Relation.reflGen_iff]
    change _ ↔ Relation.ReflGen relation stop start
    rw [Relation.reflGen_iff, eq_comm]
    rfl

theorem reflTransGen_oriented : Relation.ReflTransGen (oriented relation reverse) start stop ↔
    oriented (Relation.ReflTransGen relation) reverse start stop := by
  cases reverse with
  | false => rfl
  | true => exact Relation.reflTransGen_swap

theorem transGen_oriented : Relation.TransGen (oriented relation reverse) start stop ↔
    oriented (Relation.TransGen relation) reverse start stop := by
  cases reverse with
  | false => rfl
  | true => exact Relation.transGen_swap

end Oriented

/-! ## Closures -/

section Closure

variable {next : UInt32 → List UInt32} {visited frontier : List UInt32} {fuel : Nat}

/-- What a step of the worklist adds. -/
def freshIds (next : UInt32 → List UInt32) (visited : List UInt32) (node : UInt32) : List UInt32 :=
  ((next node).filter fun id => !visited.contains id).dedup

theorem mem_freshIds {node id : UInt32} :
    id ∈ freshIds next visited node ↔ id ∈ next node ∧ id ∉ visited := by
  simp [freshIds]

theorem nodup_append_fresh (nodup : visited.Nodup) (node : UInt32) :
    (visited ++ freshIds next visited node).Nodup :=
  nodup.append (List.nodup_dedup _) fun _ old new => (mem_freshIds.mp new).2 old

/-- Where the nodes that are visited leave fuel for all others. -/
def Enough (fuel : Nat) (frontier visited : List UInt32) : Prop :=
  frontier.length + 2 ^ 32 ≤ fuel + visited.length

theorem Enough.fresh {node : UInt32} (enough : Enough (fuel + 1) (node :: frontier) visited) :
    Enough fuel ((freshIds next visited node).reverse ++ frontier)
      (visited ++ freshIds next visited node) := by
  rw [Enough] at enough ⊢
  simp only [List.length_cons, List.length_append, List.length_reverse] at enough ⊢
  omega

theorem Enough.nil (enough : Enough 0 frontier visited) (nodup : visited.Nodup) : frontier = [] := by
  have bound := length_le_of_nodup_words nodup
  have size : UInt32.size = 4294967296 := rfl
  rw [Enough] at enough
  exact List.eq_nil_of_length_eq_zero (by omega)

/-- What the closure of a worklist holds. -/
structure Closes (next : UInt32 → List UInt32) (frontier visited result : List UInt32) : Prop where
  kept : ∀ node ∈ visited, node ∈ result
  followed : ∀ node ∈ frontier, ∀ id ∈ next node, id ∈ result
  closed : ∀ node ∈ result, node ∉ visited → ∀ id ∈ next node, id ∈ result
  reached : ∀ node ∈ result, node ∈ visited ∨
    ∃ start ∈ frontier, Relation.TransGen (fun here there => there ∈ next here) start node

theorem closes_nil (visited : List UInt32) : Closes next [] visited visited where
  kept _ member := member
  followed _ member := by cases member
  closed _ member fresh := absurd member fresh
  reached _ member := .inl member

theorem Closes.of_fresh {node : UInt32} {result : List UInt32}
    (closes : Closes next ((freshIds next visited node).reverse ++ frontier)
      (visited ++ freshIds next visited node) result) :
    Closes next (node :: frontier) visited result where
  kept other member := closes.kept other (List.mem_append_left _ member)
  followed := by
    intro other member id step
    rcases List.mem_cons.mp member with same | later
    · by_cases old : id ∈ visited
      · exact closes.kept id (List.mem_append_left _ old)
      · rw [same] at step
        exact closes.kept id (List.mem_append_right _ (mem_freshIds.mpr ⟨step, old⟩))
    · exact closes.followed other (List.mem_append_right _ later) id step
  closed := by
    intro other member unseen id step
    by_cases fresh : other ∈ freshIds next visited node
    · exact closes.followed other
        (List.mem_append_left _ (List.mem_reverse.mpr fresh)) id step
    · exact closes.closed other member (fun seen =>
        (List.mem_append.mp seen).elim unseen fresh) id step
  reached := by
    intro other member
    have here : ∀ {id}, id ∈ freshIds next visited node →
        Relation.TransGen (fun here there => there ∈ next here) node id :=
      fun fresh => .single (mem_freshIds.mp fresh).1
    rcases closes.reached other member with seen | ⟨start, waiting, reaches⟩
    · rcases List.mem_append.mp seen with old | fresh
      · exact .inl old
      · exact .inr ⟨node, List.mem_cons_self, here fresh⟩
    · rcases List.mem_append.mp waiting with fresh | old
      · exact .inr ⟨node, List.mem_cons_self,
          (here (List.mem_reverse.mp fresh)).trans reaches⟩
      · exact .inr ⟨start, List.mem_cons_of_mem _ old, reaches⟩

theorem closes_pathClosure (nodup : visited.Nodup) (enough : Enough fuel frontier visited) :
    Closes next frontier visited (pathClosure next fuel frontier visited visited) := by
  induction fuel generalizing frontier visited with
  | zero =>
    rw [enough.nil nodup, pathClosure]
    exact closes_nil visited
  | succ fuel induction =>
    cases frontier with
    | nil => exact closes_nil visited
    | cons node frontier =>
      rw [pathClosure]
      exact (induction (nodup_append_fresh nodup node) enough.fresh).of_fresh

/-- The worklist runs empty: more fuel changes nothing. -/
theorem pathClosure_add (nodup : visited.Nodup) (enough : Enough fuel frontier visited) (more : Nat) :
    pathClosure next (fuel + more) frontier visited visited =
      pathClosure next fuel frontier visited visited := by
  induction fuel generalizing frontier visited with
  | zero =>
    rw [enough.nil nodup]
    cases more <;> rfl
  | succ fuel induction =>
    rw [Nat.add_right_comm]
    cases frontier with
    | nil => rfl
    | cons node frontier =>
      rw [pathClosure, pathClosure]
      exact induction (nodup_append_fresh nodup node) enough.fresh

theorem mem_closure_refl (start node : UInt32) :
    node ∈ pathClosure next (2 ^ 32 + 1) [start] [start] [start] ↔
      Relation.ReflTransGen (fun here there => there ∈ next here) start node := by
  have closes : Closes next [start] [start] (pathClosure next (2 ^ 32 + 1) [start] [start] [start]) :=
    closes_pathClosure (List.nodup_singleton start) (by rw [Enough]; simp)
  constructor
  · intro member
    rcases closes.reached node member with same | ⟨first, waiting, reaches⟩
    · rw [List.mem_singleton.mp same]
    · rw [List.mem_singleton.mp waiting] at reaches
      exact reaches.to_reflTransGen
  · intro reaches
    induction reaches with
    | refl => exact closes.kept start (List.mem_singleton_self start)
    | @tail here there earlier step induction =>
      by_cases first : here = start
      · rw [first] at step
        exact closes.followed start (List.mem_singleton_self start) there step
      · exact closes.closed here induction (by simpa using first) there step

theorem mem_closure_trans (start node : UInt32) :
    node ∈ pathClosure next (2 ^ 32 + 1) [start] [] [] ↔
      Relation.TransGen (fun here there => there ∈ next here) start node := by
  have closes : Closes next [start] [] (pathClosure next (2 ^ 32 + 1) [start] [] []) :=
    closes_pathClosure List.nodup_nil (by rw [Enough]; simp)
  constructor
  · intro member
    rcases closes.reached node member with seen | ⟨first, waiting, reaches⟩
    · cases seen
    · rw [List.mem_singleton.mp waiting] at reaches
      exact reaches
  · intro reaches
    induction reaches with
    | single step => exact closes.followed start (List.mem_singleton_self start) _ step
    | tail earlier step induction =>
      exact closes.closed _ induction List.not_mem_nil _ step

end Closure

/-! ## Following a path -/

section Reach

variable {dict : Dictionary} {store : TripleStore} {triples : Finset IdTriple}

/-- A path without negated sets reaches the ends of its relation forward, and the starts
backward. -/
theorem mem_pathReach (refines : Refines store triples) {path : PathExpr} (plain : path.Plain)
    (start stop : UInt32) (reverse : Bool) : stop ∈ pathReach dict store path start reverse ↔
      oriented (path.relation dict triples) reverse start stop := by
  have source := refines.source_describes
  induction path generalizing start stop reverse with
  | pred iri =>
    have forward : ∀ pred, stop ∈ store.oBySp start pred ↔ _ :=
      fun pred => (source.oBySp start pred).mem_iff stop
    have backward : ∀ pred, stop ∈ store.sByPo pred start ↔ _ :=
      fun pred => (source.sByPo pred start).mem_iff stop
    rw [pathReach]
    cases reverse with
    | false =>
      change _ ↔ ∃ pred, pathPredId dict iri = some pred ∧ _
      cases known : pathPredId dict iri with
      | none => simp
      | some pred => simp [forward]
    | true =>
      change _ ↔ ∃ pred, pathPredId dict iri = some pred ∧ _
      cases known : pathPredId dict iri with
      | none => simp
      | some pred => simp [backward]
  | inverse inner induction =>
    rw [pathReach, PathExpr.relation, oriented_swap]
    exact induction plain start stop (!reverse)
  | seq first second firstInduction secondInduction =>
    cases reverse with
    | false =>
      simp only [pathReach, Bool.false_eq_true, if_false, List.mem_dedup, List.mem_flatMap,
        firstInduction plain.1, secondInduction plain.2]
      rfl
    | true =>
      simp only [pathReach, if_true, List.mem_dedup, List.mem_flatMap,
        firstInduction plain.1, secondInduction plain.2]
      exact exists_congr fun middle => and_comm
  | alt left right leftInduction rightInduction =>
    simp only [pathReach, List.mem_dedup, List.mem_append, leftInduction plain.1,
      rightInduction plain.2]
    cases reverse <;> rfl
  | zeroOrOne inner induction =>
    simp only [pathReach, List.mem_dedup, List.mem_cons, induction plain]
    rw [PathExpr.relation, ← reflGen_oriented, Relation.reflGen_iff]
  | zeroOrMore inner induction =>
    rw [pathReach, mem_closure_refl, PathExpr.relation, ← reflTransGen_oriented]
    simp only [induction plain]
  | oneOrMore inner induction =>
    rw [pathReach, mem_closure_trans, PathExpr.relation, ← transGen_oriented]
    simp only [induction plain]
  | negatedSet members => exact plain.elim

/-- A node that is the subject or the object of a triple. -/
def Occurs (triples : Finset IdTriple) (node : UInt32) : Prop :=
  ∃ triple ∈ triples, triple.sub = node ∨ triple.obj = node

theorem mem_nodes (refines : Refines store triples) (node : UInt32) :
    node ∈ SortedSlice.sortDedup (store.subjectKeys ++ store.objectKeys) ↔ Occurs triples node := by
  have source := refines.source_describes
  have subjects : node ∈ store.subjectKeys ↔ _ := source.subjectKeys.mem_iff node
  have objects : node ∈ store.objectKeys ↔ _ := source.objectKeys.mem_iff node
  rw [SortedSlice.mem_sortDedup, List.mem_append, subjects, objects]
  constructor
  · rintro (⟨pred, obj, member⟩ | ⟨sub, pred, member⟩)
    · exact ⟨_, member, .inl rfl⟩
    · exact ⟨_, member, .inr rfl⟩
  · rintro ⟨triple, member, same | same⟩
    · exact .inl ⟨triple.pred, triple.obj, same ▸ member⟩
    · exact .inr ⟨triple.sub, triple.pred, same ▸ member⟩

/-- The pairs of a path, whichever ends are known; without a known end the first one is a node
of the store. -/
theorem mem_pathPairs (refines : Refines store triples) {path : PathExpr} (plain : path.Plain)
    (subject object : Option UInt32) (start stop : UInt32) :
    (start, stop) ∈ pathPairs dict store path subject object ↔
      subject.getD start = start ∧ object.getD stop = stop ∧
        (subject = none → object = none → Occurs triples start) ∧
        path.relation dict triples start stop := by
  have forward : ∀ {start stop}, stop ∈ pathReach dict store path start false ↔ _ :=
    fun {start stop} => mem_pathReach refines plain start stop false
  have backward : ∀ {start stop}, start ∈ pathReach dict store path stop true ↔ _ :=
    fun {start stop} => mem_pathReach refines plain stop start true
  rw [oriented, if_neg Bool.false_ne_true] at forward
  rw [oriented, if_pos rfl] at backward
  cases subject with
  | some known =>
    simp only [pathPairs, List.mem_map, List.mem_filter, Prod.mk.injEq, Option.getD_some,
      reduceCtorEq, false_implies, true_and]
    constructor
    · rintro ⟨other, ⟨reached, agrees⟩, rfl, rfl⟩
      refine ⟨rfl, ?_, forward.mp reached⟩
      cases object with
      | none => rfl
      | some last => simpa using agrees
    · rintro ⟨rfl, agrees, related⟩
      refine ⟨stop, ⟨forward.mpr related, ?_⟩, rfl, rfl⟩
      cases object with
      | none => rfl
      | some last => simpa using agrees
  | none =>
    cases object with
    | some known =>
      simp only [pathPairs, List.mem_map, Prod.mk.injEq, Option.getD_some, Option.getD_none,
        reduceCtorEq, false_implies, implies_true, true_and]
      constructor
      · rintro ⟨other, reached, rfl, rfl⟩
        exact ⟨rfl, backward.mp reached⟩
      · rintro ⟨rfl, related⟩
        exact ⟨start, backward.mpr related, rfl, rfl⟩
    | none =>
      simp only [pathPairs, List.mem_flatMap, List.mem_map, Prod.mk.injEq, Option.getD_none,
        true_and, true_implies, mem_nodes refines]
      constructor
      · rintro ⟨first, occurs, last, reached, rfl, rfl⟩
        exact ⟨occurs, forward.mp reached⟩
      · rintro ⟨occurs, related⟩
        exact ⟨start, occurs, stop, forward.mpr related, rfl, rfl⟩

/-- Paths without negated sets mean their relation: from either end, at the fuel that the
closure has or with more of it, and for every choice of known ends. -/
theorem paths_relational (dict : Dictionary) (ops : List StoreOp) (path : PathExpr)
    (plain : path.Plain) :
    (∀ start stop, stop ∈ pathReach dict (runOps TripleStore.new ops).1 path start false ↔
      path.relation dict (applyOps ∅ ops).1 start stop) ∧
    (∀ start stop, start ∈ pathReach dict (runOps TripleStore.new ops).1 path stop true ↔
      path.relation dict (applyOps ∅ ops).1 start stop) ∧
    (∀ start reverse more,
      let next := fun node => pathReach dict (runOps TripleStore.new ops).1 path node reverse
      pathClosure next (2 ^ 32 + 1 + more) [start] [start] [start] =
          pathClosure next (2 ^ 32 + 1) [start] [start] [start] ∧
        pathClosure next (2 ^ 32 + 1 + more) [start] [] [] =
          pathClosure next (2 ^ 32 + 1) [start] [] []) ∧
    ∀ subject object start stop,
      (start, stop) ∈ pathPairs dict (runOps TripleStore.new ops).1 path subject object ↔
        subject.getD start = start ∧ object.getD stop = stop ∧
          (subject = none → object = none → Occurs (applyOps ∅ ops).1 start) ∧
          path.relation dict (applyOps ∅ ops).1 start stop := by
  have refines := (Refines.runOps ops refines_new).1
  refine ⟨fun start stop => ?_, fun start stop => ?_, fun start reverse more => ⟨?_, ?_⟩, ?_⟩
  · exact mem_pathReach refines plain start stop false
  · exact mem_pathReach refines plain stop start true
  · exact pathClosure_add (List.nodup_singleton start) (by rw [Enough]; simp) more
  · exact pathClosure_add List.nodup_nil (by rw [Enough]; simp) more
  · exact mem_pathPairs refines plain

/-- A closure against a cycle. -/
theorem paths_relational_cycle :
    0 ∈ pathReach .empty (runOps TripleStore.new [.insert ⟨0, 0, 1⟩, .insert ⟨1, 0, 0⟩]).1
        (.zeroOrMore (.inverse (.pred "p".toList))) 0 false ↔
      PathExpr.relation .empty (applyOps ∅ [.insert ⟨0, 0, 1⟩, .insert ⟨1, 0, 0⟩]).1
        (.zeroOrMore (.inverse (.pred "p".toList))) 0 0 :=
  (paths_relational .empty _ (.zeroOrMore (.inverse (.pred "p".toList))) trivial).1 0 0

/-! ## Negated sets -/

/-- Followed from either end, a negated set crosses the edges in the direction of travel whose
predicate is no member of that direction. -/
theorem mem_pathReach_negatedSet (refines : Refines store triples) (members : List (Text × Bool))
    (start stop : UInt32) (reverse : Bool) :
    stop ∈ pathReach dict store (.negatedSet members) start reverse ↔
      oriented (EdgeOutside triples (bannedIds dict members reverse)) reverse start stop := by
  have source := refines.source_describes
  have forward : ∀ step, step ∈ store.poByS start ↔ _ := (source.poByS start).mem_iff
  have backward : ∀ step, step ∈ store.psByO start ↔ _ := (source.psByO start).mem_iff
  have each : ∀ steps : List (UInt32 × UInt32), stop ∈ ((steps.filter fun step =>
      !(bannedIds dict members reverse).contains step.1).map Prod.snd).dedup ↔
        ∃ pred, pred ∉ bannedIds dict members reverse ∧ (pred, stop) ∈ steps := by
    intro steps
    simp [and_comm]
  rw [pathReach]
  refine (each _).trans ?_
  cases reverse with
  | false =>
    simp only [Bool.false_eq_true, if_false, forward]
    rfl
  | true =>
    simp only [if_true, backward]
    rfl

/-- The edges between two nodes on which a negated set means the same from either end. -/
def Evenhanded (dict : Dictionary) (triples : Finset IdTriple) (members : List (Text × Bool))
    (start stop : UInt32) : Prop :=
  (EdgeOutside triples (bannedIds dict members false) start stop ↔
    EdgeOutside triples (bannedIds dict members true) start stop) ∧
  (hasMembers members true →
    (EdgeOutside triples (bannedIds dict members true) stop start →
      EdgeOutside triples (bannedIds dict members false) start stop) ∧
    (¬ hasMembers members false →
      EdgeOutside triples (bannedIds dict members false) start stop →
        EdgeOutside triples (bannedIds dict members true) stop start))

theorem hasMembers_of_ne_nil {members : List (Text × Bool)} (some : members ≠ []) :
    hasMembers members false ∨ hasMembers members true := by
  cases members with
  | nil => exact absurd rfl some
  | cons member rest =>
    cases direction : member.2 with
    | false => exact .inl ⟨member, List.mem_cons_self, direction⟩
    | true => exact .inr ⟨member, List.mem_cons_self, direction⟩

/-- A negated set has its meaning from both ends exactly on even edges. -/
theorem negatedSet_iff (dict : Dictionary) (ops : List StoreOp) (members : List (Text × Bool))
    (start stop : UInt32) :
    ((stop ∈ pathReach dict (runOps TripleStore.new ops).1 (.negatedSet members) start false ↔
        start ∈ pathReach dict (runOps TripleStore.new ops).1 (.negatedSet members) stop true) ∧
      (stop ∈ pathReach dict (runOps TripleStore.new ops).1 (.negatedSet members) start false ↔
        negatedRelation dict (applyOps ∅ ops).1 members start stop)) ↔
      Evenhanded dict (applyOps ∅ ops).1 members start stop := by
  have refines := (Refines.runOps ops refines_new).1
  rw [mem_pathReach_negatedSet refines, mem_pathReach_negatedSet refines]
  change ((EdgeOutside _ _ start stop ↔ EdgeOutside _ _ start stop) ∧
    (EdgeOutside _ _ start stop ↔ _)) ↔ _
  rw [negatedRelation, Evenhanded]
  have members_cases : members = [] ∧ ¬ hasMembers members false ∧ ¬ hasMembers members true ∨
      members ≠ [] ∧ (hasMembers members false ∨ hasMembers members true) := by
    by_cases empty : members = []
    · refine .inl ⟨empty, ?_, ?_⟩ <;>
      · rw [empty]
        rintro ⟨member, among, -⟩
        cases among
    · exact .inr ⟨empty, hasMembers_of_ne_nil empty⟩
  tauto

/-- A dictionary with one predicate. -/
def oneKnows : Dictionary :=
  ((Dictionary.empty.internPredicate (Term.iri "p".toList).dictKey).map Prod.fst).getD .empty

/-- The one edge is banned from its start, but not from its end. -/
theorem negatedSet_uneven :
    ¬ (1 ∈ pathReach oneKnows (runOps TripleStore.new [.insert ⟨0, 0, 1⟩]).1
      (.negatedSet [("p".toList, false)]) 0 false) ∧
    0 ∈ pathReach oneKnows (runOps TripleStore.new [.insert ⟨0, 0, 1⟩]).1
      (.negatedSet [("p".toList, false)]) 1 true := by
  decide

end Reach

end GStore.Query
