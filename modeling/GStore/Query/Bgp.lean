import GStore.Kvstore.StringIndex
import GStore.Query.Join
import GStore.Query.Select
import GStore.Store.TripleSource

/-! # Basic graph patterns

`query/engine.rs`: the rows of a list of triple patterns. A pattern is compiled to slots, and a
plan says in which order the compiled patterns extend the rows, or how their rows are joined. The
candidate sets of the variables keep ids out at the subjects and objects. -/

namespace GStore.Query

open Dict Kvstore Store

variable {width : ℕ}

/-! ## Slots -/

inductive Slot (width : ℕ) where
  | const (id : UInt32)
  | var (index : Fin width)
deriving DecidableEq

structure PatPlan (width : ℕ) where
  s : Slot width
  p : Slot width
  o : Slot width

abbrev SortedIds : Type := {ids : List UInt32 // ids.Pairwise (· < ·)}

/-- The ids that a variable can have, where that is known. -/
abbrev Candidates (width : ℕ) : Type := Fin width → Option SortedIds

/-- `sorted_intersect`. -/
def SortedIds.intersect (left right : SortedIds) : SortedIds :=
  ⟨intersectSorted left.1 right.1, left.2.sublist (intersectSorted_sublist left.1 right.1)⟩

theorem SortedIds.mem_intersect {left right : SortedIds} {id : UInt32} :
    id ∈ (left.intersect right).1 ↔ id ∈ left.1 ∧ id ∈ right.1 := by
  constructor
  · intro member
    refine ⟨(intersectSorted_sublist left.1 right.1).subset member, ?_⟩
    exact intersectSorted_subset_right left.1 right.1 member
  · intro ⟨inLeft, inRight⟩
    exact mem_intersectSorted left.2 right.2 inLeft inRight

/-- The id at a slot, if the binding has one. -/
def slotKnown (slot : Slot width) (binding : Row width) : Option UInt32 :=
  match slot with
  | .const id => some id
  | .var index => binding index

/-- A variable without candidates can have any id. -/
def candOk (slot : Slot width) (value : UInt32) (cands : Candidates width) : Bool :=
  match slot with
  | .const _ => true
  | .var index =>
    match cands index with
    | none => true
    | some ids => ids.1.contains value

def unify (binding : Row width) (slot : Slot width) (value : UInt32) : Option (Row width) :=
  match slot with
  | .const id => if id = value then some binding else none
  | .var index =>
    match binding index with
    | some existing => if existing = value then some binding else none
    | none => some (Function.update binding index (some value))

/-! ## Extension -/

section Extend

variable (source : TripleSource) (plan : PatPlan width) (cands : Candidates width)

/-- The triples with some parts known, from the index that is closest. -/
def enumerate : Option UInt32 → Option UInt32 → Option UInt32 → List IdTriple
  | some s, some p, some o => if source.exists s p o then [⟨s, p, o⟩] else []
  | some s, some p, none => (source.oBySp s p).map fun o => ⟨s, p, o⟩
  | some s, none, some o => (source.pBySo s o).map fun p => ⟨s, p, o⟩
  | none, some p, some o => (source.sByPo p o).map fun s => ⟨s, p, o⟩
  | some s, none, none => (source.poByS s).map fun pair => ⟨s, pair.1, pair.2⟩
  | none, some p, none => (source.soByP p).map fun pair => ⟨pair.1, p, pair.2⟩
  | none, none, some o => (source.psByO o).map fun pair => ⟨pair.2, pair.1, o⟩
  | none, none, none => source.iterAll

def unifyTriple (binding : Row width) (triple : IdTriple) : Option (Row width) := do
  let row ← unify binding plan.s triple.sub
  let row ← unify row plan.p triple.pred
  unify row plan.o triple.obj

/-- The binding extended by one triple. -/
def extendBy (binding : Row width) (triple : IdTriple) : Option (Row width) :=
  if candOk plan.s triple.sub cands && candOk plan.o triple.obj cands then
    unifyTriple plan binding triple
  else none

def extend (binding : Row width) : List (Row width) :=
  (enumerate source (slotKnown plan.s binding) (slotKnown plan.p binding)
    (slotKnown plan.o binding)).filterMap (extendBy plan cands binding)

end Extend

/-! ## Plans -/

inductive JoinTree (count : ℕ) where
  | leaf (index : Fin count)
  | join (left right : JoinTree count)

def JoinTree.leaves {count : ℕ} : JoinTree count → List (Fin count)
  | .leaf index => [index]
  | .join left right => left.leaves ++ right.leaves

/-- A tree is taken instead of the order where it is cheaper. Both have every pattern once. -/
structure ExecPlan (count : ℕ) where
  order : List (Fin count)
  tree : Option (JoinTree count)
  ordered : order.Perm (List.finRange count)
  leaves : ∀ chosen, tree = some chosen → chosen.leaves.Perm (List.finRange count)

/-- `plan_vars`. -/
def PatPlan.vars (plan : PatPlan width) : List (Fin width) :=
  [plan.s, plan.p, plan.o].foldl (fun vars slot =>
    match slot with
    | .var index => if vars.contains index then vars else vars ++ [index]
    | .const _ => vars) []

section Run

variable (source : TripleSource) (cands : Candidates width)

/-- The left-deep pipeline. -/
def runOrder : List (PatPlan width) → List (Row width) → List (Row width)
  | [], rows => rows
  | plan :: rest, rows =>
    let next := rows.flatMap (extend source plan cands)
    if next.isEmpty then next else runOrder rest next

/-- `eval_join_tree`: the rows and the variables that they bind. -/
def evalJoinTree (plans : List (PatPlan width)) :
    JoinTree plans.length → List (Row width) × List (Fin width)
  | .leaf index => (extend source plans[index] cands (unboundRow width), plans[index].vars)
  | .join left right =>
    let (leftRows, leftVars) := evalJoinTree plans left
    if leftRows.isEmpty then ([], leftVars)
    else
      let (rightRows, rightVars) := evalJoinTree plans right
      (joinSets leftRows leftVars rightRows rightVars, extendVars leftVars rightVars)

def runPlan (plans : List (PatPlan width)) (plan : ExecPlan plans.length) : List (Row width) :=
  match plan.tree with
  | some tree => (evalJoinTree source cands plans tree).1
  | none => runOrder source cands (plan.order.map plans.get) [unboundRow width]

end Run

/-! ## Narrower candidates -/

/-- The candidates that are in some further sets. -/
def narrow (cands sets : Candidates width) : Candidates width := fun index =>
  match sets index with
  | none => cands index
  | some ids =>
    match cands index with
    | none => some ids
    | some existing => some (existing.intersect ids)

/-- Every id that the sets speak of is in its set. -/
def allowed (sets : Candidates width) (row : Row width) : Bool :=
  (List.finRange width).all fun index =>
    match row index with
    | none => true
    | some id => candOk (.var index) id sets

section Narrow

variable {cands sets : Candidates width} {source : TripleSource} {plan : PatPlan width}

theorem allowed_iff {row : Row width} :
    allowed sets row = true ↔
      ∀ index id, row index = some id → candOk (.var index) id sets = true := by
  rw [allowed, List.all_eq_true]
  constructor
  · intro all index id held
    have inside := all index (List.mem_finRange index)
    rwa [held] at inside
  · intro all index _
    cases held : row index with
    | none => rfl
    | some id => exact all index id held

theorem candOk_narrow (slot : Slot width) (value : UInt32) :
    candOk slot value (narrow cands sets) = (candOk slot value cands && candOk slot value sets) := by
  cases slot with
  | const id => rfl
  | var index =>
    rw [candOk, candOk, candOk, narrow]
    cases sets index with
    | none => rw [Bool.and_true]
    | some ids =>
      cases cands index with
      | none => rfl
      | some existing =>
        rw [Bool.eq_iff_iff, Bool.and_eq_true, List.contains_iff_mem, List.contains_iff_mem,
          List.contains_iff_mem]
        exact SortedIds.mem_intersect

/-- A row is allowed after a slot if it was before, and the slot may have the value. -/
theorem allowed_unify {binding row : Row width} {slot : Slot width} {value : UInt32}
    (unified : unify binding slot value = some row) :
    allowed sets row = (allowed sets binding && candOk slot value sets) := by
  rw [Bool.eq_iff_iff, Bool.and_eq_true]
  cases slot with
  | const id =>
    rw [unify] at unified
    split at unified
    · rw [Option.some.inj unified]
      exact (and_iff_left rfl).symm
    · cases unified
  | var index =>
    rw [unify] at unified
    split at unified
    case h_1 existing held =>
        split at unified
        case isFalse => cases unified
        case isTrue same =>
            obtain rfl := Option.some.inj unified
            refine (and_iff_left_of_imp fun all => ?_).symm
            exact allowed_iff.mp all index value (same ▸ held)
    case h_2 open_ =>
        obtain rfl := Option.some.inj unified
        rw [allowed_iff, allowed_iff]
        constructor
        · intro all
          constructor
          · intro other id held
            have different : other ≠ index := fun same => by
              rw [same, open_] at held
              cases held
            exact all other id (by rwa [Function.update_of_ne different])
          · exact all index value (Function.update_self index _ _)
        · intro ⟨all, here⟩ other id held
          by_cases same : other = index
          · rw [same, Function.update_self] at held
            rw [same, ← Option.some.inj held]
            exact here
          · rw [Function.update_of_ne same] at held
            exact all other id held

/-- The sets say nothing of a predicate. -/
def PatPlan.Free (plan : PatPlan width) (sets : Candidates width) : Prop :=
  ∀ value, candOk plan.p value sets = true

theorem allowed_unifyTriple (free : plan.Free sets) {binding row : Row width} {triple : IdTriple}
    (unified : unifyTriple plan binding triple = some row) :
    allowed sets row =
      (allowed sets binding && (candOk plan.s triple.sub sets && candOk plan.o triple.obj sets)) := by
  rw [unifyTriple] at unified
  obtain ⟨first, unifiedS, unified⟩ := Option.bind_eq_some_iff.mp unified
  obtain ⟨second, unifiedP, unifiedO⟩ := Option.bind_eq_some_iff.mp unified
  rw [allowed_unify unifiedO, allowed_unify unifiedP, allowed_unify unifiedS, free, Bool.and_true,
    Bool.and_assoc]

/-- The narrower candidates keep those extensions that are allowed. -/
theorem filter_extend (free : plan.Free sets) (binding : Row width) :
    (extend source plan cands binding).filter (allowed sets) =
      if allowed sets binding then extend source plan (narrow cands sets) binding else [] := by
  have pointwise : ∀ triple, (extendBy plan cands binding triple).filter (allowed sets) =
      if allowed sets binding then extendBy plan (narrow cands sets) binding triple else none := by
    intro triple
    rw [extendBy, extendBy, candOk_narrow, candOk_narrow]
    cases unified : unifyTriple plan binding triple with
    | none => simp
    | some row =>
      have same := allowed_unifyTriple free unified
      by_cases inside : (candOk plan.s triple.sub cands && candOk plan.o triple.obj cands) = true
      · rw [Bool.and_eq_true] at inside
        rw [inside.1, inside.2, Bool.true_and, Bool.true_and, Bool.true_and, if_pos rfl,
          Option.filter_some, same]
        cases allowed sets binding <;> rfl
      · rw [if_neg inside, Option.filter_none, eq_comm, ite_eq_right_iff]
        intro _
        rw [if_neg]
        intro both
        simp only [Bool.and_eq_true] at both inside
        exact inside ⟨both.1.1, both.2.1⟩
  rw [extend, List.filter_filterMap]
  cases kept : allowed sets binding with
  | false =>
    rw [if_neg Bool.false_ne_true, List.filterMap_eq_nil_iff]
    intro triple _
    rw [pointwise, kept, if_neg Bool.false_ne_true]
  | true =>
    rw [if_pos rfl, extend]
    refine List.filterMap_congr fun triple _ => ?_
    rw [pointwise, kept, if_pos rfl]

theorem runOrder_nil (plans : List (PatPlan width)) : runOrder source cands plans [] = [] := by
  cases plans <;> rfl

theorem runOrder_cons (plan : PatPlan width) (rest : List (PatPlan width))
    (rows : List (Row width)) :
    runOrder source cands (plan :: rest) rows =
      runOrder source cands rest (rows.flatMap (extend source plan cands)) := by
  rw [runOrder]
  split
  · rename_i empty
    rw [List.isEmpty_iff.mp empty, runOrder_nil]
  · rfl

theorem filter_flatMap_extend (free : plan.Free sets) (rows : List (Row width)) :
    (rows.flatMap (extend source plan cands)).filter (allowed sets) =
      (rows.filter (allowed sets)).flatMap (extend source plan (narrow cands sets)) := by
  rw [List.filter_flatMap, flatMap_filter]
  exact List.flatMap_congr fun binding _ => filter_extend free binding

theorem filter_runOrder {plans : List (PatPlan width)} (free : ∀ plan ∈ plans, plan.Free sets)
    (rows : List (Row width)) :
    (runOrder source cands plans rows).filter (allowed sets) =
      runOrder source (narrow cands sets) plans (rows.filter (allowed sets)) := by
  induction plans generalizing rows with
  | nil => rfl
  | cons plan rest induction =>
    have parts := List.forall_mem_cons.mp free
    rw [runOrder_cons, runOrder_cons, induction parts.2, filter_flatMap_extend parts.1]

theorem allowed_unboundRow : allowed sets (unboundRow width) = true :=
  allowed_iff.mpr fun _ _ held => by cases held

theorem allowed_merge {left right row : Row width}
    (merged : mergeBindings left right = some row) :
    allowed sets row = (allowed sets left && allowed sets right) := by
  rw [mergeBindings_eq] at merged
  split at merged
  case isFalse => cases merged
  case isTrue compatible =>
      obtain rfl := Option.some.inj merged
      rw [Bool.eq_iff_iff, Bool.and_eq_true, allowed_iff, allowed_iff, allowed_iff, ← forall_and]
      refine forall_congr' fun index => ?_
      rcases compatible index with empty | empty | same
      · simp [empty]
      · simp [empty]
      · simp [same]

/-- The join of a tree tries every pair, also where it stops early. -/
theorem evalJoinTree_join (plans : List (PatPlan width)) (left right : JoinTree plans.length) :
    (evalJoinTree source cands plans (.join left right)).1 =
      joinPairs mergeBindings (evalJoinTree source cands plans left).1
        (evalJoinTree source cands plans right).1 := by
  rw [evalJoinTree]
  dsimp only
  split
  · rename_i empty
    rw [List.isEmpty_iff.mp empty]
    rfl
  · exact joinSets_eq_joinPairs _ _ _ _

theorem filter_evalJoinTree {plans : List (PatPlan width)}
    (free : ∀ plan ∈ plans, plan.Free sets) (tree : JoinTree plans.length) :
    (evalJoinTree source cands plans tree).1.filter (allowed sets) =
      (evalJoinTree source (narrow cands sets) plans tree).1 := by
  induction tree with
  | leaf index =>
    have here := @filter_extend _ cands sets source plans[index]
      (free plans[index] (List.getElem_mem _)) (unboundRow width)
    rwa [allowed_unboundRow, if_pos rfl] at here
  | join left right leftInduction rightInduction =>
    rw [evalJoinTree_join, evalJoinTree_join, filter_joinPairs allowed_merge, leftInduction,
      rightInduction]

/-- Narrower candidates keep those rows of a plan that are allowed, in their order. -/
theorem filter_runPlan {plans : List (PatPlan width)} (free : ∀ plan ∈ plans, plan.Free sets)
    (plan : ExecPlan plans.length) :
    (runPlan source cands plans plan).filter (allowed sets) =
      runPlan source (narrow cands sets) plans plan := by
  rw [runPlan, runPlan]
  cases plan.tree with
  | some tree => exact filter_evalJoinTree free tree
  | none =>
    have listed : ∀ next ∈ plan.order.map plans.get, next.Free sets := by
      intro next member
      obtain ⟨index, -, rfl⟩ := List.mem_map.mp member
      exact free _ (List.get_mem plans index)
    dsimp only
    rw [filter_runOrder listed, List.filter_singleton, allowed_unboundRow]
    rfl

end Narrow

end GStore.Query
