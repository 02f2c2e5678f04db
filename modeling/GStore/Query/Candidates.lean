import GStore.Query.BgpPlans
import GStore.Signature.QueryNode

/-! # Candidates of variables

`query/candidates.rs`: the edges of a variable to constants give the ids that it can have, and a
selective predicate gives more of them. `refine_candidates_with_vstree` of `query/engine.rs` looks
the subjects up in the signature index as well. No solution is lost. So the rows of a basic graph
pattern are its solutions, each once. -/

namespace GStore.Query

open Signature SortedSlice Store

variable {width : ℕ}

/-! ## The candidates of the edges -/

/-- `distinct_seconds`. -/
def distinctSeconds (pairs : List (UInt32 × UInt32)) : List UInt32 :=
  sortDedup (pairs.map Prod.snd)

def sortedIds (list : List UInt32) : SortedIds := ⟨sortDedup list, sortDedup_pairwise list⟩

/-- The candidates of a variable that are in a list. -/
def intersected (cands : Candidates width) (index : Fin width) (list : List UInt32) : SortedIds :=
  match cands index with
  | none => sortedIds list
  | some existing => existing.intersect (sortedIds list)

def intersectInto (cands : Candidates width) (index : Fin width) (list : List UInt32) :
    Candidates width :=
  Function.update cands index (some (intersected cands index list))

section Generate

variable (source : TripleSource)

/-- The body of the first pass. -/
def constantEdge (cands : Candidates width) (plan : PatPlan width) : Candidates width :=
  match plan.s, plan.o with
  | .var subject, .const o =>
    intersectInto cands subject <|
      match plan.p with
      | .const p => source.sByPo p o
      | .var _ => distinctSeconds (source.psByO o)
  | .const s, .var object =>
    intersectInto cands object <|
      match plan.p with
      | .const p => source.oBySp s p
      | .var _ => distinctSeconds (source.poByS s)
  | _, _ => cands

variable (selective : ℕ → ℕ → Bool)

/-- Without candidates the whole predicate would be scanned. Which predicates are selective enough
for a number of candidates is a matter of cost. -/
def shouldPropagate (cands : Candidates width) (index : Fin width) (predCard : ℕ) : Bool :=
  match cands index with
  | none => false
  | some ids => selective ids.1.length predCard

/-- The body of the second pass. -/
def propagate (cands : Candidates width) (plan : PatPlan width) : Candidates width :=
  match plan.p, plan.s, plan.o with
  | .const p, .var subject, .var object =>
    let cands :=
      if shouldPropagate selective cands subject (source.predCard p) then
        intersectInto cands subject (source.subsByP p)
      else cands
    if shouldPropagate selective cands object (source.predCard p) then
      intersectInto cands object (source.objsByP p)
    else cands
  | _, _, _ => cands

def generate (plans : List (PatPlan width)) : Candidates width :=
  plans.foldl (propagate source selective) (plans.foldl (constantEdge source) fun _ => none)

end Generate

/-! ## The signature index -/

/-- The constant at a slot. -/
def Slot.id? : Slot width → Option UInt32
  | .const id => some id
  | .var _ => none

/-- One pattern's edges at the variable. The source reads the constants from the pattern again. -/
def encodePlan (index : Fin width) (sig : Signature) (plan : PatPlan width) : Signature :=
  let sig := if plan.s = .var index then sig.encodeQueryEdge plan.p.id? plan.o.id? .out else sig
  if plan.o = .var index then sig.encodeQueryEdge plan.p.id? plan.s.id? .in else sig

/-- `refine_candidates_with_vstree`, with what the tree finds for a signature. -/
def refineWithVstree (filter : Signature → Option (List UInt32)) (plans : List (PatPlan width))
    (cands : Candidates width) : Candidates width := fun index =>
  if plans.any fun plan => decide (plan.s = .var index) then
    let sig := plans.foldl (encodePlan index) .new
    if sig.isEmpty then cands index
    else
      match filter sig with
      | none => cands index
      | some found => some (intersected cands index found)
  else cands index

/-! ## Solutions -/

/-- The triple that a row makes of a pattern. -/
structure PatPlan.Makes (plan : PatPlan width) (row : Row width) (triple : IdTriple) : Prop where
  s : slotKnown plan.s row = some triple.sub
  p : slotKnown plan.p row = some triple.pred
  o : slotKnown plan.o row = some triple.obj

/-- Every pattern is a triple under the row. -/
def Solves (triples : Finset IdTriple) (plans : List (PatPlan width)) (row : Row width) : Prop :=
  ∀ plan ∈ plans, ∃ triple ∈ triples, plan.Makes row triple

/-- The candidates have the ids of all solutions. -/
def Keeps (triples : Finset IdTriple) (plans : List (PatPlan width)) (cands : Candidates width) :
    Prop :=
  ∀ row, Solves triples plans row → allowed cands row = true

section Keeps

variable {source : TripleSource} {triples : Finset IdTriple} {plans : List (PatPlan width)}
  {cands : Candidates width}

theorem mem_sortedIds {list : List UInt32} {id : UInt32} :
    id ∈ (sortedIds list).1 ↔ id ∈ list :=
  mem_sortDedup

theorem mem_distinctSeconds {pairs : List (UInt32 × UInt32)} {id : UInt32} :
    id ∈ distinctSeconds pairs ↔ ∃ other, (other, id) ∈ pairs := by
  rw [distinctSeconds, mem_sortDedup, List.mem_map]
  simp

/-- The candidates of one variable may be replaced by any that have the ids of all solutions. -/
theorem Keeps.of_index (keeps : Keeps triples plans cands) {changed : Candidates width}
    (sound : ∀ index, changed index = cands index ∨ ∃ ids, changed index = some ids ∧
      ∀ row id, Solves triples plans row → row index = some id → id ∈ ids.1) :
    Keeps triples plans changed := by
  intro row solves
  rw [allowed_iff]
  intro index id held
  have before := allowed_iff.mp (keeps row solves) index id held
  rw [candOk] at before ⊢
  rcases sound index with same | ⟨ids, isIds, all⟩
  · rw [same]
    exact before
  · rw [isIds]
    exact List.contains_iff_mem.mpr (all row id solves held)

theorem mem_intersected (keeps : Keeps triples plans cands) {index : Fin width}
    {list : List UInt32} {row : Row width} {id : UInt32} (solves : Solves triples plans row)
    (held : row index = some id) (found : id ∈ list) :
    id ∈ (intersected cands index list).1 := by
  have before := allowed_iff.mp (keeps row solves) index id held
  rw [candOk] at before
  rw [intersected]
  split
  · exact mem_sortedIds.mpr found
  · rename_i existing isExisting
    rw [isExisting] at before
    exact SortedIds.mem_intersect.mpr ⟨List.contains_iff_mem.mp before, mem_sortedIds.mpr found⟩

theorem Keeps.intersectInto (keeps : Keeps triples plans cands) {index : Fin width}
    {list : List UInt32}
    (found : ∀ row id, Solves triples plans row → row index = some id → id ∈ list) :
    Keeps triples plans (intersectInto cands index list) := by
  refine keeps.of_index fun other => ?_
  rw [Query.intersectInto]
  by_cases same : other = index
  · subst same
    refine .inr ⟨_, Function.update_self _ _ _, fun row id solves held => ?_⟩
    exact mem_intersected keeps solves held (found row id solves held)
  · exact .inl (Function.update_of_ne same _ _)

theorem keeps_none : Keeps triples plans fun _ => none :=
  fun _ _ => allowed_iff.mpr fun _ _ _ => rfl

theorem Keeps.constantEdge (describes : source.Describes triples)
    (keeps : Keeps triples plans cands) {plan : PatPlan width} (member : plan ∈ plans) :
    Keeps triples plans (constantEdge source cands plan) := by
  rw [Query.constantEdge]
  split
  case h_1 subject o isSubject isObject =>
      refine keeps.intersectInto fun row id solves held => ?_
      obtain ⟨triple, stored, makes⟩ := solves plan member
      have sub := makes.s
      have obj := makes.o
      rw [isSubject, slotKnown, held] at sub
      rw [isObject, slotKnown] at obj
      obtain rfl := Option.some.inj sub
      obtain rfl := Option.some.inj obj
      split
      · rename_i p isPred
        have pred := makes.p
        rw [isPred, slotKnown] at pred
        obtain rfl := Option.some.inj pred
        exact ((describes.sByPo _ _).mem_iff _).mpr stored
      · exact mem_distinctSeconds.mpr ⟨triple.pred, ((describes.psByO _).mem_iff _).mpr stored⟩
  case h_2 s object isSubject isObject =>
      refine keeps.intersectInto fun row id solves held => ?_
      obtain ⟨triple, stored, makes⟩ := solves plan member
      have sub := makes.s
      have obj := makes.o
      rw [isSubject, slotKnown] at sub
      rw [isObject, slotKnown, held] at obj
      obtain rfl := Option.some.inj sub
      obtain rfl := Option.some.inj obj
      split
      · rename_i p isPred
        have pred := makes.p
        rw [isPred, slotKnown] at pred
        obtain rfl := Option.some.inj pred
        exact ((describes.oBySp _ _).mem_iff _).mpr stored
      · exact mem_distinctSeconds.mpr ⟨triple.pred, ((describes.poByS _).mem_iff _).mpr stored⟩
  case h_3 => exact keeps

theorem Keeps.propagate (describes : source.Describes triples) {selective : ℕ → ℕ → Bool}
    (keeps : Keeps triples plans cands) {plan : PatPlan width} (member : plan ∈ plans) :
    Keeps triples plans (propagate source selective cands plan) := by
  rw [Query.propagate]
  split
  case h_2 => exact keeps
  case h_1 p subject object isPred isSubject isObject =>
      have edge : ∀ row, Solves triples plans row →
          ∃ sub obj, row subject = some sub ∧ row object = some obj ∧ ⟨sub, p, obj⟩ ∈ triples := by
        intro row solves
        obtain ⟨triple, stored, makes⟩ := solves plan member
        have pred := makes.p
        rw [isPred, slotKnown] at pred
        obtain rfl := Option.some.inj pred
        refine ⟨triple.sub, triple.obj, ?_, ?_, stored⟩
        · rw [← makes.s, isSubject, slotKnown]
        · rw [← makes.o, isObject, slotKnown]
      have subjects : Keeps triples plans
          (if shouldPropagate selective cands subject (source.predCard p) then
            Query.intersectInto cands subject (source.subsByP p)
          else cands) := by
        split
        · refine keeps.intersectInto fun row id solves held => ?_
          obtain ⟨sub, obj, isSub, -, stored⟩ := edge row solves
          obtain rfl := Option.some.inj (held.symm.trans isSub)
          exact ((describes.subsByP p).mem_iff _).mpr ⟨obj, stored⟩
        · exact keeps
      dsimp only
      generalize (if shouldPropagate selective cands subject (source.predCard p) then
        Query.intersectInto cands subject (source.subsByP p) else cands) = narrowed at subjects ⊢
      split
      · refine subjects.intersectInto fun row id solves held => ?_
        obtain ⟨sub, obj, -, isObj, stored⟩ := edge row solves
        obtain rfl := Option.some.inj (held.symm.trans isObj)
        exact ((describes.objsByP p).mem_iff _).mpr ⟨sub, stored⟩
      · exact subjects

/-- A pass over patterns of the list keeps the ids of all solutions if its body does. -/
theorem Keeps.foldl {body : Candidates width → PatPlan width → Candidates width}
    (step : ∀ {cands plan}, Keeps triples plans cands → plan ∈ plans →
      Keeps triples plans (body cands plan))
    (keeps : Keeps triples plans cands) {rest : List (PatPlan width)} (within : rest ⊆ plans) :
    Keeps triples plans (rest.foldl body cands) := by
  induction rest generalizing cands with
  | nil => exact keeps
  | cons plan rest induction =>
    rw [List.cons_subset] at within
    exact induction (step keeps within.1) within.2

theorem generate_keeps (describes : source.Describes triples) (selective : ℕ → ℕ → Bool)
    (plans : List (PatPlan width)) : Keeps triples plans (generate source selective plans) := by
  have constants : Keeps triples plans (plans.foldl (constantEdge source) fun _ => none) :=
    keeps_none.foldl (fun keeps member => keeps.constantEdge describes member) (.refl plans)
  exact constants.foldl (fun keeps member => keeps.propagate describes member) (.refl plans)

theorem Slot.eq_of_id? {slot : Slot width} {id known : UInt32} {row : Row width}
    (makes : slotKnown slot row = some id) (isKnown : slot.id? = some known) : known = id := by
  cases slot with
  | const value => exact (Option.some.inj isKnown).symm.trans (Option.some.inj makes)
  | var index => cases isKnown

/-- The signature of a variable's edges is below that of its id in a solution. -/
theorem foldl_encodePlan_le (describes : source.Describes triples) {row : Row width}
    (solves : Solves triples plans row) {index : Fin width} {id : UInt32}
    (held : row index = some id) {rest : List (PatPlan width)} (within : rest ⊆ plans)
    {sig : Signature} (lower : sig ≤ entitySignature source id) :
    rest.foldl (encodePlan index) sig ≤ entitySignature source id := by
  induction rest generalizing sig with
  | nil => exact lower
  | cons plan rest induction =>
    rw [List.cons_subset] at within
    rw [List.foldl_cons]
    refine induction within.2 ?_
    obtain ⟨triple, stored, makes⟩ := solves plan within.1
    have predicate : ∀ known ∈ plan.p.id?, known = triple.pred :=
      fun known isKnown => Slot.eq_of_id? makes.p isKnown
    have outgoing : (if plan.s = .var index then
        sig.encodeQueryEdge plan.p.id? plan.o.id? .out else sig) ≤ entitySignature source id := by
      split
      · rename_i isSubject
        have sub := makes.s
        rw [isSubject, slotKnown, held] at sub
        obtain rfl := Option.some.inj sub
        refine encodeQueryEdge_le ⟨predicate, ?_⟩ lower (edgeBits_out_le describes stored)
        exact fun known isKnown => Slot.eq_of_id? makes.o isKnown
      · exact lower
    rw [encodePlan]
    split
    · rename_i isObject
      have obj := makes.o
      rw [isObject, slotKnown, held] at obj
      obtain rfl := Option.some.inj obj
      refine encodeQueryEdge_le ⟨predicate, ?_⟩ outgoing (edgeBits_in_le describes stored)
      exact fun known isKnown => Slot.eq_of_id? makes.s isKnown
    · exact outgoing

/-- A tree over the entities of the source keeps the subjects of all solutions. -/
theorem Keeps.refineWithVstree (describes : source.Describes triples)
    {filter : Signature → Option (List UInt32)} (filters : Filters filter (vstreeEntries source))
    (keeps : Keeps triples plans cands) :
    Keeps triples plans (refineWithVstree filter plans cands) := by
  refine keeps.of_index fun index => ?_
  rw [Query.refineWithVstree]
  split
  case isFalse => exact .inl rfl
  case isTrue isSubject =>
      dsimp only
      split
      · exact .inl rfl
      · cases answer : filter (plans.foldl (encodePlan index) .new) with
        | none => exact .inl rfl
        | some found =>
          refine .inr ⟨_, rfl, fun row id solves held => mem_intersected keeps solves held ?_⟩
          obtain ⟨plan, member, here⟩ := List.any_eq_true.mp isSubject
          obtain ⟨triple, stored, makes⟩ := solves plan member
          have sub := makes.s
          rw [of_decide_eq_true here, slotKnown, held] at sub
          obtain rfl := Option.some.inj sub
          rw [filters _ found answer, CoverTree.mem_above]
          refine ⟨entitySignature source triple.sub, ?_, ?_⟩
          · exact List.mem_map_of_mem (mem_indexedEntities describes stored)
          · exact foldl_encodePlan_le describes solves held (.refl plans) bot_le

end Keeps

end GStore.Query
