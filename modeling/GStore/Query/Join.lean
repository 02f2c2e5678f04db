import GStore.Foundation.Assoc
import GStore.Foundation.PartialJoin
import Mathlib

/-! # Joins

A row has a slot for each variable of the layout, and the slots of variables that the row leaves
open are unbound. Two rows are compatible if no slot holds different ids. The method of a join is
chosen by the sizes of its sides and the order of the joins by the sizes of the conjuncts; neither
choice changes the rows of the result. -/

namespace GStore.Query

variable {width : Nat}

/-- One solution: a slot for each variable of the layout. -/
abbrev Row (width : Nat) := Fin width → Option UInt32

/-! ## Merging two rows -/

/-- The body of the loop of `merge_bindings`. -/
def mergeSlot (right out : Row width) (slot : Fin width) : Option (Row width) :=
  match right slot with
  | none => some out
  | some rightValue =>
    match out slot with
    | some leftValue =>
      if leftValue != rightValue then none
      else some (Function.update out slot (some rightValue))
    | none => some (Function.update out slot (some rightValue))

def mergeBindings (left right : Row width) : Option (Row width) :=
  (List.finRange width).foldlM (mergeSlot right) left

/-- Two slots that do not hold different ids. -/
def Agree (left right : Option UInt32) : Prop :=
  left = none ∨ right = none ∨ left = right

instance (left right : Option UInt32) : Decidable (Agree left right) :=
  inferInstanceAs (Decidable (_ ∨ _ ∨ _))

theorem mergeSlot_eq (right out : Row width) (slot : Fin width) :
    mergeSlot right out slot =
      if Agree (out slot) (right slot) then
        some (Function.update out slot ((right slot).or (out slot)))
      else none := by
  rw [mergeSlot]
  cases held : right slot with
  | none => simp [Agree]
  | some rightValue =>
    cases kept : out slot with
    | none => simp [Agree]
    | some leftValue =>
      by_cases same : leftValue = rightValue
      · simp [Agree, same]
      · simp [Agree, same]

/-- The loop over some of the slots leaves the others as they are. -/
theorem foldlM_mergeSlot (right : Row width) {slots : List (Fin width)} (nodup : slots.Nodup)
    (out : Row width) :
    slots.foldlM (mergeSlot right) out =
      if ∀ slot ∈ slots, Agree (out slot) (right slot) then
        some fun slot => if slot ∈ slots then (right slot).or (out slot) else out slot
      else none := by
  induction slots generalizing out with
  | nil => simp
  | cons slot rest induction =>
    have parts := List.nodup_cons.mp nodup
    have other : ∀ next ∈ rest, next ≠ slot := fun next member equal =>
      parts.1 (equal ▸ member)
    rw [List.foldlM_cons, mergeSlot_eq]
    by_cases agrees : Agree (out slot) (right slot)
    · rw [if_pos agrees]
      change rest.foldlM (mergeSlot right) _ = _
      rw [induction parts.2]
      have unchanged : (∀ next ∈ rest, Agree
          (Function.update out slot ((right slot).or (out slot)) next) (right next)) ↔
          ∀ next ∈ slot :: rest, Agree (out next) (right next) := by
        rw [List.forall_mem_cons, and_iff_right agrees]
        refine forall₂_congr fun next member => ?_
        rw [Function.update_of_ne (other next member)]
      simp only [unchanged]
      congr 2
      funext next
      by_cases same : next = slot
      · simp [same, parts.1]
      · simp [same]
    · rw [if_neg agrees, if_neg fun all => agrees (all slot List.mem_cons_self)]
      rfl

/-- No slot holds different ids. -/
def Compatible (left right : Row width) : Prop := ∀ slot, Agree (left slot) (right slot)

instance (left right : Row width) : Decidable (Compatible left right) :=
  inferInstanceAs (Decidable (∀ _, _))

theorem mergeBindings_eq (left right : Row width) :
    mergeBindings left right =
      if Compatible left right then some fun slot => (right slot).or (left slot) else none := by
  rw [mergeBindings, foldlM_mergeSlot right (List.nodup_finRange width)]
  simp only [List.mem_finRange, true_implies, if_true]
  rfl

theorem Agree.symm {left right : Option UInt32} (agrees : Agree left right) :
    Agree right left := by
  rcases agrees with empty | empty | same
  · exact .inr (.inl empty)
  · exact .inl empty
  · exact .inr (.inr same.symm)

theorem Agree.or_comm {left right : Option UInt32} (agrees : Agree left right) :
    right.or left = left.or right := by
  rcases agrees with empty | empty | same
  · simp [empty]
  · simp [empty]
  · rw [same]

/-- Three slots agree in pairs in whichever order they are merged. -/
theorem agree_or_iff (first second third : Option UInt32) :
    (Agree first second ∧ Agree (second.or first) third) ↔
      (Agree second third ∧ Agree first (third.or second)) := by
  cases first with
  | none => simp [Agree]
  | some one =>
    cases second with
    | none => cases third <;> simp [Agree]
    | some two =>
      cases third with
      | none => simp [Agree]
      | some three =>
        simp only [Agree, Option.or_some, reduceCtorEq, false_or, Option.some.injEq]
        constructor
        · rintro ⟨rfl, rfl⟩
          exact ⟨rfl, rfl⟩
        · rintro ⟨rfl, rfl⟩
          exact ⟨rfl, rfl⟩

theorem compatible_merge_iff (first second third : Row width) :
    (Compatible first second ∧ Compatible (fun slot => (second slot).or (first slot)) third) ↔
      (Compatible second third ∧
        Compatible first fun slot => (third slot).or (second slot)) := by
  simp only [Compatible, ← forall_and, agree_or_iff]

theorem mergeBindings_bind (first second third : Row width) :
    (mergeBindings first second).bind (mergeBindings · third) =
      if Compatible first second ∧ Compatible (fun slot => (second slot).or (first slot)) third
      then some fun slot => ((third slot).or (second slot)).or (first slot) else none := by
  rw [mergeBindings_eq]
  by_cases compatible : Compatible first second
  · simp only [compatible, if_true, true_and, Option.bind_some, mergeBindings_eq, Option.or_assoc]
  · simp only [compatible, if_false, false_and, Option.bind_none]

/-- The row without values. -/
def unboundRow (width : Nat) : Row width := fun _ => none

theorem Compatible.symm {left right : Row width} (compatible : Compatible left right) :
    Compatible right left :=
  fun slot => (compatible slot).symm

theorem merging_mergeBindings : Merging (@mergeBindings width) (unboundRow width) where
  comm := by
    intro left right
    rw [mergeBindings_eq, mergeBindings_eq]
    by_cases compatible : Compatible left right
    · rw [if_pos compatible, if_pos compatible.symm]
      congr 1
      funext slot
      exact (compatible slot).or_comm
    · rw [if_neg compatible, if_neg fun swapped => compatible swapped.symm]
  assoc := by
    intro first second third
    simp only [mergeBindings_bind, compatible_merge_iff, mergeBindings_eq second third]
    by_cases compatible : Compatible second third
    · simp only [compatible, if_true, true_and, Option.bind_some, mergeBindings_eq]
    · simp only [compatible, if_false, false_and, Option.bind_none]
  unit_left := by
    intro row
    have compatible : Compatible (unboundRow width) row := fun slot => .inl rfl
    rw [mergeBindings_eq, if_pos compatible]
    simp [unboundRow]

/-! ## Joining two sets of rows -/

inductive JoinMethod where
  | hash
  | nestedLoop
  deriving DecidableEq, Repr

def usizeMax : Nat := 2 ^ 64 - 1

def saturatingMul (left right : Nat) : Nat := min (left * right) usizeMax

def saturatingAdd (left right : Nat) : Nat := min (left + right) usizeMax

/-- Nested loops where one side is tiny. -/
def judge (leftLen rightLen : Nat) : JoinMethod :=
  let smaller := min leftLen rightLen
  let bigger := max leftLen rightLen
  let nestedCost := saturatingMul smaller bigger
  let hashCost := saturatingAdd leftLen rightLen
  if nestedCost ≤ hashCost then .nestedLoop else .hash

/-- The values of the shared variables. -/
def keyOf (shared : List (Fin width)) (row : Row width) : List (Option UInt32) := shared.map row

/-- The hash table of the right side. -/
def buildIndex (shared : List (Fin width)) (right : List (Row width)) :
    List (List (Option UInt32) × List (Row width)) :=
  right.foldl (fun index row =>
    assocInsert (keyOf shared row) ((index.lookup (keyOf shared row)).getD [] ++ [row]) index) []

def joinSetsHash (left right : List (Row width)) (shared : List (Fin width)) :
    List (Row width) :=
  let index := buildIndex shared right
  left.flatMap fun leftRow =>
    match index.lookup (keyOf shared leftRow) with
    | some matching => matching.filterMap fun rightRow => mergeBindings leftRow rightRow
    | none => []

def joinSetsNested (left right : List (Row width)) (shared : List (Fin width)) :
    List (Row width) :=
  left.flatMap fun leftRow => right.filterMap fun rightRow =>
    if shared.all fun slot => leftRow slot == rightRow slot then mergeBindings leftRow rightRow
    else none

/-- Without a usable key every pair of rows is tried. -/
def joinSetsCross (left right : List (Row width)) : List (Row width) :=
  left.flatMap fun leftRow => right.filterMap fun rightRow => mergeBindings leftRow rightRow

def joinSets (left : List (Row width)) (leftVars : List (Fin width))
    (right : List (Row width)) (rightVars : List (Fin width)) : List (Row width) :=
  let shared := leftVars.filter rightVars.contains
  let unboundShared := shared.any fun slot => (left ++ right).any fun row => (row slot).isNone
  if shared.isEmpty || unboundShared then joinSetsCross left right
  else
    match judge left.length right.length with
    | .hash => joinSetsHash left right shared
    | .nestedLoop => joinSetsNested left right shared

/-- Rows that bind a slot to different ids do not merge. -/
theorem mergeBindings_of_keyOf_ne {shared : List (Fin width)} {left right : Row width}
    (leftBound : ∀ slot ∈ shared, left slot ≠ none)
    (rightBound : ∀ slot ∈ shared, right slot ≠ none)
    (different : keyOf shared left ≠ keyOf shared right) : mergeBindings left right = none := by
  rw [mergeBindings_eq, if_neg]
  intro compatible
  refine different (List.map_congr_left fun slot member => ?_)
  rcases compatible slot with empty | empty | same
  · exact absurd empty (leftBound slot member)
  · exact absurd empty (rightBound slot member)
  · exact same

/-- The table holds the rows of a key in their order. -/
theorem lookup_buildIndex (shared : List (Fin width)) (right : List (Row width))
    (key : List (Option UInt32)) :
    ((buildIndex shared right).lookup key).getD [] =
      right.filter fun row => keyOf shared row == key := by
  induction right using List.reverseRecOn with
  | nil => rfl
  | append_singleton rest row induction =>
    rw [buildIndex, List.foldl_append, ← buildIndex, List.foldl_cons, List.foldl_nil,
      lookup_assocInsert, List.filter_append, ← induction]
    by_cases same : key = keyOf shared row
    · simp [same]
    · have different : ¬ keyOf shared row = key := fun equal => same equal.symm
      simp [same, different]

theorem joinSetsHash_eq {left right : List (Row width)} {shared : List (Fin width)}
    (leftBound : ∀ row ∈ left, ∀ slot ∈ shared, row slot ≠ none)
    (rightBound : ∀ row ∈ right, ∀ slot ∈ shared, row slot ≠ none) :
    joinSetsHash left right shared = joinPairs mergeBindings left right := by
  refine List.flatMap_congr fun leftRow leftMember => ?_
  have found := lookup_buildIndex shared right (keyOf shared leftRow)
  have kept : right.filterMap (mergeBindings leftRow) =
      (right.filter fun row => keyOf shared row == keyOf shared leftRow).filterMap
        (mergeBindings leftRow) := by
    rw [List.filterMap_filter]
    refine List.filterMap_congr fun rightRow rightMember => ?_
    by_cases same : keyOf shared rightRow = keyOf shared leftRow
    · simp [same]
    · have unmerged := mergeBindings_of_keyOf_ne (leftBound leftRow leftMember)
        (rightBound rightRow rightMember) (Ne.symm same)
      simp [same, unmerged]
  rw [kept, ← found]
  cases (buildIndex shared right).lookup (keyOf shared leftRow) with
  | none => rfl
  | some matching => rfl

theorem joinSetsNested_eq {left right : List (Row width)} {shared : List (Fin width)}
    (leftBound : ∀ row ∈ left, ∀ slot ∈ shared, row slot ≠ none)
    (rightBound : ∀ row ∈ right, ∀ slot ∈ shared, row slot ≠ none) :
    joinSetsNested left right shared = joinPairs mergeBindings left right := by
  refine List.flatMap_congr fun leftRow leftMember => ?_
  refine List.filterMap_congr fun rightRow rightMember => ?_
  split
  · rfl
  · rename_i differ
    have different : keyOf shared leftRow ≠ keyOf shared rightRow := by
      intro equal
      refine differ (List.all_eq_true.mpr fun slot member => beq_iff_eq.mpr ?_)
      exact List.map_inj_left.mp equal slot member
    exact (mergeBindings_of_keyOf_ne (leftBound leftRow leftMember)
      (rightBound rightRow rightMember) different).symm

/-- Whatever the method, the join tries every pair. -/
theorem joinSets_eq_joinPairs (left : List (Row width)) (leftVars : List (Fin width))
    (right : List (Row width)) (rightVars : List (Fin width)) :
    joinSets left leftVars right rightVars = joinPairs mergeBindings left right := by
  rw [joinSets]
  split
  · rfl
  · rename_i keyed
    rw [Bool.or_eq_true, not_or, List.any_eq_true] at keyed
    have bound : ∀ row ∈ left ++ right, ∀ slot ∈ leftVars.filter rightVars.contains,
        row slot ≠ none := fun row member slot shared empty =>
      keyed.2 ⟨slot, shared,
        List.any_eq_true.mpr ⟨row, member, Option.isNone_iff_eq_none.mpr empty⟩⟩
    have leftBound := fun row member => bound row (List.mem_append_left right member)
    have rightBound := fun row member => bound row (List.mem_append_right left member)
    split
    · exact joinSetsHash_eq leftBound rightBound
    · exact joinSetsNested_eq leftBound rightBound

/-! ## Joining the conjuncts -/

/-- The rows of a conjunct and the variables it mentions. -/
structure Part (width : Nat) where
  rows : List (Row width)
  vars : List (Fin width)

/-- `Vec::swap_remove`: the last element takes the place of the one removed. -/
def swapRemove {α : Type*} (list : List α) (index : Fin list.length) : α × List α :=
  (list[index],
    (list.set index (list.getLast (List.ne_nil_of_length_pos index.pos))).dropLast)

/-- The variables of the accumulator and those that a part adds to them. -/
def extendVars (accVars vars : List (Fin width)) : List (Fin width) :=
  vars.foldl (fun known var => if known.contains var then known else known ++ [var]) accVars

/-- Connected parts first, then small ones. -/
def pickKey (accVars : List (Fin width)) (part : Part width) : Nat ×ₗ Nat :=
  let connected := part.vars.any accVars.contains
  toLex (if connected then 0 else 1, part.rows.length)

/-- The loop of `eval_join`. The fuel is the number of parts. -/
def joinGreedy :
    Nat → List (Part width) → List (Row width) → List (Fin width) → List (Row width)
  | 0, _, acc, _ => acc
  | fuel + 1, parts, acc, accVars =>
    let pick := (List.finRange parts.length).argmin fun index => pickKey accVars parts[index]
    match pick with
    | none => acc
    | some index =>
      let (part, rest) := swapRemove parts index
      let joined := joinSets acc accVars part.rows part.vars
      if joined.isEmpty then joined
      else joinGreedy fuel rest joined (extendVars accVars part.vars)

/-- The first of the smallest parts starts. Without parts `swap_remove` panics. -/
def joinParts (parts : List (Part width)) : Option (List (Row width)) := do
  let start ← (List.finRange parts.length).argmin fun index => parts[index].rows.length
  let (part, rest) := swapRemove parts start
  return joinGreedy rest.length rest part.rows part.vars

section Evaluate

variable {Pattern State : Type*} (evalPattern : Pattern → State → List (Row width) × State)
  (patternVars : Pattern → List (Fin width))

end Evaluate

theorem swapRemove_perm {α : Type*} (list : List α) (index : Fin list.length) :
    ((swapRemove list index).1 :: (swapRemove list index).2).Perm list := by
  have nonempty : list ≠ [] := List.ne_nil_of_length_pos index.pos
  have sized : (list.set index (list.getLast nonempty)).length = list.length := List.length_set
  have changed : list.set index (list.getLast nonempty) ≠ [] := fun empty => by
    rw [empty] at sized
    exact nonempty (List.eq_nil_of_length_eq_zero sized.symm)
  have lastKept : (list.set index (list.getLast nonempty)).getLast changed =
      list.getLast nonempty := by
    rw [List.getLast_eq_getElem, List.getElem_set]
    split
    · rfl
    · refine Eq.trans ?_ (List.getLast_eq_getElem nonempty).symm
      simp only [List.length_set]
  have whole := List.dropLast_append_getLast changed
  rw [lastKept] at whole
  have rest : ((list.set index (list.getLast nonempty)).dropLast).Perm (list.eraseIdx index) := by
    rw [← List.perm_cons (list.getLast nonempty)]
    have moved := (List.perm_append_singleton (list.getLast nonempty)
      (list.set index (list.getLast nonempty)).dropLast).symm
    rw [whole] at moved
    exact moved.trans (List.set_perm_cons_eraseIdx index.isLt _)
  exact (rest.cons _).trans (List.getElem_cons_eraseIdx_perm index.isLt)

/-- The rows of the parts as multisets. -/
def rowSets (parts : List (Part width)) : List (Multiset (Row width)) :=
  parts.map fun part => part.rows

theorem argmin_finRange_eq_none {α β : Type*} [LinearOrder β] {list : List α}
    {key : Fin list.length → β} (unpicked : (List.finRange list.length).argmin key = none) :
    list = [] := by
  rw [List.argmin_eq_none, List.finRange_eq_nil_iff] at unpicked
  exact List.eq_nil_of_length_eq_zero unpicked

/-- Every step of the loop takes one part out, and an empty accumulator stays empty. -/
theorem coe_joinGreedy (fuel : Nat) (parts : List (Part width)) (enough : parts.length ≤ fuel)
    (acc : List (Row width)) (accVars : List (Fin width)) :
    (joinGreedy fuel parts acc accVars : Multiset (Row width)) =
      (rowSets parts).foldl (multisetJoin mergeBindings) acc := by
  induction fuel generalizing parts acc accVars with
  | zero =>
    rw [List.eq_nil_of_length_eq_zero (Nat.le_zero.mp enough)]
    rfl
  | succ fuel induction =>
    rw [joinGreedy]
    cases pick : (List.finRange parts.length).argmin
        fun index => pickKey accVars parts[index] with
    | none =>
      rw [argmin_finRange_eq_none pick]
      rfl
    | some index =>
      have perm := swapRemove_perm parts index
      have shorter : (swapRemove parts index).2.length ≤ fuel := by
        have length := perm.length_eq
        rw [List.length_cons] at length
        omega
      have sets : (rowSets parts).Perm
          (rowSets ((swapRemove parts index).1 :: (swapRemove parts index).2)) :=
        perm.symm.map _
      have reordered := foldl_multisetJoin_perm merging_mergeBindings
        (sets.cons (acc : Multiset (Row width)))
      rw [reordered, rowSets, List.map_cons, List.foldl_cons, ← coe_joinPairs,
        ← joinSets_eq_joinPairs _ accVars _ (swapRemove parts index).1.vars]
      dsimp only
      split
      · rename_i empty
        rw [List.isEmpty_iff.mp empty]
        exact (foldl_multisetJoin_zero _ _).symm
      · exact induction _ shorter _ _

theorem coe_joinParts (first : Part width) (rest : List (Part width)) :
    ∃ rows, joinParts (first :: rest) = some rows ∧
      (rows : Multiset (Row width)) =
        (rowSets rest).foldl (multisetJoin mergeBindings) first.rows := by
  cases pick : (List.finRange (first :: rest).length).argmin
      fun index => (first :: rest)[index].rows.length with
  | none => cases argmin_finRange_eq_none pick
  | some start =>
    have perm := swapRemove_perm (first :: rest) start
    have sets : (rowSets ((swapRemove (first :: rest) start).1 ::
        (swapRemove (first :: rest) start).2)).Perm (rowSets (first :: rest)) := perm.map _
    refine ⟨_, by rw [joinParts, pick]; rfl, ?_⟩
    rw [coe_joinGreedy _ _ le_rfl]
    exact foldl_multisetJoin_perm merging_mergeBindings sets

section Evaluate

variable {Pattern State : Type*} (evalPattern : Pattern → State → List (Row width) × State)
  (patternVars : Pattern → List (Fin width))

end Evaluate

end GStore.Query
