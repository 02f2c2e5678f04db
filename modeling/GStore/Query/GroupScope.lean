import GStore.Query.GroupPattern

/-! # The scope of a filter

The tree of a group with one inner group is that of the inner group. If the inner group has a
`FILTER` and the outer one has none, an `OPTIONAL` in front of the outer group takes that `FILTER`
as its condition. Otherwise the tree has the solutions of the algebra. -/

namespace GStore.Query

/-! ## The shape of a tree -/

/-- Nothing but dots and filters. -/
def GroupText.silent : GroupText → Bool
  | .done => true
  | .dot rest | .filter _ rest => rest.silent
  | .triples _ _ _ | .optional _ _ | .minus _ _ | .groups _ _ => false

/-- Nothing but empty groups and filters. -/
def GroupText.blank : GroupText → Bool
  | .done => true
  | .dot rest | .filter _ rest => rest.blank
  | .groups (.one inner) rest => inner.filters.isEmpty && inner.blank && rest.blank
  | .groups (.union _ _) _ | .triples _ _ _ | .optional _ _ | .minus _ _ => false

/-- One inner group with a `FILTER` behind nothing but empty groups, and nothing behind it. -/
def GroupText.nestsFilter : GroupText → Bool
  | .done => false
  | .dot rest | .filter _ rest => rest.nestsFilter
  | .groups (.one inner) rest =>
    if inner.filters.isEmpty && inner.blank then rest.nestsFilter
    else (!inner.filters.isEmpty || inner.nestsFilter) && rest.silent
  | .groups (.union _ _) _ | .triples _ _ _ | .optional _ _ | .minus _ _ => false

mutual

/-- No `OPTIONAL` has a group without a `FILTER` of its own around one with a `FILTER`. -/
def GroupText.keepsScopes : GroupText → Bool
  | .done => true
  | .dot rest | .filter _ rest | .triples _ _ rest => rest.keepsScopes
  | .optional group rest =>
    !(group.filters.isEmpty && group.nestsFilter) && group.keepsScopes && rest.keepsScopes
  | .minus group rest => group.keepsScopes && rest.keepsScopes
  | .groups groups rest => groups.keepsScopes && rest.keepsScopes

def GroupOrUnion.keepsScopes : GroupOrUnion → Bool
  | .one group => group.keepsScopes
  | .union left right => left.keepsScopes && right.keepsScopes

end

def isUnit : Algebra → Bool
  | .unit => true
  | _ => false

def isFilter : Algebra → Bool
  | .filter _ _ => true
  | _ => false

theorem joinUnlessUnit_eq (left right : Algebra) :
    joinUnlessUnit left right = if isUnit left then right else .join left right := by
  cases left <;> rfl

theorem isFilter_conditionally (current group : Algebra) :
    isUnit (conditionally current group) = false ∧
      isFilter (conditionally current group) = false := by
  cases group <;> exact ⟨rfl, rfl⟩

theorem isFilter_filtered (filters : List (Expr GraphPattern)) (inner : Algebra) :
    isUnit (filtered filters inner) = (filters.isEmpty && isUnit inner) ∧
      isFilter (filtered filters inner) = (!filters.isEmpty || isFilter inner) := by
  cases filters with
  | nil => exact ⟨rfl, rfl⟩
  | cons first rest => exact ⟨rfl, rfl⟩

theorem closed_started {current : Algebra} {pending : List TriplePattern}
    (started : (isUnit current && pending.isEmpty) = false) :
    isUnit (closed joinUnlessUnit current pending) = false ∧
      isFilter (closed joinUnlessUnit current pending) =
        (isFilter current && pending.isEmpty) := by
  rw [closed]
  cases pending with
  | nil =>
    rw [List.isEmpty_nil, Bool.and_true] at started
    rw [List.isEmpty_nil, Bool.and_true, if_pos rfl]
    exact ⟨started, rfl⟩
  | cons first rest =>
    rw [List.isEmpty_cons, Bool.and_false, if_neg Bool.false_ne_true, joinUnlessUnit_eq]
    split
    · exact ⟨rfl, rfl⟩
    · exact ⟨rfl, rfl⟩

/-- Behind a first part the tree is a filter only if nothing follows a filter. -/
theorem joined_started : ∀ (group : GroupText) (current : Algebra) (pending : List TriplePattern),
    (isUnit current && pending.isEmpty) = false →
    isUnit (group.joined joinUnlessUnit current pending) = false ∧
      isFilter (group.joined joinUnlessUnit current pending) =
        (isFilter current && pending.isEmpty && group.silent)
  | .done, current, pending, started => by
      rw [GroupText.joined, GroupText.silent, Bool.and_true]
      exact closed_started started
  | .dot rest, current, pending, started => joined_started rest current pending started
  | .filter _ rest, current, pending, started => joined_started rest current pending started
  | .triples first others rest, current, pending, started => by
      have filled : (pending ++ first :: others).isEmpty = false := by
        cases pending <;> rfl
      have behind := joined_started rest current (pending ++ first :: others)
        (by rw [filled, Bool.and_false])
      rw [filled, Bool.and_false, Bool.false_and] at behind
      rw [GroupText.joined, GroupText.silent, Bool.and_false]
      exact behind
  | .optional group rest, current, pending, started => by
      have plain := isFilter_conditionally (closed joinUnlessUnit current pending)
        (filtered group.filters (group.joined joinUnlessUnit .unit []))
      have behind := joined_started rest _ [] (by rw [plain.1, Bool.false_and])
      rw [plain.2, Bool.false_and, Bool.false_and] at behind
      rw [GroupText.joined, GroupText.silent, Bool.and_false]
      exact behind
  | .minus group rest, current, pending, started => by
      rw [GroupText.joined, GroupText.silent, Bool.and_false]
      exact joined_started rest _ [] rfl
  | .groups groups rest, current, pending, started => by
      rw [GroupText.joined, GroupText.silent, Bool.and_false, joinUnlessUnit_eq,
        (closed_started started).1, if_neg Bool.false_ne_true]
      exact joined_started rest _ [] rfl

/-- When the tree of a group is empty, and when it is a filter. -/
theorem joined_unit : ∀ group : GroupText,
    isUnit (group.joined joinUnlessUnit .unit []) = group.blank ∧
      isFilter (group.joined joinUnlessUnit .unit []) = group.nestsFilter
  | .done => ⟨rfl, rfl⟩
  | .dot rest => joined_unit rest
  | .filter _ rest => joined_unit rest
  | .triples first others rest => joined_started rest _ ([] ++ first :: others) rfl
  | .optional group rest => by
      have plain := isFilter_conditionally .unit
        (filtered group.filters (group.joined joinUnlessUnit .unit []))
      have behind := joined_started rest _ [] (by rw [plain.1, Bool.false_and])
      rw [plain.2, Bool.false_and, Bool.false_and] at behind
      exact behind
  | .minus _ rest => joined_started rest _ [] rfl
  | .groups (.union _ _) rest => joined_started rest _ [] rfl
  | .groups (.one inner) rest => by
      have inside := joined_unit inner
      have here := isFilter_filtered inner.filters (inner.joined joinUnlessUnit .unit [])
      rw [inside.1, inside.2] at here
      change isUnit (rest.joined joinUnlessUnit
          (filtered inner.filters (inner.joined joinUnlessUnit .unit [])) []) = _ ∧
        isFilter (rest.joined joinUnlessUnit
          (filtered inner.filters (inner.joined joinUnlessUnit .unit [])) []) = _
      rw [GroupText.blank, GroupText.nestsFilter]
      cases empty : (inner.filters.isEmpty && inner.blank) with
      | true =>
        have isEmpty : filtered inner.filters (inner.joined joinUnlessUnit .unit []) = .unit := by
          rw [empty] at here
          cases shape : filtered inner.filters (inner.joined joinUnlessUnit .unit []) with
          | unit => rfl
          | _ =>
            rw [shape] at here
            exact absurd here.1 Bool.false_ne_true
        rw [isEmpty, Bool.true_and, if_pos rfl]
        exact joined_unit rest
      | false =>
        rw [empty] at here
        have behind := joined_started rest _ [] (by rw [here.1, Bool.false_and])
        rw [here.2, List.isEmpty_nil, Bool.and_true] at behind
        rw [Bool.false_and, if_neg Bool.false_ne_true]
        exact behind

/-- The algebra never takes a group for its inner group. -/
theorem isFilter_joined_join : ∀ (group : GroupText) {current : Algebra}
    {pending : List TriplePattern}, isFilter current = false →
    isFilter (group.joined .join current pending) = false
  | .done, current, pending, plain => by
      rw [GroupText.joined, closed]
      split
      · exact plain
      · rfl
  | .dot rest, _, _, plain => isFilter_joined_join rest plain
  | .filter _ rest, _, _, plain => isFilter_joined_join rest plain
  | .triples _ _ rest, _, _, plain => isFilter_joined_join rest plain
  | .optional _ rest, _, _, _ => isFilter_joined_join rest (isFilter_conditionally _ _).2
  | .minus _ rest, _, _, _ => isFilter_joined_join rest rfl
  | .groups _ rest, _, _, _ => isFilter_joined_join rest rfl

/-! ## Both translations -/

section Solutions

variable {Var α : Type} [DecidableEq Var]
  {solving : Solving (List TriplePattern) (Expr GraphPattern) Var α}

theorem solutions_joinUnlessUnit {left others : Algebra}
    (same : left.solutions solving = others.solutions solving) {right further : Algebra}
    (inner : right.solutions solving = further.solutions solving) :
    (joinUnlessUnit left right).solutions solving =
      (PatternAlgebra.join others further).solutions solving := by
  have whole : (PatternAlgebra.join others further).solutions solving =
      (PatternAlgebra.join left right).solutions solving := by
    rw [PatternAlgebra.solutions, PatternAlgebra.solutions, same, inner]
  rw [whole]
  cases left with
  | unit => exact (PatternAlgebra.solutions_join_unit right).symm
  | _ => rfl

theorem solutions_closed {current others : Algebra}
    (same : current.solutions solving = others.solutions solving)
    (pending : List TriplePattern) :
    (closed joinUnlessUnit current pending).solutions solving =
      (closed .join others pending).solutions solving := by
  rw [closed, closed]
  split
  · exact same
  · exact solutions_joinUnlessUnit same rfl

theorem solutions_filtered (filters : List (Expr GraphPattern)) {inner others : Algebra}
    (same : inner.solutions solving = others.solutions solving) :
    (filtered filters inner).solutions solving = (filtered filters others).solutions solving := by
  rw [filtered, filtered]
  split
  · exact same
  · rw [PatternAlgebra.solutions, PatternAlgebra.solutions, same]

theorem conditionally_of_plain (current : Algebra) {group : Algebra}
    (plain : isFilter group = false) : conditionally current group = .leftJoin current group [] := by
  cases group with
  | filter => cases plain
  | _ => rfl

/-- Without filters of its own the group must not be a filter. -/
theorem solutions_conditionally {current others : Algebra}
    (same : current.solutions solving = others.solutions solving)
    (filters : List (Expr GraphPattern)) {inner further : Algebra}
    (inside : inner.solutions solving = further.solutions solving)
    (plain : filters.isEmpty = true → isFilter inner = false ∧ isFilter further = false) :
    (conditionally current (filtered filters inner)).solutions solving =
      (conditionally others (filtered filters further)).solutions solving := by
  cases filters with
  | nil =>
    obtain ⟨left, right⟩ := plain rfl
    change (conditionally current inner).solutions solving =
      (conditionally others further).solutions solving
    rw [conditionally_of_plain current left, conditionally_of_plain others right,
      PatternAlgebra.solutions, PatternAlgebra.solutions, same, inside]
  | cons first rest =>
    change (PatternAlgebra.leftJoin current inner (first :: rest)).solutions solving =
      (PatternAlgebra.leftJoin others further (first :: rest)).solutions solving
    rw [PatternAlgebra.solutions, PatternAlgebra.solutions, same, inside]

mutual

/-- Each element adds to the tree what it adds to the algebra. -/
theorem solutions_joined : ∀ (group : GroupText), group.keepsScopes = true →
    ∀ {current others : Algebra}, current.solutions solving = others.solutions solving →
    ∀ pending : List TriplePattern,
      (group.joined joinUnlessUnit current pending).solutions solving =
        (group.joined .join others pending).solutions solving
  | .done, _, _, _, same, pending => solutions_closed same pending
  | .dot rest, keeps, _, _, same, pending => solutions_joined rest keeps same pending
  | .filter _ rest, keeps, _, _, same, pending => solutions_joined rest keeps same pending
  | .triples first others rest, keeps, _, _, same, pending =>
    solutions_joined rest keeps same (pending ++ first :: others)
  | .optional group rest, keeps, current, others, same, pending => by
      rw [GroupText.keepsScopes, Bool.and_eq_true, Bool.and_eq_true, Bool.not_eq_true'] at keeps
      obtain ⟨⟨own, inner⟩, after⟩ := keeps
      refine solutions_joined rest after (solutions_conditionally (solutions_closed same pending)
        group.filters (solutions_joined group inner rfl []) fun none_ => ⟨?_, ?_⟩) []
      · rw [none_, Bool.true_and] at own
        rw [(joined_unit group).2, own]
      · exact isFilter_joined_join group rfl
  | .minus group rest, keeps, current, others, same, pending => by
      rw [GroupText.keepsScopes, Bool.and_eq_true] at keeps
      have inner : (group.joined joinUnlessUnit .unit []).solutions solving =
          (group.joined .join .unit []).solutions solving := solutions_joined group keeps.1 rfl []
      refine solutions_joined rest keeps.2 ?_ []
      rw [PatternAlgebra.solutions, PatternAlgebra.solutions, solutions_closed same pending,
        solutions_filtered group.filters inner]
  | .groups groups rest, keeps, current, others, same, pending => by
      rw [GroupText.keepsScopes, Bool.and_eq_true] at keeps
      refine solutions_joined rest keeps.2 ?_ []
      exact solutions_joinUnlessUnit (solutions_closed same pending)
        (solutions_alternatives groups keeps.1)

theorem solutions_alternatives : ∀ (groups : GroupOrUnion), groups.keepsScopes = true →
    (groups.translate joinUnlessUnit).solutions solving =
      (groups.translate .join).solutions solving
  | .one group, keeps =>
    solutions_filtered group.filters (solutions_joined group keeps rfl [])
  | .union left right, keeps => by
      rw [GroupOrUnion.keepsScopes, Bool.and_eq_true] at keeps
      rw [GroupOrUnion.translate, GroupOrUnion.translate, PatternAlgebra.solutions,
        PatternAlgebra.solutions, solutions_alternatives left keeps.1,
        solutions_filtered right.filters (solutions_joined right keeps.2 rfl [])]

end

/-- The tree of a group has the solutions of its algebra. -/
theorem solutions_tree {group : GroupText} (keeps : group.keepsScopes = true) :
    group.tree.solutions solving = group.algebra.solutions solving :=
  solutions_filtered group.filters (solutions_joined group keeps rfl [])

end Solutions

end GStore.Query
