import GStore.Query.Select
import Mathlib.Data.List.Perm.Basic
import Mathlib.Data.List.Perm.Lattice
import Mathlib.Data.List.Dedup

/-! # What an `ORDER BY` does to the rows

A sorted selection projects each solution with the aliases bound, an unsorted one without. Apart
from that the sort only permutes. -/

namespace GStore.Query

open Dict GStore.Parser

variable {α β γ : Type}

/-! ## Runs that may panic -/

/-- The same rows in any order, or no rows on either side. -/
def SameRows : Eval (List α) → Eval (List α) → Prop
  | .ok left, .ok right => left.Perm right
  | .error _, .error _ => True
  | .ok _, .error _ => False
  | .error _, .ok _ => False

theorem SameRows.refl (rows : Eval (List α)) : SameRows rows rows := by
  cases rows with
  | ok rows => exact List.Perm.refl rows
  | error panic => trivial

theorem SameRows.trans {left middle right : Eval (List α)} (first : SameRows left middle)
    (second : SameRows middle right) : SameRows left right := by
  cases left with
  | ok left =>
    cases middle with
    | error panic => cases first
    | ok middle =>
      cases right with
      | ok right => exact List.Perm.trans first second
      | error panic => cases second
  | error panic =>
    cases middle with
    | ok middle => cases first
    | error other => exact second

theorem SameRows.cons {left right : Eval (List α)} (same : SameRows left right)
    (row : Eval α) : SameRows (row >>= fun row => left >>= fun rows => pure (row :: rows))
      (row >>= fun row => right >>= fun rows => pure (row :: rows)) := by
  cases row with
  | error panic => trivial
  | ok row =>
    cases left with
    | ok left =>
      cases right with
      | ok right => exact List.Perm.cons row same
      | error panic => cases same
    | error panic =>
      cases right with
      | ok right => cases same
      | error other => trivial

theorem nodup_eraseDups [BEq α] [LawfulBEq α] (list : List α) : list.eraseDups.Nodup := by
  induction h : list.length using Nat.strong_induction_on generalizing list with
  | _ size induction =>
    cases list with
    | nil => exact List.nodup_nil
    | cons item rest =>
      rw [List.eraseDups_cons, List.nodup_cons]
      constructor
      · simp
      · refine induction _ ?_ _ rfl
        have shorter := List.length_filter_le (fun other => !other == item) rest
        rw [← h, List.length_cons]
        omega

theorem SameRows.eraseDups [BEq α] [LawfulBEq α] {left right : Eval (List α)}
    (same : SameRows left right) :
    SameRows (left >>= fun rows => pure rows.eraseDups)
      (right >>= fun rows => pure rows.eraseDups) := by
  cases left with
  | error panic =>
    cases right with
    | ok right => cases same
    | error other => trivial
  | ok left =>
    cases right with
    | error panic => cases same
    | ok right =>
      change List.Perm left right at same
      apply (List.perm_ext_iff_of_nodup (nodup_eraseDups left) (nodup_eraseDups right)).mpr
      intro row
      rw [List.mem_eraseDups, List.mem_eraseDups]
      exact same.mem_iff

theorem SameRows.kept [BEq α] [LawfulBEq α] {left right : Eval (List α)}
    (same : SameRows left right) (distinct : Bool) :
    SameRows (left >>= fun rows => pure (if distinct then rows.eraseDups else rows))
      (right >>= fun rows => pure (if distinct then rows.eraseDups else rows)) := by
  cases distinct with
  | true => exact same.eraseDups
  | false => simpa using same

variable {Value Pattern Key : Type}

namespace Evaluator

section Rows

variable (evaluator : Evaluator Value Pattern Key)

end Rows

end Evaluator

namespace Evaluator

section Rows

variable (evaluator : Evaluator Value Pattern Key) (query : SelectQuery Pattern)
  (layout : VarLayout)

end Rows

section Ordered

variable {evaluator : Evaluator Value Pattern Key} {query : SelectQuery Pattern}
  {layout : VarLayout}

end Ordered

end Evaluator

namespace Evaluator

section Permutes

variable {evaluator : Evaluator Value Pattern Key} {query : SelectQuery Pattern}
  {layout : VarLayout} {solutions : List Solution}

end Permutes

end Evaluator

/-! ## Queries that do not read their aliases -/

mutual

/-- Whether an expression may read a variable. A pattern may read any. -/
def Expr.mentions (name : Text) : Expr Pattern → Bool
  | .var other => other == name
  | .const _ | .aggregate => false
  | .or left right | .and left right | .arith _ left right | .compare _ left right =>
    left.mentions name || right.mentions name
  | .not operand | .unary _ operand => operand.mentions name
  | .builtin _ args => anyMentions name args
  | .exists_ _ _ => true

def anyMentions (name : Text) : List (Expr Pattern) → Bool
  | [] => false
  | expr :: rest => expr.mentions name || anyMentions name rest

end

def SelectItem.mentions (name : Text) : SelectItem Pattern → Bool
  | .var other => other == name
  | .expr value _ => value.mentions name

/-- The slot of a variable and whether it stands for a predicate. -/
def Scope.read (scope : Scope) (name : Text) : Option (Eval (Option SlotId) × Bool) :=
  (scope.layout.index name).map fun index =>
    (scope.slot index, scope.layout.isPred.getD index false)

namespace Evaluator

section Mentions

variable {evaluator : Evaluator Value Pattern Key} {left right : Scope}

theorem lookup_eq {δ : Type} (scope : Scope) (read : SlotId → Bool → Option δ) (name : Text) :
    lookup scope read name = (scope.read name).elim (.ok none) fun found =>
      found.1 >>= fun id => pure (id.bind fun id => read id found.2) := by
  rw [lookup, Scope.read]
  cases scope.layout.index name <;> rfl

theorem evalBound_var (scope : Scope) (name : Text) :
    evaluator.evalBound scope [.var name] = (scope.read name).elim (.ok none) fun found =>
      found.1 >>= fun id => pure (some (evaluator.bool id.isSome)) := by
  rw [evalBound, Scope.read]
  cases scope.layout.index name <;> rfl

theorem lookup_congr {δ : Type} {read : SlotId → Bool → Option δ} {name : Text}
    (agree : left.read name = right.read name) :
    lookup left read name = lookup right read name := by
  rw [lookup_eq, lookup_eq, agree]

theorem evalBound_congr {args : List (Expr Pattern)}
    (agree : ∀ name, anyMentions name args = true → left.read name = right.read name) :
    evaluator.evalBound left args = evaluator.evalBound right args := by
  unfold evalBound
  split
  · next name =>
      have found := agree name (by simp [anyMentions, Expr.mentions])
      have same : evaluator.evalBound left [.var name] = _ := evalBound_var left name
      rw [found, ← evalBound_var] at same
      exact same
  · rfl

mutual

/-- An expression comes to the same in two scopes that agree about the variables it mentions. -/
theorem evaluate_congr : ∀ (expr : Expr Pattern),
    (∀ name, expr.mentions name = true → left.read name = right.read name) →
    evaluator.evaluate left expr = evaluator.evaluate right expr
  | .var name, agree => by
      rw [evaluate, evaluate, lookup_congr (agree name (by simp [Expr.mentions]))]
  | .const term, _ => by rw [evaluate, evaluate]
  | .aggregate, _ => by rw [evaluate, evaluate]
  | .not operand, agree | .unary _ operand, agree => by
      rw [evaluate, evaluate, evaluate_congr operand fun name mentioned => agree name mentioned]
  | .and first second, agree | .or first second, agree
  | .compare _ first second, agree | .arith _ first second, agree => by
      rw [evaluate, evaluate,
        evaluate_congr first fun name mentioned => agree name (by simp [Expr.mentions, mentioned]),
        evaluate_congr second fun name mentioned => agree name (by simp [Expr.mentions, mentioned])]
  | .builtin name args, agree => by
      rw [evaluate, evaluate, evaluateAll_congr args fun name mentioned => agree name mentioned,
        evalBound_congr fun name mentioned => agree name mentioned]
  | .exists_ negated pattern, agree => by
      have same : lookup left evaluator.idToTerm = lookup right evaluator.idToTerm := by
        funext name
        exact lookup_congr (agree name rfl)
      rw [evaluate, evaluate, same]

theorem evaluateAll_congr : ∀ (exprs : List (Expr Pattern)),
    (∀ name, anyMentions name exprs = true → left.read name = right.read name) →
    evaluator.evaluateAll left exprs = evaluator.evaluateAll right exprs
  | [], _ => rfl
  | expr :: rest, agree => by
      rw [evaluateAll, evaluateAll,
        evaluate_congr expr fun name mentioned => agree name (by simp [anyMentions, mentioned]),
        evaluateAll_congr rest fun name mentioned => agree name (by simp [anyMentions, mentioned])]

end

end Mentions

end Evaluator

/-! ## Aliases that nothing reads -/

/-- One scope has everything the other one has and, behind it, slots for more names. -/
structure Scope.Extended (more : List Text) (base wider : Scope) : Prop where
  full : base.solution.length = base.layout.names.length
  typed : base.layout.isPred.length = base.layout.names.length
  names : wider.layout.names = base.layout.names ++ more
  isPred : ∃ rest, wider.layout.isPred = base.layout.isPred ++ rest
  solution : ∃ rest, wider.solution = base.solution ++ rest

theorem Scope.Extended.read {more : List Text} {base wider : Scope}
    (extended : Scope.Extended more base wider) {name : Text}
    (old : name ∉ more) : wider.read name = base.read name := by
  rcases extended.isPred with ⟨flags, isPred⟩
  rcases extended.solution with ⟨rest, solution⟩
  rw [Scope.read, Scope.read, VarLayout.index, VarLayout.index, extended.names]
  by_cases known : name ∈ base.layout.names
  · have inside := List.idxOf_lt_length_iff.mpr known
    rw [if_pos known, if_pos (List.mem_append_left more known), List.idxOf_append_of_mem known,
      Option.map_some, Option.map_some, Scope.slot, Scope.slot, isPred, solution,
      List.getElem?_append_left (by rw [extended.full]; exact inside),
      List.getD_append _ _ _ _ (by rw [extended.typed]; exact inside)]
  · have absent : name ∉ base.layout.names ++ more := by simp [known, old]
    rw [if_neg known, if_neg absent]
    rfl

namespace Evaluator

section Unread

variable {evaluator : Evaluator Value Pattern Key} {base : Scope}

/-- The aliases that are bound from a scope on: those that were and those of the items. -/
def Bound (base : Scope) (more : List Text) (items : List (SelectItem Pattern)) (name : Text) :
    Prop :=
  name ∈ more ∨ ∃ value, SelectItem.expr value name ∈ items ∧ base.layout.index name = none

theorem Bound.cons {more : List Text} {items : List (SelectItem Pattern)} {name : Text}
    (bound : Bound base more items name) (item : SelectItem Pattern) :
    Bound base more (item :: items) name :=
  bound.imp id fun found => found.imp fun _ parts => ⟨List.mem_cons_of_mem item parts.1, parts.2⟩

end Unread

section Permutes

variable {evaluator : Evaluator Value Pattern Key} {query : SelectQuery Pattern}
  {layout : VarLayout} {solutions : List Solution}

end Permutes

/-! ## An alias that a later item reads -/

def integer (digits : String) : Term :=
  .literal digits.toList (some "http://www.w3.org/2001/XMLSchema#integer".toList) none

/-- Terms as their own values over an empty dictionary, and `BIND(2 AS ?s)` as the only pattern. -/
def overTerms : Evaluator Term Unit Nat where
  dict := .empty
  unicode := asciiOnly
  fromTerm := id
  toTerm := id
  bool := fun truth => .literal (toString truth).toList none none
  ebv := fun _ => none
  negate := fun _ => none
  compareValues := fun _ _ _ => none
  evalArith := fun _ _ _ => none
  builtin := fun _ _ => .answer none
  orderKey := fun value => (value.map fun term => term.display.length).getD 0
  buildLayout := fun _ => { names := ["s".toList], isPred := [false] }
  evalPattern := fun _ => [[some (.computed (integer "2"))]]
  hasSolution := fun _ _ => .ok false
  evalAggregation := fun _ => .ok []

/-- `SELECT items WHERE { BIND(2 AS ?s) } ORDER BY ?s`. -/
def selecting (items : List (SelectItem Unit)) : SelectQuery Unit where
  distinct := false
  projection := .items items
  pattern := ()
  groupBy := []
  having := []
  orderBy := [{ expr := .var "s".toList, descending := false }]
  limit := none
  offset := none

/-- `(1 AS ?a) (?a AS ?b)`. -/
def chained : SelectQuery Unit :=
  selecting [.expr (.const (integer "1")) "a".toList, .expr (.var "a".toList) "b".toList]

/-- `?s (1 AS ?a)`. -/
def unchained : SelectQuery Unit :=
  selecting [.var "s".toList, .expr (.const (integer "1")) "a".toList]

end Evaluator

end GStore.Query
