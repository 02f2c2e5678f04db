import GStore.Query.Template

/-! # Selections

`query/engine.rs`: the rows of a `SELECT` over the solutions of its pattern. With an `ORDER BY`
the aliases of the projection are bound before the solutions are sorted, and the projection then
finds them bound. Without one they are never bound.

`RAND`, `NOW`, `UUID`, `STRUUID` and `BNODE()` answer differently at each call. They are left
out: a function answers by its arguments. -/

namespace GStore.Query

open Dict GStore.Parser

/-! ## Queries -/

inductive CompareOp where
  | eq
  | ne
  | lt
  | gt
  | le
  | ge

inductive ArithOp where
  | add
  | sub
  | mul
  | div

inductive UnaryOp where
  | neg
  | plus

inductive Expr (Pattern : Type) where
  | var (name : Text)
  | const (term : Term)
  | or (left right : Expr Pattern)
  | and (left right : Expr Pattern)
  | not (operand : Expr Pattern)
  | unary (op : UnaryOp) (operand : Expr Pattern)
  | compare (op : CompareOp) (left right : Expr Pattern)
  | arith (op : ArithOp) (left right : Expr Pattern)
  | builtin (name : Text) (args : List (Expr Pattern))
  /-- `negated` for `NOT EXISTS`. -/
  | exists_ (negated : Bool) (pattern : Pattern)
  /-- What it gathers is only read where groups are evaluated. -/
  | aggregate

inductive SelectItem (Pattern : Type) where
  | var (name : Text)
  /-- A value and its alias. -/
  | expr (value : Expr Pattern) (name : Text)

inductive Projection (Pattern : Type) where
  | all
  | items (items : List (SelectItem Pattern))

structure OrderCondition (Pattern : Type) where
  expr : Expr Pattern
  descending : Bool

structure SelectQuery (Pattern : Type) where
  distinct : Bool
  projection : Projection Pattern
  pattern : Pattern
  groupBy : List (Expr Pattern)
  having : List (Expr Pattern)
  orderBy : List (OrderCondition Pattern)
  limit : Option Nat
  offset : Option Nat

variable {Value Pattern Key : Type}

mutual

def exprHasAggregate : Expr Pattern → Bool
  | .aggregate => true
  | .or left right | .and left right | .arith _ left right | .compare _ left right =>
    exprHasAggregate left || exprHasAggregate right
  | .not operand | .unary _ operand => exprHasAggregate operand
  | .builtin _ args => anyHasAggregate args
  | .var _ | .const _ | .exists_ _ _ => false

def anyHasAggregate : List (Expr Pattern) → Bool
  | [] => false
  | expr :: rest => exprHasAggregate expr || anyHasAggregate rest

end

def projectionHasAggregate : Projection Pattern → Bool
  | .all => false
  | .items items => items.any fun item =>
    match item with
    | .var _ => false
    | .expr value _ => exprHasAggregate value

def SelectQuery.hasAgg (query : SelectQuery Pattern) : Bool :=
  !query.groupBy.isEmpty || projectionHasAggregate query.projection

/-! ## Solutions -/

/-- What a slot holds. A computed term stands for the id that it is interned under. -/
inductive SlotId where
  | stored (id : UInt32)
  | computed (term : Term)
deriving DecidableEq

/-- A slot for each variable of the layout. -/
abbrev Solution := List (Option SlotId)

/-- An index past the end. -/
inductive Panic where
  | outOfBounds
deriving DecidableEq

abbrev Eval (α : Type) : Type := Except Panic α

/-- A solution with the names of its slots. -/
structure Scope where
  layout : VarLayout
  solution : Solution

def Scope.slot (scope : Scope) (index : Nat) : Eval (Option SlotId) :=
  match scope.solution[index]? with
  | some id => .ok id
  | none => .error .outOfBounds

/-! ## Expressions -/

/-- How a function asks for its arguments: for the value or the truth of the one at an index, as
long as it wants to know more. -/
inductive Call (Value : Type) where
  | answer (value : Option Value)
  | value (index : Nat) (next : Option Value → Call Value)
  | truth (index : Nat) (next : Option Bool → Call Value)

/-- What the arguments of a call come to. Those that are not asked for cannot panic. -/
abbrev Results (Value : Type) : Type := List (Eval (Option Value × Option Bool))

def Results.get (results : Results Value) (index : Nat) : Eval (Option Value × Option Bool) :=
  match results[index]? with
  | some result => result
  | none => .error .outOfBounds

def Call.run (results : Results Value) : Call Value → Eval (Option Value)
  | .answer result => .ok result
  | .value index next => do
    let result ← results.get index
    (next result.1).run results
  | .truth index next => do
    let result ← results.get index
    (next result.2).run results

def ifCall : Nat → Call Value
  | 3 => .truth 0 fun condition =>
    match condition with
    | some true => .value 1 .answer
    | some false => .value 2 .answer
    | none => .answer none
  | _ => .answer none

/-- `count` arguments from `index` on are not asked for yet. -/
def coalesceCall (index : Nat) : Nat → Call Value
  | 0 => .answer none
  | count + 1 => .value index fun value =>
    match value with
    | some value => .answer (some value)
    | none => coalesceCall (index + 1) count

/-- The evaluator of one query. Runtime values, patterns and the other functions are those of the
modules it builds on. -/
structure Evaluator (Value Pattern Key : Type) where
  dict : Dictionary
  unicode : Alphanumeric
  fromTerm : Term → Value
  toTerm : Value → Term
  bool : Bool → Value
  ebv : Value → Option Bool
  negate : Value → Option Value
  compareValues : CompareOp → Value → Value → Option Bool
  evalArith : ArithOp → Value → Value → Option Value
  /-- A function other than `BOUND`, `IF` and `COALESCE`, given the number of its arguments. -/
  builtin : Text → Nat → Call Value
  orderKey : Option Value → Key
  buildLayout : Pattern → VarLayout
  evalPattern : Pattern → List Solution
  /-- Whether a pattern has a solution once terms are put in the place of the variables that have
  one. -/
  hasSolution : Pattern → (Text → Eval (Option Term)) → Eval Bool
  evalAggregation : SelectQuery Pattern → Eval (List Solution)

namespace Evaluator

section Values

variable (evaluator : Evaluator Value Pattern Key)

/-- `value_to_id`. -/
def valueToId (value : Value) : SlotId :=
  match evaluator.dict.termId (evaluator.toTerm value) with
  | some id => .stored id
  | none => .computed (evaluator.toTerm value)

/-- `resolve_string`. -/
def resolveString (id : SlotId) (isPred : Bool) : Option Text :=
  match id with
  | .computed term => some term.display
  | .stored id =>
    if isPred then evaluator.dict.predicateToString id else evaluator.dict.idToString id

def idToTerm (id : SlotId) (isPred : Bool) : Option Term := do
  let text ← evaluator.resolveString id isPred
  (NTriples.parseTerm evaluator.unicode text).toOption

def idToValue (id : SlotId) (isPred : Bool) : Option Value :=
  match id with
  | .computed term => some (evaluator.fromTerm term)
  | .stored _ => (evaluator.idToTerm id isPred).map evaluator.fromTerm

/-- What `read` makes of the id in a variable's slot, nothing for a variable without one. -/
def lookup {α : Type} (scope : Scope) (read : SlotId → Bool → Option α) (name : Text) :
    Eval (Option α) :=
  match scope.layout.index name with
  | none => .ok none
  | some index => do
    let id ← scope.slot index
    return id.bind fun id => read id (scope.layout.isPred.getD index false)

end Values

/-! ## Evaluation -/

/-- Both true, or one of them false, whatever the other one is. -/
def evalAnd (left right : Option Bool) : Option Bool :=
  if left = some false ∨ right = some false then some false
  else if left = some true ∧ right = some true then some true
  else none

def evalOr (left right : Option Bool) : Option Bool :=
  if left = some true ∨ right = some true then some true
  else if left = some false ∧ right = some false then some false
  else none

section Evaluate

variable (evaluator : Evaluator Value Pattern Key) (scope : Scope)

/-- A value and its effective boolean value. -/
def valued (value : Option Value) : Option Value × Option Bool := (value, value.bind evaluator.ebv)

/-- A truth and the value that stands for it. -/
def tested (truth : Option Bool) : Option Value × Option Bool := (truth.map evaluator.bool, truth)

/-- An operator that asks for its right side only if its left side has a value. -/
def strict (left right : Eval (Option Value × Option Bool))
    (combine : Value → Value → Option Value) : Eval (Option Value × Option Bool) := do
  match (← left).1 with
  | none => return evaluator.valued none
  | some first =>
    match (← right).1 with
    | none => return evaluator.valued none
    | some second => return evaluator.valued (combine first second)

/-- `BOUND` looks at the slot of its variable. -/
def evalBound : List (Expr Pattern) → Eval (Option Value)
  | [.var name] =>
    match scope.layout.index name with
    | none => .ok none
    | some index => do
      let id ← scope.slot index
      return some (evaluator.bool id.isSome)
  | _ => .ok none

def call (name : Text) (count : Nat) : Call Value :=
  if name = "IF".toList then ifCall count
  else if name = "COALESCE".toList then coalesceCall 0 count
  else evaluator.builtin name count

mutual

/-- `eval_value` and `eval_ebv` at once. -/
def evaluate : Expr Pattern → Eval (Option Value × Option Bool)
  | .var name => do return evaluator.valued (← lookup scope evaluator.idToValue name)
  | .const term => .ok (evaluator.valued (some (evaluator.fromTerm term)))
  | .not operand => do
    let operand ← evaluate operand
    return evaluator.tested (operand.2.map Bool.not)
  | .and left right => do
    let left ← evaluate left
    let right ← evaluate right
    return evaluator.tested (evalAnd left.2 right.2)
  | .or left right => do
    let left ← evaluate left
    let right ← evaluate right
    return evaluator.tested (evalOr left.2 right.2)
  | .compare op left right =>
    evaluator.strict (evaluate left) (evaluate right) fun first second =>
      (evaluator.compareValues op first second).map evaluator.bool
  | .arith op left right =>
    evaluator.strict (evaluate left) (evaluate right) (evaluator.evalArith op)
  | .unary op operand => do
    let operand ← evaluate operand
    return evaluator.valued (operand.1.bind fun value =>
      match op with
      | .plus => some value
      | .neg => evaluator.negate value)
  | .builtin name args => do
    let results := evaluateAll args
    if name = "BOUND".toList then return evaluator.valued (← evaluator.evalBound scope args)
    else return evaluator.valued (← (evaluator.call name args.length).run results)
  | .exists_ negated pattern => do
    let found ← evaluator.hasSolution pattern (lookup scope evaluator.idToTerm)
    return evaluator.valued (some (evaluator.bool (found ^^ negated)))
  | .aggregate => .ok (evaluator.valued none)

def evaluateAll : List (Expr Pattern) → Results Value
  | [] => []
  | expr :: rest => evaluate expr :: evaluateAll rest

end

def evalValue (expr : Expr Pattern) : Eval (Option Value) := do
  let result ← evaluator.evaluate scope expr
  return result.1

end Evaluate

end Evaluator

/-! ## Rows -/

/-- The layout with a slot for the alias of an item that has no slot yet. -/
def VarLayout.bindAlias (layout : VarLayout) : SelectItem Pattern → VarLayout
  | .var _ => layout
  | .expr _ name =>
    if (layout.index name).isSome then layout
    else { names := layout.names ++ [name], isPred := layout.isPred ++ [false] }

def SelectQuery.resultVars (query : SelectQuery Pattern) (layout : VarLayout) : List Text :=
  match query.projection with
  | .all => layout.names
  | .items items => items.map fun item =>
    match item with
    | .var name => name
    | .expr _ name => name

/-- The items whose aliases an `ORDER BY` can name. -/
def SelectQuery.items (query : SelectQuery Pattern) : List (SelectItem Pattern) :=
  match query.projection with
  | .all => []
  | .items items => items

/-- The conditions one after the other, until one tells the keys apart. -/
def compareKeys [Ord Key] : List (OrderCondition Pattern) → List Key → List Key → Ordering
  | condition :: conditions, left :: lefts, right :: rights =>
    let order := compare left right
    (if condition.descending then order.swap else order).then
      (compareKeys conditions lefts rights)
  | _, _, _ => .eq

namespace Evaluator

section Rows

variable (evaluator : Evaluator Value Pattern Key)

/-- The solution with the value of an item in the slot of its alias. The value is computed when
the layout has that slot already and the solution has not. -/
def bindValue (layout : VarLayout) (item : SelectItem Pattern) (solution : Solution) :
    Eval Solution :=
  match item with
  | .var _ => .ok solution
  | .expr value name =>
    if (layout.index name).isSome then .ok solution
    else do
      let value ← evaluator.evalValue ⟨layout.bindAlias item, solution⟩ value
      return solution ++ [value.map evaluator.valueToId]

/-- All solutions with all aliases bound, alias after alias. -/
def bindAliases : List (SelectItem Pattern) → VarLayout → List Solution →
    Eval (VarLayout × List Solution)
  | [], layout, solutions => .ok (layout, solutions)
  | item :: rest, layout, solutions => do
    let solutions ← solutions.mapM (evaluator.bindValue layout item)
    bindAliases rest (layout.bindAlias item) solutions

def sortKeys (conditions : List (OrderCondition Pattern)) (scope : Scope) : Eval (List Key) :=
  conditions.mapM fun condition => do
    let value ← evaluator.evalValue scope condition.expr
    return evaluator.orderKey value

/-- A key that panics is taken to stop the sort, even where no comparison comes to it. -/
def sortSolutions [Ord Key] (conditions : List (OrderCondition Pattern)) (layout : VarLayout)
    (solutions : List Solution) : Eval (List Solution) :=
  if solutions.length < 2 then .ok solutions
  else do
    let keyed ← solutions.mapM fun solution => do
      let keys ← evaluator.sortKeys conditions ⟨layout, solution⟩
      return (keys, solution)
    let sorted := keyed.mergeSort fun left right => compareKeys conditions left.1 right.1 != .gt
    return sorted.map Prod.snd

def projectItem (scope : Scope) : SelectItem Pattern → Eval (Option SlotId)
  | .var name =>
    match scope.layout.index name with
    | none => .ok none
    | some index => scope.slot index
  | .expr value _ => do
    let value ← evaluator.evalValue scope value
    return value.map evaluator.valueToId

def projectItems (query : SelectQuery Pattern) (scope : Scope) : Eval (List (Option SlotId)) :=
  match query.projection with
  | .all => scope.layout.names.mapM fun name => evaluator.projectItem scope (.var name)
  | .items items => items.mapM (evaluator.projectItem scope)

/-- The rows of the solutions, in the order that the query asks for. -/
def solutionRows [Ord Key] (query : SelectQuery Pattern) (layout : VarLayout)
    (solutions : List Solution) : Eval (List (List (Option SlotId))) := do
  let (layout, solutions) ←
    if query.orderBy.isEmpty then pure (layout, solutions)
    else do
      let (layout, solutions) ← evaluator.bindAliases query.items layout solutions
      let sorted ← evaluator.sortSolutions query.orderBy layout solutions
      pure (layout, sorted)
  solutions.mapM fun solution => evaluator.projectItems query ⟨layout, solution⟩

/-- The rows before `OFFSET` and `LIMIT`. -/
def resultRows [Ord Key] (query : SelectQuery Pattern) (layout : VarLayout)
    (solutions : List Solution) : Eval (List (List (Option SlotId))) := do
  let rows ←
    if query.hasAgg then evaluator.evalAggregation query
    else evaluator.solutionRows query layout solutions
  return if query.distinct then rows.eraseDups else rows

def evalSelectSolutions [Ord Key] (query : SelectQuery Pattern) :
    Eval (List Text × List Bool × List (List (Option SlotId))) := do
  let layout := evaluator.buildLayout query.pattern
  let vars := query.resultVars layout
  let isPred := vars.map fun name =>
    match layout.index name with
    | some index => layout.isPred.getD index false
    | none => false
  let rows ← evaluator.resultRows query layout (evaluator.evalPattern query.pattern)
  let rows := rows.drop (query.offset.getD 0)
  return (vars, isPred, match query.limit with
    | some limit => rows.take limit
    | none => rows)

end Rows

end Evaluator

end GStore.Query
