import GStore.Foundation.Grouping
import GStore.Query.Numeric

/-! # Groups of solutions

`query/engine.rs`, `eval_aggregation` and `eval_group_expr`. Solutions are gathered under the values
of the `GROUP BY`, and the expressions of the projection and of `HAVING` are evaluated once for each
group. What an aggregate gathers, and whether a pattern exists, is left to the evaluator. -/

namespace GStore.Query

open Dict GStore.Parser

/-! ## Expressions of a group -/

inductive AggFunc where
  | count
  | sum
  | avg
  | min
  | max
  | sample
  | groupConcat

/-- An expression as it is walked in the context of a group. The arguments of aggregates and
functions are expressions of a row. -/
inductive GroupExpr (Pattern : Type) where
  | aggregate (func : AggFunc) (distinct : Bool) (arg : Option (Expr Pattern)) (sep : Option Text)
  | var (name : Text)
  | const (term : Term)
  | arith (op : ArithOp) (left right : GroupExpr Pattern)
  | unary (op : UnaryOp) (operand : GroupExpr Pattern)
  | compare (op : CompareOp) (left right : GroupExpr Pattern)
  | and (left right : GroupExpr Pattern)
  | or (left right : GroupExpr Pattern)
  | not (operand : GroupExpr Pattern)
  | builtin (name : Text) (args : List (Expr Pattern))
  | exists_ (negated : Bool) (pattern : Pattern)

inductive GroupItem (Pattern : Type) where
  | var (name : Text)
  /-- A value and its alias. -/
  | expr (value : GroupExpr Pattern) (name : Text)

structure GroupQuery (Pattern : Type) where
  /-- Nothing for `*`. -/
  projection : Option (List (GroupItem Pattern))
  groupBy : List (Expr Pattern)
  having : List (GroupExpr Pattern)

/-- The solutions of one group, the values they share, and the columns of the variables among
these. -/
structure Group where
  layout : VarLayout
  solutions : List Solution
  keyVars : Text → Option ℕ
  key : List (Option SlotId)

structure GroupEvaluator (Value Pattern Key : Type) extends Evaluator Value Pattern Key where
  evalAggregate : AggFunc → Bool → Option (Expr Pattern) → Option Text → Group → Option Value
  evalExists : Bool → Pattern → Solution → VarLayout → Bool
  ebv_bool : ∀ truth, ebv (bool truth) = some truth

variable {Value Pattern Key : Type}

namespace GroupEvaluator

variable (evaluator : GroupEvaluator Value Pattern Key) (group : Group)

/-- The slot of a variable in the first solution. -/
def sampleSlot (name : Text) : Option SlotId := do
  let index ← group.layout.index name
  let first ← group.solutions.head?
  first[index]?.join

/-- A variable of the key is read as a variable of no predicate. -/
def evalGroupVar (name : Text) : Option Value :=
  match group.keyVars name with
  | some column => group.key[column]?.join.bind fun id => evaluator.idToValue id false
  | none => do
    let index ← group.layout.index name
    evaluator.idToValue (← sampleSlot group name) (group.layout.isPred.getD index false)

/-- Nothing unless both operands have values; the second truth is asked for if the first one is
not `deciding`. -/
def connect (deciding : Bool) (left right : Option Value) : Option Value := do
  let first ← left
  let second ← right
  let truth ← evaluator.ebv first
  if truth = deciding then return evaluator.bool deciding
  else return evaluator.bool (← evaluator.ebv second)

@[grind =] def evalGroupExpr : GroupExpr Pattern → Option Value
  | .aggregate func distinct arg sep => evaluator.evalAggregate func distinct arg sep group
  | .var name => evaluator.evalGroupVar group name
  | .const term => some (evaluator.fromTerm term)
  | .arith op left right => do
    evaluator.evalArith op (← evalGroupExpr left) (← evalGroupExpr right)
  | .unary op operand => do
    let value ← evalGroupExpr operand
    match op with
    | .plus => some value
    | .neg => evaluator.negate value
  | .compare op left right => do
    let truth ← evaluator.compareValues op (← evalGroupExpr left) (← evalGroupExpr right)
    return evaluator.bool truth
  | .and left right => evaluator.connect false (evalGroupExpr left) (evalGroupExpr right)
  | .or left right => evaluator.connect true (evalGroupExpr left) (evalGroupExpr right)
  | .not operand => do
    let truth ← evaluator.ebv (← evalGroupExpr operand)
    return evaluator.bool (!truth)
  | .builtin _ _ => none
  | .exists_ negated pattern => do
    let first ← group.solutions.head?
    return evaluator.bool (evaluator.evalExists negated pattern first group.layout)

/-! ## Rows of groups -/

section Aggregation

variable (query : GroupQuery Pattern) (layout : VarLayout)

/-- The last column that a variable is in. -/
def keyVars (name : Text) : Option ℕ :=
  query.groupBy.zipIdx.reverse.findSome? fun column =>
    match column.1 with
    | .var other => if other = name then some column.2 else none
    | _ => none

def groupKey (solution : Solution) : Eval (List (Option SlotId)) :=
  query.groupBy.mapM fun expr => do
    let value ← evaluator.evalValue ⟨layout, solution⟩ expr
    return value.map evaluator.valueToId

/-- Without a `GROUP BY` there is a group even of no solutions. -/
def groups (solutions : List Solution) : Eval (List (List (Option SlotId) × List Solution)) := do
  let pairs ← solutions.mapM fun solution => do
    return (← evaluator.groupKey query layout solution, solution)
  if query.groupBy.isEmpty && solutions.isEmpty then return [([], [])]
  else return Grouping.gather pairs

def toGroup (group : List (Option SlotId) × List Solution) : Group :=
  { layout, solutions := group.2, keyVars := keyVars query, key := group.1 }

def groupItem (group : Group) : GroupItem Pattern → Option SlotId
  | .var name =>
    ((group.keyVars name).bind fun column => group.key[column]?.join).or (sampleSlot group name)
  | .expr value _ => (evaluator.evalGroupExpr group value).map evaluator.valueToId

/-- Every `HAVING` is true. -/
def keeps (group : Group) : Bool :=
  query.having.all fun condition =>
    (evaluator.evalGroupExpr group condition).bind evaluator.ebv == some true

end Aggregation

end GroupEvaluator

def GroupQuery.evalAggregation (query : GroupQuery Pattern)
    (evaluator : GroupEvaluator Value Pattern Key) (layout : VarLayout)
    (solutions : List Solution) : Eval (Except Text (List (List (Option SlotId)))) := do
  let groups ← evaluator.groups query layout solutions
  match query.projection with
  | none => return .error "SELECT * with aggregation is not allowed".toList
  | some items =>
    let kept := (groups.map (GroupEvaluator.toGroup query layout)).filter
      (evaluator.keeps query)
    return .ok (kept.map fun group => items.map (evaluator.groupItem group))

/-! ## Truth tables -/

namespace GroupEvaluator

variable (evaluator : GroupEvaluator Value Pattern Key) (group : Group)

/-- The value whose truth is found by the tables of `eval_ebv` at every connective. -/
@[grind =] def tabulated : GroupExpr Pattern → Option Value
  | .arith op left right => do evaluator.evalArith op (← tabulated left) (← tabulated right)
  | .unary op operand => do
    let value ← tabulated operand
    match op with
    | .plus => some value
    | .neg => evaluator.negate value
  | .compare op left right => do
    let truth ← evaluator.compareValues op (← tabulated left) (← tabulated right)
    return evaluator.bool truth
  | .and left right =>
    (Evaluator.evalAnd ((tabulated left).bind evaluator.ebv)
      ((tabulated right).bind evaluator.ebv)).map evaluator.bool
  | .or left right =>
    (Evaluator.evalOr ((tabulated left).bind evaluator.ebv)
      ((tabulated right).bind evaluator.ebv)).map evaluator.bool
  | .not operand =>
    (((tabulated operand).bind evaluator.ebv).map Bool.not).map evaluator.bool
  | leaf => evaluator.evalGroupExpr group leaf

end GroupEvaluator

/-- A property of an expression and of all that is in it. -/
def GroupExpr.Everywhere (property : GroupExpr Pattern → Prop) : GroupExpr Pattern → Prop
  | .arith op left right =>
    property (.arith op left right) ∧ left.Everywhere property ∧ right.Everywhere property
  | .compare op left right =>
    property (.compare op left right) ∧ left.Everywhere property ∧ right.Everywhere property
  | .and left right =>
    property (.and left right) ∧ left.Everywhere property ∧ right.Everywhere property
  | .or left right =>
    property (.or left right) ∧ left.Everywhere property ∧ right.Everywhere property
  | .unary op operand => property (.unary op operand) ∧ operand.Everywhere property
  | .not operand => property (.not operand) ∧ operand.Everywhere property
  | leaf => property leaf

namespace GroupEvaluator

variable {evaluator : GroupEvaluator Value Pattern Key} {group : Group}
  {left right : Option Value} {deciding : Bool}

/-- An operand without a truth stands in the way of one that decides, or one without a value after
one that decides. -/
def Masks (evaluator : GroupEvaluator Value Pattern Key) (deciding : Bool)
    (left right : Option Value) : Prop :=
  left.bind evaluator.ebv = none ∧ right.bind evaluator.ebv = some deciding ∨
    left.bind evaluator.ebv = some deciding ∧ right = none

/-- No connective masks its deciding operand. -/
def Unmasked (evaluator : GroupEvaluator Value Pattern Key) (group : Group) :
    GroupExpr Pattern → Prop
  | .and left right =>
    ¬ evaluator.Masks false (evaluator.tabulated group left) (evaluator.tabulated group right)
  | .or left right =>
    ¬ evaluator.Masks true (evaluator.tabulated group left) (evaluator.tabulated group right)
  | _ => True

/-- The tables of both connectives: one operand that decides, or two that do not. -/
def table (deciding : Bool) (left right : Option Bool) : Option Bool :=
  if left = some deciding ∨ right = some deciding then some deciding
  else if left = some (!deciding) ∧ right = some (!deciding) then some (!deciding)
  else none

theorem evalAnd_eq : Evaluator.evalAnd = table false := rfl

theorem evalOr_eq : Evaluator.evalOr = table true := rfl

/-- A connective follows its table but where it masks an operand. -/
theorem connect_iff : (evaluator.connect deciding left right).bind evaluator.ebv =
    table deciding (left.bind evaluator.ebv) (right.bind evaluator.ebv) ↔
      ¬ evaluator.Masks deciding left right := by
  have lawful := evaluator.ebv_bool
  cases left with
  | none => simp [connect, Masks, table]
  | some first =>
    cases right with
    | none => simp [connect, Masks, table]
    | some second =>
      rcases one : evaluator.ebv first with _ | truth
      · simp [connect, Masks, table, one]
      · rcases two : evaluator.ebv second with _ | other
        · cases deciding <;> cases truth <;> simp [connect, Masks, table, one, two, lawful]
        · cases deciding <;> cases truth <;> cases other <;>
            simp [connect, Masks, table, one, two, lawful]

/-- A connective has the value of a truth, or none. -/
theorem connect_eq_map :
    ∃ truth : Option Bool, evaluator.connect deciding left right = truth.map evaluator.bool := by
  cases left with
  | none => exact ⟨none, rfl⟩
  | some first =>
    cases right with
    | none => exact ⟨none, rfl⟩
    | some second =>
      rcases one : evaluator.ebv first with _ | truth
      · exact ⟨none, by simp [connect, one]⟩
      · by_cases decides : truth = deciding
        · exact ⟨some deciding, by simp [connect, one, decides]⟩
        · exact ⟨evaluator.ebv second, by
            cases two : evaluator.ebv second <;> simp [connect, one, two, decides]⟩

theorem bind_map_bool (truth : Option Bool) :
    (truth.map evaluator.bool).bind evaluator.ebv = truth := by
  cases truth with
  | none => rfl
  | some truth => exact evaluator.ebv_bool truth

/-- Two values of truths are the same if their truths are. -/
theorem eq_of_ebv {value other : Option Value} (isTruth : ∃ truth : Option Bool,
    value = truth.map evaluator.bool) (isOther : ∃ truth : Option Bool,
    other = truth.map evaluator.bool)
    (same : value.bind evaluator.ebv = other.bind evaluator.ebv) : value = other := by
  obtain ⟨truth, rfl⟩ := isTruth
  obtain ⟨otherTruth, rfl⟩ := isOther
  rw [bind_map_bool, bind_map_bool] at same
  rw [same]

/-- The truth of an expression is the one of the tables. -/
def Agrees (evaluator : GroupEvaluator Value Pattern Key) (group : Group)
    (expr : GroupExpr Pattern) : Prop :=
  (evaluator.evalGroupExpr group expr).bind evaluator.ebv =
    (evaluator.tabulated group expr).bind evaluator.ebv

variable {expr : GroupExpr Pattern}

theorem eval_not (operand : GroupExpr Pattern) :
    evaluator.evalGroupExpr group (.not operand) =
      ((((evaluator.evalGroupExpr group operand).bind evaluator.ebv).map Bool.not).map
        evaluator.bool) := by
  rw [evalGroupExpr]
  cases evaluator.evalGroupExpr group operand with
  | none => rfl
  | some value =>
    simp only [Option.bind_eq_bind, Option.bind_some]
    cases evaluator.ebv value <;> rfl

/-- Where the truths agree everywhere, so do the values. -/
theorem eval_eq_tabulated (agree : expr.Everywhere (evaluator.Agrees group)) :
    evaluator.evalGroupExpr group expr = evaluator.tabulated group expr := by
  induction expr with
  | arith op left right leftHypothesis rightHypothesis
  | compare op left right leftHypothesis rightHypothesis =>
    obtain ⟨-, agreeLeft, agreeRight⟩ := agree
    rw [evalGroupExpr, tabulated, leftHypothesis agreeLeft, rightHypothesis agreeRight]
  | unary op operand hypothesis => rw [evalGroupExpr, tabulated, hypothesis agree.2]
  | not operand hypothesis => rw [eval_not, tabulated, hypothesis agree.2]
  | and left right => exact eq_of_ebv connect_eq_map ⟨_, rfl⟩ agree.1
  | or left right => exact eq_of_ebv connect_eq_map ⟨_, rfl⟩ agree.1
  | _ => rfl

theorem and_agrees {left right : GroupExpr Pattern}
    (agreeLeft : left.Everywhere (evaluator.Agrees group))
    (agreeRight : right.Everywhere (evaluator.Agrees group)) :
    evaluator.Agrees group (.and left right) ↔ evaluator.Unmasked group (.and left right) := by
  rw [Agrees, evalGroupExpr, tabulated, eval_eq_tabulated agreeLeft, eval_eq_tabulated agreeRight,
    bind_map_bool, evalAnd_eq]
  exact connect_iff

theorem or_agrees {left right : GroupExpr Pattern}
    (agreeLeft : left.Everywhere (evaluator.Agrees group))
    (agreeRight : right.Everywhere (evaluator.Agrees group)) :
    evaluator.Agrees group (.or left right) ↔ evaluator.Unmasked group (.or left right) := by
  rw [Agrees, evalGroupExpr, tabulated, eval_eq_tabulated agreeLeft, eval_eq_tabulated agreeRight,
    bind_map_bool, evalOr_eq]
  exact connect_iff

/-- The truth of an expression and of all that is in it is the one of the tables, if and only if no
connective in it masks an operand that decides. -/
theorem connectives_agree (evaluator : GroupEvaluator Value Pattern Key) (group : Group)
    (expr : GroupExpr Pattern) :
    expr.Everywhere (evaluator.Agrees group) ↔ expr.Everywhere (evaluator.Unmasked group) := by
  induction expr with
  | arith op left right leftHypothesis rightHypothesis =>
    unfold GroupExpr.Everywhere
    rw [← leftHypothesis, ← rightHypothesis]
    refine and_congr_left fun agree => iff_of_true ?_ trivial
    rw [Agrees, evalGroupExpr, tabulated, eval_eq_tabulated agree.1, eval_eq_tabulated agree.2]
  | compare op left right leftHypothesis rightHypothesis =>
    unfold GroupExpr.Everywhere
    rw [← leftHypothesis, ← rightHypothesis]
    refine and_congr_left fun agree => iff_of_true ?_ trivial
    rw [Agrees, evalGroupExpr, tabulated, eval_eq_tabulated agree.1, eval_eq_tabulated agree.2]
  | unary op operand hypothesis =>
    unfold GroupExpr.Everywhere
    rw [← hypothesis]
    refine and_congr_left fun agree => iff_of_true ?_ trivial
    rw [Agrees, evalGroupExpr, tabulated, eval_eq_tabulated agree]
  | not operand hypothesis =>
    unfold GroupExpr.Everywhere
    rw [← hypothesis]
    refine and_congr_left fun agree => iff_of_true ?_ trivial
    rw [Agrees, eval_not, tabulated, eval_eq_tabulated agree]
  | and left right leftHypothesis rightHypothesis =>
    unfold GroupExpr.Everywhere
    rw [← leftHypothesis, ← rightHypothesis]
    exact and_congr_left fun agree => and_agrees agree.1 agree.2
  | or left right leftHypothesis rightHypothesis =>
    unfold GroupExpr.Everywhere
    rw [← leftHypothesis, ← rightHypothesis]
    exact and_congr_left fun agree => or_agrees agree.1 agree.2
  | _ => exact iff_of_true rfl trivial

/-! ## Grouping by a variable -/

section ByVariable

variable {query : GroupQuery Pattern} {layout : VarLayout} {solutions : List Solution}
  {name : Text} {index : ℕ}

/-- The variable `name` is the whole `GROUP BY`, and its slot holds ids of the dictionary, which are
below those of computed terms. -/
structure ByVariable (evaluator : GroupEvaluator Value Pattern Key) (query : GroupQuery Pattern)
    (layout : VarLayout) (solutions : List Solution) (name : Text) (index : ℕ) : Prop where
  groupBy : query.groupBy = [.var name]
  slot : layout.index name = some index
  stored : ∀ solution ∈ solutions, ∃ id : Option UInt32,
    solution[index]? = some (id.map SlotId.stored)
  valid : evaluator.dict.Valid
  room : evaluator.dict.literals.backward.length + literalFirstId < synthBase.toNat

/-- The surface form of what a solution has in a slot. -/
def shown (evaluator : GroupEvaluator Value Pattern Key) (layout : VarLayout) (index : ℕ)
    (id : Option SlotId) : Option Text :=
  id.bind fun id => evaluator.resolveString id (layout.isPred.getD index false)

/-- The value that a surface form is read as. -/
def readValue (evaluator : GroupEvaluator Value Pattern Key) (text : Text) : Option Value :=
  (NTriples.parseTerm evaluator.unicode text).toOption.map evaluator.fromTerm

/-- The term of a value has the surface form that was read. For a variable in the place of a
predicate its id among entities, if it has one, is read as one of a predicate. -/
def Kept (evaluator : GroupEvaluator Value Pattern Key) (isPred : Bool) (text : Text)
    (value : Value) : Prop :=
  if isPred then
    ((evaluator.dict.termId (evaluator.toTerm value)).elim
      (some (evaluator.toTerm value).display) evaluator.dict.predicateToString) = some text
  else (evaluator.toTerm value).display = text

theorem idToString_of_termId {dict : Dictionary} (valid : dict.Valid)
    (room : dict.literals.backward.length + literalFirstId < synthBase.toNat) {term : Term}
    {id : UInt32} (known : dict.termId term = some id) :
    dict.idToString id = some term.dictKey := by
  have shift : (UInt32.ofNat literalFirstId).toNat = literalFirstId := rfl
  have base : synthBase.toNat = 4200000000 := rfl
  have first : literalFirstId = 2000000000 := rfl
  have bounded := valid.entities_bounded
  rw [Dictionary.termId] at known
  split at known
  · rw [Dictionary.literalId, Option.map_eq_some_iff] at known
    obtain ⟨inner, found, rfl⟩ := known
    have inside := valid.literals.index_lt found
    have sum : (inner + UInt32.ofNat literalFirstId).toNat = inner.toNat + literalFirstId := by
      rw [UInt32.toNat_add, shift, Nat.mod_eq_of_lt (by omega)]
    rw [Dictionary.idToString, sum, if_neg (by omega), if_pos (by omega),
      UInt32.add_sub_cancel]
    exact (valid.literals.get_iff _ _).mp found
  · have inside := valid.entities.index_lt known
    rw [Dictionary.idToString, if_neg (by omega), if_neg (by omega)]
    exact (valid.entities.get_iff _ _).mp known

/-- The row shows what the solution does, if the term of its value is kept. -/
theorem shown_valueToId (valid : evaluator.dict.Valid)
    (room : evaluator.dict.literals.backward.length + literalFirstId < synthBase.toNat)
    {value : Value} {text : Text} :
    evaluator.shown layout index (some (evaluator.valueToId value)) = some text ↔
      evaluator.Kept (layout.isPred.getD index false) text value := by
  unfold shown Kept
  rw [Option.bind_some]
  generalize layout.isPred.getD index false = isPred
  cases known : evaluator.dict.termId (evaluator.toTerm value) with
  | none =>
    have computed : evaluator.valueToId value = .computed (evaluator.toTerm value) := by
      rw [Evaluator.valueToId, known]
    rw [computed]
    change some (evaluator.toTerm value).display = some text ↔ _
    cases isPred with
    | true => rfl
    | false => exact Option.some_inj
  | some id =>
    have stored : evaluator.valueToId value = .stored id := by
      rw [Evaluator.valueToId, known]
    rw [stored]
    cases isPred with
    | true => rfl
    | false =>
      change evaluator.dict.idToString id = some text ↔ _
      rw [idToString_of_termId valid room known]
      exact Option.some_inj

/-- What a solution has in a slot, as the evaluator reads it. -/
theorem idToValue_stored (id : Option UInt32) :
    ((id.map SlotId.stored).bind fun id =>
        evaluator.idToValue id (layout.isPred.getD index false)) =
      (evaluator.shown layout index (id.map SlotId.stored)).bind evaluator.readValue := by
  cases id with
  | none => rfl
  | some id =>
    rw [Option.map_some, Option.bind_some, shown, Option.bind_some]
    change (Option.map _ (Option.bind _ _)) = _
    rw [Option.map_bind]
    rfl

/-- The key of a solution is the value of its variable. -/
theorem groupKey_eq (run : ByVariable evaluator query layout solutions name index)
    {solution : Solution} (member : solution ∈ solutions) :
    ∃ id, solution[index]? = some id ∧ evaluator.groupKey query layout solution =
      .ok [((evaluator.shown layout index id).bind evaluator.readValue).map
        evaluator.valueToId] := by
  obtain ⟨id, slot⟩ := run.stored solution member
  refine ⟨_, slot, ?_⟩
  unfold groupKey
  rw [run.groupBy, ← idToValue_stored]
  have value : evaluator.evalValue ⟨layout, solution⟩ (.var name) = .ok
      ((id.map SlotId.stored).bind fun id =>
        evaluator.idToValue id (layout.isPred.getD index false)) := by
    unfold Evaluator.evalValue Evaluator.evaluate Evaluator.lookup Scope.slot
    simp only [run.slot, slot]
    rfl
  simp only [List.mapM_cons, List.mapM_nil, value]
  rfl

/-- What a solution has in the slot of the variable. -/
def cell (index : ℕ) (solution : Solution) : Option SlotId := solution[index]?.join

/-- The id that a solution is gathered under. -/
def keyId (evaluator : GroupEvaluator Value Pattern Key) (layout : VarLayout) (index : ℕ)
    (solution : Solution) : Option SlotId :=
  ((evaluator.shown layout index (cell index solution)).bind evaluator.readValue).map
    evaluator.valueToId

theorem mapM_ok {α β : Type} {list : List α} {run : α → Eval β} {result : α → β}
    (runs : ∀ item ∈ list, run item = .ok (result item)) :
    list.mapM run = .ok (list.map result) := by
  induction list with
  | nil => rfl
  | cons item rest induction =>
    rw [List.mapM_cons, runs item List.mem_cons_self,
      induction fun other member => runs other (List.mem_cons_of_mem _ member)]
    rfl

theorem groups_eq (run : ByVariable evaluator query layout solutions name index) :
    evaluator.groups query layout solutions = .ok (Grouping.gather
      (solutions.map fun solution => ([evaluator.keyId layout index solution], solution))) := by
  have pairs : (solutions.mapM fun solution => do
        return (← evaluator.groupKey query layout solution, solution)) =
      .ok (solutions.map fun solution => ([evaluator.keyId layout index solution], solution)) := by
    refine mapM_ok fun solution member => ?_
    obtain ⟨id, slot, key⟩ := groupKey_eq run member
    rw [key, keyId, cell, slot]
    rfl
  unfold groups
  rw [pairs, run.groupBy]
  rfl

theorem mem_pairs {key : List (Option SlotId)} {solution : Solution} :
    (key, solution) ∈ (solutions.map fun solution =>
        ([evaluator.keyId layout index solution], solution)) ↔
      solution ∈ solutions ∧ key = [evaluator.keyId layout index solution] := by
  rw [List.mem_map]
  constructor
  · rintro ⟨other, member, same⟩
    cases same
    exact ⟨member, rfl⟩
  · rintro ⟨member, rfl⟩
    exact ⟨solution, member, rfl⟩

/-- The cell that a row has for the variable: the key, or else what the first solution has. -/
theorem groupItem_eq (run : ByVariable evaluator query layout solutions name index)
    (key : Option SlotId) (members : List Solution) :
    evaluator.groupItem (toGroup query layout ([key], members)) (.var name) =
      key.or (members.head?.bind (cell index)) := by
  have column : keyVars query name = some 0 := by
    unfold keyVars
    rw [run.groupBy]
    simp
  unfold groupItem toGroup sampleSlot
  dsimp only
  rw [column, run.slot]
  rfl

/-- Two solutions are in one group if and only if they show the same term, and the row of a group
shows the term of each of its solutions. -/
def GroupsByTerm (evaluator : GroupEvaluator Value Pattern Key) (query : GroupQuery Pattern)
    (layout : VarLayout) (solutions : List Solution) (name : Text) (index : ℕ) : Prop :=
  ∃ groups, evaluator.groups query layout solutions = .ok groups ∧
    (∀ first ∈ solutions, ∀ second ∈ solutions,
      (∃ group ∈ groups, first ∈ group.2 ∧ second ∈ group.2) ↔
        evaluator.shown layout index (cell index first) =
          evaluator.shown layout index (cell index second)) ∧
    ∀ group ∈ groups, ∀ solution ∈ group.2,
      evaluator.shown layout index
          (evaluator.groupItem (toGroup query layout group) (.var name)) =
        evaluator.shown layout index (cell index solution)

/-- Every term that is read as a value is kept, and solutions without a value show the same. -/
structure Keeps (evaluator : GroupEvaluator Value Pattern Key) (layout : VarLayout)
    (solutions : List Solution) (index : ℕ) : Prop where
  kept : ∀ solution ∈ solutions, ∀ text value,
    evaluator.shown layout index (cell index solution) = some text →
    evaluator.readValue text = some value →
    evaluator.Kept (layout.isPred.getD index false) text value
  unread : ∀ first ∈ solutions, ∀ second ∈ solutions,
    evaluator.keyId layout index first = none → evaluator.keyId layout index second = none →
    evaluator.shown layout index (cell index first) =
      evaluator.shown layout index (cell index second)

/-- The solutions of a group are gathered under its key. -/
theorem mem_group {group : List (Option SlotId) × List Solution} {solution : Solution}
    (isGroup : group ∈ Grouping.gather (solutions.map fun solution =>
      ([evaluator.keyId layout index solution], solution)))
    (member : solution ∈ group.2) :
    solution ∈ solutions ∧ group.1 = [evaluator.keyId layout index solution] :=
  mem_pairs.mp (Grouping.holds_gather.mp ⟨group.2, isGroup, member⟩)

theorem keyId_eq_some {solution : Solution} {id : SlotId}
    (key : evaluator.keyId layout index solution = some id) :
    ∃ text value, evaluator.shown layout index (cell index solution) = some text ∧
      evaluator.readValue text = some value ∧ evaluator.valueToId value = id := by
  obtain ⟨value, read, same⟩ := Option.map_eq_some_iff.mp key
  obtain ⟨text, isShown, read⟩ := Option.bind_eq_some_iff.mp read
  exact ⟨text, value, isShown, read, same⟩

/-- The row of a group shows the term of each of its solutions, if terms are kept. -/
theorem row_shows (run : ByVariable evaluator query layout solutions name index)
    (keeps : Keeps evaluator layout solutions index)
    {group : List (Option SlotId) × List Solution} {solution : Solution}
    (isGroup : group ∈ Grouping.gather (solutions.map fun solution =>
      ([evaluator.keyId layout index solution], solution)))
    (member : solution ∈ group.2) :
    evaluator.shown layout index
        (evaluator.groupItem (toGroup query layout group) (.var name)) =
      evaluator.shown layout index (cell index solution) := by
  obtain ⟨key, members⟩ := group
  obtain ⟨inside, isKey⟩ := mem_group isGroup member
  dsimp only at isKey member
  rw [isKey, groupItem_eq run]
  cases known : evaluator.keyId layout index solution with
  | some id =>
    obtain ⟨text, value, isShown, read, rfl⟩ := keyId_eq_some known
    rw [Option.some_or, isShown]
    exact (shown_valueToId run.valid run.room).mpr (keeps.kept solution inside text value isShown read)
  | none =>
    cases members with
    | nil => exact absurd member List.not_mem_nil
    | cons first rest =>
      obtain ⟨firstInside, firstKey⟩ := mem_group isGroup List.mem_cons_self
      rw [isKey, known] at firstKey
      exact keeps.unread first firstInside solution inside
        (List.singleton_inj.mp firstKey).symm known

/-- Grouping by a variable preserves terms if and only if every term that the variable is bound to
is kept by the value that it is read as. -/
theorem grouping (run : ByVariable evaluator query layout solutions name index) :
    GroupsByTerm evaluator query layout solutions name index ↔
      Keeps evaluator layout solutions index := by
  constructor
  · rintro ⟨groups, gathered, together, rows⟩
    rw [groups_eq run] at gathered
    obtain rfl := Except.ok.inj gathered
    constructor
    case kept =>
      intro solution member text value isShown read
      obtain ⟨⟨key, members⟩, isGroup, inside, -⟩ :=
        (together solution member solution member).mpr rfl
      have row := rows _ isGroup solution inside
      obtain ⟨-, isKey⟩ := mem_group isGroup inside
      have known : evaluator.keyId layout index solution = some (evaluator.valueToId value) := by
        rw [keyId, isShown, Option.bind_some, read, Option.map_some]
      dsimp only at isKey
      rw [isKey, groupItem_eq run, known, Option.some_or, isShown] at row
      exact (shown_valueToId run.valid run.room).mp row
    case unread =>
      intro first member second other firstNone secondNone
      refine (together first member second other).mp (Grouping.together_iff.mpr ⟨[none], ?_, ?_⟩)
      · exact mem_pairs.mpr ⟨member, by rw [firstNone]⟩
      · exact mem_pairs.mpr ⟨other, by rw [secondNone]⟩
  · intro keeps
    refine ⟨_, groups_eq run, ?_, fun group isGroup solution member =>
      row_shows run keeps isGroup member⟩
    intro first member second other
    constructor
    · rintro ⟨group, isGroup, isFirst, isSecond⟩
      rw [← row_shows run keeps isGroup isFirst, row_shows run keeps isGroup isSecond]
    · intro same
      have keys : evaluator.keyId layout index first = evaluator.keyId layout index second := by
        rw [keyId, keyId, same]
      refine Grouping.together_iff.mpr ⟨[evaluator.keyId layout index second], ?_, ?_⟩
      · exact mem_pairs.mpr ⟨member, by rw [keys]⟩
      · exact mem_pairs.mpr ⟨other, rfl⟩

end ByVariable

/-! ## Values that do not round -/

/-- A dictionary of some terms. -/
def dictOf (terms : List Term) : Dictionary :=
  terms.foldl (fun dict term => ((dict.internTerm term).map Prod.fst).getD dict) .empty

theorem dictOf_valid (terms : List Term) : (dictOf terms).Valid := by
  have along : ∀ (left : List Term) (dict : Dictionary), dict.Valid →
      (left.foldl (fun dict term => ((dict.internTerm term).map Prod.fst).getD dict)
        dict).Valid := by
    intro left
    induction left with
    | nil => exact fun _ valid => valid
    | cons term left induction =>
      intro dict valid
      refine induction _ ?_
      dsimp only
      cases interned : dict.internTerm term with
      | none => exact valid
      | some grown => exact (Dictionary.internTerm_spec valid interned).1
  exact along terms .empty Dictionary.valid_empty

/-- The runtime values over a dictionary, for expressions without functions and patterns. -/
def overValues (dict : Dictionary) : GroupEvaluator (RuntimeValue ℚ) Unit Unit where
  dict := dict
  unicode := asciiOnly
  fromTerm := RuntimeValue.fromTerm RuntimeValue.unrounded
  toTerm := RuntimeValue.toTerm RuntimeValue.unrounded
  bool := .bool
  ebv := RuntimeValue.ebv RuntimeValue.unrounded
  negate := RuntimeValue.negate RuntimeValue.unrounded
  compareValues := fun op left right =>
    (RuntimeValue.compareValues RuntimeValue.unrounded op left right).join
  evalArith := fun op left right => (left.arith RuntimeValue.unrounded op right).join
  builtin := fun _ _ => .answer none
  orderKey := fun _ => ()
  buildLayout := fun _ => { names := ["v".toList], isPred := [false] }
  evalPattern := fun _ => []
  hasSolution := fun _ _ => .ok false
  evalAggregation := fun _ => .ok []
  evalAggregate := fun _ _ _ _ _ => none
  evalExists := fun _ _ _ _ => false
  ebv_bool := fun _ => rfl

/-- An unbound variable hides the true operand of an `||`. -/
theorem unbound_masks_true :
    let group : Group := ⟨⟨[], []⟩, [], fun _ => none, []⟩
    let expr : GroupExpr Unit := .or (.var "x".toList)
      (.const (.literal "true".toList (some (xsd "boolean")) none))
    (((overValues .empty).evalGroupExpr group expr).bind (overValues .empty).ebv = none) ∧
      ((overValues .empty).tabulated group expr).bind (overValues .empty).ebv = some true := by
  decide

/-- `GROUP BY ?v`. -/
def byV : GroupQuery Unit := ⟨some [.var "v".toList], [.var "v".toList], []⟩

def layoutV : VarLayout := { names := ["v".toList], isPred := [false] }

def plainLiteral (text : String) : Term := .literal text.toList none none

/-- Two literals without a datatype are each shown as they are. -/
theorem grouping_plain :
    GroupsByTerm (overValues (dictOf [plainLiteral "a", plainLiteral "b"])) byV layoutV
      [[some (.stored 2000000000)], [some (.stored 2000000001)]] "v".toList 0 := by
  refine (grouping ⟨rfl, rfl, ?_, dictOf_valid _, by decide⟩).mpr ⟨?_, ?_⟩
  · intro solution member
    rcases List.mem_pair.mp member with rfl | rfl
    · exact ⟨some 2000000000, rfl⟩
    · exact ⟨some 2000000001, rfl⟩
  · have a : shown (overValues (dictOf [plainLiteral "a", plainLiteral "b"])) layoutV 0
        (some (.stored 2000000000)) = some "\"a\"".toList := by decide
    have b : shown (overValues (dictOf [plainLiteral "a", plainLiteral "b"])) layoutV 0
        (some (.stored 2000000001)) = some "\"b\"".toList := by decide
    have readA : readValue (overValues (dictOf [plainLiteral "a", plainLiteral "b"]))
        "\"a\"".toList = some (.str "a".toList none) := by decide
    have readB : readValue (overValues (dictOf [plainLiteral "a", plainLiteral "b"]))
        "\"b\"".toList = some (.str "b".toList none) := by decide
    intro solution member text value isShown read
    rcases List.mem_pair.mp member with rfl | rfl
    · obtain rfl := Option.some.inj (a.symm.trans isShown)
      obtain rfl := Option.some.inj (readA.symm.trans read)
      rfl
    · obtain rfl := Option.some.inj (b.symm.trans isShown)
      obtain rfl := Option.some.inj (readB.symm.trans read)
      rfl
  · have keys : ∀ solution ∈ ([[some (.stored 2000000000)], [some (.stored 2000000001)]] :
        List Solution), keyId (overValues (dictOf [plainLiteral "a", plainLiteral "b"])) layoutV 0
          solution ≠ none := by decide
    intro first member second other none_
    exact absurd none_ (keys first member)

def integerLiteral (text : String) : Term := .literal text.toList (some (xsd "integer")) none

/-- Two forms of an integer are two terms in one group. -/
theorem integer_forms_merge :
    let evaluator := overValues (dictOf [integerLiteral "1", integerLiteral "01"])
    let first : Solution := [some (.stored 2000000000)]
    let second : Solution := [some (.stored 2000000001)]
    (∃ groups, evaluator.groups byV layoutV [first, second] = .ok groups ∧
      ∃ group ∈ groups, first ∈ group.2 ∧ second ∈ group.2) ∧
      evaluator.shown layoutV 0 (cell 0 first) ≠ evaluator.shown layoutV 0 (cell 0 second) := by
  refine ⟨⟨[([some (.stored 2000000000)],
    [[some (.stored 2000000000)], [some (.stored 2000000001)]])], by decide,
    by decide⟩, by decide⟩

end GroupEvaluator

end GStore.Query
