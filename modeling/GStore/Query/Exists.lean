import GStore.Query.Pattern

/-! # EXISTS

`query/engine.rs`: an `EXISTS` puts the terms of the solution in the place of its variables and
asks whether the pattern that comes out has any solution. Some variables stay where they are: the
columns of `VALUES` and of a sub-query, the target of a `BIND`, the endpoint of a `SERVICE`, and
the variable of a `GRAPH` when its term is no IRI. -/

namespace GStore.Query

open Dict GStore.Parser

/-! ## Substitution -/

section Substitution

variable (terms : Text → Option Term)

def substNode : PatternTerm → PatternTerm
  | .var name =>
    match terms name with
    | some term => .term term
    | none => .var name
  | .term term => .term term

def substTriple (pattern : TriplePattern) : TriplePattern :=
  { subject := substNode terms pattern.subject,
    predicate := substNode terms pattern.predicate,
    object := substNode terms pattern.object }

/-- Only an IRI names a graph. -/
def substGraph : GraphTerm → GraphTerm
  | .var name =>
    match terms name with
    | some (.iri iri) => .iri iri
    | _ => .var name
  | .iri iri => .iri iri

mutual

/-- `subst_pattern`. -/
def GraphPattern.subst : GraphPattern → GraphPattern
  | .empty => .empty
  | .bgp patterns => .bgp (patterns.map (substTriple terms))
  | .path pattern => .path
      { subject := substNode terms pattern.subject,
        path := pattern.path,
        object := substNode terms pattern.object }
  | .join left right => .join left.subst right.subst
  | .union left right => .union left.subst right.subst
  | .minus left right => .minus left.subst right.subst
  | .leftJoin left right filters => .leftJoin left.subst right.subst (substExprs filters)
  | .filter filters inner => .filter (substExprs filters) inner.subst
  | .extend inner name expr => .extend inner.subst name (substExpr expr)
  | .graph graph inner => .graph (substGraph terms graph) inner.subst
  | .values vars rows => .values vars rows
  | .subSelect query => .subSelect query
  | .service endpoint silent inner => .service endpoint silent inner.subst

def substExpr : Expr GraphPattern → Expr GraphPattern
  | .var name =>
    match terms name with
    | some term => .const term
    | none => .var name
  | .const term => .const term
  | .or left right => .or (substExpr left) (substExpr right)
  | .and left right => .and (substExpr left) (substExpr right)
  | .not operand => .not (substExpr operand)
  | .unary op operand => .unary op (substExpr operand)
  | .compare op left right => .compare op (substExpr left) (substExpr right)
  | .arith op left right => .arith op (substExpr left) (substExpr right)
  | .builtin name args => .builtin name (substExprs args)
  | .exists_ negated pattern => .exists_ negated pattern.subst
  | .aggregate => .aggregate

def substExprs : List (Expr GraphPattern) → List (Expr GraphPattern)
  | [] => []
  | expr :: rest => substExpr expr :: substExprs rest

end

/-! ## The variables that are left -/

/-- The variables that the substitution leaves in the pattern although they may have a term. -/
def GraphPattern.Kept (name : Text) : GraphPattern → Prop
  | .empty | .bgp _ | .path _ => False
  | .join left right | .union left right | .minus left right | .leftJoin left right _ =>
    left.Kept name ∨ right.Kept name
  | .filter _ inner => inner.Kept name
  | .extend inner other _ => inner.Kept name ∨ name = other
  | .values vars _ => name ∈ vars
  | .subSelect ⟨_, projection, pattern, _, _, _, _, _⟩ =>
    name ∈ resultNames projection (pattern.collectVars [])
  | .graph (.var other) inner =>
    (name = other ∧ ∀ iri, terms other ≠ some (.iri iri)) ∨ inner.Kept name
  | .graph (.iri _) inner => inner.Kept name
  | .service (.var other) _ inner => name = other ∨ inner.Kept name
  | .service (.iri _) _ inner => inner.Kept name

end Substitution

/-! ## Evaluation -/

namespace Evaluator

variable {Value Key : Type} (evaluator : Evaluator Value GraphPattern Key)

/-- The term in the slot of a variable, if there is one. -/
def boundTerm (scope : Scope) (name : Text) : Option Term := do
  let index ← scope.layout.index name
  let id ← scope.solution.getD index none
  evaluator.idToTerm id (scope.layout.isPred.getD index false)

/-- The solutions of a pattern, with the layout that they are over. -/
def scopes (pattern : GraphPattern) : List Scope :=
  (evaluator.evalPattern pattern).map fun solution => ⟨VarLayout.build pattern, solution⟩

/-- `eval_exists`. -/
def evalExists (negated : Bool) (pattern : GraphPattern) (scope : Scope) : Bool :=
  let bound := pattern.subst (evaluator.boundTerm scope)
  !(evaluator.evalPattern bound).isEmpty ^^ negated

/-- No variable has two different terms. -/
def Compatible (left right : Scope) : Prop :=
  ∀ name first second, evaluator.boundTerm left name = some first →
    evaluator.boundTerm right name = some second → first = second

variable {evaluator}

end Evaluator

/-! ## Inline values -/

section Values

variable (dict : Dictionary)

def termToId (term : Term) : SlotId :=
  match dict.termId term with
  | some id => .stored id
  | none => .computed term

/-- A cell without a term, and one whose variable has no slot, leave the row as it is. -/
def bindCell (layout : VarLayout) (row : Solution) (cell : Text × Option Term) : Solution :=
  match layout.index cell.1, cell.2 with
  | some index, some term => row.set index (some (termToId dict term))
  | _, _ => row

def evalValues (vars : List Text) (rows : List (List (Option Term))) (layout : VarLayout) :
    List Solution :=
  rows.map fun row =>
    (vars.zip row).foldl (bindCell dict layout) (List.replicate layout.names.length none)

end Values

/-- Terms as values, and patterns that are inline values. -/
def overTerms : Evaluator Term GraphPattern Unit where
  dict := .empty
  unicode := asciiOnly
  fromTerm := id
  toTerm := id
  bool := fun _ => .iri []
  ebv := fun _ => none
  negate := fun _ => none
  compareValues := fun _ _ _ => none
  evalArith := fun _ _ _ => none
  builtin := fun _ _ => .answer none
  orderKey := fun _ => ()
  buildLayout := VarLayout.build
  evalPattern := fun pattern =>
    match pattern with
    | .values vars rows => evalValues .empty vars rows (VarLayout.build pattern)
    | _ => []
  hasSolution := fun _ _ => .ok false
  evalAggregation := fun _ => .ok []

def valuesOf (name text : String) : GraphPattern :=
  .values [name.toList] [[some (.literal text.toList none none)]]

end GStore.Query
