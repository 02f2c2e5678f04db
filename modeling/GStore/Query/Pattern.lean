import GStore.Query.Path
import GStore.Query.Select

/-! # Graph patterns

`parser/sparql/ast.rs`: the algebra of a `WHERE` clause, and the layout of the variables that a
pattern can bind. -/

namespace GStore.Query

open Dict

inductive GraphTerm where
  | var (name : Text)
  | iri (iri : Text)

inductive ServiceRef where
  | iri (iri : Text)
  | var (name : Text)

inductive GraphPattern where
  | empty
  | bgp (patterns : List TriplePattern)
  | path (path : PathPattern)
  | join (left right : GraphPattern)
  | union (left right : GraphPattern)
  | filter (filters : List (Expr GraphPattern)) (inner : GraphPattern)
  /-- The filters are those inside the `OPTIONAL`. -/
  | leftJoin (left right : GraphPattern) (filters : List (Expr GraphPattern))
  | minus (left right : GraphPattern)
  | extend (inner : GraphPattern) (name : Text) (expr : Expr GraphPattern)
  | values (vars : List Text) (rows : List (List (Option Term)))
  | subSelect (query : SelectQuery GraphPattern)
  | graph (graph : GraphTerm) (inner : GraphPattern)
  | service (endpoint : ServiceRef) (silent : Bool) (inner : GraphPattern)

/-- A name comes behind the others, if it is not one of them. -/
def push (names : List Text) (name : Text) : List Text :=
  if names.contains name then names else names ++ [name]

theorem mem_push {names : List Text} {name other : Text} :
    other ∈ push names name ↔ other ∈ names ∨ other = name := by
  rw [push]
  split
  · rename_i known
    refine ⟨Or.inl, ?_⟩
    rintro (member | rfl)
    · exact member
    · exact List.contains_iff_mem.mp known
  · rw [List.mem_append, List.mem_singleton]

theorem mem_foldl_push {names pushed : List Text} {name : Text} :
    name ∈ pushed.foldl push names ↔ name ∈ names ∨ name ∈ pushed := by
  induction pushed generalizing names with
  | nil => simp
  | cons next rest induction =>
    rw [List.foldl_cons, induction, mem_push, List.mem_cons]
    tauto

def PatternTerm.var? : PatternTerm → Option Text
  | .var name => some name
  | .term _ => none

def TriplePattern.vars (pattern : TriplePattern) : List Text :=
  [pattern.subject, pattern.predicate, pattern.object].filterMap PatternTerm.var?

def PathPattern.vars (pattern : PathPattern) : List Text :=
  [pattern.subject, pattern.object].filterMap PatternTerm.var?

/-- The names of the result: those of the items, or all that the pattern collects. -/
def resultNames (projection : Projection GraphPattern) (collected : List Text) : List Text :=
  match projection with
  | .all => collected
  | .items items => items.map fun item =>
    match item with
    | .var name => name
    | .expr _ name => name

namespace GraphPattern

/-- `collect_vars`: the variables that a pattern can bind, behind those that are known. -/
def collectVars : GraphPattern → List Text → List Text
  | .empty, names => names
  | .bgp patterns, names => (patterns.flatMap TriplePattern.vars).foldl push names
  | .path pattern, names => pattern.vars.foldl push names
  | .join left right, names | .union left right, names | .minus left right, names =>
    right.collectVars (left.collectVars names)
  | .leftJoin left right _, names => right.collectVars (left.collectVars names)
  | .filter _ inner, names => inner.collectVars names
  | .extend inner name _, names => push (inner.collectVars names) name
  | .values vars _, names => vars.foldl push names
  | .subSelect ⟨_, projection, pattern, _, _, _, _, _⟩, names =>
    (resultNames projection (pattern.collectVars [])).foldl push names
  | .graph (.var name) inner, names => inner.collectVars (push names name)
  | .graph (.iri _) inner, names => inner.collectVars names
  | .service (.var name) _ inner, names => inner.collectVars (push names name)
  | .service (.iri _) _ inner, names => inner.collectVars names

/-- `collect_triples`: the triple patterns, without those of sub-queries. -/
def collectTriples : GraphPattern → List TriplePattern
  | .empty | .path _ | .values _ _ | .subSelect _ => []
  | .bgp patterns => patterns
  | .join left right | .union left right | .minus left right | .leftJoin left right _ =>
    left.collectTriples ++ right.collectTriples
  | .filter _ inner | .extend inner _ _ | .graph _ inner | .service _ _ inner =>
    inner.collectTriples

/-- The variables that a pattern can bind. -/
def Mentions (name : Text) : GraphPattern → Prop
  | .empty => False
  | .bgp patterns => name ∈ patterns.flatMap TriplePattern.vars
  | .path pattern => name ∈ pattern.vars
  | .join left right | .union left right | .minus left right | .leftJoin left right _ =>
    left.Mentions name ∨ right.Mentions name
  | .filter _ inner => inner.Mentions name
  | .extend inner other _ => inner.Mentions name ∨ name = other
  | .values vars _ => name ∈ vars
  | .subSelect ⟨_, projection, pattern, _, _, _, _, _⟩ =>
    name ∈ resultNames projection (pattern.collectVars [])
  | .graph (.var other) inner => name = other ∨ inner.Mentions name
  | .graph (.iri _) inner => inner.Mentions name
  | .service (.var other) _ inner => name = other ∨ inner.Mentions name
  | .service (.iri _) _ inner => inner.Mentions name

theorem mem_collectVars {name : Text} : ∀ (pattern : GraphPattern) (names : List Text),
    name ∈ pattern.collectVars names ↔ name ∈ names ∨ pattern.Mentions name
  | .empty, names => by simp [collectVars, Mentions]
  | .bgp _, names => mem_foldl_push
  | .path _, names => mem_foldl_push
  | .join left right, names | .union left right, names | .minus left right, names
  | .leftJoin left right _, names => by
      rw [collectVars, mem_collectVars right, mem_collectVars left, Mentions, or_assoc]
  | .filter _ inner, names => mem_collectVars inner names
  | .extend inner other _, names => by
      rw [collectVars, mem_push, mem_collectVars inner, Mentions, or_assoc]
  | .values _ _, names => mem_foldl_push
  | .subSelect ⟨_, _, _, _, _, _, _, _⟩, names => mem_foldl_push
  | .graph (.var _) inner, names => by
      rw [collectVars, mem_collectVars inner, mem_push, Mentions, or_assoc]
  | .graph (.iri _) inner, names => mem_collectVars inner names
  | .service (.var _) _ inner, names => by
      rw [collectVars, mem_collectVars inner, mem_push, Mentions, or_assoc]
  | .service (.iri _) _ inner, names => mem_collectVars inner names

end GraphPattern

/-- The layout of a pattern. A variable is one of predicates if it is the predicate of any of the
triples. -/
def VarLayout.build (pattern : GraphPattern) : VarLayout :=
  let names := pattern.collectVars []
  { names,
    isPred := names.map fun name =>
      pattern.collectTriples.any fun triple => triple.predicate.var? == some name }

theorem VarLayout.mem_build {pattern : GraphPattern} {name : Text} :
    name ∈ (VarLayout.build pattern).names ↔ pattern.Mentions name := by
  have collected := @GraphPattern.mem_collectVars name pattern []
  rwa [or_iff_right List.not_mem_nil] at collected

end GStore.Query
