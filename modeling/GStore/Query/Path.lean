import GStore.Dict.Dictionary

/-! # Property paths

`query/engine.rs`, the evaluation of one property-path pattern over a dictionary
and a store. The source collects nodes in hash sets; here they are lists, in no
particular order. -/

namespace GStore.Query

open Dict Store

inductive PathExpr where
  | pred (iri : Text)
  | inverse (inner : PathExpr)
  | seq (first second : PathExpr)
  | alt (left right : PathExpr)
  | zeroOrOne (inner : PathExpr)
  | zeroOrMore (inner : PathExpr)
  | oneOrMore (inner : PathExpr)
  /-- Each member with a flag for the inverse direction. -/
  | negatedSet (members : List (Text × Bool))

inductive PatternTerm where
  | term (term : Term)
  | var (name : Text)

structure TriplePattern where
  subject : PatternTerm
  predicate : PatternTerm
  object : PatternTerm

structure PathPattern where
  subject : PatternTerm
  path : PathExpr
  object : PatternTerm

/-- One solution: a slot for each variable of the layout. -/
abbrev Binding := List (Option UInt32)

/-- The loop of `path_closure`. A node enters the frontier once, so the fuel is
never used up when it exceeds the number of ids. -/
def pathClosure (next : UInt32 → List UInt32) :
    Nat → List UInt32 → List UInt32 → List UInt32 → List UInt32
  | 0, _, _, out => out
  | _ + 1, [], _, out => out
  | fuel + 1, node :: frontier, visited, out =>
    let fresh := ((next node).filter fun id => !visited.contains id).dedup
    pathClosure next fuel (fresh.reverse ++ frontier) (visited ++ fresh) (out ++ fresh)

section Evaluate

variable (dict : Dictionary) (store : TripleStore)

def pathPredId (iri : Text) : Option UInt32 := dict.predicateId (Term.iri iri).dictKey

/-- The nodes reachable from a node along a path, or against it. -/
def pathReach : PathExpr → UInt32 → Bool → List UInt32
  | .pred iri, start, reverse =>
    match pathPredId dict iri with
    | some pred => if reverse then store.sByPo pred start else store.oBySp start pred
    | none => []
  | .inverse inner, start, reverse => pathReach inner start (!reverse)
  | .seq first second, start, reverse =>
    if reverse then
      ((pathReach second start reverse).flatMap fun middle =>
        pathReach first middle reverse).dedup
    else
      ((pathReach first start reverse).flatMap fun middle =>
        pathReach second middle reverse).dedup
  | .alt left right, start, reverse =>
    (pathReach left start reverse ++ pathReach right start reverse).dedup
  | .zeroOrOne inner, start, reverse => (start :: pathReach inner start reverse).dedup
  | .zeroOrMore inner, start, reverse =>
    pathClosure (fun node => pathReach inner node reverse) (2 ^ 32 + 1) [start] [start] [start]
  | .oneOrMore inner, start, reverse =>
    pathClosure (fun node => pathReach inner node reverse) (2 ^ 32 + 1) [start] [] []
  | .negatedSet members, start, reverse =>
    let banned := (members.filter fun member => member.2 == reverse).filterMap
      fun member => pathPredId dict member.1
    let steps := if reverse then store.psByO start else store.poByS start
    ((steps.filter fun step => !banned.contains step.1).map Prod.snd).dedup

/-- The pairs of end nodes, constrained by the ends that are known. -/
def pathPairs (path : PathExpr) (subject object : Option UInt32) : List (UInt32 × UInt32) :=
  match subject, object with
  | some start, object =>
    ((pathReach dict store path start false).filter fun stop =>
      object.all fun known => known == stop).map fun stop => (start, stop)
  | none, some stop =>
    (pathReach dict store path stop true).map fun start => (start, stop)
  | none, none =>
    (SortedSlice.sortDedup (store.subjectKeys ++ store.objectKeys)).flatMap fun start =>
      (pathReach dict store path start false).map fun stop => (start, stop)

end Evaluate

end GStore.Query
