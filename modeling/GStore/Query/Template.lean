import GStore.Dict.Reclaim
import GStore.Parser.NTriples
import GStore.Query.Path

/-! # Templates

`query/engine.rs`: what a `SELECT *` reports of the solutions of a pattern, and
the triples that `CONSTRUCT` and a modification make of them. -/

namespace GStore.Query

open Dict GStore.Parser

/-- The variables of a pattern, each with whether it stands for a predicate
somewhere. -/
structure VarLayout where
  names : List Text
  isPred : List Bool

def VarLayout.index (layout : VarLayout) (name : Text) : Option Nat :=
  if name ∈ layout.names then some (layout.names.idxOf name) else none

/-- The ids from here on are those of computed terms. -/
def synthBase : UInt32 := 4200000000

/-- What the evaluation of a pattern leaves: the rows, and the terms that it
computed. -/
structure Solutions where
  layout : VarLayout
  extras : List Term
  rows : List Binding

namespace Solutions

section Resolve

variable (dict : Dictionary) (solutions : Solutions)

/-- `resolve_string`. -/
def resolveString (id : Option UInt32) (isPred : Bool) : Option Text :=
  id.bind fun id =>
    if synthBase ≤ id then
      solutions.extras[(id - synthBase).toNat]?.map Term.display
    else if isPred then dict.predicateToString id
    else dict.idToString id

/-- The rows of a `SELECT *`, as strings. -/
def report : List (List (Option Text)) :=
  solutions.rows.map fun row => (row.zip solutions.layout.isPred).map fun slot =>
    resolveString dict solutions slot.1 slot.2

/-- The term for one position of a template. -/
def resolveTemplate (unicode : Alphanumeric) (row : Binding) (isPred : Bool) :
    PatternTerm → Option Term
  | .term term => some term
  | .var name => do
    let index ← solutions.layout.index name
    let typed := solutions.layout.isPred.getD index false
    let text ← resolveString dict solutions (row.getD index none) (isPred && typed)
    (NTriples.parseTerm unicode text).toOption

/-- Fill a template; without a term for each position there is no triple. -/
def instantiateTemplate (unicode : Alphanumeric) (row : Binding) (pattern : TriplePattern) :
    Option Triple := do
  let subject ← resolveTemplate dict solutions unicode row false pattern.subject
  let predicate ← resolveTemplate dict solutions unicode row true pattern.predicate
  let object ← resolveTemplate dict solutions unicode row false pattern.object
  return { subject, predicate, object }

/-- The first of the triples of each surface form. -/
def distinct (triples : List Triple) : List Triple :=
  triples.foldl (fun seen triple =>
    if triple.display ∈ seen.map Triple.display then seen else seen ++ [triple]) []

/-- The triples of the templates, row after row. -/
def instances (unicode : Alphanumeric) (templates : List TriplePattern) : List Triple :=
  distinct (solutions.rows.flatMap fun row =>
    templates.filterMap (instantiateTemplate dict solutions unicode row))

end Resolve

end Solutions

/-- A modification: its templates and its pattern. -/
structure Modify (Pattern : Type) where
  delete : List TriplePattern
  insert : List TriplePattern
  pattern : Pattern

namespace Solutions

section Instances

variable {dict : Dictionary} {solutions : Solutions} {unicode : Alphanumeric}

theorem mem_of_mem_distinct (triples : List Triple) :
    ∀ {triple : Triple}, triple ∈ distinct triples → triple ∈ triples := by
  have grows : ∀ (rest seen : List Triple) {triple : Triple},
      triple ∈ rest.foldl (fun seen triple =>
        if triple.display ∈ seen.map Triple.display then seen else seen ++ [triple]) seen →
      triple ∈ seen ∨ triple ∈ rest := by
    intro rest
    induction rest with
    | nil => exact fun seen triple member => .inl member
    | cons next rest induction =>
      intro seen triple member
      rcases induction _ member with before | later
      · dsimp only at before
        split at before
        · exact .inl before
        · rcases List.mem_append.mp before with old | here
          · exact .inl old
          · exact .inr (List.mem_cons.mpr (.inl (List.mem_singleton.mp here)))
      · exact .inr (List.mem_cons_of_mem _ later)
  intro triple member
  rcases grows triples [] member with before | here
  · cases before
  · exact here

theorem mem_instances {templates : List TriplePattern} {triple : Triple}
    (member : triple ∈ solutions.instances dict unicode templates) :
    ∃ row ∈ solutions.rows, ∃ pattern ∈ templates,
      instantiateTemplate dict solutions unicode row pattern = some triple := by
  rcases List.mem_flatMap.mp (mem_of_mem_distinct _ member) with ⟨row, rowMember, instantiated⟩
  rcases List.mem_filterMap.mp instantiated with ⟨pattern, patternMember, filled⟩
  exact ⟨row, rowMember, pattern, patternMember, filled⟩

end Instances

end Solutions

/-- `eval_update_modify`. -/
def evalUpdateModify (dict : Dictionary) (unicode : Alphanumeric) (solutions : Solutions)
    {Pattern : Type} (request : Modify Pattern) : List Triple × List Triple :=
  (solutions.instances dict unicode request.delete, solutions.instances dict unicode request.insert)

end GStore.Query
