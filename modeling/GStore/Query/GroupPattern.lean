import GStore.Foundation.PatternAlgebra
import GStore.Query.Pattern

/-! # Group graph patterns

`parser/sparql/mod.rs`: the text of a group and the tree that the parser builds of it. The algebra
of SPARQL translates the same text. The parser leaves an empty group out of a join, so that a group
around one other group is that other group. -/

namespace GStore.Query

/-! ## The parser -/

/-- What the parser meets in a group. An expression and the triples of one subject have parsers of
their own. -/
inductive Piece where
  | lBrace
  | rBrace
  | dot
  | optional
  | minus
  | union
  | filter (constraint : Expr GraphPattern)
  | triples (first : TriplePattern) (others : List TriplePattern)

inductive GroupProblem where
  | expectedBrace
  | expectedTerm
  | endOfQuery

/-- The variables of `parse_group_graph_pattern`. -/
structure GroupState where
  current : GraphPattern
  filters : List (Expr GraphPattern)
  pending : List TriplePattern

def joinOpt : GraphPattern → GraphPattern → GraphPattern
  | .empty, right => right
  | left, right => .join left right

def GroupState.flush (state : GroupState) : GroupState :=
  if state.pending.isEmpty then state
  else { state with current := joinOpt state.current (.bgp state.pending), pending := [] }

/-- Behind the closing brace. -/
def GroupState.finish (state : GroupState) : GraphPattern :=
  let state := state.flush
  if state.filters.isEmpty then state.current else .filter state.filters state.current

/-- A `FILTER` directly inside `OPTIONAL` becomes the condition of the join. -/
def optionally (current : GraphPattern) : GraphPattern → GraphPattern
  | .filter filters inner => .leftJoin current inner filters
  | other => .leftJoin current other []

mutual

def parseGroupGraphPattern :
    ℕ → List Piece → Except GroupProblem (GraphPattern × List Piece)
  | fuel + 1, .lBrace :: rest => groupLoop fuel ⟨.empty, [], []⟩ rest
  | _, _ => .error .expectedBrace

def groupLoop :
    ℕ → GroupState → List Piece → Except GroupProblem (GraphPattern × List Piece)
  | _ + 1, state, .rBrace :: rest => .ok (state.finish, rest)
  | fuel + 1, state, .dot :: rest => groupLoop fuel state rest
  | fuel + 1, state, .filter constraint :: rest =>
    groupLoop fuel { state with filters := state.filters ++ [constraint] } rest
  | fuel + 1, state, .optional :: rest => do
    let state := state.flush
    let (group, rest) ← parseGroupGraphPattern fuel rest
    groupLoop fuel { state with current := optionally state.current group } rest
  | fuel + 1, state, .minus :: rest => do
    let state := state.flush
    let (right, rest) ← parseGroupGraphPattern fuel rest
    groupLoop fuel { state with current := .minus state.current right } rest
  | fuel + 1, state, .lBrace :: rest => do
    let state := state.flush
    let (node, rest) ← parseGroupOrUnion fuel (.lBrace :: rest)
    groupLoop fuel { state with current := joinOpt state.current node } rest
  | fuel + 1, state, .triples first others :: rest =>
    groupLoop fuel { state with pending := state.pending ++ first :: others } rest
  | _, _, .union :: _ => .error .expectedTerm
  | _, _, _ => .error .endOfQuery

def parseGroupOrUnion :
    ℕ → List Piece → Except GroupProblem (GraphPattern × List Piece)
  | fuel + 1, pieces => do
    let (left, rest) ← parseGroupGraphPattern fuel pieces
    unionLoop fuel left rest
  | 0, _ => .error .expectedBrace

/-- The loop of `parse_group_or_union`. -/
def unionLoop :
    ℕ → GraphPattern → List Piece → Except GroupProblem (GraphPattern × List Piece)
  | fuel + 1, left, .union :: rest => do
    let (right, rest) ← parseGroupGraphPattern fuel rest
    unionLoop fuel (.union left right) rest
  | _, left, rest => .ok (left, rest)

end

/-- Three times the length is fuel enough. -/
def parseGroup (pieces : List Piece) : Except GroupProblem (GraphPattern × List Piece) :=
  parseGroupGraphPattern (3 * pieces.length) pieces

/-! ## The text -/

mutual

/-- What stands between the braces of a group. -/
inductive GroupText where
  | done
  | dot (rest : GroupText)
  | triples (first : TriplePattern) (others : List TriplePattern) (rest : GroupText)
  | filter (constraint : Expr GraphPattern) (rest : GroupText)
  | optional (group rest : GroupText)
  | minus (group rest : GroupText)
  | groups (groups : GroupOrUnion) (rest : GroupText)

/-- A group, or the union of some. -/
inductive GroupOrUnion where
  | one (group : GroupText)
  | union (left : GroupOrUnion) (right : GroupText)

end

def braced (body : List Piece) : List Piece := .lBrace :: (body ++ [.rBrace])

mutual

def GroupText.body : GroupText → List Piece
  | .done => []
  | .dot rest => .dot :: rest.body
  | .triples first others rest => .triples first others :: rest.body
  | .filter constraint rest => .filter constraint :: rest.body
  | .optional group rest => .optional :: (braced group.body ++ rest.body)
  | .minus group rest => .minus :: (braced group.body ++ rest.body)
  | .groups groups rest => groups.write ++ rest.body

def GroupOrUnion.write : GroupOrUnion → List Piece
  | .one group => braced group.body
  | .union left right => left.write ++ .union :: braced right.body

end

def GroupText.write (group : GroupText) : List Piece := braced group.body

/-! ## The algebra of the text -/

abbrev Algebra : Type := PatternAlgebra (List TriplePattern) (Expr GraphPattern)

/-- The `FILTER`s of a group that are not inside an inner group. -/
def GroupText.filters : GroupText → List (Expr GraphPattern)
  | .done => []
  | .filter constraint rest => constraint :: rest.filters
  | .dot rest | .triples _ _ rest | .optional _ rest | .minus _ rest | .groups _ rest =>
    rest.filters

/-- The filters of a group apply to all of it. -/
def filtered (filters : List (Expr GraphPattern)) (inner : Algebra) : Algebra :=
  if filters.isEmpty then inner else .filter filters inner

/-- `OPTIONAL`: the filters of a filtered group are the condition. -/
def conditionally (current : Algebra) : Algebra → Algebra
  | .filter filters inner => .leftJoin current inner filters
  | other => .leftJoin current other []

section Translate

variable (join : Algebra → Algebra → Algebra)

/-- Adjacent triples are one basic graph pattern. -/
def closed (current : Algebra) (pending : List TriplePattern) : Algebra :=
  if pending.isEmpty then current else join current (.basic pending)

mutual

/-- The elements of a group, joined to those before them one after the other. -/
def GroupText.joined (current : Algebra) (pending : List TriplePattern) : GroupText → Algebra
  | .done => closed join current pending
  | .dot rest | .filter _ rest => rest.joined current pending
  | .triples first others rest => rest.joined current (pending ++ first :: others)
  | .optional group rest =>
    rest.joined (conditionally (closed join current pending)
      (filtered group.filters (group.joined .unit []))) []
  | .minus group rest =>
    rest.joined (.minus (closed join current pending)
      (filtered group.filters (group.joined .unit []))) []
  | .groups groups rest => rest.joined (join (closed join current pending) groups.translate) []

def GroupOrUnion.translate : GroupOrUnion → Algebra
  | .one group => filtered group.filters (group.joined .unit [])
  | .union left right => .union left.translate (filtered right.filters (right.joined .unit []))

end

def GroupText.translate (group : GroupText) : Algebra :=
  filtered group.filters (group.joined join .unit [])

end Translate

/-- The translation of the text by the algebra of SPARQL. -/
def GroupText.algebra (group : GroupText) : Algebra := group.translate .join

/-- Nothing is joined to an empty pattern. -/
def joinUnlessUnit : Algebra → Algebra → Algebra
  | .unit, right => right
  | left, right => .join left right

/-- What the parser builds. -/
def GroupText.tree (group : GroupText) : Algebra := group.translate joinUnlessUnit

def patternOf : Algebra → GraphPattern
  | .unit => .empty
  | .basic patterns => .bgp patterns
  | .join left right => .join (patternOf left) (patternOf right)
  | .union left right => .union (patternOf left) (patternOf right)
  | .filter filters inner => .filter filters (patternOf inner)
  | .leftJoin left right filters => .leftJoin (patternOf left) (patternOf right) filters
  | .minus left right => .minus (patternOf left) (patternOf right)

/-! ## The parser reads the text -/

theorem patternOf_joinUnlessUnit (left right : Algebra) :
    patternOf (joinUnlessUnit left right) = joinOpt (patternOf left) (patternOf right) := by
  cases left <;> rfl

theorem patternOf_conditionally (current group : Algebra) :
    patternOf (conditionally current group) = optionally (patternOf current) (patternOf group) := by
  cases group <;> rfl

theorem flush_eq (current : Algebra) (filters : List (Expr GraphPattern))
    (pending : List TriplePattern) :
    GroupState.flush ⟨patternOf current, filters, pending⟩ =
      ⟨patternOf (closed joinUnlessUnit current pending), filters, []⟩ := by
  rw [GroupState.flush, closed]
  split
  · rename_i empty
    have none_ : pending = [] := List.isEmpty_iff.mp empty
    rw [none_]
  · rw [patternOf_joinUnlessUnit]
    rfl

theorem finish_eq (current : Algebra) (filters : List (Expr GraphPattern))
    (pending : List TriplePattern) :
    GroupState.finish ⟨patternOf current, filters, pending⟩ =
      patternOf (filtered filters (closed joinUnlessUnit current pending)) := by
  rw [GroupState.finish, flush_eq, filtered]
  dsimp only
  split
  · rfl
  · rfl

def GroupOrUnion.count : GroupOrUnion → ℕ
  | .one _ => 1
  | .union left _ => left.count + 1

theorem write_eq_cons : ∀ groups : GroupOrUnion, ∃ pieces, groups.write = .lBrace :: pieces
  | .one group => ⟨_, rfl⟩
  | .union left right => by
      obtain ⟨pieces, same⟩ := write_eq_cons left
      exact ⟨pieces ++ .union :: braced right.body, by rw [GroupOrUnion.write, same]; rfl⟩

theorem count_le_length : ∀ groups : GroupOrUnion, groups.count ≤ groups.write.length
  | .one group => by
      rw [GroupOrUnion.count, GroupOrUnion.write, braced, List.length_cons]
      omega
  | .union left right => by
      have before := count_le_length left
      rw [GroupOrUnion.count, GroupOrUnion.write, List.length_append, List.length_cons]
      omega

theorem length_braced (body : List Piece) : (braced body).length = body.length + 2 := by
  rw [braced, List.length_cons, List.length_append, List.length_singleton]

/-- No element of a group begins with `UNION`. -/
theorem unionLoop_body (fuel : ℕ) (left : GraphPattern) (group : GroupText) (rest : List Piece) :
    unionLoop fuel left (group.body ++ .rBrace :: rest) =
      .ok (left, group.body ++ .rBrace :: rest) := by
  cases group with
  | groups groups after =>
    obtain ⟨pieces, same⟩ := write_eq_cons groups
    rw [GroupText.body, same]
    cases fuel <;> rfl
  | _ => cases fuel <;> rfl

/-- A group in braces, once the loop reads what is between them. -/
theorem parse_braced (group : GroupText)
    (loop : ∀ {fuel : ℕ} (rest : List Piece), 3 * group.body.length < fuel →
      groupLoop fuel ⟨patternOf .unit, [], []⟩ (group.body ++ .rBrace :: rest) =
        .ok (patternOf group.tree, rest))
    {fuel : ℕ} (rest : List Piece) (enough : 3 * group.body.length + 1 < fuel) :
    parseGroupGraphPattern fuel (braced group.body ++ rest) =
      .ok (patternOf group.tree, rest) := by
  cases fuel with
  | zero => omega
  | succ fuel =>
    have pieces : braced group.body ++ rest = .lBrace :: (group.body ++ .rBrace :: rest) := by
      rw [braced, List.cons_append, List.append_assoc, List.singleton_append]
    rw [pieces, parseGroupGraphPattern]
    exact loop rest (by omega)

mutual

theorem groupLoop_body : ∀ (group : GroupText) {fuel : ℕ} (current : Algebra)
    (filters : List (Expr GraphPattern)) (pending : List TriplePattern) (rest : List Piece),
    3 * group.body.length < fuel →
    groupLoop fuel ⟨patternOf current, filters, pending⟩ (group.body ++ .rBrace :: rest) =
      .ok (patternOf (filtered (filters ++ group.filters)
        (group.joined joinUnlessUnit current pending)), rest)
  | .done, fuel + 1, current, filters, pending, rest, _ => by
      rw [GroupText.body, List.nil_append, groupLoop, finish_eq, GroupText.filters,
        List.append_nil]
      rfl
  | .dot after, fuel + 1, current, filters, pending, rest, enough => by
      rw [GroupText.body, List.length_cons] at enough
      rw [GroupText.body, List.cons_append, groupLoop]
      exact groupLoop_body after current filters pending rest (by omega)
  | .filter constraint after, fuel + 1, current, filters, pending, rest, enough => by
      rw [GroupText.body, List.length_cons] at enough
      rw [GroupText.body, List.cons_append, groupLoop]
      have loop := groupLoop_body after current (filters ++ [constraint]) pending rest
        (by omega : 3 * after.body.length < fuel)
      rwa [List.append_assoc] at loop
  | .triples first others after, fuel + 1, current, filters, pending, rest, enough => by
      rw [GroupText.body, List.length_cons] at enough
      rw [GroupText.body, List.cons_append, groupLoop]
      exact groupLoop_body after current filters (pending ++ first :: others) rest (by omega)
  | .optional group after, fuel + 1, current, filters, pending, rest, enough => by
      rw [GroupText.body, List.length_cons, List.length_append, length_braced] at enough
      have inner := parse_braced group
        (fun rest enough => groupLoop_body group .unit [] [] rest enough)
        (after.body ++ .rBrace :: rest) (by omega : 3 * group.body.length + 1 < fuel)
      have loop := groupLoop_body after
        (conditionally (closed joinUnlessUnit current pending) group.tree) filters [] rest
        (by omega : 3 * after.body.length < fuel)
      rw [GroupText.body, List.cons_append, List.append_assoc, groupLoop, flush_eq, inner]
      rw [patternOf_conditionally] at loop
      exact loop
  | .minus group after, fuel + 1, current, filters, pending, rest, enough => by
      rw [GroupText.body, List.length_cons, List.length_append, length_braced] at enough
      have inner := parse_braced group
        (fun rest enough => groupLoop_body group .unit [] [] rest enough)
        (after.body ++ .rBrace :: rest) (by omega : 3 * group.body.length + 1 < fuel)
      have loop := groupLoop_body after
        (.minus (closed joinUnlessUnit current pending) group.tree) filters [] rest
        (by omega : 3 * after.body.length < fuel)
      rw [GroupText.body, List.cons_append, List.append_assoc, groupLoop, flush_eq, inner]
      exact loop
  | .groups groups after, fuel + 1, current, filters, pending, rest, enough => by
      obtain ⟨pieces, isWrite⟩ := write_eq_cons groups
      have filled : 0 < groups.write.length := by
        rw [isWrite]
        exact Nat.succ_pos _
      have size := count_le_length groups
      rw [GroupText.body, List.length_append] at enough
      have read := parseGroupOrUnion_write groups (fuel - groups.count)
        (after.body ++ .rBrace :: rest) (by omega)
      rw [Nat.add_sub_cancel' (by omega), unionLoop_body] at read
      have loop := groupLoop_body after
        (joinUnlessUnit (closed joinUnlessUnit current pending)
          (groups.translate joinUnlessUnit)) filters [] rest
        (by omega : 3 * after.body.length < fuel)
      rw [isWrite, List.cons_append] at read
      rw [GroupText.body, List.append_assoc, isWrite, List.cons_append, groupLoop, flush_eq, read]
      rw [patternOf_joinUnlessUnit] at loop
      exact loop

theorem parseGroupOrUnion_write : ∀ (groups : GroupOrUnion) (extra : ℕ) (rest : List Piece),
    3 * groups.write.length ≤ groups.count + extra →
    parseGroupOrUnion (groups.count + extra) (groups.write ++ rest) =
      unionLoop extra (patternOf (groups.translate joinUnlessUnit)) rest
  | .one group, extra, rest, enough => by
      rw [GroupOrUnion.write, length_braced, GroupOrUnion.count] at enough
      have inner := parse_braced group
        (fun rest enough => groupLoop_body group .unit [] [] rest enough) rest
        (by omega : 3 * group.body.length + 1 < extra)
      rw [GroupOrUnion.count, Nat.add_comm, parseGroupOrUnion, GroupOrUnion.write, inner]
      rfl
  | .union left right, extra, rest, enough => by
      have size := count_le_length left
      rw [GroupOrUnion.write, List.length_append, List.length_cons, length_braced,
        GroupOrUnion.count] at enough
      have read := parseGroupOrUnion_write left (extra + 1)
        (.union :: (braced right.body ++ rest)) (by omega)
      have inner := parse_braced right
        (fun rest enough => groupLoop_body right .unit [] [] rest enough) rest
        (by omega : 3 * right.body.length + 1 < extra)
      rw [GroupOrUnion.count, Nat.add_right_comm, GroupOrUnion.write, List.append_assoc,
        List.cons_append]
      refine read.trans ?_
      rw [unionLoop, inner]
      rfl

end

/-- The parser reads a group to its tree. -/
theorem parseGroup_write (group : GroupText) :
    parseGroup group.write = .ok (patternOf group.tree, []) := by
  have enough : 3 * group.body.length + 1 < 3 * group.write.length := by
    rw [GroupText.write, length_braced]
    omega
  have read := parse_braced group
    (fun rest enough => groupLoop_body group .unit [] [] rest enough) [] enough
  rwa [List.append_nil] at read

end GStore.Query
