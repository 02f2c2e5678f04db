import GStore.Model.Utf8
import GStore.Query.BgpPlans
import GStore.Query.Group
import GStore.Query.Pattern
import GStore.Query.Value

/-! # Substring push-down

`query/engine.rs`, `query/candidates.rs`: a filter over a basic graph pattern may ask for a
substring of a variable. The ids whose term has that substring are looked up in an index of the
dictionary, and the candidates of the variable are narrowed to them before the patterns are
joined. -/

namespace GStore.Query

open Dict Kvstore Store SortedSlice GStore.Parser

variable {Double Pattern Key : Type} {dict : Dictionary}

/-! ## Functions on strings -/

section Functions

variable (floats : Floats Double) (regex : Text → Option (Text → Bool))

/-- `str2_bool`. -/
def str2Bool (test : Text → Text → Bool) : Call (RuntimeValue Double) :=
  .value 0 fun first =>
    match first with
    | none => .answer none
    | some first => .value 1 fun second =>
      match second with
      | none => .answer none
      | some second =>
        .answer (some (.bool (test (first.lexical floats) (second.lexical floats))))

def strCall : Call (RuntimeValue Double) :=
  .value 0 fun value => .answer (value.map fun value => .str (value.lexical floats) none)

def isMatch (pattern text : Text) : Option (RuntimeValue Double) :=
  (regex pattern).map fun test => .bool (test text)

/-- The flags come after the text and the pattern. -/
def regexCall (count : ℕ) : Call (RuntimeValue Double) :=
  .value 0 fun text =>
    match text with
    | none => .answer none
    | some text => .value 1 fun pattern =>
      match pattern with
      | none => .answer none
      | some pattern =>
        if 2 < count then .value 2 fun flags =>
          match flags with
          | none => .answer none
          | some flags =>
            if (flags.lexical floats).contains 'i' then
              .answer (isMatch regex ("(?i)".toList ++ pattern.lexical floats)
                (text.lexical floats))
            else .answer (isMatch regex (pattern.lexical floats) (text.lexical floats))
        else .answer (isMatch regex (pattern.lexical floats) (text.lexical floats))

/-- The functions that ask for substrings, before all `other` ones. -/
def stringCall (other : Text → ℕ → Call (RuntimeValue Double)) (name : Text) (count : ℕ) :
    Call (RuntimeValue Double) :=
  if name = "STR".toList then strCall floats
  else if name = "CONTAINS".toList then str2Bool floats fun text needle => needle <:+: text
  else if name = "STRSTARTS".toList then str2Bool floats fun text needle => needle <+: text
  else if name = "STRENDS".toList then str2Bool floats fun text needle => needle <:+ text
  else if name = "REGEX".toList then regexCall floats regex count
  else other name count

/-- An evaluator of runtime values with these functions. -/
def Evaluator.withStrings (base : Evaluator (RuntimeValue Double) Pattern Key) :
    Evaluator (RuntimeValue Double) Pattern Key :=
  { base with
    fromTerm := RuntimeValue.fromTerm floats
    bool := .bool
    ebv := RuntimeValue.ebv floats
    builtin := stringCall floats regex base.builtin }

end Functions

/-! ## Constraints -/

def VarLayout.slot? (layout : VarLayout) (name : Text) : Option (Fin layout.names.length) :=
  if known : layout.names.contains name then
    some ⟨layout.names.idxOf name, List.idxOf_lt_length_of_mem (List.contains_iff_mem.mp known)⟩
  else none

theorem VarLayout.index_eq (layout : VarLayout) (name : Text) :
    layout.index name = (layout.slot? name).map Fin.val := by
  rw [index, slot?]
  by_cases known : name ∈ layout.names
  · rw [if_pos known, dif_pos (List.contains_iff_mem.mpr known)]
    rfl
  · rw [if_neg known, dif_neg fun held => known (List.contains_iff_mem.mp held)]
    rfl

/-- The substrings that variables must have. -/
abbrev Constraints (width : ℕ) : Type := List (Fin width × Text)

section Constraints

variable (floats : Floats Double) (layout : VarLayout)

/-- A variable, or its string. -/
def substrTargetVar : Expr Pattern → Option (Fin layout.names.length)
  | .var name => layout.slot? name
  | .builtin name [arg] => if name = "STR".toList then substrTargetVar arg else none
  | _ => none

def constString : Expr Pattern → Option Text
  | .const term => some ((RuntimeValue.fromTerm floats term).lexical floats)
  | _ => none

def metacharacters : Bytes := utf8 ".^$*+?()[]\x7b\x7d|\\".toList

def isPlainLiteralRegex (pattern : Text) : Bool :=
  !pattern.isEmpty && !(utf8 pattern).any metacharacters.contains

/-- What a call with two arguments asks its first one to contain. -/
def needleOf (name : Text) : List (Expr Pattern) → Option Text
  | [_, needle] =>
    if name = "CONTAINS".toList ∨ name = "STRSTARTS".toList ∨ name = "STRENDS".toList then
      constString floats needle
    else if name = "REGEX".toList then (constString floats needle).filter isPlainLiteralRegex
    else none
  | _ => none

/-- `collect_substr_constraints`. The first argument of a call is looked at before its name is. -/
def collectSubstrConstraints : Expr Pattern → Eval (Constraints layout.names.length)
  | .and left right => do
    let lefts ← collectSubstrConstraints left
    let rights ← collectSubstrConstraints right
    return lefts ++ rights
  | .builtin _ [] => .error .outOfBounds
  | .builtin name (target :: args) =>
    match substrTargetVar layout target, needleOf floats name (target :: args) with
    | some index, some needle => .ok (if 3 ≤ (utf8 needle).length then [(index, needle)] else [])
    | _, _ => .ok []
  | _ => .ok []

def filterStringConstraints :
    List (Expr Pattern) → Eval (Constraints layout.names.length)
  | [] => .ok []
  | expr :: rest => do
    let first ← collectSubstrConstraints floats layout expr
    let others ← filterStringConstraints rest
    return first ++ others

end Constraints

/-! ## The index of the dictionary -/

/-- `STRING_INDEX_MIN_ENTRIES`. -/
def stringIndexMinEntries : ℕ := 64

def internerEntries (interner : Interner) : List (UInt32 × Text) :=
  interner.backward.zipIdx.filterMap fun slot =>
    slot.1.map fun text => (UInt32.ofNat slot.2, text)

def entityLiteralEntries (dict : Dictionary) : List (UInt32 × Text) :=
  internerEntries dict.entities ++ (internerEntries dict.literals).map fun entry =>
    (entry.1 + UInt32.ofNat literalFirstId, entry.2)

section Index

variable (floats : Floats Double) (unicode : Alphanumeric)

/-- The string that a filter compares. -/
def indexKey (text : Text) : Text :=
  match NTriples.parseTerm unicode text with
  | .ok term => (RuntimeValue.fromTerm floats term).lexical floats
  | .error _ => text

def stringIndex (dict : Dictionary) : Option StringIndex :=
  let entries := entityLiteralEntries dict
  if stringIndexMinEntries ≤ entries.length then
    some (.build (entries.map fun entry => (entry.1, utf8 (indexKey floats unicode entry.2))))
  else none

end Index

section Refine

variable {width : ℕ} (index : StringIndex)

/-- The loop over the needles of a variable. -/
def needleIds : Option (List UInt32) → List Text → Option (List UInt32)
  | set, [] => set
  | set, needle :: rest =>
    let found := index.containsCandidates (utf8 needle)
    let next :=
      match set with
      | none => found
      | some ids => intersectSorted ids found
    if next.isEmpty then some next else needleIds (some next) rest

/-- Only a variable of subjects and objects is narrowed. -/
def substringSets (plans : List (PatPlan width)) (constraints : Constraints width) :
    Candidates width := fun variable_ =>
  let isNode := plans.any fun plan =>
    decide (plan.s = .var variable_) || decide (plan.o = .var variable_)
  let isPred := plans.any fun plan => decide (plan.p = .var variable_)
  if isNode && !isPred then
    let needles := (constraints.filter fun constraint => constraint.1 = variable_).map Prod.snd
    (needleIds index none needles).map fun ids => ⟨sortDedup ids, sortDedup_pairwise ids⟩
  else none

def refineWithSubstrings (cands : Candidates width) (constraints : Constraints width)
    (plans : List (PatPlan width)) : Candidates width :=
  narrow cands (substringSets index plans constraints)

end Refine

section Refine

variable {width : ℕ} {index : StringIndex}

/-- A variable of subjects or objects, and of no predicate. -/
structure OnlyNode (plans : List (PatPlan width)) (variable_ : Fin width) : Prop where
  node : ∃ plan ∈ plans, plan.s = .var variable_ ∨ plan.o = .var variable_
  notPred : ∀ plan ∈ plans, plan.p ≠ .var variable_

/-- An id that is a candidate for every needle is in their set. -/
theorem mem_needleIds (indexed : index.Indexed) {id : UInt32} {needles : List Text}
    (found : ∀ needle ∈ needles, id ∈ index.containsCandidates (utf8 needle))
    {set : Option (List UInt32)} {ids : List UInt32}
    (sorted : ∀ start, set = some start → start.Pairwise (· < ·) ∧ id ∈ start)
    (result : needleIds index set needles = some ids) : id ∈ ids := by
  induction needles generalizing set with
  | nil => exact (sorted ids result).2
  | cons needle rest induction =>
    have parts := List.forall_mem_cons.mp found
    have candidates := (indexed.containsCandidates (utf8 needle)).1
    cases set with
    | none =>
      rw [needleIds] at result
      split at result
      · rw [← Option.some.inj result]
        exact parts.1
      · refine induction parts.2 ?_ result
        intro start same
        rw [← Option.some.inj same]
        exact ⟨candidates, parts.1⟩
    | some before =>
      obtain ⟨beforeSorted, member⟩ := sorted before rfl
      have both := mem_intersectSorted beforeSorted candidates member parts.1
      rw [needleIds] at result
      split at result
      · rw [← Option.some.inj result]
        exact both
      · refine induction parts.2 ?_ result
        intro start same
        rw [← Option.some.inj same]
        exact ⟨beforeSorted.sublist (intersectSorted_sublist _ _), both⟩

theorem candOk_substringSets (indexed : index.Indexed) {plans : List (PatPlan width)}
    {constraints : Constraints width} {variable_ : Fin width} {id : UInt32}
    (found : OnlyNode plans variable_ → ∀ needle, (variable_, needle) ∈ constraints →
      id ∈ index.containsCandidates (utf8 needle)) :
    candOk (.var variable_) id (substringSets index plans constraints) = true := by
  rw [candOk, substringSets]
  dsimp only
  split
  case h_1 => rfl
  case h_2 ids isSet =>
      split at isSet
      case isFalse => cases isSet
      case isTrue node =>
          rw [Bool.and_eq_true, Bool.not_eq_true', List.any_eq_true, List.any_eq_false] at node
          obtain ⟨list, needles, rfl⟩ := Option.map_eq_some_iff.mp isSet
          rw [List.contains_iff_mem, mem_sortDedup]
          refine mem_needleIds indexed ?_ (fun _ none_ => by cases none_) needles
          intro needle member
          obtain ⟨⟨other, text⟩, inside, rfl⟩ := List.mem_map.mp member
          obtain ⟨member, same⟩ := List.mem_filter.mp inside
          rw [decide_eq_true_eq] at same
          refine found ⟨?_, fun plan member => ?_⟩ _ (same ▸ member)
          · obtain ⟨plan, member, isNode⟩ := node.1
            rw [Bool.or_eq_true, decide_eq_true_eq, decide_eq_true_eq] at isNode
            exact ⟨plan, member, isNode⟩
          · exact fun isPred => node.2 plan member (decide_eq_true isPred)

theorem free_substringSets {plans : List (PatPlan width)} {constraints : Constraints width}
    {plan : PatPlan width} (member : plan ∈ plans) :
    plan.Free (substringSets index plans constraints) := by
  intro value
  cases slot : plan.p with
  | const id => rfl
  | var variable_ =>
    have isPred : (plans.any fun plan => decide (plan.p = .var variable_)) = true :=
      List.any_eq_true.mpr ⟨plan, member, decide_eq_true slot⟩
    rw [candOk, substringSets, isPred, Bool.not_true, Bool.and_false]
    rfl

end Refine

/-! ## The entries of the dictionary -/

theorem mem_internerEntries {interner : Interner} {id : UInt32} {text : Text}
    (resolved : interner.resolve id = some text) : (id, text) ∈ internerEntries interner := by
  rw [Interner.resolve, Option.join_eq_some_iff] at resolved
  refine List.mem_filterMap.mpr ⟨(some text, id.toNat), ?_, ?_⟩
  · exact List.mem_zipIdx_iff_getElem?.mpr resolved
  · rw [Option.map_some, UInt32.ofNat_toNat]

theorem lt_of_mem_internerEntries {interner : Interner} {entry : UInt32 × Text}
    (member : entry ∈ internerEntries interner) :
    ∃ index, index < interner.backward.length ∧ entry.1 = UInt32.ofNat index := by
  obtain ⟨⟨slot, index⟩, inside, isEntry⟩ := List.mem_filterMap.mp member
  obtain ⟨text, -, rfl⟩ := Option.map_eq_some_iff.mp isEntry
  exact ⟨index, (List.getElem?_eq_some_iff.mp (List.mem_zipIdx_iff_getElem?.mp inside)).1, rfl⟩

theorem nodup_internerEntries {interner : Interner}
    (bounded : interner.backward.length ≤ UInt32.size) :
    ((internerEntries interner).map Prod.fst).Nodup := by
  have indices : (interner.backward.zipIdx.map Prod.snd).Nodup := by
    rw [List.zipIdx_map_snd]
    exact List.nodup_range'
  have slots := List.pairwise_map.mp indices
  refine List.pairwise_map.mpr (List.pairwise_filterMap.mpr ?_)
  refine slots.imp_of_mem fun {left right} inLeft inRight different => ?_
  intro first isFirst second isSecond same
  obtain ⟨text, -, rfl⟩ := Option.map_eq_some_iff.mp isFirst
  obtain ⟨other, -, rfl⟩ := Option.map_eq_some_iff.mp isSecond
  have leftLt := (List.getElem?_eq_some_iff.mp (List.mem_zipIdx_iff_getElem?.mp inLeft)).1
  have rightLt := (List.getElem?_eq_some_iff.mp (List.mem_zipIdx_iff_getElem?.mp inRight)).1
  refine different ?_
  have values := congrArg UInt32.toNat same
  rwa [UInt32.toNat_ofNat_of_lt' (lt_of_lt_of_le leftLt bounded),
    UInt32.toNat_ofNat_of_lt' (lt_of_lt_of_le rightLt bounded)] at values

theorem mem_entityLiteralEntries {id : UInt32} {text : Text}
    (shown : dict.idToString id = some text) : (id, text) ∈ entityLiteralEntries dict := by
  rw [Dictionary.idToString] at shown
  split at shown
  case isTrue => cases shown
  case isFalse =>
      split at shown
      case isTrue =>
          refine List.mem_append_right _ (List.mem_map.mpr ⟨_, mem_internerEntries shown, ?_⟩)
          rw [UInt32.sub_add_cancel]
      case isFalse => exact List.mem_append_left _ (mem_internerEntries shown)

theorem nodup_entityLiteralEntries (valid : dict.Valid) :
    ((entityLiteralEntries dict).map Prod.fst).Nodup := by
  have size : UInt32.size = 2 ^ 32 := rfl
  have first : literalFirstId = 2000000000 := rfl
  have shift : (UInt32.ofNat literalFirstId).toNat = literalFirstId := rfl
  have entities := valid.entities_bounded
  have literals := valid.literals_bounded
  rw [entityLiteralEntries, List.map_append, List.map_map]
  refine List.nodup_append'.mpr ⟨nodup_internerEntries (by omega), ?_, ?_⟩
  · have shifted : (Prod.fst ∘ fun entry : UInt32 × Text =>
        (entry.1 + UInt32.ofNat literalFirstId, entry.2)) =
        (· + UInt32.ofNat literalFirstId) ∘ Prod.fst := rfl
    rw [shifted, ← List.map_map]
    exact (nodup_internerEntries (by omega)).map fun left right same => by simpa using same
  · intro id inEntities inLiterals
    obtain ⟨entity, isEntity, rfl⟩ := List.mem_map.mp inEntities
    obtain ⟨literal, isLiteral, same⟩ := List.mem_map.mp inLiterals
    obtain ⟨low, lowLt, isLow⟩ := lt_of_mem_internerEntries isEntity
    obtain ⟨high, highLt, isHigh⟩ := lt_of_mem_internerEntries isLiteral
    have values := congrArg UInt32.toNat same
    rw [Function.comp_apply, isLow, isHigh, UInt32.toNat_add, shift,
      UInt32.toNat_ofNat_of_lt' (by omega), UInt32.toNat_ofNat_of_lt' (by omega),
      Nat.mod_eq_of_lt (by omega)] at values
    omega

/-- The index holds for every id the string that a filter compares. -/
theorem stringIndex_spec {floats : Floats Double} {unicode : Alphanumeric} (valid : dict.Valid)
    {index : StringIndex} (isIndex : stringIndex floats unicode dict = some index) :
    index.Indexed ∧ ∀ id text, dict.idToString id = some text →
      index.byId.lookup id = some (utf8 (indexKey floats unicode text)) := by
  rw [stringIndex] at isIndex
  split at isIndex
  case isFalse => cases isIndex
  case isTrue =>
      obtain rfl := Option.some.inj isIndex
      have keys : ((entityLiteralEntries dict).map fun entry =>
          (entry.1, utf8 (indexKey floats unicode entry.2))).map Prod.fst =
          (entityLiteralEntries dict).map Prod.fst := by
        rw [List.map_map]
        rfl
      have unique := nodup_entityLiteralEntries valid
      rw [← keys] at unique
      refine ⟨StringIndex.indexed_build unique, fun id text shown => ?_⟩
      have entry := List.mem_map_of_mem
        (f := fun entry => (entry.1, utf8 (indexKey floats unicode entry.2)))
        (mem_entityLiteralEntries shown)
      refine (StringIndex.lookup_foldl_gather _ id).trans ?_
      refine lookup_eq_some_of_mem ?_ (List.mem_reverse.mpr entry)
      rwa [List.map_reverse, List.nodup_reverse]

/-! ## Evaluation -/

/-- What a basic graph pattern and its filters are evaluated with. The candidates of the edges and
signatures and the choice of a plan are any functions; a plan may also be one that was cached. -/
structure BgpEngine (Double Key : Type) where
  base : Evaluator (RuntimeValue Double) GraphPattern Key
  floats : Floats Double
  valid : base.dict.Valid
  regex : Text → Option (Text → Bool)
  /-- A pattern without metacharacters matches the texts that contain it. -/
  plain : ∀ pattern, isPlainLiteralRegex pattern = true → ∃ test, regex pattern = some test ∧
    ∀ text, test text = true ↔ pattern <:+: text
  source : TripleSource
  triples : Finset IdTriple
  describes : source.Describes triples
  candidates : ∀ {width : ℕ}, List (PatPlan width) → Candidates width
  optimize : ∀ {width : ℕ} (plans : List (PatPlan width)), Candidates width →
    ExecPlan plans.length

/-- The row as a solution: all its ids are stored ones. -/
def Row.solution {width : ℕ} (row : Row width) : Solution :=
  List.ofFn fun index => (row index).map .stored

namespace BgpEngine

section Evaluate

variable (engine : BgpEngine Double Key) (layout : VarLayout)

def evaluator : Evaluator (RuntimeValue Double) GraphPattern Key :=
  engine.base.withStrings engine.floats engine.regex

def variableSlot (name : Text) : Eval (Slot layout.names.length) :=
  match layout.slot? name with
  | some index => .ok (.var index)
  | none => .error .outOfBounds

def compileNodeSlot : PatternTerm → Eval (Option (Slot layout.names.length))
  | .var name => do return some (← variableSlot layout name)
  | .term term => .ok ((engine.base.dict.termId term).map .const)

/-- Only an IRI can be a predicate. -/
def compilePredSlot : PatternTerm → Eval (Option (Slot layout.names.length))
  | .var name => do return some (← variableSlot layout name)
  | .term (.iri iri) => .ok ((engine.base.dict.predicateId (Term.iri iri).dictKey).map .const)
  | .term _ => .ok none

def compilePattern (pattern : TriplePattern) : Eval (Option (PatPlan layout.names.length)) := do
  match ← engine.compileNodeSlot layout pattern.subject with
  | none => return none
  | some s =>
    match ← engine.compilePredSlot layout pattern.predicate with
    | none => return none
    | some p =>
      match ← engine.compileNodeSlot layout pattern.object with
      | none => return none
      | some o => return some { s, p, o }

/-- Nothing if a constant is not known. -/
def compilePatterns : List TriplePattern → Eval (Option (List (PatPlan layout.names.length)))
  | [] => .ok (some [])
  | pattern :: rest => do
    match ← engine.compilePattern layout pattern with
    | none => return none
    | some plan => do
      let plans ← compilePatterns rest
      return plans.map (plan :: ·)

/-- The candidates of a list of compiled patterns under some constraints. -/
def constrained (plans : List (PatPlan layout.names.length))
    (constraints : Constraints layout.names.length) : Candidates layout.names.length :=
  match stringIndex engine.floats engine.base.unicode engine.base.dict with
  | some index => refineWithSubstrings index (engine.candidates plans) constraints plans
  | none => engine.candidates plans

/-- The candidates that the plan is chosen for. -/
def planned (plans : List (PatPlan layout.names.length))
    (constraints : Constraints layout.names.length) : Candidates layout.names.length :=
  if constraints.isEmpty then engine.candidates plans
  else engine.constrained layout plans constraints

/-- `eval_bgp_constrained`. -/
def evalBgpConstrained (patterns : List TriplePattern)
    (constraints : Constraints layout.names.length) : Eval (List (Row layout.names.length)) := do
  match ← engine.compilePatterns layout patterns with
  | none => return []
  | some plans =>
    if plans.isEmpty then return [unboundRow layout.names.length]
    else
      let cands := engine.planned layout plans constraints
      return runPlan engine.source cands plans (engine.optimize plans cands)

/-- `all` over the filters, which stops at the first that is not true. -/
def keeps (row : Row layout.names.length) : List (Expr GraphPattern) → Eval Bool
  | [] => .ok true
  | expr :: rest => do
    let result ← engine.evaluator.evaluate ⟨layout, row.solution⟩ expr
    if result.2 = some true then keeps row rest else return false

def retain (filters : List (Expr GraphPattern)) :
    List (Row layout.names.length) → Eval (List (Row layout.names.length))
  | [] => .ok []
  | row :: rest => do
    let kept ← engine.keeps layout row filters
    let others ← retain filters rest
    return if kept then row :: others else others

/-- `eval_pattern` of a `Filter` over a `Bgp`. -/
def evalFilterBgp (filters : List (Expr GraphPattern)) (patterns : List TriplePattern) :
    Eval (List (Row layout.names.length)) := do
  let constraints ← filterStringConstraints engine.floats layout filters
  let rows ← engine.evalBgpConstrained layout patterns constraints
  engine.retain layout filters rows

/-- The filters over the pattern without constraints. -/
def filterBgp (filters : List (Expr GraphPattern)) (patterns : List TriplePattern) :
    Eval (List (Row layout.names.length)) := do
  let rows ← engine.evalBgpConstrained layout patterns []
  engine.retain layout filters rows

/-- The push-down does not change the rows. -/
def PushesInvisibly (filters : List (Expr GraphPattern)) (patterns : List TriplePattern) : Prop :=
  ∀ rows, engine.filterBgp layout filters patterns = .ok rows →
    engine.evalFilterBgp layout filters patterns = .ok rows

end Evaluate

/-! ## What a filter asks for -/

section Filters

variable {engine : BgpEngine Double Key} {layout : VarLayout} {row : Row layout.names.length}
  {filters : List (Expr GraphPattern)} {constraints : Constraints layout.names.length}

theorem lookup_solution {α : Type} (read : SlotId → Bool → Option α) (name : Text) :
    Evaluator.lookup ⟨layout, row.solution⟩ read name =
      .ok ((layout.slot? name).bind fun index =>
        (row index).bind fun id => read (.stored id) (layout.isPred.getD index false)) := by
  rw [Evaluator.lookup]
  dsimp only
  rw [VarLayout.index_eq]
  cases layout.slot? name with
  | none => rfl
  | some index =>
    have held : (row.solution)[index.val]? = some ((row index).map .stored) := by
      rw [Row.solution, List.getElem?_ofFn, dif_pos index.isLt]
    rw [Option.map_some]
    dsimp only
    rw [Scope.slot]
    dsimp only
    rw [held, Option.bind_some]
    change Except.ok (((row index).map SlotId.stored).bind _) = _
    rw [Option.bind_map]
    rfl

/-- What the row says of a variable contains the needle. -/
def Holds (engine : BgpEngine Double Key) (layout : VarLayout) (row : Row layout.names.length)
    (index : Fin layout.names.length) (needle : Text) : Prop :=
  ∃ id value, row index = some id ∧
    engine.evaluator.idToValue (.stored id) (layout.isPred.getD index false) = some value ∧
    needle <:+: value.lexical engine.floats

theorem evaluate_builtin {name : Text} (notBound : name ≠ "BOUND".toList)
    (args : List (Expr GraphPattern)) :
    engine.evaluator.evaluate ⟨layout, row.solution⟩ (.builtin name args) = (do
      let value ← (engine.evaluator.call name args.length).run
        (engine.evaluator.evaluateAll ⟨layout, row.solution⟩ args)
      return engine.evaluator.valued value) := by
  rw [Evaluator.evaluate, if_neg notBound]

/-- A variable and its strings have one lexical form. -/
theorem lexical_target {index : Fin layout.names.length} :
    ∀ {target : Expr GraphPattern}, substrTargetVar layout target = some index →
    ∀ {result : Option (RuntimeValue Double) × Option Bool} {value : RuntimeValue Double},
      engine.evaluator.evaluate ⟨layout, row.solution⟩ target = .ok result →
      result.1 = some value →
      ∃ id held, row index = some id ∧
        engine.evaluator.idToValue (.stored id) (layout.isPred.getD index false) = some held ∧
        value.lexical engine.floats = held.lexical engine.floats
  | .var name, isTarget, result, value, evaluated, isValue => by
      have isSlot : layout.slot? name = some index := isTarget
      rw [Evaluator.evaluate, lookup_solution, isSlot] at evaluated
      obtain rfl := Except.ok.inj evaluated
      obtain ⟨id, held, read⟩ := Option.bind_eq_some_iff.mp isValue
      exact ⟨id, value, held, read, rfl⟩
  | .builtin name [arg], isTarget, result, value, evaluated, isValue => by
      rw [substrTargetVar] at isTarget
      split at isTarget
      case isFalse => cases isTarget
      case isTrue isStr =>
          subst isStr
          rw [evaluate_builtin (by decide), Evaluator.evaluateAll, Evaluator.evaluateAll] at evaluated
          obtain ⟨answer, ran, answered⟩ := bind_eq_ok.mp evaluated
          obtain rfl := Except.ok.inj answered
          obtain ⟨inner, evaluatedArg, answered⟩ := bind_eq_ok.mp ran
          obtain rfl := Except.ok.inj answered
          obtain ⟨string, isString, rfl⟩ := Option.map_eq_some_iff.mp isValue
          obtain ⟨id, held, isId, read, same⟩ := lexical_target isTarget evaluatedArg isString
          exact ⟨id, held, isId, read, same⟩

theorem constString_eq {floats : Floats Double} {expr : Expr GraphPattern} {needle : Text}
    (const : constString floats expr = some needle) :
    ∃ term, expr = .const term ∧ needle = (RuntimeValue.fromTerm floats term).lexical floats := by
  cases expr with
  | const term => exact ⟨term, rfl, (Option.some.inj const).symm⟩
  | _ => cases const

/-- A test of two strings that is true. -/
theorem str2Bool_true {floats : Floats Double} {test : Text → Text → Bool}
    {results : Results (RuntimeValue Double)} {value : RuntimeValue Double}
    (ran : (str2Bool floats test).run results = .ok (some value))
    (true_ : value.ebv floats = some true) :
    ∃ first second, results.get 0 = .ok first ∧ results.get 1 = .ok second ∧
      ∃ text needle, first.1 = some text ∧ second.1 = some needle ∧
        test (text.lexical floats) (needle.lexical floats) = true := by
  obtain ⟨first, isFirst, ran⟩ := bind_eq_ok.mp ran
  cases text : first.1 with
  | none =>
    rw [text] at ran
    cases ran
  | some textValue =>
    rw [text] at ran
    obtain ⟨second, isSecond, ran⟩ := bind_eq_ok.mp ran
    cases needle : second.1 with
    | none =>
      rw [needle] at ran
      cases ran
    | some needleValue =>
      rw [needle] at ran
      obtain rfl := Option.some.inj (Except.ok.inj ran)
      exact ⟨first, second, isFirst, isSecond, textValue, needleValue, text, needle,
        Option.some.inj true_⟩

/-- A match that is true. -/
theorem regexCall_true {floats : Floats Double} {regex : Text → Option (Text → Bool)}
    {results : Results (RuntimeValue Double)} {value : RuntimeValue Double}
    (ran : (regexCall floats regex 2).run results = .ok (some value))
    (true_ : value.ebv floats = some true) :
    ∃ first second, results.get 0 = .ok first ∧ results.get 1 = .ok second ∧
      ∃ text pattern, first.1 = some text ∧ second.1 = some pattern ∧
        ∃ test, regex (pattern.lexical floats) = some test ∧
          test (text.lexical floats) = true := by
  obtain ⟨first, isFirst, ran⟩ := bind_eq_ok.mp ran
  cases text : first.1 with
  | none =>
    rw [text] at ran
    cases ran
  | some textValue =>
    rw [text] at ran
    obtain ⟨second, isSecond, ran⟩ := bind_eq_ok.mp ran
    cases pattern : second.1 with
    | none =>
      rw [pattern] at ran
      cases ran
    | some patternValue =>
      rw [pattern] at ran
      have matched := Except.ok.inj ran
      obtain ⟨test, compiled, rfl⟩ := Option.map_eq_some_iff.mp matched
      exact ⟨first, second, isFirst, isSecond, textValue, patternValue, text, pattern, test,
        compiled, Option.some.inj true_⟩

/-- What a call with two arguments runs to. -/
theorem run_of_evaluate {name : Text} {first second : Expr GraphPattern}
    {result : Option (RuntimeValue Double) × Option Bool} {call : Call (RuntimeValue Double)}
    (notBound : name ≠ "BOUND".toList) (isCall : engine.evaluator.call name 2 = call)
    (evaluated : engine.evaluator.evaluate ⟨layout, row.solution⟩
      (.builtin name [first, second]) = .ok result)
    (true_ : result.2 = some true) :
    ∃ value, call.run (engine.evaluator.evaluateAll ⟨layout, row.solution⟩ [first, second]) =
      .ok (some value) ∧ value.ebv engine.floats = some true := by
  rw [evaluate_builtin notBound, List.length_cons, List.length_singleton, isCall] at evaluated
  obtain ⟨answer, ran, answered⟩ := bind_eq_ok.mp evaluated
  obtain rfl := Except.ok.inj answered
  obtain ⟨value, rfl, isTrue⟩ := Option.bind_eq_some_iff.mp true_
  exact ⟨value, ran, isTrue⟩

section Calls

variable {name : Text} {target second : Expr GraphPattern} {index : Fin layout.names.length}
  {needle : Text} {result : Option (RuntimeValue Double) × Option Bool}

theorem holds_str2Bool (isTarget : substrTargetVar layout target = some index)
    (const : constString engine.floats second = some needle) {test : Text → Text → Bool}
    (sound : ∀ text needle, test text needle = true → needle <:+: text)
    (notBound : name ≠ "BOUND".toList)
    (isCall : engine.evaluator.call name 2 = str2Bool engine.floats test)
    (evaluated : engine.evaluator.evaluate ⟨layout, row.solution⟩
      (.builtin name [target, second]) = .ok result)
    (true_ : result.2 = some true) : engine.Holds layout row index needle := by
  obtain ⟨term, rfl, rfl⟩ := constString_eq const
  obtain ⟨value, ran, isTrue⟩ := run_of_evaluate notBound isCall evaluated true_
  obtain ⟨first, other, isFirst, isOther, text, constant, isText, isConstant, tested⟩ :=
    str2Bool_true ran isTrue
  obtain ⟨id, held, isId, read, same⟩ := lexical_target isTarget isFirst isText
  obtain rfl := Except.ok.inj isOther
  obtain rfl := Option.some.inj isConstant
  refine ⟨id, held, isId, read, ?_⟩
  rw [← same]
  exact sound _ _ tested

theorem holds_regex (isTarget : substrTargetVar layout target = some index)
    (const : (constString engine.floats second).filter isPlainLiteralRegex = some needle)
    (evaluated : engine.evaluator.evaluate ⟨layout, row.solution⟩
      (.builtin "REGEX".toList [target, second]) = .ok result)
    (true_ : result.2 = some true) : engine.Holds layout row index needle := by
  obtain ⟨const, isPlain⟩ := Option.filter_eq_some_iff.mp const
  obtain ⟨term, rfl, rfl⟩ := constString_eq const
  have isCall : engine.evaluator.call "REGEX".toList 2 =
      regexCall engine.floats engine.regex 2 := rfl
  obtain ⟨value, ran, isTrue⟩ := run_of_evaluate (by decide) isCall evaluated true_
  obtain ⟨first, other, isFirst, isOther, text, pattern, isText, isPattern, test, compiled,
    matched⟩ := regexCall_true ran isTrue
  obtain ⟨id, held, isId, read, same⟩ := lexical_target isTarget isFirst isText
  obtain rfl := Except.ok.inj isOther
  obtain rfl := Option.some.inj isPattern
  obtain ⟨plainTest, plainCompiled, contains⟩ := engine.plain _ isPlain
  obtain rfl := Option.some.inj (compiled.symm.trans plainCompiled)
  refine ⟨id, held, isId, read, ?_⟩
  rw [← same]
  exact (contains _).mp matched

/-- A call that is true and whose needle is known holds of its variable. -/
theorem holds_call {args : List (Expr GraphPattern)}
    (isTarget : substrTargetVar layout target = some index)
    (isNeedle : needleOf engine.floats name (target :: args) = some needle)
    (evaluated : engine.evaluator.evaluate ⟨layout, row.solution⟩ (.builtin name (target :: args)) =
      .ok result)
    (true_ : result.2 = some true) : engine.Holds layout row index needle := by
  cases args with
  | nil => cases isNeedle
  | cons second rest =>
    cases rest with
    | cons third others => cases isNeedle
    | nil =>
      rw [needleOf] at isNeedle
      split at isNeedle
      case isTrue isContains =>
          rcases isContains with rfl | rfl | rfl
          · exact holds_str2Bool isTarget isNeedle (fun _ _ => of_decide_eq_true) (by decide)
              rfl evaluated true_
          · exact holds_str2Bool isTarget isNeedle
              (fun _ _ starts => List.IsPrefix.isInfix (of_decide_eq_true starts)) (by decide)
              rfl evaluated true_
          · exact holds_str2Bool isTarget isNeedle
              (fun _ _ ends => List.IsSuffix.isInfix (of_decide_eq_true ends)) (by decide)
              rfl evaluated true_
      case isFalse =>
          split at isNeedle
          case isFalse => cases isNeedle
          case isTrue isRegex =>
              subst isRegex
              exact holds_regex isTarget isNeedle evaluated true_

end Calls

theorem evalAnd_true {left right : Option Bool} (both : Evaluator.evalAnd left right = some true) :
    left = some true ∧ right = some true := by
  rw [Evaluator.evalAnd] at both
  split at both
  · cases both
  · split at both
    · assumption
    · cases both

/-- A filter that is true holds of every variable that it constrains. -/
theorem holds_collect : ∀ {expr : Expr GraphPattern}
    {constraints : Constraints layout.names.length},
    collectSubstrConstraints engine.floats layout expr = .ok constraints →
    ∀ {result : Option (RuntimeValue Double) × Option Bool},
      engine.evaluator.evaluate ⟨layout, row.solution⟩ expr = .ok result →
      result.2 = some true →
      ∀ constraint ∈ constraints, engine.Holds layout row constraint.1 constraint.2
  | .and left right, constraints, collected, result, evaluated, true_ => by
      rw [collectSubstrConstraints] at collected
      obtain ⟨lefts, isLefts, collected⟩ := bind_eq_ok.mp collected
      obtain ⟨rights, isRights, collected⟩ := bind_eq_ok.mp collected
      obtain rfl := Except.ok.inj collected
      rw [Evaluator.evaluate] at evaluated
      obtain ⟨leftResult, evaluatedLeft, evaluated⟩ := bind_eq_ok.mp evaluated
      obtain ⟨rightResult, evaluatedRight, evaluated⟩ := bind_eq_ok.mp evaluated
      obtain rfl := Except.ok.inj evaluated
      obtain ⟨leftTrue, rightTrue⟩ := evalAnd_true true_
      intro constraint member
      rcases List.mem_append.mp member with inLeft | inRight
      · exact holds_collect isLefts evaluatedLeft leftTrue constraint inLeft
      · exact holds_collect isRights evaluatedRight rightTrue constraint inRight
  | .builtin _ [], _, collected, _, _, _ => by cases collected
  | .builtin name (target :: args), constraints, collected, result, evaluated, true_ => by
      rw [collectSubstrConstraints] at collected
      split at collected
      case h_1 index needle isTarget isNeedle =>
          intro constraint member
          rw [← Except.ok.inj collected] at member
          split at member
          · obtain rfl := List.mem_singleton.mp member
            exact holds_call isTarget isNeedle evaluated true_
          · cases member
      case h_2 =>
          rw [← Except.ok.inj collected]
          exact fun _ member => by cases member
  | .var _, _, collected, _, _, _ | .const _, _, collected, _, _, _
  | .or _ _, _, collected, _, _, _ | .not _, _, collected, _, _, _
  | .unary _ _, _, collected, _, _, _ | .compare _ _ _, _, collected, _, _, _
  | .arith _ _ _, _, collected, _, _, _ | .exists_ _ _, _, collected, _, _, _
  | .aggregate, _, collected, _, _, _ => by
      obtain rfl := Except.ok.inj collected
      exact fun _ member => by cases member

theorem holds_filters
    (collected : filterStringConstraints engine.floats layout filters = .ok constraints)
    (kept : engine.keeps layout row filters = .ok true) :
    ∀ constraint ∈ constraints, engine.Holds layout row constraint.1 constraint.2 := by
  induction filters generalizing constraints with
  | nil =>
    obtain rfl := Except.ok.inj collected
    exact fun _ member => by cases member
  | cons expr rest induction =>
    rw [filterStringConstraints] at collected
    obtain ⟨firsts, isFirsts, collected⟩ := bind_eq_ok.mp collected
    obtain ⟨others, isOthers, collected⟩ := bind_eq_ok.mp collected
    obtain rfl := Except.ok.inj collected
    rw [keeps] at kept
    obtain ⟨result, evaluated, kept⟩ := bind_eq_ok.mp kept
    split at kept
    case isFalse => cases kept
    case isTrue true_ =>
        intro constraint member
        rcases List.mem_append.mp member with inFirst | inOthers
        · exact holds_collect isFirsts evaluated true_ constraint inFirst
        · exact induction isOthers kept constraint inOthers

/-- An id of a node whose term contains the needle is found by the index. -/
theorem Holds.found {index : StringIndex}
    (isIndex : stringIndex engine.floats engine.base.unicode engine.base.dict = some index)
    {variable_ : Fin layout.names.length} {needle : Text} {id : UInt32}
    (holds : engine.Holds layout row variable_ needle) (isId : row variable_ = some id)
    (node : layout.isPred.getD variable_ false = false) :
    id ∈ index.containsCandidates (utf8 needle) := by
  obtain ⟨other, value, held, read, contains⟩ := holds
  obtain rfl := Option.some.inj (isId.symm.trans held)
  obtain ⟨indexed, strings⟩ := stringIndex_spec engine.valid isIndex
  rw [node] at read
  obtain ⟨term, isTerm, rfl⟩ := Option.map_eq_some_iff.mp read
  obtain ⟨text, shown, parsed⟩ := Option.bind_eq_some_iff.mp isTerm
  have known := strings id text shown
  have key : indexKey engine.floats engine.base.unicode text =
      (RuntimeValue.fromTerm engine.floats term).lexical engine.floats := by
    rw [indexKey]
    change (NTriples.parseTerm engine.base.unicode text).toOption = some term at parsed
    cases read : NTriples.parseTerm engine.base.unicode text with
    | error failure =>
      rw [read] at parsed
      cases parsed
    | ok found =>
      rw [read] at parsed
      rw [Option.some.inj parsed]
  rw [key] at known
  refine (indexed.containsCandidates (utf8 needle)).2 id _ known ?_
  obtain ⟨front, back, same⟩ := contains
  refine ⟨utf8 front, utf8 back, ?_⟩
  rw [← utf8_append, ← utf8_append, same]
  rfl

/-! ## The push-down -/

/-- Every call at the top of a filter has an argument. -/
def HasArguments : Expr GraphPattern → Prop
  | .and left right => HasArguments left ∧ HasArguments right
  | .builtin _ args => args ≠ []
  | _ => True

variable (engine layout) in
theorem collect_of_hasArguments : ∀ {expr : Expr GraphPattern}, HasArguments expr →
    ∃ constraints, collectSubstrConstraints engine.floats layout expr = .ok constraints
  | .and left right, ⟨inLeft, inRight⟩ => by
      obtain ⟨lefts, isLefts⟩ := collect_of_hasArguments inLeft
      obtain ⟨rights, isRights⟩ := collect_of_hasArguments inRight
      exact ⟨lefts ++ rights, by rw [collectSubstrConstraints, isLefts, isRights]; rfl⟩
  | .builtin _ [], some_ => absurd rfl some_
  | .builtin name (target :: args), _ => by
      rw [collectSubstrConstraints]
      split
      · exact ⟨_, rfl⟩
      · exact ⟨_, rfl⟩
  | .var _, _ | .const _, _ | .or _ _, _ | .not _, _ | .unary _ _, _ | .compare _ _ _, _
  | .arith _ _ _, _ | .exists_ _ _, _ | .aggregate, _ => ⟨[], rfl⟩

variable (engine layout) in
theorem filterStringConstraints_of_hasArguments (all : ∀ expr ∈ filters, HasArguments expr) :
    ∃ constraints, filterStringConstraints engine.floats layout filters = .ok constraints := by
  induction filters with
  | nil => exact ⟨[], rfl⟩
  | cons expr rest induction =>
    have parts := List.forall_mem_cons.mp all
    obtain ⟨first, isFirst⟩ := collect_of_hasArguments engine layout parts.1
    obtain ⟨others, isOthers⟩ := induction parts.2
    exact ⟨first ++ others, by rw [filterStringConstraints, isFirst, isOthers]; rfl⟩

/-- The calls at the top of the filters have arguments, and no variable that they constrain is a
predicate in another part of the query. -/
structure Pushable (engine : BgpEngine Double Key) (layout : VarLayout)
    (filters : List (Expr GraphPattern)) (patterns : List TriplePattern) : Prop where
  hasArguments : ∀ expr ∈ filters, HasArguments expr
  nodes : ∀ plans constraints, engine.compilePatterns layout patterns = .ok (some plans) →
    filterStringConstraints engine.floats layout filters = .ok constraints →
    ∀ constraint ∈ constraints, OnlyNode plans constraint.1 →
      layout.isPred.getD constraint.1 false = false

/-- The constraints lead to the same plan. -/
def SamePlan (engine : BgpEngine Double Key) (layout : VarLayout)
    (filters : List (Expr GraphPattern)) (patterns : List TriplePattern) : Prop :=
  ∀ plans constraints, engine.compilePatterns layout patterns = .ok (some plans) →
    filterStringConstraints engine.floats layout filters = .ok constraints →
    engine.optimize plans (engine.planned layout plans constraints) =
      engine.optimize plans (engine.candidates plans)

/-- The row passes the filters. -/
def passes (engine : BgpEngine Double Key) (layout : VarLayout)
    (filters : List (Expr GraphPattern)) (row : Row layout.names.length) : Bool :=
  match engine.keeps layout row filters with
  | .ok kept => kept
  | .error _ => false

/-- Without a panic the filters keep the rows that pass them. -/
theorem retain_eq_ok_iff {rows kept : List (Row layout.names.length)} :
    engine.retain layout filters rows = .ok kept ↔
      (∀ row ∈ rows, ∃ result, engine.keeps layout row filters = .ok result) ∧
        kept = rows.filter (engine.passes layout filters) := by
  induction rows generalizing kept with
  | nil =>
    rw [retain, Except.ok.injEq, eq_comm]
    simp
  | cons row rest induction =>
    rw [retain, List.forall_mem_cons, List.filter_cons, passes]
    cases evaluated : engine.keeps layout row filters with
    | error panic =>
      refine iff_of_false (fun impossible => by cases impossible) ?_
      rintro ⟨⟨⟨result, ok⟩, -⟩, -⟩
      cases ok
    | ok result =>
      change ((engine.retain layout filters rest >>= fun others =>
        pure (if result then row :: others else others)) = .ok kept) ↔ _
      rw [bind_eq_ok]
      constructor
      · intro ⟨others, isOthers, same⟩
        obtain ⟨all, rfl⟩ := induction.mp isOthers
        refine ⟨⟨⟨result, rfl⟩, all⟩, ?_⟩
        exact (Except.ok.inj same).symm
      · intro ⟨⟨_, all⟩, same⟩
        exact ⟨_, induction.mpr ⟨all, rfl⟩, congrArg Except.ok same.symm⟩

/-- Rows that the filters drop can be left out before. -/
theorem retain_filter {keep : Row layout.names.length → Bool}
    {rows kept : List (Row layout.names.length)}
    (sound : ∀ row, engine.keeps layout row filters = .ok true → keep row = true)
    (retained : engine.retain layout filters rows = .ok kept) :
    engine.retain layout filters (rows.filter keep) = .ok kept := by
  rw [retain_eq_ok_iff] at retained ⊢
  obtain ⟨all, rfl⟩ := retained
  refine ⟨fun row member => all row (List.mem_filter.mp member).1, ?_⟩
  rw [List.filter_filter]
  refine List.filter_congr fun row _ => ?_
  rw [Bool.eq_iff_iff, Bool.and_eq_true, iff_self_and]
  intro passed
  refine sound row ?_
  rw [passes] at passed
  split at passed
  · rename_i evaluated
    rwa [passed] at evaluated
  · cases passed

theorem retain_perm {rows others kept : List (Row layout.names.length)} (perm : rows.Perm others)
    (retained : engine.retain layout filters rows = .ok kept) :
    ∃ keptOthers, engine.retain layout filters others = .ok keptOthers ∧
      keptOthers.Perm kept := by
  obtain ⟨all, rfl⟩ := retain_eq_ok_iff.mp retained
  refine ⟨_, retain_eq_ok_iff.mpr ⟨fun row member => all row (perm.mem_iff.mpr member), rfl⟩, ?_⟩
  exact (perm.filter _).symm

/-- The narrowed candidates keep the rows that can pass the filters. -/
theorem retain_runPlan
    (collected : filterStringConstraints engine.floats layout filters = .ok constraints)
    {plans : List (PatPlan layout.names.length)}
    (nodes : ∀ constraint ∈ constraints, OnlyNode plans constraint.1 →
      layout.isPred.getD constraint.1 false = false) (plan : ExecPlan plans.length)
    {kept : List (Row layout.names.length)}
    (retained : engine.retain layout filters
      (runPlan engine.source (engine.candidates plans) plans plan) = .ok kept) :
    engine.retain layout filters
      (runPlan engine.source (engine.planned layout plans constraints) plans plan) = .ok kept := by
  rw [planned]
  split
  case isTrue => exact retained
  case isFalse =>
      rw [constrained]
      cases isIndex : stringIndex engine.floats engine.base.unicode engine.base.dict with
      | none => exact retained
      | some index =>
        dsimp only
        rw [refineWithSubstrings, ← filter_runPlan fun plan => free_substringSets]
        refine retain_filter (fun row passed => ?_) retained
        have holds := holds_filters collected passed
        refine allowed_iff.mpr fun variable_ id isId => ?_
        refine candOk_substringSets (stringIndex_spec engine.valid isIndex).1 ?_
        intro only needle member
        exact (holds _ member).found isIndex isId (nodes _ member only)

/-- The rows of patterns whose constants are all known. -/
def rowsOf (engine : BgpEngine Double Key) (layout : VarLayout)
    (plans : List (PatPlan layout.names.length)) (constraints : Constraints layout.names.length) :
    List (Row layout.names.length) :=
  if plans.isEmpty then [unboundRow layout.names.length]
  else
    let cands := engine.planned layout plans constraints
    runPlan engine.source cands plans (engine.optimize plans cands)

theorem evalBgpConstrained_eq {patterns : List TriplePattern}
    {compiled : Option (List (PatPlan layout.names.length))}
    (isCompiled : engine.compilePatterns layout patterns = .ok compiled)
    (constraints : Constraints layout.names.length) :
    engine.evalBgpConstrained layout patterns constraints =
      .ok (compiled.elim [] fun plans => engine.rowsOf layout plans constraints) := by
  rw [evalBgpConstrained, isCompiled]
  cases compiled with
  | none => rfl
  | some plans =>
    rw [Option.elim_some, rowsOf]
    change (if plans.isEmpty = true then _ else _) = _
    split
    · rfl
    · rfl

theorem rowsOf_perm
    (collected : filterStringConstraints engine.floats layout filters = .ok constraints)
    {plans : List (PatPlan layout.names.length)}
    (nodes : ∀ constraint ∈ constraints, OnlyNode plans constraint.1 →
      layout.isPred.getD constraint.1 false = false) {kept : List (Row layout.names.length)}
    (retained : engine.retain layout filters (engine.rowsOf layout plans []) = .ok kept) :
    ∃ pushed, engine.retain layout filters (engine.rowsOf layout plans constraints) = .ok pushed ∧
      pushed.Perm kept ∧
      (engine.optimize plans (engine.planned layout plans constraints) =
        engine.optimize plans (engine.candidates plans) → pushed = kept) := by
  rw [rowsOf] at retained ⊢
  split
  · rename_i empty
    rw [if_pos empty] at retained
    exact ⟨kept, retained, .refl kept, fun _ => rfl⟩
  · rename_i filled
    rw [if_neg filled] at retained
    dsimp only
    have sameChoice := retain_runPlan collected nodes _ retained
    by_cases samePlan : engine.optimize plans (engine.planned layout plans constraints) =
        engine.optimize plans (engine.candidates plans)
    · rw [samePlan]
      exact ⟨kept, sameChoice, .refl kept, fun _ => rfl⟩
    · have perm := runPlan_perm (engine.planned layout plans constraints)
        engine.describes (engine.optimize plans (engine.candidates plans))
        (engine.optimize plans (engine.planned layout plans constraints))
      obtain ⟨pushed, isPushed, permuted⟩ := retain_perm perm sameChoice
      exact ⟨pushed, isPushed, permuted, fun same => absurd same samePlan⟩

/-- The rows with and without the constraints, the patterns compiled to the same plans. -/
theorem retain_constrained {patterns : List TriplePattern}
    (pushable : engine.Pushable layout filters patterns)
    (collected : filterStringConstraints engine.floats layout filters = .ok constraints)
    {rows : List (Row layout.names.length)}
    (reference : engine.filterBgp layout filters patterns = .ok rows) :
    ∃ pushed, engine.evalBgpConstrained layout patterns constraints >>=
        engine.retain layout filters = .ok pushed ∧ pushed.Perm rows ∧
      (engine.SamePlan layout filters patterns → pushed = rows) := by
  obtain ⟨bare, evaluated, retained⟩ := bind_eq_ok.mp reference
  cases compiled : engine.compilePatterns layout patterns with
  | error panic =>
    rw [evalBgpConstrained, compiled] at evaluated
    cases evaluated
  | ok result =>
    rw [evalBgpConstrained_eq compiled] at evaluated
    obtain rfl := Except.ok.inj evaluated
    rw [evalBgpConstrained_eq compiled]
    cases result with
    | none => exact ⟨rows, retained, .refl rows, fun _ => rfl⟩
    | some plans =>
      obtain ⟨pushed, isPushed, perm, same⟩ := rowsOf_perm collected
        (pushable.nodes plans constraints compiled collected) retained
      exact ⟨pushed, isPushed, perm, fun samePlan =>
        same (samePlan plans constraints compiled collected)⟩

/-- Pushing the substrings of the filters down into the candidates does not change which rows come
out, and how often; under the same plan it does not change their order. -/
theorem push_down_keeps_rows {filters : List (Expr GraphPattern)} {patterns : List TriplePattern}
    (pushable : engine.Pushable layout filters patterns) {rows : List (Row layout.names.length)}
    (reference : engine.filterBgp layout filters patterns = .ok rows) :
    ∃ pushed, engine.evalFilterBgp layout filters patterns = .ok pushed ∧ pushed.Perm rows ∧
      (engine.SamePlan layout filters patterns → pushed = rows) := by
  obtain ⟨constraints, collected⟩ := filterStringConstraints_of_hasArguments
    engine layout pushable.hasArguments
  rw [evalFilterBgp, collected]
  exact retain_constrained pushable collected reference

end Filters

/-! ## Where the push-down is seen -/

/-- The IRI of one of 64 entities: two letters, but for one. -/
def sampleIri (index : ℕ) : Term :=
  if index = 4 then .iri "abc".toList
  else .iri [Char.ofNat (97 + index / 8), Char.ofNat (97 + index % 8)]

def withPredicate (dict : Dictionary) (iri : String) : Dictionary :=
  ((dict.internPredicate (Term.iri iri.toList).dictKey).map Prod.fst).getD dict

theorem valid_withPredicate (valid : dict.Valid) (iri : String) :
    (withPredicate dict iri).Valid := by
  rw [withPredicate]
  cases interned : dict.internPredicate (Term.iri iri.toList).dictKey with
  | none => exact valid
  | some grown => exact (Dictionary.internPredicate_spec valid interned).1

/-- The entities, and the predicates `<xyz>`, `<q>` and `<r>`. -/
def sampleDict : Dictionary :=
  ["xyz", "q", "r"].foldl withPredicate (GroupEvaluator.dictOf ((List.range 64).map sampleIri))

theorem valid_sampleDict : sampleDict.Valid := by
  rw [sampleDict, List.foldl_cons, List.foldl_cons, List.foldl_cons, List.foldl_nil]
  refine valid_withPredicate (valid_withPredicate (valid_withPredicate ?_ _) _) _
  exact GroupEvaluator.dictOf_valid _

/-- Runtime values over a dictionary, for expressions without patterns. -/
def sampleBase (dict : Dictionary) : Evaluator (RuntimeValue ℚ) GraphPattern Unit where
  dict := dict
  unicode := asciiOnly
  fromTerm := RuntimeValue.fromTerm RuntimeValue.unrounded
  toTerm := RuntimeValue.toTerm RuntimeValue.unrounded
  bool := .bool
  ebv := RuntimeValue.ebv RuntimeValue.unrounded
  negate := RuntimeValue.negate RuntimeValue.unrounded
  compareValues := fun op left right =>
    (RuntimeValue.compareValues RuntimeValue.unrounded op left right).join
  evalArith := fun op left right => (left.arith RuntimeValue.unrounded op right).join
  builtin := fun _ _ => .answer none
  orderKey := fun _ => ()
  buildLayout := VarLayout.build
  evalPattern := fun _ => []
  hasSolution := fun _ _ => .ok false
  evalAggregation := fun _ => .ok []

def engineOver (dict : Dictionary) (valid : dict.Valid) (triples : List IdTriple)
    (optimize : ∀ {width : ℕ} (plans : List (PatPlan width)), Candidates width →
      ExecPlan plans.length) : BgpEngine ℚ Unit where
  base := sampleBase dict
  floats := RuntimeValue.unrounded
  valid := valid
  regex := fun pattern => some fun text => pattern <:+: text
  plain := fun _ _ => ⟨_, rfl, fun _ => decide_eq_true_iff⟩
  source := (TripleStore.bulkLoad .new triples).source
  triples := ∅ ∪ triples.toFinset
  describes := (refines_new.bulkLoad triples).source_describes
  candidates := fun _ _ => none
  optimize := optimize

def inOrder {width : ℕ} (plans : List (PatPlan width)) (_ : Candidates width) :
    ExecPlan plans.length := ⟨List.finRange plans.length, none, .refl _, nofun⟩

/-- The cheapest orders for `chain`, without candidates and with one for `?y`: one candidate makes
the join over `?y` look large. -/
def costOrder {width : ℕ} :
    ∀ plans : List (PatPlan width), Candidates width → ExecPlan plans.length
  | [_, _, _], cands =>
    if (List.finRange width).any fun index => (cands index).isSome then
      ⟨(List.finRange 3).rotate 2, none, List.rotate_perm _ _, nofun⟩
    else ⟨(List.finRange 3).reverse, none, List.reverse_perm _, nofun⟩
  | plans, cands => inOrder plans cands

def sampleEngine (triples : List IdTriple)
    (optimize : ∀ {width : ℕ} (plans : List (PatPlan width)), Candidates width →
      ExecPlan plans.length) : BgpEngine ℚ Unit :=
  engineOver sampleDict valid_sampleDict triples optimize

def containsFilter (name needle : String) : Expr GraphPattern :=
  .builtin "CONTAINS".toList [.var name.toList, .const (.literal needle.toList none none)]

/-- `?a <xyz> ?x . ?x <q> ?y . ?y <r> ?b`. -/
def chain : List TriplePattern :=
  [⟨.var "a".toList, .term (.iri "xyz".toList), .var "x".toList⟩,
    ⟨.var "x".toList, .term (.iri "q".toList), .var "y".toList⟩,
    ⟨.var "y".toList, .term (.iri "r".toList), .var "b".toList⟩]

def layoutChain : VarLayout :=
  { names := ["a".toList, "x".toList, "y".toList, "b".toList],
    isPred := [false, false, false, false] }

def chainTriples : List IdTriple :=
  [⟨0, 0, 3⟩, ⟨1, 0, 2⟩, ⟨2, 1, 4⟩, ⟨3, 1, 4⟩, ⟨2, 1, 5⟩, ⟨3, 1, 6⟩, ⟨4, 2, 7⟩]

def chainRows : List (Row 4) :=
  [![some 1, some 2, some 4, some 7], ![some 0, some 3, some 4, some 7]]

/-- The rows as lists. -/
def listed {width : ℕ} (rows : Eval (List (Row width))) : Eval (List (List (Option UInt32))) :=
  rows.map fun rows => rows.map List.ofFn

theorem eq_ok_of_listed {width : ℕ} {rows : Eval (List (Row width))} {expected : List (Row width)}
    (same : listed rows = .ok (expected.map List.ofFn)) : rows = .ok expected := by
  cases rows with
  | error panic => cases same
  | ok rows =>
    have lists := Except.ok.inj same
    rw [List.map_injective_iff.mpr List.ofFn_injective lists]

theorem filterBgp_chain : (sampleEngine chainTriples costOrder).filterBgp layoutChain
    [containsFilter "y" "abc"] chain = .ok chainRows := by
  refine eq_ok_of_listed ?_
  decide +kernel

/-- The rows of the chain come in another order. -/
theorem push_down_keeps_rows_chain :
    ∃ pushed, (sampleEngine chainTriples costOrder).evalFilterBgp layoutChain
      [containsFilter "y" "abc"] chain = .ok pushed ∧ pushed.Perm chainRows ∧
      ((sampleEngine chainTriples costOrder).SamePlan layoutChain [containsFilter "y" "abc"]
        chain → pushed = chainRows) := by
  refine push_down_keeps_rows ⟨?_, ?_⟩ filterBgp_chain
  · intro expr member
    rw [List.mem_singleton.mp member]
    exact List.cons_ne_nil _ _
  · intro plans constraints _ _ constraint _ _
    have noPred : ∀ index : Fin 4, layoutChain.isPred.getD index false = false := by decide
    exact noPred constraint.1

/-- `?s ?p ?o`, where `?o` is the predicate of another triple of the query. -/
def anyTriple : List TriplePattern :=
  [⟨.var "s".toList, .var "p".toList, .var "o".toList⟩]

def layoutAny : VarLayout :=
  { names := ["s".toList, "p".toList, "o".toList], isPred := [false, true, true] }

theorem not_pushesInvisibly {engine : BgpEngine Double Key} {layout : VarLayout}
    {filters : List (Expr GraphPattern)} {patterns : List TriplePattern}
    {rows : List (Row layout.names.length)}
    (reference : engine.filterBgp layout filters patterns = .ok rows)
    (differs : engine.evalFilterBgp layout filters patterns ≠ .ok rows) :
    ¬ engine.PushesInvisibly layout filters patterns :=
  fun pushes => differs (pushes rows reference)

/-- The candidates change the order of the joins and so of the rows. A filter on a variable that is
also a predicate compares the text of a predicate, but the index has that of an entity. And a call
without arguments at the top of a filter panics before its value is asked for. -/
theorem push_down_seen :
    ¬ (sampleEngine chainTriples costOrder).PushesInvisibly layoutChain
      [containsFilter "y" "abc"] chain ∧
    ¬ (sampleEngine [⟨0, 0, 0⟩] inOrder).PushesInvisibly layoutAny [containsFilter "o" "xyz"]
      anyTriple ∧
    ¬ (sampleEngine [] inOrder).PushesInvisibly layoutAny [.builtin "COALESCE".toList []]
      anyTriple := by
  refine ⟨not_pushesInvisibly filterBgp_chain (by decide +kernel), ?_, ?_⟩
  · have reference : (sampleEngine [⟨0, 0, 0⟩] inOrder).filterBgp layoutAny
        [containsFilter "o" "xyz"] anyTriple = .ok [![some 0, some 0, some 0]] := by
      refine eq_ok_of_listed ?_
      decide +kernel
    exact not_pushesInvisibly reference (by decide +kernel)
  · have reference : (sampleEngine [] inOrder).filterBgp layoutAny
        [.builtin "COALESCE".toList []] anyTriple = .ok [] := by decide
    exact not_pushesInvisibly reference (by decide)

end BgpEngine

end GStore.Query
