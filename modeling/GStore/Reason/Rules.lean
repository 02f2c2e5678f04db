import GStore.Dict.Dictionary
import GStore.Store.TripleStore
import GStore.Foundation.Assoc

/-! # User-defined rules

`reason/mod.rs`, `Rule` and `RuleSet`: a conjunction of patterns and a head that
is instantiated once for each binding of the conjunction. -/

namespace GStore.Reason

open Dict Store

/-! ## Terms from their surface form -/

/-- Unicode white space, as `str::trim` sees it. -/
def isWhite (char : Char) : Bool :=
  let code := char.toNat
  (9 ≤ code && code ≤ 13) || code == 0x20 || code == 0x85 || code == 0xA0 || code == 0x1680 ||
    (0x2000 ≤ code && code ≤ 0x200A) || code == 0x2028 || code == 0x2029 || code == 0x202F ||
    code == 0x205F || code == 0x3000

def trim (text : Text) : Text :=
  ((text.dropWhile isWhite).reverse.dropWhile isWhite).reverse

/-- A text that neither starts nor ends in white space is left as it is. -/
theorem trim_of_ends {first last : Char} {text middle front : Text} (head : text = first :: middle)
    (tail : text = front ++ [last]) (firstSolid : isWhite first = false)
    (lastSolid : isWhite last = false) : trim text = text := by
  rw [trim, head, List.dropWhile_cons_of_neg (by simp [firstSolid]), ← head, tail,
    List.reverse_append, List.reverse_singleton, List.singleton_append,
    List.dropWhile_cons_of_neg (by simp [lastSolid])]
  simp

/-- What stands between `<` and a final `>`. -/
def stripBrackets : Text → Option Text
  | '<' :: rest => if rest.getLast? = some '>' then some rest.dropLast else none
  | _ => none

def unescapeChar : Char → Char
  | 'n' => '\n'
  | 'r' => '\r'
  | 't' => '\t'
  | other => other

/-- The value up to the closing quote, and what follows it. The source reads the
byte after a backslash; keys escape none but ASCII characters. -/
def scanLiteral : Text → Text → Option (Text × Text)
  | _, [] => none
  | value, '"' :: rest => some (value.reverse, rest)
  | _, ['\\'] => none
  | value, '\\' :: escaped :: rest => scanLiteral (unescapeChar escaped :: value) rest
  | value, char :: rest => scanLiteral (char :: value) rest

/-- Parse one term from its N-Triples surface form. -/
def parseTerm (text : Text) : Option Term :=
  let text := trim text
  match stripBrackets text with
  | some inner => some (.iri inner)
  | none =>
    match text with
    | '_' :: ':' :: label => if label = [] then none else some (.blank label)
    | '"' :: quoted =>
      match scanLiteral [] quoted with
      | none => none
      | some (value, '@' :: lang) => some (.literal value none (some lang))
      | some (value, '^' :: '^' :: datatype) =>
        (stripBrackets datatype).map fun iri => .literal value (some iri) none
      | some (value, []) => some (.literal value none none)
      | some _ => none
    | _ => none

/-! ## Rules -/

inductive RuleTerm where
  | var (name : Text)
  | const (term : Term)

structure RulePattern where
  subject : RuleTerm
  predicate : RuleTerm
  object : RuleTerm

structure Rule where
  name : Text
  body : List RulePattern
  head : RulePattern
  enabled : Bool
  effectCount : Nat

abbrev RuleBinding := List (Text × Text)

/-- The surface string that a position imposes under a binding. -/
def RuleTerm.required (position : RuleTerm) (binding : RuleBinding) : Option Text :=
  match position with
  | .const term => some term.dictKey
  | .var name => binding.lookup name

/-- Bind a variable; `none` is a contradiction. -/
def bindVar (binding : RuleBinding) (position : RuleTerm) (value : Text) : Option RuleBinding :=
  match position with
  | .const _ => some binding
  | .var name =>
    match binding.lookup name with
    | some existing => if existing = value then some binding else none
    | none => some (assocInsert name value binding)

def resolveTerm (position : RuleTerm) (binding : RuleBinding) : Option Term :=
  match position with
  | .const term => some term
  | .var name => (binding.lookup name).bind parseTerm

/-- Instantiate a head; a literal is no subject, and a predicate is an IRI. -/
def instantiate (pattern : RulePattern) (binding : RuleBinding) : Option Triple := do
  let subject ← resolveTerm pattern.subject binding
  let predicate ← resolveTerm pattern.predicate binding
  let object ← resolveTerm pattern.object binding
  match subject, predicate with
  | .literal _ _ _, _ => none
  | _, .iri _ => some { subject, predicate, object }
  | _, _ => none

section Derive

variable (dict : Dictionary) (store : TripleStore)

/-- Extend one binding by one stored pair. -/
def extendPair (pattern : RulePattern) (binding : RuleBinding) (pair : UInt32 × UInt32) :
    Option RuleBinding := do
  let sub ← dict.idToString pair.1
  let obj ← dict.idToString pair.2
  if (pattern.subject.required binding).all (· = sub) &&
      (pattern.object.required binding).all (· = obj) then
    let binding ← bindVar binding pattern.subject sub
    bindVar binding pattern.object obj
  else none

def extendBindings (bindings : List RuleBinding) (pattern : RulePattern) : List RuleBinding :=
  match pattern.predicate with
  | .var _ => []
  | .const predicate =>
    match dict.predicateId predicate.dictKey with
    | none => []
    | some pred =>
      let pairs := store.soByP pred
      bindings.flatMap fun binding => pairs.filterMap (extendPair dict pattern binding)

/-- The head triples, one for each satisfying binding. -/
def Rule.derive (rule : Rule) : List Triple :=
  (rule.body.foldl (extendBindings dict store) [[]]).filterMap (instantiate rule.head)

end Derive

/-- What a run of the rules changes. -/
structure RuleRun where
  dict : Dictionary
  store : TripleStore
  added : List IdTriple

/-- Intern and insert one derived triple; the flag tells whether it was new. -/
def RuleRun.insert (run : RuleRun) (triple : Triple) : Option (RuleRun × Bool) :=
  (run.dict.encodeTriple triple).map fun encoded =>
    let inserted := run.store.insert encoded.2
    ({ dict := encoded.1
       store := inserted.1
       added := if inserted.2 then run.added ++ [encoded.2] else run.added }, inserted.2)

def RuleRun.insertAll : RuleRun → List Triple → Option (RuleRun × Nat)
  | run, [] => some (run, 0)
  | run, triple :: rest => do
    let (run, isNew) ← run.insert triple
    let (run, count) ← RuleRun.insertAll run rest
    return (run, if isNew then count + 1 else count)

/-- One pass over the rules, with the number of triples that it added. -/
def applyRules : List Rule → RuleRun → Option (List Rule × RuleRun × Nat)
  | [], run => some ([], run, 0)
  | rule :: rest, run =>
    if rule.enabled then do
      let (run, count) ← run.insertAll (rule.derive run.dict run.store)
      let (rest, run, further) ← applyRules rest run
      return ({ rule with effectCount := rule.effectCount + count } :: rest, run, count + further)
    else do
      let (rest, run, further) ← applyRules rest run
      return (rule :: rest, run, further)

/-- Passes until one adds nothing. Without enough fuel there is no result: rules
may go on forever. -/
def applyLoop : Nat → List Rule → RuleRun → Option (List Rule × RuleRun)
  | 0, _, _ => none
  | fuel + 1, rules, run => do
    let (rules, run, count) ← applyRules rules run
    if count = 0 then return (rules, run) else applyLoop fuel rules run

/-- `RuleSet::apply`. -/
def applyRuleSet (fuel : Nat) (rules : List Rule) (dict : Dictionary) (store : TripleStore) :
    Option (List Rule × RuleRun) :=
  applyLoop fuel (rules.map fun rule => { rule with effectCount := 0 }) { dict, store, added := [] }

/-! ## What rules derive -/

theorem instantiate_cases {pattern : RulePattern} {binding : RuleBinding} {triple : Triple}
    (instantiated : instantiate pattern binding = some triple) :
    triple.subject.isLiteral = false ∧ ∃ text, triple.predicate = .iri text := by
  simp only [instantiate, Option.bind_eq_bind, Option.bind_eq_some_iff] at instantiated
  rcases instantiated with ⟨subject, -, predicate, -, object, -, built⟩
  cases subject <;> cases predicate <;> simp at built <;> subst built <;> simp [Term.isLiteral]

theorem derive_cases {rule : Rule} {dict : Dictionary} {store : TripleStore} {triple : Triple}
    (derived : triple ∈ rule.derive dict store) :
    triple.subject.isLiteral = false ∧ ∃ text, triple.predicate = .iri text := by
  rcases List.mem_filterMap.mp derived with ⟨binding, -, instantiated⟩
  exact instantiate_cases instantiated

/-! ## Invariants of a run -/

section Invariant

variable {holds : RuleRun → Prop}

/-- The property survives the insertion of whatever a rule may derive. -/
def KeptByInsert (holds : RuleRun → Prop) : Prop :=
  ∀ {run after : RuleRun} {triple : Triple} {isNew : Bool}, holds run →
    triple.subject.isLiteral = false → (∃ text, triple.predicate = .iri text) →
    run.insert triple = some (after, isNew) → holds after

theorem RuleRun.insertAll_keeps (kept : KeptByInsert holds) (triples : List Triple) :
    ∀ {run after : RuleRun} {count : Nat}, (∀ triple ∈ triples,
      triple.subject.isLiteral = false ∧ ∃ text, triple.predicate = .iri text) → holds run →
      run.insertAll triples = some (after, count) → holds after := by
  induction triples with
  | nil =>
    intro run after count _ held ran
    cases ran
    exact held
  | cons triple rest induction =>
    intro run after count wellFormed held ran
    simp only [insertAll, Option.bind_eq_bind, Option.bind_eq_some_iff, Prod.exists] at ran
    rcases ran with ⟨middle, isNew, inserted, last, further, later, result⟩
    cases result
    have here := wellFormed triple List.mem_cons_self
    exact induction (fun other member => wellFormed other (List.mem_cons_of_mem _ member))
      (kept held here.1 here.2 inserted) later

theorem applyRules_keeps (kept : KeptByInsert holds) (rules : List Rule) :
    ∀ {run after : RuleRun} {rules' : List Rule} {count : Nat}, holds run →
      applyRules rules run = some (rules', after, count) → holds after := by
  induction rules with
  | nil =>
    intro run after rules' count held ran
    cases ran
    exact held
  | cons rule rest induction =>
    intro run after rules' count held ran
    rw [applyRules] at ran
    split at ran
    · simp only [Option.bind_eq_bind, Option.bind_eq_some_iff, Prod.exists] at ran
      rcases ran with ⟨middle, here, inserted, _, last, further, later, result⟩
      cases result
      exact induction (RuleRun.insertAll_keeps kept _ (fun _ => derive_cases) held inserted) later
    · simp only [Option.bind_eq_bind, Option.bind_eq_some_iff, Prod.exists] at ran
      rcases ran with ⟨_, last, further, later, result⟩
      cases result
      exact induction held later

theorem applyRuleSet_keeps (kept : KeptByInsert holds) {fuel : Nat} {rules rules' : List Rule}
    {dict : Dictionary} {store : TripleStore} {after : RuleRun}
    (held : holds { dict, store, added := [] })
    (ran : applyRuleSet fuel rules dict store = some (rules', after)) : holds after := by
  have loop : ∀ (fuel : Nat) {rules rules' : List Rule} {run after : RuleRun}, holds run →
      applyLoop fuel rules run = some (rules', after) → holds after := by
    intro fuel
    induction fuel with
    | zero =>
      intro rules rules' run after _ ran
      cases ran
    | succ fuel induction =>
      intro rules rules' run after held ran
      simp only [applyLoop, Option.bind_eq_bind, Option.bind_eq_some_iff, Prod.exists] at ran
      rcases ran with ⟨passed, middle, count, pass, ran⟩
      have kept := applyRules_keeps kept rules held pass
      split at ran
      · cases ran
        exact kept
      · exact induction kept ran
  exact loop fuel held ran

end Invariant

end GStore.Reason
