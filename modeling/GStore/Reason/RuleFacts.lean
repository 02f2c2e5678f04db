import GStore.Dict.Reclaim
import GStore.Foundation.ForwardChain
import GStore.Reason.Rules
import GStore.Store.TripleSource

/-! # What rules say

The rules of `reason/mod.rs` as conditions on facts. A fact has the surface strings of a stored
triple, and the kind of each of its two ends; the ids themselves depend on the order in which terms
were interned. -/

namespace GStore.Reason

open Dict Store

/-! ## Facts -/

/-- An id space, true for literals, and a key of it. -/
abbrev Name := Bool × Text

structure Statement where
  sub : Name
  pred : Text
  obj : Name
deriving DecidableEq

/-- The fact that a triple states. -/
def Statement.ofTriple (triple : Triple) : Statement where
  sub := (false, triple.subject.dictKey)
  pred := triple.predicate.dictKey
  obj := (triple.object.isLiteral, triple.object.dictKey)

/-- A literal may have the last id, which no string is shown for. -/
def Unreserved (dict : Dictionary) : Prop :=
  dict.literals.backward.length + literalFirstId < 2 ^ 32

section Names

variable {dict grown : Dictionary} {id other : UInt32} {name : Name}

def nameOf (dict : Dictionary) (id : UInt32) : Option Name :=
  (dict.idToString id).map (decide (literalFirstId ≤ id.toNat), ·)

/-- A name is the key that has the id. -/
theorem nameOf_iff (valid : dict.Valid) (unreserved : Unreserved dict) :
    nameOf dict id = some name ↔
      (if name.1 then dict.literalId name.2 else dict.entityId name.2) = some id := by
  have shift : (UInt32.ofNat literalFirstId).toNat = literalFirstId := rfl
  have first : literalFirstId = 2000000000 := rfl
  have bounded := valid.entities_bounded
  rw [Unreserved] at unreserved
  obtain ⟨kind, key⟩ := name
  rw [nameOf, Option.map_eq_some_iff]
  simp only [Prod.mk.injEq, exists_eq_right_right]
  cases kind with
  | false =>
    simp only [Bool.false_eq_true, if_false, decide_eq_false_iff_not, not_le]
    rw [Dictionary.entityId, valid.entities.get_iff]
    constructor
    · rintro ⟨shown, below⟩
      rw [Dictionary.idToString, if_neg (by omega), if_neg (by omega)] at shown
      exact shown
    · intro found
      have inside := valid.entities.index_lt ((valid.entities.get_iff _ _).mpr found)
      refine ⟨?_, by omega⟩
      rw [Dictionary.idToString, if_neg (by omega), if_neg (by omega)]
      exact found
  | true =>
    simp only [if_true, decide_eq_true_eq]
    rw [Dictionary.literalId, Option.map_eq_some_iff]
    constructor
    · rintro ⟨shown, above⟩
      rw [Dictionary.idToString] at shown
      split at shown
      · cases shown
      · exact ⟨_, (valid.literals.get_iff _ _).mpr shown, by simp⟩
    · rintro ⟨index, found, rfl⟩
      have inside := valid.literals.index_lt found
      have sum : (index + UInt32.ofNat literalFirstId).toNat = index.toNat + literalFirstId := by
        rw [UInt32.toNat_add, shift, Nat.mod_eq_of_lt (by omega)]
      refine ⟨?_, by omega⟩
      rw [Dictionary.idToString, sum, if_neg (by omega), if_pos (by omega), UInt32.add_sub_cancel]
      exact (valid.literals.get_iff _ _).mp found

theorem nameOf_injective (valid : dict.Valid) (unreserved : Unreserved dict)
    (named : nameOf dict id = some name) (otherNamed : nameOf dict other = some name) :
    id = other := by
  rw [nameOf_iff valid unreserved] at named otherNamed
  exact Option.some.inj (named.symm.trans otherNamed)

theorem nameOf_mono (valid : dict.Valid) (unreserved : Unreserved dict) (grownValid : grown.Valid)
    (grownUnreserved : Unreserved grown) (grows : dict.Extends grown)
    (named : nameOf dict id = some name) : nameOf grown id = some name := by
  rw [nameOf_iff valid unreserved] at named
  rw [nameOf_iff grownValid grownUnreserved]
  cases kind : name.1 with
  | false =>
    rw [kind] at named
    exact grows.entities _ _ named
  | true =>
    rw [kind] at named
    simp only [if_true, Dictionary.literalId, Option.map_eq_some_iff] at named ⊢
    obtain ⟨index, found, shifted⟩ := named
    exact ⟨index, grows.literals _ _ found, shifted⟩

end Names

/-! ## The facts of a store -/

section Facts

variable {dict grown : Dictionary} {triples : Finset IdTriple} {id other : IdTriple} {fact : Statement}

def factOf (dict : Dictionary) (id : IdTriple) : Option Statement :=
  match nameOf dict id.sub, dict.predicates.resolve id.pred, nameOf dict id.obj with
  | some sub, some pred, some obj => some { sub, pred, obj }
  | _, _, _ => none

theorem factOf_eq_some_iff : factOf dict id = some fact ↔ nameOf dict id.sub = some fact.sub ∧
    dict.predicates.resolve id.pred = some fact.pred ∧ nameOf dict id.obj = some fact.obj := by
  unfold factOf
  cases nameOf dict id.sub <;> cases dict.predicates.resolve id.pred <;>
    cases nameOf dict id.obj <;> cases fact <;> simp

theorem factOf_injective (valid : dict.Valid) (unreserved : Unreserved dict)
    (named : factOf dict id = some fact) (otherNamed : factOf dict other = some fact) :
    id = other := by
  rw [factOf_eq_some_iff] at named otherNamed
  have subs := nameOf_injective valid unreserved named.1 otherNamed.1
  have objs := nameOf_injective valid unreserved named.2.2 otherNamed.2.2
  have preds : id.pred = other.pred := Option.some.inj
    (((valid.predicates.get_iff _ _).mpr named.2.1).symm.trans
      ((valid.predicates.get_iff _ _).mpr otherNamed.2.1))
  cases id
  cases other
  simp_all

theorem factOf_mono (valid : dict.Valid) (unreserved : Unreserved dict) (grownValid : grown.Valid)
    (grownUnreserved : Unreserved grown) (grows : dict.Extends grown)
    (named : factOf dict id = some fact) : factOf grown id = some fact := by
  rw [factOf_eq_some_iff] at named ⊢
  have pred := grows.predicates _ _ ((valid.predicates.get_iff _ _).mpr named.2.1)
  exact ⟨nameOf_mono valid unreserved grownValid grownUnreserved grows named.1,
    (grownValid.predicates.get_iff _ _).mp pred,
    nameOf_mono valid unreserved grownValid grownUnreserved grows named.2.2⟩

/-- The ids of a triple stand for the fact that it states. -/
theorem factOf_lookup (valid : dict.Valid) (unreserved : Unreserved dict) {triple : Triple} :
    dict.lookup triple = some id ↔ factOf dict id = some (Statement.ofTriple triple) := by
  rw [Dictionary.lookup_eq_some_iff, factOf_eq_some_iff, nameOf_iff valid unreserved,
    nameOf_iff valid unreserved, Dictionary.predicateId, valid.predicates.get_iff,
    Dictionary.termId]
  rfl

/-- Every id of a triple is that of a string. -/
def AllNamed (dict : Dictionary) (triples : Finset IdTriple) : Prop :=
  ∀ id ∈ triples, ∃ fact, factOf dict id = some fact

def facts (dict : Dictionary) (triples : Finset IdTriple) : Set Statement :=
  {fact | ∃ id ∈ triples, factOf dict id = some fact}

theorem facts_mono (valid : dict.Valid) (unreserved : Unreserved dict) (grownValid : grown.Valid)
    (grownUnreserved : Unreserved grown) (grows : dict.Extends grown)
    (named : AllNamed dict triples) : facts grown triples = facts dict triples := by
  ext fact
  constructor
  · rintro ⟨id, member, isFact⟩
    obtain ⟨before, wasFact⟩ := named id member
    have stays := factOf_mono valid unreserved grownValid grownUnreserved grows wasFact
    exact ⟨id, member, Option.some.inj (stays.symm.trans isFact) ▸ wasFact⟩
  · rintro ⟨id, member, isFact⟩
    exact ⟨id, member, factOf_mono valid unreserved grownValid grownUnreserved grows isFact⟩

theorem facts_finite (dict : Dictionary) (triples : Finset IdTriple) :
    (facts dict triples).Finite := by
  apply (triples.finite_toSet.biUnion
    (fun id _ => (factOf dict id).toFinset.finite_toSet)).subset
  rintro fact ⟨id, member, isFact⟩
  exact Set.mem_biUnion member (by simp [isFact])

end Facts

/-! ## Rules as conditions -/

abbrev Valuation := Text → Option Text

/-- What a binding says. -/
def valuationOf (binding : RuleBinding) : Valuation := fun name => binding.lookup name

def RuleTerm.vars : RuleTerm → List Text
  | .var name => [name]
  | .const _ => []

/-- A position that a string may stand in. -/
def RuleTerm.Fits (valuation : Valuation) (text : Text) : RuleTerm → Prop
  | .var name => valuation name = some text
  | .const term => term.dictKey = text

def RulePattern.vars (pattern : RulePattern) : List Text :=
  pattern.subject.vars ++ pattern.object.vars

/-- A pattern that a fact is an instance of; its predicate is a constant. -/
structure RulePattern.Fits (pattern : RulePattern) (valuation : Valuation) (fact : Statement) : Prop where
  predicate : ∃ term, pattern.predicate = .const term ∧ term.dictKey = fact.pred
  subject : pattern.subject.Fits valuation fact.sub.2
  object : pattern.object.Fits valuation fact.obj.2

/-- The term in a position; a string is read as a term. -/
def RuleTerm.resolve (valuation : Valuation) : RuleTerm → Option Term
  | .const term => some term
  | .var name => (valuation name).bind parseTerm

/-- A head reads as a well-formed triple. -/
structure RulePattern.Reads (pattern : RulePattern) (valuation : Valuation) (triple : Triple) :
    Prop where
  subject : pattern.subject.resolve valuation = some triple.subject
  predicate : pattern.predicate.resolve valuation = some triple.predicate
  object : pattern.object.resolve valuation = some triple.object
  entity : triple.subject.isLiteral = false
  iri : ∃ iri, triple.predicate = .iri iri

/-- A rule derives a triple from facts: its body holds of them, and its head reads as the triple.
A variable that the body does not mention stands for nothing. -/
def Rule.Derives (rule : Rule) (known : Set Statement) (triple : Triple) : Prop :=
  ∃ valuation : Valuation, (∀ pattern ∈ rule.body, ∃ fact ∈ known, pattern.Fits valuation fact) ∧
    (∀ name, valuation name ≠ none → ∃ pattern ∈ rule.body, name ∈ pattern.vars) ∧
    rule.head.Reads valuation triple

theorem Rule.Derives.mono {rule : Rule} {known more : Set Statement} {triple : Triple}
    (subset : known ⊆ more) (derives : rule.Derives known triple) : rule.Derives more triple := by
  obtain ⟨valuation, body, domain, head⟩ := derives
  refine ⟨valuation, fun pattern member => ?_, domain, head⟩
  obtain ⟨fact, isKnown, fits⟩ := body pattern member
  exact ⟨fact, subset isKnown, fits⟩

theorem resolveTerm_eq (position : RuleTerm) (binding : RuleBinding) :
    resolveTerm position binding = position.resolve (valuationOf binding) := by
  cases position <;> rfl

theorem instantiate_eq_some_iff {pattern : RulePattern} {binding : RuleBinding} {triple : Triple} :
    instantiate pattern binding = some triple ↔ pattern.Reads (valuationOf binding) triple := by
  simp only [instantiate, Option.bind_eq_bind, Option.bind_eq_some_iff, resolveTerm_eq]
  constructor
  · rintro ⟨subject, isSubject, predicate, isPredicate, object, isObject, built⟩
    cases subject <;> cases predicate <;> simp at built <;> subst built
    all_goals exact ⟨isSubject, isPredicate, isObject, rfl, _, rfl⟩
  · rintro ⟨isSubject, isPredicate, isObject, entity, iri, isIri⟩
    refine ⟨_, isSubject, _, isPredicate, _, isObject, ?_⟩
    obtain ⟨subject, predicate, object⟩ := triple
    dsimp only at entity isIri ⊢
    rw [isIri]
    cases subject with
    | literal value datatype lang => cases entity
    | iri text => rfl
    | blank label => rfl

/-! ## Matching -/

section Matching

variable {dict : Dictionary} {pattern : RulePattern} {binding extended : RuleBinding}
  {position : RuleTerm} {text sub obj : Text} {pair : UInt32 × UInt32} {valuation : Valuation}

/-- What one binding says, another one says too. -/
def SaysLess (binding : RuleBinding) (valuation : Valuation) : Prop :=
  ∀ name text, binding.lookup name = some text → valuation name = some text

/-- A string was matched with a position. -/
structure Bound (binding : RuleBinding) (position : RuleTerm) (text : Text)
    (extended : RuleBinding) : Prop where
  more : SaysLess binding (valuationOf extended)
  fits : position.Fits (valuationOf extended) text
  domain : ∀ name, extended.lookup name ≠ none → binding.lookup name ≠ none ∨ name ∈ position.vars

theorem bound_of_bindVar (required : (position.required binding).all (· = text) = true)
    (isBound : bindVar binding position text = some extended) :
    Bound binding position text extended := by
  cases position with
  | const term =>
    obtain rfl := Option.some.inj isBound
    have same : term.dictKey = text := by simpa [RuleTerm.required] using required
    exact ⟨fun _ _ => id, same, fun _ => .inl⟩
  | var name =>
    rw [bindVar] at isBound
    cases known : binding.lookup name with
    | some existing =>
      rw [known] at isBound
      dsimp only at isBound
      split at isBound
      · rename_i same
        obtain rfl := Option.some.inj isBound
        exact ⟨fun _ _ => id, same ▸ known, fun _ => .inl⟩
      · cases isBound
    | none =>
      rw [known] at isBound
      obtain rfl := Option.some.inj isBound
      refine ⟨?_, ?_, ?_⟩
      · intro other value has
        rw [valuationOf, lookup_assocInsert, if_neg]
        · exact has
        · intro same
          rw [eq_of_beq same, known] at has
          cases has
      · rw [RuleTerm.Fits, valuationOf, lookup_assocInsert, if_pos (beq_self_eq_true name)]
      · intro other has
        rw [lookup_assocInsert] at has
        split at has
        · rename_i same
          exact .inr (List.mem_singleton.mpr (eq_of_beq same))
        · exact .inl has

/-- A string that a valuation has in a position can be matched with it. -/
theorem exists_bound (less : SaysLess binding valuation) (fits : position.Fits valuation text) :
    (position.required binding).all (· = text) = true ∧
      ∃ extended, bindVar binding position text = some extended ∧
        SaysLess extended valuation ∧ ∀ name ∈ position.vars, extended.lookup name ≠ none := by
  cases position with
  | const term =>
    have same : term.dictKey = text := fits
    exact ⟨by simpa [RuleTerm.required] using same, binding, rfl, less, nofun⟩
  | var name =>
    rw [RuleTerm.required, bindVar]
    cases known : binding.lookup name with
    | some existing =>
      have same : existing = text := Option.some.inj ((less name existing known).symm.trans fits)
      refine ⟨by simpa using same, binding, if_pos same, less, ?_⟩
      intro other member
      rw [List.mem_singleton.mp member, known]
      exact Option.some_ne_none _
    | none =>
      refine ⟨rfl, _, rfl, ?_, ?_⟩
      · intro other value has
        rw [lookup_assocInsert] at has
        split at has
        · rename_i same
          rw [eq_of_beq same, ← Option.some.inj has]
          exact fits
        · exact less other value has
      · intro other member
        rw [List.mem_singleton.mp member, lookup_assocInsert, if_pos (beq_self_eq_true name)]
        exact Option.some_ne_none _

theorem RuleTerm.Fits.mono {more : Valuation} (fits : position.Fits valuation text)
    (less : ∀ name text, valuation name = some text → more name = some text) :
    position.Fits more text := by
  cases position with
  | const term => exact fits
  | var name => exact less name text fits

/-- One stored pair extends a binding by the strings of its ids. -/
theorem extendPair_sound (ran : extendPair dict pattern binding pair = some extended) :
    ∃ sub obj, dict.idToString pair.1 = some sub ∧ dict.idToString pair.2 = some obj ∧
      pattern.subject.Fits (valuationOf extended) sub ∧
      pattern.object.Fits (valuationOf extended) obj ∧
      SaysLess binding (valuationOf extended) ∧
      ∀ name, extended.lookup name ≠ none → binding.lookup name ≠ none ∨ name ∈ pattern.vars := by
  simp only [extendPair, Option.bind_eq_bind, Option.bind_eq_some_iff] at ran
  obtain ⟨sub, subShown, obj, objShown, ran⟩ := ran
  split at ran
  · rename_i required
    rw [Bool.and_eq_true] at required
    obtain ⟨middle, subBound, objBound⟩ := Option.bind_eq_some_iff.mp ran
    have first := bound_of_bindVar required.1 subBound
    have objRequired : (pattern.object.required middle).all (· = obj) = true := by
      cases isObject : pattern.object with
      | const term =>
        have original := required.2
        rw [isObject] at original
        exact original
      | var name =>
        rw [isObject, bindVar] at objBound
        rw [RuleTerm.required]
        cases known : middle.lookup name with
        | none => rfl
        | some existing =>
          rw [known] at objBound
          dsimp only at objBound
          split at objBound
          · rename_i same
            simpa using same
          · cases objBound
    have second := bound_of_bindVar objRequired objBound
    refine ⟨sub, obj, subShown, objShown, first.fits.mono second.more, second.fits, ?_, ?_⟩
    · exact fun name text has => second.more name text (first.more name text has)
    · intro name has
      rcases second.domain name has with before | inObject
      · rcases first.domain name before with earlier | inSubject
        · exact .inl earlier
        · exact .inr (List.mem_append_left _ inSubject)
      · exact .inr (List.mem_append_right _ inObject)
  · cases ran

theorem extendPair_complete (less : SaysLess binding valuation)
    (subShown : dict.idToString pair.1 = some sub) (objShown : dict.idToString pair.2 = some obj)
    (subFits : pattern.subject.Fits valuation sub) (objFits : pattern.object.Fits valuation obj) :
    ∃ extended, extendPair dict pattern binding pair = some extended ∧ SaysLess extended valuation ∧
      SaysLess binding (valuationOf extended) ∧ ∀ name ∈ pattern.vars, extended.lookup name ≠ none := by
  obtain ⟨subRequired, middle, subBound, middleLess, subHas⟩ := exists_bound less subFits
  obtain ⟨objRequired, -⟩ := exists_bound less objFits
  obtain ⟨middleRequired, extended, objBound, extendedLess, objHas⟩ := exists_bound middleLess objFits
  have first := bound_of_bindVar subRequired subBound
  have second := bound_of_bindVar middleRequired objBound
  refine ⟨extended, ?_, extendedLess, ?_, ?_⟩
  · simp only [extendPair, Option.bind_eq_bind, subShown, objShown, Option.bind_some]
    rw [if_pos (by rw [subRequired, objRequired]; rfl), subBound]
    exact objBound
  · exact fun name text has => second.more name text (first.more name text has)
  · intro name member
    rcases List.mem_append.mp member with inSubject | inObject
    · obtain ⟨text, has⟩ := Option.ne_none_iff_exists'.mp (subHas name inSubject)
      rw [show extended.lookup name = some text from second.more name text has]
      exact Option.some_ne_none _
    · exact objHas name inObject

/-! ## Derivation -/

variable {store : TripleStore} {triples : Finset IdTriple} {bindings : List RuleBinding}

theorem RulePattern.Fits.mono {fact : Statement} {more : Valuation} (fits : pattern.Fits valuation fact)
    (less : ∀ name text, valuation name = some text → more name = some text) :
    pattern.Fits more fact :=
  ⟨fits.predicate, fits.subject.mono less, fits.object.mono less⟩

theorem nameOf_of_shown {id : UInt32} (shown : dict.idToString id = some text) :
    nameOf dict id = some (decide (literalFirstId ≤ id.toNat), text) := by
  rw [nameOf, shown]
  rfl

theorem extendBindings_sound (valid : dict.Valid) (refines : Refines store triples)
    (member : extended ∈ extendBindings dict store bindings pattern) :
    ∃ binding ∈ bindings, SaysLess binding (valuationOf extended) ∧
      (∃ fact ∈ facts dict triples, pattern.Fits (valuationOf extended) fact) ∧
      ∀ name, extended.lookup name ≠ none → binding.lookup name ≠ none ∨ name ∈ pattern.vars := by
  unfold extendBindings at member
  split at member
  · cases member
  · rename_i predicate isPredicate
    split at member
    · cases member
    · rename_i pred known
      obtain ⟨binding, isBinding, inPairs⟩ := List.mem_flatMap.mp member
      obtain ⟨pair, isPair, ran⟩ := List.mem_filterMap.mp inPairs
      obtain ⟨sub, obj, subShown, objShown, subFits, objFits, less, domain⟩ := extendPair_sound ran
      have stored := ((refines.soByP pred).mem_iff pair).mp isPair
      have named : dict.predicates.resolve pred = some predicate.dictKey :=
        (valid.predicates.get_iff _ _).mp known
      let fact : Statement := ⟨(decide (literalFirstId ≤ pair.1.toNat), sub), predicate.dictKey,
        (decide (literalFirstId ≤ pair.2.toNat), obj)⟩
      have isFact : factOf dict ⟨pair.1, pred, pair.2⟩ = some fact :=
        factOf_eq_some_iff.mpr ⟨nameOf_of_shown subShown, named, nameOf_of_shown objShown⟩
      exact ⟨binding, isBinding, less,
        ⟨fact, ⟨_, stored, isFact⟩, ⟨predicate, isPredicate, rfl⟩, subFits, objFits⟩, domain⟩

theorem extendBindings_complete (valid : dict.Valid) (refines : Refines store triples)
    (isBinding : binding ∈ bindings) (less : SaysLess binding valuation) {fact : Statement}
    (isFact : fact ∈ facts dict triples) (fits : pattern.Fits valuation fact) :
    ∃ extended ∈ extendBindings dict store bindings pattern, SaysLess extended valuation ∧
      SaysLess binding (valuationOf extended) ∧
      ∀ name ∈ pattern.vars, extended.lookup name ≠ none := by
  obtain ⟨id, stored, named⟩ := isFact
  obtain ⟨subNamed, predNamed, objNamed⟩ := factOf_eq_some_iff.mp named
  obtain ⟨predicate, isPredicate, key⟩ := fits.predicate
  have known : dict.predicateId predicate.dictKey = some id.pred := by
    rw [key]
    exact (valid.predicates.get_iff _ _).mpr predNamed
  obtain ⟨sub, subShown, sameSub⟩ := Option.map_eq_some_iff.mp subNamed
  obtain ⟨obj, objShown, sameObj⟩ := Option.map_eq_some_iff.mp objNamed
  have subFits := fits.subject
  have objFits := fits.object
  rw [← sameSub] at subFits
  rw [← sameObj] at objFits
  obtain ⟨extended, ran, extendedLess, more, has⟩ := @extendPair_complete dict pattern binding
    sub obj (id.sub, id.obj) valuation less subShown objShown subFits objFits
  refine ⟨extended, ?_, extendedLess, more, has⟩
  rw [extendBindings, isPredicate]
  dsimp only
  rw [known]
  refine List.mem_flatMap.mpr ⟨binding, isBinding, List.mem_filterMap.mpr ⟨(id.sub, id.obj), ?_, ran⟩⟩
  exact ((refines.soByP id.pred).mem_iff (id.sub, id.obj)).mpr stored

theorem foldl_sound (valid : dict.Valid) (refines : Refines store triples)
    (body : List RulePattern) : ∀ {bindings : List RuleBinding},
      extended ∈ body.foldl (extendBindings dict store) bindings →
      ∃ binding ∈ bindings, SaysLess binding (valuationOf extended) ∧
        (∀ pattern ∈ body, ∃ fact ∈ facts dict triples, pattern.Fits (valuationOf extended) fact) ∧
        ∀ name, extended.lookup name ≠ none → binding.lookup name ≠ none ∨
          ∃ pattern ∈ body, name ∈ pattern.vars := by
  induction body with
  | nil =>
    intro bindings member
    exact ⟨extended, member, fun _ _ => id, nofun, fun _ => .inl⟩
  | cons pattern body induction =>
    intro bindings member
    obtain ⟨middle, isMiddle, more, each, domain⟩ := induction member
    obtain ⟨binding, isBinding, less, ⟨fact, isFact, fits⟩, first⟩ :=
      extendBindings_sound valid refines isMiddle
    refine ⟨binding, isBinding, fun name text has => more name text (less name text has), ?_, ?_⟩
    · intro other inBody
      rcases List.mem_cons.mp inBody with rfl | later
      · exact ⟨fact, isFact, fits.mono more⟩
      · exact each other later
    · intro name has
      rcases domain name has with before | ⟨other, later, mentions⟩
      · rcases first name before with earlier | mentions
        · exact .inl earlier
        · exact .inr ⟨pattern, List.mem_cons_self, mentions⟩
      · exact .inr ⟨other, List.mem_cons_of_mem _ later, mentions⟩

theorem foldl_complete (valid : dict.Valid) (refines : Refines store triples)
    (body : List RulePattern) : ∀ {bindings : List RuleBinding} {binding : RuleBinding},
      binding ∈ bindings → SaysLess binding valuation →
      (∀ pattern ∈ body, ∃ fact ∈ facts dict triples, pattern.Fits valuation fact) →
      ∃ extended ∈ body.foldl (extendBindings dict store) bindings, SaysLess extended valuation ∧
        SaysLess binding (valuationOf extended) ∧
        ∀ pattern ∈ body, ∀ name ∈ pattern.vars, extended.lookup name ≠ none := by
  induction body with
  | nil =>
    intro bindings binding isBinding less _
    exact ⟨binding, isBinding, less, fun _ _ => id, nofun⟩
  | cons pattern body induction =>
    intro bindings binding isBinding less each
    obtain ⟨fact, isFact, fits⟩ := each pattern List.mem_cons_self
    obtain ⟨middle, isMiddle, middleLess, first, has⟩ :=
      extendBindings_complete valid refines isBinding less isFact fits
    obtain ⟨extended, isExtended, extendedLess, second, further⟩ := induction isMiddle middleLess
      fun other member => each other (List.mem_cons_of_mem _ member)
    refine ⟨extended, isExtended, extendedLess,
      fun name text known => second name text (first name text known), ?_⟩
    intro other member name mentions
    rcases List.mem_cons.mp member with rfl | later
    · obtain ⟨text, known⟩ := Option.ne_none_iff_exists'.mp (has name mentions)
      rw [show extended.lookup name = some text from second name text known]
      exact Option.some_ne_none _
    · exact further other later name mentions

/-- A rule lists the triples that it derives from the facts of the store. -/
theorem mem_derive_iff (valid : dict.Valid) (refines : Refines store triples) {rule : Rule}
    {triple : Triple} :
    triple ∈ rule.derive dict store ↔ rule.Derives (facts dict triples) triple := by
  rw [Rule.derive, List.mem_filterMap]
  constructor
  · rintro ⟨extended, member, head⟩
    obtain ⟨binding, isBinding, -, each, domain⟩ := foldl_sound valid refines rule.body member
    rw [List.mem_singleton] at isBinding
    refine ⟨valuationOf extended, each, fun name has => ?_, instantiate_eq_some_iff.mp head⟩
    rcases domain name has with before | mentions
    · rw [isBinding] at before
      exact absurd rfl before
    · exact mentions
  · rintro ⟨valuation, each, domain, head⟩
    have empty : SaysLess [] valuation := nofun
    obtain ⟨extended, member, less, -, has⟩ :=
      foldl_complete valid refines rule.body (List.mem_singleton_self []) empty each
    have same : valuationOf extended = valuation := by
      funext name
      cases known : valuation name with
      | none =>
        cases found : extended.lookup name with
        | none => exact found
        | some text => cases known.symm.trans (less name text found)
      | some text =>
        obtain ⟨pattern, inBody, mentions⟩ := domain name (by rw [known]; exact nofun)
        obtain ⟨other, found⟩ := Option.ne_none_iff_exists'.mp (has pattern inBody name mentions)
        have equal := Option.some.inj (known.symm.trans (less name other found))
        rw [equal]
        exact found
    exact ⟨extended, member, instantiate_eq_some_iff.mpr (same ▸ head)⟩

end Matching

end GStore.Reason
