import GStore.Reason.RuleFacts
import GStore.Reason.TermText

/-! # Rules run to their least fixpoint

`reason/mod.rs`, `RuleSet::apply`: passes over the rules until one adds nothing. The facts at the
end are the least ones that hold the stored facts and all that the enabled rules derive from
them. -/

namespace GStore.Reason

open Dict Store

/-! ## What a set of rules derives -/

/-- An enabled rule derives a triple that states the fact. -/
def derives (rules : List Rule) (known : Set Statement) (fact : Statement) : Prop :=
  ∃ rule ∈ rules, rule.enabled = true ∧
    ∃ triple, rule.Derives known triple ∧ fact = Statement.ofTriple triple

section Derives

variable {rules other : List Rule} {known : Set Statement}

theorem monotone_derives (rules : List Rule) : MonotoneRules (derives rules) := by
  intro known more subset fact derived
  obtain ⟨rule, member, enabled, triple, derived, same⟩ := derived
  exact ⟨rule, member, enabled, triple, derived.mono subset, same⟩

def Rule.reset (rule : Rule) : Rule := { rule with effectCount := 0 }

/-- Effect counts and the order of the rules do not matter. -/
theorem derives_congr (same : ∀ rule, rule ∈ other.map Rule.reset ↔ rule ∈ rules.map Rule.reset) :
    derives other = derives rules := by
  have half : ∀ {left right : List Rule}, (∀ rule, rule ∈ left.map Rule.reset →
      rule ∈ right.map Rule.reset) → ∀ known fact, derives left known fact →
      derives right known fact := by
    intro left right subset known fact derived
    obtain ⟨rule, member, enabled, triple, derived, stated⟩ := derived
    obtain ⟨counterpart, isRule, equal⟩ := List.mem_map.mp
      (subset _ (List.mem_map_of_mem (f := Rule.reset) member))
    have parts := Rule.mk.inj equal
    refine ⟨counterpart, isRule, parts.2.2.2.1.trans enabled, triple, ?_, stated⟩
    unfold Rule.Derives at derived ⊢
    rw [parts.2.1, parts.2.2.1]
    exact derived
  funext known fact
  exact propext ⟨half (fun rule => (same rule).mp) known fact,
    half (fun rule => (same rule).mpr) known fact⟩

end Derives

/-! ## Finitely many facts are derived -/

/-- The strings that a fact mentions. -/
def Statement.texts (fact : Statement) : Set Text := {fact.sub.2, fact.pred, fact.obj.2}

def RuleTerm.texts : RuleTerm → Set Text
  | .var _ => ∅
  | .const term => {term.dictKey}

/-- The surface form of the term that a string is read as. -/
def canonical (text : Text) : Option Text := (parseTerm text).map Term.dictKey

/-- Strings, with the surface forms of the terms that they are read as. -/
def readings (texts : Set Text) : Set Text :=
  texts ∪ {key | ∃ text ∈ texts, canonical text = some key}

section Readings

variable {texts : Set Text} {text key : Text}

theorem readings_finite (finite : texts.Finite) : (readings texts).Finite := by
  apply finite.union
  apply (finite.image fun text => (canonical text).getD []).subset
  rintro key ⟨text, member, isKey⟩
  exact ⟨text, member, by simp [isKey]⟩

/-- A second reading is the first one. -/
theorem readings_closed (member : text ∈ readings texts) (isKey : canonical text = some key) :
    key ∈ readings texts := by
  rcases member with base | ⟨first, base, read⟩
  · exact .inr ⟨text, base, isKey⟩
  · obtain ⟨term, parsed, rfl⟩ := Option.map_eq_some_iff.mp read
    rw [canonical, parseTerm_dictKey parsed] at isKey
    exact Option.some.inj isKey ▸ .inr ⟨first, base, read⟩

end Readings

/-- The facts whose strings are among those given. -/
def factsOver (texts : Set Text) : Set Statement := {fact | fact.texts ⊆ texts}

theorem factsOver_finite {texts : Set Text} (finite : texts.Finite) : (factsOver texts).Finite := by
  have names : ((Set.univ : Set Bool) ×ˢ texts).Finite := Set.finite_univ.prod finite
  apply ((names.prod (finite.prod names)).image
    fun parts => ({ sub := parts.1, pred := parts.2.1, obj := parts.2.2 } : Statement)).subset
  intro fact member
  have inside : fact.texts ⊆ texts := member
  exact ⟨(fact.sub, fact.pred, fact.obj), ⟨⟨trivial, inside (.inl rfl)⟩, inside (.inr (.inl rfl)),
    trivial, inside (.inr (.inr rfl))⟩, rfl⟩

/-- The strings that a run may start from: those of the facts, and the constants of the heads. -/
def startTexts (rules : List Rule) (base : Set Statement) : Set Text :=
  (⋃ fact ∈ base, fact.texts) ∪ ⋃ rule ∈ {rule | rule ∈ rules},
    (rule.head.subject.texts ∪ rule.head.predicate.texts ∪ rule.head.object.texts)

section Finite

variable {rules : List Rule} {base : Set Statement}

theorem startTexts_finite (rules : List Rule) (finite : base.Finite) :
    (startTexts rules base).Finite := by
  have positions : ∀ position : RuleTerm, position.texts.Finite := by
    intro position
    cases position with
    | var name => exact Set.finite_empty
    | const term => exact Set.finite_singleton _
  apply Set.Finite.union
  · exact finite.biUnion fun fact _ => by simp [Statement.texts]
  · exact (List.finite_toSet rules).biUnion fun rule _ =>
      ((positions _).union (positions _)).union (positions _)

/-- A valuation of a body that holds of facts takes its strings from them. -/
theorem texts_of_body {rule : Rule} {texts : Set Text} {valuation : Valuation} {name text : Text}
    (body : ∀ pattern ∈ rule.body, ∃ fact ∈ factsOver texts, pattern.Fits valuation fact)
    (domain : ∀ name, valuation name ≠ none → ∃ pattern ∈ rule.body, name ∈ pattern.vars)
    (known : valuation name = some text) : text ∈ texts := by
  obtain ⟨pattern, member, mentions⟩ := domain name (by rw [known]; exact Option.some_ne_none _)
  obtain ⟨fact, inside, fits⟩ := body pattern member
  have of : ∀ {position : RuleTerm} {stands : Text}, name ∈ position.vars →
      position.Fits valuation stands → stands = text := by
    intro position stands mentions fits
    cases position with
    | const term => cases mentions
    | var other =>
      obtain rfl := List.mem_singleton.mp mentions
      exact Option.some.inj ((show valuation name = some stands from fits).symm.trans known)
  rcases List.mem_append.mp mentions with left | right
  · exact of left fits.subject ▸ inside (.inl rfl)
  · exact of right fits.object ▸ inside (.inr (.inr rfl))

theorem closedOver_factsOver (rules : List Rule) (base : Set Statement) :
    factsOver (readings (startTexts rules base)) ∈ ClosedOver (derives rules) base := by
  constructor
  · intro fact member text mentions
    exact .inl (.inl (Set.mem_biUnion member mentions))
  · intro fact derived
    obtain ⟨rule, member, -, triple, ⟨valuation, body, domain, head⟩, rfl⟩ := derived
    have resolved : ∀ {position : RuleTerm} {term : Term},
        position.texts ⊆ startTexts rules base → position.resolve valuation = some term →
        term.dictKey ∈ readings (startTexts rules base) := by
      intro position term constants isTerm
      cases position with
      | const constant =>
        obtain rfl := Option.some.inj isTerm
        exact .inl (constants rfl)
      | var name =>
        obtain ⟨text, known, parsed⟩ := Option.bind_eq_some_iff.mp isTerm
        have read : canonical text = some term.dictKey := by rw [canonical, parsed]; rfl
        exact readings_closed (texts_of_body body domain known) read
    have constants : rule.head.subject.texts ∪ rule.head.predicate.texts ∪ rule.head.object.texts ⊆
        startTexts rules base := by
      apply Set.subset_union_of_subset_right
      exact Set.subset_biUnion_of_mem (u := fun rule : Rule =>
        rule.head.subject.texts ∪ rule.head.predicate.texts ∪ rule.head.object.texts) member
    intro text mentions
    rcases mentions with rfl | rfl | rfl
    · exact resolved (fun _ within => constants (.inl (.inl within))) head.subject
    · exact resolved (fun _ within => constants (.inl (.inr within))) head.predicate
    · exact resolved (fun _ within => constants (.inr within)) head.object

/-- Rules never go on forever: a derived term is read once more without a change. -/
theorem chained_finite (rules : List Rule) (finite : base.Finite) :
    (chained (derives rules) base).Finite :=
  (factsOver_finite (readings_finite (startTexts_finite rules finite))).subset
    (chained_subset (closedOver_factsOver rules base))

end Finite

/-! ## Room -/

section Room

variable {dict larger grown : Dictionary} {triple : Triple} {id : IdTriple}

theorem unreserved_internLiteral (valid : dict.Valid) (largerValid : larger.Valid)
    (unreserved : Unreserved dict) (largerUnreserved : Unreserved larger)
    (within : dict.Within larger) {key : Text} {literal other : UInt32}
    (known : larger.literalId key = some other)
    (interned : dict.internLiteral key = some (grown, literal)) : Unreserved grown := by
  obtain ⟨otherIndex, found, -⟩ := Option.map_eq_some_iff.mp known
  obtain ⟨literals, index, entry, -, bound⟩ :=
    Interner.intern_within valid.literals largerValid.literals within.literals found
  simp only [Dictionary.internLiteral, entry] at interned
  split at interned
  · cases interned
    rw [Unreserved] at unreserved largerUnreserved ⊢
    change literals.backward.length + literalFirstId < 2 ^ 32
    rcases Interner.length_intern entry with same | pushed
    · omega
    · omega
  · cases interned

theorem literals_internEntity {key : Text} {entity : UInt32}
    (interned : dict.internEntity key = some (grown, entity)) : grown.literals = dict.literals := by
  unfold Dictionary.internEntity at interned
  split at interned
  · split at interned
    · cases interned
      rfl
    · cases interned
  · cases interned

theorem literals_internPredicate {key : Text} {pred : UInt32}
    (interned : dict.internPredicate key = some (grown, pred)) : grown.literals = dict.literals := by
  unfold Dictionary.internPredicate at interned
  split at interned
  · cases interned
    rfl
  · cases interned

theorem unreserved_encodeTriple (valid : dict.Valid) (largerValid : larger.Valid)
    (unreserved : Unreserved dict) (largerUnreserved : Unreserved larger)
    (within : dict.Within larger) {other : IdTriple} (known : larger.lookup triple = some other)
    (encoded : dict.encodeTriple triple = some (grown, id)) : Unreserved grown := by
  rw [Dictionary.lookup_eq_some_iff] at known
  simp only [Dictionary.encodeTriple, Option.bind_eq_bind, Option.bind_eq_some_iff,
    Option.pure_def, Option.some.injEq, Prod.mk.injEq, Prod.exists] at encoded
  obtain ⟨first, sub, entity, second, pred, predicate, third, obj, term, rfl, rfl⟩ := encoded
  obtain ⟨_, _, sameEntity, firstWithin⟩ :=
    Dictionary.internEntity_within valid largerValid within known.1
  obtain ⟨rfl, rfl⟩ := Prod.mk.inj (Option.some.inj (entity.symm.trans sameEntity))
  have firstValid := (Dictionary.internEntity_spec valid entity).1
  obtain ⟨_, _, samePredicate, secondWithin⟩ :=
    Dictionary.internPredicate_within firstValid largerValid firstWithin known.2.1
  obtain ⟨rfl, rfl⟩ := Prod.mk.inj (Option.some.inj (predicate.symm.trans samePredicate))
  have secondValid := (Dictionary.internPredicate_spec firstValid predicate).1
  have same : second.literals = dict.literals :=
    (literals_internPredicate predicate).trans (literals_internEntity entity)
  have still : Unreserved second := by
    rw [Unreserved, same]
    exact unreserved
  have object := known.2.2
  unfold Dictionary.internTerm at term
  unfold Dictionary.termId at object
  split at term
  · rename_i literal
    rw [if_pos literal] at object
    exact unreserved_internLiteral secondValid largerValid still largerUnreserved secondWithin object
      term
  · rw [Unreserved, literals_internEntity term]
    exact still

end Room

/-- A dictionary with room for all that the rules derive. -/
structure Room (rules : List Rule) (dict : Dictionary) (base : Set Statement) (larger : Dictionary) :
    Prop where
  valid : larger.Valid
  unreserved : Unreserved larger
  within : dict.Within larger
  derived : ∀ triple, derives rules (chained (derives rules) base) (.ofTriple triple) →
    ∃ id, larger.lookup triple = some id

/-! ## Insertion -/

/-- The state of a run: every id names a string, and the strings are among those with room. -/
structure Holds (run : RuleRun) (triples : Finset IdTriple) (larger : Dictionary) : Prop where
  valid : run.dict.Valid
  unreserved : Unreserved run.dict
  within : run.dict.Within larger
  refines : Refines run.store triples
  named : AllNamed run.dict triples

/-- A run went on and added the triples listed, each of them new. -/
structure Added (run : RuleRun) (triples : Finset IdTriple) (after : RuleRun)
    (final : Finset IdTriple) (more : List IdTriple) : Prop where
  grows : run.dict.Extends after.dict
  added : after.added = run.added ++ more
  nodup : more.Nodup
  mem_iff : ∀ id, id ∈ final ↔ id ∈ triples ∨ id ∈ more
  fresh : ∀ id ∈ more, id ∉ triples

section Added

variable {run middle after : RuleRun} {triples between final : Finset IdTriple}
  {larger : Dictionary} {first second more : List IdTriple} {triple : Triple}

theorem Added.refl (run : RuleRun) (triples : Finset IdTriple) : Added run triples run triples [] where
  grows := .refl _
  added := (List.append_nil _).symm
  nodup := List.nodup_nil
  mem_iff id := by simp
  fresh id member := by cases member

theorem Added.trans (left : Added run triples middle between first)
    (right : Added middle between after final second) :
    Added run triples after final (first ++ second) where
  grows := left.grows.trans right.grows
  added := by rw [right.added, left.added, List.append_assoc]
  nodup := by
    rw [List.nodup_append]
    refine ⟨left.nodup, right.nodup, ?_⟩
    rintro id early other late rfl
    exact right.fresh id late ((left.mem_iff id).mpr (.inr early))
  mem_iff id := by rw [right.mem_iff, left.mem_iff, List.mem_append, or_assoc]
  fresh id member := by
    rcases List.mem_append.mp member with early | late
    · exact left.fresh id early
    · exact fun held => right.fresh id late ((left.mem_iff id).mpr (.inl held))

theorem Added.subset (added : Added run triples after final more) : triples ⊆ final :=
  fun id member => (added.mem_iff id).mpr (.inl member)

theorem Added.facts_subset (added : Added run triples after final more)
    (held : Holds run triples larger) (heldAfter : Holds after final larger) :
    facts run.dict triples ⊆ facts after.dict final := by
  rintro fact ⟨id, member, isFact⟩
  exact ⟨id, added.subset member, factOf_mono held.valid held.unreserved heldAfter.valid
    heldAfter.unreserved added.grows isFact⟩

/-- A new triple states a fact that was not known. -/
theorem Added.exists_new (added : Added run triples after final more)
    (held : Holds run triples larger) (heldAfter : Holds after final larger) (some : more ≠ []) :
    ∃ fact ∈ facts after.dict final, fact ∉ facts run.dict triples := by
  obtain ⟨id, member⟩ := List.exists_mem_of_ne_nil _ some
  have stored := (added.mem_iff id).mpr (.inr member)
  obtain ⟨fact, isFact⟩ := heldAfter.named id stored
  refine ⟨fact, ⟨id, stored, isFact⟩, ?_⟩
  rintro ⟨other, known, wasFact⟩
  have stays := factOf_mono held.valid held.unreserved heldAfter.valid heldAfter.unreserved
    added.grows wasFact
  have same := factOf_injective heldAfter.valid heldAfter.unreserved isFact stays
  exact added.fresh id member (same ▸ known)

theorem insert_spec (largerValid : larger.Valid) (largerUnreserved : Unreserved larger)
    (held : Holds run triples larger) {known : IdTriple} (room : larger.lookup triple = some known) :
    ∃ after isNew final more, run.insert triple = some (after, isNew) ∧
      Holds after final larger ∧ Added run triples after final more ∧
      more.length = (if isNew then 1 else 0) ∧
      facts after.dict final = insert (Statement.ofTriple triple) (facts run.dict triples) := by
  obtain ⟨grown, id, encoded, within⟩ :=
    Dictionary.encodeTriple_within held.valid largerValid held.within room
  obtain ⟨grownValid, grows, found⟩ := Dictionary.encodeTriple_spec held.valid encoded
  have grownUnreserved := unreserved_encodeTriple held.valid largerValid held.unreserved
    largerUnreserved held.within room encoded
  have stated := (factOf_lookup grownValid grownUnreserved).mp found
  obtain ⟨refines, isNew⟩ := held.refines.insert id
  have named : AllNamed grown ({id} ∪ triples) := by
    intro other member
    rcases Finset.mem_union.mp member with same | before
    · rw [Finset.mem_singleton.mp same]
      exact ⟨_, stated⟩
    · obtain ⟨fact, isFact⟩ := held.named other before
      exact ⟨fact, factOf_mono held.valid held.unreserved grownValid grownUnreserved grows isFact⟩
  have same : facts grown ({id} ∪ triples) =
      insert (Statement.ofTriple triple) (facts run.dict triples) := by
    rw [← facts_mono held.valid held.unreserved grownValid grownUnreserved grows held.named]
    ext fact
    constructor
    · rintro ⟨other, member, isFact⟩
      rcases Finset.mem_union.mp member with equal | before
      · rw [Finset.mem_singleton.mp equal, stated] at isFact
        exact .inl (Option.some.inj isFact).symm
      · exact .inr ⟨other, before, isFact⟩
    · rintro (rfl | ⟨other, before, isFact⟩)
      · exact ⟨id, by simp, stated⟩
      · exact ⟨other, by simp [before], isFact⟩
  have ran : run.insert triple = some
      ({ dict := grown
         store := (run.store.insert id).1
         added := if (run.store.insert id).2 then run.added ++ [id] else run.added },
        (run.store.insert id).2) := by
    rw [RuleRun.insert, encoded]
    rfl
  refine ⟨_, _, {id} ∪ triples, if id ∈ triples then [] else [id], ran,
    ⟨grownValid, grownUnreserved, within, refines, named⟩, ?_, ?_, same⟩
  · rw [isNew]
    by_cases member : id ∈ triples
    · simp only [member, if_true, not_true, decide_false, Bool.false_eq_true, if_false]
      exact ⟨grows, (List.append_nil _).symm, List.nodup_nil, fun other => by simp [member], by simp⟩
    · simp only [member, if_false, not_false_eq_true, decide_true, if_true]
      exact ⟨grows, rfl, List.nodup_singleton id, fun other => by simp [or_comm],
        fun other same => List.mem_singleton.mp same ▸ member⟩
  · rw [isNew]
    by_cases member : id ∈ triples
    · simp [member]
    · simp [member]

theorem insertAll_spec (largerValid : larger.Valid) (largerUnreserved : Unreserved larger)
    (list : List Triple) : ∀ {run : RuleRun} {triples : Finset IdTriple},
      Holds run triples larger → (∀ triple ∈ list, ∃ id, larger.lookup triple = some id) →
      ∃ after count final more, run.insertAll list = some (after, count) ∧
        Holds after final larger ∧ Added run triples after final more ∧ more.length = count ∧
        facts after.dict final =
          facts run.dict triples ∪ {fact | ∃ triple ∈ list, fact = .ofTriple triple} := by
  induction list with
  | nil =>
    intro run triples held _
    exact ⟨run, 0, triples, [], rfl, held, .refl run triples, rfl, by simp⟩
  | cons triple rest induction =>
    intro run triples held room
    obtain ⟨id, known⟩ := room triple List.mem_cons_self
    obtain ⟨middle, isNew, between, first, inserted, heldMiddle, left, one, grown⟩ :=
      insert_spec largerValid largerUnreserved held known
    obtain ⟨after, count, final, second, further, heldAfter, right, counted, all⟩ :=
      induction heldMiddle fun other member => room other (List.mem_cons_of_mem _ member)
    refine ⟨after, if isNew then count + 1 else count, final, first ++ second, ?_, heldAfter,
      left.trans right, ?_, ?_⟩
    · simp [RuleRun.insertAll, inserted, further]
    · rw [List.length_append, one, counted]
      cases isNew
      · simp
      · simp; omega
    · rw [all, grown]
      ext fact
      simp only [Set.mem_union, Set.mem_insert_iff, Set.mem_ofPred_eq, List.mem_cons,
        exists_eq_or_imp]
      tauto

end Added

/-! ## Passes -/

section Passes

variable {all rules order : List Rule} {larger dict : Dictionary} {base : Set Statement}
  {run : RuleRun} {triples : Finset IdTriple} {store : TripleStore}

/-- The effect counts of some rules together. -/
def effects (rules : List Rule) : Nat := (rules.map Rule.effectCount).sum

/-- A pass adds only facts that are derived, and all that the rules derived when it began. -/
theorem applyRules_spec (room : Room all dict base larger) (rules : List Rule) :
    ∀ {run : RuleRun} {triples : Finset IdTriple},
      (∀ {known fact}, derives rules known fact → derives all known fact) →
      Holds run triples larger → facts run.dict triples ⊆ chained (derives all) base →
      ∃ rules' after count final more, applyRules rules run = some (rules', after, count) ∧
        Holds after final larger ∧ Added run triples after final more ∧ more.length = count ∧
        facts after.dict final ⊆ chained (derives all) base ∧
        (∀ fact, derives rules (facts run.dict triples) fact → fact ∈ facts after.dict final) ∧
        rules'.map Rule.reset = rules.map Rule.reset ∧
        effects rules' = effects rules + count := by
  have least : IsLeast (ClosedOver (derives all) base) (chained (derives all) base) :=
    isLeast_chained (monotone_derives all)
  induction rules with
  | nil =>
    intro run triples _ held below
    refine ⟨[], run, 0, triples, [], rfl, held, .refl run triples, rfl, below, ?_, rfl, rfl⟩
    rintro fact ⟨rule, member, -⟩
    cases member
  | cons rule rest induction =>
    intro run triples ofAll held below
    have others : ∀ {known fact}, derives rest known fact → derives all known fact := by
      rintro known fact ⟨other, member, states⟩
      exact ofAll ⟨other, List.mem_cons_of_mem _ member, states⟩
    cases enabled : rule.enabled with
    | false =>
      obtain ⟨rest', after, count, final, more, ran, heldAfter, added, counted, above, derived,
        sameRules, sum⟩ := induction others held below
      refine ⟨rule :: rest', after, count, final, more, ?_, heldAfter, added, counted, above, ?_,
        ?_, ?_⟩
      · simp [applyRules, enabled, ran]
      · rintro fact ⟨other, member, isEnabled, states⟩
        rcases List.mem_cons.mp member with rfl | later
        · rw [enabled] at isEnabled
          cases isEnabled
        · exact derived fact ⟨other, later, isEnabled, states⟩
      · rw [List.map_cons, List.map_cons, sameRules]
      · simp only [effects, List.map_cons, List.sum_cons] at sum ⊢
        omega
    | true =>
      have known : ∀ triple ∈ rule.derive run.dict run.store,
          derives all (chained (derives all) base) (.ofTriple triple) := by
        intro triple member
        have states := (mem_derive_iff held.valid held.refines).mp member
        exact ofAll ⟨rule, List.mem_cons_self, enabled, triple, states.mono below, rfl⟩
      obtain ⟨middle, here, between, first, inserted, heldMiddle, left, one, grown⟩ :=
        insertAll_spec room.valid room.unreserved (rule.derive run.dict run.store) held
          fun triple member => room.derived triple (known triple member)
      have belowMiddle : facts middle.dict between ⊆ chained (derives all) base := by
        rw [grown]
        apply Set.union_subset below
        rintro fact ⟨triple, member, rfl⟩
        exact least.1.2 _ (known triple member)
      obtain ⟨rest', after, count, final, second, ran, heldAfter, right, counted, above, derived,
        sameRules, sum⟩ := induction others heldMiddle belowMiddle
      refine ⟨{ rule with effectCount := rule.effectCount + here } :: rest', after,
        here + count, final, first ++ second, ?_, heldAfter, left.trans right, ?_, above, ?_, ?_,
        ?_⟩
      · simp [applyRules, enabled, inserted, ran]
      · rw [List.length_append, one, counted]
      · rintro fact ⟨other, member, isEnabled, triple, states, rfl⟩
        rcases List.mem_cons.mp member with rfl | later
        · apply right.facts_subset heldMiddle heldAfter
          rw [grown]
          exact .inr ⟨triple, (mem_derive_iff held.valid held.refines).mpr states, rfl⟩
        · exact derived _ ⟨other, later, isEnabled, triple,
            states.mono (left.facts_subset held heldMiddle), rfl⟩
      · rw [List.map_cons, List.map_cons, sameRules]
        rfl
      · simp only [effects, List.map_cons, List.sum_cons] at sum ⊢
        omega

/-- Passes reach the least fixpoint: each but the last one adds a fact. -/
theorem applyLoop_spec (room : Room all dict base larger) (finite : base.Finite) (fuel : Nat) :
    ∀ {rules : List Rule} {run : RuleRun} {triples : Finset IdTriple},
      derives rules = derives all → Holds run triples larger → base ⊆ facts run.dict triples →
      facts run.dict triples ⊆ chained (derives all) base →
      (chained (derives all) base \ facts run.dict triples).ncard < fuel →
      ∃ rules' after final more, applyLoop fuel rules run = some (rules', after) ∧
        Holds after final larger ∧ Added run triples after final more ∧
        facts after.dict final = chained (derives all) base ∧
        rules'.map Rule.reset = rules.map Rule.reset ∧
        effects rules' = effects rules + more.length := by
  induction fuel with
  | zero =>
    intro rules run triples _ _ _ _ enough
    exact absurd enough (Nat.not_lt_zero _)
  | succ fuel induction =>
    intro rules run triples same held above below enough
    obtain ⟨passed, middle, count, between, first, ran, heldMiddle, left, counted, still, derived,
      sameRules, sum⟩ := applyRules_spec room rules
        (fun {known fact} states => by rw [← same]; exact states) held below
    have grown := left.facts_subset held heldMiddle
    by_cases quiet : count = 0
    · have none : first = [] := List.length_eq_zero_iff.mp (counted.trans quiet)
      have kept : facts middle.dict between = facts run.dict triples := by
        have unchanged : between = triples := by
          ext id
          rw [left.mem_iff, none]
          simp
        rw [unchanged]
        exact facts_mono held.valid held.unreserved heldMiddle.valid heldMiddle.unreserved
          left.grows held.named
      refine ⟨passed, middle, between, first, ?_, heldMiddle, left, ?_, sameRules, ?_⟩
      · simp [applyLoop, ran, quiet]
      · apply Set.Subset.antisymm still
        apply chained_subset
        refine ⟨above.trans grown, fun fact states => derived fact ?_⟩
        rw [same, ← kept]
        exact states
      · rw [sum, counted]
    · have some : first ≠ [] := by
        rintro rfl
        exact quiet counted.symm
      obtain ⟨fact, isFact, fresh⟩ := left.exists_new held heldMiddle some
      have fewer : (chained (derives all) base \ facts middle.dict between).ncard <
          (chained (derives all) base \ facts run.dict triples).ncard := by
        apply Set.ncard_lt_ncard _ ((chained_finite all finite).subset Set.sdiff_subset)
        rw [Set.ssubset_iff_of_subset (Set.sdiff_subset_sdiff_right grown)]
        exact ⟨fact, ⟨still isFact, fresh⟩, fun outside => outside.2 isFact⟩
      have congr : derives passed = derives all :=
        (derives_congr fun rule => by rw [sameRules]).trans same
      obtain ⟨rules', after, final, second, further, heldAfter, right, closed, laterSame,
        laterSum⟩ := induction congr heldMiddle (above.trans grown) still (by omega)
      refine ⟨rules', after, final, first ++ second, ?_, heldAfter, left.trans right, closed,
        laterSame.trans sameRules, ?_⟩
      · simp [applyLoop, ran, quiet, further]
      · rw [laterSum, sum, List.length_append, counted, Nat.add_assoc]

end Passes

/-! ## The fixpoint -/

/-- What a run of the rules leaves: a store of the closed facts, and an account of each triple that
was added. -/
structure Fixpoint (rules : List Rule) (dict : Dictionary) (triples : Finset IdTriple)
    (closed : Set Statement) (rules' : List Rule) (run : RuleRun) (final : Finset IdTriple) : Prop where
  refines : Refines run.store final
  grows : dict.Extends run.dict
  named : AllNamed run.dict final
  closed : facts run.dict final = closed
  kept : triples ⊆ final
  nodup : run.added.Nodup
  added : ∀ id, id ∈ run.added ↔ id ∈ final ∧ id ∉ triples
  rules : rules'.map Rule.reset = rules.map Rule.reset
  effects : effects rules' = run.added.length

section Fixpoint

variable {rules : List Rule} {dict larger : Dictionary} {store : TripleStore}
  {triples : Finset IdTriple}

theorem effects_reset (rules : List Rule) : effects (rules.map Rule.reset) = 0 := by
  induction rules with
  | nil => rfl
  | cons rule rest induction =>
    simp only [effects, List.map_cons, List.sum_cons] at induction ⊢
    rw [induction]
    rfl

theorem map_reset_reset (rules : List Rule) :
    (rules.map Rule.reset).map Rule.reset = rules.map Rule.reset := by
  rw [List.map_map]
  rfl

/-- `RuleSet::apply` ends, whatever the order of the rules, with the least facts that hold the
stored ones and are closed under the enabled rules. It lists each added triple once, the effect
counts sum to their number, and a second run adds nothing. -/
theorem applyRuleSet_least (valid : dict.Valid) (unreserved : Unreserved dict)
    (refines : Refines store triples) (named : AllNamed dict triples)
    (room : Room rules dict (facts dict triples) larger) :
    ∃ closed enough, IsLeast (ClosedOver (derives rules) (facts dict triples)) closed ∧
      ∀ order : List Rule, order.Perm rules → ∀ fuel, enough ≤ fuel →
        ∃ rules' run final, applyRuleSet fuel order dict store = some (rules', run) ∧
          Fixpoint order dict triples closed rules' run final ∧
          ∀ again, 0 < again → ∃ rules'' last,
            applyRuleSet again rules' run.dict run.store = some (rules'', last) ∧
              last.added = [] ∧ Refines last.store final := by
  have least : IsLeast (ClosedOver (derives rules) (facts dict triples))
      (chained (derives rules) (facts dict triples)) := isLeast_chained (monotone_derives rules)
  have finite := facts_finite dict triples
  refine ⟨chained (derives rules) (facts dict triples),
    (chained (derives rules) (facts dict triples) \ facts dict triples).ncard + 1, least, ?_⟩
  intro order perm fuel enough
  have start : Holds { dict, store, added := [] } triples larger :=
    ⟨valid, unreserved, room.within, refines, named⟩
  have congr : derives (order.map Rule.reset) = derives rules := by
    apply derives_congr
    intro rule
    rw [map_reset_reset]
    exact (perm.map Rule.reset).mem_iff
  obtain ⟨rules', run, final, more, ran, held, added, closed, same, sum⟩ :=
    applyLoop_spec room finite fuel congr start subset_rfl least.1.1 enough
  have listed : run.added = more := added.added
  refine ⟨rules', run, final, ran, ?_, ?_⟩
  · refine ⟨held.refines, added.grows, held.named, closed, added.subset, listed ▸ added.nodup, ?_,
      same.trans (map_reset_reset order), ?_⟩
    · intro id
      rw [listed, added.mem_iff]
      constructor
      · exact fun member => ⟨.inr member, added.fresh id member⟩
      · rintro ⟨before | new, absent⟩
        · exact absurd before absent
        · exact new
    · rw [sum, effects_reset, listed, Nat.zero_add]
  · intro again positive
    have congrAgain : derives (rules'.map Rule.reset) = derives rules := by
      apply derives_congr
      intro rule
      rw [map_reset_reset, same, map_reset_reset]
      exact (perm.map Rule.reset).mem_iff
    have restart : Holds { dict := run.dict, store := run.store, added := [] } final larger :=
      ⟨held.valid, held.unreserved, held.within, held.refines, held.named⟩
    have complete : (chained (derives rules) (facts dict triples) \
        facts run.dict final).ncard < again := by
      rw [closed, Set.sdiff_self, Set.ncard_empty]
      exact positive
    have above : facts dict triples ⊆ facts run.dict final := closed ▸ least.1.1
    obtain ⟨rules'', last, finalLast, extra, ranAgain, heldLast, addedLast, closedLast, -, -⟩ :=
      applyLoop_spec room finite again congrAgain restart above closed.subset complete
    have nothing : extra = [] := by
      by_contra some
      obtain ⟨fact, isFact, fresh⟩ := addedLast.exists_new restart heldLast some
      rw [closedLast, ← closed] at isFact
      exact fresh isFact
    have unchanged : finalLast = final := by
      ext id
      rw [addedLast.mem_iff, nothing]
      simp
    refine ⟨rules'', last, ranAgain, ?_, unchanged ▸ heldLast.refines⟩
    rw [addedLast.added, nothing]
    rfl

/-- `?x p ?y => ?y p ?x`. -/
def symmetric : Rule where
  name := ['s']
  body := [⟨.var ['x'], .const (.iri ['p']), .var ['y']⟩]
  head := ⟨.var ['y'], .const (.iri ['p']), .var ['x']⟩
  enabled := true
  effectCount := 0

/-- The facts that `p` may relate `a` and `b` by. -/
def related : Set Statement :=
  {fact | (fact.sub = (false, ['<', 'a', '>']) ∨ fact.sub = (false, ['<', 'b', '>'])) ∧
    fact.pred = ['<', 'p', '>'] ∧
    (fact.obj = (false, ['<', 'a', '>']) ∨ fact.obj = (false, ['<', 'b', '>']))}

theorem symmetric_related {fact : Statement} (derived : derives [symmetric] related fact) :
    fact ∈ related := by
  obtain ⟨rule, member, -, triple, ⟨valuation, body, -, head⟩, rfl⟩ := derived
  obtain rfl := List.mem_singleton.mp member
  obtain ⟨fact, ⟨sub, -, obj⟩, fits⟩ := body _ List.mem_cons_self
  have read : ∀ {name text : Text} {term : Term}, valuation name = some text →
      (text = ['<', 'a', '>'] ∨ text = ['<', 'b', '>']) →
      (RuleTerm.var name).resolve valuation = some term → term.isLiteral = false ∧
        (term.dictKey = ['<', 'a', '>'] ∨ term.dictKey = ['<', 'b', '>']) := by
    intro name text term known ends resolved
    rw [RuleTerm.resolve, known] at resolved
    rcases ends with rfl | rfl
    · cases resolved
      exact ⟨rfl, .inl rfl⟩
    · cases resolved
      exact ⟨rfl, .inr rfl⟩
  have subject := read fits.object (obj.imp (congrArg Prod.snd) (congrArg Prod.snd)) head.subject
  have object := read fits.subject (sub.imp (congrArg Prod.snd) (congrArg Prod.snd)) head.object
  have predicate : Term.iri ['p'] = triple.predicate := Option.some.inj head.predicate
  refine ⟨?_, ?_, ?_⟩
  · simpa [Statement.ofTriple] using subject.2
  · rw [Statement.ofTriple, ← predicate]
    rfl
  · simpa [Statement.ofTriple, object.1] using object.2

/-- The dictionary of `<a> <p> <b>`. -/
def relatedDict : Dictionary where
  entities :=
    { forward := [(['<', 'b', '>'], 1), (['<', 'a', '>'], 0)]
      backward := [some ['<', 'a', '>'], some ['<', 'b', '>']], free := [] }
  literals := .empty
  predicates := { forward := [(['<', 'p', '>'], 0)], backward := [some ['<', 'p', '>']], free := [] }

theorem applyRuleSet_least_symmetric : ∃ closed enough,
    IsLeast (ClosedOver (derives [symmetric]) (facts relatedDict ({⟨0, 0, 1⟩} ∪ ∅))) closed ∧
      ∀ order : List Rule, order.Perm [symmetric] → ∀ fuel, enough ≤ fuel →
        ∃ rules' run final,
          applyRuleSet fuel order relatedDict (TripleStore.new.insert ⟨0, 0, 1⟩).1 =
              some (rules', run) ∧
            Fixpoint order relatedDict ({⟨0, 0, 1⟩} ∪ ∅) closed rules' run final ∧
            ∀ again, 0 < again → ∃ rules'' last,
              applyRuleSet again rules' run.dict run.store = some (rules'', last) ∧
                last.added = [] ∧ Refines last.store final := by
  have encoded : Dictionary.empty.encodeTriple ⟨.iri ['a'], .iri ['p'], .iri ['b']⟩ =
      some (relatedDict, ⟨0, 0, 1⟩) := by
    decide
  obtain ⟨valid, -, known⟩ := Dictionary.encodeTriple_spec Dictionary.valid_empty encoded
  have unreserved : Unreserved relatedDict := by
    rw [Unreserved]
    decide
  have stated := (factOf_lookup valid unreserved).mp known
  have only : facts relatedDict ({⟨0, 0, 1⟩} ∪ ∅) ⊆ related := by
    rintro fact ⟨id, member, isFact⟩
    obtain rfl : id = ⟨0, 0, 1⟩ := by simpa using member
    obtain rfl := Option.some.inj (stated.symm.trans isFact)
    exact ⟨.inl rfl, rfl, .inr rfl⟩
  have within : chained (derives [symmetric]) (facts relatedDict ({⟨0, 0, 1⟩} ∪ ∅)) ⊆ related :=
    chained_subset ⟨only, fun fact derived => symmetric_related derived⟩
  apply applyRuleSet_least valid unreserved (refines_new.insert ⟨0, 0, 1⟩).1
  · intro id member
    obtain rfl : id = ⟨0, 0, 1⟩ := by simpa using member
    exact ⟨_, stated⟩
  · refine ⟨valid, unreserved, (Dictionary.Extends.refl _).within, ?_⟩
    intro triple derived
    have isRelated := symmetric_related (monotone_derives _ within _ derived)
    simp only [factOf_lookup valid unreserved, factOf_eq_some_iff]
    obtain ⟨sub | sub, pred, obj | obj⟩ := isRelated
    · rw [sub, pred, obj]
      exact ⟨⟨0, 0, 0⟩, by decide⟩
    · rw [sub, pred, obj]
      exact ⟨⟨0, 0, 1⟩, by decide⟩
    · rw [sub, pred, obj]
      exact ⟨⟨1, 0, 0⟩, by decide⟩
    · rw [sub, pred, obj]
      exact ⟨⟨1, 0, 1⟩, by decide⟩

end Fixpoint

end GStore.Reason
