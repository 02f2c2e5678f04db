import GStore.Db.Dataset

/-! # What reasoners change

RDFS and user-defined rules alike grow the dictionary and insert triples that
were not there; they return the list of what they inserted. -/

namespace GStore.Db

open Dict Reason Store

/-- A store and what a reasoner made of it. -/
structure Inferred (dict : Dictionary) (store : TripleStore) (grown : Dictionary)
    (closed : TripleStore) (added : List IdTriple) : Prop where
  valid : grown.Valid
  grows : dict.Extends grown
  indexed : Indexed closed
  holds : stored closed = stored store ∪ {triple | triple ∈ added}
  fresh : ∀ triple ∈ added, triple ∉ stored store
  live : (∀ triple ∈ stored store, dict.Live triple) → ∀ triple ∈ added, grown.Live triple

section Rdfs

variable {dict grown : Dictionary} {voc : Vocabulary}

theorem livePred_of_predicateId (valid : grown.Valid) {text : Text} {pred : UInt32}
    (known : grown.predicateId text = some pred) : (grown.predicates.resolve pred).isSome := by
  rw [(valid.predicates.get_iff text pred).mp known, Option.isSome_some]

/-- The rules put ids together that were in use before, or that are of the
vocabulary. -/
theorem live_chained (prepared : Prepared dict grown voc) (base : Set IdTriple)
    (live : ∀ triple ∈ base, grown.Live triple) :
    ∀ triple ∈ chained (Entails grown voc) base, grown.Live triple := by
  have covers : chained (Entails grown voc) base ⊆ {triple | grown.Live triple} := by
    apply chained_subset
    constructor
    · exact live
    · intro triple derived
      cases derived with
      | subClass _ first second _ => exact ⟨first.sub, first.pred, second.obj⟩
      | types _ _ first second => exact ⟨first.sub, first.pred, second.obj⟩
      | subProperty _ first second _ => exact ⟨first.sub, first.pred, second.obj⟩
      | properties _ _ above _ second _ =>
        rcases entToPred_eq_some.mp above with ⟨text, -, found⟩
        exact ⟨second.sub, livePred_of_predicateId prepared.valid found, second.obj⟩
      | domain _ typed _ first second =>
        have type_ := livePred_of_predicateId prepared.valid (prepared.typeP _ typed)
        exact ⟨second.sub, type_, first.obj⟩
      | range _ typed _ first second =>
        have type_ := livePred_of_predicateId prepared.valid (prepared.typeP _ typed)
        exact ⟨second.obj, type_, first.obj⟩
  exact fun triple member => covers member

theorem inferred_materialize {store closed : TripleStore} {added : List IdTriple}
    (valid : dict.Valid) (indexed : Indexed store)
    (ran : materialize dict store = some (grown, closed, added)) :
    Inferred dict store grown closed added := by
  rcases indexed with ⟨triples, refines⟩
  have ready := ran
  rw [materialize_eq, Option.map_eq_some_iff] at ready
  rcases ready with ⟨⟨used, voc⟩, ready, same⟩
  have named : grown = used := (Prod.mk.inj same).1.symm
  subst named
  have prepared := prepare_spec valid ready
  rcases materialize_spec refines ready with
    ⟨closed, added, result, again, closedRefines, least, -, listed⟩
  rw [ran] at again
  cases again
  have extensive : (triples : Set IdTriple) ⊆ result := by
    rw [least]
    exact (isLeast_chained (monotone_entails grown voc)).1.1
  constructor
  case valid => exact prepared.valid
  case grows => exact prepared.grows
  case indexed => exact ⟨result, closedRefines⟩
  case holds =>
    rw [stored_eq closedRefines, stored_eq refines]
    ext triple
    simp only [Set.mem_union, Finset.mem_coe, Set.mem_ofPred_eq, listed]
    constructor
    · intro member
      by_cases before : triple ∈ triples
      · exact .inl before
      · exact .inr ⟨member, before⟩
    · rintro (before | ⟨member, -⟩)
      · exact extensive before
      · exact member
  case fresh =>
    intro triple member
    rw [stored_eq refines]
    exact ((listed triple).mp member).2
  case live =>
    intro live triple member
    apply live_chained prepared triples
    · intro old before
      have here := live old (stored_eq refines ▸ before)
      exact (prepared.grows.agrees valid prepared.valid here).live here
    · rw [← least]
      exact ((listed triple).mp member).1

end Rdfs

theorem inferred_applyRuleSet {fuel : Nat} {rules rules' : List Rule} {dict : Dictionary}
    {store : TripleStore} {run : RuleRun} (valid : dict.Valid) (indexed : Indexed store)
    (ran : applyRuleSet fuel rules dict store = some (rules', run)) :
    Inferred dict store run.dict run.store run.added := by
  have kept : KeptByInsert fun run => Inferred dict store run.dict run.store run.added := by
    intro run after triple isNew held _ _ inserted
    rw [RuleRun.insert, Option.map_eq_some_iff] at inserted
    rcases inserted with ⟨⟨grown, id⟩, encoded, result⟩
    cases result
    rcases Dictionary.encodeTriple_spec held.valid encoded with ⟨grownValid, grows, known⟩
    rcases held.indexed.insert id with ⟨still, holds, flag⟩
    have older : ∀ old, run.dict.Live old → grown.Live old := fun old live =>
      (grows.agrees held.valid grownValid live).live live
    refine ⟨grownValid, held.grows.trans grows, still, ?_, ?_, ?_⟩
    · rw [holds, held.holds]
      dsimp only
      split
      · ext other
        simp only [Set.mem_insert_iff, Set.mem_union, Set.mem_ofPred_eq, List.mem_append,
          List.mem_singleton]
        tauto
      · rename_i old
        rw [flag, not_not, held.holds] at old
        exact Set.insert_eq_of_mem old
    · dsimp only
      split
      · rename_i new
        rw [flag, held.holds] at new
        intro other member
        rcases List.mem_append.mp member with before | here
        · exact held.fresh other before
        · rw [List.mem_singleton.mp here]
          exact fun old => new (.inl old)
      · exact held.fresh
    · dsimp only
      intro live other member
      split at member
      · rcases List.mem_append.mp member with before | here
        · exact older other (held.live live other before)
        · rw [List.mem_singleton.mp here]
          exact Dictionary.live_of_lookup grownValid known
      · exact older other (held.live live other member)
  refine applyRuleSet_keeps kept ?_ ran
  exact ⟨valid, .refl _, indexed, by simp, by simp, by simp⟩

end GStore.Db
