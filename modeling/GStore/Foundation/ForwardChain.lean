import Mathlib.Data.Finset.Card
import Mathlib.Data.Finset.Dedup
import Mathlib.Order.Bounds.Basic

/-! # Forward chaining

Rules derive facts from a set of known ones. A store of facts is closed under
them by rounds: each round lists what the rules derive from the store and
inserts it, until a round brings nothing new. -/

namespace GStore

universe u v

variable {α : Type u} {σ : Type v}

/-- The sets that hold the base and everything that is derived from themselves. -/
def ClosedOver (derives : Set α → α → Prop) (base : Set α) : Set (Set α) :=
  {known | base ⊆ known ∧ ∀ fact, derives known fact → fact ∈ known}

/-- More known facts derive no fewer. -/
def MonotoneRules (derives : Set α → α → Prop) : Prop :=
  ∀ ⦃known more : Set α⦄, known ⊆ more → ∀ fact, derives known fact → derives more fact

/-- What the rules derive from the base in any number of steps. -/
def chained (derives : Set α → α → Prop) (base : Set α) : Set α :=
  {fact | ∀ known ∈ ClosedOver derives base, fact ∈ known}

section Chained

variable {derives : Set α → α → Prop} {base : Set α}

theorem chained_subset {known : Set α} (closed : known ∈ ClosedOver derives base) :
    chained derives base ⊆ known := fun _ fact => fact known closed

theorem isLeast_chained (monotone : MonotoneRules derives) :
    IsLeast (ClosedOver derives base) (chained derives base) := by
  refine ⟨⟨?_, ?_⟩, fun known closed => chained_subset closed⟩
  · exact fun fact member known closed => closed.1 member
  · intro fact derived known closed
    exact closed.2 fact (monotone (chained_subset closed) fact derived)

end Chained

/-! ## Rounds -/

/-- Insert the facts in order, and list those that were new. -/
def insertAll (insert : σ → α → σ × Bool) : σ → List α → σ × List α
  | store, [] => (store, [])
  | store, fact :: rest =>
    let inserted := insert store fact
    let further := insertAll insert inserted.1 rest
    (further.1, if inserted.2 then fact :: further.2 else further.2)

/-- Rounds until one adds nothing, with fuel for the rounds, and all that was
added. -/
def saturate (insert : σ → α → σ × Bool) (round : σ → List α) : Nat → σ → σ × List α
  | 0, store => (store, [])
  | fuel + 1, store =>
    let added := insertAll insert store (round store)
    if added.2 = [] then (added.1, [])
    else
      let further := saturate insert round fuel added.1
      (further.1, added.2 ++ further.2)

section Rounds

variable [DecidableEq α] {insert : σ → α → σ × Bool} {holds : σ → Finset α → Prop}

/-- The store keeps a set of facts, and tells whether a fact was new. -/
def InsertsInto (insert : σ → α → σ × Bool) (holds : σ → Finset α → Prop) : Prop :=
  ∀ (store : σ) (known : Finset α) (fact : α), holds store known →
    holds (insert store fact).1 ({fact} ∪ known) ∧
      ((insert store fact).2 = true ↔ fact ∉ known)

theorem insertAll_spec (inserts : InsertsInto insert holds) (facts : List α) :
    ∀ {store : σ} {known : Finset α}, holds store known →
      holds (insertAll insert store facts).1 (known ∪ facts.toFinset) ∧
        (insertAll insert store facts).2.Nodup ∧
        ∀ fact, fact ∈ (insertAll insert store facts).2 ↔ fact ∈ facts ∧ fact ∉ known := by
  induction facts with
  | nil =>
    intro store known held
    simpa [insertAll] using held
  | cons first rest induction =>
    intro store known held
    rcases inserts store known first held with ⟨grown, isNew⟩
    rcases induction grown with ⟨later, nodup, listed⟩
    refine ⟨?_, ?_, ?_⟩
    · have same : ({first} ∪ known) ∪ rest.toFinset = known ∪ (first :: rest).toFinset := by
        ext fact
        simp only [Finset.mem_union, Finset.mem_singleton, List.mem_toFinset, List.mem_cons]
        tauto
      rw [← same]
      exact later
    · rw [insertAll]
      split
      · rw [List.nodup_cons]
        refine ⟨?_, nodup⟩
        rw [listed]
        simp
      · exact nodup
    · intro fact
      rw [insertAll]
      by_cases fresh : first ∈ known
      · have flag : (insert store first).2 = false := by
          rw [← Bool.not_eq_true, isNew]
          exact not_not.mpr fresh
        simp only [flag, Bool.false_eq_true, if_false, listed, Finset.mem_union,
          Finset.mem_singleton, List.mem_cons]
        by_cases same : fact = first
        · subst same
          simp [fresh]
        · simp [same]
      · simp only [isNew.mpr fresh, if_true, List.mem_cons, listed, Finset.mem_union,
          Finset.mem_singleton]
        by_cases same : fact = first
        · subst same
          simp [fresh]
        · simp [same]

variable {round : σ → List α} {derives : Set α → α → Prop}

/-- Enough rounds close the store, whatever the order of the derivations. -/
theorem saturate_spec (inserts : InsertsInto insert holds)
    (lists : ∀ {store known}, holds store known →
      ∀ fact, fact ∈ round store ↔ derives (known : Set α) fact)
    (monotone : MonotoneRules derives) {limit : Nat} (bounded : ∀ facts : Finset α, facts.card ≤ limit)
    (fuel : Nat) : ∀ {store : σ} {known : Finset α}, holds store known → limit < known.card + fuel →
      ∃ closed : Finset α, holds (saturate insert round fuel store).1 closed ∧
        (closed : Set α) = chained derives known ∧
        (saturate insert round fuel store).2.Nodup ∧
        ∀ fact, fact ∈ (saturate insert round fuel store).2 ↔ fact ∈ closed ∧ fact ∉ known := by
  induction fuel with
  | zero =>
    intro store known _ enough
    have most := bounded known
    omega
  | succ fuel induction =>
    intro store known held enough
    rcases insertAll_spec inserts (round store) held with ⟨grown, nodup, listed⟩
    rw [saturate]
    by_cases quiet : (insertAll insert store (round store)).2 = []
    · have closed : ∀ fact, derives (known : Set α) fact → fact ∈ known := by
        intro fact derived
        by_contra absent
        have added := (listed fact).mpr ⟨(lists held fact).mpr derived, absent⟩
        rw [quiet] at added
        cases added
      have kept : known ∪ (round store).toFinset = known := by
        rw [Finset.union_eq_left]
        intro fact member
        exact closed fact ((lists held fact).mp (List.mem_toFinset.mp member))
      rw [kept] at grown
      simp only [quiet, if_true]
      refine ⟨known, grown, ?_, List.nodup_nil, by simp⟩
      apply Set.Subset.antisymm
      · exact (isLeast_chained monotone).1.1
      · exact chained_subset ⟨subset_rfl, closed⟩
    · simp only [quiet, if_false]
      have more : known.card < (known ∪ (round store).toFinset).card := by
        apply Finset.card_lt_card
        rcases List.exists_mem_of_ne_nil _ quiet with ⟨fact, added⟩
        rw [listed] at added
        rw [Finset.ssubset_iff_of_subset Finset.subset_union_left]
        exact ⟨fact, by simp [added.1], added.2⟩
      rcases induction grown (by omega) with ⟨closed, final, least, laterNodup, laterListed⟩
      have between : (known ∪ (round store).toFinset : Set α) ⊆ chained derives known := by
        apply Set.union_subset (isLeast_chained monotone).1.1
        intro fact member
        have derived := (lists held fact).mp (List.mem_toFinset.mp (Finset.mem_coe.mp member))
        exact (isLeast_chained monotone).1.2 fact
          (monotone (isLeast_chained monotone).1.1 fact derived)
      have same : chained derives (known ∪ (round store).toFinset : Set α) =
          chained derives known := by
        apply Set.Subset.antisymm
        · exact chained_subset ⟨between, (isLeast_chained monotone).1.2⟩
        · apply chained_subset
          exact ⟨Set.subset_union_left.trans (isLeast_chained monotone).1.1,
            (isLeast_chained monotone).1.2⟩
      have covers : known ∪ (round store).toFinset ⊆ closed := by
        rw [← Finset.coe_subset, least, Finset.coe_union]
        exact (isLeast_chained monotone).1.1
      refine ⟨closed, final, ?_, ?_, ?_⟩
      · rw [least, Finset.coe_union, same]
      · rw [List.nodup_append]
        refine ⟨nodup, laterNodup, ?_⟩
        rintro fact early other late rfl
        rw [laterListed] at late
        rw [listed] at early
        exact late.2 (by simp [early.1])
      · intro fact
        rw [List.mem_append, listed, laterListed]
        constructor
        · rintro (early | late)
          · exact ⟨covers (by simp [early.1]), early.2⟩
          · exact ⟨late.1, fun member => late.2 (by simp [member])⟩
        · rintro ⟨member, absent⟩
          by_cases early : fact ∈ round store
          · exact .inl ⟨early, absent⟩
          · exact .inr ⟨member, by simp [absent, early]⟩

end Rounds

end GStore
