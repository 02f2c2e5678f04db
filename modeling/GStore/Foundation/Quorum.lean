import Mathlib.Data.Finset.Card
import Mathlib.Logic.Relation

/-! # Majorities and ghost invariants -/

namespace GStore

/-- Two majorities of one finite set share a member. -/
theorem exists_mem_of_majorities {α : Type*} [DecidableEq α] {members left right : Finset α}
    (leftSubset : left ⊆ members) (rightSubset : right ⊆ members)
    (leftMajority : members.card / 2 + 1 ≤ left.card)
    (rightMajority : members.card / 2 + 1 ≤ right.card) :
    ∃ member, member ∈ left ∧ member ∈ right := by
  by_contra none
  push Not at none
  have disjoint : Disjoint left right := Finset.disjoint_left.mpr none
  have bound := Finset.card_le_card (Finset.union_subset leftSubset rightSubset)
  rw [Finset.card_union_of_disjoint disjoint] at bound
  omega

/-- An invariant over a state and a growing history variable holds along every
run: if each step can be matched by a step of the history, then each state of
the run has a history that extends the one it started from. -/
theorem exists_history_of_run {State History : Type*} [Preorder History]
    {Step : State → State → Prop} (holds : State → History → Prop)
    (preserved : ∀ before after history, Step before after → holds before history →
      ∃ next, history ≤ next ∧ holds after next)
    {start finish : State} (run : Relation.ReflTransGen Step start finish)
    {history : History} (initially : holds start history) :
    ∃ next, history ≤ next ∧ holds finish next := by
  induction run with
  | refl => exact ⟨history, le_refl history, initially⟩
  | tail _ step induction =>
    rcases induction with ⟨middle, grown, holdsMiddle⟩
    rcases preserved _ _ middle step holdsMiddle with ⟨next, grows, holdsNext⟩
    exact ⟨next, le_trans grown grows, holdsNext⟩

end GStore
