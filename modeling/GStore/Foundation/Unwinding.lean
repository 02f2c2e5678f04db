import GStore.Foundation.Trace

/-! # Unwinding

When the events of one party leave a relation between two runs, and all other events keep it,
the run without that party's actions reaches a related state. -/

namespace GStore

universe u v w

variable {State : Type u} {Action : Type v} {Output : Type w}
  {step : State → Action → Option (Output × State)} {start state : State}
  {events : List (Event State Action Output)}

/-- The actions that are not those of the party. -/
def purge (mine : Event State Action Output → Bool) (events : List (Event State Action Output)) :
    List Action :=
  (events.filter fun event => !mine event).map Event.action

theorem purge_append (mine : Event State Action Output → Bool)
    (first second : List (Event State Action Output)) :
    purge mine (first ++ second) = purge mine first ++ purge mine second := by
  rw [purge, List.filter_append, List.map_append]
  rfl

/-- Every purged run is a run, and ends in a related state. -/
theorem Execution.purged (run : Execution step start events state)
    (mine : Event State Action Output → Bool) (alike : State → State → Prop)
    (begins : alike start start)
    (respects : ∀ event ∈ events, mine event = true →
      step event.before event.action = some (event.output, event.after) →
      ∀ other, alike event.before other → alike event.after other)
    (consistent : ∀ event ∈ events, mine event = false →
      step event.before event.action = some (event.output, event.after) →
      ∀ other, alike event.before other → ∃ output next,
        step other event.action = some (output, next) ∧ alike event.after next) :
    ∃ others last, Execution step start others last ∧
      others.map Event.action = purge mine events ∧ alike state last := by
  induction run with
  | nil => exact ⟨[], start, .nil, rfl, begins⟩
  | @snoc events state next action output earlier taken induction =>
    rcases induction (fun event member => respects event (List.mem_append_left _ member))
      (fun event member => consistent event (List.mem_append_left _ member))
      with ⟨others, last, purgedRun, actions, related⟩
    have here := List.mem_append_right events
      (List.mem_singleton_self ({ before := state, action, output, after := next } :
        Event State Action Output))
    cases owner : mine { before := state, action, output, after := next } with
    | true =>
      refine ⟨others, last, purgedRun, ?_, respects _ here owner taken last related⟩
      rw [purge_append, actions]
      simp [purge, owner]
    | false =>
      rcases consistent _ here owner taken last related with ⟨answer, after, answered, kept⟩
      refine ⟨_, after, purgedRun.snoc answered, ?_, kept⟩
      rw [purge_append, List.map_append, actions]
      simp [purge, owner]

end GStore
