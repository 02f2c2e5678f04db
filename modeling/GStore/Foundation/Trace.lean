import Mathlib.Data.List.Basic
import Mathlib.Data.List.Forall2

/-! # Runs of a partial machine

A machine takes a state and an action to an output and a next state, or refuses.
The trace of a list of actions records every transition up to the first refusal. -/

namespace GStore

universe u v w

/-- One transition of a run. -/
structure Event (State : Type u) (Action : Type v) (Output : Type w) where
  before : State
  action : Action
  output : Output
  after : State

section Machine

variable {State : Type u} {Action : Type v} {Output : Type w}
  (step : State → Action → Option (Output × State)) {event : Event State Action Output}

def trace (state : State) : List Action → List (Event State Action Output)
  | [] => []
  | action :: rest =>
    match step state action with
    | some (output, next) =>
      { before := state, action, output, after := next } :: trace next rest
    | none => []

/-- The state a list of actions leads to. -/
def lastState (state : State) : List Action → State
  | [] => state
  | action :: rest =>
    match step state action with
    | some (_, next) => lastState next rest
    | none => state

/-- The events of a run, in order, and the state it ends in. -/
inductive Execution (start : State) : List (Event State Action Output) → State → Prop
  | nil : Execution start [] start
  | snoc {events : List (Event State Action Output)} {state next : State} {action : Action}
      {output : Output} : Execution start events state →
      step state action = some (output, next) →
      Execution start (events ++ [{ before := state, action, output, after := next }]) next

theorem action_mem_of_mem_trace {step : State → Action → Option (Output × State)} {state : State}
    {actions : List Action} (member : event ∈ trace step state actions) :
    event.action ∈ actions := by
  induction actions generalizing state with
  | nil => simp [trace] at member
  | cons action rest induction =>
    rw [trace] at member
    split at member
    · rcases List.mem_cons.mp member with rfl | later
      · exact List.mem_cons_self
      · exact List.mem_cons_of_mem _ (induction later)
    · simp at member

variable {step} {start state : State} {events : List (Event State Action Output)}

theorem Execution.append_trace (run : Execution step start events state) (actions : List Action) :
    Execution step start (events ++ trace step state actions) (lastState step state actions) := by
  induction actions generalizing events state with
  | nil => simpa [trace, lastState] using run
  | cons action rest induction =>
    cases taken : step state action with
    | none => simpa [trace, lastState, taken] using run
    | some result =>
      have extended := induction (run.snoc taken)
      simpa [trace, lastState, taken] using extended

/-- The trace of a list of actions is a run. -/
theorem execution_trace (start : State) (actions : List Action) :
    Execution step start (trace step start actions) (lastState step start actions) := by
  simpa using Execution.nil.append_trace actions

/-- The actions of a run lead to its end. -/
theorem Execution.lastState_eq (run : Execution step start events state) (later : List Action) :
    lastState step start (events.map Event.action ++ later) = lastState step state later := by
  induction run generalizing later with
  | nil => rfl
  | snoc earlier taken induction =>
    rw [List.map_append, List.append_assoc, induction]
    simp [lastState, taken]

/-- A relation between earlier and later events of a run, by looking at each new
event beside those before it. -/
theorem Execution.pairwise (run : Execution step start events state)
    {relation : Event State Action Output → Event State Action Output → Prop}
    (next : ∀ past state action output after, Execution step start past state →
      step state action = some (output, after) → ∀ event ∈ past,
        relation event { before := state, action, output, after }) :
    events.Pairwise relation := by
  induction run with
  | nil => exact .nil
  | snoc earlier taken induction =>
    rw [List.pairwise_append]
    refine ⟨induction, List.pairwise_singleton _ _, ?_⟩
    intro event member last isLast
    cases List.mem_singleton.mp isLast
    exact next _ _ _ _ _ earlier taken event member

/-- Each event is a step from the end of a run. -/
theorem Execution.of_mem (run : Execution step start events state) (member : event ∈ events) :
    (∃ past, Execution step start past event.before) ∧
      step event.before event.action = some (event.output, event.after) := by
  induction run with
  | nil => simp at member
  | snoc earlier taken induction =>
    rcases List.mem_append.mp member with old | new
    · exact induction old
    · cases List.mem_singleton.mp new
      exact ⟨⟨_, earlier⟩, taken⟩

/-- What every event of a run keeps holds at its end. -/
theorem Execution.keeps (run : Execution step start events state) (kept : State → Prop)
    (begins : kept start)
    (next : ∀ event ∈ events, step event.before event.action = some (event.output, event.after) →
      kept event.before → kept event.after) : kept state := by
  induction run with
  | nil => exact begins
  | snoc earlier taken induction =>
    have before := induction fun event member => next event (List.mem_append_left _ member)
    exact next _ (List.mem_append_right _ (List.mem_singleton_self _)) taken before

/-- A run goes through the state that any part of its events leads to. -/
theorem Execution.split (run : Execution step start events state)
    {past later : List (Event State Action Output)} (parts : events = past ++ later) :
    ∃ middle, Execution step start past middle ∧ Execution step middle later state := by
  induction run generalizing later with
  | nil =>
    rcases List.append_eq_nil_iff.mp parts.symm with ⟨noPast, noLater⟩
    rw [noPast, noLater]
    exact ⟨start, .nil, .nil⟩
  | @snoc events state next action output earlier taken induction =>
    rcases List.eq_nil_or_concat later with empty | ⟨front, last, ends⟩
    · rw [empty, List.append_nil] at parts
      rw [empty, ← parts]
      exact ⟨next, earlier.snoc taken, .nil⟩
    · rw [ends, List.concat_eq_append, ← List.append_assoc] at parts
      rcases List.append_inj' parts rfl with ⟨front, same⟩
      cases List.singleton_inj.mp same
      rcases induction front with ⟨middle, first, second⟩
      rw [ends, List.concat_eq_append]
      exact ⟨middle, first, second.snoc taken⟩

theorem Execution.of_nil (run : Execution step start events state) (empty : events = []) :
    state = start := by
  cases run with
  | nil => rfl
  | snoc earlier taken => simp at empty

theorem Execution.of_singleton (run : Execution step start events state) (single : events = [event]) :
    start = event.before ∧ step event.before event.action = some (event.output, event.after) ∧
      event.after = state := by
  cases run with
  | nil => simp at single
  | snoc earlier taken =>
    rcases List.append_inj' (single.trans (List.nil_append [event]).symm) rfl with ⟨empty, last⟩
    cases List.singleton_inj.mp last
    exact ⟨(earlier.of_nil empty).symm, taken, rfl⟩

/-- The run up to an event, the event, and the run after it. -/
theorem Execution.around (run : Execution step start events state)
    {past later : List (Event State Action Output)} (parts : events = past ++ event :: later) :
    Execution step start past event.before ∧
      step event.before event.action = some (event.output, event.after) ∧
      Execution step event.after later state := by
  rcases run.split parts with ⟨middle, before, rest⟩
  have front : event :: later = [event] ++ later := rfl
  rcases rest.split front with ⟨next, one, after⟩
  rcases one.of_singleton rfl with ⟨begins, taken, ends⟩
  rw [begins] at before
  rw [← ends] at after
  exact ⟨before, taken, after⟩

end Machine

section Simulation

variable {State : Type u} {Abstract : Type u} {Action : Type v} {Output : Type w}
  {step : State → Action → Option (Output × State)}
  {abstractStep : Abstract → Action → Option (Output × Abstract)}
  {related : State → Abstract → Prop} {events : List (Event State Action Output)}

/-- Two transitions on the same action with the same output, between related
states. -/
structure Event.Matches (related : State → Abstract → Prop) (event : Event State Action Output)
    (other : Event Abstract Action Output) : Prop where
  action : event.action = other.action
  output : event.output = other.output
  before : related event.before other.before
  after : related event.after other.after

/-- Machines that refuse together and answer alike have matching traces. -/
theorem trace_matches {actions : List Action}
    (simulates : ∀ action ∈ actions, ∀ state abstract, related state abstract →
      Option.Rel (fun left right => left.1 = right.1 ∧ related left.2 right.2)
        (step state action) (abstractStep abstract action))
    {state : State} {abstract : Abstract} (start : related state abstract) :
    List.Forall₂ (Event.Matches related) (trace step state actions)
      (trace abstractStep abstract actions) := by
  induction actions generalizing state abstract with
  | nil => exact .nil
  | cons action rest induction =>
    have next := simulates action List.mem_cons_self state abstract start
    unfold trace
    cases taken : step state action with
    | none =>
      cases abstractTaken : abstractStep abstract action with
      | none => exact .nil
      | some result => simp [taken, abstractTaken] at next
    | some result =>
      cases abstractTaken : abstractStep abstract action with
      | none => simp [taken, abstractTaken] at next
      | some abstractResult =>
        rw [taken, abstractTaken, Option.rel_some_some] at next
        exact .cons ⟨rfl, next.1, start, next.2⟩ (induction
          (fun other member => simulates other (List.mem_cons_of_mem _ member)) next.2)

theorem mem_of_matches {others : List (Event Abstract Action Output)}
    (alike : List.Forall₂ (Event.Matches related) events others) :
    ∀ event ∈ events, ∃ other ∈ others, Event.Matches related event other := by
  induction alike with
  | nil => simp
  | cons head tail induction =>
    intro event member
    rcases List.mem_cons.mp member with rfl | later
    · exact ⟨_, List.mem_cons_self, head⟩
    · rcases induction event later with ⟨other, found, same⟩
      exact ⟨other, List.mem_cons_of_mem _ found, same⟩

/-- The step that answers a step of the simulating machine. -/
theorem step_of_rel {state next : State} {abstract : Abstract} {action : Action} {output : Output}
    (alike : Option.Rel (fun left right => left.1 = right.1 ∧ related left.2 right.2)
      (step state action) (abstractStep abstract action))
    (taken : step state action = some (output, next)) :
    ∃ abstractNext, abstractStep abstract action = some (output, abstractNext) ∧
      related next abstractNext := by
  rw [taken] at alike
  cases answered : abstractStep abstract action with
  | none => simp [answered] at alike
  | some result =>
    rw [answered, Option.rel_some_some] at alike
    exact ⟨result.2, by rw [show output = result.1 from alike.1], alike.2⟩

/-- A run of the simulating machine is matched by a run of the other one. -/
theorem Execution.simulated {start : State} {abstractStart : Abstract} {state : State}
    (run : Execution step start events state)
    (simulates : ∀ state abstract action, related state abstract →
      Option.Rel (fun left right => left.1 = right.1 ∧ related left.2 right.2)
        (step state action) (abstractStep abstract action)) (begins : related start abstractStart) :
    ∃ abstractEvents abstract, Execution abstractStep abstractStart abstractEvents abstract ∧
      List.Forall₂ (Event.Matches related) events abstractEvents ∧ related state abstract := by
  induction run with
  | nil => exact ⟨[], abstractStart, .nil, .nil, begins⟩
  | @snoc events state next action output earlier taken induction =>
    rcases induction with ⟨abstractEvents, abstract, abstractRun, alike, related⟩
    rcases step_of_rel (simulates state abstract action related) taken
      with ⟨abstractNext, answered, nextRelated⟩
    exact ⟨_, abstractNext, abstractRun.snoc answered,
      List.rel_append alike (.cons ⟨rfl, rfl, related, nextRelated⟩ .nil), nextRelated⟩

theorem outputs_eq_of_matches {others : List (Event Abstract Action Output)}
    (alike : List.Forall₂ (Event.Matches related) events others) :
    events.map Event.output = others.map Event.output := by
  induction alike with
  | nil => rfl
  | cons head tail induction => rw [List.map_cons, List.map_cons, head.output, induction]

end Simulation

end GStore
