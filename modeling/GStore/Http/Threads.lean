import GStore.Http.Transactions

/-! # Transactions over a run

In every run that reloads no database in a transaction the registries stay truthful, and each
open transaction is the one that its `/begin` opened. -/

namespace GStore.Http

open Db Reason

variable {α Read Answer : Type}

/-- Any statement may run on any database. -/
abbrev Unchecked : Session → Text → Prop := fun _ _ => True

section Runs

variable {host : ApiHost α Read Answer} {users : UserStore} {disk : Disk}
  {events : List (Served Answer)} {state : ApiState} {event : Served Answer}
  {Allowed : Session → Text → Prop}

theorem turn_of_careful (truthful : Truthful event.before.registry)
    (ran : step host event.before event.action = some (event.output, event.after))
    (careful : ¬ Reloads host event) : Turn host Unchecked event :=
  turn_of_step truthful ran (fun _ => trivial) careful fun _ _ _ _ _ => trivial

theorem truthful_of_careful (run : Execution (step host) (bind users disk) events state)
    (careful : ∀ event ∈ events, ¬ Reloads host event) : Truthful state.registry := by
  refine run.keeps (fun state => Truthful state.registry) ?_ ?_
  · exact truthful_empty disk
  · intro event member ran truthful
    exact (turn_of_careful truthful ran (careful event member)).truthful truthful

/-- The transaction of an id, from the `/begin` that opened it. -/
structure Thread (host : ApiHost α Read Answer) (tid : Nat) (name : Text) (handle : Handle)
    (opening : Served Answer) (middle : List (Served Answer)) (registry : Registry) : Prop where
  begun : mark host opening = some (.begun tid)
  closed : ∃ session, opening.before.registry.heap[handle]? = some session ∧ session.txn = none ∧
    opening.after.registry.heap[handle]? = some session.begin.2
  tied : ∀ event ∈ middle, Tied tid name handle event.before.registry
  now : Tied tid name handle registry

theorem Effects.txns {io : Io} {registry after : Registry}
    (effects : Effects host io Allowed registry after) : after.txns = registry.txns := by
  induction effects with
  | refl => rfl
  | tail earlier effect induction => cases effect <;> exact induction

/-- An end that is asked for ends the transaction of its id. -/
theorem Turn.of_ended {tid : Nat} {commit : Bool} (turn : Turn host Allowed event)
    (marked : mark host event = some (.ended tid commit)) : ∃ name handle session,
      event.before.registry.txns.lookup tid = some { db := name } ∧
      event.before.registry.database name = some (handle, session) ∧ session.txn.isSome ∧
      event.output = some (txnDone tid commit) ∧
      event.after.registry = Registry.put { event.before.registry with
        txns := assocErase tid event.before.registry.txns
        dbTxn := assocErase name event.before.registry.dbTxn }
        handle (Registry.endTxn commit session).2 := by
  cases turn with
  | calm unmarked effects =>
    rw [unmarked] at marked
    cases marked
  | begun other name handle session opens =>
    rw [opens] at marked
    cases marked
  | stated other name sparql handle session last outcome states =>
    rw [states] at marked
    cases marked
  | ended other commit name handle session ends opened found active answered after =>
    rw [ends] at marked
    cases marked
    exact ⟨name, handle, session, opened, found, active, answered, after⟩

/-- An id that is open after an event was not ended by it. -/
theorem Turn.stays {tid : Nat} {txn : Txn} (turn : Turn host Allowed event)
    (opened : event.after.registry.txns.lookup tid = some txn) (commit : Bool) :
    mark host event ≠ some (.ended tid commit) := by
  intro ends
  rcases turn.of_ended ends with ⟨target, handle, session, -, -, -, -, after⟩
  rw [after] at opened
  change (assocErase tid event.before.registry.txns).lookup tid = _ at opened
  rw [lookup_assocErase, beq_self_eq_true] at opened
  cases opened

/-- A new thread starts where the id is given out. -/
theorem thread_of_begun {tid : Nat} {name : Text} (turn : Turn host Unchecked event)
    (fresh : event.before.registry.txns.lookup tid ≠ some { db := name })
    (opened : event.after.registry.txns.lookup tid = some { db := name }) :
    ∃ handle, Thread host tid name handle event [] event.after.registry := by
  cases turn with
  | calm unmarked effects =>
    rw [effects.txns] at opened
    exact absurd opened fresh
  | begun other target handle session marked unused found free closed after =>
    have read := Registry.database_eq_some.mp found
    rw [after] at opened
    change (assocInsert other { db := target } event.before.registry.txns).lookup tid = _ at opened
    rw [lookup_assocInsert] at opened
    split at opened
    · rename_i same
      cases opened
      cases eq_of_beq same
      have put : (event.before.registry.put handle session.begin.2).heap[handle]? =
          some session.begin.2 := Registry.getElem?_put_self read.2
      refine ⟨handle, marked, ⟨session, read.2, closed, ?_⟩, fun _ member => ?_, ?_, ?_, ?_⟩
      · rw [after]
        exact put
      · cases member
      · rw [after]
        change (assocInsert tid { db := name } event.before.registry.txns).lookup tid = _
        rw [lookup_assocInsert, beq_self_eq_true]
        rfl
      · rw [after]
        exact read.1
      · rw [after]
        exact ⟨session.begin.2, put, by rw [Session.begin, closed]; rfl⟩
    · exact absurd opened fresh
  | stated other target sparql handle session last outcome marked looked found ran answered after =>
    rw [after] at opened
    exact absurd opened fresh
  | ended other commit target handle session marked looked found active answered after =>
    rw [after] at opened
    change (assocErase other event.before.registry.txns).lookup tid = _ at opened
    rw [lookup_assocErase] at opened
    split at opened
    · cases opened
    · exact absurd opened fresh

/-- Every open transaction has been open since its `/begin`. -/
theorem threads (run : Execution (step host) (bind users disk) events state)
    (careful : ∀ event ∈ events, ¬ Reloads host event) {tid : Nat} {name : Text}
    (opened : state.registry.txns.lookup tid = some { db := name }) :
    ∃ earlier opening middle handle, events = earlier ++ opening :: middle ∧
      Thread host tid name handle opening middle state.registry := by
  induction run generalizing tid name with
  | nil => cases opened
  | @snoc events state next action output earlier taken induction =>
    have before := fun event member => careful event (List.mem_append_left _ member)
    have truthful := truthful_of_careful earlier before
    have turn : Turn host Unchecked { before := state, action, output, after := next } :=
      turn_of_careful truthful taken
        (careful _ (List.mem_append_right _ (List.mem_singleton_self _)))
    by_cases was : state.registry.txns.lookup tid = some { db := name }
    · rcases induction before was with ⟨front, opening, middle, handle, parts, thread⟩
      refine ⟨front, opening, middle ++ [{ before := state, action, output, after := next }], handle,
        ?_, thread.begun, thread.closed, ?_, ?_⟩
      · rw [parts, List.append_assoc]
        rfl
      · intro event member
        rcases List.mem_append.mp member with old | new
        · exact thread.tied event old
        · rw [List.mem_singleton.mp new]
          exact thread.now
      · exact turn.tied truthful thread.now (turn.stays opened)
    · rcases thread_of_begun turn was opened with ⟨handle, thread⟩
      exact ⟨events, _, [], handle, rfl, thread⟩

/-! ## The registries of a run -/

/-- A request with a caller is served at its endpoint. -/
theorem served_of_caller {sender : Caller} (known : caller host event = some sender)
    (ran : step host event.before event.action = some (event.output, event.after))
    (inner : route sender.request ≠ .login ∧ route sender.request ≠ .logout ∧
      route sender.request ≠ .console) : ∃ io connection answer,
      event = requested event.before sender.draws io connection sender.request answer event.after ∧
      serve host sender.draws io connection sender.request sender.user
        { event.before with users := sender.users } (route sender.request) =
          some (answer, event.after) := by
  rcases event with ⟨s, action, output, after⟩
  dsimp only at ran
  cases action with
  | finish connection noticed => cases known
  | request draws io connection request =>
    rw [caller] at known
    dsimp only at known
    split at known
    · rename_i user users resolved
      cases known
      rcases Option.map_eq_some_iff.mp ran with ⟨⟨answer, last⟩, handled, same⟩
      cases same
      rw [handle, resolved] at handled
      dsimp only at handled
      rw [dispatch] at handled
      split at handled
      · rename_i routed
        exact absurd routed inner.1
      · rename_i routed
        exact absurd routed inner.2.1
      · rename_i routed
        exact absurd routed inner.2.2
      · exact ⟨io, connection, answer, rfl, handled⟩
    · cases known

end Runs

/-! ### A small server -/

/-- A host whose documents are empty and whose statements only read. -/
def toyHost : ApiHost Unit Unit Unit where
  parse _ := .ok (.read ())
  evaluate _ _ := .ok ()
  modify _ _ _ := ([], [])
  parseFile _ := .ok []
  parseFileByExt _ := .ok []
  parseTurtle _ := .ok []
  parseRdf _ _ := .ok []
  root := "data".toList
  directory path := path
  hashPassword _ _ := 0
  exports := by
    intro ops same
    cases same

def rootOnly : UserStore where
  users := [(rootUser, { name := rootUser, salt := 0, hash := 0, privileges := ∅ })]
  sessions := []

/-- A request of the root user. -/
def asked (path query : String) : ApiEvent :=
  .request { now := 0, salt := 0, token := [], id := 7, savesUsers := true } none 0
    { method := "POST".toList, path := path.toList, query := some query.toList
      headers := [("authorization".toList, "Basic cm9vdDo=".toList)], body := [] }

theorem action_of_caller {host : ApiHost α Read Answer} {event : Served Answer} {sender : Caller}
    (known : caller host event = some sender) :
    ∃ io connection, event.action = .request sender.draws io connection sender.request := by
  rw [caller] at known
  split at known
  · rename_i draws io connection request asked
    split at known
    · cases known
      exact ⟨io, connection, asked⟩
    · cases known
  · cases known

end GStore.Http
