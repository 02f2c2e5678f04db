import GStore.Reason.Rules

/-! # The repair loop

`gnlqa/repair.rs`: a query is checked, executed, and on a problem sent back to the model for a
correction, for a bounded number of rounds. The model and the knowledge base answer as they like,
out of a state of their own; the parser and the candidates a reply lists are given. -/

namespace GStore.Nlqa

open Reason

inductive Error where
  | config (message : Text)
  | llm (message : Text)
  | gstore (message : Text)
  | sparql (message : Text)
  | http (message : Text)
  | json (message : Text)

def Error.text : Error → Text
  | .config message => "config error: ".toList ++ message
  | .llm message => "LLM error: ".toList ++ message
  | .gstore message => "gStore error: ".toList ++ message
  | .sparql message => "SPARQL error: ".toList ++ message
  | .http message => "HTTP error: ".toList ++ message
  | .json message => "JSON error: ".toList ++ message

def Error.isHttp : Error → Bool
  | .http _ => true
  | _ => false

inductive SparqlAnswer where
  | select (vars : List Text) (rows : List (List (Option Term)))
  | boolean (value : Bool)
  | graph (text : Text)

/-- What the parser tells of a text that it accepts. -/
inductive QueryForm where
  | select
  | ask
  | construct
  | describe
  | update

structure LlmRequest where
  system : Option Text
  user : Text
  model : Option Text
  maxTokens : Nat
  temperature : Rat

/-- The surroundings of the loop. -/
structure Services (World : Type) where
  parse : Text → Except Text QueryForm
  /-- `parse_candidates`. -/
  candidates : Text → List Text
  complete : LlmRequest → World → Except Error Text × World
  query : Text → World → Except Error SparqlAnswer × World

/-- The texts of one question. -/
structure Question where
  question : Text
  links : Text
  schema : Text
  model : Option Text

structure RepairOutcome where
  sparql : Text
  answer : SparqlAnswer
  rounds : Nat

def isEmptyAnswer : SparqlAnswer → Bool
  | .select _ rows => rows.isEmpty
  | .boolean _ => false
  | .graph text => (trim text).isEmpty

/-- A call to the surroundings. -/
inductive Call where
  | executed (sparql : Text) (answer : Except Error SparqlAnswer)
  | asked (request : LlmRequest)

structure Attempt (World : Type) where
  current : Text
  lastOk : Option RepairOutcome
  lastErr : Option Text
  tried : List (Text × Text)
  seen : List Text
  world : World
  /-- The calls so far; the code keeps no such list. -/
  calls : List Call

def Attempt.called {World : Type} (s : Attempt World) (call : Call) (world : World) :
    Attempt World := { s with world, calls := s.calls ++ [call] }

inductive Flow where
  | again
  | stop
  | finish (result : Except Error RepairOutcome)

def sysRepair : Text :=
  ("You fix a SPARQL 1.1 query that failed. Given the question, the schema, the previous query, " ++
    "and the problem, output ONLY the corrected query (one SPARQL statement, no prose, no " ++
    "markdown). Use ONLY URIs that appear in the schema; do not invent IRIs or prefixes.").toList

def orNone (block : Text) : Text := if block = [] then "(none)".toList else block

/-- The request of `repair`. -/
def repairRequest (question : Question) (tried : List (Text × Text)) : LlmRequest :=
  let (bad, issue) := tried.getLast?.getD ([], [])
  let prior : Text :=
    if tried.length > 1 then
      "Already tried (do NOT repeat):\n".toList ++ List.intercalate ['\n']
        (tried.dropLast.map fun entry => "- ".toList ++ entry.1) ++ "\n\n".toList
    else []
  { system := some sysRepair
    user := "Question: ".toList ++ question.question ++ "\n\nLinked terms:\n".toList ++
      orNone question.links ++ "\n\nSchema:\n".toList ++ orNone question.schema ++ "\n\n".toList ++
      prior ++ "Previous query:\n".toList ++ bad ++ "\n\nProblem: ".toList ++ issue ++
      "\n\nOutput the corrected SPARQL query.".toList
    model := question.model
    maxTokens := 1024
    temperature := 3 / 10 }

variable {World : Type} (services : Services World) (question : Question)

def validateReadonlySparql (sparql : Text) : Except Error Unit :=
  match services.parse sparql with
  | .error message => .error (.sparql message)
  | .ok form =>
    match form with
    | .select | .ask => .ok ()
    | .construct | .describe =>
      .error (.sparql "only SELECT/ASK queries are allowed for question answering".toList)
    | .update =>
      .error (.sparql ("refusing to execute a SPARQL UPDATE — question answering is " ++
        "read-only").toList)

/-- One repair and its check: the model fails or repeats itself, or there is a new query. -/
def attempt (s : Attempt World) : Flow × Attempt World :=
  let request := repairRequest question s.tried
  match services.complete request s.world with
  | (.error _, world) => (.stop, s.called (.asked request) world)
  | (.ok raw, world) =>
    let next := (services.candidates raw).head?.getD (trim raw)
    let s := s.called (.asked request) world
    if s.seen.contains next then (.stop, s)
    else (.again, { s with seen := next :: s.seen, current := next })

def retry (last : Bool) (issue : Text) (s : Attempt World) : Flow × Attempt World :=
  if last then (.stop, s)
  else attempt services question { s with tried := s.tried ++ [(s.current, issue)] }

/-- The body of the loop. -/
def round (last : Bool) (number : Nat) (s : Attempt World) : Flow × Attempt World :=
  match validateReadonlySparql services s.current with
  | .error error =>
    let issue := "parser error: ".toList ++ error.text
    retry services question last issue { s with lastErr := some issue }
  | .ok () =>
    match services.query s.current s.world with
    | (.ok answer, world) =>
      let s := s.called (.executed s.current (.ok answer)) world
      let outcome : RepairOutcome := ⟨s.current, answer, number⟩
      if isEmptyAnswer answer then
        retry services question last "returned no results".toList
          { s with lastOk := some outcome, lastErr := some "query returned no results".toList }
      else (.finish (.ok outcome), s)
    | (.error error, world) =>
      let s := s.called (.executed s.current (.error error)) world
      -- a dead connection is no defect of the query
      if error.isHttp then (.finish (.error error), s)
      else
        let issue := "execution error: ".toList ++ error.text
        retry services question last issue { s with lastErr := some issue }

def rounds : Nat → Nat → Attempt World → Option (Except Error RepairOutcome) × Attempt World
  | 0, _, s => (none, s)
  | left + 1, number, s =>
    match round services question (left == 0) number s with
    | (.again, s) => rounds left (number + 1) s
    | (.stop, s) => (none, s)
    | (.finish result, s) => (some result, s)

def begun (initial : Text) (world : World) : Attempt World :=
  { current := trim initial, lastOk := none, lastErr := none, tried := [], seen := [trim initial]
    world, calls := [] }

/-- The result, and the state with the calls that were made. -/
def solveWithRepair (initial : Text) (maxRounds : Nat) (world : World) :
    Except Error RepairOutcome × Attempt World :=
  match rounds services question (maxRounds + 1) 0 (begun initial world) with
  | (some result, s) => (result, s)
  | (none, s) =>
    match s.lastOk with
    | some outcome => (.ok outcome, s)
    | none =>
      (.error (.sparql ("no valid, executable query after ".toList ++ (toString maxRounds).toList ++
        " repair round(s); last issue: ".toList ++ s.lastErr.getD "unknown".toList)), s)

/-! ## The calls of a run -/

def Call.execution : Call → Option (Text × Except Error SparqlAnswer)
  | .executed sparql answer => some (sparql, answer)
  | .asked _ => none

def Call.isAsked : Call → Bool
  | .executed _ _ => false
  | .asked _ => true

def executed (calls : List Call) : List (Text × Except Error SparqlAnswer) :=
  calls.filterMap Call.execution

/-- The queries that were answered, with their answers. -/
def answered (calls : List Call) : List (Text × SparqlAnswer) :=
  (executed calls).filterMap fun call => call.2.toOption.map fun answer => (call.1, answer)

/-- The first answer that is not empty, or else the last one. -/
def bestAnswer (calls : List Call) : Option (Text × SparqlAnswer) :=
  ((answered calls).find? fun pair => !isEmptyAnswer pair.2).or (answered calls).getLast?

/-- Calls within bounds on their numbers. -/
structure Counted (executions asks : Nat) (calls : List Call) : Prop where
  executions : (executed calls).length ≤ executions
  asked : calls.countP Call.isAsked ≤ asks
  distinct : ((executed calls).map Prod.fst).Nodup
  accepted : ∀ call ∈ executed calls, validateReadonlySparql services call.1 = .ok ()

/-- The calls within the bounds, and the result that they call for. -/
structure Accounted (maxRounds : Nat) (result : Except Error RepairOutcome) (calls : List Call) :
    Prop extends Counted services (maxRounds + 1) maxRounds calls where
  best : ∀ outcome, result = .ok outcome → bestAnswer calls = some (outcome.sparql, outcome.answer)
  failed : ∀ error, result = .error error → (∀ pair ∈ answered calls, isEmptyAnswer pair.2 = true) ∧
    (answered calls = [] ∨ error.isHttp = true ∧ ∃ call ∈ executed calls, call.2 = .error error)

/-- The state while no answer was worth returning. -/
structure Tracks (executions asks : Nat) (s : Attempt World) : Prop
    extends Counted services executions asks s.calls where
  seen : ∀ call ∈ executed s.calls, call.1 ∈ s.seen
  current : s.current ∈ s.seen
  lastOk : (answered s.calls).getLast? = s.lastOk.map fun outcome => (outcome.sparql, outcome.answer)
  empty : ∀ pair ∈ answered s.calls, isEmptyAnswer pair.2 = true

def Attempt.Fresh (s : Attempt World) : Prop := s.current ∉ (executed s.calls).map Prod.fst

/-- What a round leaves: it was the last, there is a new query, or there is a result. -/
def Leaves (last : Bool) (number : Nat) : Flow × Attempt World → Prop
  | (.stop, after) => Tracks services (number + 1) (if last then number else number + 1) after
  | (.again, after) =>
    last = false ∧ Tracks services (number + 1) (number + 1) after ∧ after.Fresh
  | (.finish result, after) => Accounted services number result after.calls

section Calls

variable (calls : List Call) (request : LlmRequest) (sparql : Text)
  (answer : Except Error SparqlAnswer)

@[simp] theorem executed_asked : executed (calls ++ [.asked request]) = executed calls := by
  simp [executed, Call.execution]

@[simp] theorem executed_executed :
    executed (calls ++ [.executed sparql answer]) = executed calls ++ [(sparql, answer)] := by
  simp [executed, Call.execution]

@[simp] theorem answered_asked : answered (calls ++ [.asked request]) = answered calls := by
  rw [answered, executed_asked, answered]

@[simp] theorem answered_ok (found : SparqlAnswer) :
    answered (calls ++ [.executed sparql (.ok found)]) = answered calls ++ [(sparql, found)] := by
  rw [answered, executed_executed, List.filterMap_append, answered]
  rfl

@[simp] theorem answered_error (error : Error) :
    answered (calls ++ [.executed sparql (.error error)]) = answered calls := by
  rw [answered, executed_executed, List.filterMap_append, answered]
  exact List.append_nil _

end Calls

variable {services question} {maxRounds executions asks : Nat} {s : Attempt World}

theorem Counted.ask {calls : List Call} (counted : Counted services executions asks calls)
    (request : LlmRequest) :
    Counted services executions (asks + 1) (calls ++ [.asked request]) where
  executions := by simpa using counted.executions
  asked := by simpa [Call.isAsked] using counted.asked
  distinct := by simpa using counted.distinct
  accepted := by simpa using counted.accepted

theorem Counted.mono {calls : List Call} (counted : Counted services executions asks calls)
    {more moreAsks : Nat} (grown : executions ≤ more) (grownAsks : asks ≤ moreAsks) :
    Counted services more moreAsks calls :=
  { counted with
    executions := counted.executions.trans grown
    asked := counted.asked.trans grownAsks }

theorem Tracks.execute (tracks : Tracks services executions asks s) (fresh : s.Fresh)
    (valid : validateReadonlySparql services s.current = .ok ())
    (answer : Except Error SparqlAnswer) :
    Counted services (executions + 1) asks (s.calls ++ [.executed s.current answer]) where
  executions := by simpa using tracks.executions
  asked := by simpa [Call.isAsked] using tracks.asked
  distinct := by
    rw [executed_executed, List.map_append, List.map_singleton, ← List.concat_eq_append]
    exact tracks.distinct.concat fresh
  accepted := by
    rw [executed_executed, List.forall_mem_append]
    exact ⟨tracks.accepted, by simpa using valid⟩

theorem leaves_retry {number : Nat} (tracks : Tracks services (number + 1) number s) (last : Bool)
    (issue : Text) : Leaves services last number (retry services question last issue s) := by
  cases last with
  | true => exact tracks
  | false =>
    rw [retry, if_neg Bool.false_ne_true, attempt]
    have asked (world : World) (request : LlmRequest) : Tracks services (number + 1) (number + 1)
        { s with tried := s.tried ++ [(s.current, issue)], world,
                 calls := s.calls ++ [.asked request] } :=
      { tracks.toCounted.ask request with
        seen := by simpa using tracks.seen
        current := tracks.current
        lastOk := by simpa using tracks.lastOk
        empty := by simpa using tracks.empty }
    split
    · exact asked _ _
    · rename_i raw world _
      have now := asked world (repairRequest question (s.tried ++ [(s.current, issue)]))
      dsimp only
      split
      · exact now
      · rename_i unseen
        refine ⟨rfl, { now with seen := ?_, current := List.mem_cons_self }, ?_⟩
        · intro call member
          exact List.mem_cons_of_mem _ (now.seen call member)
        · intro repeated
          rcases List.mem_map.mp repeated with ⟨call, member, same⟩
          have query : call.1 = (services.candidates raw).head?.getD (trim raw) := same
          exact unseen (List.contains_iff_mem.mpr (query ▸ now.seen call member))

theorem leaves_round {number : Nat} (tracks : Tracks services number number s) (fresh : s.Fresh)
    (last : Bool) : Leaves services last number (round services question last number s) := by
  rw [round]
  cases valid : validateReadonlySparql services s.current with
  | error error =>
    apply leaves_retry
    exact { tracks with executions := Nat.le_succ_of_le tracks.executions }
  | ok =>
    cases called : services.query s.current s.world with
    | mk answer world =>
      have counted := tracks.execute fresh valid answer
      have seen : ∀ call ∈ executed (s.calls ++ [.executed s.current answer]), call.1 ∈ s.seen := by
        rw [executed_executed, List.forall_mem_append]
        exact ⟨tracks.seen, by simpa using tracks.current⟩
      have before : (answered s.calls).find? (fun pair => !isEmptyAnswer pair.2) = none := by
        simpa using tracks.empty
      cases answer with
      | ok found =>
        dsimp only
        split
        · rename_i isEmpty
          apply leaves_retry
          exact { counted with
            seen := seen
            current := tracks.current
            lastOk := by simp [Attempt.called]
            empty := by
              rw [Attempt.called, answered_ok, List.forall_mem_append]
              exact ⟨tracks.empty, by simpa using isEmpty⟩ }
        · rename_i full
          refine { counted with best := ?_, failed := fun _ same => by cases same }
          intro outcome same
          cases same
          rw [Attempt.called, bestAnswer, answered_ok, List.find?_append, before, Option.none_or,
            List.find?_cons_of_pos (by simpa using full)]
          rfl
      | error error =>
        dsimp only
        split
        · rename_i transport
          refine { counted with best := fun _ same => (by cases same), failed := ?_ }
          intro other same
          cases same
          exact ⟨by simpa [Attempt.called] using tracks.empty,
            .inr ⟨transport, (s.current, .error error), by simp [Attempt.called], rfl⟩⟩
        · apply leaves_retry
          exact { counted with
            seen := seen
            current := tracks.current
            lastOk := by simpa [Attempt.called] using tracks.lastOk
            empty := by simpa [Attempt.called] using tracks.empty }

theorem accounted_rounds {maxRounds : Nat} (left : Nat) {number : Nat}
    (bound : number + left = maxRounds) (tracks : Tracks services number number s)
    (fresh : s.Fresh) {result : Option (Except Error RepairOutcome)} {after : Attempt World}
    (ran : rounds services question (left + 1) number s = (result, after)) :
    (∀ final, result = some final → Accounted services maxRounds final after.calls) ∧
      (result = none → Tracks services (maxRounds + 1) maxRounds after) := by
  induction left using Nat.strong_induction_on generalizing number s with
  | _ left induction =>
    have leaves : Leaves services (left == 0) number (round services question (left == 0) number s) :=
      leaves_round tracks fresh (left == 0)
    rw [rounds] at ran
    cases went : round services question (left == 0) number s with
    | mk flow next =>
      rw [went] at ran leaves
      cases flow with
      | stop =>
        cases ran
        have last : Tracks services (number + 1) (if left == 0 then number else number + 1) after :=
          leaves
        constructor
        · intro _ impossible
          cases impossible
        · intro _
          have asks : (if left == 0 then number else number + 1) ≤ maxRounds := by
            split
            · omega
            · rename_i more
              have positive : left ≠ 0 := by simpa using more
              omega
          exact { last with toCounted := last.toCounted.mono (by omega) asks }
      | finish final =>
        cases ran
        have done : Accounted services number final after.calls := leaves
        constructor
        · intro _ same
          cases same
          exact { done with toCounted := done.toCounted.mono (by omega) (by omega) }
        · intro impossible
          cases impossible
      | again =>
        have further : (left == 0) = false ∧ Tracks services (number + 1) (number + 1) next ∧
          next.Fresh := leaves
        rcases Nat.exists_eq_succ_of_ne_zero (by simpa using further.1) with ⟨fewer, rfl⟩
        exact induction fewer (Nat.lt_succ_self _) (by omega) further.2.1 further.2.2 ran

/-- The loop stays within its bounds and keeps the best result, however the model and the
knowledge base behave. -/
theorem solveWithRepair_accounted (services : Services World) (question : Question)
    (initial : Text) (maxRounds : Nat) (world : World) :
    Accounted services maxRounds (solveWithRepair services question initial maxRounds world).1
      (solveWithRepair services question initial maxRounds world).2.calls := by
  have begins : Tracks services 0 0 (begun initial world) :=
    { executions := Nat.le_refl 0
      asked := Nat.le_refl 0
      distinct := .nil
      accepted := fun _ member => by cases member
      seen := fun _ member => by cases member
      current := List.mem_cons_self
      lastOk := rfl
      empty := fun _ member => by cases member }
  rw [solveWithRepair]
  cases ran : rounds services question (maxRounds + 1) 0 (begun initial world) with
  | mk result after =>
    have ends := accounted_rounds maxRounds (Nat.zero_add _) begins List.not_mem_nil ran
    cases result with
    | some final => exact ends.1 final rfl
    | none =>
      have tracks := ends.2 rfl
      dsimp only
      cases kept : after.lastOk with
      | some outcome =>
        refine { tracks.toCounted with best := ?_, failed := fun _ same => by cases same }
        intro other same
        cases same
        have noFirst : (answered after.calls).find? (fun pair => !isEmptyAnswer pair.2) = none := by
          simpa using tracks.empty
        rw [bestAnswer, noFirst, Option.none_or, tracks.lastOk, kept]
        rfl
      | none =>
        refine { tracks.toCounted with best := fun _ same => (by cases same), failed := ?_ }
        intro _ _
        have none := tracks.lastOk
        rw [kept] at none
        exact ⟨tracks.empty, .inl (List.getLast?_eq_none_iff.mp none)⟩

end GStore.Nlqa
