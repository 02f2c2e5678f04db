import GStore.Db.Rollback
import GStore.Http.Effects

/-! # The transaction registries

What an event of the server does to its transactions: it leaves them alone, begins one, runs a
statement of one, or ends one. From this the registries are truthful: the ids and the names of
open transactions are inverse maps, and the databases in a transaction are the named ones. -/

namespace GStore.Http

open Db Reason

variable {α Read Answer : Type}

/-! ## The invariant -/

structure Truthful (registry : Registry) : Prop where
  inverse : ∀ tid name, registry.txns.lookup tid = some { db := name } ↔
    registry.dbTxn.lookup name = some tid
  held : ∀ name handle, registry.dbs.lookup name = some handle →
    ∃ session, registry.heap[handle]? = some session ∧
      session.txn.isSome = (registry.dbTxn.lookup name).isSome
  loaded : ∀ name, (registry.dbTxn.lookup name).isSome → (registry.dbs.lookup name).isSome
  apart : ∀ left right handle, registry.dbs.lookup left = some handle →
    registry.dbs.lookup right = some handle → left = right

section Truthful

variable {registry : Registry} {name : Text} {handle : Handle} {session after : Session}

theorem truthful_empty (disk : Disk) : Truthful (.empty disk) := by
  constructor <;> simp [Registry.empty]

theorem Truthful.withDisk (truthful : Truthful registry) (disk : Disk) :
    Truthful { registry with disk } :=
  ⟨truthful.inverse, truthful.held, truthful.loaded, truthful.apart⟩

theorem Truthful.bound (truthful : Truthful registry)
    (looked : registry.dbs.lookup name = some handle) : handle < registry.heap.length := by
  rcases truthful.held name handle looked with ⟨session, found, -⟩
  exact Registry.lt_length found

theorem Truthful.install (truthful : Truthful registry)
    (free : registry.dbTxn.lookup name = none) (idle : session.txn = none) :
    Truthful (registry.install name session) where
  inverse := truthful.inverse
  held other handle looked := by
    change (assocInsert name registry.heap.length registry.dbs).lookup other = some handle at looked
    rw [lookup_assocInsert] at looked
    split at looked
    · rename_i same
      cases looked
      refine ⟨session, Registry.getElem?_install_new, ?_⟩
      change session.txn.isSome = (registry.dbTxn.lookup other).isSome
      rw [eq_of_beq same, free, idle]
      rfl
    · rcases truthful.held other handle looked with ⟨held, found, active⟩
      exact ⟨held, (Registry.getElem?_install_of_lt (truthful.bound looked)).trans found, active⟩
  loaded other named := by
    change ((assocInsert name registry.heap.length registry.dbs).lookup other).isSome
    rw [lookup_assocInsert]
    split
    · rfl
    · exact truthful.loaded other named
  apart left right handle leftLooked rightLooked := by
    change (assocInsert name registry.heap.length registry.dbs).lookup left = some handle
      at leftLooked
    change (assocInsert name registry.heap.length registry.dbs).lookup right = some handle
      at rightLooked
    rw [lookup_assocInsert] at leftLooked rightLooked
    split at leftLooked <;> split at rightLooked
    · rename_i sameLeft sameRight
      exact (eq_of_beq sameLeft).trans (eq_of_beq sameRight).symm
    · cases leftLooked
      exact absurd (truthful.bound rightLooked) (lt_irrefl _)
    · cases rightLooked
      exact absurd (truthful.bound leftLooked) (lt_irrefl _)
    · exact truthful.apart left right handle leftLooked rightLooked

theorem Truthful.remove (truthful : Truthful registry)
    (free : registry.dbTxn.lookup name = none) :
    Truthful { registry with dbs := assocErase name registry.dbs } where
  inverse := truthful.inverse
  held other handle looked := by
    change (assocErase name registry.dbs).lookup other = some handle at looked
    rw [lookup_assocErase] at looked
    split at looked
    · cases looked
    · exact truthful.held other handle looked
  loaded other named := by
    change ((assocErase name registry.dbs).lookup other).isSome
    rw [lookup_assocErase]
    split
    · rename_i same
      change (registry.dbTxn.lookup other).isSome at named
      rw [eq_of_beq same, free] at named
      cases named
    · exact truthful.loaded other named
  apart left right handle leftLooked rightLooked := by
    change (assocErase name registry.dbs).lookup left = some handle at leftLooked
    change (assocErase name registry.dbs).lookup right = some handle at rightLooked
    rw [lookup_assocErase] at leftLooked rightLooked
    split at leftLooked
    · cases leftLooked
    · split at rightLooked
      · cases rightLooked
      · exact truthful.apart left right handle leftLooked rightLooked

/-- A database changes, and not whether it is in a transaction. -/
theorem Truthful.put (truthful : Truthful registry) (found : registry.heap[handle]? = some session)
    (still : after.txn.isSome = session.txn.isSome) : Truthful (registry.put handle after) where
  inverse := truthful.inverse
  held name other looked := by
    rcases truthful.held name other looked with ⟨held, read, active⟩
    by_cases same : other = handle
    · subst same
      rw [found] at read
      cases read
      exact ⟨after, Registry.getElem?_put_self found, still.trans active⟩
    · exact ⟨held, (Registry.getElem?_put_of_ne same).trans read, active⟩
  loaded := truthful.loaded
  apart := truthful.apart

/-- Only the transaction of one database changes, and the database with it. -/
theorem Truthful.marked (truthful : Truthful registry) {txns : List (Nat × Txn)}
    {dbTxn : List (Text × Nat)} (found : registry.database name = some (handle, session))
    (inverse : ∀ tid target, txns.lookup tid = some { db := target } ↔
      dbTxn.lookup target = some tid)
    (here : after.txn.isSome = (dbTxn.lookup name).isSome)
    (others : ∀ target, target ≠ name → dbTxn.lookup target = registry.dbTxn.lookup target) :
    Truthful { registry.put handle after with txns, dbTxn } where
  inverse := inverse
  held target other looked := by
    have read := Registry.database_eq_some.mp found
    change _ ∧ _ at read
    change ∃ session, (registry.put handle after).heap[other]? = some session ∧
      session.txn.isSome = (dbTxn.lookup target).isSome
    by_cases same : target = name
    · subst same
      have sameHandle : other = handle := Option.some.inj (looked.symm.trans read.1)
      subst sameHandle
      exact ⟨after, Registry.getElem?_put_self read.2, here⟩
    · have different : other ≠ handle := fun equal =>
        same (truthful.apart target name other looked (equal ▸ read.1))
      rcases truthful.held target other looked with ⟨held, there, state⟩
      exact ⟨held, (Registry.getElem?_put_of_ne different).trans there,
        by rw [others target same, state]⟩
  loaded target named := by
    change (dbTxn.lookup target).isSome at named
    change (registry.dbs.lookup target).isSome
    by_cases same : target = name
    · rw [same, (Registry.database_eq_some.mp found).1]
      rfl
    · rw [others target same] at named
      exact truthful.loaded target named
  apart := truthful.apart

/-- A database enters a transaction under a new id. -/
theorem Truthful.begin (truthful : Truthful registry) {tid : Nat}
    (fresh : registry.txns.lookup tid = none)
    (found : registry.database name = some (handle, session))
    (free : registry.dbTxn.lookup name = none) (active : after.txn.isSome) :
    Truthful { registry.put handle after with
      txns := assocInsert tid { db := name } registry.txns
      dbTxn := assocInsert name tid registry.dbTxn } := by
  refine truthful.marked found (fun other target => ?_) ?_ fun target other => ?_
  · rw [lookup_assocInsert, lookup_assocInsert]
    by_cases sameId : other = tid <;> by_cases sameName : target = name
    · simp [sameId, sameName]
    · have unnamed : registry.dbTxn.lookup target ≠ some tid := fun named => by
        rw [← truthful.inverse, fresh] at named
        cases named
      simp [sameId, sameName, Ne.symm sameName, unnamed]
    · have unopened : registry.txns.lookup other ≠ some { db := name } := fun opened => by
        rw [truthful.inverse, free] at opened
        cases opened
      simp [sameId, sameName, Ne.symm sameId, unopened]
    · simp [sameId, sameName, truthful.inverse]
  · simp [lookup_assocInsert, active]
  · simp [lookup_assocInsert, other]

/-- A transaction and that of its database end together. -/
theorem Truthful.finish (truthful : Truthful registry) {tid : Nat}
    (opened : registry.txns.lookup tid = some { db := name })
    (found : registry.database name = some (handle, session)) (closed : after.txn = none) :
    Truthful (Registry.put { registry with
      txns := assocErase tid registry.txns
      dbTxn := assocErase name registry.dbTxn } handle after) := by
  refine truthful.marked found (fun other target => ?_) ?_ fun target other => ?_
  · have named := (truthful.inverse tid name).mp opened
    rw [lookup_assocErase, lookup_assocErase]
    by_cases sameId : other = tid <;> by_cases sameName : target = name
    · simp [sameId, sameName]
    · have elsewhere : registry.dbTxn.lookup target ≠ some tid := fun also => by
        rw [← truthful.inverse, opened] at also
        cases also
        exact sameName rfl
      simp [sameId, sameName, elsewhere]
    · have elsewhere : registry.txns.lookup other ≠ some { db := name } := fun also => by
        rw [truthful.inverse, named] at also
        cases also
        exact sameId rfl
      simp [sameId, sameName, elsewhere]
    · simp [sameId, sameName, truthful.inverse]
  · simp [lookup_assocErase, closed]
  · simp [lookup_assocErase, other]

end Truthful

/-! ## What an event does -/

/-- An event of a run of the server. -/
abbrev Served (Answer : Type) := Event ApiState ApiEvent (Option (Dispatch Answer))

/-- A request with its caller, and the users once the caller is known. -/
structure Caller where
  draws : Draws
  request : Request
  user : Text
  users : UserStore

def caller (host : ApiHost α Read Answer) (event : Served Answer) : Option Caller :=
  match event.action with
  | .request draws _ _ request =>
    match resolveUser host draws request event.before.users with
    | some (some user, users) => some { draws, request, user, users }
    | _ => none
  | .finish _ _ => none

/-- What a served event does to the transaction of an id. -/
inductive Mark where
  | begun (tid : Nat)
  | stated (tid : Nat) (sparql : Text)
  | ended (tid : Nat) (commit : Bool)
deriving DecidableEq

/-- The id that an answer gives out. -/
def answeredId : Option (Dispatch Answer) → Option Nat
  | some (.done resp) =>
    match resp.body with
    | .transaction tid => some tid
    | _ => none
  | _ => none

/-- The id of an open transaction that a request names. -/
def openId (registry : Registry) (request : Request) : Option Nat :=
  (Registry.txnId request).filter fun tid => (registry.txns.lookup tid).isSome

/-- The end that a request asks for, if its caller may. -/
def Caller.ends (caller : Caller) (registry : Registry) (commit : Bool) : Option Mark :=
  if caller.users.hasPriv caller.user .update then
    (openId registry caller.request).map fun tid => .ended tid commit
  else none

/-- The statement that a request adds, if its caller may. -/
def Caller.states (host : ApiHost α Read Answer) (caller : Caller) (registry : Registry) :
    Option Mark := do
  let tid ← openId registry caller.request
  let sparql ← Registry.tqueryText caller.request
  if caller.users.hasPriv caller.user (needed host sparql) then some (.stated tid sparql) else none

def mark (host : ApiHost α Read Answer) (event : Served Answer) : Option Mark :=
  match caller host event with
  | none => none
  | some caller =>
    match route caller.request with
    | .begin => (answeredId event.output).map .begun
    | .tquery => caller.states host event.before.registry
    | .commit => caller.ends event.before.registry true
    | .rollback => caller.ends event.before.registry false
    | _ => none

/-- The statement of a batch, if it has triples and its caller may run it. -/
def Caller.batch (caller : Caller) (registry : Registry) (insert : Bool) :
    Option (Handle × Text) := do
  let name ← registry.pickDb caller.request
  let found ← registry.database name
  let triples := trim ((caller.request.param "triples").getD caller.request.bodyStr)
  if triples ≠ [] ∧ caller.users.hasPriv caller.user .update then
    some (found.1, Registry.batchStatement insert triples)
  else none

/-- The statement that an event runs on a database without a transaction id. -/
def outside (host : ApiHost α Read Answer) (event : Served Answer) : Option (Handle × Text) :=
  match event.action with
  | .finish connection _ =>
    (event.before.jobs.lookup connection).map fun job => (job.db, job.sparql)
  | .request .. =>
    match caller host event with
    | none => none
    | some caller =>
      match route caller.request with
      | .batchInsert => caller.batch event.before.registry true
      | .batchRemove => caller.batch event.before.registry false
      | _ => none

/-- A database in a transaction is loaded anew. -/
def Reloads (host : ApiHost α Read Answer) (event : Served Answer) : Prop :=
  ∃ sender, caller host event = some sender ∧ route sender.request = .load ∧
    sender.users.hasPriv sender.user .load ∧
    ∃ name image, Registry.reqDbName sender.request = some name ∧
      event.before.registry.disk.lookup (host.databaseDir name) = some (.ok image) ∧
      (event.before.registry.dbTxn.lookup name).isSome

/-! ## Turns -/

/-- The answer of a transaction that has ended. -/
def txnDone (tid : Nat) (commit : Bool) : Dispatch Answer :=
  .done (.ok ("transaction ".toList ++ Nat.toDigits 10 tid ++
    ' ' :: (if commit then "commit".toList else "rollback".toList) ++ " done".toList))

/-- What an event meets on the disk. -/
def ioOf (event : Served Answer) : Io :=
  match event.action with
  | .request _ io _ _ => io
  | .finish _ _ => none

/-- The four ways in which an event bears on the transactions. -/
inductive Turn (host : ApiHost α Read Answer) (Allowed : Session → Text → Prop)
    (event : Served Answer) : Prop where
  | calm (unmarked : mark host event = none)
      (effects : Effects host (ioOf event) Allowed event.before.registry event.after.registry)
  | begun (tid : Nat) (name : Text) (handle : Handle) (session : Session)
      (marked : mark host event = some (.begun tid))
      (fresh : event.before.registry.txns.lookup tid = none)
      (found : event.before.registry.database name = some (handle, session))
      (free : event.before.registry.dbTxn.lookup name = none) (closed : session.txn = none)
      (after : event.after.registry = { event.before.registry.put handle session.begin.2 with
        txns := assocInsert tid { db := name } event.before.registry.txns
        dbTxn := assocInsert name tid event.before.registry.dbTxn })
  | stated (tid : Nat) (name sparql : Text) (handle : Handle) (session last : Session)
      (outcome : Except Text (QueryResult Answer))
      (marked : mark host event = some (.stated tid sparql))
      (opened : event.before.registry.txns.lookup tid = some { db := name })
      (found : event.before.registry.database name = some (handle, session))
      (ran : host.query session sparql = some (outcome, last))
      (answered : event.output = some (.done (.ofQuery outcome)))
      (after : event.after.registry = event.before.registry.put handle last)
  | ended (tid : Nat) (commit : Bool) (name : Text) (handle : Handle) (session : Session)
      (marked : mark host event = some (.ended tid commit))
      (opened : event.before.registry.txns.lookup tid = some { db := name })
      (found : event.before.registry.database name = some (handle, session))
      (active : session.txn.isSome) (answered : event.output = some (txnDone tid commit))
      (after : event.after.registry = Registry.put { event.before.registry with
        txns := assocErase tid event.before.registry.txns
        dbTxn := assocErase name event.before.registry.dbTxn }
        handle (Registry.endTxn commit session).2)

section Turns

variable {host : ApiHost α Read Answer} {Allowed : Session → Text → Prop} {draws : Draws}
  {io : Io} {connection : Nat} {request : Request} {s after : ApiState}
  {output : Option (Dispatch Answer)} {user : Text} {users : UserStore} {privilege : Privilege}
  {registry : Registry}

theorem mark_of_caller {event : Served Answer} {sender : Caller}
    (known : caller host event = some sender) :
    mark host event = match route sender.request with
      | .begin => (answeredId event.output).map .begun
      | .tquery => sender.states host event.before.registry
      | .commit => sender.ends event.before.registry true
      | .rollback => sender.ends event.before.registry false
      | _ => none := by
  rw [mark, known]

theorem mark_of_unknown {event : Served Answer} (unknown : caller host event = none) :
    mark host event = none := by
  rw [mark, unknown]

theorem guarded_cases {serve : Option (Dispatch Answer × ApiState)}
    {result : Dispatch Answer × ApiState} (ran : guarded user s privilege serve = some result) :
    (s.users.hasPriv user privilege = true ∧ serve = some result) ∨
      (s.users.hasPriv user privilege = false ∧ result = (.done forbidden, s)) := by
  rw [guarded] at ran
  split at ran
  · rename_i may
    exact .inl ⟨may, ran⟩
  · rename_i mayNot
    cases ran
    exact .inr ⟨eq_false_of_ne_true mayNot, rfl⟩

/-- The event of a request. -/
def requested (s : ApiState) (draws : Draws) (io : Io) (connection : Nat) (request : Request)
    (answer : Dispatch Answer) (after : ApiState) : Served Answer :=
  { before := s, action := .request draws io connection request, output := some answer, after }

/-- The caller of an event, once resolved. -/
def sentBy (draws : Draws) (request : Request) (user : Text) (users : UserStore) : Caller :=
  { draws, request, user, users }

/-- An id that is given out is that of no open transaction. -/
theorem lookup_newId (drawn : Nat) (txns : List (Nat × Txn)) :
    txns.lookup (Registry.newId drawn (txns.map Prod.fst)) = none := by
  rw [List.lookup_eq_none_iff]
  intro entry member
  rw [bne_iff_ne]
  intro same
  have taken : entry.1 ∈ txns.map Prod.fst := List.mem_map_of_mem member
  exact not_mem_newId drawn _ (same ▸ taken)

theorem openId_of_lookup {tid : Nat} {txn : Txn} (named : Registry.txnId request = some tid)
    (looked : registry.txns.lookup tid = some txn) : openId registry request = some tid := by
  rw [openId, named]
  exact Option.filter_some_pos (by rw [looked]; rfl)

theorem openId_of_closed {tid : Nat} (named : Registry.txnId request = some tid)
    (closed : registry.txns.lookup tid = none) : openId registry request = none := by
  rw [openId, named]
  exact Option.filter_some_neg (by rw [closed]; rfl)

theorem openId_of_unnamed (unnamed : Registry.txnId request = none) :
    openId registry request = none := by
  rw [openId, unnamed]
  rfl

theorem endTxn_spec (commit : Bool) {session : Session} (active : session.txn.isSome) :
    (Registry.endTxn commit session).1 = .ok () ∧ (Registry.endTxn commit session).2.txn = none := by
  rcases Option.isSome_iff_exists.mp active with ⟨log, held⟩
  cases commit with
  | true =>
    rw [Registry.endTxn, if_pos rfl, Session.commit, held]
    exact ⟨rfl, rfl⟩
  | false =>
    rw [Registry.endTxn, if_neg Bool.false_ne_true, Session.rollback, held]
    refine ⟨rfl, ?_⟩
    dsimp only
    rw [List.foldl_reverse]
    exact (Session.undo_frame log { session with txn := none, redoPending := [] }).2.txn

/-- An open transaction is on a loaded database, which is in it. -/
theorem Truthful.opened (truthful : Truthful registry) {tid : Nat} {txn : Txn}
    (looked : registry.txns.lookup tid = some txn) : ∃ handle session,
      registry.database txn.db = some (handle, session) ∧ session.txn.isSome := by
  have named := (truthful.inverse tid txn.db).mp looked
  have loaded := truthful.loaded txn.db (by rw [named]; rfl)
  rcases Option.isSome_iff_exists.mp loaded with ⟨handle, bound⟩
  rcases truthful.held txn.db handle bound with ⟨session, found, active⟩
  refine ⟨handle, session, Registry.database_eq_some.mpr ⟨bound, found⟩, ?_⟩
  rw [active, named]
  rfl

/-- An endpoint of the databases with a privilege, but for those of transactions. -/
theorem turn_of_reply {answer : Dispatch Answer}
    (plain : ∀ answer after,
      mark host (requested s draws io connection request answer after) = none)
    {reply : Option (Reply Answer)}
    (ran : guarded user { s with users } privilege (reply.map (onRegistry { s with users })) =
      some (answer, after))
    (effects : users.hasPriv user privilege = true → ∀ resp registry,
      reply = some (resp, registry) → Effects host io Allowed s.registry registry) :
    Turn host Allowed (requested s draws io connection request answer after) := by
  rcases guarded_cases ran with ⟨may, served⟩ | ⟨mayNot, same⟩
  · rcases Option.map_eq_some_iff.mp served with ⟨⟨resp, registry⟩, replied, same⟩
    cases same
    exact .calm (plain _ _) (effects may resp registry replied)
  · cases same
    exact .calm (plain _ _) .refl

theorem turn_of_answer {answer : Dispatch Answer}
    (plain : ∀ answer after,
      mark host (requested s draws io connection request answer after) = none)
    {reply : Reply Answer}
    (ran : guarded user { s with users } privilege (some (onRegistry { s with users } reply)) =
      some (answer, after))
    (effects : users.hasPriv user privilege = true → Effects host io Allowed s.registry reply.2) :
    Turn host Allowed (requested s draws io connection request answer after) := by
  have asReply : guarded user { s with users } privilege
      ((some reply).map (onRegistry { s with users })) = some (answer, after) := ran
  refine turn_of_reply plain asReply fun may resp registry replied => ?_
  cases replied
  exact effects may

/-- An endpoint of the users. -/
theorem turn_of_users {answer : Dispatch Answer}
    (plain : ∀ answer after,
      mark host (requested s draws io connection request answer after) = none)
    {reply : Resp Answer × UserStore}
    (ran : guarded user { s with users } privilege (some (onUsers { s with users } reply)) =
      some (answer, after)) :
    Turn host Allowed (requested s draws io connection request answer after) := by
  rcases guarded_cases ran with ⟨may, served⟩ | ⟨mayNot, same⟩
  · cases served
    exact .calm (plain _ _) .refl
  · cases same
    exact .calm (plain _ _) .refl

theorem registry_handleQuery (state : ApiState) : (handleQuery host draws connection request user
    state).2.registry = state.registry := by
  rw [handleQuery]
  split
  · rfl
  · split
    · split
      · rfl
      · rw [runQuery]
        split <;> rfl
    · rfl

theorem registry_handleUpdate (state : ApiState) :
    (handleUpdate draws connection request user state :
      Dispatch Answer × ApiState).2.registry = state.registry := by
  rw [handleUpdate]
  split
  · rfl
  · split
    · rfl
    · rw [runQuery]
      split <;> rfl

theorem batch_sentBy {insert : Bool} {name : Text} {handle : Handle} {session : Session}
    (picked : registry.pickDb request = some name)
    (found : registry.database name = some (handle, session))
    (filled : trim ((request.param "triples").getD request.bodyStr) ≠ [])
    (may : users.hasPriv user .update = true) :
    (sentBy draws request user users).batch registry insert =
      some (handle, Registry.batchStatement insert
        (trim ((request.param "triples").getD request.bodyStr))) := by
  rw [Caller.batch, sentBy]
  dsimp only
  rw [picked]
  change (registry.database name).bind _ = _
  rw [found]
  exact if_pos ⟨filled, may⟩

section Requests

variable {answer : Dispatch Answer} (known : resolveUser host draws request s.users =
  some (some user, users))

include known

theorem caller_requested : caller host (requested s draws io connection request answer after) =
    some (sentBy draws request user users) := by
  simp [caller, requested, known, sentBy]

theorem outside_requested :
    outside host (requested s draws io connection request answer after) =
      match route request with
        | .batchInsert => (sentBy draws request user users).batch s.registry true
        | .batchRemove => (sentBy draws request user users).batch s.registry false
        | _ => none := by
  rw [outside, caller_requested known]
  rfl

theorem turn_of_begin {reply : Reply Answer} (routed : route request = .begin)
    (ran : s.registry.handleBegin request draws = reply) :
    Turn host Allowed (requested s draws io connection request (.done reply.1)
      { s with users, registry := reply.2 }) := by
  have marks : mark host (requested s draws io connection request (.done reply.1)
      { s with users, registry := reply.2 }) = (answeredId (some (.done reply.1))).map .begun := by
    rw [mark_of_caller (caller_requested known)]
    simp only [sentBy, routed, requested]
  rw [Registry.handleBegin] at ran
  split at ran
  · cases ran
    exact .calm marks .refl
  · rename_i name picked
    split at ran
    · cases ran
      exact .calm marks .refl
    · rename_i handle session found
      split at ran
      · cases ran
        exact .calm marks .refl
      · rename_i free
        split at ran
        · cases ran
          exact .calm marks .refl
        · rename_i started begun
          have closed : session.txn = none := by
            cases held : session.txn with
            | none => rfl
            | some log => simp [Session.begin, held] at begun
          have same : started = session.begin.2 := by rw [begun]
          cases ran
          rw [same]
          exact .begun _ name handle session marks (lookup_newId _ _) found
            (Option.not_isSome_iff_eq_none.mp free) closed rfl

theorem turn_of_tquery (truthful : Truthful s.registry) {reply : Reply Answer}
    (routed : route request = .tquery)
    (ran : handleTquery host request user { s with users } = some reply) :
    Turn host Allowed (requested s draws io connection request (.done reply.1)
      { s with users, registry := reply.2 }) := by
  have marks : mark host (requested s draws io connection request (.done reply.1)
      { s with users, registry := reply.2 }) =
        (sentBy draws request user users).states host s.registry := by
    rw [mark_of_caller (caller_requested known)]
    simp only [sentBy, routed, requested]
  rw [Caller.states, sentBy] at marks
  dsimp only at marks
  rw [handleTquery] at ran
  dsimp only at ran
  split at ran
  · rename_i unnamed
    cases ran
    rw [openId_of_unnamed unnamed] at marks
    exact .calm marks .refl
  · rename_i tid named
    split at ran
    · rename_i closed
      cases ran
      rw [openId_of_closed named closed] at marks
      exact .calm marks .refl
    · rename_i txn looked
      rw [openId_of_lookup named looked] at marks
      split at ran
      · rename_i silent
        cases ran
        rw [silent] at marks
        exact .calm marks .refl
      · rename_i sparql said
        rw [said] at marks
        split at ran
        · rename_i may
          rcases truthful.opened looked with ⟨handle, session, found, active⟩
          rw [Registry.runInTxn] at ran
          dsimp only at ran
          rw [found] at ran
          rcases Option.map_eq_some_iff.mp ran with ⟨⟨outcome, last⟩, queried, same⟩
          cases same
          exact .stated tid txn.db sparql handle session last outcome
            (marks.trans (if_pos may)) looked found queried rfl rfl
        · rename_i mayNot
          cases ran
          exact .calm (marks.trans (if_neg mayNot)) .refl

theorem turn_of_end (truthful : Truthful s.registry) (commit : Bool) {reply : Reply Answer}
    (routed : route request = if commit then .commit else .rollback)
    (may : users.hasPriv user .update = true)
    (ran : s.registry.handleTxnEnd request commit = reply) :
    Turn host Allowed (requested s draws io connection request (.done reply.1)
      { s with users, registry := reply.2 }) := by
  have marks : mark host (requested s draws io connection request (.done reply.1)
      { s with users, registry := reply.2 }) =
        (sentBy draws request user users).ends s.registry commit := by
    rw [mark_of_caller (caller_requested known)]
    cases commit <;> simp [sentBy, routed, requested]
  rw [Caller.ends, sentBy, if_pos may] at marks
  dsimp only at marks
  rw [Registry.handleTxnEnd] at ran
  dsimp only at ran
  split at ran
  · rename_i unnamed
    cases ran
    rw [openId_of_unnamed unnamed] at marks
    exact .calm marks .refl
  · rename_i tid named
    split at ran
    · rename_i closed
      cases ran
      rw [openId_of_closed named closed] at marks
      exact .calm marks .refl
    · rename_i txn looked
      rw [openId_of_lookup named looked] at marks
      rcases truthful.opened looked with ⟨handle, session, found, active⟩
      rw [found] at ran
      dsimp only at ran
      have succeeds : Registry.endTxn commit session = (.ok (), (Registry.endTxn commit session).2) :=
        Prod.ext (endTxn_spec commit active).1 rfl
      rw [succeeds] at ran
      cases ran
      exact .ended tid commit txn.db handle session marks looked found active rfl rfl

theorem turn_of_serve {after : ApiState} (truthful : Truthful s.registry)
    (exports : ∀ session, Allowed session exportQuery)
    (careful : ¬ Reloads host (requested s draws io connection request answer after))
    (allowed : ∀ handle sparql session,
      outside host (requested s draws io connection request answer after) = some (handle, sparql) →
      s.registry.heap[handle]? = some session → Allowed session sparql)
    (ran : serve host draws io connection request user { s with users } (route request) =
      some (answer, after)) :
    Turn host Allowed (requested s draws io connection request answer after) := by
  have marks : ∀ answer after, mark host (requested s draws io connection request answer after) =
      match route request with
        | .begin => (answeredId (some answer)).map .begun
        | .tquery => (sentBy draws request user users).states host s.registry
        | .commit => (sentBy draws request user users).ends s.registry true
        | .rollback => (sentBy draws request user users).ends s.registry false
        | _ => none := fun answer after => mark_of_caller (caller_requested known)
  cases routed : route request <;> rw [routed] at ran marks <;> dsimp only at marks <;>
    rw [serve] at ran
  case login | logout | console | unknown | monitoring =>
    cases ran
    exact .calm (marks _ _) .refl
  case sparql =>
    have queried := congrArg (fun result => result.2.registry) (Option.some.inj ran)
    have same : s.registry = after.registry := (registry_handleQuery { s with users }).symm.trans queried
    exact .calm (marks _ _) (same ▸ .refl)
  case update =>
    rcases guarded_cases ran with ⟨may, served⟩ | ⟨mayNot, refused⟩
    · have queried := congrArg (fun result => result.2.registry) (Option.some.inj served)
      have same : s.registry = after.registry := (registry_handleUpdate { s with users }).symm.trans queried
      exact .calm (marks _ _) (same ▸ .refl)
    · cases refused
      exact .calm (marks _ _) .refl
  case tquery =>
    rcases Option.map_eq_some_iff.mp ran with ⟨reply, replied, same⟩
    cases same
    exact turn_of_tquery known truthful routed replied
  case begin =>
    rcases guarded_cases ran with ⟨may, served⟩ | ⟨mayNot, refused⟩
    · cases served
      exact turn_of_begin known routed rfl
    · cases refused
      exact .calm (marks _ _) .refl
  case commit =>
    rcases guarded_cases ran with ⟨may, served⟩ | ⟨mayNot, refused⟩
    · cases served
      exact turn_of_end known truthful true routed may rfl
    · cases refused
      exact .calm ((marks _ _).trans (if_neg (ne_true_of_eq_false mayNot))) .refl
  case rollback =>
    rcases guarded_cases ran with ⟨may, served⟩ | ⟨mayNot, refused⟩
    · cases served
      exact turn_of_end known truthful false routed may rfl
    · cases refused
      exact .calm ((marks _ _).trans (if_neg (ne_true_of_eq_false mayNot))) .refl
  case load =>
    refine turn_of_answer marks ran fun may => ?_
    refine effects_handleLoad rfl fun name image given found => ?_
    by_contra busy
    exact careful ⟨_, caller_requested known, routed, may, name, image, given, found,
      Option.isSome_iff_ne_none.mpr busy⟩
  case build => exact turn_of_reply marks ran fun _ _ _ => effects_handleBuild
  case upload => exact turn_of_reply marks ran fun _ _ _ => effects_handleUpload
  case unload => exact turn_of_answer marks ran fun _ => effects_handleUnload rfl
  case drop => exact turn_of_answer marks ran fun _ => effects_handleDrop rfl
  case restore => exact turn_of_answer marks ran fun _ => effects_handleRestore rfl
  case checkpoint => exact turn_of_answer marks ran fun _ => effects_handleCheckpoint rfl
  case backup => exact turn_of_answer marks ran fun _ => effects_handleBackup rfl
  case «export» => exact turn_of_reply marks ran fun _ _ _ => effects_handleExport exports
  case batchInsert | batchRemove =>
    refine turn_of_reply marks ran fun may _ _ => effects_handleBatch fun name handle session
      picked filled found => ?_
    refine allowed handle _ session ?_ (Registry.database_eq_some.mp found).2
    rw [outside_requested known, routed]
    exact batch_sentBy picked found filled may
  case userCreate | userDrop | userGrant | userRevoke => exact turn_of_users marks ran
  case userPassword =>
    cases ran
    exact .calm (marks _ _) .refl
  case userShow | log | tasklist =>
    rcases guarded_cases ran with ⟨may, served⟩ | ⟨mayNot, refused⟩
    · cases served
      exact .calm (marks _ _) .refl
    · cases refused
      exact .calm (marks _ _) .refl
  case cancel =>
    split at ran
    · cases ran
      exact .calm (marks _ _) .refl
    · cases ran
      exact .calm (marks _ _) .refl

end Requests

/-- The endpoints that need no caller have nothing to do with transactions. -/
theorem unmarked_of_open {who : Option Text}
    (resolved : resolveUser host draws request s.users = some (who, users))
    (plain : route request = .login ∨ route request = .logout ∨ route request = .console)
    (answer : Dispatch Answer) (after : ApiState) :
    mark host (requested s draws io connection request answer after) = none := by
  cases who with
  | none => exact mark_of_unknown (by simp [caller, requested, resolved])
  | some user =>
    rw [mark_of_caller (caller_requested resolved)]
    rcases plain with routed | routed | routed <;> simp only [sentBy, routed]

/-- Every step is a turn. -/
theorem turn_of_step {event : Served Answer} (truthful : Truthful event.before.registry)
    (ran : step host event.before event.action = some (event.output, event.after))
    (exports : ∀ session, Allowed session exportQuery) (careful : ¬ Reloads host event)
    (allowed : ∀ handle sparql session, outside host event = some (handle, sparql) →
      event.before.registry.heap[handle]? = some session → Allowed session sparql) :
    Turn host Allowed event := by
  rcases event with ⟨s, action, output, after⟩
  dsimp only at truthful ran allowed
  cases action with
  | request draws io connection request =>
    rcases Option.map_eq_some_iff.mp ran with ⟨⟨answer, state⟩, handled, same⟩
    cases same
    rw [handle] at handled
    split at handled
    · rename_i crashed
      cases handled
      exact .calm (mark_of_unknown (by simp [caller, crashed])) .refl
    · rename_i who users resolved
      rw [dispatch] at handled
      split at handled
      · rename_i routed
        cases handled
        exact .calm (unmarked_of_open resolved (.inl routed) _ _) .refl
      · rename_i routed
        split at handled <;> cases handled <;>
          exact .calm (unmarked_of_open resolved (.inr (.inl routed)) _ _) .refl
      · rename_i routed
        cases handled
        exact .calm (unmarked_of_open resolved (.inr (.inr routed)) _ _) .refl
      · cases who with
        | none =>
          cases handled
          exact .calm (mark_of_unknown (by simp [caller, resolved])) .refl
        | some user => exact turn_of_serve resolved truthful exports careful allowed handled
  | finish connection noticed =>
    have unmarked : mark host { before := s, action := .finish connection noticed, output, after } =
        none := mark_of_unknown rfl
    rw [step] at ran
    split at ran
    · cases ran
      exact .calm unmarked .refl
    · rename_i job queued
      rcases Option.map_eq_some_iff.mp ran with ⟨⟨resp, state⟩, executed, same⟩
      cases same
      rw [executeQueryJob] at executed
      dsimp only at executed
      split at executed
      · cases executed
      · rename_i session found
        split at executed
        · cases executed
          exact .calm unmarked .refl
        · rcases Option.map_eq_some_iff.mp executed with ⟨⟨outcome, last⟩, queried, same⟩
          cases same
          refine .calm unmarked (.single (.queried job.db session last job.sparql outcome found
            (allowed job.db job.sparql session ?_ found) queried))
          rw [outside]
          dsimp only
          rw [queued]
          rfl

end Turns

/-! ## What a turn keeps -/

/-- A transaction is open on the database that its name stands for. -/
structure Tied (tid : Nat) (name : Text) (handle : Handle) (registry : Registry) : Prop where
  opened : registry.txns.lookup tid = some { db := name }
  bound : registry.dbs.lookup name = some handle
  active : ∃ session, registry.heap[handle]? = some session ∧ session.txn.isSome

section Kept

variable {host : ApiHost α Read Answer} {io : Io} {Allowed : Session → Text → Prop}
  {registry after : Registry} {event : Served Answer} {tid : Nat} {name : Text} {handle : Handle}

theorem active_hostQuery {session last : Session} {sparql : Text}
    {outcome : Except Text (QueryResult Answer)}
    (ran : host.query session sparql = some (outcome, last)) :
    last.txn.isSome = session.txn.isSome := by
  rw [ApiHost.query] at ran
  split at ran
  · cases ran
    rfl
  · cases ran
    rfl
  · rcases Option.map_eq_some_iff.mp ran with ⟨⟨answered, state⟩, queried, same⟩
    cases same
    exact Session.active_query queried

theorem Effect.truthful (effect : Effect host io Allowed registry after)
    (truthful : Truthful registry) : Truthful after := by
  cases effect with
  | wrote disk written => exact truthful.withDisk disk
  | installed name session disk free origin idle written =>
    exact (truthful.install free idle).withDisk disk
  | removed name disk free written => exact (truthful.remove free).withDisk disk
  | inserted name handle session last triples count free found ran =>
    exact truthful.put (Registry.database_eq_some.mp found).2 (Session.active_insertAll _ ran)
  | queried handle session last sparql outcome found allowed ran =>
    exact truthful.put found (active_hostQuery ran)

theorem Effects.truthful (effects : Effects host io Allowed registry after)
    (truthful : Truthful registry) : Truthful after := by
  induction effects with
  | refl => exact truthful
  | tail _ effect induction => exact effect.truthful induction

theorem Turn.truthful (turn : Turn host Allowed event) (truthful : Truthful event.before.registry) :
    Truthful event.after.registry := by
  cases turn with
  | calm unmarked effects => exact effects.truthful truthful
  | begun tid name handle session marked fresh found free closed after =>
    rw [after]
    exact truthful.begin fresh found free (by rw [Session.begin, closed]; rfl)
  | stated tid name sparql handle session last outcome marked opened found ran answered after =>
    rw [after]
    exact truthful.put (Registry.database_eq_some.mp found).2 (active_hostQuery ran)
  | ended tid commit name handle session marked opened found active answered after =>
    rw [after]
    exact truthful.finish opened found (endTxn_spec commit active).2

/-- A database changes, and not whether it is in a transaction. -/
theorem Tied.put (tied : Tied tid name handle registry) {other : Handle} {session last : Session}
    (found : registry.heap[other]? = some session) (still : last.txn.isSome = session.txn.isSome) :
    Tied tid name handle (registry.put other last) where
  opened := tied.opened
  bound := tied.bound
  active := by
    rcases tied.active with ⟨held, read, active⟩
    by_cases same : handle = other
    · subst same
      rw [found] at read
      cases read
      exact ⟨last, Registry.getElem?_put_self found, still ▸ active⟩
    · exact ⟨held, (Registry.getElem?_put_of_ne same).trans read, active⟩

/-- A name that no transaction holds is another one. -/
theorem Tied.name_ne (tied : Tied tid name handle registry) (truthful : Truthful registry)
    {other : Text} (free : registry.dbTxn.lookup other = none) : name ≠ other := by
  intro same
  have named := (truthful.inverse tid name).mp tied.opened
  rw [same, free] at named
  cases named

/-- Transactions of different ids are on databases of different names. -/
theorem Tied.name_ne_of_id (tied : Tied tid name handle registry) (truthful : Truthful registry)
    {other : Nat} {target : Text} (opened : registry.txns.lookup other = some { db := target })
    (different : tid ≠ other) : name ≠ target := by
  intro same
  have named := (truthful.inverse tid name).mp tied.opened
  have alsoNamed := (truthful.inverse other target).mp opened
  rw [← same, named] at alsoNamed
  exact different (Option.some.inj alsoNamed)

/-- Databases of different names have different handles. -/
theorem Tied.handle_ne (tied : Tied tid name handle registry) (truthful : Truthful registry)
    {other : Text} {target : Handle} {session : Session}
    (found : registry.database other = some (target, session)) (different : name ≠ other) :
    handle ≠ target := by
  intro same
  have bound := (Registry.database_eq_some.mp found).1
  exact different (truthful.apart name other handle tied.bound (same ▸ bound))

theorem Effect.tied (effect : Effect host io Allowed registry after) (truthful : Truthful registry)
    (tied : Tied tid name handle registry) : Tied tid name handle after := by
  cases effect with
  | wrote disk written => exact ⟨tied.opened, tied.bound, tied.active⟩
  | installed other session disk free origin idle written =>
    rcases tied.active with ⟨held, read, active⟩
    refine ⟨tied.opened, ?_, held, ?_, active⟩
    · change (assocInsert other registry.heap.length registry.dbs).lookup name = some handle
      rw [lookup_assocInsert, beq_false_of_ne (tied.name_ne truthful free)]
      exact tied.bound
    · change (registry.install other session).heap[handle]? = some held
      rw [Registry.getElem?_install_of_lt (Registry.lt_length read), read]
  | removed other disk free written =>
    refine ⟨tied.opened, ?_, tied.active⟩
    change (assocErase other registry.dbs).lookup name = some handle
    rw [lookup_assocErase, beq_false_of_ne (tied.name_ne truthful free)]
    exact tied.bound
  | inserted other target session last triples count free found ran =>
    exact tied.put (Registry.database_eq_some.mp found).2 (Session.active_insertAll _ ran)
  | queried target session last sparql outcome found allowed ran =>
    exact tied.put found (active_hostQuery ran)

theorem Effects.tied (effects : Effects host io Allowed registry after)
    (truthful : Truthful registry) (tied : Tied tid name handle registry) :
    Tied tid name handle after := by
  induction effects with
  | refl => exact tied
  | tail earlier effect induction => exact effect.tied (Effects.truthful earlier truthful) induction

/-- An open transaction stays open where it is until an event ends it. -/
theorem Turn.tied (turn : Turn host Allowed event) (truthful : Truthful event.before.registry)
    (tied : Tied tid name handle event.before.registry)
    (stays : ∀ commit, mark host event ≠ some (.ended tid commit)) :
    Tied tid name handle event.after.registry := by
  rcases tied.active with ⟨held, read, active⟩
  cases turn with
  | calm unmarked effects => exact effects.tied truthful tied
  | begun other target otherHandle session marked fresh found free closed after =>
    have differentId : tid ≠ other := fun same => by
      rw [← same, tied.opened] at fresh
      cases fresh
    have differentName := tied.name_ne truthful free
    rw [after]
    refine ⟨?_, tied.bound, held, ?_, active⟩
    · change (assocInsert other { db := target } event.before.registry.txns).lookup tid = _
      rw [lookup_assocInsert, beq_false_of_ne differentId]
      exact tied.opened
    · exact (Registry.getElem?_put_of_ne (tied.handle_ne truthful found differentName)).trans read
  | stated other target sparql otherHandle session last outcome marked opened found ran answered
      after =>
      rw [after]
      exact tied.put (Registry.database_eq_some.mp found).2 (active_hostQuery ran)
  | ended other commit target otherHandle session marked opened found active' answered after =>
    have differentId : tid ≠ other := fun same => stays commit (same ▸ marked)
    have differentName := tied.name_ne_of_id truthful opened differentId
    rw [after]
    refine ⟨?_, tied.bound, held, ?_, active⟩
    · change (assocErase other event.before.registry.txns).lookup tid = _
      rw [lookup_assocErase, beq_false_of_ne differentId]
      exact tied.opened
    · exact (Registry.getElem?_put_of_ne (tied.handle_ne truthful found differentName)).trans read

end Kept

end GStore.Http
