import GStore.Http.QueryOnly
import GStore.Http.Settled

/-! # Users who only query

What a user without other privileges than to query and to export does leaves the databases, the
transactions and the other users as they are: a run without the requests of such a user ends
with the same. -/

namespace GStore.Http

open Db Reason

variable {α Read Answer : Type}

/-- What a user may at most do. -/
def Limited (user : Text) (users : UserStore) : Prop :=
  ∀ privilege, users.hasPriv user privilege = true → privilege = .query ∨ privilege = .export

/-- The deferred update of a connection. -/
def pendingUpdate (host : ApiHost α Read Answer) (jobs : List (Nat × QueryJob)) (connection : Nat) :
    Option (Handle × Text) :=
  ((jobs.lookup connection).filter fun job => host.isUpdateSparql job.sparql).map fun job =>
    (job.db, job.sparql)

/-- States that agree on all that the user cannot change. -/
structure Alike (host : ApiHost α Read Answer) (user : Text) (left right : ApiState) : Prop where
  registry : left.registry = right.registry
  users : AlikeUsers user left.users right.users
  jobs : ∀ connection, pendingUpdate host left.jobs connection =
    pendingUpdate host right.jobs connection

section Alike

variable {host : ApiHost α Read Answer} {draws : Draws} {io : Io} {connection : Nat}
  {request : Request} {user caller sparql : Text} {left middle right s : ApiState}

theorem Alike.refl (host : ApiHost α Read Answer) (user : Text) (s : ApiState) :
    Alike host user s s :=
  ⟨rfl, .refl user s.users, fun _ => rfl⟩

theorem Alike.symm (alike : Alike host user left right) : Alike host user right left :=
  ⟨alike.registry.symm, alike.users.symm, fun connection => (alike.jobs connection).symm⟩

theorem Alike.trans (first : Alike host user left middle) (second : Alike host user middle right) :
    Alike host user left right :=
  ⟨first.registry.trans second.registry, first.users.trans second.users,
    fun connection => (first.jobs connection).trans (second.jobs connection)⟩

/-! ### Reading -/

/-- A text that is no update leaves the database, whatever it answers. -/
theorem query_of_read (reads : host.isUpdateSparql sparql = false) (session : Session) :
    ∃ outcome, host.query session sparql = some (outcome, session) := by
  rw [ApiHost.query]
  rw [ApiHost.isUpdateSparql] at reads
  split
  · exact ⟨_, rfl⟩
  · exact ⟨_, rfl⟩
  · rename_i ops parsed
    rw [parsed] at reads
    cases reads

theorem put_same {registry : Registry} {handle : Handle} {session : Session}
    (found : registry.heap[handle]? = some session) : registry.put handle session = registry := by
  have same : registry.heap.set handle session = registry.heap := by
    apply List.ext_getElem?
    intro other
    rw [List.getElem?_set]
    split
    · rename_i equal
      rw [← equal, found]
      split
      · rfl
      · rename_i outside
        exact absurd (Registry.lt_length found) outside
    · rfl
  rw [Registry.put, same]

theorem isUpdate_export : host.isUpdateSparql exportQuery = false := by
  rw [ApiHost.isUpdateSparql]
  split
  · rename_i ops parsed
    exact absurd parsed (host.exports ops)
  · rfl

/-! ### The user's own requests -/

theorem guarded_refused {privilege : Privilege} (limited : Limited user s.users)
    (other : privilege ≠ .query ∧ privilege ≠ .export)
    (serve : Option (Dispatch Answer × ApiState)) :
    guarded user s privilege serve = some (.done forbidden, s) := by
  rw [guarded, if_neg]
  intro may
  rcases limited privilege may with same | same
  · exact other.1 same
  · exact other.2 same

theorem pendingUpdate_insert {jobs : List (Nat × QueryJob)} {job : QueryJob}
    (idle : pendingUpdate host jobs connection = none)
    (reads : host.isUpdateSparql job.sparql = false) (other : Nat) :
    pendingUpdate host (assocInsert connection job jobs) other = pendingUpdate host jobs other := by
  by_cases same : other = connection
  · rw [same, idle, pendingUpdate, lookup_assocInsert, beq_self_eq_true, if_pos rfl,
      Option.filter_some_neg (by simp [reads])]
    rfl
  · rw [pendingUpdate, pendingUpdate, lookup_assocInsert, beq_false_of_ne same,
      if_neg Bool.false_ne_true]

theorem alike_runQuery (idle : pendingUpdate host s.jobs connection = none)
    (reads : host.isUpdateSparql sparql = false) (name : Text) :
    Alike host user (runQuery draws connection user s name sparql : Dispatch Answer × ApiState).2 s := by
  rw [runQuery]
  split
  · exact .refl host user s
  · exact ⟨rfl, .refl user s.users, pendingUpdate_insert idle reads⟩

theorem reads_of_limited (limited : Limited user s.users)
    (may : s.users.hasPriv user (needed host sparql) = true) :
    host.isUpdateSparql sparql = false := by
  refine eq_false_of_ne_true fun updates => ?_
  rw [needed, if_pos updates] at may
  rcases limited .update may with same | same <;> cases same

theorem alike_handleQuery (limited : Limited user s.users)
    (idle : pendingUpdate host s.jobs connection = none) :
    Alike host user (handleQuery host draws connection request user s).2 s := by
  rw [handleQuery]
  split
  · exact .refl host user s
  · split
    · rename_i may
      split
      · exact .refl host user s
      · exact alike_runQuery idle (reads_of_limited limited may) _
    · exact .refl host user s

theorem handleTquery_limited (host : ApiHost α Read Answer) (request : Request)
    (limited : Limited user s.users) :
    ∃ resp, handleTquery host request user s = some (resp, s.registry) := by
  rw [handleTquery]
  split
  · exact ⟨_, rfl⟩
  · split
    · exact ⟨_, rfl⟩
    · split
      · exact ⟨_, rfl⟩
      · rename_i txn looked text said
        split
        · rename_i may
          rw [Registry.runInTxn]
          split
          · exact ⟨_, rfl⟩
          · rename_i handle session found
            rcases query_of_read (reads_of_limited limited may) session with ⟨outcome, ran⟩
            rw [ran, Option.map_some]
            dsimp only
            rw [put_same (Registry.database_eq_some.mp found).2]
            exact ⟨_, rfl⟩
        · exact ⟨_, rfl⟩

theorem handleExport_reads (host : ApiHost α Read Answer) (request : Request) (registry : Registry) :
    ∃ resp, registry.handleExport host request = some (resp, registry) := by
  rw [Registry.handleExport]
  split
  · exact ⟨_, rfl⟩
  · split
    · exact ⟨_, rfl⟩
    · rename_i handle session found
      rcases query_of_read isUpdate_export session with ⟨outcome, ran⟩
      rw [ran, Option.map_some]
      dsimp only
      rw [put_same (Registry.database_eq_some.mp found).2]
      exact ⟨_, rfl⟩

theorem alike_handleUserPassword (limited : Limited user s.users) :
    AlikeUsers user (handleUserPassword host draws request s.users user).2 s.users := by
  rw [handleUserPassword]
  split
  · exact .refl user s.users
  · rename_i password given
    have plain : s.users.hasPriv user .admin = false := by
      refine eq_false_of_ne_true fun admin => ?_
      rcases limited .admin admin with same | same <;> cases same
    split
    · exact .refl user s.users
    · rename_i own
      have target : passwordTarget request user = user := by
        by_contra other
        exact own ⟨other, plain⟩
      have changed := (AlikeUsers.refl user s.users).setPassword_left host.hashPassword draws password
      rw [target, settled_users]
      exact changed

/-- Whatever the user asks for leaves all that others see. -/
theorem serve_limited (limited : Limited user s.users)
    (idle : pendingUpdate host s.jobs connection = none) (endpoint : Endpoint) :
    ∃ answer after, serve host draws io connection request user s endpoint = some (answer, after) ∧
      Alike host user after s := by
  have refused : ∀ privilege (served : Option (Dispatch Answer × ApiState)),
      privilege ≠ .query ∧ privilege ≠ .export →
        ∃ answer after, guarded user s privilege served = some (answer, after) ∧
        Alike host user after s := fun privilege served other =>
    ⟨_, s, guarded_refused limited other served, .refl host user s⟩
  cases endpoint with
  | login | logout | console | unknown | monitoring => exact ⟨_, s, rfl, .refl host user s⟩
  | sparql => exact ⟨_, _, rfl, alike_handleQuery limited idle⟩
  | tquery =>
    rcases handleTquery_limited host request limited with ⟨resp, ran⟩
    refine ⟨.done resp, s, ?_, .refl host user s⟩
    rw [serve, ran]
    rfl
  | «export» =>
    rw [serve, guarded]
    split
    · rcases handleExport_reads host request s.registry with ⟨resp, ran⟩
      rw [ran]
      exact ⟨_, s, rfl, .refl host user s⟩
    · exact ⟨_, s, rfl, .refl host user s⟩
  | userPassword => exact ⟨_, _, rfl, rfl, alike_handleUserPassword limited, fun _ => rfl⟩
  | cancel =>
    have admin : s.users.hasPriv user .admin = false :=
      eq_false_of_ne_true fun may => by rcases limited .admin may with same | same <;> cases same
    have update : s.users.hasPriv user .update = false :=
      eq_false_of_ne_true fun may => by rcases limited .update may with same | same <;> cases same
    rw [serve, admin, update]
    exact ⟨_, s, rfl, .refl host user s⟩
  | _ => exact refused _ _ (by decide)

/-! ### Requests of others -/

/-- A login on both sides draws a token that is no other user's. -/
theorem alike_handleLogin {first second : UserStore} (alike : AlikeUsers user first second)
    (spare : ∀ session, first.sessions.lookup draws.token = some session → session.user = user) :
    AlikeUsers user (handleLogin host draws request first).2
      (handleLogin host draws request second).2 := by
  cases named : request.param "username" with
  | none =>
    rw [handleLogin_missing (.inl named), handleLogin_missing (.inl named)]
    exact alike
  | some name =>
    cases given : request.param "password" with
    | none =>
      rw [handleLogin_missing (.inr given), handleLogin_missing (.inr given)]
      exact alike
    | some password =>
      rw [handleLogin_given named given, handleLogin_given named given]
      exact alike.login host.hashPassword draws name password spare (own_right alike spare)

/-- The user's own login on one side. -/
theorem handleLogin_own {users : UserStore}
    (own : ∀ name, request.param "username" = some name → name = user)
    (spare : ∀ session, users.sessions.lookup draws.token = some session → session.user = user) :
    AlikeUsers user (handleLogin host draws request users).2 users := by
  cases named : request.param "username" with
  | none =>
    rw [handleLogin_missing (.inl named)]
    exact .refl user users
  | some name =>
    cases given : request.param "password" with
    | none =>
      rw [handleLogin_missing (.inr given)]
      exact .refl user users
    | some password =>
      rw [handleLogin_given named given, own name named]
      exact (AlikeUsers.refl user users).login_left host.hashPassword draws password spare

section Both

variable {first second : UserStore} (alike : AlikeUsers user first second)

include alike

theorem alike_handleUserCreate : AlikeUsers user (handleUserCreate host draws request first).2
    (handleUserCreate host draws request second).2 := by
  rw [handleUserCreate, handleUserCreate]
  split
  · split
    · exact alike
    · rw [settled_users, settled_users]
      exact alike.add host.hashPassword draws _ _ _
  · exact alike

theorem alike_handleUserDrop (firstNodup : (first.sessions.map Prod.fst).Nodup)
    (secondNodup : (second.sessions.map Prod.fst).Nodup) :
    AlikeUsers user (handleUserDrop draws request first : Resp Answer × UserStore).2
      (handleUserDrop draws request second : Resp Answer × UserStore).2 := by
  rw [handleUserDrop, handleUserDrop]
  split
  · exact alike
  · rw [settled_users, settled_users]
    exact alike.dropUser firstNodup secondNodup draws _

theorem alike_userPassword (caller : Text) :
    AlikeUsers user (handleUserPassword host draws request first caller).2
      (handleUserPassword host draws request second caller).2 := by
  rw [handleUserPassword, handleUserPassword]
  split
  · exact alike
  · rw [alike.hasPriv]
    split
    · exact alike
    · rw [settled_users, settled_users]
      exact alike.setPassword host.hashPassword draws _ _

theorem alike_handleUserGrant (grant : Bool) :
    AlikeUsers user (handleUserGrant draws request first grant : Resp Answer × UserStore).2
      (handleUserGrant draws request second grant : Resp Answer × UserStore).2 := by
  rw [handleUserGrant, handleUserGrant]
  split
  · exact alike
  · split
    · rw [settled_users, settled_users]
      exact alike.modifyPrivs draws _ _
    · split
      · exact alike
      · split
        · exact alike
        · rw [settled_users, settled_users]
          cases grant with
          | true =>
            rw [if_pos rfl, if_pos rfl]
            exact alike.modifyPrivs draws _ _
          | false =>
            rw [if_neg Bool.false_ne_true, if_neg Bool.false_ne_true]
            exact alike.modifyPrivs draws _ _

end Both

/-- Deferred queries with the same text for the same database. -/
theorem pendingUpdate_both {first second : List (Nat × QueryJob)} {here there : QueryJob}
    (same : here.db = there.db ∧ here.sparql = there.sparql)
    (jobs : ∀ connection, pendingUpdate host first connection = pendingUpdate host second connection)
    (other : Nat) : pendingUpdate host (assocInsert connection here first) other =
      pendingUpdate host (assocInsert connection there second) other := by
  by_cases equal : other = connection
  · rw [equal, pendingUpdate, pendingUpdate, lookup_assocInsert, lookup_assocInsert,
      beq_self_eq_true, if_pos rfl, if_pos rfl, Option.filter_some, Option.filter_some, same.2]
    split
    · rw [Option.map_some, Option.map_some, same.1, same.2]
    · rfl
  · have kept := jobs other
    rw [pendingUpdate, pendingUpdate] at kept ⊢
    rw [lookup_assocInsert, lookup_assocInsert, beq_false_of_ne equal, if_neg Bool.false_ne_true,
      if_neg Bool.false_ne_true]
    exact kept

theorem runQuery_both (alike : Alike host user left right) (name : Text) :
    Alike host user (runQuery draws connection caller left name sparql : Dispatch Answer × ApiState).2
      (runQuery draws connection caller right name sparql : Dispatch Answer × ApiState).2 := by
  rw [runQuery, runQuery, ← alike.registry]
  split
  · exact alike
  · exact ⟨rfl, alike.users, pendingUpdate_both ⟨rfl, rfl⟩ alike.jobs⟩

theorem handleQuery_both (alike : Alike host user left right) :
    Alike host user (handleQuery host draws connection request caller left).2
      (handleQuery host draws connection request caller right).2 := by
  rw [handleQuery, handleQuery]
  split
  · exact alike
  · rw [alike.users.hasPriv]
    split
    · rw [← alike.registry]
      split
      · exact alike
      · exact runQuery_both alike _
    · exact alike

theorem handleUpdate_both (alike : Alike host user left right) :
    Alike host user (handleUpdate draws connection request caller left : Dispatch Answer × ApiState).2
      (handleUpdate draws connection request caller right : Dispatch Answer × ApiState).2 := by
  rw [handleUpdate, handleUpdate]
  split
  · exact alike
  · rw [← alike.registry]
    split
    · exact alike
    · exact runQuery_both alike _

theorem handleTquery_both (alike : Alike host user left right) :
    handleTquery host request caller left = handleTquery host request caller right := by
  simp only [handleTquery, alike.registry, alike.users.hasPriv]

/-! ### Serving on both sides -/

/-- What happens on one side happens on the other. -/
def Follows (host : ApiHost α Read Answer) (user : Text)
    (first second : Option (Dispatch Answer × ApiState)) : Prop :=
  ∀ answer after, first = some (answer, after) → ∃ also last, second = some (also, last) ∧
    Alike host user after last

theorem Follows.of_some {first second : Dispatch Answer × ApiState}
    (alike : Alike host user first.2 second.2) : Follows host user (some first) (some second) := by
  intro answer after same
  cases same
  exact ⟨second.1, second.2, rfl, alike⟩

theorem Follows.guarded (alike : Alike host user left right) {privilege : Privilege}
    {first second : Option (Dispatch Answer × ApiState)} (follows : Follows host user first second) :
    Follows host user (guarded caller left privilege first)
      (guarded caller right privilege second) := by
  rw [Http.guarded, Http.guarded, alike.users.hasPriv]
  split
  · exact follows
  · exact .of_some alike

theorem Follows.onRegistry (alike : Alike host user left right) (reply : Option (Reply Answer)) :
    Follows host user (reply.map (onRegistry left)) (reply.map (onRegistry right)) := by
  cases reply with
  | none =>
    intro answer after ran
    cases ran
  | some reply => exact .of_some ⟨rfl, alike.users, alike.jobs⟩

theorem Follows.onUsers (alike : Alike host user left right) {first second : Resp Answer × UserStore}
    (same : AlikeUsers user first.2 second.2) :
    Follows host user (some (onUsers left first)) (some (onUsers right second)) :=
  .of_some ⟨alike.registry, same, alike.jobs⟩

theorem serve_both (alike : Alike host user left right)
    (leftNodup : (left.users.sessions.map Prod.fst).Nodup)
    (rightNodup : (right.users.sessions.map Prod.fst).Nodup) (endpoint : Endpoint) :
    Follows host user (serve host draws io connection request caller left endpoint)
      (serve host draws io connection request caller right endpoint) := by
  cases endpoint with
  | login | logout | console | unknown | monitoring => exact .of_some alike
  | sparql => exact .of_some (handleQuery_both alike)
  | update => exact .guarded alike (.of_some (handleUpdate_both alike))
  | tquery =>
    rw [serve, serve, handleTquery_both alike]
    exact .onRegistry alike _
  | userCreate => exact .guarded alike (.onUsers alike (alike_handleUserCreate alike.users))
  | userDrop =>
    exact .guarded alike
      (.onUsers alike (alike_handleUserDrop alike.users leftNodup rightNodup))
  | userPassword => exact .onUsers alike (alike_userPassword alike.users caller)
  | userGrant => exact .guarded alike (.onUsers alike (alike_handleUserGrant alike.users true))
  | userRevoke => exact .guarded alike (.onUsers alike (alike_handleUserGrant alike.users false))
  | userShow | log | tasklist => exact .guarded alike (.of_some alike)
  | cancel =>
    rw [serve, serve, alike.users.hasPriv, alike.users.hasPriv]
    split
    · exact .of_some ⟨alike.registry, alike.users, alike.jobs⟩
    · exact .of_some alike
  | build | upload | «export» | batchInsert | batchRemove =>
    rw [serve, serve, alike.registry]
    exact .guarded alike (.onRegistry alike _)
  | _ =>
    rw [serve, serve, alike.registry]
    exact .guarded alike (.onRegistry alike (some _))

end Alike

/-! ## Steps of two runs -/

section Steps

variable {host : ApiHost α Read Answer} {draws : Draws} {io : Io} {connection : Nat}
  {request : Request} {user : Text} {left right s after : ApiState} {answer : Dispatch Answer}

/-- The user's own request, at every endpoint. -/
theorem dispatch_own (draws : Draws) (io : Io) (request : Request) (limited : Limited user s.users)
    (idle : pendingUpdate host s.jobs connection = none)
    (own : ∀ name, route request = .login → request.param "username" = some name → name = user)
    (spare : route request = .login → ∀ session,
      s.users.sessions.lookup draws.token = some session → session.user = user)
    (tokens : ∀ token session, request.bearerOrSessionToken = some (some token) →
      s.users.sessions.lookup token = some session → session.user = user) :
    ∃ answer after, dispatch host draws io connection request s (some user) = some (answer, after) ∧
      Alike host user after s := by
  rw [dispatch]
  split
  · rename_i routed
    exact ⟨_, _, rfl, rfl, handleLogin_own (own · routed) (spare routed), fun _ => rfl⟩
  · rw [handleLogout]
    cases bearer : request.bearerOrSessionToken with
    | none => exact ⟨_, s, rfl, .refl host user s⟩
    | some presented =>
      cases presented with
      | none => exact ⟨_, _, rfl, .refl host user s⟩
      | some token =>
        have forgot := (AlikeUsers.refl user s.users).forget_own (fun session =>
          tokens token session bearer)
        exact ⟨_, _, rfl, rfl, forgot, fun _ => rfl⟩
  · exact ⟨_, s, rfl, .refl host user s⟩
  · exact serve_limited limited idle _

/-- The arms of `dispatch` behind the login. -/
def inside (host : ApiHost α Read Answer) (draws : Draws) (io : Io) (connection : Nat)
    (request : Request) (s : ApiState) (who : Option Text) : Option (Dispatch Answer × ApiState) :=
  match who with
  | none => some (.done unauthorized, s)
  | some caller => serve host draws io connection request caller s (route request)

/-- The endpoints that need no caller do the same on both sides. -/
theorem dispatch_follows (alike : Alike host user left right)
    (fresh : route request = .login → left.users.sessions.lookup draws.token = none)
    {who also : Option Text} (follows : Follows host user
      (inside host draws io connection request left who)
      (inside host draws io connection request right also)) :
    Follows host user (dispatch host draws io connection request left who)
      (dispatch host draws io connection request right also) := by
  rw [dispatch, dispatch]
  split
  · rename_i routed
    refine .onUsers alike (alike_handleLogin alike.users fun session found => ?_)
    rw [fresh routed] at found
    cases found
  · rw [handleLogout, handleLogout]
    cases bearer : request.bearerOrSessionToken with
    | none => exact .of_some alike
    | some presented =>
      cases presented with
      | none => exact .onUsers alike alike.users
      | some token => exact .onUsers alike (alike.users.forget token)
  · exact .of_some alike
  · exact follows

/-- A request with the same caller on both sides. -/
theorem inside_both (alike : Alike host user left right)
    (leftNodup : (left.users.sessions.map Prod.fst).Nodup)
    (rightNodup : (right.users.sessions.map Prod.fst).Nodup) (who : Option Text) :
    Follows host user (inside host draws io connection request left who)
      (inside host draws io connection request right who) := by
  cases who with
  | none => exact .of_some alike
  | some caller => exact serve_both alike leftNodup rightNodup _

/-- A request without a caller on one side and of the user on the other. -/
theorem inside_nobody (alike : Alike host user left right) (limited : Limited user right.users)
    (idle : pendingUpdate host right.jobs connection = none) :
    Follows host user (inside host draws io connection request left none)
      (inside host draws io connection request right (some user)) := by
  intro answer after same
  cases same
  rcases serve_limited limited idle (route request) with ⟨also, last, served, kept⟩
  exact ⟨also, last, served, alike.trans kept.symm⟩

/-! ### Conditions -/

/-- No request mixes the user's credentials with those of another user. -/
structure Unmixed (host : ApiHost α Read Answer) (user : Text) (draws : Draws) (request : Request)
    (users : UserStore) : Prop where
  /-- The Basic credentials of the user, with the session of another one. -/
  token : NoMixedToken user request users
  /-- A login as another user, with the Basic credentials or a session of the user. -/
  login : ∀ name, route request = .login → request.param "username" = some name →
    (∃ password, request.parseBasicAuth = some (some (user, password))) ∨
      (∃ after, resolveUser host draws request users = some (some user, after)) → name = user

/-- A connection carries one request, and a login draws a token that is in no use. -/
structure Fresh (s : ApiState) (draws : Draws) (connection : Nat) (request : Request) : Prop where
  connection : s.jobs.lookup connection = none
  token : route request = .login → s.users.sessions.lookup draws.token = none

/-- No session is found under a fresh token, whatever is said of it. -/
theorem Fresh.spare (fresh : Fresh s draws connection request) (routed : route request = .login)
    (session : LoginSession) (found : s.users.sessions.lookup draws.token = some session) :
    session.user = user := by
  rw [fresh.token routed] at found
  cases found

theorem idle_of_fresh (fresh : Fresh left draws connection request)
    (alike : Alike host user left right) : pendingUpdate host right.jobs connection = none := by
  rw [← alike.jobs connection, pendingUpdate, fresh.connection]
  rfl

theorem Limited.alike {first second : UserStore} (limited : Limited user first)
    (alike : AlikeUsers user first second) : Limited user second := by
  intro privilege may
  exact limited privilege (by rw [alike.hasPriv]; exact may)

/-- The user's own request leaves what others see. -/
theorem handle_own {resolved : UserStore}
    (known : resolveUser host draws request s.users = some (some user, resolved))
    (limited : Limited user s.users) (unmixed : Unmixed host user draws request s.users)
    (fresh : Fresh s draws connection request)
    (ran : handle host draws io connection request s = some (answer, after)) :
    Alike host user after s := by
  rcases resolveUser_mine known unmixed.token with ⟨same, tokens⟩
  rw [same] at known
  rw [handle, known] at ran
  dsimp only at ran
  have idle : pendingUpdate host s.jobs connection = none := by
    rw [pendingUpdate, fresh.connection]
    rfl
  rcases dispatch_own draws io request limited idle (fun name routed named =>
    unmixed.login name routed named (.inr ⟨s.users, known⟩)) fresh.spare tokens
    with ⟨also, last, dispatched, kept⟩
  rw [dispatched] at ran
  cases ran
  exact kept

/-- A request that is not the user's does the same on both sides. -/
theorem handle_other (alike : Alike host user left right) (leftSettled : Settled left)
    (rightSettled : Settled right) (limited : Limited user left.users)
    (unmixed : Unmixed host user draws request left.users)
    (fresh : Fresh left draws connection request)
    (notMine : ∀ users, resolveUser host draws request left.users ≠ some (some user, users)) :
    Follows host user (handle host draws io connection request left)
      (handle host draws io connection request right) := by
  have idle := idle_of_fresh fresh alike
  have also := limited.alike alike.users
  rcases resolveUser_other alike.users unmixed.token notMine
    with ⟨crashed, second⟩ | ⟨who, first, other, second, here, there, kept, callers⟩
  · rw [handle, handle, crashed]
    rcases second with crashes | mine
    · rw [crashes]
      exact .of_some alike
    · rcases mine with ⟨mine, ⟨password, basic⟩, bearer⟩
      rw [mine]
      intro answer after same
      cases same
      rcases dispatch_own draws io request also idle
        (fun name routed named => unmixed.login name routed named (.inl ⟨password, basic⟩))
        (fun routed => own_right alike.users (fresh.spare routed))
        (fun token session presented => by rw [bearer] at presented; cases presented)
        with ⟨reply, last, dispatched, kept⟩
      exact ⟨reply, last, dispatched, alike.trans kept.symm⟩
  · rw [handle, handle, here, there]
    dsimp only
    have known : Alike host user { left with users := first } { right with users := second } :=
      ⟨alike.registry, kept, alike.jobs⟩
    refine dispatch_follows known (fun routed => lookup_resolved here (fresh.token routed)) ?_
    rcases callers with same | ⟨nobody, mine⟩
    · rw [same]
      exact inside_both known (nodup_resolveUser here leftSettled.sessions)
        (nodup_resolveUser there rightSettled.sessions) who
    · rw [nobody, mine]
      refine inside_nobody known (fun privilege may => ?_) idle
      rw [hasPriv_resolved there] at may
      exact also privilege may

/-! ### Deferred queries -/

theorem pendingUpdate_erase (jobs : List (Nat × QueryJob)) (connection other : Nat) :
    pendingUpdate host (assocErase connection jobs) other =
      if other == connection then none else pendingUpdate host jobs other := by
  rw [pendingUpdate, pendingUpdate, lookup_assocErase]
  split <;> rfl

theorem pendingUpdate_eq_some {jobs : List (Nat × QueryJob)} {db : Handle} {sparql : Text}
    (pending : pendingUpdate host jobs connection = some (db, sparql)) :
    ∃ job, jobs.lookup connection = some job ∧ job.db = db ∧ job.sparql = sparql ∧
      host.isUpdateSparql sparql = true := by
  rcases Option.map_eq_some_iff.mp pending with ⟨job, kept, same⟩
  cases same
  rcases Option.filter_eq_some_iff.mp kept with ⟨queued, updates⟩
  exact ⟨job, queued, rfl, rfl, updates⟩

/-- A connection without a deferred update changes nothing. -/
theorem finish_read (settled : Settled s) (idle : pendingUpdate host s.jobs connection = none)
    (user : Text) (noticed : Bool) : ∃ output next,
      step host s (.finish connection noticed) = some (output, next) ∧ Alike host user next s := by
  cases queued : s.jobs.lookup connection with
  | none => exact ⟨none, s, by rw [step, queued], .refl host user s⟩
  | some job =>
    have reads : host.isUpdateSparql job.sparql = false := by
      refine eq_false_of_ne_true fun updates => ?_
      rw [pendingUpdate, queued, Option.filter_some, if_pos updates] at idle
      cases idle
    have bound := settled.jobs connection job queued
    have found := List.getElem?_eq_getElem bound
    rcases query_of_read reads s.registry.heap[job.db] with ⟨outcome, ran⟩
    have erased : ∀ other, pendingUpdate host (assocErase connection s.jobs) other =
        pendingUpdate host s.jobs other := by
      intro other
      rw [pendingUpdate_erase]
      split
      · rename_i same
        rw [eq_of_beq same, idle]
      · rfl
    rw [step, queued]
    dsimp only
    rw [executeQueryJob]
    dsimp only
    rw [found]
    dsimp only
    split
    · exact ⟨_, _, rfl, rfl, .refl user s.users, erased⟩
    · rw [ran, Option.map_some]
      exact ⟨_, _, rfl, put_same found, .refl user s.users, erased⟩

/-- A deferred update does the same on both sides. -/
theorem finish_update (alike : Alike host user left right) {db : Handle} {sparql : Text}
    (pending : pendingUpdate host left.jobs connection = some (db, sparql)) {noticed : Bool}
    {output : Option (Dispatch Answer)}
    (ran : step host left (.finish connection noticed) = some (output, after)) :
    ∃ output next, step host right (.finish connection noticed) = some (output, next) ∧
      Alike host user after next := by
  have also := pending
  rw [alike.jobs connection] at also
  rcases pendingUpdate_eq_some pending with ⟨here, queued, rfl, rfl, updates⟩
  rcases pendingUpdate_eq_some also with ⟨there, other, sameDb, sameText, -⟩
  have jobs : ∀ connection',
      pendingUpdate host (assocErase connection left.jobs) connection' =
        pendingUpdate host (assocErase connection right.jobs) connection' := by
    intro connection'
    rw [pendingUpdate_erase, pendingUpdate_erase, alike.jobs connection']
  rw [step, queued] at ran
  rw [step, other]
  dsimp only at ran ⊢
  rw [executeQueryJob] at ran ⊢
  dsimp only at ran ⊢
  rw [sameDb, sameText, ← alike.registry]
  rw [updates, Bool.not_true, Bool.and_false] at ran ⊢
  cases found : left.registry.heap[here.db]? with
  | none =>
    rw [found] at ran
    cases ran
  | some session =>
    rw [found] at ran
    dsimp only at ran ⊢
    rw [if_neg Bool.false_ne_true] at ran ⊢
    rcases Option.map_eq_some_iff.mp ran with ⟨⟨resp, last⟩, executed, same⟩
    cases same
    rcases Option.map_eq_some_iff.mp executed with ⟨answered, queried, same⟩
    cases same
    rw [queried]
    exact ⟨_, _, rfl, rfl, alike.users, jobs⟩

theorem finish_both (alike : Alike host user left right) (leftSettled : Settled left)
    (rightSettled : Settled right) {noticed : Bool} {output : Option (Dispatch Answer)}
    (ran : step host left (.finish connection noticed) = some (output, after)) :
    ∃ output next, step host right (.finish connection noticed) = some (output, next) ∧
      Alike host user after next := by
  cases pending : pendingUpdate host left.jobs connection with
  | some job => exact finish_update alike pending ran
  | none =>
    rcases finish_read leftSettled pending user noticed with ⟨answer, last, read, kept⟩
    rw [read] at ran
    cases ran
    rw [alike.jobs connection] at pending
    rcases finish_read rightSettled pending user noticed with ⟨answer, next, read, also⟩
    exact ⟨answer, next, read, (kept.trans alike).trans also.symm⟩

end Steps

/-! ## Runs -/

section Runs

variable {host : ApiHost α Read Answer} {users : UserStore} {disk : Disk} {user : Text}
  {events : List (Served Answer)} {state : ApiState}

/-- Whether an event is a request of the user. -/
def asks (host : ApiHost α Read Answer) (user : Text) (event : Served Answer) : Bool :=
  (caller host event).any fun sender => sender.user == user

/-- A run in which the user may only query and export, and no one mixes the user's credentials
with those of another. -/
structure QueriesOnly (host : ApiHost α Read Answer) (user : Text)
    (events : List (Served Answer)) : Prop where
  limited : ∀ event ∈ events, Limited user event.before.users
  unmixed : ∀ event ∈ events, ∀ draws io connection request,
    event.action = .request draws io connection request →
    Unmixed host user draws request event.before.users
  fresh : ∀ event ∈ events, ∀ draws io connection request,
    event.action = .request draws io connection request →
    Fresh event.before draws connection request

/-- What the user cannot change. -/
structure Untouched (user : Text) (state last : ApiState) : Prop where
  /-- The loaded databases, the directories and the open transactions. -/
  registry : state.registry = last.registry
  /-- The other users, with their passwords and privileges. -/
  others : ∀ name, name ≠ user → state.users.get name = last.users.get name
  privileges : ∀ name privilege,
    state.users.hasPriv name privilege = last.users.hasPriv name privilege

theorem Alike.untouched {state last : ApiState} (alike : Alike host user state last) :
    Untouched user state last :=
  ⟨alike.registry, fun _ other => alike.users.get_other other, alike.users.hasPriv⟩

theorem resolved_of_asks {event : Served Answer} (mine : asks host user event = true) :
    ∃ draws io connection request resolved, event.action = .request draws io connection request ∧
      resolveUser host draws request event.before.users = some (some user, resolved) := by
  rw [asks, caller] at mine
  split at mine
  · rename_i draws io connection request asked
    split at mine
    · rename_i name resolved known
      have same : name = user := by simpa using mine
      exact ⟨draws, io, connection, request, resolved, asked, same ▸ known⟩
    · cases mine
  · cases mine

/-- A request of the user leaves what others see. -/
theorem alike_of_asks {event : Served Answer} (mine : asks host user event = true)
    (limited : Limited user event.before.users)
    (unmixed : ∀ draws io connection request, event.action = .request draws io connection request →
      Unmixed host user draws request event.before.users)
    (fresh : ∀ draws io connection request, event.action = .request draws io connection request →
      Fresh event.before draws connection request)
    (ran : step host event.before event.action = some (event.output, event.after)) :
    Alike host user event.after event.before := by
  rcases resolved_of_asks mine with ⟨draws, io, connection, request, resolved, asked, known⟩
  rw [asked] at ran
  rcases Option.map_eq_some_iff.mp ran with ⟨⟨answer, last⟩, handled, equal⟩
  have after := congrArg Prod.snd equal
  dsimp only at after
  rw [← after]
  exact handle_own known limited (unmixed _ _ _ _ asked) (fresh _ _ _ _ asked) handled

/-- An event that is no request of the user does the same on both sides. -/
theorem follows_of_not_asks {event : Served Answer} {other : ApiState}
    (notMine : asks host user event = false) (alike : Alike host user event.before other)
    (settled : Settled event.before) (also : Settled other)
    (limited : Limited user event.before.users)
    (unmixed : ∀ draws io connection request, event.action = .request draws io connection request →
      Unmixed host user draws request event.before.users)
    (fresh : ∀ draws io connection request, event.action = .request draws io connection request →
      Fresh event.before draws connection request)
    (ran : step host event.before event.action = some (event.output, event.after)) :
    ∃ output next, step host other event.action = some (output, next) ∧
      Alike host user event.after next := by
  cases asked : event.action with
  | finish connection noticed =>
    rw [asked] at ran
    exact finish_both alike settled also ran
  | request draws io connection request =>
    rw [asked] at ran
    rcases Option.map_eq_some_iff.mp ran with ⟨⟨answer, last⟩, handled, equal⟩
    have after := congrArg Prod.snd equal
    dsimp only at after
    have elsewhere : ∀ users,
        resolveUser host draws request event.before.users ≠ some (some user, users) := by
      intro users known
      rw [asks, caller, asked] at notMine
      dsimp only at notMine
      rw [known] at notMine
      simp at notMine
    rcases handle_other alike settled also limited (unmixed _ _ _ _ asked) (fresh _ _ _ _ asked)
      elsewhere answer last handled with ⟨reply, next, served, kept⟩
    refine ⟨some reply, next, ?_, after ▸ kept⟩
    rw [step, served]
    rfl

theorem purged_alike (run : Execution (step host) (bind users disk) events state)
    (queries : QueriesOnly host user events) :
    ∃ others last, Execution (step host) (bind users disk) others last ∧
      others.map Event.action = purge (asks host user) events ∧ Alike host user state last := by
  have begins := settled_bind users disk
  have purged := run.purged (asks host user)
    (fun left right => Alike host user left right ∧ Settled left ∧ Settled right)
    ⟨.refl host user _, begins, begins⟩
    (fun event member mine ran other related => by
      have kept := alike_of_asks mine (queries.limited event member) (queries.unmixed event member)
        (queries.fresh event member) ran
      exact ⟨kept.trans related.1, related.2.1.step ran, related.2.2⟩)
    (fun event member notMine ran other related => by
      rcases follows_of_not_asks notMine related.1 related.2.1 related.2.2
        (queries.limited event member) (queries.unmixed event member) (queries.fresh event member)
        ran with ⟨output, next, taken, kept⟩
      exact ⟨output, next, taken, kept, related.2.1.step ran, related.2.2.step taken⟩)
  rcases purged with ⟨others, last, purgedRun, actions, alike, -, -⟩
  exact ⟨others, last, purgedRun, actions, alike⟩

/-- Users who only query change nothing, unless a request mixes credentials; and a token stops
resolving to a user who is dropped, until a login as that user draws it again. -/
theorem queries_only (run : Execution (step host) (bind users disk) events state) :
    (∀ user, QueriesOnly host user events → ∃ others last,
      Execution (step host) (bind users disk) others last ∧
        others.map Event.action = purge (asks host user) events ∧ Untouched user state last) ∧
      ∀ earlier dropping later name token, events = earlier ++ dropping :: later →
        Drops name dropping → (∀ event ∈ later, ¬ LogsIn name token event.action) →
        ∀ draws, (state.users.sessionUser draws token).1 ≠ some name := by
  constructor
  · intro user queries
    rcases purged_alike run queries with ⟨others, last, purgedRun, actions, alike⟩
    exact ⟨others, last, purgedRun, actions, alike.untouched⟩
  · intro earlier dropping later name token parts drops elsewhere draws
    exact (sessionless_of_dropped run parts drops elsewhere).sessionUser draws

end Runs

/-! ### Three users -/

def reader : Text := "u".toList

def loader : Text := "v".toList

/-- The root user, one who may query and one who may load. -/
def threeUsers : UserStore where
  users := [(rootUser, { name := rootUser, salt := 0, hash := 0, privileges := ∅ }),
    (reader, { name := reader, salt := 0, hash := 0, privileges := {.query} }),
    (loader, { name := loader, salt := 0, hash := 0, privileges := {.load} })]
  sessions := []

/-- A request with the given headers, where the token `T` is drawn. -/
def sent (path query : String) (headers : List (String × String)) : ApiEvent :=
  .request { now := 0, salt := 0, token := "T".toList, id := 7, savesUsers := true } none 0
    { method := "POST".toList, path := path.toList, query := some query.toList
      headers := headers.map fun entry => (entry.1.toList, entry.2.toList), body := [] }

def privilegesOf (user : Text) (users : UserStore) : List Privilege :=
  [.query, .load, .unload, .update, .backup, .restore, .export, .admin].filter
    (users.hasPriv user)

theorem limited_of_privilegesOf {user : Text} {users : UserStore}
    (only : ∀ privilege ∈ privilegesOf user users, privilege = .query ∨ privilege = .export) :
    Limited user users := by
  intro privilege may
  refine only privilege (List.mem_filter.mpr ⟨?_, may⟩)
  cases privilege <;> decide

/-- Whether the user may only query and export before an event. -/
def readsOnly (user : Text) (event : Served Answer) : Bool :=
  (privilegesOf user event.before.users).all fun privilege =>
    privilege == .query || privilege == .export

theorem limited_of_all {user : Text} {events : List (Served Answer)}
    (only : events.all (readsOnly user) = true) :
    ∀ event ∈ events, Limited user event.before.users := by
  intro event member
  refine limited_of_privilegesOf fun privilege among => ?_
  have every := List.all_eq_true.mp (List.all_eq_true.mp only event member) privilege among
  simpa using every

/-- Whether an event is no login and presents no session, on an idle connection. -/
def simple (event : Served Answer) : Bool :=
  match event.action with
  | .request _ _ connection request =>
    decide (route request ≠ .login) && request.bearerOrSessionToken == some none &&
      (event.before.jobs.lookup connection).isNone
  | .finish _ _ => true

theorem queriesOnly_of_simple {host : ApiHost α Read Answer} {user : Text}
    {events : List (Served Answer)} (simply : events.all simple = true)
    (limited : ∀ event ∈ events, Limited user event.before.users) :
    QueriesOnly host user events := by
  have each : ∀ event ∈ events, ∀ draws io connection request,
      event.action = .request draws io connection request → route request ≠ .login ∧
        request.bearerOrSessionToken = some none ∧
        event.before.jobs.lookup connection = none := by
    intro event member draws io connection request asked
    have here := List.all_eq_true.mp simply event member
    rw [simple, asked] at here
    simpa [and_assoc] using here
  refine ⟨limited, fun event member draws io connection request asked => ?_,
    fun event member draws io connection request asked => ?_⟩
  · rcases each event member draws io connection request asked with ⟨routed, bearer, -⟩
    refine ⟨fun password token session basic presented => ?_, fun name login => ?_⟩
    · rw [bearer] at presented
      cases presented
    · exact absurd login routed
  · rcases each event member draws io connection request asked with ⟨routed, -, idle⟩
    exact ⟨idle, fun login => absurd login routed⟩

/-- A database is built, queried by a user and exported, and the user is dropped. -/
def readsAndGoes : List ApiEvent :=
  [asked "/build" "db=a", sent "/sparql" "db=a&query=x" [("authorization", "Basic dTpw")],
    .finish 0 false, sent "/tquery" "tid=1&query=x" [("authorization", "Basic dTpw")],
    asked "/user/drop" "op_username=u"]

/-- One event, which drops the user. -/
def dropsReader : List (Served Unit) → Bool
  | [event] =>
    (event.before.users.get reader).isSome && (event.after.users.get reader).isNone
  | _ => false

/-- A user who reads, and then goes. -/
theorem queries_only_reader :
    (∃ others last, Execution (step toyHost) (bind threeUsers []) others last ∧
      others.map Event.action = [asked "/build" "db=a", .finish 0 false,
        asked "/user/drop" "op_username=u"] ∧
      Untouched reader (lastState (step toyHost) (bind threeUsers []) readsAndGoes) last) ∧
    ∀ draws token, ((lastState (step toyHost) (bind threeUsers []) readsAndGoes).users.sessionUser
      draws token).1 ≠ some reader := by
  have simply : (trace (step toyHost) (bind threeUsers []) readsAndGoes).all simple = true := by
    decide
  have limited := limited_of_all (by decide :
    (trace (step toyHost) (bind threeUsers []) readsAndGoes).all (readsOnly reader) = true)
  have drops : dropsReader ((trace (step toyHost) (bind threeUsers []) readsAndGoes).drop 4) =
      true := by
    decide
  have run : Execution (step toyHost) (bind threeUsers []) _ _ :=
    execution_trace (bind threeUsers []) readsAndGoes
  have both := queries_only run
  constructor
  · exact both.1 reader (queriesOnly_of_simple simply limited)
  · intro draws token
    have parts := List.take_append_drop 4 (trace (step toyHost) (bind threeUsers []) readsAndGoes)
    rw [dropsReader.eq_def] at drops
    split at drops
    · rename_i dropping ends
      rw [ends] at parts
      rw [Bool.and_eq_true, Option.isNone_iff_eq_none] at drops
      refine both.2 _ dropping [] reader token parts.symm drops ?_ draws
      intro event member
      cases member
    · cases drops

/-- The token of a user ends that user's session, whoever presents it. -/
def logsOut : List ApiEvent :=
  [sent "/login" "username=v&password=p" [],
    sent "/logout" "" [("authorization", "Basic dTpw"), ("x-session-token", "T")],
    sent "/build" "db=a" [("x-session-token", "T")]]

/-- A user who may only query ends the session of another by its token, who then builds no
database. -/
theorem reader_logs_out : ∃ events state,
    Execution (step toyHost) (bind threeUsers []) events state ∧
      (∀ event ∈ events, Limited reader event.before.users) ∧
      ∀ others last, Execution (step toyHost) (bind threeUsers []) others last →
        others.map Event.action = purge (asks toyHost reader) events →
        ¬ Untouched reader state last := by
  refine ⟨_, _, execution_trace (bind threeUsers []) logsOut, ?_, ?_⟩
  · exact limited_of_all (by decide)
  · intro others last run actions untouched
    have ends := run.lastState_eq []
    rw [List.append_nil, actions] at ends
    have purged : purge (asks toyHost reader) (trace (step toyHost) (bind threeUsers []) logsOut) =
        [sent "/login" "username=v&password=p" [], sent "/build" "db=a" [("x-session-token", "T")]] := by
      rfl
    rw [purged] at ends
    have here : (lastState (step toyHost) (bind threeUsers []) logsOut).registry.dbs.length = 0 := by
      decide
    have there : (lastState (step toyHost) (bind threeUsers []) [sent "/login"
        "username=v&password=p" [], sent "/build" "db=a" [("x-session-token", "T")]]).registry.dbs.length =
          1 := by
      decide
    rw [ends] at there
    rw [untouched.registry] at here
    exact absurd (here.symm.trans there) (by decide)

end GStore.Http
