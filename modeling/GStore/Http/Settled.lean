import GStore.Http.Threads

/-! # What holds between events

What an event may do to the users, said once: forget a session, hand one out at a login, enter
or drop a user. From it, and from the effects on the registry, what holds of every state of a
run; and the sessions of a user that is dropped are gone. -/

namespace GStore.Http

open Db Reason

variable {α Read Answer : Type}

/-! ## Changes of the users -/

/-- A login as the named user that draws the token. -/
def LogsIn (name token : Text) (action : ApiEvent) : Prop :=
  ∃ draws io connection request, action = .request draws io connection request ∧
    route request = .login ∧ request.param "username" = some name ∧ draws.token = token

/-- What an event does to the users. -/
inductive UserChange (action : ApiEvent) (before : UserStore) : UserStore → Prop where
  | forgot (token : Text) : UserChange action before (before.forget token)
  | handed (token : Text) (session : LoginSession) (known : (before.get session.user).isSome)
      (login : LogsIn session.user token action) : UserChange action before
        { before with sessions := assocInsert token session before.sessions }
  | entered (name : Text) (entry : User) :
      UserChange action before { before with users := assocInsert name entry before.users }
  | dropped (name : Text) :
      UserChange action before
        { users := assocErase name before.users
          sessions := before.sessions.filter fun entry => entry.2.user != name }

/-- Any number of changes. -/
abbrev UserChanges (action : ApiEvent) := Relation.ReflTransGen (UserChange action)

section Users

variable {host : ApiHost α Read Answer} {draws : Draws} {io : Io} {connection : Nat}
  {request : Request} {action : ApiEvent} {caller token : Text} {s after : ApiState}
  {users resolved : UserStore} {answer : Dispatch Answer} {who : Option Text}
  {before last : UserStore}

theorem sessionUser_cases (draws : Draws) (users : UserStore) (token : Text) :
    (users.sessionUser draws token).2 = users ∨
      (users.sessionUser draws token).2 = users.forget token := by
  rw [UserStore.sessionUser]
  split
  · exact .inl rfl
  · split
    · exact .inr rfl
    · split
      · exact .inl rfl
      · exact .inr rfl

/-- Resolving a caller forgets one session at most. -/
theorem resolveUser_cases (known : resolveUser host draws request users = some (who, resolved)) :
    resolved = users ∨ ∃ token, resolved = users.forget token := by
  rw [resolveUser] at known
  split at known
  · cases known
  · split at known
    · cases known
      exact .inl rfl
    · rcases Option.map_eq_some_iff.mp known with ⟨presented, -, same⟩
      cases presented with
      | none =>
        cases same
        exact .inl rfl
      | some token =>
        dsimp only at same
        have kept := sessionUser_cases draws users token
        rw [same] at kept
        exact kept.imp id fun forgot => ⟨token, forgot⟩

/-- Resolving a caller brings no session. -/
theorem lookup_resolved (known : resolveUser host draws request users = some (who, resolved))
    (absent : users.sessions.lookup token = none) : resolved.sessions.lookup token = none := by
  rcases resolveUser_cases known with same | ⟨other, same⟩
  · rw [same, absent]
  · rw [same, UserStore.forget, lookup_assocErase, absent]
    split <;> rfl

theorem hasPriv_resolved (known : resolveUser host draws request users = some (who, resolved))
    (name : Text) (privilege : Privilege) :
    resolved.hasPriv name privilege = users.hasPriv name privilege := by
  rcases resolveUser_cases known with same | ⟨token, same⟩
  · rw [same]
  · rw [same]
    rfl

theorem changes_resolveUser (known : resolveUser host draws request users = some (who, resolved)) :
    UserChanges action users resolved := by
  rcases resolveUser_cases known with same | ⟨token, same⟩
  · rw [same]
  · rw [same]
    exact .single (.forgot token)

theorem settled_users (message : Text) (result : Except Text Unit × UserStore) :
    (settled message result : Resp Answer × UserStore).2 = result.2 := by
  rcases result with ⟨outcome, users⟩
  cases outcome <;> rfl

theorem handleLogin_given {name password : Text} (named : request.param "username" = some name)
    (given : request.param "password" = some password) (users : UserStore) :
    (handleLogin host draws request users).2 =
      (users.login host.hashPassword draws name password).2 := by
  rw [handleLogin, named, given]
  dsimp only
  split <;>
  · rename_i outcome
    rw [outcome]

theorem handleLogin_missing
    (missing : request.param "username" = none ∨ request.param "password" = none)
    (users : UserStore) : (handleLogin host draws request users).2 = users := by
  rw [handleLogin]
  split
  · rename_i named given
    rw [named, given] at missing
    rcases missing with absent | absent <;> cases absent
  · rfl

theorem changes_handleLogin (routed : route request = .login) (users : UserStore) :
    UserChanges (.request draws io connection request) users
      (handleLogin host draws request users).2 := by
  cases named : request.param "username" with
  | none =>
    rw [handleLogin_missing (.inl named)]
  | some name =>
    cases given : request.param "password" with
    | none =>
      rw [handleLogin_missing (.inr given)]
    | some password =>
      rw [handleLogin_given named given, UserStore.login]
      split
      · rename_i verified
        have known : (users.get name).isSome := by
          rw [UserStore.verify] at verified
          split at verified
          · rename_i entry found
            rw [found]
            rfl
          · cases verified
        exact .single (.handed draws.token { user := name, created := draws.now } known
          ⟨draws, io, connection, request, rfl, routed, named, rfl⟩)
      · exact .refl

theorem changes_handleUserCreate (users : UserStore) :
    UserChanges action users (handleUserCreate host draws request users).2 := by
  rw [handleUserCreate]
  split
  · split
    · exact .refl
    · rw [settled_users, UserStore.add]
      split
      · exact .refl
      · split
        · exact .refl
        · split
          · exact .refl
          · exact .single (.entered _ _)
  · exact .refl

theorem changes_handleUserDrop (users : UserStore) :
    UserChanges action users (handleUserDrop draws request users : Resp Answer × UserStore).2 := by
  rw [handleUserDrop]
  split
  · exact .refl
  · rw [settled_users, UserStore.dropUser]
    split
    · exact .refl
    · split
      · exact .refl
      · exact .single (.dropped _)

theorem changes_handleUserPassword (users : UserStore) :
    UserChanges action users (handleUserPassword host draws request users caller).2 := by
  rw [handleUserPassword]
  split
  · exact .refl
  · split
    · exact .refl
    · rw [settled_users, UserStore.setPassword]
      split
      · exact .refl
      · split
        · exact .refl
        · exact .single (.entered _ _)

theorem changes_modifyPrivs (users : UserStore) (name : Text)
    (change : Finset Privilege → Finset Privilege) :
    UserChanges action users (users.modifyPrivs draws name change).2 := by
  rw [UserStore.modifyPrivs]
  split
  · exact .refl
  · split
    · exact .refl
    · exact .single (.entered _ _)

theorem changes_handleUserGrant (users : UserStore) (grant : Bool) :
    UserChanges action users
      (handleUserGrant draws request users grant : Resp Answer × UserStore).2 := by
  rw [handleUserGrant]
  split
  · exact .refl
  · split
    · rw [settled_users]
      exact changes_modifyPrivs _ _ _
    · split
      · exact .refl
      · split
        · exact .refl
        · rw [settled_users]
          split
          · exact changes_modifyPrivs _ _ _
          · exact changes_modifyPrivs _ _ _

theorem nodup_resolveUser (known : resolveUser host draws request users = some (who, resolved))
    (nodup : (users.sessions.map Prod.fst).Nodup) : (resolved.sessions.map Prod.fst).Nodup := by
  rcases resolveUser_cases known with same | ⟨token, same⟩
  · rw [same]
    exact nodup
  · rw [same]
    exact nodup_keys_assocErase token nodup

/-! ### What the changes keep -/

theorem UserChange.nodup (change : UserChange action before last)
    (nodup : (before.sessions.map Prod.fst).Nodup) : (last.sessions.map Prod.fst).Nodup := by
  cases change with
  | forgot token => exact nodup_keys_assocErase token nodup
  | handed token session known login => exact nodup_keys_assocInsert _ _ nodup
  | entered name entry => exact nodup
  | dropped name => exact nodup.sublist (List.filter_sublist.map Prod.fst)

theorem UserChanges.nodup (changes : UserChanges action before last)
    (nodup : (before.sessions.map Prod.fst).Nodup) : (last.sessions.map Prod.fst).Nodup := by
  induction changes with
  | refl => exact nodup
  | tail earlier change induction => exact change.nodup induction

/-- No session under the token is one of the name. -/
def Sessionless (name token : Text) (users : UserStore) : Prop :=
  ∀ entry ∈ users.sessions, entry.1 = token → entry.2.user ≠ name

/-- Only a login brings a session of the name. -/
theorem UserChange.sessionless {name : Text} (change : UserChange action before last)
    (elsewhere : ¬ LogsIn name token action) (sessionless : Sessionless name token before) :
    Sessionless name token last := by
  cases change with
  | forgot other =>
    exact fun entry member => sessionless entry (List.mem_filter.mp member).1
  | handed other session known login =>
    refine forall_mem_assocInsert (fun same own => elsewhere ?_) sessionless
    rw [← same, ← own]
    exact login
  | entered other entry => exact sessionless
  | dropped other =>
    exact fun entry member => sessionless entry (List.mem_filter.mp member).1

theorem UserChanges.sessionless {name : Text} (changes : UserChanges action before last)
    (elsewhere : ¬ LogsIn name token action) (sessionless : Sessionless name token before) :
    Sessionless name token last := by
  induction changes with
  | refl => exact sessionless
  | tail earlier change induction => exact change.sessionless elsewhere induction

/-- Where a user goes, all sessions of the user go. -/
theorem UserChange.gone {name : Text} (change : UserChange action before last)
    (gone : before.get name = none → Sessionless name token before) (absent : last.get name = none) :
    Sessionless name token last := by
  cases change with
  | forgot other =>
    exact fun entry member => gone absent entry (List.mem_filter.mp member).1
  | handed other session known login =>
    refine forall_mem_assocInsert (fun same own => ?_) (gone absent)
    change before.get name = none at absent
    rw [own, absent] at known
    cases known
  | entered other entry =>
    change (assocInsert other entry before.users).lookup name = none at absent
    rw [lookup_assocInsert] at absent
    split at absent
    · cases absent
    · exact gone absent
  | dropped other =>
    change (assocErase other before.users).lookup name = none at absent
    rw [lookup_assocErase] at absent
    split at absent
    · rename_i same
      intro entry member held
      rw [eq_of_beq same]
      simpa using (List.mem_filter.mp member).2
    · exact fun entry member => gone absent entry (List.mem_filter.mp member).1

theorem UserChanges.gone {name : Text} (changes : UserChanges action before last)
    (gone : before.get name = none → Sessionless name token before) (absent : last.get name = none) :
    Sessionless name token last := by
  induction changes with
  | refl => exact gone absent
  | tail earlier change induction => exact change.gone induction absent

end Users

/-! ## Changes of the registry -/

/-- Names stand for databases. -/
def Named (registry : Registry) : Prop :=
  ∀ name handle, registry.dbs.lookup name = some handle → handle < registry.heap.length

/-- Databases are added, and names go on standing for databases. -/
structure Grown (before after : Registry) : Prop where
  length : before.heap.length ≤ after.heap.length
  named : Named before → Named after

section Grown

variable {host : ApiHost α Read Answer} {draws : Draws} {io : Io} {connection : Nat}
  {request : Request} {caller : Text} {s after : ApiState} {registry middle last : Registry}

theorem Grown.refl (registry : Registry) : Grown registry registry := ⟨le_rfl, id⟩

theorem Grown.trans (first : Grown registry middle) (second : Grown middle last) :
    Grown registry last :=
  ⟨first.length.trans second.length, fun named => second.named (first.named named)⟩

theorem grown_put (registry : Registry) (handle : Handle) (session : Session) :
    Grown registry (registry.put handle session) := by
  have same : (registry.put handle session).heap.length = registry.heap.length :=
    List.length_set
  refine ⟨same.ge, fun named name other looked => ?_⟩
  rw [same]
  exact named name other looked

theorem grown_install (registry : Registry) (name : Text) (session : Session) :
    Grown registry (registry.install name session) := by
  have longer : (registry.install name session).heap.length = registry.heap.length + 1 :=
    List.length_append
  refine ⟨longer.ge.trans' (Nat.le_succ _), fun named other handle looked => ?_⟩
  rw [longer]
  change (assocInsert name registry.heap.length registry.dbs).lookup other = some handle at looked
  rw [lookup_assocInsert] at looked
  split at looked
  · cases looked
    exact Nat.lt_succ_self _
  · exact (named other handle looked).trans (Nat.lt_succ_self _)

theorem Effects.grown (effects : Effects host io Unchecked registry last) : Grown registry last := by
  induction effects with
  | refl => exact .refl registry
  | @tail middle last earlier effect induction =>
    refine induction.trans ?_
    cases effect with
    | wrote disk written => exact ⟨le_rfl, id⟩
    | installed name session disk free origin idle written =>
      have installed := grown_install middle name session
      exact ⟨installed.length, installed.named⟩
    | removed name disk free written =>
      refine ⟨le_rfl, fun named other handle looked => ?_⟩
      change (assocErase name _).lookup other = some handle at looked
      rw [lookup_assocErase] at looked
      split at looked
      · cases looked
      · exact named other handle looked
    | inserted name handle session after triples count free found ran => exact grown_put _ _ _
    | queried handle session after sparql outcome found allowed ran => exact grown_put _ _ _

theorem grown_handleLoad : Grown registry (registry.handleLoad host request).2 := by
  rw [Registry.handleLoad]
  split
  · exact .refl registry
  · split
    · exact .refl registry
    · exact .refl registry
    · exact grown_install _ _ _

theorem grown_handleBegin :
    Grown registry (registry.handleBegin request draws : Reply Answer).2 := by
  rw [Registry.handleBegin]
  split
  · exact .refl registry
  · split
    · exact .refl registry
    · split
      · exact .refl registry
      · split
        · exact .refl registry
        · rename_i handle before found free outcome session begun
          have put := grown_put registry handle session
          exact ⟨put.length, put.named⟩

theorem grown_handleTxnEnd (commit : Bool) :
    Grown registry (registry.handleTxnEnd request commit : Reply Answer).2 := by
  rw [Registry.handleTxnEnd]
  dsimp only
  split
  · exact .refl registry
  · split
    · exact .refl registry
    · split
      · exact ⟨le_rfl, id⟩
      · split
        · rename_i handle before found outcome session finished
          have put := grown_put registry handle session
          exact ⟨put.length, put.named⟩
        · rename_i handle before found outcome error session finished
          have put := grown_put registry handle session
          exact ⟨put.length, put.named⟩

theorem grown_handleTquery {reply : Reply Answer}
    (ran : handleTquery host request caller s = some reply) : Grown s.registry reply.2 := by
  rw [handleTquery] at ran
  split at ran
  · cases ran
    exact .refl _
  · split at ran
    · cases ran
      exact .refl _
    · split at ran
      · cases ran
        exact .refl _
      · split at ran
        · rw [Registry.runInTxn] at ran
          split at ran
          · cases ran
            exact .refl _
          · rcases Option.map_eq_some_iff.mp ran with ⟨answered, queried, same⟩
            cases same
            exact grown_put _ _ _
        · cases ran
          exact .refl _

end Grown

/-! ## Changes of the state -/

/-- Every deferred query is for a database. -/
def Bounded (s : ApiState) : Prop :=
  ∀ connection job, s.jobs.lookup connection = some job → job.db < s.registry.heap.length

/-- What an event does to the state. -/
structure Changes (action : ApiEvent) (before after : ApiState) : Prop where
  users : UserChanges action before.users after.users
  registry : Grown before.registry after.registry
  jobs : Named before.registry → Bounded before → Bounded after

section Changes

variable {host : ApiHost α Read Answer} {draws : Draws} {io : Io} {connection : Nat}
  {request : Request} {action : ApiEvent} {caller : Text} {s middle after : ApiState}
  {answer : Dispatch Answer} {users : UserStore}

theorem Changes.refl (action : ApiEvent) (s : ApiState) : Changes action s s :=
  ⟨.refl, .refl s.registry, fun _ bounded => bounded⟩

theorem Changes.trans (first : Changes action s middle) (second : Changes action middle after) :
    Changes action s after :=
  ⟨first.users.trans second.users, first.registry.trans second.registry,
    fun named bounded => second.jobs (first.registry.named named) (first.jobs named bounded)⟩

theorem Changes.withRegistry {registry : Registry} (grown : Grown s.registry registry) :
    Changes action s { s with registry } :=
  ⟨.refl, grown, fun _ bounded connection job queued =>
    (bounded connection job queued).trans_le grown.length⟩

theorem Changes.withUsers (changes : UserChanges action s.users users) :
    Changes action s { s with users } :=
  ⟨changes, .refl s.registry, fun _ bounded => bounded⟩

theorem changes_runQuery (name sparql : Text) : Changes action s
    (runQuery draws connection caller s name sparql : Dispatch Answer × ApiState).2 := by
  rw [runQuery]
  split
  · exact .refl action s
  · rename_i handle bound
    refine ⟨.refl, .refl s.registry, fun named bounded other job queued => ?_⟩
    change (assocInsert connection _ s.jobs).lookup other = some job at queued
    rw [lookup_assocInsert] at queued
    split at queued
    · cases queued
      exact named name handle bound
    · exact bounded other job queued

theorem changes_handleQuery :
    Changes action s (handleQuery host draws connection request caller s).2 := by
  rw [handleQuery]
  split
  · exact .refl action s
  · split
    · split
      · exact .refl action s
      · exact changes_runQuery _ _
    · exact .refl action s

theorem changes_handleUpdate : Changes action s
    (handleUpdate draws connection request caller s : Dispatch Answer × ApiState).2 := by
  rw [handleUpdate]
  split
  · exact .refl action s
  · split
    · exact .refl action s
    · exact changes_runQuery _ _

/-! ### Endpoints -/

/-- What an answer does, if there is one. -/
def Makes (action : ApiEvent) (s : ApiState) (served : Option (Dispatch Answer × ApiState)) : Prop :=
  ∀ answer after, served = some (answer, after) → Changes action s after

theorem Makes.of_some {reply : Dispatch Answer × ApiState} (changes : Changes action s reply.2) :
    Makes action s (some reply) := by
  intro answer after same
  cases same
  exact changes

theorem Makes.guarded {privilege : Privilege} {served : Option (Dispatch Answer × ApiState)}
    (makes : Makes action s served) : Makes action s (guarded caller s privilege served) := by
  rw [Http.guarded]
  split
  · exact makes
  · exact .of_some (.refl action s)

theorem Makes.onRegistry {reply : Option (Reply Answer)}
    (grown : ∀ resp registry, reply = some (resp, registry) → Grown s.registry registry) :
    Makes action s (reply.map (Http.onRegistry s)) := by
  intro answer after ran
  rcases Option.map_eq_some_iff.mp ran with ⟨⟨resp, registry⟩, replied, same⟩
  cases same
  exact .withRegistry (grown resp registry replied)

theorem Makes.onAnswer {reply : Reply Answer} (grown : Grown s.registry reply.2) :
    Makes action s (some (Http.onRegistry s reply)) :=
  .of_some (.withRegistry grown)

theorem Makes.onUsers {reply : Resp Answer × UserStore}
    (changes : UserChanges action s.users reply.2) : Makes action s (some (Http.onUsers s reply)) :=
  .of_some (.withUsers changes)

theorem makes_serve (action : ApiEvent) (s : ApiState) (endpoint : Endpoint) :
    Makes action s (serve host draws io connection request caller s endpoint) := by
  have grown : ∀ {registry}, Effects host io Unchecked s.registry registry →
      Grown s.registry registry := fun effects => effects.grown
  have export_ : ∀ session, Unchecked session exportQuery := fun _ => trivial
  cases endpoint with
  | login | logout | console | unknown | monitoring => exact .of_some (.refl action s)
  | sparql => exact .of_some changes_handleQuery
  | update => exact .guarded (.of_some changes_handleUpdate)
  | tquery => exact .onRegistry fun resp registry replied => grown_handleTquery replied
  | build => exact .guarded (.onRegistry fun _ _ replied => grown (effects_handleBuild replied))
  | load => exact .guarded (.onAnswer grown_handleLoad)
  | upload => exact .guarded (.onRegistry fun _ _ replied => grown (effects_handleUpload replied))
  | unload => exact .guarded (.onAnswer (grown (effects_handleUnload rfl)))
  | drop => exact .guarded (.onAnswer (grown (effects_handleDrop rfl)))
  | begin => exact .guarded (.onAnswer grown_handleBegin)
  | commit => exact .guarded (.onAnswer (grown_handleTxnEnd true))
  | rollback => exact .guarded (.onAnswer (grown_handleTxnEnd false))
  | checkpoint => exact .guarded (.onAnswer (grown (effects_handleCheckpoint rfl)))
  | backup => exact .guarded (.onAnswer (grown (effects_handleBackup rfl)))
  | restore => exact .guarded (.onAnswer (grown (effects_handleRestore rfl)))
  | «export» =>
    exact .guarded (.onRegistry fun _ _ replied => grown (effects_handleExport export_ replied))
  | batchInsert | batchRemove =>
    exact .guarded (.onRegistry fun _ _ replied =>
      grown (effects_handleBatch (fun _ _ _ _ _ _ => trivial) replied))
  | userCreate => exact .guarded (.onUsers (changes_handleUserCreate s.users))
  | userDrop => exact .guarded (.onUsers (changes_handleUserDrop s.users))
  | userPassword => exact .onUsers (changes_handleUserPassword s.users)
  | userGrant => exact .guarded (.onUsers (changes_handleUserGrant s.users true))
  | userRevoke => exact .guarded (.onUsers (changes_handleUserGrant s.users false))
  | userShow | log | tasklist => exact .guarded (.of_some (.refl action s))
  | cancel =>
    rw [serve]
    split
    · exact .of_some ⟨.refl, .refl s.registry, fun _ bounded => bounded⟩
    · exact .of_some (.refl action s)

theorem makes_dispatch (s : ApiState) (who : Option Text) :
    Makes (.request draws io connection request) s
      (dispatch host draws io connection request s who) := by
  rw [dispatch]
  split
  · rename_i routed
    exact .onUsers (changes_handleLogin routed s.users)
  · split
    · exact .of_some (.refl _ s)
    · rename_i reply ended
      rcases Option.map_eq_some_iff.mp ended with ⟨presented, -, same⟩
      cases presented with
      | none =>
        cases same
        exact .onUsers .refl
      | some token =>
        cases same
        exact .onUsers (.single (.forgot token))
  · exact .of_some (.refl _ s)
  · split
    · exact .of_some (.refl _ s)
    · exact makes_serve _ s _

theorem makes_handle (s : ApiState) :
    Makes (.request draws io connection request) s (handle host draws io connection request s) := by
  rw [handle]
  split
  · exact .of_some (.refl _ s)
  · rename_i who users resolved
    have known : Changes (.request draws io connection request) s { s with users } :=
      .withUsers (changes_resolveUser resolved)
    exact fun answer after ran => known.trans (makes_dispatch _ who answer after ran)

/-- What an event does to the state. -/
theorem changes_step {output : Option (Dispatch Answer)}
    (ran : step host s action = some (output, after)) : Changes action s after := by
  cases action with
  | request draws io connection request =>
    rcases Option.map_eq_some_iff.mp ran with ⟨⟨answer, last⟩, handled, same⟩
    cases same
    exact makes_handle s answer after handled
  | finish connection noticed =>
    rw [step] at ran
    split at ran
    · cases ran
      exact .refl _ s
    · rename_i job queued
      have kept : Bounded s → ∀ other job, (assocErase connection s.jobs).lookup other = some job →
          job.db < s.registry.heap.length := by
        intro bounded other job queued
        rw [lookup_assocErase] at queued
        split at queued
        · cases queued
        · exact bounded other job queued
      rcases Option.map_eq_some_iff.mp ran with ⟨⟨resp, last⟩, executed, same⟩
      cases same
      rw [executeQueryJob] at executed
      dsimp only at executed
      split at executed
      · cases executed
      · split at executed
        · cases executed
          exact ⟨.refl, .refl s.registry, fun _ => kept⟩
        · rcases Option.map_eq_some_iff.mp executed with ⟨answered, queried, same⟩
          cases same
          have put := grown_put s.registry job.db answered.2
          exact ⟨.refl, put, fun _ bounded other job queued =>
            (kept bounded other job queued).trans_le put.length⟩

end Changes

/-! ## Between events -/

/-- What holds between two events. -/
structure Settled (s : ApiState) : Prop where
  sessions : (s.users.sessions.map Prod.fst).Nodup
  named : Named s.registry
  jobs : Bounded s

section Settled

variable {host : ApiHost α Read Answer} {action : ApiEvent} {s after : ApiState}
  {users : UserStore} {disk : Disk} {events : List (Served Answer)} {state : ApiState}

theorem settled_bind (users : UserStore) (disk : Disk) : Settled (bind users disk) := by
  refine ⟨List.nodup_nil, fun name handle looked => ?_, fun connection job queued => ?_⟩
  · cases looked
  · cases queued

theorem Settled.step (settled : Settled s) {output : Option (Dispatch Answer)}
    (ran : step host s action = some (output, after)) : Settled after := by
  have changes := changes_step ran
  exact ⟨changes.users.nodup settled.sessions, changes.registry.named settled.named,
    changes.jobs settled.named settled.jobs⟩

/-- An event that drops a user. -/
def Drops (name : Text) (event : Served Answer) : Prop :=
  (event.before.users.get name).isSome ∧ event.after.users.get name = none

/-- The sessions of a user that is dropped stay gone until a login draws their token again. -/
theorem sessionless_of_dropped (run : Execution (Http.step host) (bind users disk) events state)
    {earlier later : List (Served Answer)} {dropping : Served Answer} {name token : Text}
    (parts : events = earlier ++ dropping :: later) (drops : Drops name dropping)
    (elsewhere : ∀ event ∈ later, ¬ LogsIn name token event.action) :
    Sessionless name token state.users := by
  rcases run.around parts with ⟨-, taken, rest⟩
  refine rest.keeps (fun state => Sessionless name token state.users) ?_ ?_
  · refine (changes_step taken).users.gone (fun absent => ?_) drops.2
    have present := drops.1
    rw [absent] at present
    cases present
  · exact fun event member ran => (changes_step ran).users.sessionless (elsewhere event member)

/-- Without a session a token does not stand for the name. -/
theorem Sessionless.sessionUser {name token : Text} (sessionless : Sessionless name token users)
    (draws : Draws) : (users.sessionUser draws token).1 ≠ some name := by
  intro known
  rw [UserStore.sessionUser] at known
  split at known
  · cases known
  · rename_i session found
    split at known
    · cases known
    · split at known
      · exact sessionless _ (mem_of_lookup_eq_some found) rfl (Option.some.inj known)
      · cases known

end Settled

end GStore.Http
