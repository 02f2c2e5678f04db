import GStore.Foundation.Trace
import GStore.Http.Registry

/-! # The API server

`http_api.rs`, `ApiInner`: a request is counted, its caller resolved and its endpoint served
while the state is locked; a query runs later, with the lock of its database only. Logs and
the counters of the monitoring endpoints are left out. -/

namespace GStore.Http

open Db Reason

variable {α Read Answer : Type}

/-- An in-flight query or update. -/
structure TaskEntry where
  db : Text
  user : Text
  cancel : Bool

/-- A query handed out to run without the state lock. -/
structure QueryJob where
  db : Handle
  taskId : Nat
  sparql : Text

structure ApiState where
  users : UserStore
  registry : Registry
  tasks : List (Nat × TaskEntry)
  /-- The deferred queries, by connection. -/
  jobs : List (Nat × QueryJob)

inductive Dispatch (Answer : Type) where
  | done (resp : Resp Answer)
  | query (job : QueryJob)
  /-- A monitoring endpoint, which reads the databases later. -/
  | deferred
  /-- The worker panics on a header and answers nothing. -/
  | crashed

/-! ## Endpoints -/

inductive Endpoint where
  | login
  | logout
  | console
  | sparql
  | update
  | tquery
  | monitoring
  | build
  | load
  | upload
  | unload
  | drop
  | begin
  | commit
  | rollback
  | checkpoint
  | backup
  | restore
  | «export»
  | batchInsert
  | batchRemove
  | userCreate
  | userDrop
  | userPassword
  | userGrant
  | userRevoke
  | userShow
  | log
  | tasklist
  | cancel
  | unknown
deriving DecidableEq

/-- Which arm of `dispatch` a request takes. -/
def route (request : Request) : Endpoint :=
  let method := String.ofList request.method
  let path := String.ofList request.path
  if path = "/login" then .login
  else if path = "/logout" then .logout
  else if method = "GET" ∧ (path = "/" ∨ path = "/console") then .console
  else if (method = "GET" ∨ method = "POST") ∧ path = "/sparql" then .sparql
  else if (method = "GET" ∨ method = "POST") ∧ path = "/show" then .monitoring
  else if (method = "GET" ∨ method = "POST") ∧ path = "/export" then .export
  else if method = "GET" then
    if path = "/status" ∨ path = "/monitor" then .monitoring
    else if path = "/user/show" then .userShow
    else if path = "/querylog" ∨ path = "/accesslog" ∨ path = "/txnlog" then .log
    else if path = "/tasklist" then .tasklist
    else .unknown
  else if method = "POST" then
    if path = "/update" then .update
    else if path = "/tquery" then .tquery
    else if path = "/build" then .build
    else if path = "/load" then .load
    else if path = "/upload" then .upload
    else if path = "/unload" then .unload
    else if path = "/drop" then .drop
    else if path = "/begin" then .begin
    else if path = "/commit" then .commit
    else if path = "/rollback" then .rollback
    else if path = "/checkpoint" then .checkpoint
    else if path = "/backup" then .backup
    else if path = "/restore" then .restore
    else if path = "/batchInsert" then .batchInsert
    else if path = "/batchRemove" then .batchRemove
    else if path = "/user/create" then .userCreate
    else if path = "/user/drop" then .userDrop
    else if path = "/user/password" then .userPassword
    else if path = "/user/grant" then .userGrant
    else if path = "/user/revoke" then .userRevoke
    else if path = "/cancel" then .cancel
    else .unknown
  else .unknown

/-! ## Callers -/

/-- The caller of a request, from Basic credentials or else from a session. -/
def resolveUser (host : ApiHost α Read Answer) (draws : Draws) (request : Request)
    (users : UserStore) : Option (Option Text × UserStore) :=
  match request.parseBasicAuth with
  | none => none
  | some credentials =>
    match credentials.filter fun given => users.verify host.hashPassword given.1 given.2 with
    | some given => some (some given.1, users)
    | none =>
      request.bearerOrSessionToken.map fun token =>
        match token with
        | some token => users.sessionUser draws token
        | none => (none, users)

def unauthorized : Resp Answer := .fail 401 "authentication required".toList

def forbidden : Resp Answer := .fail 403 "permission denied: insufficient privilege".toList

/-! ## Users -/

section Users

variable (host : ApiHost α Read Answer) (draws : Draws) (request : Request) (users : UserStore)

def handleLogin : Resp Answer × UserStore :=
  match request.param "username", request.param "password" with
  | some username, some password =>
    match users.login host.hashPassword draws username password with
    | (some token, users) =>
      let privileges := ((users.get username).map User.privileges).getD ∅
      ({ status := 200, body := .login token username privileges }, users)
    | (none, users) => (.fail 401 "invalid username or password".toList, users)
  | _, _ => (.fail 400 "missing username or password".toList, users)

def handleLogout : Option (Resp Answer × UserStore) :=
  request.bearerOrSessionToken.map fun token =>
    (.ok "logged out".toList,
      match token with
      | some token => users.forget token
      | none => users)

/-- The answer of a change of the user table. -/
def settled (message : Text) (result : Except Text Unit × UserStore) : Resp Answer × UserStore :=
  match result with
  | (.ok (), users) => (.ok message, users)
  | (.error error, users) => (.fail 400 error, users)

def opUsername : Option Text :=
  (request.param "op_username").orElse fun _ => request.param "username"

def opPassword : Option Text :=
  (request.param "op_password").orElse fun _ => request.param "password"

def invalidPrivileges : Text := "invalid privileges (use names or codes 1..8)".toList

def handleUserCreate : Resp Answer × UserStore :=
  match opUsername request, opPassword request with
  | some name, some password =>
    match Privilege.parseList ((request.param "privileges").getD []) with
    | none => (.fail 400 invalidPrivileges, users)
    | some privileges =>
      settled (UserStore.quoted "user " name " created")
        (users.add host.hashPassword draws name password privileges)
  | _, _ => (.fail 400 "missing op_username or op_password".toList, users)

def handleUserDrop : Resp Answer × UserStore :=
  match opUsername request with
  | none => (.fail 400 "missing op_username".toList, users)
  | some name => settled (UserStore.quoted "user " name " dropped") (users.dropUser draws name)

/-- The user whose password is changed: the caller, if no one is named. -/
def passwordTarget (user : Text) : Text :=
  ((request.param "username").orElse fun _ => request.param "op_username").getD user

def handleUserPassword (user : Text) : Resp Answer × UserStore :=
  let target := passwordTarget request user
  match opPassword request with
  | none => (.fail 400 "missing op_password".toList, users)
  | some password =>
    if target ≠ user ∧ users.hasPriv user .admin = false then (forbidden, users)
    else
      settled (UserStore.quoted "password for " target " changed")
        (users.setPassword host.hashPassword draws target password)

def handleUserGrant (grant : Bool) : Resp Answer × UserStore :=
  match opUsername request with
  | none => (.fail 400 "missing op_username".toList, users)
  | some name =>
    if request.param "type" = some "3".toList then
      settled (UserStore.quoted "privileges for " name " cleared")
        (users.clearPrivileges draws name)
    else
      match request.param "privileges" with
      | none => (.fail 400 "missing privileges".toList, users)
      | some privileges =>
        match Privilege.parseList privileges with
        | none => (.fail 400 invalidPrivileges, users)
        | some privileges =>
          let verb := if grant then "privileges granted for " else "privileges revoked for "
          settled (UserStore.quoted verb name "")
            (if grant then users.grant draws name privileges
              else users.revoke draws name privileges)

end Users

/-! ## Queries -/

section Queries

variable (host : ApiHost α Read Answer) (draws : Draws) (connection : Nat) (request : Request)
  (user : Text) (s : ApiState)

/-- Register a task for the query and hand it out. -/
def runQuery (name sparql : Text) : Dispatch Answer × ApiState :=
  match s.registry.dbs.lookup name with
  | none => (.done (.fail 404 (Registry.notLoaded name)), s)
  | some handle =>
    let taskId := Registry.newId draws.id (s.tasks.map Prod.fst)
    let job : QueryJob := { db := handle, taskId, sparql }
    (.query job,
      { s with
        tasks := assocInsert taskId { db := name, user, cancel := false } s.tasks
        jobs := assocInsert connection job s.jobs })

/-- The privilege that a statement needs. -/
def needed (sparql : Text) : Privilege := if host.isUpdateSparql sparql then .update else .query

def handleQuery : Dispatch Answer × ApiState :=
  match (request.param "sparql").orElse fun _ => request.queryString with
  | none => (.done (.fail 400 "missing sparql/query parameter".toList), s)
  | some sparql =>
    if s.users.hasPriv user (needed host sparql) then
      match s.registry.pickDb request with
      | none => (.done (.fail 400 Registry.missingDb), s)
      | some name => runQuery draws connection user s name sparql
    else (.done forbidden, s)

/-- The statement of `/update`. -/
def updateText : Option Text :=
  (request.param "sparql").orElse fun _ => (request.param "update").orElse fun _ =>
    if trim request.bodyStr = [] then none else some request.bodyStr

def handleUpdate : Dispatch Answer × ApiState :=
  match updateText request with
  | none => (.done (.fail 400 "missing update statement".toList), s)
  | some sparql =>
    match s.registry.pickDb request with
    | none => (.done (.fail 400 Registry.missingDb), s)
    | some name => runQuery draws connection user s name sparql

def handleTquery : Option (Resp Answer × Registry) :=
  match Registry.txnId request with
  | none => some (.fail 400 "missing or malformed tid/txn parameter".toList, s.registry)
  | some tid =>
    match s.registry.txns.lookup tid with
    | none => some
        (.fail 404 ("no open transaction ".toList ++ Nat.toDigits 10 tid), s.registry)
    | some txn =>
      match Registry.tqueryText request with
      | none => some (.fail 400 "missing sparql parameter".toList, s.registry)
      | some sparql =>
        if s.users.hasPriv user (needed host sparql) then
          s.registry.runInTxn host txn.db sparql
        else some (forbidden, s.registry)

def cancelId : Option Nat :=
  ((request.param "id").orElse fun _ => (request.param "task_id").orElse fun _ =>
    request.param "tid").bind fun text => Request.parseUsize (trim text)

def handleCancel : Resp Answer × List (Nat × TaskEntry) :=
  let isAdmin := s.users.hasPriv user .admin
  match cancelId request with
  | none => (.fail 400 "missing or malformed id/task_id parameter".toList, s.tasks)
  | some id =>
    match s.tasks.lookup id with
    | none => (.fail 404 ("no active task ".toList ++ Nat.toDigits 10 id), s.tasks)
    | some task =>
      if isAdmin = false ∧ task.user ≠ user then
        (.fail 403 ("task ".toList ++ Nat.toDigits 10 id ++ " belongs to another user".toList),
          s.tasks)
      else
        (.ok ("cancel requested for task ".toList ++ Nat.toDigits 10 id),
          assocInsert id { task with cancel := true } s.tasks)

end Queries

/-! ## Dispatch -/

section Dispatch

variable (host : ApiHost α Read Answer) (draws : Draws) (io : Io) (connection : Nat)
  (request : Request) (user : Text) (s : ApiState)

/-- An answer about the databases. -/
def onRegistry (reply : Resp Answer × Registry) : Dispatch Answer × ApiState :=
  (.done reply.1, { s with registry := reply.2 })

/-- An answer about the users. -/
def onUsers (reply : Resp Answer × UserStore) : Dispatch Answer × ApiState :=
  (.done reply.1, { s with users := reply.2 })

/-- Serve a request only if the caller holds the privilege. -/
def guarded (privilege : Privilege) (serve : Option (Dispatch Answer × ApiState)) :
    Option (Dispatch Answer × ApiState) :=
  if s.users.hasPriv user privilege then serve else some (.done forbidden, s)

/-- The arms of `dispatch` that need a caller. -/
def serve : Endpoint → Option (Dispatch Answer × ApiState)
  | .login | .logout | .console | .unknown => some (.done (.fail 404 "not found".toList), s)
  | .sparql => some (handleQuery host draws connection request user s)
  | .update =>
    guarded user s .update (some (handleUpdate draws connection request user s))
  | .tquery => (handleTquery host request user s).map (onRegistry s)
  | .monitoring => some (.deferred, s)
  | .build => guarded user s .load ((s.registry.handleBuild host io request).map (onRegistry s))
  | .load => guarded user s .load (some (onRegistry s (s.registry.handleLoad host request)))
  | .upload => guarded user s .load ((s.registry.handleUpload host request).map (onRegistry s))
  | .unload => guarded user s .unload (some (onRegistry s (s.registry.handleUnload request)))
  | .drop => guarded user s .unload (some (onRegistry s (s.registry.handleDrop host io request)))
  | .begin => guarded user s .update (some (onRegistry s (s.registry.handleBegin request draws)))
  | .commit => guarded user s .update (some (onRegistry s (s.registry.handleTxnEnd request true)))
  | .rollback =>
    guarded user s .update (some (onRegistry s (s.registry.handleTxnEnd request false)))
  | .checkpoint =>
    guarded user s .update (some (onRegistry s (s.registry.handleCheckpoint host io request)))
  | .backup =>
    guarded user s .backup (some (onRegistry s (s.registry.handleBackup host io request)))
  | .restore =>
    guarded user s .restore (some (onRegistry s (s.registry.handleRestore host io request)))
  | .export => guarded user s .export ((s.registry.handleExport host request).map (onRegistry s))
  | .batchInsert =>
    guarded user s .update ((s.registry.handleBatch host request true).map (onRegistry s))
  | .batchRemove =>
    guarded user s .update ((s.registry.handleBatch host request false).map (onRegistry s))
  | .userCreate =>
    guarded user s .admin (some (onUsers s (handleUserCreate host draws request s.users)))
  | .userDrop => guarded user s .admin (some (onUsers s (handleUserDrop draws request s.users)))
  | .userPassword => some (onUsers s (handleUserPassword host draws request s.users user))
  | .userGrant =>
    guarded user s .admin (some (onUsers s (handleUserGrant draws request s.users true)))
  | .userRevoke =>
    guarded user s .admin (some (onUsers s (handleUserGrant draws request s.users false)))
  | .userShow | .log | .tasklist =>
    guarded user s .admin (some (.done { status := 200, body := .listing }, s))
  | .cancel =>
    if s.users.hasPriv user .admin || s.users.hasPriv user .update then
      let reply := handleCancel request user s
      some (.done reply.1, { s with tasks := reply.2 })
    else some (.done forbidden, s)

/-- `dispatch`, for a resolved caller. -/
def dispatch (caller : Option Text) : Option (Dispatch Answer × ApiState) :=
  match route request with
  | .login => some (onUsers s (handleLogin host draws request s.users))
  | .logout =>
    match handleLogout request s.users with
    | none => some (.crashed, s)
    | some reply => some (onUsers s reply)
  | .console => some (.done { status := 200, body := .listing }, s)
  | endpoint =>
    match caller with
    | none => some (.done unauthorized, s)
    | some user => serve host draws io connection request user s endpoint

/-- The critical section of `handle`. -/
def handle : Option (Dispatch Answer × ApiState) :=
  match resolveUser host draws request s.users with
  | none => some (.crashed, s)
  | some (caller, users) => dispatch host draws io connection request { s with users } caller

/-- `execute_query_job`: an update takes no notice of the flag, a query may. -/
def executeQueryJob (noticed : Bool) (job : QueryJob) : Option (Resp Answer × ApiState) :=
  let finished := { s with tasks := assocErase job.taskId s.tasks }
  let cancelled := noticed && ((s.tasks.lookup job.taskId).map TaskEntry.cancel).getD false
  match s.registry.heap[job.db]? with
  | none => none
  | some session =>
    if cancelled && !host.isUpdateSparql job.sparql then
      some ({ status := 400, body := .error "query cancelled".toList }, finished)
    else
      (host.query session job.sparql).map fun (outcome, session) =>
        (.ofQuery outcome, { finished with registry := s.registry.put job.db session })

end Dispatch

/-! ## Runs -/

inductive ApiEvent where
  /-- A request arrives on a connection. -/
  | request (draws : Draws) (io : Io) (connection : Nat) (request : Request)
  /-- The deferred query of a connection runs. -/
  | finish (connection : Nat) (noticed : Bool)

/-- A connection without a deferred query has nothing to run. -/
def step (host : ApiHost α Read Answer) (s : ApiState) :
    ApiEvent → Option (Option (Dispatch Answer) × ApiState)
  | .request draws io connection request =>
    (handle host draws io connection request s).map fun (dispatch, s) => (some dispatch, s)
  | .finish connection noticed =>
    match s.jobs.lookup connection with
    | none => some (none, s)
    | some job =>
      (executeQueryJob host { s with jobs := assocErase connection s.jobs } noticed job).map
        fun (resp, s) => (some (.done resp), s)

/-- A server that has just been bound. -/
def bind (users : UserStore) (disk : Disk) : ApiState :=
  { users := { users with sessions := [] }, registry := .empty disk, tasks := [], jobs := [] }

end GStore.Http
