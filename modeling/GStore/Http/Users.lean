import GStore.Foundation.Assoc
import GStore.Http.Request

/-! # Users and privileges

`http_users.rs`: the user table and the login sessions. The file it is kept in is left out but
for whether it can be written; the hash of a password, random numbers and the clock are given. -/

namespace GStore

namespace Http

open Reason

inductive Privilege where
  | query
  | load
  | unload
  | update
  | backup
  | restore
  | «export»
  | admin
deriving DecidableEq

def rootUser : Text := "root".toList

namespace Privilege

def parse (text : Text) : Option Privilege :=
  let token := String.ofList (trim text)
  if token = "query" ∨ token = "1" then some query
  else if token = "load" ∨ token = "2" then some load
  else if token = "unload" ∨ token = "3" then some unload
  else if token = "update" ∨ token = "4" then some update
  else if token = "backup" ∨ token = "5" then some backup
  else if token = "restore" ∨ token = "6" then some restore
  else if token = "export" ∨ token = "7" then some .export
  else if token = "admin" ∨ token = "8" then some admin
  else none

/-- Blanks are skipped; an unknown name fails the list. -/
def parseTokens : List Text → Option (Finset Privilege)
  | [] => some ∅
  | token :: rest =>
    if trim token = [] then parseTokens rest
    else do
      let privilege ← parse token
      return insert privilege (← parseTokens rest)

def parseList (text : Text) : Option (Finset Privilege) := parseTokens (text.splitOn ',')

end Privilege

structure User where
  name : Text
  salt : UInt64
  hash : UInt64
  privileges : Finset Privilege

def User.has (user : User) (privilege : Privilege) : Bool :=
  decide (user.name = rootUser ∨ .admin ∈ user.privileges ∨ privilege ∈ user.privileges)

/-- An issued login session. -/
structure LoginSession where
  user : Text
  created : Nat

structure UserStore where
  users : List (Text × User)
  sessions : List (Text × LoginSession)

/-- What a request draws from its surroundings. -/
structure Draws where
  /-- Seconds on the clock. -/
  now : Nat
  salt : UInt64
  token : Text
  /-- The first number that is drawn for an id. -/
  id : Nat
  /-- Whether the user table can be written. -/
  savesUsers : Bool

/-- The time to live of a session, in seconds. -/
def sessionTtl : Nat := 24 * 3600

namespace UserStore

variable (hashPassword : Text → UInt64 → UInt64) (draws : Draws) (store : UserStore)

/-- The answer of a mutation whose last step writes the table. -/
def saved (after : UserStore) : Except Text Unit × UserStore :=
  (if draws.savesUsers then .ok () else .error "cannot write the user table".toList, after)

def get (name : Text) : Option User := store.users.lookup name

def hasPriv (name : Text) (privilege : Privilege) : Bool :=
  match store.get name with
  | some user => user.has privilege
  | none => false

def validateName (name : Text) : Except Text Unit :=
  if name = [] ∨ 64 < (utf8 name).length then
    .error "username must be 1..64 characters".toList
  else if name.all fun char => char.isAlphanum || char == '_' || char == '-' then .ok ()
  else .error "username may only contain [A-Za-z0-9_-]".toList

def quoted (front : String) (name : Text) (back : String) : Text :=
  front.toList ++ '\'' :: name ++ '\'' :: back.toList

def add (name password : Text) (privileges : Finset Privilege) : Except Text Unit × UserStore :=
  match validateName name with
  | .error message => (.error message, store)
  | .ok () =>
    if password = [] then (.error "password must not be empty".toList, store)
    else if (store.get name).isSome then
      (.error (quoted "user " name " already exists"), store)
    else
      let user : User :=
        { name, salt := draws.salt, hash := hashPassword password draws.salt, privileges }
      saved draws { store with users := assocInsert name user store.users }

/-- The sessions of the user go with the user. -/
def dropUser (name : Text) : Except Text Unit × UserStore :=
  if name = rootUser then (.error "cannot drop the root user".toList, store)
  else if (store.get name).isNone then
    (.error (quoted "user " name " does not exist"), store)
  else
    saved draws
      { users := assocErase name store.users
        sessions := store.sessions.filter fun entry => entry.2.user != name }

def setPassword (name password : Text) : Except Text Unit × UserStore :=
  if password = [] then (.error "password must not be empty".toList, store)
  else
    match store.get name with
    | none => (.error (quoted "user " name " does not exist"), store)
    | some user =>
      let user := { user with salt := draws.salt, hash := hashPassword password draws.salt }
      saved draws { store with users := assocInsert name user store.users }

def modifyPrivs (name : Text) (change : Finset Privilege → Finset Privilege) :
    Except Text Unit × UserStore :=
  if name = rootUser then (.error "cannot change privileges for the root user".toList, store)
  else
    match store.get name with
    | none => (.error (quoted "user " name " does not exist"), store)
    | some user =>
      let user := { user with privileges := change user.privileges }
      saved draws { store with users := assocInsert name user store.users }

def grant (name : Text) (privileges : Finset Privilege) : Except Text Unit × UserStore :=
  store.modifyPrivs draws name (· ∪ privileges)

def revoke (name : Text) (privileges : Finset Privilege) : Except Text Unit × UserStore :=
  store.modifyPrivs draws name (· \ privileges)

def clearPrivileges (name : Text) : Except Text Unit × UserStore :=
  store.modifyPrivs draws name fun _ => ∅

def verify (name password : Text) : Bool :=
  match store.get name with
  | some user => hashPassword password user.salt == user.hash
  | none => false

def login (name password : Text) : Option Text × UserStore :=
  if store.verify hashPassword name password then
    let session : LoginSession := { user := name, created := draws.now }
    (some draws.token, { store with sessions := assocInsert draws.token session store.sessions })
  else (none, store)

def forget (token : Text) : UserStore := { store with sessions := assocErase token store.sessions }

/-- A session that has expired, or whose user is gone, is forgotten. -/
def sessionUser (token : Text) : Option Text × UserStore :=
  match store.sessions.lookup token with
  | none => (none, store)
  | some session =>
    if sessionTtl < draws.now - session.created then (none, store.forget token)
    else if (store.get session.user).isSome then (some session.user, store)
    else (none, store.forget token)

end UserStore

end Http

end GStore
