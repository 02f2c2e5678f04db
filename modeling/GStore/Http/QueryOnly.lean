import GStore.Foundation.Unwinding
import GStore.Http.Threads

/-! # User tables that one user tells apart

Two user tables agree but for the password and the sessions of one user. Every operation on both
keeps them so, what the user alone may do keeps them so on one side, and a request that is not
the user's has the same caller on both. -/

namespace GStore.Http

open Db Reason

variable {α Read Answer : Type}

/-! ## Users -/

/-- What is seen of a user entry: not the user's own password. -/
def shown (user name : Text) (entry : User) : User :=
  if name = user then { entry with salt := 0, hash := 0 } else entry

def foreign (user : Text) (session : LoginSession) : Bool := session.user != user

/-- User tables that differ in the password and the sessions of one user at most. -/
structure AlikeUsers (user : Text) (left right : UserStore) : Prop where
  entries : ∀ name, (left.get name).map (shown user name) = (right.get name).map (shown user name)
  sessions : ∀ token, (left.sessions.lookup token).filter (foreign user) =
    (right.sessions.lookup token).filter (foreign user)

namespace AlikeUsers

variable {user name token : Text} {left middle right : UserStore} {draws : Draws}

theorem refl (user : Text) (users : UserStore) : AlikeUsers user users users :=
  ⟨fun _ => rfl, fun _ => rfl⟩

theorem symm (alike : AlikeUsers user left right) : AlikeUsers user right left :=
  ⟨fun name => (alike.entries name).symm, fun token => (alike.sessions token).symm⟩

theorem trans (first : AlikeUsers user left middle) (second : AlikeUsers user middle right) :
    AlikeUsers user left right :=
  ⟨fun name => (first.entries name).trans (second.entries name),
    fun token => (first.sessions token).trans (second.sessions token)⟩

theorem get_other (alike : AlikeUsers user left right) (different : name ≠ user) :
    left.get name = right.get name := by
  have same := alike.entries name
  have whole : shown user name = id := by
    funext entry
    exact if_neg different
  rwa [whole, Option.map_id, id, id] at same

theorem isSome_get (alike : AlikeUsers user left right) (name : Text) :
    (left.get name).isSome = (right.get name).isSome := by
  rw [← Option.isSome_map (f := shown user name), alike.entries name, Option.isSome_map]

theorem has_shown (user name : Text) (entry : User) (privilege : Privilege) :
    (shown user name entry).has privilege = entry.has privilege := by
  rw [shown]
  split <;> rfl

theorem hasPriv (alike : AlikeUsers user left right) (name : Text) (privilege : Privilege) :
    left.hasPriv name privilege = right.hasPriv name privilege := by
  have same := congrArg (fun entry => (entry.map fun entry => entry.has privilege).getD false)
    (alike.entries name)
  simp only [Option.map_map, Function.comp_def, has_shown] at same
  have read : ∀ store : UserStore, store.hasPriv name privilege =
      ((store.get name).map fun entry => entry.has privilege).getD false := by
    intro store
    rw [UserStore.hasPriv]
    cases store.get name <;> rfl
  rw [read, read, same]

theorem verify_other (alike : AlikeUsers user left right) (different : name ≠ user)
    (hashPassword : Text → UInt64 → UInt64) (password : Text) :
    left.verify hashPassword name password = right.verify hashPassword name password := by
  rw [UserStore.verify, UserStore.verify, alike.get_other different]

/-! ### Sessions -/

theorem lookup_foreign (alike : AlikeUsers user left right) {session : LoginSession}
    (other : session.user ≠ user) (found : left.sessions.lookup token = some session) :
    right.sessions.lookup token = some session := by
  have same := alike.sessions token
  rw [found, Option.filter_some_pos (by simpa [foreign] using other)] at same
  exact (Option.filter_eq_some_iff.mp same.symm).1

theorem forget (alike : AlikeUsers user left right) (token : Text) :
    AlikeUsers user (left.forget token) (right.forget token) where
  entries := alike.entries
  sessions other := by
    rw [UserStore.forget, UserStore.forget, lookup_assocErase, lookup_assocErase]
    split
    · rfl
    · exact alike.sessions other

/-- A session that is no other user's may go on one side only. -/
theorem forget_own (alike : AlikeUsers user left right)
    (own : ∀ session, left.sessions.lookup token = some session → session.user = user) :
    AlikeUsers user (left.forget token) right where
  entries := alike.entries
  sessions other := by
    rw [UserStore.forget, lookup_assocErase]
    split
    · rename_i same
      rw [← alike.sessions other, eq_of_beq same]
      cases found : left.sessions.lookup token with
      | none => rfl
      | some session =>
        rw [Option.filter_some_neg (by simp [foreign, own session found])]
        rfl
    · exact alike.sessions other

/-- A session of the user may come on one side only, in place of no other user's. -/
theorem login_own (alike : AlikeUsers user left right)
    (spare : ∀ session, left.sessions.lookup token = some session → session.user = user)
    {session : LoginSession} (own : session.user = user) :
    AlikeUsers user { left with sessions := assocInsert token session left.sessions } right where
  entries := alike.entries
  sessions other := by
    rw [lookup_assocInsert]
    split
    · rename_i same
      rw [← alike.sessions other, eq_of_beq same,
        Option.filter_some_neg (by simp [foreign, own])]
      cases found : left.sessions.lookup token with
      | none => rfl
      | some session =>
        rw [Option.filter_some_neg (by simp [foreign, spare session found])]
    · exact alike.sessions other

theorem login_both (alike : AlikeUsers user left right) (session : LoginSession) :
    AlikeUsers user { left with sessions := assocInsert token session left.sessions }
      { right with sessions := assocInsert token session right.sessions } where
  entries := alike.entries
  sessions other := by
    rw [lookup_assocInsert, lookup_assocInsert]
    split
    · rfl
    · exact alike.sessions other

/-! ### Entries -/

/-- An entry changes on both sides. -/
theorem insert_both (alike : AlikeUsers user left right) {first second : User}
    (same : shown user name first = shown user name second) :
    AlikeUsers user { left with users := assocInsert name first left.users }
      { right with users := assocInsert name second right.users } where
  entries other := by
    rw [UserStore.get, UserStore.get, lookup_assocInsert, lookup_assocInsert]
    split
    · rename_i equal
      rw [eq_of_beq equal, Option.map_some, Option.map_some, same]
    · exact alike.entries other
  sessions := alike.sessions

/-- The user's own password changes on one side. -/
theorem insert_own (alike : AlikeUsers user left right) {first second : User}
    (found : left.get user = some first) (same : shown user user second = shown user user first) :
    AlikeUsers user { left with users := assocInsert user second left.users } right where
  entries other := by
    rw [UserStore.get, lookup_assocInsert]
    split
    · rename_i equal
      rw [← alike.entries other, eq_of_beq equal, found, Option.map_some, Option.map_some, same]
    · exact alike.entries other
  sessions := alike.sessions

theorem erase_both (alike : AlikeUsers user left right)
    (leftNodup : (left.sessions.map Prod.fst).Nodup)
    (rightNodup : (right.sessions.map Prod.fst).Nodup) (name : Text) :
    AlikeUsers user
      { users := assocErase name left.users
        sessions := left.sessions.filter fun entry => entry.2.user != name }
      { users := assocErase name right.users
        sessions := right.sessions.filter fun entry => entry.2.user != name } where
  entries other := by
    rw [UserStore.get, UserStore.get, lookup_assocErase, lookup_assocErase]
    split
    · rfl
    · exact alike.entries other
  sessions token := by
    have swap : ∀ found : Option LoginSession,
        (found.filter fun session => session.user != name).filter (foreign user) =
          (found.filter (foreign user)).filter fun session => session.user != name := by
      intro found
      rw [Option.filter_filter, Option.filter_filter]
      congr 1
      funext session
      exact Bool.and_comm _ _
    dsimp only
    rw [lookup_filter (fun session : LoginSession => session.user != name) leftNodup,
      lookup_filter (fun session : LoginSession => session.user != name) rightNodup, swap, swap,
      alike.sessions token]

/-! ### Operations -/

variable (hashPassword : Text → UInt64 → UInt64)

theorem add (alike : AlikeUsers user left right) (draws : Draws) (name password : Text)
    (privileges : Finset Privilege) :
    AlikeUsers user (left.add hashPassword draws name password privileges).2
      (right.add hashPassword draws name password privileges).2 := by
  rw [UserStore.add, UserStore.add]
  split
  · exact alike
  · rw [alike.isSome_get name]
    split
    · exact alike
    · split
      · exact alike
      · exact alike.insert_both rfl

theorem dropUser (alike : AlikeUsers user left right)
    (leftNodup : (left.sessions.map Prod.fst).Nodup)
    (rightNodup : (right.sessions.map Prod.fst).Nodup) (draws : Draws) (name : Text) :
    AlikeUsers user (left.dropUser draws name).2 (right.dropUser draws name).2 := by
  have missing : (left.get name).isNone = (right.get name).isNone := by
    rw [← Option.not_isSome, ← Option.not_isSome, alike.isSome_get name]
  rw [UserStore.dropUser, UserStore.dropUser, missing]
  split
  · exact alike
  · split
    · exact alike
    · exact alike.erase_both leftNodup rightNodup name

/-- A change that does the same to entries that show the same. -/
theorem change (alike : AlikeUsers user left right) (name : Text) (update : User → User)
    (keeps : ∀ first second : User, { first with salt := 0, hash := 0 } =
      { second with salt := 0, hash := 0 } → { update first with salt := 0, hash := 0 } =
      { update second with salt := 0, hash := 0 })
    (act : UserStore → UserStore) (does : ∀ store : UserStore, act store =
      match store.get name with
      | none => store
      | some entry => { store with users := assocInsert name (update entry) store.users }) :
    AlikeUsers user (act left) (act right) := by
  have same := alike.entries name
  rw [does, does]
  cases first : left.get name with
  | none =>
    rw [first] at same
    rw [Option.map_eq_none_iff.mp same.symm]
    exact alike
  | some entry =>
    rw [first] at same
    rcases Option.map_eq_some_iff.mp same.symm with ⟨other, second, equal⟩
    rw [second]
    refine alike.insert_both ?_
    rw [shown, shown] at equal ⊢
    split
    · rename_i own
      rw [if_pos own, if_pos own] at equal
      exact keeps entry other equal.symm
    · rename_i notOwn
      rw [if_neg notOwn, if_neg notOwn] at equal
      rw [equal]

theorem setPassword (alike : AlikeUsers user left right) (draws : Draws) (name password : Text) :
    AlikeUsers user (left.setPassword hashPassword draws name password).2
      (right.setPassword hashPassword draws name password).2 := by
  by_cases empty : password = []
  · rw [UserStore.setPassword, UserStore.setPassword, if_pos empty, if_pos empty]
    exact alike
  · refine alike.change name (fun entry =>
      { entry with salt := draws.salt, hash := hashPassword password draws.salt }) ?_
      (fun store => (store.setPassword hashPassword draws name password).2) ?_
    · intro first second same
      simp only [User.mk.injEq] at same ⊢
      exact ⟨same.1, trivial, trivial, same.2.2.2⟩
    · intro store
      rw [UserStore.setPassword, if_neg empty]
      cases store.get name <;> rfl

theorem modifyPrivs (alike : AlikeUsers user left right) (draws : Draws) (name : Text)
    (changed : Finset Privilege → Finset Privilege) :
    AlikeUsers user (left.modifyPrivs draws name changed).2
      (right.modifyPrivs draws name changed).2 := by
  by_cases root : name = rootUser
  · rw [UserStore.modifyPrivs, UserStore.modifyPrivs, if_pos root, if_pos root]
    exact alike
  · refine alike.change name (fun entry => { entry with privileges := changed entry.privileges }) ?_
      (fun store => (store.modifyPrivs draws name changed).2) ?_
    · intro first second same
      simp only [User.mk.injEq] at same ⊢
      exact ⟨same.1, trivial, trivial, by rw [same.2.2.2]⟩
    · intro store
      rw [UserStore.modifyPrivs, if_neg root]
      cases store.get name <;> rfl

/-- The user's own password changes on one side. -/
theorem setPassword_left (alike : AlikeUsers user left right) (draws : Draws) (password : Text) :
    AlikeUsers user (left.setPassword hashPassword draws user password).2 right := by
  rw [UserStore.setPassword]
  split
  · exact alike
  · split
    · exact alike
    · rename_i entry found
      refine alike.insert_own found ?_
      rw [shown, shown, if_pos rfl, if_pos rfl]

/-- What a login does on one side, for the user. -/
theorem login_left (alike : AlikeUsers user left right) (draws : Draws) (password : Text)
    (spare : ∀ session, left.sessions.lookup draws.token = some session → session.user = user) :
    AlikeUsers user (left.login hashPassword draws user password).2 right := by
  rw [UserStore.login]
  split
  · exact alike.login_own spare rfl
  · exact alike

theorem login (alike : AlikeUsers user left right) (draws : Draws) (name password : Text)
    (spareLeft : ∀ session, left.sessions.lookup draws.token = some session →
      session.user = user)
    (spareRight : ∀ session, right.sessions.lookup draws.token = some session →
      session.user = user) :
    AlikeUsers user (left.login hashPassword draws name password).2
      (right.login hashPassword draws name password).2 := by
  by_cases own : name = user
  · rw [own]
    have rightOnly := (alike.symm.login_left hashPassword draws password spareRight).symm
    exact rightOnly.login_left hashPassword draws password spareLeft
  · rw [UserStore.login, UserStore.login, alike.verify_other own]
    split
    · exact alike.login_both _
    · exact alike

end AlikeUsers

/-! ## Callers -/

section Callers

variable {host : ApiHost α Read Answer} {draws : Draws} {request : Request} {user token : Text}
  {left right users : UserStore}

/-- No request names the user in its Basic credentials and presents another user's session. -/
def NoMixedToken (user : Text) (request : Request) (users : UserStore) : Prop :=
  ∀ password token session, request.parseBasicAuth = some (some (user, password)) →
    request.bearerOrSessionToken = some (some token) →
    users.sessions.lookup token = some session → session.user = user

/-- A token that is no other user's stands for no one or for the user. -/
theorem sessionUser_own (draws : Draws)
    (own : ∀ session, left.sessions.lookup token = some session → session.user = user) :
    ((left.sessionUser draws token).1 = none ∨ (left.sessionUser draws token).1 = some user) ∧
      ∀ other, AlikeUsers user left other →
        AlikeUsers user (left.sessionUser draws token).2 other := by
  rw [UserStore.sessionUser]
  cases found : left.sessions.lookup token with
  | none => exact ⟨.inl rfl, fun _ alike => alike⟩
  | some session =>
    dsimp only
    split
    · exact ⟨.inl rfl, fun _ alike => alike.forget_own own⟩
    · split
      · exact ⟨.inr (congrArg some (own session found)), fun _ alike => alike⟩
      · exact ⟨.inl rfl, fun _ alike => alike.forget_own own⟩

/-- Another user's token stands for the same user on both sides. -/
theorem sessionUser_foreign (alike : AlikeUsers user left right) (draws : Draws)
    {session : LoginSession} (found : left.sessions.lookup token = some session)
    (other : session.user ≠ user) :
    (left.sessionUser draws token).1 = (right.sessionUser draws token).1 ∧
      AlikeUsers user (left.sessionUser draws token).2 (right.sessionUser draws token).2 := by
  rw [UserStore.sessionUser, UserStore.sessionUser, found, alike.lookup_foreign other found]
  dsimp only
  split
  · exact ⟨rfl, alike.forget token⟩
  · rw [alike.isSome_get]
    split
    · exact ⟨rfl, alike⟩
    · exact ⟨rfl, alike.forget token⟩

theorem sessionUser_some {name : Text} (known : (users.sessionUser draws token).1 = some name) :
    (users.sessionUser draws token).2 = users ∧
      ∃ session, users.sessions.lookup token = some session ∧ session.user = name := by
  rw [UserStore.sessionUser] at known ⊢
  cases found : users.sessions.lookup token with
  | none =>
    rw [found] at known
    cases known
  | some session =>
    rw [found] at known
    dsimp only at known ⊢
    split at known
    · cases known
    · rename_i alive
      rw [if_neg alive]
      split at known
      · rename_i present
        rw [if_pos present]
        exact ⟨rfl, session, rfl, Option.some.inj known⟩
      · cases known

/-- A resolved caller leaves the users, and presents no other user's session. -/
theorem resolveUser_mine {after : UserStore}
    (known : resolveUser host draws request users = some (some user, after))
    (unmixed : NoMixedToken user request users) : after = users ∧
      ∀ token session, request.bearerOrSessionToken = some (some token) →
        users.sessions.lookup token = some session → session.user = user := by
  rw [resolveUser] at known
  split at known
  · cases known
  · rename_i credentials basic
    split at known
    · rename_i given verified
      cases known
      have named := (Option.filter_eq_some_iff.mp verified).1
      rw [named] at basic
      exact ⟨rfl, fun token session => unmixed given.2 token session basic⟩
    · rcases Option.map_eq_some_iff.mp known with ⟨presented, bearer, same⟩
      cases presented with
      | none => cases same
      | some token =>
        have who := congrArg Prod.fst same
        rcases sessionUser_some who with ⟨kept, session, found, own⟩
        refine ⟨(congrArg Prod.snd same).symm.trans kept, ?_⟩
        intro other held also looked
        rw [bearer] at also
        cases also
        rw [found] at looked
        cases looked
        exact own

/-- The caller that a presented token stands for. -/
def byToken (draws : Draws) (request : Request) (users : UserStore) :
    Option (Option Text × UserStore) :=
  request.bearerOrSessionToken.map fun token =>
    match token with
    | some token => users.sessionUser draws token
    | none => (none, users)

/-- The credentials that are given, if they are right. -/
def verified (host : ApiHost α Read Answer) (credentials : Option (Text × Text))
    (users : UserStore) : Option (Text × Text) :=
  credentials.filter fun given => users.verify host.hashPassword given.1 given.2

theorem resolveUser_eq : resolveUser host draws request users =
    match request.parseBasicAuth with
    | none => none
    | some credentials =>
      match verified host credentials users with
      | some given => some (some given.1, users)
      | none => byToken draws request users := by
  rfl

/-- The outcomes of a request that is not the user's. -/
def SameCaller (user : Text) (request : Request) (right : UserStore)
    (first second : Option (Option Text × UserStore)) : Prop :=
  (first = none ∧ (second = none ∨ second = some (some user, right) ∧
    (∃ password, request.parseBasicAuth = some (some (user, password))) ∧
      request.bearerOrSessionToken = none)) ∨
    ∃ who leftAfter also rightAfter, first = some (who, leftAfter) ∧
      second = some (also, rightAfter) ∧ AlikeUsers user leftAfter rightAfter ∧
      (also = who ∨ who = none ∧ also = some user)

theorem own_right (alike : AlikeUsers user left right)
    (own : ∀ session, left.sessions.lookup token = some session → session.user = user) :
    ∀ session, right.sessions.lookup token = some session → session.user = user := by
  intro session found
  by_contra other
  exact other (own session (alike.symm.lookup_foreign other found))

theorem byToken_other (alike : AlikeUsers user left right)
    (notMine : ∀ users, byToken draws request left ≠ some (some user, users)) :
    SameCaller user request right (byToken draws request left) (byToken draws request right) := by
  rw [byToken, byToken]
  rw [byToken] at notMine
  cases bearer : request.bearerOrSessionToken with
  | none => exact .inl ⟨rfl, .inl rfl⟩
  | some presented =>
    rw [bearer] at notMine
    cases presented with
    | none => exact .inr ⟨none, left, none, right, rfl, rfl, alike, .inl rfl⟩
    | some token =>
      by_cases own : ∀ session, left.sessions.lookup token = some session → session.user = user
      · have first := sessionUser_own draws own
        have second := sessionUser_own draws (own_right alike own)
        have kept := (second.2 _ (first.2 right alike).symm).symm
        have nobody : (left.sessionUser draws token).1 = none :=
          first.1.resolve_right fun mine => notMine _ (by rw [← mine]; rfl)
        refine .inr ⟨(left.sessionUser draws token).1, (left.sessionUser draws token).2,
          (right.sessionUser draws token).1, (right.sessionUser draws token).2, rfl, rfl, kept, ?_⟩
        rw [nobody]
        rcases second.1 with also | also
        · exact .inl also
        · exact .inr ⟨rfl, also⟩
      · push Not at own
        rcases own with ⟨session, found, other⟩
        have same := sessionUser_foreign alike draws found other
        exact .inr ⟨_, _, _, _, rfl, rfl, same.2, .inl same.1.symm⟩

/-- A request that is not the user's has the same caller on both sides, or no caller on one side
and the user on the other. -/
theorem resolveUser_other (alike : AlikeUsers user left right)
    (unmixed : NoMixedToken user request left)
    (notMine : ∀ users, resolveUser host draws request left ≠ some (some user, users)) :
    SameCaller user request right (resolveUser host draws request left)
      (resolveUser host draws request right) := by
  rw [resolveUser_eq] at notMine
  rw [resolveUser_eq, resolveUser_eq]
  cases basic : request.parseBasicAuth with
  | none => exact .inl ⟨rfl, .inl rfl⟩
  | some credentials =>
    rw [basic] at notMine
    dsimp only at notMine ⊢
    cases here : verified host credentials left with
    | some given =>
      rw [here] at notMine
      have other : given.1 ≠ user := fun same => notMine left (by rw [← same])
      have named := Option.filter_eq_some_iff.mp here
      have there : verified host credentials right = some given := by
        rw [verified, named.1]
        exact Option.filter_some_pos (by rw [← alike.verify_other other]; exact named.2)
      rw [there]
      exact .inr ⟨_, left, _, right, rfl, rfl, alike, .inl rfl⟩
    | none =>
      rw [here] at notMine
      dsimp only at notMine ⊢
      cases there : verified host credentials right with
      | none => exact byToken_other alike notMine
      | some given =>
        have named := Option.filter_eq_some_iff.mp there
        have mine : given.1 = user := by
          by_contra other
          rw [verified, named.1, Option.filter_some_pos
            (by rw [alike.verify_other other]; exact named.2)] at here
          cases here
        dsimp only
        rw [mine]
        have presented : request.parseBasicAuth = some (some (user, given.2)) := by
          rw [basic, named.1, ← mine]
        have own : ∀ token session, request.bearerOrSessionToken = some (some token) →
            left.sessions.lookup token = some session → session.user = user :=
          fun token session => unmixed given.2 token session presented
        rw [byToken] at notMine ⊢
        cases bearer : request.bearerOrSessionToken with
        | none => exact .inl ⟨rfl, .inr ⟨rfl, ⟨given.2, presented⟩, bearer⟩⟩
        | some presented =>
          rw [bearer] at notMine
          cases presented with
          | none => exact .inr ⟨none, left, _, right, rfl, rfl, alike, .inr ⟨rfl, rfl⟩⟩
          | some token =>
            have first := sessionUser_own draws fun session => own token session bearer
            have nobody : (left.sessionUser draws token).1 = none :=
              first.1.resolve_right fun mine => notMine _ (by rw [← mine]; rfl)
            exact .inr ⟨(left.sessionUser draws token).1,
              (left.sessionUser draws token).2, some user, right, rfl, rfl,
              first.2 right alike, .inr ⟨nobody, rfl⟩⟩

end Callers

end GStore.Http
