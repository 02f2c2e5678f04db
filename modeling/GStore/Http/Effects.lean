import GStore.Db.Active
import GStore.Http.Api

/-! # What a request does to the databases

Every endpoint is one of a few effects on the registry: a directory is written, a database
comes or goes under a name that no transaction holds, triples are added, a statement runs. The
transaction endpoints are told apart by the id they work on. -/

namespace GStore.Http

open Db Reason

variable {α Read Answer : Type}

/-! ## Reading the registry -/

namespace Registry

variable {registry : Registry} {name : Text} {handle : Handle} {session : Session}

theorem database_eq_some : registry.database name = some (handle, session) ↔
    registry.dbs.lookup name = some handle ∧ registry.heap[handle]? = some session := by
  constructor
  · intro found
    rcases Option.bind_eq_some_iff.mp found with ⟨bound, looked, rest⟩
    rcases Option.bind_eq_some_iff.mp rest with ⟨held, read, same⟩
    cases same
    exact ⟨looked, read⟩
  · intro found
    simp [database, found.1, found.2]

theorem getElem?_put (other : Handle) :
    (registry.put handle session).heap[other]? =
      if other = handle ∧ handle < registry.heap.length then some session
      else registry.heap[other]? := by
  rw [put, List.getElem?_set]
  by_cases same : handle = other
  · subst same
    by_cases inside : handle < registry.heap.length
    · simp [inside]
    · simp [inside]
  · simp [same, eq_comm]

theorem getElem?_put_self {before : Session} (found : registry.heap[handle]? = some before) :
    (registry.put handle session).heap[handle]? = some session := by
  have inside := (List.getElem?_eq_some_iff.mp found).1
  rw [getElem?_put, if_pos ⟨rfl, inside⟩]

theorem getElem?_put_of_ne {other : Handle} (different : other ≠ handle) :
    (registry.put handle session).heap[other]? = registry.heap[other]? := by
  rw [getElem?_put, if_neg fun same => different same.1]

/-- A handle in use is not the next one. -/
theorem lt_length {before : Session} (found : registry.heap[handle]? = some before) :
    handle < registry.heap.length :=
  (List.getElem?_eq_some_iff.mp found).1

theorem getElem?_install_of_lt {other : Handle} (inside : other < registry.heap.length) :
    (registry.install name session).heap[other]? = registry.heap[other]? :=
  List.getElem?_append_left inside

theorem getElem?_install_new :
    (registry.install name session).heap[registry.heap.length]? = some session := by
  simp [install]

end Registry

theorem not_mem_newId (drawn : Nat) (taken : List Nat) : Registry.newId drawn taken ∉ taken := by
  rw [Registry.newId]
  split
  · intro member
    have bound : ∀ (rest : List Nat) (start : Nat), start ≤ rest.foldl max start ∧
        ∀ id ∈ rest, id ≤ rest.foldl max start := by
      intro rest
      induction rest with
      | nil => simp
      | cons head tail induction =>
        intro start
        have above := induction (max start head)
        refine ⟨(le_max_left _ _).trans above.1, ?_⟩
        intro id member
        rcases List.mem_cons.mp member with same | later
        · rw [same]
          exact (le_max_right start head).trans above.1
        · exact above.2 id later
    have small := (bound taken 0).2 _ member
    omega
  · assumption

/-! ## Effects -/

/-- Where a database that is saved or installed comes from. -/
def Origin (registry : Registry) (session : Session) : Prop :=
  (∃ triples, Session.build triples = some session) ∨
    (∃ path image, registry.disk.lookup path = some (.ok image) ∧
      session = Registry.ofImage image) ∨
    ∃ handle : Handle, registry.heap[handle]? = some session

/-- What loads from the disk loaded before, is a database just saved, or is what a failed
write left. -/
def Written (io : Io) (registry : Registry) (disk : Disk) : Prop :=
  ∀ path image, disk.lookup path = some (.ok image) →
    registry.disk.lookup path = some (.ok image) ∨
      (∃ session, Origin registry session ∧ image = Registry.image session) ∨
      ∃ message, io = some (message, .ok image)

/-- What an endpoint other than those of transactions does; `Allowed` are the statements that
it may run on a database. -/
inductive Effect (host : ApiHost α Read Answer) (io : Io) (Allowed : Session → Text → Prop)
    (registry : Registry) : Registry → Prop where
  | wrote (disk : Disk) (written : Written io registry disk) :
      Effect host io Allowed registry { registry with disk }
  | installed (name : Text) (session : Session) (disk : Disk)
      (free : registry.dbTxn.lookup name = none) (origin : Origin registry session)
      (idle : session.txn = none) (written : Written io registry disk) :
      Effect host io Allowed registry { registry.install name session with disk }
  | removed (name : Text) (disk : Disk) (free : registry.dbTxn.lookup name = none)
      (written : Written io registry disk) :
      Effect host io Allowed registry
        { registry with dbs := assocErase name registry.dbs, disk }
  | inserted (name : Text) (handle : Handle) (session after : Session)
      (triples : List GroundTriple) (count : Nat) (free : registry.dbTxn.lookup name = none)
      (found : registry.database name = some (handle, session))
      (ran : session.insertAll triples = some (after, count)) :
      Effect host io Allowed registry (registry.put handle after)
  | queried (handle : Handle) (session after : Session) (sparql : Text)
      (outcome : Except Text (QueryResult Answer))
      (found : registry.heap[handle]? = some session) (allowed : Allowed session sparql)
      (ran : host.query session sparql = some (outcome, after)) :
      Effect host io Allowed registry (registry.put handle after)

/-- Any number of effects. -/
abbrev Effects (host : ApiHost α Read Answer) (io : Io) (Allowed : Session → Text → Prop) :=
  Relation.ReflTransGen (Effect host io Allowed)

section Handlers

variable {host : ApiHost α Read Answer} {io : Io} {Allowed : Session → Text → Prop}
  {request : Request} {registry after : Registry} {resp : Resp Answer}

theorem Written.refl (io : Io) (registry : Registry) : Written io registry registry.disk :=
  fun _ _ found => .inl found

theorem written_erase (io : Io) (registry : Registry) (path : Text) :
    Written io registry (assocErase path registry.disk) := by
  intro other image found
  rw [lookup_assocErase] at found
  split at found
  · cases found
  · exact .inl found

theorem written_left {message path : Text} {left : Except Text Image}
    (failed : io = some (message, left)) (registry : Registry) :
    Written io registry (assocInsert path left registry.disk) := by
  intro other image found
  rw [lookup_assocInsert] at found
  split at found
  · cases found
    exact .inr (.inr ⟨message, failed⟩)
  · exact .inl found

theorem written_save (io : Io) (path : Text) {session : Session} (origin : Origin registry session) :
    ∃ disk, (registry.save path session io).2 = { registry with disk } ∧
      Written io registry disk := by
  cases failing : io with
  | none =>
    refine ⟨_, rfl, ?_⟩
    intro other image found
    rw [lookup_assocInsert] at found
    split at found
    · cases found
      exact .inr (.inl ⟨session, origin, rfl⟩)
    · exact .inl found
  | some failure => exact ⟨_, rfl, written_left rfl registry⟩

theorem build_idle {triples : List Triple} {session : Session}
    (built : Session.build triples = some session) : session.txn = none := by
  rcases Option.map_eq_some_iff.mp built with ⟨encoded, -, same⟩
  rw [← same]
  rfl

/-- A save, and an installation if it succeeds. -/
theorem effect_save_install {name : Text} {session : Session} (path : Text)
    (free : registry.dbTxn.lookup name = none) (origin : Origin registry session)
    (idle : session.txn = none) :
    Effect host io Allowed registry (registry.save path session io).2 ∧
      Effect host io Allowed registry ((registry.save path session io).2.install name session) := by
  rcases written_save io path origin with ⟨disk, same, written⟩
  rw [same]
  exact ⟨.wrote disk written, .installed name session disk free origin idle written⟩

theorem effects_handleBuild
    (ran : registry.handleBuild host io request = some (resp, after)) :
    Effects host io Allowed registry after := by
  rw [Registry.handleBuild] at ran
  split at ran
  · cases ran
    exact .refl
  · rename_i name given
    split at ran
    · cases ran
      exact .refl
    · rename_i idle
      have free := Option.not_isSome_iff_eq_none.mp idle
      split at ran
      · cases ran
        exact .refl
      · rename_i triples source
        rcases Option.map_eq_some_iff.mp ran with ⟨session, built, same⟩
        have effect : Effect host io Allowed registry _ ∧ Effect host io Allowed registry _ :=
          effect_save_install (host.databaseDir name) free (.inl ⟨triples, built⟩) (build_idle built)
        split at same
        · rename_i message saved outcome
          cases same
          rw [outcome] at effect
          exact .single effect.1
        · rename_i saved outcome
          cases same
          rw [outcome] at effect
          exact .single effect.2

/-- `/load` looks at no transaction, so its name has to be free. -/
theorem effects_handleLoad (ran : registry.handleLoad host request = (resp, after))
    (free : ∀ name image, Registry.reqDbName request = some name →
      registry.disk.lookup (host.databaseDir name) = some (.ok image) →
      registry.dbTxn.lookup name = none) :
    Effects host io Allowed registry after := by
  rw [Registry.handleLoad] at ran
  split at ran
  · cases ran
    exact .refl
  · rename_i name given
    split at ran
    · cases ran
      exact .refl
    · cases ran
      exact .refl
    · rename_i image found
      cases ran
      exact .single (.installed name _ _ (free name image given found)
        (.inr (.inl ⟨_, image, found, rfl⟩)) rfl (.refl io registry))

theorem effects_openForUpload {name : Text} (free : registry.dbTxn.lookup name = none)
    (ran : registry.openForUpload host name = some (.ok after)) :
    Effects host io Allowed registry after ∧ after.dbTxn = registry.dbTxn := by
  rw [Registry.openForUpload] at ran
  split at ran
  · cases ran
    exact ⟨.refl, rfl⟩
  · split at ran
    · cases ran
    · rename_i image found
      cases ran
      exact ⟨.single (.installed name _ _ free (.inr (.inl ⟨_, image, found, rfl⟩)) rfl
        (.refl io registry)), rfl⟩
    · split at ran
      · cases ran
      · rename_i triples parsed
        rcases Option.map_eq_some_iff.mp ran with ⟨session, built, same⟩
        cases same
        exact ⟨.single (.installed name _ _ free (.inl ⟨triples, built⟩) (build_idle built)
          (.refl io registry)), rfl⟩

theorem effects_handleUpload
    (ran : registry.handleUpload host request = some (resp, after)) :
    Effects host io Allowed registry after := by
  rw [Registry.handleUpload] at ran
  split at ran
  · cases ran
    exact .refl
  · rename_i name given
    split at ran
    · cases ran
      exact .refl
    · rename_i idle
      have free := Option.not_isSome_iff_eq_none.mp idle
      dsimp only at ran
      split at ran
      · cases ran
        exact .refl
      · rename_i triples parsed
        rcases Option.bind_eq_some_iff.mp ran with ⟨opened, opening, rest⟩
        cases opened with
        | error message =>
          cases rest
          exact .refl
        | ok middle =>
          have first : Effects host io Allowed registry middle ∧ _ :=
            effects_openForUpload free opening
          rcases Option.bind_eq_some_iff.mp rest with ⟨⟨handle, session⟩, found, inserting⟩
          rcases Option.bind_eq_some_iff.mp inserting with ⟨⟨last, count⟩, inserted, same⟩
          cases same
          refine first.1.tail (.inserted name handle session last _ count ?_ found inserted)
          rw [first.2, free]

theorem effects_handleUnload (ran : registry.handleUnload request = (resp, after)) :
    Effects host io Allowed registry after := by
  rw [Registry.handleUnload] at ran
  split at ran
  · cases ran
    exact .refl
  · rename_i name given
    split at ran
    · cases ran
      exact .refl
    · rename_i idle
      split at ran
      · cases ran
        exact .refl
      · cases ran
        exact .single (.removed name _ (Option.not_isSome_iff_eq_none.mp idle)
          (.refl io registry))

theorem effects_handleDrop (ran : registry.handleDrop host io request = (resp, after)) :
    Effects host io Allowed registry after := by
  rw [Registry.handleDrop] at ran
  split at ran
  · cases ran
    exact .refl
  · rename_i name given
    split at ran
    · cases ran
      exact .refl
    · rename_i idle
      have free := Option.not_isSome_iff_eq_none.mp idle
      dsimp only at ran
      split at ran
      · split at ran
        · cases ran
          exact .single (.removed name _ free (.refl io registry))
        · cases ran
          exact .single (.removed name _ free (.refl io registry))
      · split at ran
        · cases ran
          exact .single (.removed name _ free (written_erase _ registry _))
        · cases ran
          exact .single (.removed name _ free (written_left rfl registry))

theorem effects_handleRestore (ran : registry.handleRestore host io request = (resp, after)) :
    Effects host io Allowed registry after := by
  rw [Registry.handleRestore] at ran
  split at ran
  · cases ran
    exact .refl
  · rename_i name given
    split at ran
    · cases ran
      exact .refl
    · split at ran
      · cases ran
        exact .refl
      · rename_i idle
        have free := Option.not_isSome_iff_eq_none.mp idle
        split at ran
        · cases ran
          exact .refl
        · cases ran
          exact .refl
        · rename_i image found
          have effect : Effect host io Allowed registry _ ∧ Effect host io Allowed registry _ :=
            effect_save_install (host.databaseDir name) free (.inr (.inl ⟨_, image, found, rfl⟩)) rfl
          split at ran
          · rename_i message saved outcome
            cases ran
            rw [outcome] at effect
            exact .single effect.1
          · rename_i saved outcome
            cases ran
            rw [outcome] at effect
            exact .single effect.2

/-- A save of a loaded database. -/
theorem effect_save {name : Text} {handle : Handle} {session : Session} (path : Text)
    (found : registry.database name = some (handle, session)) :
    Effects host io Allowed registry (registry.save path session io).2 := by
  have held := (Registry.database_eq_some.mp found).2
  rcases written_save io path (.inr (.inr ⟨handle, held⟩)) with ⟨disk, same, written⟩
  rw [same]
  exact .single (.wrote disk written)

theorem effects_handleCheckpoint
    (ran : registry.handleCheckpoint host io request = (resp, after)) :
    Effects host io Allowed registry after := by
  rw [Registry.handleCheckpoint] at ran
  split at ran
  · cases ran
    exact .refl
  · rename_i name picked
    split at ran
    · cases ran
      exact .refl
    · rename_i handle session found
      have saved : Effects host io Allowed registry _ := effect_save (host.databaseDir name) found
      split at ran <;>
      · rename_i outcome
        cases ran
        rw [outcome] at saved
        exact saved

theorem effects_handleBackup (ran : registry.handleBackup host io request = (resp, after)) :
    Effects host io Allowed registry after := by
  rw [Registry.handleBackup] at ran
  split at ran
  · cases ran
    exact .refl
  · rename_i name picked
    split at ran
    · cases ran
      exact .refl
    · rename_i handle session found
      have saved : Effects host io Allowed registry _ :=
        effect_save (host.directory (Registry.backupPath host request name)) found
      dsimp only at ran
      split at ran <;>
      · rename_i outcome
        cases ran
        rw [outcome] at saved
        exact saved

/-- A statement on a loaded database. -/
theorem effect_query {name sparql : Text} {handle : Handle} {session last : Session}
    {outcome : Except Text (QueryResult Answer)}
    (found : registry.database name = some (handle, session))
    (allowed : Allowed session sparql)
    (ran : host.query session sparql = some (outcome, last)) :
    Effects host io Allowed registry (registry.put handle last) :=
  .single (.queried handle session last sparql outcome
    (Registry.database_eq_some.mp found).2 allowed ran)

theorem effects_handleExport (allowed : ∀ session, Allowed session exportQuery)
    (ran : registry.handleExport host request = some (resp, after)) :
    Effects host io Allowed registry after := by
  rw [Registry.handleExport] at ran
  split at ran
  · cases ran
    exact .refl
  · split at ran
    · cases ran
      exact .refl
    · rename_i handle session found
      rcases Option.map_eq_some_iff.mp ran with ⟨answered, queried, same⟩
      cases same
      exact effect_query found (allowed session) queried

theorem effects_handleBatch {insert : Bool}
    (allowed : ∀ name handle session, registry.pickDb request = some name →
      trim ((request.param "triples").getD request.bodyStr) ≠ [] →
      registry.database name = some (handle, session) →
      Allowed session (Registry.batchStatement insert
        (trim ((request.param "triples").getD request.bodyStr))))
    (ran : registry.handleBatch host request insert = some (resp, after)) :
    Effects host io Allowed registry after := by
  rw [Registry.handleBatch] at ran
  split at ran
  · cases ran
    exact .refl
  · rename_i name picked
    dsimp only at ran
    split at ran
    · cases ran
      exact .refl
    · rename_i filled
      split at ran
      · cases ran
        exact .refl
      · rename_i handle session found
        rcases Option.map_eq_some_iff.mp ran with ⟨answered, queried, same⟩
        cases same
        exact effect_query found (allowed name handle session picked filled found) queried

end Handlers

end GStore.Http
