import GStore.Db.WellFormed
import GStore.Http.Threads

/-! # Isolation of transactions

While no one else writes to a database in a transaction and none is saved, a transaction is what
its statements are: `/commit` keeps their effects, `/rollback` leaves none of them, and nobody
else's update is undone. -/

namespace GStore.Http

open Db Reason

variable {α Read Answer : Type}

/-! ## Conditions on an event -/

/-- What a statement changes. -/
def ApiHost.mutations (host : ApiHost α Read Answer) (sparql : Text) : List (Mutation α) :=
  match host.parse sparql with
  | .ok (.update ops) => [.request (host.updates ops) sparql]
  | _ => []

/-- The statement that an event runs in the transaction of an id. -/
def statement (host : ApiHost α Read Answer) (tid : Nat) (event : Served Answer) : Option Text :=
  match mark host event with
  | some (.stated id sparql) => if id = tid then some sparql else none
  | _ => none

/-- The database that an event saves: `/checkpoint` and `/backup`. -/
def saved (host : ApiHost α Read Answer) (event : Served Answer) : Option Text :=
  match caller host event with
  | none => none
  | some sender =>
    match route sender.request with
    | .checkpoint =>
      if sender.users.hasPriv sender.user .update then
        event.before.registry.pickDb sender.request
      else none
    | .backup =>
      if sender.users.hasPriv sender.user .backup then
        event.before.registry.pickDb sender.request
      else none
    | _ => none

/-- An update without a transaction id. -/
def Autocommits (host : ApiHost α Read Answer) (event : Served Answer) (handle : Handle) : Prop :=
  ∃ sparql, outside host event = some (handle, sparql) ∧ host.isUpdateSparql sparql = true

/-- An event that keeps out of the transactions of others. -/
structure Discreet (host : ApiHost α Read Answer) (event : Served Answer) : Prop where
  reloads : ¬ Reloads host event
  /-- No update without a transaction id on a database in a transaction. -/
  outside : ∀ (handle : Handle) (session : Session), Autocommits host event handle →
    event.before.registry.heap[handle]? = some session → session.txn = none
  /-- No save of a database in a transaction. -/
  saved : ∀ name, saved host event = some name → event.before.registry.dbTxn.lookup name = none
  /-- The statements of a transaction can be taken back. -/
  safe : ∀ tid name sparql handle session, mark host event = some (.stated tid sparql) →
    event.before.registry.txns.lookup tid = some { db := name } →
    event.before.registry.database name = some (handle, session) →
    session.SafeRun (host.mutations sparql)
  /-- What a failed write leaves does not load, or is a database. -/
  left : ∀ message image, ioOf event = some (message, .ok image) →
    (Registry.ofImage image).Consistent

/-- Updates run only on databases that are in no transaction. -/
def Apart (host : ApiHost α Read Answer) (session : Session) (sparql : Text) : Prop :=
  session.txn = none ∨ host.isUpdateSparql sparql = false

section Events

variable {host : ApiHost α Read Answer} {event : Served Answer}

theorem apart_export (session : Session) : Apart host session exportQuery := by
  right
  rw [ApiHost.isUpdateSparql]
  split
  · rename_i ops parsed
    exact absurd parsed (host.exports ops)
  · rfl

theorem turn_of_discreet (truthful : Truthful event.before.registry)
    (ran : step host event.before event.action = some (event.output, event.after))
    (discreet : Discreet host event) : Turn host (Apart host) event := by
  refine turn_of_step truthful ran apart_export discreet.reloads ?_
  intro handle sparql session runs found
  by_cases updates : host.isUpdateSparql sparql = true
  · exact .inl (discreet.outside handle session ⟨sparql, runs, updates⟩ found)
  · exact .inr (eq_false_of_ne_true updates)

/-- A statement that is no update leaves the database. -/
theorem query_eq_of_read {session last : Session} {sparql : Text}
    {outcome : Except Text (QueryResult Answer)} (reads : host.isUpdateSparql sparql = false)
    (ran : host.query session sparql = some (outcome, last)) : last = session := by
  rw [ApiHost.query] at ran
  split at ran
  · cases ran
    rfl
  · cases ran
    rfl
  · rename_i ops parsed
    rw [ApiHost.isUpdateSparql, parsed] at reads
    cases reads

theorem run_mutations {session last : Session} {sparql : Text}
    {outcome : Except Text (QueryResult Answer)}
    (ran : host.query session sparql = some (outcome, last)) :
    session.run (host.mutations sparql) = some last := by
  rw [ApiHost.query] at ran
  rw [ApiHost.mutations]
  split at ran
  · rename_i message failed
    cases ran
    rw [failed]
    rfl
  · rename_i query parsed
    cases ran
    rw [parsed]
    rfl
  · rename_i ops parsed
    rcases Option.map_eq_some_iff.mp ran with ⟨⟨answered, state⟩, queried, same⟩
    cases same
    rw [parsed]
    dsimp only
    rw [Session.run, Session.apply, queried]
    rfl

end Events

/-! ## Sound registries -/

/-- Every database is consistent, and one in a transaction can be rolled back. -/
structure Sound (registry : Registry) : Prop where
  heap : ∀ (handle : Handle) (session : Session), registry.heap[handle]? = some session →
    session.Consistent ∧
    (session.txn.isSome → ∃ start : Session, start.Known ∧ Session.Undoable start session)
  disk : ∀ path image, registry.disk.lookup path = some (.ok image) →
    (Registry.ofImage image).Consistent

section Sound

variable {host : ApiHost α Read Answer} {io : Io} {registry after : Registry}
  {event : Served Answer} {session : Session}

theorem consistent_ofImage (consistent : session.Consistent) :
    (Registry.ofImage (Registry.image session)).Consistent :=
  ⟨⟨consistent.valid.dict, consistent.valid.store, consistent.valid.named⟩,
    ⟨consistent.known.triple, consistent.known.graph⟩, fun _ => rfl⟩

theorem Sound.origin (sound : Sound registry) (origin : Origin registry session) :
    session.Consistent := by
  rcases origin with ⟨triples, built⟩ | ⟨path, image, found, same⟩ | ⟨handle, found⟩
  · exact Session.consistent_build built
  · rw [same]
    exact sound.disk path image found
  · exact (sound.heap handle session found).1

theorem Sound.written (sound : Sound registry) {disk : Disk} (written : Written io registry disk)
    (left : ∀ message image, io = some (message, .ok image) → (Registry.ofImage image).Consistent) :
    ∀ path image, disk.lookup path = some (.ok image) → (Registry.ofImage image).Consistent := by
  intro path image found
  rcases written path image found with earlier | ⟨session, origin, same⟩ | ⟨message, failed⟩
  · exact sound.disk path image earlier
  · rw [same]
    exact consistent_ofImage (sound.origin origin)
  · exact left message image failed

theorem Sound.put (sound : Sound registry) (handle : Handle) (consistent : session.Consistent)
    (undoable : session.txn.isSome →
      ∃ start : Session, start.Known ∧ Session.Undoable start session) :
    Sound (registry.put handle session) where
  heap other held found := by
    rw [Registry.getElem?_put] at found
    split at found
    · cases found
      exact ⟨consistent, undoable⟩
    · exact sound.heap other held found
  disk := sound.disk

theorem Sound.install (sound : Sound registry) {name : Text} (consistent : session.Consistent)
    (idle : session.txn = none) : Sound (registry.install name session) where
  heap handle held found := by
    by_cases inside : handle < registry.heap.length
    · rw [Registry.getElem?_install_of_lt inside] at found
      exact sound.heap handle held found
    · have bound := Registry.lt_length found
      have length : (registry.install name session).heap.length = registry.heap.length + 1 :=
        List.length_append
      rw [length] at bound
      have same : handle = registry.heap.length :=
        Nat.le_antisymm (Nat.lt_succ_iff.mp bound) (Nat.not_lt.mp inside)
      subst same
      rw [Registry.getElem?_install_new] at found
      cases found
      exact ⟨consistent, fun active => by rw [idle] at active; cases active⟩
  disk := sound.disk

theorem Sound.withDisk (sound : Sound registry) {disk : Disk}
    (loads : ∀ path image, disk.lookup path = some (.ok image) →
      (Registry.ofImage image).Consistent) : Sound { registry with disk } :=
  ⟨sound.heap, loads⟩

theorem consistent_of_undoable {start : Session} (undoable : Session.Undoable start session) :
    session.Consistent where
  valid := undoable.valid
  known := undoable.known
  quiet idle := by
    have active := undoable.active
    rw [idle] at active
    cases active

/-- A name that no transaction holds stands for a database in no transaction. -/
theorem Truthful.idle (truthful : Truthful registry) {name : Text} {handle : Handle}
    (free : registry.dbTxn.lookup name = none)
    (found : registry.database name = some (handle, session)) : session.txn = none := by
  have read := Registry.database_eq_some.mp found
  rcases truthful.held name handle read.1 with ⟨held, there, active⟩
  rw [read.2] at there
  cases there
  rw [free] at active
  exact Option.not_isSome_iff_eq_none.mp (by rw [active]; exact Bool.false_ne_true)

theorem Effect.sound (effect : Effect host io (Apart host) registry after)
    (truthful : Truthful registry) (sound : Sound registry)
    (left : ∀ message image, io = some (message, .ok image) → (Registry.ofImage image).Consistent) :
    Sound after := by
  cases effect with
  | wrote disk written => exact sound.withDisk (sound.written written left)
  | installed name session disk free origin idle written =>
    exact (sound.install (sound.origin origin) idle).withDisk (sound.written written left)
  | removed name disk free written =>
    exact ⟨sound.heap, sound.written written left⟩
  | inserted name handle session last triples count free found ran =>
    have idle := truthful.idle free found
    have consistent := (sound.heap handle session (Registry.database_eq_some.mp found).2).1
    have logged := Session.logged_insertAll triples consistent.valid ran
    refine sound.put handle ⟨logged.valid, logged.known consistent.known, fun _ => ?_⟩ fun active => ?_
    · exact logged.pending idle (consistent.quiet idle)
    · rw [logged.active, idle] at active
      cases active
  | queried handle session last sparql outcome found apart ran =>
    have held := sound.heap handle session found
    by_cases updates : host.isUpdateSparql sparql = true
    · have idle : session.txn = none := by
        rcases apart with idle | reads
        · exact idle
        · rw [reads] at updates
          cases updates
      have still := active_hostQuery ran
      rw [idle] at still
      refine sound.put handle (held.1.run _ (run_mutations ran)) fun active => ?_
      rw [still] at active
      cases active
    · rw [query_eq_of_read (eq_false_of_ne_true updates) ran]
      exact sound.put handle held.1 held.2

theorem Effects.sound (effects : Effects host io (Apart host) registry after)
    (truthful : Truthful registry) (sound : Sound registry)
    (left : ∀ message image, io = some (message, .ok image) → (Registry.ofImage image).Consistent) :
    Sound after := by
  induction effects with
  | refl => exact sound
  | tail earlier effect induction =>
    exact effect.sound (Effects.truthful earlier truthful) induction left

theorem Turn.sound (turn : Turn host (Apart host) event) (discreet : Discreet host event)
    (truthful : Truthful event.before.registry) (sound : Sound event.before.registry) :
    Sound event.after.registry := by
  cases turn with
  | calm unmarked effects => exact effects.sound truthful sound discreet.left
  | begun tid name handle session marked fresh found free closed after =>
    have consistent := (sound.heap handle session (Registry.database_eq_some.mp found).2).1
    have undoable := (Session.undoable_begin consistent closed).2
    have put := sound.put handle (consistent_of_undoable undoable)
      fun _ => ⟨session, consistent.known, undoable⟩
    rw [after]
    exact ⟨put.heap, put.disk⟩
  | stated tid name sparql handle session last outcome marked opened found ran answered after =>
    have read := Registry.database_eq_some.mp found
    rcases truthful.opened opened with ⟨also, held, there, active⟩
    rw [found] at there
    cases there
    rcases (sound.heap handle session read.2).2 active with ⟨start, known, undoable⟩
    have further := undoable.run known _ (discreet.safe tid name sparql handle session marked opened
      found) (run_mutations ran)
    rw [after]
    exact sound.put handle (consistent_of_undoable further) fun _ => ⟨start, known, further⟩
  | ended tid commit name handle session marked opened found active answered after =>
    have held := sound.heap handle session (Registry.database_eq_some.mp found).2
    rcases held.2 active with ⟨start, known, undoable⟩
    have consistent : (Registry.endTxn commit session).2.Consistent := by
      cases commit with
      | true => exact held.1.commit
      | false => exact (undoable.rollback known).2.consistent
    have put := sound.put handle consistent fun active' => by
      rw [(endTxn_spec commit active).2] at active'
      cases active'
    rw [after]
    exact ⟨put.heap, put.disk⟩

end Sound

/-! ## The course of a transaction -/

section Course

variable {host : ApiHost α Read Answer} {io : Io} {registry after : Registry}
  {event : Served Answer} {session start : Session} {tid : Nat} {name : Text} {handle : Handle}

/-- An effect leaves a database in a transaction as it is. -/
theorem Effect.frame (effect : Effect host io (Apart host) registry after)
    (truthful : Truthful registry) (tied : Tied tid name handle registry) :
    after.heap[handle]? = registry.heap[handle]? := by
  cases effect with
  | wrote disk written => rfl
  | installed other session disk free origin idle written =>
    rcases tied.active with ⟨held, read, active⟩
    change (registry.install other session).heap[handle]? = _
    exact Registry.getElem?_install_of_lt (Registry.lt_length read)
  | removed other disk free written => rfl
  | inserted other target session last triples count free found ran =>
    exact Registry.getElem?_put_of_ne
      (tied.handle_ne truthful found (tied.name_ne truthful free))
  | queried target session last sparql outcome found apart ran =>
    by_cases same : handle = target
    · subst same
      rcases tied.active with ⟨held, read, active⟩
      rw [found] at read
      cases read
      rcases apart with idle | reads
      · rw [idle] at active
        cases active
      · rw [query_eq_of_read reads ran, Registry.getElem?_put_self found, found]
    · exact Registry.getElem?_put_of_ne same

theorem Effects.frame (effects : Effects host io (Apart host) registry after)
    (truthful : Truthful registry) (tied : Tied tid name handle registry) :
    after.heap[handle]? = registry.heap[handle]? := by
  induction effects with
  | refl => rfl
  | tail earlier effect induction =>
    exact (effect.frame (Effects.truthful earlier truthful)
      (Effects.tied earlier truthful tied)).trans induction

theorem statement_of_unstated (unstated : ∀ sparql, mark host event ≠ some (.stated tid sparql)) :
    statement host tid event = none := by
  rw [statement]
  split
  · rename_i id sparql marked
    by_cases same : id = tid
    · exact absurd (same ▸ marked) (unstated sparql)
    · exact if_neg same
  · rfl

/-- Only the statements of a transaction change its database. -/
theorem Turn.continues (start : Session) (turn : Turn host (Apart host) event) (discreet : Discreet host event)
    (truthful : Truthful event.before.registry) (tied : Tied tid name handle event.before.registry)
    (stays : ∀ commit, mark host event ≠ some (.ended tid commit))
    (found : event.before.registry.heap[handle]? = some session) :
    ∃ last, event.after.registry.heap[handle]? = some last ∧
      session.run ((statement host tid event).toList.flatMap host.mutations) = some last ∧
      (start.Known → Session.Undoable start session → Session.Undoable start last) := by
  -- every other event leaves the database and says nothing in the transaction
  have quiet : (∀ sparql, mark host event ≠ some (.stated tid sparql)) →
      event.after.registry.heap[handle]? = event.before.registry.heap[handle]? →
      ∃ last, event.after.registry.heap[handle]? = some last ∧
        session.run ((statement host tid event).toList.flatMap host.mutations) = some last ∧
        (start.Known → Session.Undoable start session → Session.Undoable start last) := by
    intro unstated same
    rw [statement_of_unstated unstated]
    exact ⟨session, same.trans found, rfl, fun _ undoable => undoable⟩
  cases turn with
  | calm unmarked effects =>
    refine quiet (fun sparql marked => ?_) (effects.frame truthful tied)
    rw [unmarked] at marked
    cases marked
  | begun other target otherHandle held marked fresh read free closed after =>
    refine quiet (fun sparql stated => ?_) ?_
    · rw [marked] at stated
      cases stated
    · rw [after]
      exact Registry.getElem?_put_of_ne
        (tied.handle_ne truthful read (tied.name_ne truthful free))
  | stated other target sparql otherHandle held last outcome marked opened read ran answered after =>
    by_cases same : other = tid
    · subst same
      have sameName : target = name := by
        have looked := opened.symm.trans tied.opened
        cases looked
        rfl
      subst sameName
      have bound := Registry.database_eq_some.mp read
      have sameHandle : otherHandle = handle :=
        Option.some.inj (bound.1.symm.trans tied.bound)
      subst sameHandle
      have sameSession : held = session := Option.some.inj (bound.2.symm.trans found)
      subst sameSession
      have said : statement host other event = some sparql := by
        rw [statement, marked]
        exact if_pos rfl
      have runs := run_mutations ran
      refine ⟨last, ?_, ?_, fun known undoable => ?_⟩
      · rw [after]
        exact Registry.getElem?_put_self found
      · rw [said, Option.toList_some, List.flatMap_singleton]
        exact runs
      · exact undoable.run known _
          (discreet.safe other target sparql otherHandle held marked opened read) runs
    · refine quiet (fun sparql stated => ?_) ?_
      · rw [marked] at stated
        cases stated
        exact same rfl
      · rw [after]
        exact Registry.getElem?_put_of_ne
          (tied.handle_ne truthful read (tied.name_ne_of_id truthful opened (Ne.symm same)))
  | ended other commit target otherHandle held marked opened read active answered after =>
    refine quiet (fun sparql stated => ?_) ?_
    · rw [marked] at stated
      cases stated
    · have different : tid ≠ other := fun same => stays commit (same ▸ marked)
      rw [after]
      exact Registry.getElem?_put_of_ne
        (tied.handle_ne truthful read (tied.name_ne_of_id truthful opened different))

/-- Over any stretch in which a transaction is open, its database runs its statements. -/
theorem runs_statements (start : Session) {begun state : ApiState} {middle : List (Served Answer)}
    (run : Execution (step host) begun middle state)
    (each : ∀ event ∈ middle, Discreet host event ∧ Truthful event.before.registry ∧
      Tied tid name handle event.before.registry)
    (now : Tied tid name handle state.registry)
    (found : begun.registry.heap[handle]? = some session) :
    ∃ last, state.registry.heap[handle]? = some last ∧
      session.run ((middle.filterMap (statement host tid)).flatMap host.mutations) = some last ∧
      (start.Known → Session.Undoable start session → Session.Undoable start last) := by
  induction run with
  | nil => exact ⟨session, found, rfl, fun _ undoable => undoable⟩
  | @snoc events state next action output earlier taken induction =>
    rcases each _ (List.mem_append_right _ (List.mem_singleton_self _))
      with ⟨discreet, truthful, tied⟩
    rcases induction (fun event member => each event (List.mem_append_left _ member)) tied
      with ⟨middle, read, ran, undoable⟩
    have turn := turn_of_discreet truthful taken discreet
    rcases turn.continues start discreet truthful tied (turn.stays now.opened) read
      with ⟨last, after, further, keeps⟩
    refine ⟨last, after, ?_, fun known undoes => keeps known (undoable known undoes)⟩
    rw [List.filterMap_append, List.flatMap_append, Session.run_append, ran, Option.bind_some,
      ← further]
    congr 2

theorem dataset_commit (active : session.txn.isSome) :
    (Registry.endTxn true session).2.dataset = session.dataset := by
  rcases Option.isSome_iff_exists.mp active with ⟨log, held⟩
  rw [Registry.endTxn, if_pos rfl, Session.commit, held]
  rfl

theorem handleCheckpoint_eq {request : Request} (picked : registry.pickDb request = some name)
    (found : registry.database name = some (handle, session)) :
    (registry.handleCheckpoint host io request).2 =
      (registry.save (host.databaseDir name) session io).2 := by
  rw [Registry.handleCheckpoint, picked]
  dsimp only
  rw [found]
  dsimp only
  split <;>
  · rename_i outcome
    rw [outcome]

theorem handleBackup_eq {request : Request} (picked : registry.pickDb request = some name)
    (found : registry.database name = some (handle, session)) :
    (registry.handleBackup host io request).2 =
      (registry.save (host.directory (Registry.backupPath host request name)) session io).2 := by
  rw [Registry.handleBackup, picked]
  dsimp only
  rw [found]
  dsimp only
  split <;>
  · rename_i outcome
    rw [outcome]

theorem loads_of_save {path other : Text} {image : Image}
    (loads : (registry.save path session io).2.disk.lookup other = some (.ok image)) :
    registry.disk.lookup other = some (.ok image) ∨ image = Registry.image session ∨
      ∃ message, io = some (message, .ok image) := by
  have looked : ∀ {left : Except Text Image},
      (assocInsert path left registry.disk).lookup other = some (.ok image) →
      registry.disk.lookup other = some (.ok image) ∨ left = .ok image := by
    intro left found
    rw [lookup_assocInsert] at found
    split at found
    · exact .inr (Option.some.inj found)
    · exact .inl found
  cases io with
  | none =>
    rcases looked loads with earlier | same
    · exact .inl earlier
    · cases same
      exact .inr (.inl rfl)
  | some failure =>
    rcases failure with ⟨message, left⟩
    rcases looked loads with earlier | same
    · exact .inl earlier
    · rw [same]
      exact .inr (.inr ⟨message, rfl⟩)

/-- What a save writes is the database, or what its failure leaves. -/
theorem written_of_saved (saves : saved host event = some name)
    (ran : step host event.before event.action = some (event.output, event.after))
    (found : event.before.registry.database name = some (handle, session)) {path : Text}
    {image : Image} (loads : event.after.registry.disk.lookup path = some (.ok image)) :
    event.before.registry.disk.lookup path = some (.ok image) ∨ image = Registry.image session ∨
      ∃ message, ioOf event = some (message, .ok image) := by
  rw [saved] at saves
  split at saves
  · cases saves
  · rename_i sender known
    split at saves
    · rename_i routed
      rcases Option.ite_none_right_eq_some.mp saves with ⟨may, picked⟩
      rcases served_of_caller known ran (by simp [routed])
        with ⟨io, connection, answer, same, served⟩
      rw [routed, serve, guarded, if_pos may] at served
      have after : (event.before.registry.handleCheckpoint host io sender.request).2 =
          event.after.registry := congrArg (fun result => result.2.registry) (Option.some.inj served)
      have sameIo : ioOf event = io := congrArg ioOf same
      rw [handleCheckpoint_eq picked found] at after
      rw [← after] at loads
      rw [sameIo]
      exact loads_of_save loads
    · rename_i routed
      rcases Option.ite_none_right_eq_some.mp saves with ⟨may, picked⟩
      rcases served_of_caller known ran (by simp [routed])
        with ⟨io, connection, answer, same, served⟩
      rw [routed, serve, guarded, if_pos may] at served
      have after : (event.before.registry.handleBackup host io sender.request).2 =
          event.after.registry := congrArg (fun result => result.2.registry) (Option.some.inj served)
      have sameIo : ioOf event = io := congrArg ioOf same
      rw [handleBackup_eq picked found] at after
      rw [← after] at loads
      rw [sameIo]
      exact loads_of_save loads
    · cases saves

end Course

/-! ## Isolation -/

/-- A transaction from its `/begin` to its end. -/
structure Isolated (host : ApiHost α Read Answer) (tid : Nat) (commit : Bool)
    (opening : Served Answer) (middle : List (Served Answer)) (closing : Served Answer) (name : Text)
    (handle : Handle) (start last : Session) : Prop where
  thread : Thread host tid name handle opening middle closing.before.registry
  started : opening.before.registry.heap[handle]? = some start
  /-- The database has run the statements of the transaction since, and nothing else. -/
  statements : start.begin.2.run
    ((middle.filterMap (statement host tid)).flatMap host.mutations) = some last
  reached : closing.before.registry.heap[handle]? = some last
  answered : closing.output = some (txnDone tid commit)
  commits : commit = true → ∃ kept, closing.after.registry.heap[handle]? = some kept ∧
    kept.dataset = last.dataset
  rollsBack : commit = false → ∃ back, closing.after.registry.heap[handle]? = some back ∧
    Session.RolledBack start back
  others : ∀ other, other ≠ handle →
    closing.after.registry.heap[other]? = closing.before.registry.heap[other]?
  /-- No one else updated the database in between. -/
  alone : ∀ event ∈ middle, ¬ Autocommits host event handle
  /-- No directory was written from the database in between. -/
  unsaved : ∀ event ∈ middle, saved host event ≠ some name

/-- What a save writes is a database in no transaction. -/
def SavesIdle (host : ApiHost α Read Answer) (event : Served Answer) : Prop :=
  ∀ name handle session, saved host event = some name →
    event.before.registry.database name = some (handle, session) → session.txn = none ∧
      ∀ path image, event.after.registry.disk.lookup path = some (.ok image) →
        event.before.registry.disk.lookup path = some (.ok image) ∨
          image = Registry.image session ∨ ∃ message, ioOf event = some (message, .ok image)

/-- A rollback leaves a database alone, or brings back what it was at a `/begin` that came
after the update. -/
def NotUndone (host : ApiHost α Read Answer) (handle : Handle) (middle : List (Served Answer))
    (tid : Nat) (closing : Served Answer) : Prop :=
  closing.after.registry.heap[handle]? = closing.before.registry.heap[handle]? ∨
    ∃ between opening later start back, middle = between ++ opening :: later ∧
      mark host opening = some (.begun tid) ∧ opening.before.registry.heap[handle]? = some start ∧
      closing.after.registry.heap[handle]? = some back ∧ Session.RolledBack start back

/-- Transactions keep out of each other's way and out of that of single updates. -/
structure Isolation (host : ApiHost α Read Answer) (events : List (Served Answer)) : Prop where
  updates : ∀ past update middle closing rest handle tid,
    events = past ++ update :: middle ++ closing :: rest → Autocommits host update handle →
    mark host closing = some (.ended tid false) → NotUndone host handle middle tid closing
  ends : ∀ past closing rest tid commit, events = past ++ closing :: rest →
    mark host closing = some (.ended tid commit) →
    ∃ earlier opening middle name handle start last, past = earlier ++ opening :: middle ∧
      Isolated host tid commit opening middle closing name handle start last
  saves : ∀ event ∈ events, SavesIdle host event

theorem sound_of_discreet {host : ApiHost α Read Answer} {users : UserStore} {disk : Disk}
    {events : List (Served Answer)} {state : ApiState}
    (run : Execution (step host) (bind users disk) events state)
    (loads : ∀ path image, disk.lookup path = some (.ok image) →
      (Registry.ofImage image).Consistent)
    (discreet : ∀ event ∈ events, Discreet host event) :
    Truthful state.registry ∧ Sound state.registry := by
  refine run.keeps (fun state => Truthful state.registry ∧ Sound state.registry) ?_ ?_
  · refine ⟨truthful_empty disk, fun handle session found => ?_, loads⟩
    simp [bind, Registry.empty] at found
  · intro event member ran kept
    have turn := turn_of_discreet kept.1 ran (discreet event member)
    exact ⟨turn.truthful kept.1, turn.sound (discreet event member) kept.1 kept.2⟩

theorem isolated_of_ended {host : ApiHost α Read Answer} {users : UserStore} {disk : Disk}
    {events : List (Served Answer)} {state : ApiState}
    (run : Execution (step host) (bind users disk) events state)
    (loads : ∀ path image, disk.lookup path = some (.ok image) →
      (Registry.ofImage image).Consistent)
    (discreet : ∀ event ∈ events, Discreet host event) {past rest : List (Served Answer)}
    {closing : Served Answer} {tid : Nat} {commit : Bool} (parts : events = past ++ closing :: rest)
    (ends : mark host closing = some (.ended tid commit)) :
    ∃ earlier opening middle name handle start last, past = earlier ++ opening :: middle ∧
      Isolated host tid commit opening middle closing name handle start last := by
  have careful := fun event member => (discreet event member).reloads
  have before := fun event member =>
    discreet event (parts ▸ List.mem_append_left (closing :: rest) member)
  rcases run.around parts with ⟨first, taken, -⟩
  have truthful := (sound_of_discreet first loads before).1
  have turn := turn_of_discreet truthful taken
    (discreet closing (parts ▸ List.mem_append_right past List.mem_cons_self))
  rcases turn.of_ended ends with ⟨name, handle, last, opened, found, active, answered, after⟩
  rcases threads first (fun event member => (before event member).reloads) opened
    with ⟨earlier, opening, middle, also, split, thread⟩
  have read := Registry.database_eq_some.mp found
  have same : also = handle := Option.some.inj (thread.now.bound.symm.trans read.1)
  subst same
  rcases thread.closed with ⟨start, started, closed, begun⟩
  rcases first.around split with ⟨toOpening, -, fromOpening⟩
  have startSound := (sound_of_discreet toOpening loads fun event member =>
    before event (split ▸ List.mem_append_left (opening :: middle) member)).2
  have consistent := (startSound.heap also start started).1
  have within : ∀ event ∈ middle, event ∈ past := fun event member =>
    split ▸ List.mem_append_right earlier (List.mem_cons_of_mem opening member)
  have each : ∀ event ∈ middle, Discreet host event ∧ Truthful event.before.registry ∧
      Tied tid name also event.before.registry := by
    intro event member
    rcases List.append_of_mem (within event member) with ⟨front, back, at_event⟩
    have toEvent := (first.around at_event).1
    refine ⟨before event (within event member), (sound_of_discreet toEvent loads ?_).1,
      thread.tied event member⟩
    exact fun other earlier => before other (at_event ▸ List.mem_append_left (event :: back) earlier)
  rcases runs_statements start fromOpening each thread.now begun
    with ⟨final, reached, ran, undoes⟩
  have sameLast : final = last := Option.some.inj (reached.symm.trans read.2)
  subst sameLast
  have undoable := undoes consistent.known (Session.undoable_begin consistent closed).2
  have ended : closing.after.registry.heap[also]? = some (Registry.endTxn commit final).2 := by
    rw [after]
    exact Registry.getElem?_put_self read.2
  refine ⟨earlier, opening, middle, name, also, start, final, split, ?_⟩
  constructor
  case thread => exact thread
  case started => exact started
  case statements => exact ran
  case reached => exact reached
  case answered => exact answered
  case commits =>
    intro committed
    rw [committed] at ended
    exact ⟨_, ended, dataset_commit active⟩
  case rollsBack =>
    intro back
    rw [back] at ended
    exact ⟨_, ended, (undoable.rollback consistent.known).2⟩
  case others =>
    intro other different
    rw [after]
    exact Registry.getElem?_put_of_ne different
  case alone =>
    intro event member commits
    rcases (each event member).2.2.active with ⟨session, held, inTxn⟩
    rw [(each event member).1.outside also session commits held] at inTxn
    cases inTxn
  case unsaved =>
    intro event member saves
    rcases each event member with ⟨discreet, truthful, tied⟩
    have free := discreet.saved name saves
    exact tied.name_ne truthful free rfl

/-- The `/begin` of a transaction updates nothing. -/
theorem not_autocommits_of_begun {host : ApiHost α Read Answer} {event : Served Answer} {tid : Nat}
    {handle : Handle} (begun : mark host event = some (.begun tid)) :
    ¬ Autocommits host event handle := by
  rintro ⟨sparql, runs, -⟩
  rw [mark] at begun
  split at begun
  · cases begun
  · rename_i sender known
    rcases action_of_caller known with ⟨io, connection, asked⟩
    rw [outside, asked] at runs
    dsimp only at runs
    rw [known] at runs
    dsimp only at runs
    split at runs
    · rename_i routed
      rw [routed] at begun
      cases begun
    · rename_i routed
      rw [routed] at begun
      cases begun
    · cases runs

/-- An event that is not in the last stretch of a run lies before that stretch. -/
theorem before_stretch {Event : Type} {past middle earlier later : List Event}
    {update opening : Event} (parts : past ++ update :: middle = earlier ++ opening :: later)
    (different : update ≠ opening) (absent : update ∉ later) :
    ∃ between, middle = between ++ opening :: later := by
  rcases List.append_eq_append_iff.mp parts with ⟨between, -, tail⟩ | ⟨between, -, tail⟩
  · cases between with
    | nil =>
      cases tail
      exact absurd rfl different
    | cons first rest =>
      cases tail
      exact ⟨rest, rfl⟩
  · cases between with
    | nil =>
      cases tail
      exact absurd rfl different
    | cons first rest =>
      cases tail
      exact absurd (List.mem_append_right rest List.mem_cons_self) absent

/-- In every run of discreet events from sound directories, transactions are isolated. -/
theorem transactions_isolated {host : ApiHost α Read Answer} {users : UserStore} {disk : Disk}
    {events : List (Served Answer)} {state : ApiState}
    (run : Execution (step host) (bind users disk) events state)
    (loads : ∀ path image, disk.lookup path = some (.ok image) →
      (Registry.ofImage image).Consistent)
    (discreet : ∀ event ∈ events, Discreet host event) : Isolation host events := by
  constructor
  · intro past update middle closing rest handle tid parts commits ends
    rcases isolated_of_ended run loads discreet parts ends
      with ⟨earlier, opening, later, name, own, start, last, split, isolated⟩
    by_cases same : handle = own
    · subst same
      rcases isolated.rollsBack rfl with ⟨back, after, rolledBack⟩
      have different : update ≠ opening := fun equal =>
        not_autocommits_of_begun isolated.thread.begun (equal ▸ commits)
      rcases before_stretch split different (fun member => isolated.alone update member commits)
        with ⟨between, reached⟩
      exact .inr ⟨between, opening, later, start, back, reached, isolated.thread.begun,
        isolated.started, after, rolledBack⟩
    · exact .inl (isolated.others handle same)
  · intro past closing rest tid commit parts ends
    exact isolated_of_ended run loads discreet parts ends
  · intro event member name handle session saves found
    rcases List.append_of_mem member with ⟨past, later, parts⟩
    rcases run.around parts with ⟨before, taken, -⟩
    have truthful := (sound_of_discreet before loads fun other earlier =>
      discreet other (parts ▸ List.mem_append_left (event :: later) earlier)).1
    exact ⟨truthful.idle ((discreet event member).saved name saves) found,
      fun path image => written_of_saved saves taken found⟩

/-! ### A note -/

/-- A host each of whose statements but the export adds one triple. -/
def noteHost : ApiHost Unit Unit Unit :=
  { toyHost with
    parse := fun text =>
      if text = exportQuery then .ok (.read ())
      else .ok (.update [.insertData [Session.inDefault (Session.ground "a" "p" "b")]])
    exports := by
      intro ops same
      rw [if_pos rfl] at same
      cases same }

theorem safe_note (session : Session) (sparql : Text) :
    session.SafeRun (noteHost.mutations sparql) := by
  rw [ApiHost.mutations]
  split
  · rename_i ops parsed
    refine ⟨fun given same => ?_, fun after ran => trivial⟩
    have content : given = [.insertData [Session.inDefault (Session.ground "a" "p" "b")]] := by
      cases same
      change (if sparql = exportQuery then _ else _) = _ at parsed
      split at parsed
      · cases parsed
      · cases parsed
        rfl
    rw [content]
    refine ⟨Session.safeGraph_default session [Session.ground "a" "p" "b"], fun _ _ _ => trivial⟩
  · trivial

/-- A note in a transaction that is rolled back. -/
theorem isolation_note : Isolation noteHost (trace (step noteHost) (bind rootOnly [])
    [asked "/build" "db=a", asked "/begin" "db=a", asked "/tquery" "tid=7&sparql=note",
      asked "/rollback" "tid=7"]) := by
  refine transactions_isolated (execution_trace _ _) (fun path image found => ?_) ?_
  · cases found
  · intro event member
    have among := action_mem_of_mem_trace member
    have plain : ∃ draws connection request, event.action = .request draws none connection request ∧
        route request ∈ [.build, .begin, .tquery, .rollback] := by
      simp only [List.mem_cons, List.not_mem_nil, or_false, asked] at among
      rcases among with same | same | same | same <;>
      · refine ⟨_, _, _, same, ?_⟩
        decide
    rcases plain with ⟨draws, connection, request, asked, routed⟩
    have sent : ∀ sender, caller noteHost event = some sender → sender.request = request := by
      intro sender known
      rcases action_of_caller known with ⟨io, connection, also⟩
      rw [asked] at also
      cases also
      rfl
    constructor
    case reloads =>
      rintro ⟨sender, known, loading, -⟩
      rw [sent sender known] at loading
      simp [loading] at routed
    case outside =>
      intro handle session commits
      rcases commits with ⟨sparql, runs, -⟩
      rw [outside, asked] at runs
      dsimp only at runs
      split at runs
      · cases runs
      · rename_i sender known
        rw [sent sender known] at runs
        split at runs
        · rename_i batch
          simp [batch] at routed
        · rename_i batch
          simp [batch] at routed
        · cases runs
    case saved =>
      intro name saves
      rw [saved] at saves
      split at saves
      · cases saves
      · rename_i sender known
        rw [sent sender known] at saves
        split at saves
        · rename_i saving
          simp [saving] at routed
        · rename_i saving
          simp [saving] at routed
        · cases saves
    case safe => exact fun tid name sparql handle session _ _ _ => safe_note session sparql
    case left =>
      intro message image failed
      rw [ioOf, asked] at failed
      cases failed

/-- The number of triples of the database of a handle. -/
def tripleCountOf (registry : Registry) (handle : Handle) : Option Nat :=
  registry.heap[handle]?.map fun session => session.store.tripleCount

/-- The number of changes that an answer reports. -/
def changedOf : Option (Dispatch Answer) → Option Nat
  | some (.done resp) =>
    match resp.body with
    | .result (.update changed) => some changed
    | _ => none
  | _ => none

/-- An update that adds a triple, and a rollback that takes it away. -/
def undoesUpdate : List (Served Unit) → Bool
  | [update, closing] =>
    (outside noteHost update).any (fun runs => runs.1 == 0 && noteHost.isUpdateSparql runs.2) &&
      changedOf update.output == some 1 && mark noteHost closing == some (.ended 7 false) &&
      tripleCountOf closing.before.registry 0 == some 1 &&
      tripleCountOf closing.after.registry 0 == some 0
  | _ => false

/-- Another client's rollback undoes a successful update. -/
theorem rollback_undoes_update : ∃ past update closing state,
    Execution (step noteHost) (bind rootOnly []) (past ++ [update, closing]) state ∧
      Autocommits noteHost update 0 ∧ changedOf update.output = some 1 ∧
      mark noteHost closing = some (.ended 7 false) ∧
      ¬ Isolation noteHost (past ++ [update, closing]) := by
  have undone : undoesUpdate ((trace (step noteHost) (bind rootOnly []) [asked "/build" "db=a",
      asked "/begin" "db=a", asked "/update" "db=a&sparql=note", .finish 0 false,
      asked "/rollback" "tid=7"]).drop 3) = true := by
    decide
  have run : Execution (step noteHost) (bind rootOnly []) _ _ := execution_trace (bind rootOnly [])
    [asked "/build" "db=a", asked "/begin" "db=a", asked "/update" "db=a&sparql=note", .finish 0 false,
      asked "/rollback" "tid=7"]
  rw [← List.take_append_drop 3 (trace _ _ _)] at run
  rw [undoesUpdate.eq_def] at undone
  split at undone
  · rename_i update closing ends
    rw [ends] at run
    simp only [Bool.and_eq_true, beq_iff_eq, Option.any_eq_true] at undone
    rcases undone with ⟨⟨⟨⟨⟨runs, found, same, updates⟩, changed⟩, marked⟩, before⟩, after⟩
    have commits : Autocommits noteHost update 0 := ⟨runs.2, by rw [found, ← same], updates⟩
    refine ⟨_, update, closing, _, run, commits, changed, marked, fun isolation => ?_⟩
    rcases isolation.updates _ update [] closing [] 0 7
      (List.append_assoc _ [update] [closing]).symm commits marked
      with same | ⟨between, opening, later, start, back, empty, -⟩
    · rw [tripleCountOf, same, ← tripleCountOf, before] at after
      cases after
    · simp at empty
  · cases undone

end GStore.Http
