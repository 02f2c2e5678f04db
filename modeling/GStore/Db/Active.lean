import GStore.Db.Session

/-! # Whether a transaction is active

Only `begin`, `commit` and `rollback` open or close a transaction; a mutation does neither,
whatever state the database is in. -/

namespace GStore.Db.Session

open Dict Reason Store

variable {α : Type} {host : Host α} {s after : Session}

theorem active_pushUndo (s : Session) (ops : List UndoOp) :
    (s.pushUndo ops).txn.isSome = s.txn.isSome :=
  Option.isSome_map

theorem active_insertTriple {triple : Triple} {changed : Bool}
    (ran : s.insertTriple triple = some (after, changed)) :
    after.txn.isSome = s.txn.isSome := by
  rcases Option.map_eq_some_iff.mp ran with ⟨encoded, -, same⟩
  dsimp only at same
  split at same
  · cases same
    rw [recordRedo_txn]
    exact active_pushUndo _ _
  · cases same
    rfl

theorem active_removeTriple (s : Session) (triple : Triple) :
    (s.removeTriple triple).1.txn.isSome = s.txn.isSome := by
  rw [removeTriple]
  split
  · rfl
  · dsimp only
    split
    · rw [recordRedo_txn]
      exact active_pushUndo _ _
    · rfl

theorem active_insertQuad {triple : Triple} {graph : Option Text} {changed : Bool}
    (ran : s.insertQuad triple graph = some (after, changed)) :
    after.txn.isSome = s.txn.isSome := by
  cases graph with
  | none => exact active_insertTriple ran
  | some name =>
    rcases Option.bind_eq_some_iff.mp ran with ⟨graphId, -, encoding⟩
    rcases Option.bind_eq_some_iff.mp encoding with ⟨encoded, -, stored⟩
    dsimp only at stored
    split at stored
    · cases stored
      rw [recordRedo_txn]
      exact active_pushUndo _ _
    · cases stored
      rfl

theorem active_deleteQuad (s : Session) (triple : Triple) (graph : Option Text) :
    (s.deleteQuad triple graph).1.txn.isSome = s.txn.isSome := by
  cases graph with
  | none => exact active_removeTriple s triple
  | some name =>
    rw [deleteQuad]
    split
    · split
      · rfl
      · dsimp only
        split
        · rw [recordRedo_txn]
          exact active_pushUndo _ _
        · rfl
    · rfl

theorem active_insertAll (triples : List GroundTriple) :
    ∀ {s after : Session} {count : Nat}, s.insertAll triples = some (after, count) →
      after.txn.isSome = s.txn.isSome := by
  induction triples with
  | nil =>
    intro s after count ran
    cases ran
    rfl
  | cons ground rest induction =>
    intro s after count ran
    rcases insertAll_cons ran with ⟨middle, changed, further, inserted, later⟩
    exact (induction later).trans (active_insertQuad inserted)

theorem active_deleteAll (triples : List GroundTriple) :
    ∀ s : Session, (s.deleteAll triples).1.txn.isSome = s.txn.isSome := by
  induction triples with
  | nil => exact fun s => rfl
  | cons ground rest induction =>
    exact fun s => (induction _).trans (active_deleteQuad s ground.triple ground.graph)

theorem active_clearDefault (s : Session) : s.clearDefault.1.txn.isSome = s.txn.isSome := by
  rw [clearDefault]
  split
  · exact active_pushUndo _ _
  · rfl

theorem active_clearAllNamed (s : Session) : s.clearAllNamed.1.txn.isSome = s.txn.isSome := by
  rw [clearAllNamed]
  split
  · exact active_pushUndo _ _
  · rfl

theorem active_clearNamed (s : Session) (graph : Text) :
    (s.clearNamed graph).1.txn.isSome = s.txn.isSome := by
  rw [clearNamed]
  split
  · rfl
  · dsimp only
    split
    · exact active_pushUndo _ _
    · rfl

theorem active_clearTarget (s : Session) (target : GraphTarget) :
    (s.clearTarget target).1.txn.isSome = s.txn.isSome := by
  cases target with
  | default => exact active_clearDefault s
  | all => exact (active_clearAllNamed _).trans (active_clearDefault s)
  | named name =>
    rw [clearTarget]
    split
    · exact active_clearAllNamed s
    · exact active_clearNamed s name

theorem active_execUpdateOp {op : UpdateOp α} {outcome : Except DbError Nat}
    (ran : s.execUpdateOp host op = some (outcome, after)) :
    after.txn.isSome = s.txn.isSome := by
  rcases execUpdateOp_cases ran with ⟨target, _, -, rfl⟩ | ⟨-, count, inserted⟩
  · exact active_clearTarget s target
  · exact (active_insertAll _ inserted).trans (active_deleteAll _ s)

theorem active_execOps (ops : List (UpdateOp α)) :
    ∀ {s after : Session} {outcome : Except DbError Nat},
      s.execOps host ops = some (outcome, after) → after.txn.isSome = s.txn.isSome := by
  induction ops with
  | nil =>
    intro s after outcome ran
    cases ran
    rfl
  | cons op rest induction =>
    intro s after outcome ran
    rcases execOps_cases ran with ⟨error, failed⟩ | ⟨changed, middle, further, executed, later⟩
    · exact active_execUpdateOp failed
    · exact (induction later).trans (active_execUpdateOp executed)

theorem active_query {sparql : Text} {outcome : Except DbError Nat}
    (ran : s.query host sparql = some (outcome, after)) :
    after.txn.isSome = s.txn.isSome := by
  rcases query_cases ran with ⟨rfl, -⟩ | ⟨ops, answer, last, updateLog, -, applied, rfl, -⟩
  · rfl
  · have still := active_execOps ops applied
    exact still

end GStore.Db.Session
