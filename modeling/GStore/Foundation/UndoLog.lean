import Mathlib.Data.Set.Insert
import Mathlib.Logic.Function.Basic
import Mathlib.Order.BooleanAlgebra.Set
import Mathlib.Tactic.Tauto

/-! # Undo logs

A family of sets that changes one element at a time. A log names, for each change,
what takes it back; taken back from the newest entry to the oldest, a log restores
the family that it started from. -/

namespace GStore

universe u v

variable {κ : Type u} {α : Type v}

/-- What takes back the removal, or the insertion, of an element. -/
inductive UndoEntry (κ : Type u) (α : Type v) where
  | add (key : κ) (item : α)
  | del (key : κ) (item : α)

namespace UndoEntry

variable [DecidableEq κ]

def revert : UndoEntry κ α → (κ → Set α) → κ → Set α
  | add key item, held => Function.update held key (insert item (held key))
  | del key item, held => Function.update held key (held key \ {item})

/-- The family after the whole log, oldest entry first, is taken back. -/
def undone (log : List (UndoEntry κ α)) (held : κ → Set α) : κ → Set α :=
  log.foldr revert held

/-- The keys that taking back a log puts elements under. -/
def readded (log : List (UndoEntry κ α)) : Set κ := {key | ∃ item, add key item ∈ log}

variable {log : List (UndoEntry κ α)} {held : κ → Set α} {key : κ} {item : α}

@[simp] theorem undone_nil (held : κ → Set α) : undone [] held = held := rfl

@[simp] theorem undone_append (log further : List (UndoEntry κ α)) (held : κ → Set α) :
    undone (log ++ further) held = undone log (undone further held) := List.foldr_append

omit [DecidableEq κ] in
@[simp] theorem readded_append (log further : List (UndoEntry κ α)) :
    readded (log ++ further) = readded log ∪ readded further := by
  ext key
  simp only [readded, List.mem_append, Set.mem_union, Set.mem_ofPred_eq, ← exists_or]

/-- A log of insertions puts back what it lists. -/
theorem undone_adds (adds : ∀ entry ∈ log, ∃ key item, entry = add key item) :
    undone log held key = held key ∪ {item | add key item ∈ log} := by
  induction log with
  | nil => simp
  | cons entry rest induction =>
    rcases adds entry List.mem_cons_self with ⟨into, item, rfl⟩
    have later := induction fun other member => adds other (List.mem_cons_of_mem _ member)
    rw [undone, List.foldr_cons, ← undone, revert]
    by_cases same : key = into
    · subst same
      rw [Function.update_self, later]
      ext other
      simp only [Set.mem_insert_iff, Set.mem_union, Set.mem_ofPred_eq, List.mem_cons, add.injEq,
        true_and]
      tauto
    · rw [Function.update_of_ne same, later]
      ext other
      simp [same]

/-- A log of removals takes away what it lists. -/
theorem undone_dels (dels : ∀ entry ∈ log, ∃ key item, entry = del key item) :
    undone log held key = held key \ {item | del key item ∈ log} := by
  induction log with
  | nil => simp
  | cons entry rest induction =>
    rcases dels entry List.mem_cons_self with ⟨out, item, rfl⟩
    have later := induction fun other member => dels other (List.mem_cons_of_mem _ member)
    rw [undone, List.foldr_cons, ← undone, revert]
    by_cases same : key = out
    · subst same
      rw [Function.update_self, later]
      ext other
      simp only [Set.mem_sdiff, Set.mem_singleton_iff, Set.mem_ofPred_eq, List.mem_cons,
        del.injEq, true_and]
      tauto
    · rw [Function.update_of_ne same, later]
      ext other
      simp [same]

/-! ## Changes that log themselves -/

/-- An insertion of what was not there is taken back by its removal. -/
theorem undone_insert (fresh : item ∉ held key) :
    undone [del key item] (Function.update held key (insert item (held key))) = held := by
  funext other
  rw [undone_dels (by simp)]
  ext found
  by_cases same : other = key
  · subst same
    by_cases here : found = item
    · simp [here, fresh]
    · simp [here]
  · simp [same]

theorem undone_remove (present : item ∈ held key) :
    undone [add key item] (Function.update held key (held key \ {item})) = held := by
  funext other
  rw [undone_adds (by simp)]
  ext found
  by_cases same : other = key
  · subst same
    by_cases here : found = item
    · simp [here, present]
    · simp [here]
  · simp [same]

end UndoEntry

end GStore
