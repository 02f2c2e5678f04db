import Mathlib.Data.List.Basic

/-! # Association lists as maps

A list of key-value pairs read through `List.lookup`. `assocInsert` keeps one
entry for each key. -/

namespace GStore

universe u v w

variable {κ : Type u} {ν : Type v} [BEq κ] [LawfulBEq κ] {entries : List (κ × ν)}

/-- Bind a key, in place of its old entry if it has one. -/
@[grind =] def assocInsert (key : κ) (value : ν) : List (κ × ν) → List (κ × ν)
  | [] => [(key, value)]
  | entry :: rest =>
    if entry.1 == key then (key, value) :: rest else entry :: assocInsert key value rest

theorem lookup_cons_eq_ite (key : κ) (entry : κ × ν) (rest : List (κ × ν)) :
    (entry :: rest).lookup key = if key == entry.1 then some entry.2 else rest.lookup key := by
  rw [List.lookup_cons]
  cases key == entry.1 <;> rfl

theorem lookup_assocInsert (key other : κ) (value : ν) (entries : List (κ × ν)) :
    (assocInsert key value entries).lookup other =
      if other == key then some value else entries.lookup other := by
  induction entries with
  | nil => exact lookup_cons_eq_ite other (key, value) []
  | cons entry rest induction =>
    by_cases found : entry.1 == key
    · rw [assocInsert, if_pos found, lookup_cons_eq_ite, lookup_cons_eq_ite, eq_of_beq found]
      split <;> rfl
    · rw [assocInsert, if_neg found, lookup_cons_eq_ite, lookup_cons_eq_ite, induction]
      by_cases same : other == entry.1
      · have different : ¬ (other == key) = true := fun equal =>
          found (by rw [← eq_of_beq same, equal])
        rw [if_pos same, if_neg different, if_pos same]
      · rw [if_neg same, if_neg same]

theorem mem_keys_assocInsert (key other : κ) (value : ν) (entries : List (κ × ν)) :
    other ∈ (assocInsert key value entries).map Prod.fst ↔
      other = key ∨ other ∈ entries.map Prod.fst := by
  induction entries with
  | nil => simp [assocInsert]
  | cons entry rest induction =>
    by_cases found : entry.1 == key
    · simp [assocInsert, eq_of_beq found]
    · rw [assocInsert, if_neg found, List.map_cons, List.mem_cons, induction, List.map_cons,
        List.mem_cons]
      tauto

theorem nodup_keys_assocInsert (key : κ) (value : ν) (nodup : (entries.map Prod.fst).Nodup) :
    ((assocInsert key value entries).map Prod.fst).Nodup := by
  induction entries with
  | nil => simp [assocInsert]
  | cons entry rest induction =>
    have parts := List.nodup_cons.mp nodup
    by_cases found : entry.1 == key
    · rw [assocInsert, if_pos found]
      exact eq_of_beq found ▸ nodup
    · rw [assocInsert, if_neg found, List.map_cons, List.nodup_cons, mem_keys_assocInsert]
      have different : entry.1 ≠ key := fun equal => found (beq_iff_eq.mpr equal)
      exact ⟨fun member => member.elim different parts.1, induction parts.2⟩

theorem keys_assocInsert_of_mem {key : κ} (value : ν) (known : key ∈ entries.map Prod.fst) :
    (assocInsert key value entries).map Prod.fst = entries.map Prod.fst := by
  induction entries with
  | nil => simp at known
  | cons entry rest induction =>
    by_cases found : entry.1 == key
    · rw [assocInsert, if_pos found, List.map_cons, List.map_cons, eq_of_beq found]
    · have later : key ∈ rest.map Prod.fst := (List.mem_cons.mp known).resolve_left
        fun same => found (beq_iff_eq.mpr same.symm)
      rw [assocInsert, if_neg found, List.map_cons, List.map_cons, induction later]

/-- A map is its keys in their order and what it holds under each. -/
theorem eq_of_keys_of_lookup {entries others : List (κ × ν)}
    (keys : entries.map Prod.fst = others.map Prod.fst) (nodup : (others.map Prod.fst).Nodup)
    (same : ∀ key, entries.lookup key = others.lookup key) : entries = others := by
  induction entries generalizing others with
  | nil => exact (List.map_eq_nil_iff.mp keys.symm).symm
  | cons entry rest induction =>
    cases others with
    | nil => simp at keys
    | cons other later =>
      obtain ⟨head, tail⟩ := List.cons.inj keys
      obtain ⟨fresh, nodup⟩ := List.nodup_cons.mp nodup
      have first := same entry.1
      rw [lookup_cons_eq_ite, lookup_cons_eq_ite, head, if_pos (beq_self_eq_true _),
        if_pos (beq_self_eq_true _), Option.some.injEq] at first
      have equal : entry = other := Prod.ext head first
      rw [equal, induction tail nodup fun key => ?_]
      have further := same key
      rw [lookup_cons_eq_ite, lookup_cons_eq_ite, equal] at further
      by_cases isHead : key == other.1
      · have missing (list : List (κ × ν)) (keys : list.map Prod.fst = later.map Prod.fst) :
            list.lookup key = none := by
          rw [List.lookup_eq_none_iff]
          intro found member
          rw [bne_iff_ne, eq_of_beq isHead]
          exact fun same => fresh (keys ▸ same ▸ List.mem_map_of_mem member)
        rw [missing rest tail, missing later rfl]
      · rw [if_neg isHead, if_neg isHead] at further
        exact further

theorem forall_mem_assocInsert {key : κ} {value : ν} {property : κ × ν → Prop}
    (new : property (key, value)) (old : ∀ entry ∈ entries, property entry) :
    ∀ entry ∈ assocInsert key value entries, property entry := by
  induction entries with
  | nil => simpa [assocInsert] using new
  | cons head rest induction =>
    have tail : ∀ entry ∈ rest, property entry := fun entry member =>
      old entry (List.mem_cons_of_mem _ member)
    rw [assocInsert]
    split
    · exact List.forall_mem_cons.mpr ⟨new, tail⟩
    · exact List.forall_mem_cons.mpr ⟨old head List.mem_cons_self, induction tail⟩

theorem mem_of_lookup_eq_some {key : κ} {value : ν} (found : entries.lookup key = some value) :
    (key, value) ∈ entries := by
  induction entries with
  | nil => simp at found
  | cons entry rest induction =>
    rw [lookup_cons_eq_ite] at found
    split at found
    · rename_i same
      rw [Option.some.injEq] at found
      simp [eq_of_beq same, ← found]
    · exact List.mem_cons_of_mem _ (induction found)

theorem lookup_eq_some_of_mem {key : κ} {value : ν} (nodup : (entries.map Prod.fst).Nodup)
    (member : (key, value) ∈ entries) : entries.lookup key = some value := by
  induction entries with
  | nil => simp at member
  | cons entry rest induction =>
    have parts := List.nodup_cons.mp nodup
    rw [lookup_cons_eq_ite]
    rcases List.mem_cons.mp member with same | later
    · simp [← same]
    · have different : ¬ (key == entry.1) = true := fun equal =>
        parts.1 (eq_of_beq equal ▸ List.mem_map_of_mem later)
      rw [if_neg different]
      exact induction parts.2 later

/-- Rewriting or dropping entries value by value. -/
theorem lookup_filterMap {μ : Type w} (rewrite : ν → Option μ)
    (nodup : (entries.map Prod.fst).Nodup) (key : κ) :
    (entries.filterMap fun entry => (rewrite entry.2).map (Prod.mk entry.1)).lookup key =
      (entries.lookup key).bind rewrite := by
  induction entries with
  | nil => simp
  | cons entry rest induction =>
    have parts := List.nodup_cons.mp nodup
    have tail := induction parts.2
    rw [List.filterMap_cons, lookup_cons_eq_ite]
    cases kept : rewrite entry.2 with
    | none =>
      rw [Option.map_none]
      dsimp only
      rw [tail]
      split
      · rename_i same
        have absent : rest.lookup key = none := by
          cases found : rest.lookup key with
          | none => rfl
          | some value =>
            exact absurd (List.mem_map_of_mem (mem_of_lookup_eq_some found))
              (eq_of_beq same ▸ parts.1)
        rw [absent, Option.bind_some, kept]
        rfl
      · rfl
    | some value =>
      rw [Option.map_some]
      dsimp only
      rw [lookup_cons_eq_ite, tail]
      split
      · rw [Option.bind_some, kept]
      · rfl

theorem nodup_keys_filterMap {μ : Type w} (rewrite : ν → Option μ)
    (nodup : (entries.map Prod.fst).Nodup) :
    ((entries.filterMap fun entry => (rewrite entry.2).map (Prod.mk entry.1)).map Prod.fst).Nodup := by
  refine nodup.sublist ?_
  induction entries with
  | nil => simp
  | cons entry rest induction =>
    have tail := induction (List.nodup_cons.mp nodup).2
    rw [List.filterMap_cons]
    cases rewrite entry.2 with
    | none => exact tail.cons _
    | some value => exact tail.cons_cons _

/-- Remove a key. -/
def assocErase (key : κ) (entries : List (κ × ν)) : List (κ × ν) :=
  entries.filter fun entry => !(entry.1 == key)

theorem lookup_assocErase (key other : κ)
    (entries : List (κ × ν)) :
    (assocErase key entries).lookup other =
      if other == key then none else entries.lookup other := by
  induction entries with
  | nil => simp [assocErase]
  | cons entry rest induction =>
    rw [assocErase] at induction ⊢
    rw [List.filter_cons, lookup_cons_eq_ite]
    by_cases dropped : entry.1 = key
    · subst dropped
      rw [beq_self_eq_true, Bool.not_true, if_neg Bool.false_ne_true, induction]
      split <;> rfl
    · have kept : (!(entry.1 == key)) = true := by simpa using dropped
      rw [if_pos kept, lookup_cons_eq_ite, induction]
      by_cases same : other = entry.1
      · have different : ¬ (other == key) = true := by simpa [same] using dropped
        rw [if_neg different, if_neg different]
      · have absent : ¬ (other == entry.1) = true := by simpa using same
        rw [if_neg absent, if_neg absent]

theorem nodup_keys_assocErase (key : κ) (nodup : (entries.map Prod.fst).Nodup) :
    ((assocErase key entries).map Prod.fst).Nodup :=
  nodup.sublist (List.filter_sublist.map Prod.fst)

/-- The entries whose values are kept. -/
theorem lookup_filter (keep : ν → Bool) (nodup : (entries.map Prod.fst).Nodup) (key : κ) :
    (entries.filter fun entry => keep entry.2).lookup key = (entries.lookup key).filter keep := by
  induction entries with
  | nil => rfl
  | cons entry rest induction =>
    have parts := List.nodup_cons.mp nodup
    have tail := induction parts.2
    rw [List.filter_cons, lookup_cons_eq_ite]
    by_cases same : key = entry.1
    · subst same
      have absent : rest.lookup entry.1 = none := by
        cases found : rest.lookup entry.1 with
        | none => rfl
        | some value =>
          exact absurd (List.mem_map_of_mem (mem_of_lookup_eq_some found)) parts.1
      rw [absent] at tail
      by_cases kept : keep entry.2
      · rw [if_pos kept, lookup_cons_eq_ite, beq_self_eq_true]
        exact (Option.filter_some_pos kept).symm
      · rw [if_neg kept, beq_self_eq_true, tail]
        exact (Option.filter_some_neg (by simpa using kept)).symm
    · have different : (key == entry.1) = false := beq_false_of_ne same
      rw [different]
      split
      · rw [lookup_cons_eq_ite, different]
        exact tail
      · exact tail

end GStore
