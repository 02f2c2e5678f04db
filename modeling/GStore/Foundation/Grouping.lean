import Mathlib.Data.List.Nodup

/-! # Groups in order of their first item

Items are entered one after the other under their keys. A key that is new opens a group at the
end; each key has one group, with the items that came under it. -/

namespace GStore.Grouping

universe u v

variable {κ : Type u} {α : Type v} [DecidableEq κ]

/-- Enter an item under a key. -/
def enter (key : κ) (item : α) : List (κ × List α) → List (κ × List α)
  | [] => [(key, [item])]
  | (other, members) :: rest =>
    if other = key then (other, members ++ [item]) :: rest
    else (other, members) :: enter key item rest

def gather (pairs : List (κ × α)) : List (κ × List α) :=
  pairs.foldl (fun groups pair => enter pair.1 pair.2 groups) []

/-- The group of a key has the item. -/
def Holds (groups : List (κ × List α)) (key : κ) (item : α) : Prop :=
  ∃ members, (key, members) ∈ groups ∧ item ∈ members

variable {groups : List (κ × List α)} {key other : κ} {item found : α}

omit [DecidableEq κ] in
theorem holds_cons {group : κ × List α} :
    Holds (group :: groups) key item ↔ (group.1 = key ∧ item ∈ group.2) ∨ Holds groups key item := by
  constructor
  · rintro ⟨members, member, inside⟩
    rcases List.mem_cons.mp member with rfl | later
    · exact Or.inl ⟨rfl, inside⟩
    · exact Or.inr ⟨members, later, inside⟩
  · rintro (⟨rfl, inside⟩ | ⟨members, later, inside⟩)
    · exact ⟨group.2, List.mem_cons_self, inside⟩
    · exact ⟨members, List.mem_cons_of_mem _ later, inside⟩

theorem holds_enter :
    Holds (enter key item groups) other found ↔
      Holds groups other found ∨ (key = other ∧ found = item) := by
  have none_ : ¬ Holds ([] : List (κ × List α)) other found := by
    rintro ⟨_, impossible, -⟩
    exact List.not_mem_nil impossible
  induction groups with
  | nil =>
    rw [enter, holds_cons, or_iff_left none_, or_iff_right none_, List.mem_singleton]
  | cons group rest induction =>
    obtain ⟨first, members⟩ := group
    rw [enter]
    split
    · rename_i same
      rw [holds_cons, holds_cons, List.mem_append, List.mem_singleton, same]
      tauto
    · rw [holds_cons, holds_cons]
      tauto

theorem keys_enter :
    (enter key item groups).map Prod.fst =
      if key ∈ groups.map Prod.fst then groups.map Prod.fst else groups.map Prod.fst ++ [key] := by
  induction groups with
  | nil => rfl
  | cons group rest induction =>
    obtain ⟨first, members⟩ := group
    rw [enter]
    by_cases same : first = key
    · rw [if_pos same, List.map_cons, List.map_cons, if_pos]
      exact List.mem_cons.mpr (Or.inl same.symm)
    · have elsewhere : key ∈ first :: rest.map Prod.fst ↔ key ∈ rest.map Prod.fst :=
        List.mem_cons.trans (or_iff_right (Ne.symm same))
      rw [if_neg same, List.map_cons, List.map_cons, induction]
      simp only [elsewhere]
      split <;> rfl

theorem nodup_enter (nodup : (groups.map Prod.fst).Nodup) :
    ((enter key item groups).map Prod.fst).Nodup := by
  rw [keys_enter]
  split
  · exact nodup
  · rename_i fresh
    exact List.nodup_append.mpr ⟨nodup, List.nodup_singleton key, by
      intro first member second singleton same
      rw [List.mem_singleton.mp singleton] at same
      exact fresh (same ▸ member)⟩

variable {pairs : List (κ × α)}

theorem holds_gather : Holds (gather pairs) key item ↔ (key, item) ∈ pairs := by
  have along : ∀ (left : List (κ × α)) (groups : List (κ × List α)),
      Holds (left.foldl (fun groups pair => enter pair.1 pair.2 groups) groups) key item ↔
        Holds groups key item ∨ (key, item) ∈ left := by
    intro left
    induction left with
    | nil => simp
    | cons pair left induction =>
      intro groups
      rw [List.foldl_cons, induction, holds_enter, List.mem_cons, Prod.ext_iff, or_assoc,
        @eq_comm _ pair.1]
  rw [gather, along]
  refine or_iff_right ?_
  rintro ⟨_, impossible, -⟩
  exact List.not_mem_nil impossible

theorem nodup_gather : ((gather pairs).map Prod.fst).Nodup := by
  have along : ∀ (left : List (κ × α)) (groups : List (κ × List α)),
      (groups.map Prod.fst).Nodup →
      ((left.foldl (fun groups pair => enter pair.1 pair.2 groups) groups).map Prod.fst).Nodup := by
    intro left
    induction left with
    | nil => exact fun _ nodup => nodup
    | cons pair left induction => exact fun _ nodup => induction _ (nodup_enter nodup)
  exact along pairs [] List.nodup_nil

/-- Two items of one group came under one key, and all that came under one key are in one
group. -/
theorem together_iff {second : α} :
    (∃ group ∈ gather pairs, item ∈ group.2 ∧ second ∈ group.2) ↔
      ∃ key, (key, item) ∈ pairs ∧ (key, second) ∈ pairs := by
  constructor
  · rintro ⟨⟨key, members⟩, member, first, last⟩
    exact ⟨key, holds_gather.mp ⟨members, member, first⟩, holds_gather.mp ⟨members, member, last⟩⟩
  · rintro ⟨key, first, last⟩
    obtain ⟨members, member, inside⟩ := holds_gather.mpr first
    obtain ⟨others, other, alsoInside⟩ := holds_gather.mpr last
    obtain rfl : members = others :=
      congrArg Prod.snd (List.inj_on_of_nodup_map nodup_gather member other rfl)
    exact ⟨(key, members), member, inside, alsoInside⟩

end GStore.Grouping
