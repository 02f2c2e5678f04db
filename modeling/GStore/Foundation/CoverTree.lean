import Mathlib.Order.Lattice
import Mathlib.Order.BoundedOrder.Basic
import Mathlib.Data.List.Perm.Basic
import GStore.Foundation.Chunks

/-! # Trees that cover their entries

A tree over values of an order: the entries are at the leaves, and every node
carries a value above all those below it. A search for the entries above a
query may then leave out each subtree whose cover is not above the query. -/

namespace GStore

universe u v

inductive CoverTree (κ : Type u) (σ : Type v) where
  | leaf (cover : σ) (entries : List (κ × σ))
  | inner (cover : σ) (children : List (CoverTree κ σ))

namespace CoverTree

variable {κ : Type u} {σ : Type v}

def cover : CoverTree κ σ → σ
  | .leaf cover _ => cover
  | .inner cover _ => cover

/-- Induction with a hypothesis for every child. -/
@[elab_as_elim]
theorem byChildren {holds : CoverTree κ σ → Prop}
    (leaf : ∀ cover entries, holds (.leaf cover entries))
    (inner : ∀ cover children, (∀ child ∈ children, holds child) → holds (.inner cover children))
    (tree : CoverTree κ σ) : holds tree :=
  match tree with
  | .leaf cover entries => leaf cover entries
  | .inner cover children => inner cover children fun child _ => byChildren leaf inner child

mutual

def entries : CoverTree κ σ → List (κ × σ)
  | .leaf _ held => held
  | .inner _ children => allEntries children

def allEntries : List (CoverTree κ σ) → List (κ × σ)
  | [] => []
  | child :: rest => child.entries ++ allEntries rest

end

theorem allEntries_eq (children : List (CoverTree κ σ)) :
    allEntries children = children.flatMap entries := by
  induction children with
  | nil => rfl
  | cons child rest induction => rw [allEntries, induction, List.flatMap_cons]

@[simp] theorem entries_leaf (cover : σ) (held : List (κ × σ)) :
    (leaf cover held).entries = held := rfl

@[simp] theorem entries_inner (cover : σ) (children : List (CoverTree κ σ)) :
    (inner cover children).entries = children.flatMap entries :=
  allEntries_eq children

/-- Every cover is above the values below it, and no inner node is empty. -/
inductive Covers [LE σ] : CoverTree κ σ → Prop where
  | leaf {cover : σ} {held : List (κ × σ)} (above : ∀ entry ∈ held, entry.2 ≤ cover) :
      Covers (.leaf cover held)
  | inner {cover : σ} {children : List (CoverTree κ σ)} (nonempty : children ≠ [])
      (below : ∀ child ∈ children, child.Covers)
      (above : ∀ child ∈ children, child.cover ≤ cover) : Covers (.inner cover children)

theorem Covers.le_cover [Preorder σ] {tree : CoverTree κ σ} (covers : tree.Covers) :
    ∀ entry ∈ tree.entries, entry.2 ≤ tree.cover := by
  induction covers with
  | leaf above => exact above
  | inner nonempty below above induction =>
    intro entry member
    rw [entries_inner, List.mem_flatMap] at member
    rcases member with ⟨child, among, held⟩
    exact le_trans (induction child among entry held) (above child among)

section Search

variable [LE σ] [DecidableLE σ]

mutual

/-- The keys of the entries above the query, without the subtrees that cannot
hold one. -/
def search (query : σ) : CoverTree κ σ → List κ
  | .leaf cover held =>
    if query ≤ cover then (held.filter fun entry => decide (query ≤ entry.2)).map Prod.fst
    else []
  | .inner cover children => if query ≤ cover then searchAll query children else []

def searchAll (query : σ) : List (CoverTree κ σ) → List κ
  | [] => []
  | child :: rest => child.search query ++ searchAll query rest

end

theorem searchAll_eq (query : σ) (children : List (CoverTree κ σ)) :
    searchAll query children = children.flatMap (search query) := by
  induction children with
  | nil => rfl
  | cons child rest induction => rw [searchAll, induction, List.flatMap_cons]

end Search

/-- The keys of the entries whose value is above the query. -/
def above [LE σ] [DecidableLE σ] (query : σ) (held : List (κ × σ)) : List κ :=
  (held.filter fun entry => decide (query ≤ entry.2)).map Prod.fst

section Above

variable [LE σ] [DecidableLE σ] {query : σ}

@[simp] theorem mem_above {held : List (κ × σ)} {key : κ} :
    key ∈ above query held ↔ ∃ value, (key, value) ∈ held ∧ query ≤ value := by
  simp [above]

theorem above_append (left right : List (κ × σ)) :
    above query (left ++ right) = above query left ++ above query right := by
  simp [above]

theorem above_flatMap {ι : Type*} (parts : List ι) (held : ι → List (κ × σ)) :
    above query (parts.flatMap held) = parts.flatMap fun part => above query (held part) := by
  induction parts with
  | nil => rfl
  | cons part rest induction =>
    rw [List.flatMap_cons, above_append, induction, List.flatMap_cons]

theorem above_eq_nil {held : List (κ × σ)} (none : ∀ entry ∈ held, ¬ query ≤ entry.2) :
    above query held = [] := by
  rw [above, List.map_eq_nil_iff, List.filter_eq_nil_iff]
  intro entry member
  simpa using none entry member

theorem above_perm {left right : List (κ × σ)} (permuted : left.Perm right) :
    (above query left).Perm (above query right) :=
  (permuted.filter _).map _

end Above

/-- Pruning loses nothing: the search finds exactly the entries above the query. -/
theorem Covers.search_eq [Preorder σ] [DecidableLE σ] {tree : CoverTree κ σ}
    (covers : tree.Covers) (query : σ) : tree.search query = above query tree.entries := by
  induction covers with
  | @leaf cover held under =>
    rw [search, entries_leaf]
    split
    · rfl
    · rename_i pruned
      refine (above_eq_nil ?_).symm
      intro entry member reaches
      exact pruned (le_trans reaches (under entry member))
  | @inner cover children nonempty below under induction =>
    rw [search, entries_inner, above_flatMap]
    split
    · rw [searchAll_eq]
      exact List.flatMap_congr induction
    · rename_i pruned
      refine (List.flatMap_eq_nil_iff.mpr ?_).symm
      intro child among
      apply above_eq_nil
      intro entry member reaches
      exact pruned (le_trans reaches
        (le_trans ((below child among).le_cover entry member) (under child among)))

/-! ## Joins of many values -/

section Join

variable [SemilatticeSup σ]

theorem foldl_sup_le_iff (values : List σ) :
    ∀ start bound : σ, values.foldl (· ⊔ ·) start ≤ bound ↔
      start ≤ bound ∧ ∀ value ∈ values, value ≤ bound := by
  induction values with
  | nil => simp
  | cons head tail induction =>
    intro start bound
    rw [List.foldl_cons, induction, sup_le_iff, List.forall_mem_cons, and_assoc]

variable [OrderBot σ]

/-- The join of the values, in the order of the list. -/
def joinAll (values : List σ) : σ := values.foldl (· ⊔ ·) ⊥

theorem joinAll_le_iff {values : List σ} {bound : σ} :
    joinAll values ≤ bound ↔ ∀ value ∈ values, value ≤ bound := by
  rw [joinAll, foldl_sup_le_iff]
  simp

theorem le_joinAll {values : List σ} {value : σ} (member : value ∈ values) :
    value ≤ joinAll values :=
  joinAll_le_iff.mp le_rfl value member

/-! ## Bulk loading -/

/-- A leaf with the least cover of its entries. -/
def ofEntries (held : List (κ × σ)) : CoverTree κ σ :=
  .leaf (joinAll (held.map Prod.snd)) held

/-- A node with the least cover of its children. -/
def ofChildren (children : List (CoverTree κ σ)) : CoverTree κ σ :=
  .inner (joinAll (children.map cover)) children

theorem covers_ofEntries (held : List (κ × σ)) : (ofEntries held).Covers :=
  .leaf fun _ member => le_joinAll (List.mem_map_of_mem member)

theorem covers_ofChildren {children : List (CoverTree κ σ)} (nonempty : children ≠ [])
    (below : ∀ child ∈ children, child.Covers) : (ofChildren children).Covers :=
  .inner nonempty below fun _ member => le_joinAll (List.mem_map_of_mem member)

/-- Group a level of nodes until one is left, with fuel for the levels. -/
def stack (fanout : Nat) : Nat → List (CoverTree κ σ) → List (CoverTree κ σ)
  | 0, level => level
  | fuel + 1, level =>
    if 1 < level.length then stack fanout fuel ((chunks fanout level).map ofChildren) else level

theorem length_stack {fanout : Nat} (two : 2 ≤ fanout) (fuel : Nat) :
    ∀ level : List (CoverTree κ σ), level ≠ [] → level.length ≤ fuel + 1 →
      (stack fanout fuel level).length = 1 := by
  induction fuel with
  | zero =>
    intro level nonempty short
    have some := List.length_pos_iff.mpr nonempty
    rw [stack]
    omega
  | succ fuel induction =>
    intro level nonempty short
    rw [stack]
    split
    · rename_i many
      have fewer := length_chunks_lt two many
      apply induction
      · simpa using chunks_ne_nil (by omega) nonempty
      · rw [List.length_map]
        omega
    · have some := List.length_pos_iff.mpr nonempty
      omega

theorem covers_stack {fanout : Nat} (positive : 0 < fanout) (fuel : Nat) :
    ∀ level : List (CoverTree κ σ), (∀ node ∈ level, node.Covers) →
      ∀ node ∈ stack fanout fuel level, node.Covers := by
  induction fuel with
  | zero => intro level covers; exact covers
  | succ fuel induction =>
    intro level covers
    rw [stack]
    split
    · apply induction
      intro node member
      rcases List.mem_map.mp member with ⟨chunk, among, rfl⟩
      refine covers_ofChildren (ne_nil_of_mem_chunks positive among) ?_
      intro child held
      apply covers
      rw [← flatten_chunks positive level]
      exact List.mem_flatten.mpr ⟨chunk, among, held⟩
    · exact covers

theorem entries_stack {fanout : Nat} (positive : 0 < fanout) (fuel : Nat) :
    ∀ level : List (CoverTree κ σ),
      (stack fanout fuel level).flatMap entries = level.flatMap entries := by
  induction fuel with
  | zero => intro level; rfl
  | succ fuel induction =>
    intro level
    rw [stack]
    split
    · have grouped : ((chunks fanout level).map ofChildren).flatMap entries =
          (chunks fanout level).flatten.flatMap entries := by
        rw [List.flatMap_map, List.flatten_eq_flatMap, List.flatMap_assoc]
        exact List.flatMap_congr fun chunk _ => entries_inner _ chunk
      rw [induction, grouped, flatten_chunks positive]
    · rfl

/-- The levels over leaves of `fanout` entries. -/
def bulk (fanout : Nat) (held : List (κ × σ)) : List (CoverTree κ σ) :=
  let leaves := (chunks fanout held).map ofEntries
  stack fanout leaves.length leaves

/-- Bulk loading leaves one root, which covers and holds the entries. -/
theorem bulk_spec {fanout : Nat} (two : 2 ≤ fanout) {held : List (κ × σ)} (nonempty : held ≠ []) :
    ∃ root, bulk fanout held = [root] ∧ root.Covers ∧ root.entries = held := by
  have positive : 0 < fanout := by omega
  have leaves : (chunks fanout held).map ofEntries ≠ ([] : List (CoverTree κ σ)) := by
    simpa using chunks_ne_nil positive nonempty
  have one := length_stack two _ ((chunks fanout held).map ofEntries) leaves (Nat.le_succ _)
  rcases List.length_eq_one_iff.mp one with ⟨root, single⟩
  refine ⟨root, single, ?_, ?_⟩
  · apply covers_stack positive ((chunks fanout held).map ofEntries).length
      ((chunks fanout held).map ofEntries)
    · intro node member
      rcases List.mem_map.mp member with ⟨chunk, -, rfl⟩
      exact covers_ofEntries chunk
    · rw [single]
      exact List.mem_singleton_self root
  · have kept := entries_stack positive ((chunks fanout held).map ofEntries).length
      ((chunks fanout held).map fun chunk => (ofEntries chunk : CoverTree κ σ))
    rw [single, List.flatMap_singleton, List.flatMap_map] at kept
    rw [kept]
    exact List.flatMap_id'.trans (flatten_chunks positive held)

end Join

end CoverTree

end GStore
