import GStore.Foundation.Assoc
import GStore.Foundation.ByteKeys
import GStore.Foundation.SortedSlice
import Mathlib

/-! # The string index

A secondary index over strings with ids. The postings of the three-byte windows of a needle
narrow a substring search, and the ids ordered by their strings answer a prefix search. Postings
of an overwritten string stay, so what the windows find is checked against the strings. -/

namespace GStore.Kvstore

open SortedSlice

/-! ## Windows -/

/-- The key of a window. -/
def pack (first second third : UInt8) : UInt32 :=
  (first.toUInt32 <<< 16) ||| (second.toUInt32 <<< 8) ||| third.toUInt32

/-- Bytes in a window. -/
def gram : Nat := 3

/-- The keys of the windows of a string. -/
def grams : Bytes → List UInt32
  | first :: second :: third :: rest =>
    pack first second third :: grams (second :: third :: rest)
  | _ => []

theorem grams_subset_cons (byte : UInt8) (bytes : Bytes) : grams bytes ⊆ grams (byte :: bytes) := by
  cases bytes with
  | nil => exact List.nil_subset _
  | cons second rest =>
    cases rest with
    | nil => exact List.nil_subset _
    | cons third rest =>
      intro key member
      rw [grams]
      exact List.mem_cons_of_mem _ member

theorem grams_subset_append_left (front bytes : Bytes) : grams bytes ⊆ grams (front ++ bytes) := by
  induction front with
  | nil => exact fun key member => member
  | cons byte front induction => exact List.Subset.trans induction (grams_subset_cons byte _)

theorem grams_subset_append_right (bytes back : Bytes) : grams bytes ⊆ grams (bytes ++ back) := by
  induction bytes using grams.induct with
  | case1 first second third rest induction =>
    intro key member
    rw [grams] at member
    rw [List.cons_append, List.cons_append, List.cons_append, grams]
    rcases List.mem_cons.mp member with same | later
    · rw [same]
      exact List.mem_cons_self
    · exact List.mem_cons_of_mem _ (induction later)
  | case2 bytes short =>
    rw [grams.eq_def]
    split
    · rename_i first second third rest
      exact absurd rfl (short first second third rest)
    · exact List.nil_subset _

/-- A string has the windows of what it contains. -/
theorem grams_subset_of_substring {needle bytes : Bytes} (contains : needle <:+: bytes) :
    grams needle ⊆ grams bytes := by
  rcases contains with ⟨front, back, rfl⟩
  exact List.Subset.trans (grams_subset_append_left front needle)
    (grams_subset_append_right _ back)

theorem grams_ne_nil {bytes : Bytes} (long : gram ≤ bytes.length) : grams bytes ≠ [] := by
  rw [grams.eq_def]
  split
  · exact List.cons_ne_nil _ _
  · rename_i short
    rcases bytes with - | ⟨first, - | ⟨second, - | ⟨third, rest⟩⟩⟩
    · simp [gram] at long
    · simp [gram] at long
    · simp [gram] at long
    · exact absurd rfl (short first second third rest)

/-! ## Ascending lists -/

/-- `intersect_sorted`. -/
def intersectSorted : List UInt32 → List UInt32 → List UInt32
  | left :: lefts, right :: rights =>
    if left = right then left :: intersectSorted lefts rights
    else if left < right then intersectSorted lefts (right :: rights)
    else intersectSorted (left :: lefts) rights
  | _, _ => []
termination_by lefts rights => lefts.length + rights.length

theorem intersectSorted_sublist (lefts rights : List UInt32) :
    (intersectSorted lefts rights).Sublist lefts := by
  induction lefts, rights using intersectSorted.induct with
  | case1 lefts left rights induction =>
    rw [intersectSorted, if_pos rfl]
    exact induction.cons_cons left
  | case2 left lefts right rights differ less induction =>
    rw [intersectSorted, if_neg differ, if_pos less]
    exact induction.cons left
  | case3 left lefts right rights differ notLess induction =>
    rw [intersectSorted, if_neg differ, if_neg notLess]
    exact induction
  | case4 lefts rights short =>
    rw [intersectSorted.eq_def]
    split
    · exact absurd rfl (short _ _ _ _ rfl)
    · exact List.nil_sublist _

theorem intersectSorted_subset_right (lefts rights : List UInt32) :
    intersectSorted lefts rights ⊆ rights := by
  induction lefts, rights using intersectSorted.induct with
  | case1 lefts left rights induction =>
    rw [intersectSorted, if_pos rfl]
    exact List.cons_subset_cons left induction
  | case2 left lefts right rights differ less induction =>
    rw [intersectSorted, if_neg differ, if_pos less]
    exact induction
  | case3 left lefts right rights differ notLess induction =>
    rw [intersectSorted, if_neg differ, if_neg notLess]
    exact List.subset_cons_of_subset right induction
  | case4 lefts rights short =>
    rw [intersectSorted.eq_def]
    split
    · exact absurd rfl (short _ _ _ _ rfl)
    · exact List.nil_subset _

theorem mem_intersectSorted {lefts rights : List UInt32} (leftSorted : lefts.Pairwise (· < ·))
    (rightSorted : rights.Pairwise (· < ·)) {id : UInt32} (inLeft : id ∈ lefts)
    (inRight : id ∈ rights) : id ∈ intersectSorted lefts rights := by
  induction lefts, rights using intersectSorted.induct with
  | case1 lefts left rights induction =>
    rw [intersectSorted, if_pos rfl]
    have leftParts := List.pairwise_cons.mp leftSorted
    have rightParts := List.pairwise_cons.mp rightSorted
    by_cases same : id = left
    · rw [same]
      exact List.mem_cons_self
    · exact List.mem_cons_of_mem _ (induction leftParts.2 rightParts.2
        (List.mem_of_ne_of_mem same inLeft) (List.mem_of_ne_of_mem same inRight))
  | case2 left lefts right rights differ less induction =>
    rw [intersectSorted, if_neg differ, if_pos less]
    have leftParts := List.pairwise_cons.mp leftSorted
    have apart : id ≠ left := by
      rintro rfl
      rcases List.mem_cons.mp inRight with same | later
      · exact differ same
      · exact absurd (less.trans ((List.pairwise_cons.mp rightSorted).1 id later)) (lt_irrefl _)
    exact induction leftParts.2 rightSorted (List.mem_of_ne_of_mem apart inLeft) inRight
  | case3 left lefts right rights differ notLess induction =>
    rw [intersectSorted, if_neg differ, if_neg notLess]
    have rightParts := List.pairwise_cons.mp rightSorted
    have greater : right < left := lt_of_le_of_ne (not_lt.mp notLess) (Ne.symm differ)
    have apart : id ≠ right := by
      rintro rfl
      rcases List.mem_cons.mp inLeft with same | later
      · exact differ same.symm
      · exact absurd (greater.trans ((List.pairwise_cons.mp leftSorted).1 id later)) (lt_irrefl _)
    exact induction leftSorted rightParts.2 inLeft (List.mem_of_ne_of_mem apart inRight)
  | case4 lefts rights short =>
    rcases lefts with - | ⟨left, lefts⟩
    · cases inLeft
    · rcases rights with - | ⟨right, rights⟩
      · cases inRight
      · exact absurd rfl (short left lefts right rights rfl)

/-- The loop over the postings, which stops when nothing is left. -/
def intersectAll (acc : List UInt32) : List (List UInt32) → List UInt32
  | [] => acc
  | posting :: rest =>
    let acc := intersectSorted acc posting
    if acc.isEmpty then acc else intersectAll acc rest

theorem intersectAll_sublist (postings : List (List UInt32)) (acc : List UInt32) :
    (intersectAll acc postings).Sublist acc := by
  induction postings generalizing acc with
  | nil => exact List.Sublist.refl _
  | cons posting rest induction =>
    rw [intersectAll]
    split
    · exact intersectSorted_sublist acc posting
    · exact (induction _).trans (intersectSorted_sublist acc posting)

theorem mem_intersectAll {postings : List (List UInt32)} {acc : List UInt32}
    (accSorted : acc.Pairwise (· < ·)) (sorted : ∀ posting ∈ postings, posting.Pairwise (· < ·))
    {id : UInt32} (inAcc : id ∈ acc) (inAll : ∀ posting ∈ postings, id ∈ posting) :
    id ∈ intersectAll acc postings := by
  induction postings generalizing acc with
  | nil => exact inAcc
  | cons posting rest induction =>
    rw [List.forall_mem_cons] at sorted inAll
    have kept := mem_intersectSorted accSorted sorted.1 inAcc inAll.1
    rw [intersectAll]
    rw [if_neg fun empty => by rw [List.isEmpty_iff.mp empty] at kept; cases kept]
    exact induction (accSorted.sublist (intersectSorted_sublist acc posting)) sorted.2 kept
      inAll.2

/-! ## The index -/

structure StringIndex where
  byId : List (UInt32 × Bytes)
  /-- Postings by window, ascending. -/
  trigrams : List (UInt32 × List UInt32)
  /-- The ids by their strings. -/
  ordered : List UInt32

namespace StringIndex

def new : StringIndex := { byId := [], trigrams := [], ordered := [] }

/-- `by_id[id]`, which panics if the id is missing. -/
def stringAt (index : StringIndex) (id : UInt32) : Bytes := (index.byId.lookup id).getD []

def postGram (id : UInt32) (trigrams : List (UInt32 × List UInt32)) (key : UInt32) :
    List (UInt32 × List UInt32) :=
  let list := (trigrams.lookup key).getD []
  match binarySearch list id with
  | .ok _ => assocInsert key list trigrams
  | .error pos => assocInsert key (list.insertIdx pos id) trigrams

def indexGrams (index : StringIndex) (id : UInt32) (bytes : Bytes) : StringIndex :=
  { index with trigrams := (grams bytes).foldl (postGram id) index.trigrams }

/-- By string, then by id. -/
def orderKey (index : StringIndex) (id : UInt32) : Bytes ×ₗ UInt32 := toLex (index.stringAt id, id)

def sortOrdered (index : StringIndex) : StringIndex :=
  { index with
    ordered := index.ordered.mergeSort fun left right =>
      decide (index.orderKey left ≤ index.orderKey right) }

/-- One pair of a build, which sorts at the end. -/
def gather (index : StringIndex) (pair : UInt32 × Bytes) : StringIndex :=
  let index := index.indexGrams pair.1 pair.2
  { index with
    byId := assocInsert pair.1 pair.2 index.byId
    ordered := index.ordered ++ [pair.1] }

def build (pairs : List (UInt32 × Bytes)) : StringIndex := (pairs.foldl gather new).sortOrdered

/-- A known id gets the new string; its old postings stay. -/
def insert (index : StringIndex) (pair : UInt32 × Bytes) : StringIndex :=
  let index := index.indexGrams pair.1 pair.2
  let existed := (index.byId.lookup pair.1).isSome
  let index := { index with byId := assocInsert pair.1 pair.2 index.byId }
  if !existed then
    let pos := partitionPoint (fun other => decide (index.stringAt other < pair.2)) index.ordered
    { index with ordered := index.ordered.insertIdx pos pair.1 }
  else index.sortOrdered

def allIds (index : StringIndex) : List UInt32 :=
  (index.byId.map Prod.fst).insertionSort (· ≤ ·)

/-- The postings of some windows, if all of them have some. -/
def postingsOf (trigrams : List (UInt32 × List UInt32)) : List UInt32 → Option (List (List UInt32))
  | [] => some []
  | key :: rest => do
    let list ← trigrams.lookup key
    let postings ← postingsOf trigrams rest
    return list :: postings

/-- A superset of the ids whose string contains the needle. -/
def containsCandidates (index : StringIndex) (needle : Bytes) : List UInt32 :=
  if needle.length < gram then index.allIds
  else
    match postingsOf index.trigrams (sortDedup (grams needle)) with
    | none => []
    | some postings =>
      match postings.mergeSort fun left right => decide (left.length ≤ right.length) with
      | [] => []
      | first :: rest => intersectAll first rest

def searchContains (index : StringIndex) (needle : Bytes) : List UInt32 :=
  (index.containsCandidates needle).filter fun id =>
    match index.byId.lookup id with
    | some bytes => decide (needle <:+: bytes)
    | none => false

/-- The ids whose string starts with `stem`: a run of the ordered ids. -/
def prefixIds (index : StringIndex) (stem : Bytes) : List UInt32 :=
  let lo := partitionPoint (fun id => decide (index.stringAt id < stem)) index.ordered
  ((index.ordered.drop lo).takeWhile fun id => stem.isPrefixOf (index.stringAt id)).insertionSort
    (· ≤ ·)

/-! ## Postings -/

/-- Every window of every string has the id of the string among its postings. -/
structure Posted (index : StringIndex) : Prop where
  keys : (index.byId.map Prod.fst).Nodup
  ascending : ∀ key list, index.trigrams.lookup key = some list → list.Pairwise (· < ·)
  posted : ∀ id bytes, index.byId.lookup id = some bytes → ∀ key ∈ grams bytes,
    ∃ list, index.trigrams.lookup key = some list ∧ id ∈ list

theorem lookup_postGram (id : UInt32) {trigrams : List (UInt32 × List UInt32)} (key : UInt32)
    (ascending : ∀ key list, trigrams.lookup key = some list → list.Pairwise (· < ·)) :
    (∀ other list, (postGram id trigrams key).lookup other = some list →
      list.Pairwise (· < ·)) ∧
    (∃ list, (postGram id trigrams key).lookup key = some list ∧ id ∈ list) ∧
    ∀ other list, trigrams.lookup other = some list →
      ∃ longer, (postGram id trigrams key).lookup other = some longer ∧ list ⊆ longer := by
  have old : ((trigrams.lookup key).getD []).Pairwise (· < ·) := by
    cases found : trigrams.lookup key with
    | none => exact List.Pairwise.nil
    | some list => exact ascending key list found
  have result : ∃ list : List UInt32, postGram id trigrams key = assocInsert key list trigrams ∧
      list.Pairwise (· < ·) ∧ id ∈ list ∧ (trigrams.lookup key).getD [] ⊆ list := by
    rw [postGram]
    rcases binarySearch_cases _ old id with
      ⟨below, above, equal, found, -, -⟩ | ⟨below, above, equal, missed, below_lt, above_gt⟩
    · rw [found]
      refine ⟨_, rfl, old, ?_, List.Subset.refl _⟩
      rw [equal]
      simp
    · rw [missed]
      refine ⟨_, rfl, ?_, ?_, ?_⟩
      · rw [equal, insertIdx_length_append, List.pairwise_append, List.pairwise_cons]
        rw [equal, List.pairwise_append] at old
        refine ⟨old.1, ⟨above_gt, old.2.1⟩, ?_⟩
        intro left inBelow right inRest
        rcases List.mem_cons.mp inRest with rfl | inAbove
        · exact below_lt left inBelow
        · exact old.2.2 left inBelow right inAbove
      · rw [equal, insertIdx_length_append]
        simp
      · rw [equal, insertIdx_length_append]
        intro other member
        simp only [List.mem_append, List.mem_cons] at member ⊢
        tauto
  rcases result with ⟨list, changed, sorted, present, contains⟩
  rw [changed]
  refine ⟨fun other stored found => ?_, ⟨list, ?_, present⟩, fun other stored found => ?_⟩
  · rw [lookup_assocInsert] at found
    split at found
    · exact Option.some.inj found ▸ sorted
    · exact ascending other stored found
  · rw [lookup_assocInsert, if_pos (beq_self_eq_true key)]
  · rw [lookup_assocInsert]
    by_cases same : other = key
    · subst same
      rw [if_pos (beq_self_eq_true other)]
      rw [found] at contains
      exact ⟨list, rfl, contains⟩
    · rw [if_neg (by simpa using same)]
      exact ⟨stored, found, List.Subset.refl _⟩

/-- Posting all windows of a string. -/
theorem lookup_foldl_postGram (id : UInt32) (keys : List UInt32)
    {trigrams : List (UInt32 × List UInt32)}
    (ascending : ∀ key list, trigrams.lookup key = some list → list.Pairwise (· < ·)) :
    (∀ key list, (keys.foldl (postGram id) trigrams).lookup key = some list →
      list.Pairwise (· < ·)) ∧
    (∀ key ∈ keys, ∃ list, (keys.foldl (postGram id) trigrams).lookup key = some list ∧
      id ∈ list) ∧
    ∀ key list, trigrams.lookup key = some list →
      ∃ longer, (keys.foldl (postGram id) trigrams).lookup key = some longer ∧
        list ⊆ longer := by
  induction keys generalizing trigrams with
  | nil =>
    refine ⟨ascending, fun key member => absurd member List.not_mem_nil, ?_⟩
    exact fun key list found => ⟨list, found, List.Subset.refl _⟩
  | cons first rest induction =>
    have step := lookup_postGram id first ascending
    have later := induction step.1
    refine ⟨later.1, fun key member => ?_, fun key list found => ?_⟩
    · rcases List.mem_cons.mp member with same | inRest
      · rcases step.2.1 with ⟨list, found, present⟩
        rcases later.2.2 first list found with ⟨longer, kept, contains⟩
        rw [same]
        exact ⟨longer, kept, contains present⟩
      · exact later.2.1 key inRest
    · rcases step.2.2 key list found with ⟨middle, kept, inMiddle⟩
      rcases later.2.2 key middle kept with ⟨longer, last, contains⟩
      exact ⟨longer, last, List.Subset.trans inMiddle contains⟩

/-- What `insert` and `build` do to the strings and their postings. -/
theorem Posted.store {index after : StringIndex} (posted : index.Posted) {id : UInt32}
    {bytes : Bytes} (byId : after.byId = assocInsert id bytes index.byId)
    (trigrams : after.trigrams = (grams bytes).foldl (postGram id) index.trigrams) :
    after.Posted where
  keys := by
    rw [byId]
    exact nodup_keys_assocInsert id bytes posted.keys
  ascending := by
    rw [trigrams]
    exact (lookup_foldl_postGram id (grams bytes) posted.ascending).1
  posted := by
    intro other string found key member
    have posts := lookup_foldl_postGram id (grams bytes) posted.ascending
    rw [byId, lookup_assocInsert] at found
    rw [trigrams]
    split at found
    · rename_i same
      rw [← Option.some.inj found] at member
      rw [eq_of_beq same]
      exact posts.2.1 key member
    · rcases posted.posted other string found key member with ⟨list, stored, present⟩
      rcases posts.2.2 key list stored with ⟨longer, kept, contains⟩
      exact ⟨longer, kept, contains present⟩

/-! ## The ordered ids -/

/-- The ordered ids are the known ones. -/
structure Listed (index : StringIndex) : Prop where
  nodup : index.ordered.Nodup
  mem_iff : ∀ id, id ∈ index.ordered ↔ (index.byId.lookup id).isSome = true

/-- The order of the ordered ids. -/
def Ascending (index : StringIndex) : Prop :=
  index.ordered.Pairwise fun left right => index.stringAt left ≤ index.stringAt right

/-- What holds of an index between its calls. -/
structure Indexed (index : StringIndex) : Prop where
  posted : index.Posted
  listed : index.Listed
  ascending : index.Ascending

theorem Posted.of_same {index other : StringIndex} (posted : index.Posted)
    (byId : other.byId = index.byId) (trigrams : other.trigrams = index.trigrams) :
    other.Posted where
  keys := by rw [byId]; exact posted.keys
  ascending := by rw [trigrams]; exact posted.ascending
  posted := by rw [byId, trigrams]; exact posted.posted

theorem stringAt_of_lookup {index : StringIndex} {id : UInt32} {bytes : Bytes}
    (found : index.byId.lookup id = some bytes) : index.stringAt id = bytes := by
  rw [stringAt, found, Option.getD_some]

theorem Listed.sortOrdered {index : StringIndex} (listed : index.Listed) :
    index.sortOrdered.Listed where
  nodup := (List.mergeSort_perm _ _).nodup_iff.mpr listed.nodup
  mem_iff := fun id => (List.mergeSort_perm _ _).mem_iff.trans (listed.mem_iff id)

theorem ascending_sortOrdered (index : StringIndex) : index.sortOrdered.Ascending := by
  have trans : ∀ first second third : UInt32,
      decide (index.orderKey first ≤ index.orderKey second) = true →
      decide (index.orderKey second ≤ index.orderKey third) = true →
      decide (index.orderKey first ≤ index.orderKey third) = true := by
    intro first second third left right
    rw [decide_eq_true_eq] at left right ⊢
    exact left.trans right
  have total : ∀ left right : UInt32, (decide (index.orderKey left ≤ index.orderKey right) ||
      decide (index.orderKey right ≤ index.orderKey left)) = true := by
    intro left right
    rw [Bool.or_eq_true, decide_eq_true_eq, decide_eq_true_eq]
    exact le_total _ _
  refine (List.pairwise_mergeSort trans total index.ordered).imp fun order => ?_
  rw [decide_eq_true_eq, orderKey, orderKey, Prod.Lex.toLex_le_toLex] at order
  rcases order with less | ⟨same, -⟩
  · exact less.le
  · exact same.le

theorem lookup_isSome_assocInsert (id other : UInt32) (bytes : Bytes)
    (entries : List (UInt32 × Bytes)) :
    ((assocInsert id bytes entries).lookup other).isSome = true ↔
      other = id ∨ (entries.lookup other).isSome = true := by
  rw [lookup_assocInsert]
  by_cases same : other = id
  · simp [same]
  · simp [same]

/-! ## Building and inserting -/

theorem posted_new : new.Posted where
  keys := List.nodup_nil
  ascending := fun _ _ found => by cases found
  posted := fun _ _ found => by cases found

theorem listed_new : new.Listed where
  nodup := List.nodup_nil
  mem_iff := fun id => by simp [new]

/-- A pair whose id is new. -/
theorem gather_spec {index : StringIndex} {pair : UInt32 × Bytes} (posted : index.Posted)
    (listed : index.Listed) (fresh : index.byId.lookup pair.1 = none) :
    (index.gather pair).Posted ∧ (index.gather pair).Listed := by
  refine ⟨posted.store rfl rfl, ?_, ?_⟩
  · have absent : pair.1 ∉ index.ordered := by
      rw [listed.mem_iff, fresh]
      exact Bool.false_ne_true
    exact (List.nodup_append_comm.mp (List.nodup_cons.mpr ⟨absent, listed.nodup⟩))
  · intro id
    change id ∈ index.ordered ++ [pair.1] ↔
      ((assocInsert pair.1 pair.2 index.byId).lookup id).isSome = true
    rw [lookup_isSome_assocInsert, List.mem_append, List.mem_singleton, listed.mem_iff]
    exact or_comm

theorem foldl_gather_spec (pairs : List (UInt32 × Bytes)) {index : StringIndex}
    (posted : index.Posted) (listed : index.Listed) (unique : (pairs.map Prod.fst).Nodup)
    (fresh : ∀ pair ∈ pairs, index.byId.lookup pair.1 = none) :
    (pairs.foldl gather index).Posted ∧ (pairs.foldl gather index).Listed := by
  induction pairs generalizing index with
  | nil => exact ⟨posted, listed⟩
  | cons first rest induction =>
    rw [List.forall_mem_cons] at fresh
    have parts := List.nodup_cons.mp unique
    have step := gather_spec posted listed fresh.1
    refine induction step.1 step.2 parts.2 fun pair member => ?_
    have different : pair.1 ≠ first.1 := fun same =>
      parts.1 (same ▸ List.mem_map_of_mem member)
    change (assocInsert first.1 first.2 index.byId).lookup pair.1 = none
    rw [lookup_assocInsert, if_neg (by simpa using different)]
    exact fresh.2 pair member

theorem indexed_build {pairs : List (UInt32 × Bytes)} (unique : (pairs.map Prod.fst).Nodup) :
    (build pairs).Indexed := by
  have gathered := foldl_gather_spec pairs posted_new listed_new unique fun _ _ => rfl
  exact ⟨gathered.1.of_same rfl rfl, gathered.2.sortOrdered, ascending_sortOrdered _⟩

theorem Ascending.of_stringAt {index other : StringIndex} (ascending : index.Ascending)
    (ordered : other.ordered = index.ordered)
    (same : ∀ id ∈ index.ordered, other.stringAt id = index.stringAt id) : other.Ascending := by
  rw [Ascending, ordered]
  refine List.Pairwise.imp_of_mem (fun leftMember rightMember order => ?_) ascending
  rwa [same _ leftMember, same _ rightMember]

/-- An id put before the first string that is not smaller. -/
theorem Ascending.insertIdx {index after : StringIndex} (ascending : index.Ascending) (id : UInt32)
    (strings : after.byId = index.byId)
    (ordered : after.ordered = index.ordered.insertIdx (partitionPoint
      (fun other => decide (index.stringAt other < index.stringAt id)) index.ordered) id) :
    after.Ascending := by
  have same : ∀ other, after.stringAt other = index.stringAt other := fun other => by
    rw [stringAt, stringAt, strings]
  obtain ⟨below, above, equal, smaller, others⟩ := exists_split
    (fun other => decide (index.stringAt other < index.stringAt id)) index.ordered
    (ascending.imp fun order less => by
      rw [decide_eq_true_eq] at less ⊢
      exact lt_of_le_of_lt order less)
  have point := partitionPoint_append smaller others
  rw [Ascending, equal, List.pairwise_append] at ascending
  rw [Ascending, ordered, equal, point, insertIdx_length_append, List.pairwise_append,
    List.pairwise_cons]
  simp only [same]
  refine ⟨ascending.1, ⟨fun other member => ?_, ascending.2.1⟩, fun other member next inRest => ?_⟩
  · exact not_lt.mp (of_decide_eq_false (others other member))
  · rcases List.mem_cons.mp inRest with rfl | later
    · exact (of_decide_eq_true (smaller other member)).le
    · exact ascending.2.2 other member next later

/-- The index with the postings and the string of a pair, before the ids are ordered. -/
def stored (index : StringIndex) (pair : UInt32 × Bytes) : StringIndex :=
  { index.indexGrams pair.1 pair.2 with byId := assocInsert pair.1 pair.2 index.byId }

theorem stringAt_stored (index : StringIndex) (pair : UInt32 × Bytes) (id : UInt32) :
    (index.stored pair).stringAt id = if id == pair.1 then pair.2 else index.stringAt id := by
  rw [stringAt, stored, lookup_assocInsert, stringAt]
  split <;> rfl

theorem insert_eq (index : StringIndex) (pair : UInt32 × Bytes) :
    index.insert pair =
      if (index.byId.lookup pair.1).isSome then (index.stored pair).sortOrdered
      else { index.stored pair with
        ordered := index.ordered.insertIdx (partitionPoint (fun other =>
          decide ((index.stored pair).stringAt other < pair.2)) index.ordered) pair.1 } := by
  rw [insert]
  change (if (!(index.byId.lookup pair.1).isSome) = true then _ else _) = _
  cases (index.byId.lookup pair.1).isSome <;> rfl

theorem Posted.stored {index : StringIndex} (posted : index.Posted) (pair : UInt32 × Bytes) :
    (index.stored pair).Posted :=
  posted.store rfl rfl

theorem Indexed.insert {index : StringIndex} (indexed : index.Indexed) (pair : UInt32 × Bytes) :
    (index.insert pair).Indexed := by
  have posted := indexed.posted.stored pair
  have known : ∀ id, (((index.stored pair).byId).lookup id).isSome = true ↔
      id = pair.1 ∨ (index.byId.lookup id).isSome = true := fun id =>
    lookup_isSome_assocInsert pair.1 id pair.2 index.byId
  rw [insert_eq]
  cases existed : (index.byId.lookup pair.1).isSome with
  | true =>
    have listed : (index.stored pair).Listed :=
      ⟨indexed.listed.nodup, fun id => by
        rw [known]
        refine (indexed.listed.mem_iff id).trans ⟨.inr, ?_⟩
        rintro (rfl | member)
        · exact existed
        · exact member⟩
    rw [if_pos rfl]
    exact ⟨posted.of_same rfl rfl, listed.sortOrdered, ascending_sortOrdered _⟩
  | false =>
    have absent : pair.1 ∉ index.ordered := by
      rw [indexed.listed.mem_iff, existed]
      exact Bool.false_ne_true
    have ascending : (index.stored pair).Ascending := by
      refine indexed.ascending.of_stringAt rfl fun id member => ?_
      rw [stringAt_stored, if_neg]
      rintro same
      exact absent (eq_of_beq same ▸ member)
    have own : (index.stored pair).stringAt pair.1 = pair.2 := by
      rw [stringAt_stored, if_pos (beq_self_eq_true _)]
    have inserted := List.perm_insertIdx pair.1 index.ordered (partitionPoint_le_length
      (fun other => decide ((index.stored pair).stringAt other < pair.2)) index.ordered)
    rw [if_neg Bool.false_ne_true]
    refine ⟨posted.of_same rfl rfl, ⟨?_, fun id => ?_⟩, ascending.insertIdx pair.1 rfl ?_⟩
    · exact inserted.nodup_iff.mpr (List.nodup_cons.mpr ⟨absent, indexed.listed.nodup⟩)
    · refine inserted.mem_iff.trans ?_
      rw [known, List.mem_cons, indexed.listed.mem_iff]
    · rw [own]
      rfl

/-- Insertions into a built index. -/
def insertAll (index : StringIndex) (inserts : List (UInt32 × Bytes)) : StringIndex :=
  inserts.foldl insert index

theorem Indexed.insertAll {index : StringIndex} (indexed : index.Indexed)
    (inserts : List (UInt32 × Bytes)) : (index.insertAll inserts).Indexed := by
  induction inserts generalizing index with
  | nil => exact indexed
  | cons first rest induction => exact induction (indexed.insert first)

/-- The string last stored under an id. -/
def latest (pairs : List (UInt32 × Bytes)) (id : UInt32) : Option Bytes := pairs.reverse.lookup id

theorem lookup_foldl_gather (pairs : List (UInt32 × Bytes)) (id : UInt32) :
    (pairs.foldl gather new).byId.lookup id = latest pairs id := by
  induction pairs using List.reverseRecOn with
  | nil => rfl
  | append_singleton rest last induction =>
    rw [List.foldl_append, latest, List.reverse_append, List.reverse_singleton,
      List.singleton_append, lookup_cons_eq_ite, ← latest, ← induction]
    exact lookup_assocInsert last.1 id last.2 _

theorem lookup_insertAll (pairs inserts : List (UInt32 × Bytes)) (id : UInt32) :
    ((build pairs).insertAll inserts).byId.lookup id = latest (pairs ++ inserts) id := by
  induction inserts using List.reverseRecOn with
  | nil =>
    rw [List.append_nil]
    exact lookup_foldl_gather pairs id
  | append_singleton rest last induction =>
    rw [insertAll, List.foldl_append, List.foldl_cons, List.foldl_nil, ← insertAll,
      ← List.append_assoc, latest, List.reverse_append, List.reverse_singleton,
      List.singleton_append, lookup_cons_eq_ite, ← latest, ← induction, insert_eq]
    have stored := lookup_assocInsert last.1 id last.2 ((build pairs).insertAll rest).byId
    split
    · exact stored
    · exact stored

/-! ## Searching -/

theorem pairwise_insertionSort_lt {ids : List UInt32} (nodup : ids.Nodup) :
    (ids.insertionSort (· ≤ ·)).Pairwise (· < ·) := by
  have distinct : (ids.insertionSort (· ≤ ·)).Nodup :=
    (List.perm_insertionSort (· ≤ ·) ids).nodup_iff.mpr nodup
  exact ((List.pairwise_insertionSort (· ≤ ·) ids).and distinct).imp
    fun order => lt_of_le_of_ne order.1 order.2

theorem postingsOf_eq_none {trigrams : List (UInt32 × List UInt32)} {keys : List UInt32}
    (missing : postingsOf trigrams keys = none) : ∃ key ∈ keys, trigrams.lookup key = none := by
  induction keys with
  | nil => cases missing
  | cons key rest induction =>
    cases found : trigrams.lookup key with
    | none => exact ⟨key, List.mem_cons_self, found⟩
    | some list =>
      rw [postingsOf, found] at missing
      cases later : postingsOf trigrams rest with
      | none =>
        rcases induction later with ⟨other, member, absent⟩
        exact ⟨other, List.mem_cons_of_mem _ member, absent⟩
      | some postings =>
        rw [later] at missing
        cases missing

theorem postingsOf_eq_some {trigrams : List (UInt32 × List UInt32)} {keys : List UInt32}
    {postings : List (List UInt32)} (collected : postingsOf trigrams keys = some postings) :
    postings.length = keys.length ∧
      ∀ list ∈ postings, ∃ key ∈ keys, trigrams.lookup key = some list := by
  induction keys generalizing postings with
  | nil =>
    cases collected
    exact ⟨rfl, fun list member => absurd member List.not_mem_nil⟩
  | cons key rest induction =>
    rw [postingsOf] at collected
    cases found : trigrams.lookup key with
    | none =>
      rw [found] at collected
      cases collected
    | some first =>
      cases later : postingsOf trigrams rest with
      | none =>
        rw [found, later] at collected
        cases collected
      | some others =>
        rw [found, later] at collected
        cases collected
        have tail := induction later
        refine ⟨congrArg (· + 1) tail.1, fun list member => ?_⟩
        rcases List.mem_cons.mp member with rfl | inOthers
        · exact ⟨key, List.mem_cons_self, found⟩
        · rcases tail.2 list inOthers with ⟨other, inRest, stored⟩
          exact ⟨other, List.mem_cons_of_mem _ inRest, stored⟩

/-- The candidates ascend, and an id whose string contains the needle is one of them. -/
theorem Indexed.containsCandidates {index : StringIndex} (indexed : index.Indexed)
    (needle : Bytes) :
    (index.containsCandidates needle).Pairwise (· < ·) ∧
    ∀ id bytes, index.byId.lookup id = some bytes → needle <:+: bytes →
      id ∈ index.containsCandidates needle := by
  rw [StringIndex.containsCandidates]
  split
  · refine ⟨pairwise_insertionSort_lt indexed.posted.keys, fun id bytes found _ => ?_⟩
    rw [allIds, List.mem_insertionSort]
    exact List.mem_map_of_mem (mem_of_lookup_eq_some found)
  · rename_i long
    have keysOf : ∀ id bytes, index.byId.lookup id = some bytes → needle <:+: bytes →
        ∀ key ∈ sortDedup (grams needle), ∃ list,
          index.trigrams.lookup key = some list ∧ id ∈ list := by
      intro id bytes found contains key member
      rw [mem_sortDedup] at member
      exact indexed.posted.posted id bytes found key (grams_subset_of_substring contains member)
    split
    · rename_i missing
      refine ⟨List.Pairwise.nil, fun id bytes found contains => ?_⟩
      rcases postingsOf_eq_none missing with ⟨key, member, absent⟩
      rcases keysOf id bytes found contains key member with ⟨list, present, -⟩
      rw [absent] at present
      cases present
    · rename_i postings collected
      have spec := postingsOf_eq_some collected
      have permuted := List.mergeSort_perm postings fun left right =>
        decide (left.length ≤ right.length)
      split
      · rename_i empty
        rw [empty, List.nil_perm] at permuted
        rw [permuted, List.length_nil, eq_comm, List.length_eq_zero_iff] at spec
        have keys := grams_ne_nil (not_lt.mp long)
        rcases List.exists_mem_of_ne_nil _ keys with ⟨key, member⟩
        rw [← mem_sortDedup, spec.1] at member
        cases member
      · rename_i first rest sorted
        rw [sorted] at permuted
        have ascending : ∀ list ∈ first :: rest, list.Pairwise (· < ·) := by
          intro list member
          rcases spec.2 list (permuted.mem_iff.mp member) with ⟨key, -, stored⟩
          exact indexed.posted.ascending key list stored
        rw [List.forall_mem_cons] at ascending
        refine ⟨ascending.1.sublist (intersectAll_sublist rest first), ?_⟩
        intro id bytes found contains
        have everywhere : ∀ list ∈ first :: rest, id ∈ list := by
          intro list member
          rcases spec.2 list (permuted.mem_iff.mp member) with ⟨key, inKeys, stored⟩
          rcases keysOf id bytes found contains key inKeys with ⟨other, again, present⟩
          rw [stored] at again
          rw [Option.some.inj again]
          exact present
        rw [List.forall_mem_cons] at everywhere
        exact mem_intersectAll ascending.1 ascending.2 everywhere.1 everywhere.2

theorem Indexed.searchContains {index : StringIndex} (indexed : index.Indexed) (needle : Bytes) :
    (index.searchContains needle).Pairwise (· < ·) ∧
    ∀ id, id ∈ index.searchContains needle ↔
      ∃ bytes, index.byId.lookup id = some bytes ∧ needle <:+: bytes := by
  have candidates := indexed.containsCandidates needle
  refine ⟨candidates.1.sublist List.filter_sublist, fun id => ?_⟩
  rw [StringIndex.searchContains, List.mem_filter]
  constructor
  · rintro ⟨-, checked⟩
    cases found : index.byId.lookup id with
    | none =>
      rw [found] at checked
      cases checked
    | some bytes =>
      rw [found] at checked
      exact ⟨bytes, rfl, of_decide_eq_true checked⟩
  · rintro ⟨bytes, found, contains⟩
    refine ⟨candidates.2 id bytes found contains, ?_⟩
    rw [found]
    exact decide_eq_true contains

/-- In a list ordered by strings those that start with `stem` follow the smaller ones in one
run. -/
theorem takeWhile_drop_partitionPoint (key : UInt32 → Bytes) (stem : Bytes) {ids : List UInt32}
    (ascending : ids.Pairwise fun left right => key left ≤ key right) :
    (ids.drop (partitionPoint (fun id => decide (key id < stem)) ids)).takeWhile
        (fun id => stem.isPrefixOf (key id)) =
      ids.filter fun id => stem.isPrefixOf (key id) := by
  obtain ⟨below, above, equal, smaller, others⟩ := exists_split
    (fun id => decide (key id < stem)) ids (ascending.imp fun order less => by
      rw [decide_eq_true_eq] at less ⊢
      exact lt_of_le_of_lt order less)
  have point := partitionPoint_append smaller others
  have none : below.filter (fun id => stem.isPrefixOf (key id)) = [] := by
    rw [List.filter_eq_nil_iff]
    intro id member under
    rw [List.isPrefixOf_iff_prefix] at under
    exact not_prefix_of_lt (of_decide_eq_true (smaller id member)) under
  rw [equal, List.pairwise_append] at ascending
  rw [equal, point, List.drop_left, List.filter_append, none, List.nil_append]
  have ordered := ascending.2.1
  clear ascending point none equal
  induction above with
  | nil => rfl
  | cons first rest induction =>
    have parts := List.pairwise_cons.mp ordered
    rw [List.forall_mem_cons] at others
    by_cases under : stem.isPrefixOf (key first)
    · simp only [List.takeWhile_cons, List.filter_cons, under, if_true]
      rw [induction others.2 parts.2]
    · simp only [List.takeWhile_cons, List.filter_cons, under, Bool.false_eq_true, if_false]
      rw [eq_comm, List.filter_eq_nil_iff]
      intro later member
      rw [List.isPrefixOf_iff_prefix] at under ⊢
      rcases lt_or_eq_of_le (parts.1 later member) with less | same
      · exact not_prefix_of_passed (of_decide_eq_false others.1) under less
      · rwa [← same]

theorem Indexed.prefixIds {index : StringIndex} (indexed : index.Indexed) (stem : Bytes) :
    (index.prefixIds stem).Pairwise (· < ·) ∧
    ∀ id, id ∈ index.prefixIds stem ↔
      ∃ bytes, index.byId.lookup id = some bytes ∧ stem <+: bytes := by
  rw [StringIndex.prefixIds,
    takeWhile_drop_partitionPoint index.stringAt stem indexed.ascending]
  refine ⟨pairwise_insertionSort_lt (indexed.listed.nodup.sublist List.filter_sublist), ?_⟩
  intro id
  rw [List.mem_insertionSort, List.mem_filter, indexed.listed.mem_iff, List.isPrefixOf_iff_prefix]
  constructor
  · rintro ⟨known, under⟩
    rcases Option.isSome_iff_exists.mp known with ⟨bytes, found⟩
    exact ⟨bytes, found, stringAt_of_lookup found ▸ under⟩
  · rintro ⟨bytes, found, under⟩
    rw [stringAt_of_lookup found, found]
    exact ⟨rfl, under⟩

/-- The index answers exactly. After a build from pairs with different ids and any insertions no
lookup of an ordered id fails, the candidates ascend and include every id whose latest string
contains the needle, and the two searches return, ascending, the ids whose latest string contains
the needle or starts with it. -/
theorem answers_exactly {pairs : List (UInt32 × Bytes)} (unique : (pairs.map Prod.fst).Nodup)
    (inserts : List (UInt32 × Bytes)) :
    let index := (build pairs).insertAll inserts
    let current := latest (pairs ++ inserts)
    (∀ id ∈ index.ordered, (index.byId.lookup id).isSome = true) ∧
    ∀ needle,
      ((index.containsCandidates needle).Pairwise (· < ·) ∧
        ∀ id bytes, current id = some bytes → needle <:+: bytes →
          id ∈ index.containsCandidates needle) ∧
      ((index.searchContains needle).Pairwise (· < ·) ∧
        ∀ id, id ∈ index.searchContains needle ↔
          ∃ bytes, current id = some bytes ∧ needle <:+: bytes) ∧
      ((index.prefixIds needle).Pairwise (· < ·) ∧
        ∀ id, id ∈ index.prefixIds needle ↔
          ∃ bytes, current id = some bytes ∧ needle <+: bytes) := by
  have indexed := (indexed_build unique).insertAll inserts
  simp only [← lookup_insertAll]
  exact ⟨fun id member => (indexed.listed.mem_iff id).mp member, fun needle =>
    ⟨indexed.containsCandidates needle, indexed.searchContains needle, indexed.prefixIds needle⟩⟩

theorem answers_exactly_abc :
    let index := (build [(1, [97, 98, 99, 100])]).insertAll [(1, [98])]
    let current := latest ([(1, [97, 98, 99, 100])] ++ [(1, [98])])
    (∀ id ∈ index.ordered, (index.byId.lookup id).isSome = true) ∧
    ∀ needle,
      ((index.containsCandidates needle).Pairwise (· < ·) ∧
        ∀ id bytes, current id = some bytes → needle <:+: bytes →
          id ∈ index.containsCandidates needle) ∧
      ((index.searchContains needle).Pairwise (· < ·) ∧
        ∀ id, id ∈ index.searchContains needle ↔
          ∃ bytes, current id = some bytes ∧ needle <:+: bytes) ∧
      ((index.prefixIds needle).Pairwise (· < ·) ∧
        ∀ id, id ∈ index.prefixIds needle ↔
          ∃ bytes, current id = some bytes ∧ needle <+: bytes) :=
  answers_exactly (by decide) [(1, [98])]

end StringIndex

end GStore.Kvstore
