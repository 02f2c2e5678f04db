import GStore.Store.TripleStore

/-! # What one adjacency map holds

`Indexes index related` says that the map lists, under each key, exactly the
pairs `related` gives that key, in ascending order and without empty lists. Each
mutation of the map changes `related` by one pair; the three indexes of the
store are three instances. -/

namespace GStore.Store

open SortedSlice

namespace Pair

@[simp] theorem ofLex_mk (first second : UInt32) :
    ofLex (Pair.mk first second) = (first, second) := rfl

@[simp] theorem mk_ofLex (pair : Pair) :
    Pair.mk (ofLex pair).1 (ofLex pair).2 = pair := rfl

theorem eq_mk_iff {pair : Pair} {first second : UInt32} :
    pair = Pair.mk first second ↔ (ofLex pair).1 = first ∧ (ofLex pair).2 = second := by
  constructor
  · rintro rfl
    exact ⟨rfl, rfl⟩
  · rintro ⟨rfl, rfl⟩
    rfl

theorem fst_le_of_lt {left right : Pair} (less : left < right) :
    (ofLex left).1 ≤ (ofLex right).1 := by
  rcases Prod.Lex.lt_iff.mp less with first | ⟨first, -⟩
  · exact first.le
  · exact first.le

theorem snd_lt_of_lt_of_fst_eq {left right : Pair} (less : left < right)
    (same : (ofLex left).1 = (ofLex right).1) :
    (ofLex left).2 < (ofLex right).2 := by
  rcases Prod.Lex.lt_iff.mp less with first | ⟨-, second⟩
  · exact absurd same first.ne
  · exact second

end Pair

/-! ## One sorted vector -/

theorem sortedInsert_cases (vec : List Pair) (sorted : vec.Pairwise (· < ·))
    (value : Pair) :
    (value ∈ vec ∧ sortedInsert vec value = (vec, false)) ∨
    (value ∉ vec ∧ ∃ grown, sortedInsert vec value = (grown, true) ∧
      grown.Pairwise (· < ·) ∧ ∀ pair, pair ∈ grown ↔ pair = value ∨ pair ∈ vec) := by
  rcases binarySearch_cases vec sorted value with
    ⟨below, above, equal, found, -, -⟩ | ⟨below, above, equal, missed, low, high⟩
  · exact .inl ⟨by simp [equal], by simp [sortedInsert, found]⟩
  · have absent : value ∉ vec := by
      rw [equal, List.mem_append]
      rintro (member | member)
      · exact lt_irrefl _ (low value member)
      · exact lt_irrefl _ (high value member)
    have grownEqual : sortedInsert vec value = (below ++ value :: above, true) := by
      rw [sortedInsert, missed, equal]
      simp
    refine .inr ⟨absent, _, grownEqual, ?_, ?_⟩
    · obtain ⟨belowSorted, aboveSorted, across⟩ :=
        List.pairwise_append.mp (equal ▸ sorted)
      refine List.pairwise_append.mpr
        ⟨belowSorted, List.pairwise_cons.mpr ⟨high, aboveSorted⟩, ?_⟩
      intro left leftMember right rightMember
      rcases List.mem_cons.mp rightMember with same | rightMember
      · exact same ▸ low left leftMember
      · exact across left leftMember right rightMember
    · intro pair
      rw [equal, List.mem_append, List.mem_cons, List.mem_append]
      tauto

theorem sortedRemove_cases (vec : List Pair) (sorted : vec.Pairwise (· < ·))
    (value : Pair) :
    (value ∉ vec ∧ sortedRemove vec value = (vec, false)) ∨
    (value ∈ vec ∧ ∃ shrunk, sortedRemove vec value = (shrunk, true) ∧
      shrunk.Pairwise (· < ·) ∧ ∀ pair, pair ∈ shrunk ↔ pair ∈ vec ∧ pair ≠ value) := by
  rcases binarySearch_cases vec sorted value with
    ⟨below, above, equal, found, low, high⟩ | ⟨below, above, equal, missed, low, high⟩
  · have shrunkEqual : sortedRemove vec value = (below ++ above, true) := by
      rw [sortedRemove, found, equal]
      simp
    refine .inr ⟨by simp [equal], _, shrunkEqual, ?_, ?_⟩
    · refine (equal ▸ sorted).sublist ?_
      exact List.Sublist.append_left (List.sublist_cons_self value above) below
    · intro pair
      rw [equal, List.mem_append, List.mem_append, List.mem_cons]
      constructor
      · rintro (member | member)
        · exact ⟨.inl member, (low pair member).ne⟩
        · exact ⟨.inr (.inr member), (high pair member).ne'⟩
      · rintro ⟨member | same | member, different⟩
        · exact .inl member
        · exact absurd same different
        · exact .inr member
  · refine .inl ⟨?_, by simp [sortedRemove, missed]⟩
    rw [equal, List.mem_append]
    rintro (member | member)
    · exact lt_irrefl _ (low value member)
    · exact lt_irrefl _ (high value member)

/-- The binary-searched range is the filtered list. -/
theorem rangeByFirst_eq_filter (vec : List Pair) (sorted : vec.Pairwise (· < ·))
    (first : UInt32) :
    rangeByFirst vec first = vec.filter fun pair => decide ((ofLex pair).1 = first) := by
  obtain ⟨low, rest, equal, lowBelow, restNotBelow⟩ :=
    exists_split (fun pair : Pair => decide ((ofLex pair).1 < first)) vec
      (sorted.imp fun less rightBelow => by
        simp only [decide_eq_true_eq] at rightBelow ⊢
        exact (Pair.fst_le_of_lt less).trans_lt rightBelow)
  have restSorted : rest.Pairwise (· < ·) :=
    (List.pairwise_append.mp (equal ▸ sorted)).2.1
  obtain ⟨middle, high, restEqual, middleAtMost, highAbove⟩ :=
    exists_split (fun pair : Pair => decide ((ofLex pair).1 ≤ first)) rest
      (restSorted.imp fun less rightAtMost => by
        simp only [decide_eq_true_eq] at rightAtMost ⊢
        exact (Pair.fst_le_of_lt less).trans rightAtMost)
  simp only [decide_eq_true_eq] at lowBelow middleAtMost
  simp only [decide_eq_false_iff_not, not_lt, not_le] at restNotBelow highAbove
  have loEqual : partitionPoint (fun pair => decide ((ofLex pair).1 < first)) vec =
      low.length := by
    rw [equal]
    exact partitionPoint_append (by simpa using lowBelow) (by simpa using restNotBelow)
  have hiEqual : partitionPoint (fun pair => decide ((ofLex pair).1 ≤ first)) vec =
      (low ++ middle).length := by
    rw [equal, restEqual, ← List.append_assoc]
    refine partitionPoint_append ?_ (by simpa using highAbove)
    intro pair member
    rcases List.mem_append.mp member with member | member
    · simpa using (lowBelow pair member).le
    · simpa using middleAtMost pair member
  have middleSame : ∀ pair ∈ middle, (ofLex pair).1 = first := fun pair member =>
    le_antisymm (middleAtMost pair member)
      (restNotBelow pair (by simp [restEqual, member]))
  rw [rangeByFirst, loEqual, hiEqual, equal, restEqual, ← List.append_assoc,
    List.take_left, List.drop_left]
  rw [List.filter_append, List.filter_append,
    List.filter_eq_nil_iff.mpr (fun pair member => by
      simpa using (lowBelow pair member).ne),
    List.filter_eq_self.mpr (fun pair member => by
      simpa using middleSame pair member),
    List.filter_eq_nil_iff.mpr (fun pair member => by
      simpa using (highAbove pair member).ne')]
  simp

/-! ## One index -/

/-- The map lists exactly the related pairs, in any order and number, and has
no empty list. -/
structure Lists (index : AdjMap) (related : UInt32 → Pair → Prop) : Prop where
  nonempty : ∀ (key : UInt32) vec, index[key]? = some vec → vec ≠ []
  mem_iff : ∀ key pair, pair ∈ index.getD key [] ↔ related key pair

structure Indexes (index : AdjMap) (related : UInt32 → Pair → Prop) : Prop
    extends Lists index related where
  ascending : ∀ (key : UInt32) vec, index[key]? = some vec → vec.Pairwise (· < ·)

variable {index : AdjMap} {related : UInt32 → Pair → Prop}

theorem getD_eq (index : AdjMap) (key : UInt32) :
    index.getD key [] = (index[key]?).getD [] :=
  Std.TreeMap.getD_eq_getD_getElem?

theorem getElem?_insert_eq (index : AdjMap) (key other : UInt32) (vec : List Pair) :
    (index.insert key vec)[other]? = if key = other then some vec else index[other]? := by
  rw [Std.TreeMap.getElem?_insert]
  simp

theorem Indexes.getD_ascending (indexes : Indexes index related) (key : UInt32) :
    (index.getD key []).Pairwise (· < ·) := by
  rw [getD_eq]
  cases entry : index[key]? with
  | none => simp
  | some vec => exact indexes.ascending key vec entry

theorem indexes_empty : Indexes ∅ fun _ _ => False where
  nonempty _ _ entry := by simp at entry
  mem_iff key pair := by simp
  ascending _ _ entry := by simp at entry

theorem Lists.congr {other : UInt32 → Pair → Prop} (lists : Lists index related)
    (same : ∀ key pair, related key pair ↔ other key pair) : Lists index other where
  nonempty := lists.nonempty
  mem_iff key pair := (lists.mem_iff key pair).trans (same key pair)

theorem Indexes.congr {other : UInt32 → Pair → Prop} (indexes : Indexes index related)
    (same : ∀ key pair, related key pair ↔ other key pair) : Indexes index other where
  toLists := indexes.toLists.congr same
  ascending := indexes.ascending

/-- Storing a list under a key whose relation it realises. -/
theorem Indexes.insert (indexes : Indexes index related) {key : UInt32}
    {vec : List Pair} {other : UInt32 → Pair → Prop}
    (nonempty : vec ≠ []) (ascending : vec.Pairwise (· < ·))
    (here : ∀ pair, pair ∈ vec ↔ other key pair)
    (elsewhere : ∀ key' pair, key ≠ key' → (related key' pair ↔ other key' pair)) :
    Indexes (index.insert key vec) other where
  nonempty key' vec' entry := by
    rw [getElem?_insert_eq] at entry
    split at entry
    · cases entry; exact nonempty
    · exact indexes.nonempty key' vec' entry
  ascending key' vec' entry := by
    rw [getElem?_insert_eq] at entry
    split at entry
    · cases entry; exact ascending
    · exact indexes.ascending key' vec' entry
  mem_iff key' pair := by
    rw [getD_eq, getElem?_insert_eq]
    split
    · next same => subst same; exact here pair
    · next different =>
        rw [← getD_eq, indexes.mem_iff]
        exact elsewhere key' pair different

theorem Indexes.sortedInsert (indexes : Indexes index related) (key : UInt32)
    (value : Pair) :
    Indexes (AdjMap.sortedInsert index key value).1
        (fun key' pair => (key' = key ∧ pair = value) ∨ related key' pair) ∧
      ((AdjMap.sortedInsert index key value).2 = true ↔ ¬ related key value) := by
  have ascending := indexes.getD_ascending key
  rcases sortedInsert_cases (index.getD key []) ascending value with
    ⟨member, unchanged⟩ | ⟨absent, grown, grownEqual, grownSorted, grownMem⟩
  · have relatedValue := (indexes.mem_iff key value).mp member
    refine ⟨?_, by simp [AdjMap.sortedInsert, unchanged, relatedValue]⟩
    simp only [AdjMap.sortedInsert, unchanged]
    refine indexes.insert (List.ne_nil_of_mem member) ascending ?_ ?_
    · intro pair
      rw [indexes.mem_iff]
      constructor
      · exact .inr
      · rintro (⟨-, same⟩ | holds)
        · exact same ▸ relatedValue
        · exact holds
    · intro key' pair different
      simp [Ne.symm different]
  · have notRelated : ¬ related key value := fun holds =>
      absent ((indexes.mem_iff key value).mpr holds)
    refine ⟨?_, by simp [AdjMap.sortedInsert, grownEqual, notRelated]⟩
    simp only [AdjMap.sortedInsert, grownEqual]
    refine indexes.insert (List.ne_nil_of_mem ((grownMem value).mpr (.inl rfl)))
      grownSorted ?_ ?_
    · intro pair
      rw [grownMem, indexes.mem_iff]
      simp
    · intro key' pair different
      simp [Ne.symm different]

theorem Indexes.remove_prune (indexes : Indexes index related) (key : UInt32)
    (value : Pair) (holds : related key value) :
    Indexes (AdjMap.prune (AdjMap.sortedRemove index key value).1 key)
      (fun key' pair => related key' pair ∧ ¬ (key' = key ∧ pair = value)) := by
  have member := (indexes.mem_iff key value).mpr holds
  rw [getD_eq] at member
  cases entry : index[key]? with
  | none => simp [entry] at member
  | some vec =>
    have ascending := indexes.ascending key vec entry
    have vecMem : ∀ pair, pair ∈ vec ↔ related key pair := by
      intro pair
      rw [← indexes.mem_iff, getD_eq, entry]
      rfl
    rcases sortedRemove_cases vec ascending value with
      ⟨absent, -⟩ | ⟨-, shrunk, shrunkEqual, shrunkSorted, shrunkMem⟩
    · exact absurd ((vecMem value).mpr holds) absent
    · have removed : (AdjMap.sortedRemove index key value).1 =
          index.insert key shrunk := by
        simp [AdjMap.sortedRemove, entry, shrunkEqual]
      have shrunkRelated : ∀ pair, pair ∈ shrunk ↔
          related key pair ∧ ¬ (key = key ∧ pair = value) := by
        intro pair
        rw [shrunkMem, vecMem]
        simp
      rw [removed, AdjMap.prune, getElem?_insert_eq, if_pos rfl]
      by_cases isEmpty : shrunk = []
      · rw [if_pos (by rw [isEmpty])]
        have lookup : ∀ key' : UInt32, ((index.insert key shrunk).erase key)[key']? =
            if key = key' then none else index[key']? := by
          intro key'
          rw [Std.TreeMap.getElem?_erase, getElem?_insert_eq]
          by_cases same : key = key' <;> simp [same]
        refine ⟨⟨?_, ?_⟩, ?_⟩
        · intro key' vec' found
          rw [lookup] at found
          split at found
          · cases found
          · exact indexes.nonempty key' vec' found
        · intro key' pair
          rw [getD_eq, lookup]
          split
          · next same =>
              subst same
              rw [← shrunkRelated, isEmpty]
              simp
          · next different =>
              rw [← getD_eq, indexes.mem_iff]
              simp [Ne.symm different]
        · intro key' vec' found
          rw [lookup] at found
          split at found
          · cases found
          · exact indexes.ascending key' vec' found
      · rw [if_neg (by simpa using isEmpty)]
        refine indexes.insert isEmpty shrunkSorted shrunkRelated ?_
        intro key' pair different
        simp [Ne.symm different]

theorem Indexes.sortedRemove_flag (indexes : Indexes index related) (key : UInt32)
    (value : Pair) :
    (AdjMap.sortedRemove index key value).2 = true ↔ related key value := by
  rw [← indexes.mem_iff, getD_eq, AdjMap.sortedRemove]
  cases entry : index[key]? with
  | none => simp
  | some vec =>
    rcases sortedRemove_cases vec (indexes.ascending key vec entry) value with
      ⟨absent, unchanged⟩ | ⟨member, shrunk, shrunkEqual, -, -⟩
    · simp [unchanged, absent]
    · simp [shrunkEqual, member]

theorem Indexes.sortedRemove_unchanged (indexes : Indexes index related)
    (key : UInt32) (value : Pair) (fails : ¬ related key value) :
    Indexes (AdjMap.sortedRemove index key value).1 related := by
  rw [AdjMap.sortedRemove]
  cases entry : index[key]? with
  | none => exact indexes
  | some vec =>
    have vecMem : ∀ pair, pair ∈ vec ↔ related key pair := by
      intro pair
      rw [← indexes.mem_iff, getD_eq, entry]
      rfl
    have ascending := indexes.ascending key vec entry
    rcases sortedRemove_cases vec ascending value with
      ⟨-, unchanged⟩ | ⟨member, -⟩
    · simp only [unchanged]
      exact indexes.insert (indexes.nonempty key vec entry) ascending vecMem
        fun _ _ _ => Iff.rfl
    · exact absurd ((vecMem value).mp member) fails

theorem Lists.push (lists : Lists index related) (key : UInt32) (value : Pair) :
    Lists (AdjMap.push index key value)
      (fun key' pair => (key' = key ∧ pair = value) ∨ related key' pair) where
  nonempty key' vec entry := by
    rw [AdjMap.push, getElem?_insert_eq] at entry
    split at entry
    · cases entry; simp
    · exact lists.nonempty key' vec entry
  mem_iff key' pair := by
    rw [getD_eq, AdjMap.push, getElem?_insert_eq]
    split
    · next same =>
        subst same
        simp [lists.mem_iff, or_comm]
    · next different =>
        rw [← getD_eq, lists.mem_iff]
        simp [Ne.symm different]

theorem Lists.normalize (lists : Lists index related) :
    Indexes (AdjMap.normalize index) related where
  nonempty key vec entry := by
    rw [AdjMap.normalize, Std.TreeMap.getElem?_map] at entry
    obtain ⟨original, found, rfl⟩ := Option.map_eq_some_iff.mp entry
    obtain ⟨pair, member⟩ := List.exists_mem_of_ne_nil _ (lists.nonempty key original found)
    exact List.ne_nil_of_mem (mem_sortDedup.mpr member)
  mem_iff key pair := by
    rw [← lists.mem_iff, getD_eq, getD_eq, AdjMap.normalize, Std.TreeMap.getElem?_map]
    cases index[key]? <;> simp
  ascending key vec entry := by
    rw [AdjMap.normalize, Std.TreeMap.getElem?_map] at entry
    obtain ⟨original, -, rfl⟩ := Option.map_eq_some_iff.mp entry
    exact sortDedup_pairwise original

/-! ## Reading an index as a whole -/

theorem mem_keys_iff (lists : Lists index related) (key : UInt32) :
    key ∈ index.keys ↔ ∃ pair, related key pair := by
  rw [Std.TreeMap.mem_keys, Std.TreeMap.mem_iff_isSome_getElem?]
  constructor
  · intro present
    obtain ⟨vec, entry⟩ := Option.isSome_iff_exists.mp present
    obtain ⟨pair, member⟩ := List.exists_mem_of_ne_nil _ (lists.nonempty key vec entry)
    refine ⟨pair, (lists.mem_iff key pair).mp ?_⟩
    rw [getD_eq, entry]
    exact member
  · rintro ⟨pair, holds⟩
    have member := (lists.mem_iff key pair).mpr holds
    rw [getD_eq] at member
    cases entry : index[key]? with
    | none => simp [entry] at member
    | some vec => rfl

theorem keys_ascending (index : AdjMap) : index.keys.Pairwise (· < ·) :=
  Std.TreeMap.ordered_keys.imp fun less => by
    simpa [compare_lt_iff_lt] using less

/-- Every value of an index, built up with its key. -/
def flatten {β : Type*} (index : AdjMap) (build : UInt32 → Pair → β) : List β :=
  index.toList.flatMap fun entry => entry.2.map (build entry.1)

theorem mem_flatten {β : Type*} (lists : Lists index related)
    (build : UInt32 → Pair → β) (value : β) :
    value ∈ flatten index build ↔ ∃ key pair, related key pair ∧ build key pair = value := by
  simp only [flatten, List.mem_flatMap, List.mem_map, Prod.exists,
    Std.TreeMap.mem_toList_iff_getElem?_eq_some]
  constructor
  · rintro ⟨key, vec, entry, pair, member, built⟩
    refine ⟨key, pair, (lists.mem_iff key pair).mp ?_, built⟩
    rw [getD_eq, entry]
    exact member
  · rintro ⟨key, pair, holds, built⟩
    have member := (lists.mem_iff key pair).mpr holds
    rw [getD_eq] at member
    cases entry : index[key]? with
    | none => simp [entry] at member
    | some vec => exact ⟨key, vec, entry, pair, by simpa [entry] using member, built⟩

theorem nodup_flatten {β : Type*} (indexes : Indexes index related)
    (build : UInt32 → Pair → β)
    (injective : ∀ key pair key' pair', build key pair = build key' pair' →
      key = key' ∧ pair = pair') :
    (flatten index build).Nodup := by
  refine List.nodup_flatMap.mpr ⟨?_, ?_⟩
  · rintro ⟨key, vec⟩ member
    have entry := Std.TreeMap.mem_toList_iff_getElem?_eq_some.mp member
    refine List.Nodup.map_on ?_ ((indexes.ascending key vec entry).imp ne_of_lt)
    intro left _ right _ same
    exact (injective _ _ _ _ same).2
  · refine Std.TreeMap.distinct_keys_toList.imp ?_
    intro left right different
    rw [Function.onFun, List.disjoint_left]
    intro value leftMember rightMember
    obtain ⟨leftPair, -, leftBuilt⟩ := List.mem_map.mp leftMember
    obtain ⟨rightPair, -, rightBuilt⟩ := List.mem_map.mp rightMember
    have sameKey := (injective _ _ _ _ (leftBuilt.trans rightBuilt.symm)).1
    exact different (by simp [sameKey])

end GStore.Store
