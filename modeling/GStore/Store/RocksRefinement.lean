import GStore.Store.RocksCounters

/-! # The RocksDB store refines a set of triples

Every triple has one key in each family, a scan reads off the entries under its stem, and
every answer is the projection of the set that the in-memory store gives. -/

namespace GStore.Store

/-! ## The triple families -/

def spoKey (triple : IdTriple) : Bytes := key3 triple.sub triple.pred triple.obj

def posKey (triple : IdTriple) : Bytes := key3 triple.pred triple.obj triple.sub

def ospKey (triple : IdTriple) : Bytes := key3 triple.obj triple.sub triple.pred

theorem key3_inj {first second third first' second' third' : UInt32} :
    key3 first second third = key3 first' second' third' ↔
      first = first' ∧ second = second' ∧ third = third' := by
  rw [key3, key3, be32_append_inj, be32_append_inj, be32_inj]

theorem spoKey_injective : Function.Injective spoKey := by
  intro left right same
  have ids := key3_inj.mp same
  cases left
  cases right
  simp_all

theorem posKey_injective : Function.Injective posKey := by
  intro left right same
  have ids := key3_inj.mp same
  cases left
  cases right
  simp_all

theorem ospKey_injective : Function.Injective ospKey := by
  intro left right same
  have ids := key3_inj.mp same
  cases left
  cases right
  simp_all

/-- The keys of the family are those of the triples of the set. -/
def Keys (family : ColumnFamily Unit) (keyOf : IdTriple → Bytes) (set : Finset IdTriple) : Prop :=
  ∀ key, key ∈ family ↔ ∃ triple ∈ set, keyOf triple = key

section Keys

variable {family : ColumnFamily Unit} {keyOf : IdTriple → Bytes} {set : Finset IdTriple}

theorem Keys.insert (keys : Keys family keyOf set) (triple : IdTriple) :
    Keys (family.insert (keyOf triple) ()) keyOf (insert triple set) := by
  intro key
  rw [Std.TreeMap.mem_insert, Std.compare_eq_iff_eq, keys key, Finset.exists_mem_insert]

theorem Keys.erase (keys : Keys family keyOf set) (injective : Function.Injective keyOf)
    (triple : IdTriple) : Keys (family.erase (keyOf triple)) keyOf (set.erase triple) := by
  intro key
  rw [Std.TreeMap.mem_erase, ne_eq, Std.compare_eq_iff_eq, keys key]
  constructor
  · rintro ⟨different, other, member, same⟩
    have apart : other ≠ triple := fun equal => different (by rw [← equal, same])
    exact ⟨other, Finset.mem_erase.mpr ⟨apart, member⟩, same⟩
  · rintro ⟨other, kept, same⟩
    have parts := Finset.mem_erase.mp kept
    refine ⟨?_, other, parts.2, same⟩
    rw [← same, injective.eq_iff]
    exact parts.1.symm

theorem Keys.mem_iff (keys : Keys family keyOf set) (injective : Function.Injective keyOf)
    {triple : IdTriple} : keyOf triple ∈ family ↔ triple ∈ set := by
  rw [keys]
  constructor
  · rintro ⟨other, member, same⟩
    rwa [← injective same]
  · exact fun member => ⟨triple, member, rfl⟩

end Keys

/-! ## The store -/

/-- The store holds the set. -/
structure Stored (store : RocksStore) (set : Finset IdTriple) : Prop where
  spo : Keys store.db.spo spoKey set
  pos : Keys store.db.pos posKey set
  osp : Keys store.db.osp ospKey set
  counted : Counted store.db.stats (Counter.value set)
  cached : Cached store (Counter.value set)

section Stored

variable {store : RocksStore} {set : Finset IdTriple}

theorem stored_open_empty : Stored (RocksStore.open .empty) ∅ where
  spo key := by simp [RocksStore.open, RocksDb.empty]
  pos key := by simp [RocksStore.open, RocksDb.empty]
  osp key := by simp [RocksStore.open, RocksDb.empty]
  counted := by
    have zero : Counter.value ∅ = fun _ => 0 := by
      funext counter
      cases counter <;> rfl
    rw [zero]
    exact counted_empty
  cached := by constructor <;> rfl

/-- The cached counters are the stored ones. -/
theorem Stored.open (stored : Stored store set) : Stored (RocksStore.open store.db) set where
  spo := stored.spo
  pos := stored.pos
  osp := stored.osp
  counted := stored.counted
  cached :=
    ⟨stored.counted.getD_eq .triples, stored.counted.getD_eq .preds,
      stored.counted.getD_eq .subjects, stored.counted.getD_eq .objects⟩

theorem Stored.containsIds (stored : Stored store set) (triple : IdTriple) :
    store.containsIds triple = decide (triple ∈ set) := by
  rw [Bool.eq_iff_iff, decide_eq_true_eq, ← stored.spo.mem_iff spoKey_injective]
  exact Std.TreeMap.contains_iff_mem

theorem Stored.insertIds (stored : Stored store set) (triple : IdTriple) :
    ∃ after, store.insertIds triple = some (after, decide (triple ∉ set)) ∧
      Stored after (insert triple set) := by
  rw [RocksStore.insertIds, stored.containsIds]
  by_cases member : triple ∈ set
  · refine ⟨store, by simp [member], ?_⟩
    rwa [Finset.insert_eq_self.mpr member]
  · rcases recount_spec true member rfl rfl stored.cached stored.counted
      (moved_start (RocksStore.putTriple triple) stored.counted rfl)
      with ⟨after, run, spo, pos, osp, cached, counted⟩
    refine ⟨after, ?_, ?_, ?_, ?_, counted, cached⟩
    · simp [member, run]
    · rw [spo]
      exact stored.spo.insert triple
    · rw [pos]
      exact stored.pos.insert triple
    · rw [osp]
      exact stored.osp.insert triple

theorem Stored.removeIds (stored : Stored store set) (triple : IdTriple) :
    ∃ after, store.removeIds triple = some (after, decide (triple ∈ set)) ∧
      Stored after (set.erase triple) := by
  rw [RocksStore.removeIds, stored.containsIds]
  by_cases member : triple ∈ set
  · have whole : set = insert triple (set.erase triple) := (Finset.insert_erase member).symm
    rcases recount_spec false (Finset.notMem_erase triple set) rfl (congrArg _ whole)
      stored.cached stored.counted
      (moved_start (RocksStore.deleteTriple triple) stored.counted rfl)
      with ⟨after, run, spo, pos, osp, cached, counted⟩
    refine ⟨after, ?_, ?_, ?_, ?_, counted, cached⟩
    · simp [member, run]
    · rw [spo]
      exact stored.spo.erase spoKey_injective triple
    · rw [pos]
      exact stored.pos.erase posKey_injective triple
    · rw [osp]
      exact stored.osp.erase ospKey_injective triple
  · refine ⟨store, by simp [member], ?_⟩
    rwa [Finset.erase_eq_of_notMem member]

theorem Stored.bulkLoad (loaded : List IdTriple) :
    ∀ {store : RocksStore} {set : Finset IdTriple}, Stored store set →
      ∃ after, store.bulkLoad loaded = some after ∧ Stored after (set ∪ loaded.toFinset) := by
  induction loaded with
  | nil =>
    intro store set stored
    exact ⟨store, rfl, by simpa using stored⟩
  | cons triple rest induction =>
    intro store set stored
    rcases stored.insertIds triple with ⟨next, inserted, storedNext⟩
    rcases induction storedNext with ⟨after, run, final⟩
    refine ⟨after, ?_, ?_⟩
    · rw [RocksStore.bulkLoad, inserted]
      exact run
    · rwa [List.toFinset_cons, Finset.union_insert, ← Finset.insert_union]

end Stored

/-! ## Access patterns -/

section Scans

variable {ν : Type} {family : ColumnFamily ν}

theorem keys_pairwise (family : ColumnFamily ν) : family.keys.Pairwise (· < ·) :=
  Std.TreeMap.ordered_keys.imp compare_bytes_lt_iff.mp

theorem scanKeys_eq_filter (family : ColumnFamily ν) (stem : Bytes) :
    scanKeys family stem = family.keys.filter (stem.isPrefixOf ·) := by
  cases stem with
  | nil => simp [scanKeys]
  | cons byte rest => exact scanFrom_eq_filter (keys_pairwise family)

theorem scanKeys_pairwise (family : ColumnFamily ν) (stem : Bytes) :
    (scanKeys family stem).Pairwise (· < ·) := by
  rw [scanKeys_eq_filter]
  exact (keys_pairwise family).filter _

theorem mem_scanKeys {stem key : Bytes} :
    key ∈ scanKeys family stem ↔ key ∈ family ∧ stem <+: key := by
  rw [scanKeys_eq_filter, List.mem_filter, Std.TreeMap.mem_keys, List.isPrefixOf_iff_prefix]

end Scans

/-- An id is decoded from where it was encoded. -/
theorem de_append (front : Bytes) (id : UInt32) (back : Bytes) :
    de (front ++ be32 id ++ back) front.length = id := by
  rw [de, slice_append rfl (by simp), ofBe32_be32]

@[simp] theorem de_key3_zero (first second third : UInt32) :
    de (key3 first second third) 0 = first :=
  de_append [] first _

@[simp] theorem de_key3_four (first second third : UInt32) :
    de (key3 first second third) 4 = second := by
  have placed := de_append (be32 first) second (be32 third)
  rwa [length_be32, List.append_assoc] at placed

@[simp] theorem de_key3_eight (first second third : UInt32) :
    de (key3 first second third) 8 = third := by
  have placed := de_append (be32 first ++ be32 second) third []
  rwa [List.length_append, length_be32, length_be32, List.append_nil, List.append_assoc] at placed

@[simp] theorem de_tag1 (tag : UInt8) (id : UInt32) : de (tag1 tag id) 1 = id := by
  have placed := de_append [tag] id []
  rwa [List.append_nil] at placed

theorem key3_lt_iff {first second third first' second' third' : UInt32} :
    key3 first second third < key3 first' second' third' ↔
      first < first' ∨ first = first' ∧ (second < second' ∨ second = second' ∧ third < third') := by
  rw [key3, key3, be32_append_lt_iff, be32_append_lt_iff, be32_lt_iff]

theorem be32_prefix_key3 {id first second third : UInt32} :
    be32 id <+: key3 first second third ↔ id = first := by
  rw [← List.append_nil (be32 id), key3, be32_append_prefix_iff]
  simp

theorem key2_prefix_key3 {first second first' second' third : UInt32} :
    key2 first second <+: key3 first' second' third ↔ first = first' ∧ second = second' := by
  rw [key2, ← List.append_nil (be32 second), key3, be32_append_prefix_iff, be32_append_prefix_iff]
  simp

/-- A scan reads off the entries under its stem, in the order of their keys. -/
theorem Keys.ascends_scan {β : Type*} {family : ColumnFamily Unit} {keyOf : IdTriple → Bytes}
    {set : Finset IdTriple} (keys : Keys family keyOf set) {less : β → β → Prop} {stem : Bytes}
    {read : Bytes → β} (entry : β → IdTriple)
    (under : ∀ triple, stem <+: keyOf triple → entry (read (keyOf triple)) = triple)
    (stems : ∀ element, stem <+: keyOf (entry element))
    (reads : ∀ element, read (keyOf (entry element)) = element)
    (order : ∀ left right, keyOf (entry left) < keyOf (entry right) → less left right) :
    Ascends less ((scanKeys family stem).map read) fun element => entry element ∈ set := by
  have scanned : ∀ key ∈ scanKeys family stem, ∃ triple ∈ set,
      keyOf triple = key ∧ entry (read key) = triple := by
    intro key member
    have parts := mem_scanKeys.mp member
    rcases (keys key).mp parts.1 with ⟨triple, present, same⟩
    refine ⟨triple, present, same, ?_⟩
    rw [← same]
    exact under triple (same.symm ▸ parts.2)
  have ordered : ((scanKeys family stem).map read).Pairwise fun left right =>
      keyOf (entry left) < keyOf (entry right) := by
    refine List.pairwise_map.mpr (List.Pairwise.imp_of_mem ?_ (scanKeys_pairwise family stem))
    intro left right leftMember rightMember earlier
    rcases scanned left leftMember with ⟨_, _, leftKey, leftEntry⟩
    rcases scanned right rightMember with ⟨_, _, rightKey, rightEntry⟩
    rwa [leftEntry, rightEntry, leftKey, rightKey]
  refine ⟨⟨?_, ?_⟩, ordered.imp (order _ _)⟩
  · refine ordered.imp ?_
    intro left right earlier same
    exact absurd earlier (by rw [same]; exact lt_irrefl _)
  · intro element
    rw [List.mem_map]
    constructor
    · rintro ⟨key, member, same⟩
      rcases scanned key member with ⟨triple, present, _, entered⟩
      rwa [← same, entered]
    · intro present
      refine ⟨keyOf (entry element), mem_scanKeys.mpr ⟨?_, stems element⟩, reads element⟩
      exact (keys _).mpr ⟨_, present, rfl⟩

theorem Enumerates.insertionSort {ids : List UInt32} {holds : UInt32 → Prop}
    (enumerates : Enumerates ids holds) :
    Ascends (· < ·) (ids.insertionSort (· ≤ ·)) holds := by
  apply Ascends.of_pairwise
  · have nodup := (List.perm_insertionSort (· ≤ ·) ids).nodup_iff.mpr enumerates.nodup
    exact (List.pairwise_insertionSort (· ≤ ·) ids).imp₂ (fun _ _ => lt_of_le_of_ne) nodup
  · intro id
    rw [List.mem_insertionSort, enumerates.mem_iff]

theorem sortPairs_perm (pairs : List (UInt32 × UInt32)) :
    (RocksStore.sortPairs pairs).Perm pairs := by
  have sorted := (List.perm_insertionSort (· ≤ ·) (pairs.map toLex)).map ofLex
  have roundTrip : ofLex ∘ toLex = (id : UInt32 × UInt32 → UInt32 × UInt32) := rfl
  rwa [List.map_map, roundTrip, List.map_id] at sorted

theorem Enumerates.sortPairs {pairs : List (UInt32 × UInt32)} {holds : UInt32 × UInt32 → Prop}
    (enumerates : Enumerates pairs holds) :
    Ascends PairLt (RocksStore.sortPairs pairs) holds where
  nodup := (sortPairs_perm pairs).nodup_iff.mpr enumerates.nodup
  mem_iff pair := (sortPairs_perm pairs).mem_iff.trans (enumerates.mem_iff pair)
  ordered := by
    have nodup : ((pairs.map toLex).insertionSort (· ≤ ·)).Nodup := by
      rw [(List.perm_insertionSort (· ≤ ·) _).nodup_iff, List.nodup_map_iff toLex.injective]
      exact enumerates.nodup
    refine List.pairwise_map.mpr ?_
    exact (List.pairwise_insertionSort (· ≤ ·) _).imp₂ (fun _ _ => lt_of_le_of_ne) nodup

theorem Ascends.sortDedup {α β : Type*} [LinearOrder β] {ids : List α} (value : α → β)
    {holds : α → Prop} (mem_iff : ∀ element, element ∈ ids ↔ holds element) :
    Ascends (· < ·) (SortedSlice.sortDedup (ids.map value)) fun chosen =>
      ∃ element, holds element ∧ value element = chosen := by
  refine Ascends.of_pairwise (SortedSlice.sortDedup_pairwise _) ?_
  intro chosen
  rw [SortedSlice.mem_sortDedup, List.mem_map]
  simp only [mem_iff]

/-- The order of `iter_all`: by subject, then predicate, then object. -/
def SubjectMajor (left right : IdTriple) : Prop := spoKey left < spoKey right

section Source

variable {store : RocksStore} {set : Finset IdTriple}

theorem Stored.poByS (stored : Stored store set) (sub : UInt32) :
    Ascends PairLt (store.poByS sub) fun pair => ⟨sub, pair.1, pair.2⟩ ∈ set := by
  apply stored.spo.ascends_scan (fun pair : UInt32 × UInt32 => ⟨sub, pair.1, pair.2⟩)
  · intro triple under
    simp [spoKey, be32_prefix_key3.mp under]
  · exact fun pair => be32_prefix_key3.mpr rfl
  · exact fun pair => by simp [spoKey]
  · intro left right less
    simpa [spoKey, key3_lt_iff, PairLt, Prod.Lex.toLex_lt_toLex] using less

theorem Stored.oBySp (stored : Stored store set) (sub pred : UInt32) :
    Ascends (· < ·) (store.oBySp sub pred) fun obj => ⟨sub, pred, obj⟩ ∈ set := by
  apply stored.spo.ascends_scan (fun obj => ⟨sub, pred, obj⟩)
  · intro triple under
    have ids := key2_prefix_key3.mp under
    simp [spoKey, ids]
  · exact fun obj => key2_prefix_key3.mpr ⟨rfl, rfl⟩
  · exact fun obj => by simp [spoKey]
  · intro left right less
    simpa [spoKey, key3_lt_iff] using less

theorem Stored.pBySo (stored : Stored store set) (sub obj : UInt32) :
    Ascends (· < ·) (store.pBySo sub obj) fun pred => ⟨sub, pred, obj⟩ ∈ set := by
  apply stored.osp.ascends_scan (fun pred => ⟨sub, pred, obj⟩)
  · intro triple under
    have ids := key2_prefix_key3.mp under
    simp [ospKey, ids]
  · exact fun pred => key2_prefix_key3.mpr ⟨rfl, rfl⟩
  · exact fun pred => by simp [ospKey]
  · intro left right less
    simpa [ospKey, key3_lt_iff] using less

theorem Stored.sByPo (stored : Stored store set) (pred obj : UInt32) :
    Ascends (· < ·) (store.sByPo pred obj) fun sub => ⟨sub, pred, obj⟩ ∈ set := by
  apply stored.pos.ascends_scan (fun sub => ⟨sub, pred, obj⟩)
  · intro triple under
    have ids := key2_prefix_key3.mp under
    simp [posKey, ids]
  · exact fun sub => key2_prefix_key3.mpr ⟨rfl, rfl⟩
  · exact fun sub => by simp [posKey]
  · intro left right less
    simpa [posKey, key3_lt_iff] using less

/-- The scan under an object is in the order of subjects. -/
theorem Stored.scan_object (stored : Stored store set) (obj : UInt32) :
    Ascends (fun left right => PairLt left.swap right.swap)
      ((scanKeys store.db.osp (be32 obj)).map fun key => (de key 8, de key 4))
      fun pair => ⟨pair.2, pair.1, obj⟩ ∈ set := by
  apply stored.osp.ascends_scan (fun pair : UInt32 × UInt32 => ⟨pair.2, pair.1, obj⟩)
  · intro triple under
    simp [ospKey, be32_prefix_key3.mp under]
  · exact fun pair => be32_prefix_key3.mpr rfl
  · exact fun pair => by simp [ospKey]
  · intro left right less
    simpa [ospKey, key3_lt_iff, PairLt, Prod.Lex.toLex_lt_toLex] using less

/-- The scan under a predicate is in the order of objects. -/
theorem Stored.scan_predicate (stored : Stored store set) (pred : UInt32) :
    Ascends (fun left right => PairLt left.swap right.swap)
      ((scanKeys store.db.pos (be32 pred)).map fun key => (de key 8, de key 4))
      fun pair => ⟨pair.1, pred, pair.2⟩ ∈ set := by
  apply stored.pos.ascends_scan (fun pair : UInt32 × UInt32 => ⟨pair.1, pred, pair.2⟩)
  · intro triple under
    simp [posKey, be32_prefix_key3.mp under]
  · exact fun pair => be32_prefix_key3.mpr rfl
  · exact fun pair => by simp [posKey]
  · intro left right less
    simpa [posKey, key3_lt_iff, PairLt, Prod.Lex.toLex_lt_toLex] using less

theorem Stored.subsByP (stored : Stored store set) (pred : UInt32) :
    Ascends (· < ·) (store.subsByP pred) fun sub => ∃ obj, ⟨sub, pred, obj⟩ ∈ set := by
  have listed := Ascends.sortDedup Prod.fst (stored.scan_predicate pred).mem_iff
  rw [List.map_map] at listed
  exact listed.congr fun sub => by simp

theorem Stored.objsByP (stored : Stored store set) (pred : UInt32) :
    Ascends (· < ·) (store.objsByP pred) fun obj => ∃ sub, ⟨sub, pred, obj⟩ ∈ set := by
  have listed := Ascends.sortDedup Prod.snd (stored.scan_predicate pred).mem_iff
  rw [List.map_map] at listed
  exact listed.congr fun obj => by simp

theorem Stored.iterAll (stored : Stored store set) :
    Ascends SubjectMajor store.iterAll fun triple => triple ∈ set := by
  apply stored.spo.ascends_scan (fun triple => triple)
  · exact fun triple _ => by simp [spoKey]
  · exact fun triple => List.nil_prefix
  · exact fun triple => by simp [spoKey]
  · exact fun left right less => less

/-- The ids of the counters of one kind are those with a live counter. -/
theorem Stored.idsUnder (stored : Stored store set) {tag : UInt8} (counterOf : UInt32 → Counter)
    (keyed : ∀ id, (counterOf id).key = tag1 tag id) (tagged : ∀ id, (counterOf id).Tagged)
    (only : ∀ counter : Counter, counter.tag = tag → ∃ id, counter = counterOf id) :
    Enumerates (store.idsUnder tag) fun id => Counter.value set (counterOf id) ≠ 0 := by
  have scanned : ∀ key ∈ scanKeys store.db.stats [tag], ∃ id, key = tag1 tag id := by
    intro key member
    have parts := mem_scanKeys.mp member
    rcases Std.TreeMap.mem_iff_isSome_getElem?.mp parts.1 |> Option.isSome_iff_exists.mp
      with ⟨count, found⟩
    rcases stored.counted.known key count found with ⟨counter, same, _⟩
    rcases counter.head_key with ⟨ids, headed⟩
    have lead : tag = counter.tag := by simpa [same, headed] using parts.2
    rcases only counter lead.symm with ⟨id, known⟩
    exact ⟨id, by rw [same, known, keyed]⟩
  constructor
  · refine List.Nodup.map_on ?_ ((scanKeys_pairwise _ _).imp ne_of_lt)
    intro left leftMember right rightMember same
    rcases scanned left leftMember with ⟨leftId, rfl⟩
    rcases scanned right rightMember with ⟨rightId, rfl⟩
    rw [de_tag1, de_tag1] at same
    rw [same]
  · intro id
    rw [← stored.counted.mem_iff (tagged id), keyed, RocksStore.idsUnder, List.mem_map]
    constructor
    · rintro ⟨key, member, read⟩
      rcases scanned key member with ⟨other, rfl⟩
      rw [de_tag1] at read
      exact read ▸ (mem_scanKeys.mp member).1
    · exact fun present => ⟨_, mem_scanKeys.mpr ⟨present, _, rfl⟩, de_tag1 tag id⟩

theorem Stored.subjectKeys (stored : Stored store set) :
    Ascends (· < ·) store.subjectKeys fun sub => ∃ pred obj, ⟨sub, pred, obj⟩ ∈ set := by
  have listed :=
    stored.idsUnder .subCount (fun _ => rfl) (fun _ => trivial) fun _ => Counter.eq_subCount_of_tag
  refine listed.insertionSort.congr fun sub => ?_
  rw [← Nat.pos_iff_ne_zero, Counter.value, multiplicity_pos, IdTriple.exists_iff]
  simp

theorem Stored.objectKeys (stored : Stored store set) :
    Ascends (· < ·) store.objectKeys fun obj => ∃ sub pred, ⟨sub, pred, obj⟩ ∈ set := by
  have listed :=
    stored.idsUnder .objCount (fun _ => rfl) (fun _ => trivial) fun _ => Counter.eq_objCount_of_tag
  refine listed.insertionSort.congr fun obj => ?_
  rw [← Nat.pos_iff_ne_zero, Counter.value, multiplicity_pos, IdTriple.exists_iff]
  simp

theorem Stored.source_describes (stored : Stored store set) : store.source.Describes set where
  exists_iff sub pred obj := by
    have member : store.source.exists sub pred obj = decide (⟨sub, pred, obj⟩ ∈ set) :=
      stored.containsIds ⟨sub, pred, obj⟩
    rw [member, decide_eq_true_eq]
  poByS := stored.poByS
  oBySp := stored.oBySp
  pBySo := stored.pBySo
  psByO obj := (stored.scan_object obj).sortPairs
  sByPo := stored.sByPo
  soByP pred := (stored.scan_predicate pred).sortPairs
  subsByP := stored.subsByP
  objsByP := stored.objsByP
  subjectKeys := stored.subjectKeys
  objectKeys := stored.objectKeys
  iterAll := stored.iterAll.toEnumerates
  tripleCount := stored.cached.tripleCount
  distinctSubjects := stored.cached.distinctSubjects
  distinctObjects := stored.cached.distinctObjects
  numPredicates := stored.cached.numPredicates
  predCard pred := stored.counted.getD_eq (.card pred)
  predDistinctSubj pred := stored.counted.getD_eq (.predSubjs pred)
  predDistinctObj pred := stored.counted.getD_eq (.predObjs pred)

end Source

/-! ## Runs -/

/-- A mutation, or a reopening of the directory. -/
inductive RocksOp where
  | mutate (op : StoreOp)
  | reopen

namespace RocksOp

def mutation : RocksOp → Option StoreOp
  | mutate op => some op
  | reopen => none

/-- One operation, with the flag that a mutation returns. -/
def run (store : RocksStore) : RocksOp → Option (RocksStore × List (Option Bool))
  | mutate (.insert triple) =>
    (store.insertIds triple).map fun result => (result.1, [some result.2])
  | mutate (.remove triple) =>
    (store.removeIds triple).map fun result => (result.1, [some result.2])
  | mutate (.bulkLoad triples) => (store.bulkLoad triples).map fun after => (after, [none])
  | reopen => some (.open store.db, [])

end RocksOp

def RocksStore.runOps : RocksStore → List RocksOp → Option (RocksStore × List (Option Bool))
  | store, [] => some (store, [])
  | store, op :: rest => do
    let (next, reported) ← op.run store
    let (final, reports) ← next.runOps rest
    return (final, reported ++ reports)

/-- Two sources that give the same answers, except for the order of `iter_all`. -/
structure SameAnswers (left right : TripleSource) : Prop where
  answers : { left with iterAll := right.iterAll } = right
  iterAll : left.iterAll.Perm right.iterAll

section Runs

variable {store : RocksStore} {set : Finset IdTriple}

theorem Stored.run (stored : Stored store set) (op : StoreOp) :
    ∃ after, (RocksOp.mutate op).run store = some (after, [op.changes set]) ∧
      Stored after (op.apply set) := by
  cases op with
  | insert triple =>
    rcases stored.insertIds triple with ⟨after, run, next⟩
    exact ⟨after, by rw [RocksOp.run, run]; rfl, next⟩
  | remove triple =>
    rcases stored.removeIds triple with ⟨after, run, next⟩
    exact ⟨after, by rw [RocksOp.run, run]; rfl, next⟩
  | bulkLoad loaded =>
    rcases Stored.bulkLoad loaded stored with ⟨after, run, next⟩
    exact ⟨after, by rw [RocksOp.run, run]; rfl, next⟩

theorem Stored.runOps (ops : List RocksOp) :
    ∀ {store : RocksStore} {set : Finset IdTriple}, Stored store set →
      ∃ after, store.runOps ops =
          some (after, (applyOps set (ops.filterMap RocksOp.mutation)).2) ∧
        Stored after (applyOps set (ops.filterMap RocksOp.mutation)).1 := by
  induction ops with
  | nil =>
    intro store set stored
    exact ⟨store, rfl, stored⟩
  | cons op rest induction =>
    intro store set stored
    cases op with
    | mutate op =>
      rcases stored.run op with ⟨next, step, storedNext⟩
      rcases induction storedNext with ⟨after, run, final⟩
      refine ⟨after, ?_, final⟩
      simp only [RocksStore.runOps, step, Option.bind_eq_bind, Option.bind_some, run]
      rfl
    | reopen =>
      rcases induction stored.open with ⟨after, run, final⟩
      refine ⟨after, ?_, final⟩
      simp only [RocksStore.runOps, RocksOp.run, Option.bind_eq_bind, Option.bind_some, run]
      rfl

theorem Stored.sameAnswers (stored : Stored store set) {memory : TripleStore}
    (refines : Refines memory set) : SameAnswers store.source memory.source where
  answers := by
    have described := stored.source_describes
    have listed := refines.source_describes.iterAll
    exact TripleSource.Describes.unique { described with iterAll := listed }
      refines.source_describes refines.iterAll_ordered refines.iterAll_ordered
  iterAll := by
    refine (List.perm_ext_iff_of_nodup stored.iterAll.nodup refines.iterAll.nodup).mpr ?_
    intro triple
    rw [stored.iterAll.mem_iff, refines.iterAll.mem_iff]

end Runs

/-- The RocksDB store refines the in-memory store. Any run of insertions, removals, bulk
loads and reopenings from an empty directory ends, with no counter taken below zero, and
reports the flags the in-memory store reports. Its answers are those of every in-memory
store that holds the same triples, the one that ran the same mutations among them. -/
theorem rocksStore_refines_tripleStore (ops : List RocksOp) :
    ∃ store, (RocksStore.open .empty).runOps ops =
        some (store, (runOps TripleStore.new (ops.filterMap RocksOp.mutation)).2) ∧
      SameAnswers store.source
        (runOps TripleStore.new (ops.filterMap RocksOp.mutation)).1.source ∧
      ∀ memory : TripleStore,
        Refines memory (applyOps ∅ (ops.filterMap RocksOp.mutation)).1 →
        SameAnswers store.source memory.source := by
  rcases Stored.runOps ops stored_open_empty with ⟨store, run, stored⟩
  have memory := Refines.runOps (ops.filterMap RocksOp.mutation) refines_new
  refine ⟨store, ?_, stored.sameAnswers memory.1, fun _ refines => stored.sameAnswers refines⟩
  rw [run, memory.2]

end GStore.Store
