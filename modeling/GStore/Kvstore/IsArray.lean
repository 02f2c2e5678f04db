import GStore.Foundation.Assoc
import GStore.Kvstore.ArrayRuns
import GStore.Kvstore.VList

/-! # String-keyed arrays

`isarray.rs`: a key is hashed to a bucket, and the entries of a bucket are one value of an
integer-keyed array. An entry has the lengths of its key and its value before them. -/

namespace GStore.Kvstore

open PageM VList

/-- A handle to one array, which is the array of its buckets. -/
structure IsArray where
  dir : IvArray
deriving DecidableEq

namespace IsArray

/-! ## Programs -/

def numBuckets : UInt32 := 65536

/-- FNV-1a with 32 bits. -/
def fnv1a (bytes : Bytes) : UInt32 :=
  bytes.foldl (fun hash byte => (hash ^^^ byte.toUInt32) * 0x01000193) 0x811c9dc5

def bucketOf (key : Bytes) : UInt32 := fnv1a key % numBuckets

/-- The first `count` bytes and the rest, if there are so many. -/
def takeExact (count : Nat) (bytes : Bytes) : Option (Bytes × Bytes) :=
  if count ≤ bytes.length then some (bytes.take count, bytes.drop count) else none

def readEntry (payload : Bytes) : Option ((Bytes × Bytes) × Bytes) := do
  let (klen, payload) ← readVarint payload
  let (key, payload) ← takeExact klen.toNat payload
  let (vlen, payload) ← readVarint payload
  let (val, payload) ← takeExact vlen.toNat payload
  return ((key, val), payload)

/-- An entry has a byte at least, so there are at most as many as bytes. -/
def entriesFrom : Nat → Bytes → List (Bytes × Bytes)
  | 0, _ => []
  | fuel + 1, payload =>
    if payload = [] then []
    else (readEntry payload).elim [] fun read => read.1 :: entriesFrom fuel read.2

/-- The entries up to the first one that cannot be read. -/
def entries (payload : Bytes) : List (Bytes × Bytes) := entriesFrom payload.length payload

/-- The lengths are cut to 32 bits. -/
def pushEntry (entry : Bytes × Bytes) : Bytes :=
  writeVarint (UInt32.ofNat entry.1.length) ++ entry.1 ++
    writeVarint (UInt32.ofNat entry.2.length) ++ entry.2

/-- The payload of a bucket with these entries. -/
def pack (entries : List (Bytes × Bytes)) : Bytes := entries.flatMap pushEntry

/-- The entries of other keys. -/
def without (key : Bytes) (entries : List (Bytes × Bytes)) : List (Bytes × Bytes) :=
  entries.filter fun entry => entry.1 ≠ key

def findEntry (payload key : Bytes) : Option Bytes := (entries payload).lookup key

def upsertEntry (payload key val : Bytes) : Bytes :=
  pack (without key (entries payload)) ++ pushEntry (key, val)

/-- The payload without the key, if it has it. -/
def removeEntry (payload key : Bytes) : Option Bytes :=
  if (entries payload).any fun entry => entry.1 = key then
    some (pack (without key (entries payload)))
  else none

def get (array : IsArray) (key : Bytes) : PageM (Option Bytes) := do
  match ← array.dir.get (bucketOf key) with
  | none => return none
  | some payload => return findEntry payload key

def insert (array : IsArray) (key val : Bytes) : PageM Unit := do
  let payload ← array.dir.get (bucketOf key)
  array.dir.insert (bucketOf key) (upsertEntry (payload.getD []) key val)

/-- A bucket that has no entry left goes. -/
def delete (array : IsArray) (key : Bytes) : PageM Bool := do
  match ← array.dir.get (bucketOf key) with
  | none => return false
  | some payload =>
    match removeEntry payload key with
    | none => return false
    | some rest =>
      if rest = [] then
        let _ ← array.dir.delete (bucketOf key)
        return true
      else
        array.dir.insert (bucketOf key) rest
        return true

/-! ## Payloads -/

/-- The lengths are not cut. -/
def Short (entry : Bytes × Bytes) : Prop :=
  entry.1.length < UInt32.size ∧ entry.2.length < UInt32.size

variable {key val : Bytes} {entry : Bytes × Bytes} {listed : List (Bytes × Bytes)}

theorem takeExact_append (front rest : Bytes) :
    takeExact front.length (front ++ rest) = some (front, rest) := by
  rw [takeExact, if_pos (by rw [List.length_append]; omega), List.take_left, List.drop_left]

theorem toNat_length {bytes : Bytes} (short : bytes.length < UInt32.size) :
    (UInt32.ofNat bytes.length).toNat = bytes.length := by
  rw [UInt32.toNat_ofNat']
  exact Nat.mod_eq_of_lt short

theorem readEntry_pushEntry (short : Short entry) (rest : Bytes) :
    readEntry (pushEntry entry ++ rest) = some (entry, rest) := by
  rw [readEntry, pushEntry, List.append_assoc, List.append_assoc, List.append_assoc,
    readVarint_writeVarint]
  simp only [Option.bind_eq_bind, Option.bind_some, toNat_length short.1, takeExact_append,
    readVarint_writeVarint, toNat_length short.2]
  rfl

theorem length_writeVarint_pos (value : UInt32) : 0 < (writeVarint value).length := by
  have terminated := (writeVarint_spec 4 value (value.toNat_lt.trans (by decide))).1
  rcases terminated.cases with ⟨byte, rest, written, -⟩
  rw [written, List.length_cons]
  exact Nat.succ_pos _

theorem length_pushEntry (entry : Bytes × Bytes) :
    entry.1.length + entry.2.length < (pushEntry entry).length := by
  have first := length_writeVarint_pos (UInt32.ofNat entry.1.length)
  simp only [pushEntry, List.length_append]
  omega

theorem pack_cons (entry : Bytes × Bytes) (rest : List (Bytes × Bytes)) :
    pack (entry :: rest) = pushEntry entry ++ pack rest := List.flatMap_cons

theorem pack_append (left right : List (Bytes × Bytes)) :
    pack (left ++ right) = pack left ++ pack right := List.flatMap_append

theorem pack_ne_nil (entry : Bytes × Bytes) (rest : List (Bytes × Bytes)) :
    pack (entry :: rest) ≠ [] := by
  have length := length_pushEntry entry
  intro empty
  rw [pack_cons] at empty
  rw [(List.append_eq_nil_iff.mp empty).1, List.length_nil] at length
  cases length

theorem pack_eq_nil_iff : pack listed = [] ↔ listed = [] := by
  cases listed with
  | nil => exact iff_of_true rfl rfl
  | cons entry rest => exact iff_of_false (pack_ne_nil entry rest) (List.cons_ne_nil _ _)

theorem length_le_pack (listed : List (Bytes × Bytes)) : listed.length ≤ (pack listed).length := by
  induction listed with
  | nil => exact Nat.zero_le _
  | cons entry rest induction =>
    have length := length_pushEntry entry
    rw [pack_cons, List.length_cons, List.length_append]
    omega

theorem entriesFrom_pack (shorts : ∀ entry ∈ listed, Short entry) {fuel : Nat}
    (enough : listed.length ≤ fuel) : entriesFrom fuel (pack listed) = listed := by
  induction listed generalizing fuel with
  | nil =>
    cases fuel with
    | zero => rfl
    | succ fuel => rw [entriesFrom, if_pos (show pack [] = [] from rfl)]
  | cons entry rest induction =>
    cases fuel with
    | zero => cases enough
    | succ fuel =>
      have parts := List.forall_mem_cons.mp shorts
      rw [entriesFrom, if_neg (pack_ne_nil entry rest), pack_cons,
        readEntry_pushEntry parts.1, Option.elim_some,
        induction parts.2 (Nat.le_of_succ_le_succ enough)]

/-- A payload is read back. -/
theorem entries_pack (shorts : ∀ entry ∈ listed, Short entry) :
    entries (pack listed) = listed :=
  entriesFrom_pack shorts (length_le_pack listed)

theorem upsertEntry_pack (shorts : ∀ entry ∈ listed, Short entry) (key val : Bytes) :
    upsertEntry (pack listed) key val = pack (without key listed ++ [(key, val)]) := by
  rw [upsertEntry, entries_pack shorts, pack_append, pack_cons]
  exact congrArg (pack (without key listed) ++ ·) (List.append_nil _).symm

theorem mem_without {other : Bytes × Bytes} :
    other ∈ without key listed ↔ other ∈ listed ∧ other.1 ≠ key := by
  rw [without, List.mem_filter, decide_eq_true_eq]

theorem nodup_without (nodup : (listed.map Prod.fst).Nodup) (key : Bytes) :
    ((without key listed).map Prod.fst).Nodup :=
  nodup.sublist (List.filter_sublist.map Prod.fst)

theorem nodup_upserted (nodup : (listed.map Prod.fst).Nodup) (key val : Bytes) :
    ((without key listed ++ [(key, val)]).map Prod.fst).Nodup := by
  rw [List.map_append, List.nodup_append]
  refine ⟨nodup_without nodup key, List.nodup_singleton key, ?_⟩
  rintro other inWithout new isNew rfl
  rcases List.mem_map.mp inWithout with ⟨entry, member, same⟩
  have new : other = key := List.mem_singleton.mp isNew
  exact (mem_without.mp member).2 (same.trans new)

/-- Fewer entries take fewer bytes. -/
theorem length_pack_without_le (key : Bytes) (listed : List (Bytes × Bytes)) :
    (pack (without key listed)).length ≤ (pack listed).length := by
  induction listed with
  | nil => exact le_refl _
  | cons entry rest induction =>
    rw [without, List.filter_cons, pack_cons, List.length_append]
    split
    · rw [pack_cons, List.length_append]
      exact Nat.add_le_add_left induction _
    · exact induction.trans (Nat.le_add_left _ _)

/-! ## Buckets -/

/-- The entries are those of the keys that hash to a bucket. -/
structure Lists (contents : Bytes → Option Bytes) (bucket : Nat)
    (listed : List (Bytes × Bytes)) : Prop where
  nodup : (listed.map Prod.fst).Nodup
  mem : ∀ key val, (key, val) ∈ listed ↔ contents key = some val ∧ (bucketOf key).toNat = bucket

/-- What an array has at a bucket with these entries. -/
def payloadOf (listed : List (Bytes × Bytes)) : Option Bytes :=
  if listed = [] then none else some (pack listed)

/-- The values of an integer-keyed array are the buckets of a map. -/
def Buckets (value : Nat → Option Bytes) (contents : Bytes → Option Bytes) : Prop :=
  ∀ bucket, ∃ listed, Lists contents bucket listed ∧ (∀ entry ∈ listed, Short entry) ∧
    value bucket = payloadOf listed

variable {contents : Bytes → Option Bytes} {bucket : Nat} {value : Nat → Option Bytes}

theorem lists_nil (bucket : Nat) : Lists (fun _ => none) bucket [] := by
  refine ⟨List.nodup_nil, fun key val => iff_of_false List.not_mem_nil ?_⟩
  rintro ⟨⟨⟩, -⟩

theorem buckets_none : Buckets (fun _ => none) (fun _ => none) := by
  intro bucket
  refine ⟨[], lists_nil bucket, ?_, rfl⟩
  rintro entry ⟨⟩

theorem payloadOf_getD (listed : List (Bytes × Bytes)) :
    (payloadOf listed).getD [] = pack listed := by
  rw [payloadOf]
  by_cases empty : listed = []
  · rw [if_pos empty, empty]
    rfl
  · rw [if_neg empty]
    rfl

theorem Lists.lookup (lists : Lists contents (bucketOf key).toNat listed) :
    listed.lookup key = contents key := by
  cases stored : contents key with
  | some val => exact lookup_eq_some_of_mem lists.nodup ((lists.mem key val).mpr ⟨stored, rfl⟩)
  | none =>
    by_contra found
    rcases Option.ne_none_iff_exists'.mp found with ⟨val, found⟩
    have known := ((lists.mem key val).mp (mem_of_lookup_eq_some found)).1
    rw [stored] at known
    cases known

/-- The bucket of another key is as it was. -/
theorem Lists.update_of_ne (lists : Lists contents bucket listed)
    (apart : bucket ≠ (bucketOf key).toNat) (result : Option Bytes) :
    Lists (Function.update contents key result) bucket listed := by
  refine ⟨lists.nodup, fun other val => ?_⟩
  rw [lists.mem]
  by_cases same : other = key
  · rw [same]
    exact iff_of_false (fun both => apart both.2.symm) fun both => apart both.2.symm
  · rw [Function.update_of_ne same]

theorem Lists.upsert (lists : Lists contents (bucketOf key).toNat listed) (val : Bytes) :
    Lists (Function.update contents key (some val)) (bucketOf key).toNat
      (without key listed ++ [(key, val)]) := by
  refine ⟨nodup_upserted lists.nodup key val, fun other found => ?_⟩
  rw [List.mem_append, mem_without, lists.mem, List.mem_singleton, Prod.mk.injEq]
  by_cases same : other = key
  · rw [same, Function.update_self]
    constructor
    · rintro (⟨-, absurd⟩ | ⟨-, rfl⟩)
      · exact (absurd rfl).elim
      · exact ⟨rfl, rfl⟩
    · rintro ⟨⟨⟩, -⟩
      exact .inr ⟨rfl, rfl⟩
  · rw [Function.update_of_ne same]
    constructor
    · rintro (⟨known, -⟩ | ⟨equal, -⟩)
      · exact known
      · exact (same equal).elim
    · intro known
      exact .inl ⟨known, same⟩

theorem Lists.remove (lists : Lists contents (bucketOf key).toNat listed) :
    Lists (Function.update contents key none) (bucketOf key).toNat (without key listed) := by
  refine ⟨nodup_without lists.nodup key, fun other found => ?_⟩
  rw [mem_without, lists.mem]
  by_cases same : other = key
  · rw [same, Function.update_self]
    constructor
    · rintro ⟨-, absurd⟩
      exact (absurd rfl).elim
    · rintro ⟨⟨⟩, -⟩
  · rw [Function.update_of_ne same]
    exact ⟨fun known => known.1, fun known => ⟨known, same⟩⟩

/-- One bucket and one key change together. -/
theorem Buckets.update (buckets : Buckets value contents) {result : Option Bytes}
    (lists : Lists (Function.update contents key result) (bucketOf key).toNat listed)
    (shorts : ∀ entry ∈ listed, Short entry) :
    Buckets (Function.update value (bucketOf key).toNat (payloadOf listed))
      (Function.update contents key result) := by
  intro bucket
  by_cases same : bucket = (bucketOf key).toNat
  · rw [same]
    exact ⟨listed, lists, shorts, Function.update_self _ _ _⟩
  · rcases buckets bucket with ⟨others, listsOthers, shortsOthers, valueEq⟩
    exact ⟨others, listsOthers.update_of_ne same result, shortsOthers,
      (Function.update_of_ne same _ _).trans valueEq⟩

/-! ## Runs -/

open Plan

variable {arrays : RootSlot → Prop} {heap : Heap} {plan : Plan} {array : RootSlot}

theorem addressable_bucketOf (key : Bytes) : Addressable (bucketOf key).toNat := by
  have below : (bucketOf key).toNat < 65536 := by
    rw [bucketOf, UInt32.toNat_mod]
    exact Nat.mod_lt _ (by decide)
  have slots : slotsPerDir = 32 := rfl
  have entries : fanout = 1024 := rfl
  rw [Addressable, slots, entries]
  omega

theorem returns_dirGet (held : plan.Held arrays heap) (valid : heap.Valid) (member : arrays array)
    (key : Bytes) : ((IvArray.mk array).get (bucketOf key)).Returns heap
      (plan.value (array, (bucketOf key).toNat)) heap :=
  held.returns_get valid member (addressable_bucketOf key)

theorem findEntry_pack (lists : Lists contents (bucketOf key).toNat listed)
    (shorts : ∀ entry ∈ listed, Short entry) : findEntry (pack listed) key = contents key := by
  rw [findEntry, entries_pack shorts, lists.lookup]

theorem returns_get (held : plan.Held arrays heap) (valid : heap.Valid) (member : arrays array)
    (buckets : Buckets (fun bucket => plan.value (array, bucket)) contents) (key : Bytes) :
    ((IsArray.mk ⟨array⟩).get key).Returns heap (contents key) heap := by
  rcases buckets (bucketOf key).toNat with ⟨listed, lists, shorts, value⟩
  have reading := returns_dirGet held valid member key
  dsimp only at value
  rw [value, payloadOf] at reading
  apply reading.bind
  by_cases empty : listed = []
  · have absent : contents key = none := by
      rw [← lists.lookup, empty]
      rfl
    rw [if_pos empty, absent]
    exact returns_pure _ _
  · rw [if_neg empty, ← findEntry_pack lists shorts]
    exact returns_pure _ _

theorem short_of_pack {entries : List (Bytes × Bytes)}
    (fits : (pack entries).length < UInt32.size) : ∀ entry ∈ entries, Short entry := by
  induction entries with
  | nil => rintro entry ⟨⟩
  | cons entry rest induction =>
    have length := length_pushEntry entry
    rw [pack_cons, List.length_append] at fits
    have first : Short entry := ⟨by omega, by omega⟩
    exact List.forall_mem_cons.mpr ⟨first, induction (by omega)⟩

/-- An insertion upserts the entry of its key or changes no value. -/
theorem insert_runs (held : plan.Held arrays heap) (valid : heap.Valid) (member : arrays array)
    (shorts : ∀ entry ∈ listed, Short entry)
    (value : plan.value (array, (bucketOf key).toNat) = payloadOf listed) (val : Bytes)
    (room : inlineCap < (pack listed).length →
      IvArray.spillPages (upsertEntry (pack listed) key val).length ≤
        IvArray.spillPages (pack listed).length + heap.supply.length) :
    ∃ after grown, Confined arrays heap plan after grown ∧
      (((IsArray.mk ⟨array⟩).insert key val).Returns heap () after ∧
          (∀ entry ∈ without key listed ++ [(key, val)], Short entry) ∧
          grown.value = Function.update plan.value (array, (bucketOf key).toNat)
            (payloadOf (without key listed ++ [(key, val)])) ∨
        ∃ error, ((IsArray.mk ⟨array⟩).insert key val).Stops heap error after ∧
          grown.value = plan.value ∧
          (UInt32.size ≤ (upsertEntry (pack listed) key val).length ∨
            heap.supply.length <
              IvArray.spillPages (upsertEntry (pack listed) key val).length + 3)) := by
  have upserted := upsertEntry_pack shorts key val
  have nonempty : without key listed ++ [(key, val)] ≠ [] := by simp
  have payload : payloadOf (without key listed ++ [(key, val)]) =
      some (upsertEntry (pack listed) key val) := by
    rw [payloadOf, if_neg nonempty, upserted]
  have reading := returns_dirGet held valid member key
  have old : ((plan.value (array, (bucketOf key).toNat)).getD []) = pack listed := by
    rw [value, payloadOf_getD]
  obtain ⟨after, grown, confined, ⟨returns, short, grownValue⟩ | ⟨error, stops, same, why⟩⟩ :=
    held.put_runs valid member (addressable_bucketOf key) (upsertEntry (pack listed) key val) (by
      intro payload found long
      rw [found, Option.getD_some] at old
      rw [old] at long ⊢
      exact room long)
  · refine ⟨after, grown, confined, .inl ⟨?_, ?_, by rw [payload, grownValue]⟩⟩
    · apply reading.bind
      rw [old]
      exact returns
    · rw [upserted] at short
      exact short_of_pack short
  · refine ⟨after, grown, confined, .inr ⟨error, ?_, same, why⟩⟩
    apply reading.bind_stops
    rw [old]
    exact stops

theorem without_eq_self (absent : contents key = none)
    (lists : Lists contents (bucketOf key).toNat listed) : without key listed = listed := by
  apply List.filter_eq_self.mpr
  intro entry member
  rw [decide_eq_true_eq]
  intro same
  have known := ((lists.mem entry.1 entry.2).mp member).1
  rw [same, absent] at known
  cases known

theorem removeEntry_pack (lists : Lists contents (bucketOf key).toNat listed)
    (shorts : ∀ entry ∈ listed, Short entry) :
    removeEntry (pack listed) key =
      if (contents key).isSome then some (pack (without key listed)) else none := by
  rw [removeEntry, entries_pack shorts]
  congr 1
  rw [List.any_eq_true, eq_iff_iff]
  constructor
  · rintro ⟨entry, member, same⟩
    have known := ((lists.mem entry.1 entry.2).mp member).1
    rw [decide_eq_true_eq.mp same] at known
    rw [known]
    rfl
  · intro some
    rcases Option.isSome_iff_exists.mp some with ⟨val, known⟩
    exact ⟨(key, val), (lists.mem key val).mpr ⟨known, rfl⟩, decide_eq_true rfl⟩

/-- A deletion removes the entry of its key, and it answers whether there was one. -/
theorem delete_runs (held : plan.Held arrays heap) (valid : heap.Valid) (member : arrays array)
    (lists : Lists contents (bucketOf key).toNat listed)
    (shorts : ∀ entry ∈ listed, Short entry)
    (value : plan.value (array, (bucketOf key).toNat) = payloadOf listed) :
    ∃ after grown, ((IsArray.mk ⟨array⟩).delete key).Returns heap (contents key).isSome after ∧
      Confined arrays heap plan after grown ∧
      grown.value = Function.update plan.value (array, (bucketOf key).toNat)
        (payloadOf (without key listed)) := by
  have reading := returns_dirGet held valid member key
  have unchanged := (held.extends_self valid).toConfined
  rw [value] at reading
  cases known : contents key with
  | none =>
    have same : plan.value = Function.update plan.value (array, (bucketOf key).toNat)
        (payloadOf (without key listed)) := by
      rw [without_eq_self known lists, ← value, Function.update_eq_self]
    refine ⟨heap, plan, ?_, unchanged, same⟩
    apply reading.bind
    by_cases empty : listed = []
    · rw [payloadOf, if_pos empty]
      exact returns_pure _ _
    · rw [payloadOf, if_neg empty]
      dsimp only
      rw [removeEntry_pack lists shorts, known]
      exact returns_pure _ _
  | some val =>
    have nonempty : listed ≠ [] := by
      rintro rfl
      exact List.not_mem_nil ((lists.mem key val).mpr ⟨known, rfl⟩)
    have removed : removeEntry (pack listed) key = some (pack (without key listed)) := by
      rw [removeEntry_pack lists shorts, known]
      rfl
    rw [payloadOf, if_neg nonempty] at reading value
    by_cases last : without key listed = []
    · obtain ⟨after, grown, deleting, confined, grownValue⟩ :=
        held.delete_runs valid member (addressable_bucketOf key)
      refine ⟨after, grown, ?_, confined, ?_⟩
      · apply reading.bind
        dsimp only
        rw [removed]
        dsimp only
        rw [if_pos (pack_eq_nil_iff.mpr last)]
        exact deleting.bind (returns_pure _ _)
      · rw [grownValue, payloadOf, if_pos last]
    · obtain ⟨after, grown, inserting, confined, grownValue⟩ :=
        held.shrink_runs valid member (addressable_bucketOf key) value
          (length_pack_without_le key listed)
      refine ⟨after, grown, ?_, confined, ?_⟩
      · apply reading.bind
        dsimp only
        rw [removed]
        dsimp only
        rw [if_neg (mt pack_eq_nil_iff.mp last)]
        exact inserting.bind (returns_pure _ _)
      · rw [grownValue, payloadOf, if_neg last]

end IsArray

end GStore.Kvstore
