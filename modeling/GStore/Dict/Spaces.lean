import GStore.Dict.Reclaim
import GStore.Foundation.Assoc
import GStore.Foundation.Trace

/-! # The id spaces over time

`dict/mod.rs` as a machine: strings are interned and freed one by one, and ids that are out of use
are reclaimed. The spaces stay apart as long as the entities leave the literals their ids. -/

namespace GStore.Dict

namespace Interner

variable {interner : Interner}

/-- The two directions are inverse to each other, and the free stack holds each hole once. -/
structure Bijection (interner : Interner) : Prop where
  inverse : ∀ key index, interner.get key = some index ↔ interner.resolve index = some key
  nodup : interner.free.Nodup
  holes : ∀ index : UInt32, index ∈ interner.free ↔ interner.backward[index.toNat]? = some none

theorem Valid.nodup_indices (valid : interner.Valid) :
    (interner.forward.map Prod.snd ++ interner.free).Nodup := by
  have live : ∀ entry ∈ interner.forward, interner.resolve entry.2 = some entry.1 := by
    intro entry member
    exact (valid.get_iff entry.1 entry.2).mp (lookup_eq_some_of_mem valid.keys_nodup member)
  rw [List.nodup_append]
  refine ⟨?_, valid.free_nodup, ?_⟩
  · apply List.Nodup.map_on ?_ (List.Nodup.of_map _ valid.keys_nodup)
    intro left leftIn right rightIn same
    have keys := live left leftIn
    rw [same, live right rightIn] at keys
    exact Prod.ext (Option.some.inj keys).symm same
  · intro index isLive other isFree same
    obtain ⟨entry, member, rfl⟩ := List.mem_map.mp isLive
    have stored := live entry member
    rw [same, resolve, valid.free_hole other isFree] at stored
    cases stored

/-- Counting finds every hole on the stack. -/
theorem Valid.mem_indices (valid : interner.Valid) {index : UInt32}
    (inside : index.toNat < interner.backward.length) :
    index ∈ interner.forward.map Prod.snd ++ interner.free := by
  have below : (interner.forward.map Prod.snd ++ interner.free).map UInt32.toNat ⊆
      List.range interner.backward.length := by
    intro place member
    obtain ⟨other, isIndex, rfl⟩ := List.mem_map.mp member
    apply List.mem_range.mpr
    rcases List.mem_append.mp isIndex with isLive | isFree
    · obtain ⟨entry, isEntry, rfl⟩ := List.mem_map.mp isLive
      exact valid.index_lt (lookup_eq_some_of_mem valid.keys_nodup isEntry)
    · exact (List.getElem?_eq_some_iff.mp (valid.free_hole other isFree)).1
  have distinct := valid.nodup_indices.map fun _ _ same => UInt32.toNat_inj.mp same
  have full := (distinct.subperm below).perm_of_length_le (by
    rw [List.length_range, List.length_map, List.length_append, List.length_map, valid.slots])
  obtain ⟨other, member, same⟩ :=
    List.mem_map.mp (full.mem_iff.mpr (List.mem_range.mpr inside))
  rwa [UInt32.toNat_inj.mp same] at member

theorem Valid.bijection (valid : interner.Valid) : interner.Bijection where
  inverse := valid.get_iff
  nodup := valid.free_nodup
  holes := by
    intro index
    refine ⟨valid.free_hole index, fun hole => ?_⟩
    have member := valid.mem_indices (List.getElem?_eq_some_iff.mp hole).1
    apply (List.mem_append.mp member).resolve_left
    intro isLive
    obtain ⟨entry, isEntry, rfl⟩ := List.mem_map.mp isLive
    have stored := (valid.get_iff entry.1 entry.2).mp
      (lookup_eq_some_of_mem valid.keys_nodup isEntry)
    rw [resolve, hole] at stored
    cases stored

theorem freeKey_count (valid : interner.Valid) (key : Text) :
    (if (interner.freeKey key).2 then 1 else 0) + (interner.freeKey key).1.forward.length =
      interner.forward.length := by
  have slots := valid.slots
  have freed := (valid.freeKey key).slots
  rw [length_freeKey] at freed
  cases known : interner.get key with
  | none => simp [freeKey, known]
  | some index =>
    have longer : (interner.freeKey key).1.free = index :: interner.free := by
      rw [freeKey, known]
    have flag : (interner.freeKey key).2 = true := by
      rw [freeKey, known]
    rw [longer, List.length_cons] at freed
    rw [flag, if_pos rfl]
    omega

/-- The count is that of the strings that are gone. -/
theorem reclaim_count (valid : interner.Valid) (used : UInt32 → Bool) :
    (interner.reclaim used).2 + (interner.reclaim used).1.forward.length =
      interner.forward.length := by
  have loop : ∀ (dead : List Text) (current : Interner) (count : Nat), current.Valid →
      (dead.foldl (fun state key =>
        let freed := state.1.freeKey key
        (freed.1, if freed.2 then state.2 + 1 else state.2)) (current, count)).2 +
      (dead.foldl (fun state key =>
        let freed := state.1.freeKey key
        (freed.1, if freed.2 then state.2 + 1 else state.2)) (current, count)).1.forward.length =
        count + current.forward.length := by
    intro dead
    induction dead with
    | nil => exact fun current count _ => rfl
    | cons key rest induction =>
      intro current count currentValid
      have one := freeKey_count currentValid key
      have later := induction (current.freeKey key).1
        (if (current.freeKey key).2 then count + 1 else count) (currentValid.freeKey key)
      refine Eq.trans later ?_
      split at one
      · rename_i flag
        rw [if_pos flag]
        omega
      · rename_i flag
        rw [if_neg flag]
        omega
  have whole := loop ((interner.entries.filter fun entry => !used entry.1).map Prod.snd) interner 0
    valid
  rw [Nat.zero_add] at whole
  exact whole

/-- Reclaiming, by strings. -/
theorem get_reclaim (valid : interner.Valid) (used : UInt32 → Bool) (key : Text) (index : UInt32) :
    (interner.reclaim used).1.get key = some index ↔
      interner.get key = some index ∧ used index = true := by
  have spec := reclaim_spec valid used
  rw [spec.1.get_iff, valid.get_iff, spec.2.1]
  cases inUse : used index with
  | true => simp
  | false => simp

end Interner

namespace Dictionary

/-! ## Operations -/

/-- `intern_entity`: unlike `internEntity` it goes on where the ids of literals begin. -/
def internEntityKey (dict : Dictionary) (key : Text) : Option (UInt32 × Dictionary) :=
  (dict.entities.intern key).map fun (entities, index) => (index, { dict with entities })

/-- `free_entity`; the next two are its siblings. -/
def freeEntity (dict : Dictionary) (key : Text) : Option UInt32 × Dictionary :=
  (dict.entityId key, { dict with entities := (dict.entities.freeKey key).1 })

def freeLiteral (dict : Dictionary) (key : Text) : Option UInt32 × Dictionary :=
  (dict.literalId key, { dict with literals := (dict.literals.freeKey key).1 })

def freePredicate (dict : Dictionary) (key : Text) : Option UInt32 × Dictionary :=
  (dict.predicateId key, { dict with predicates := (dict.predicates.freeKey key).1 })

inductive Op where
  | internEntity (key : Text)
  | internLiteral (key : Text)
  | internPredicate (key : Text)
  | freeEntity (key : Text)
  | freeLiteral (key : Text)
  | freePredicate (key : Text)
  /-- The ids that are still referenced. -/
  | reclaimUnused (entLit preds : UInt32 → Bool)

inductive Reply where
  | id (id : UInt32)
  | freed (id : Option UInt32)
  | count (count : Nat)

/-- A panic stops the machine. -/
def step (dict : Dictionary) : Op → Option (Reply × Dictionary)
  | .internEntity key => (dict.internEntityKey key).map fun (id, grown) => (.id id, grown)
  | .internLiteral key => (dict.internLiteral key).map fun (grown, id) => (.id id, grown)
  | .internPredicate key => (dict.internPredicate key).map fun (grown, id) => (.id id, grown)
  | .freeEntity key => some (.freed (dict.freeEntity key).1, (dict.freeEntity key).2)
  | .freeLiteral key => some (.freed (dict.freeLiteral key).1, (dict.freeLiteral key).2)
  | .freePredicate key => some (.freed (dict.freePredicate key).1, (dict.freePredicate key).2)
  | .reclaimUnused entLit preds =>
    some (.count (dict.reclaimUnused entLit preds).2, (dict.reclaimUnused entLit preds).1)

/-! ## Soundness -/

/-- Each space is a bijection, and no entity has the id of a literal. -/
structure Sound (dict : Dictionary) : Prop where
  entities : dict.entities.Bijection
  literals : dict.literals.Bijection
  predicates : dict.predicates.Bijection
  apart : ∀ entity literal id, dict.entityId entity = some id → dict.literalId literal ≠ some id

theorem Valid.sound {dict : Dictionary} (valid : dict.Valid) : dict.Sound where
  entities := valid.entities.bijection
  literals := valid.literals.bijection
  predicates := valid.predicates.bijection
  apart := by
    intro entity literal id isEntity isLiteral
    obtain ⟨index, found, rfl⟩ := Option.map_eq_some_iff.mp isLiteral
    have shift : (UInt32.ofNat literalFirstId).toNat = literalFirstId := rfl
    have below := valid.entities.index_lt isEntity
    have inside := valid.literals.index_lt found
    have entityBound := valid.entities_bounded
    have literalBound := valid.literals_bounded
    rw [UInt32.toNat_add, shift, Nat.mod_eq_of_lt (by omega)] at below
    omega

/-- A string has the id that it was given, and nothing else that lived had it. -/
def Handed (lookup : Dictionary → Text → Option UInt32) (before after : Dictionary) (key : Text)
    (id : UInt32) : Prop :=
  lookup after key = some id ∧ (∀ other, lookup before other = some id → other = key) ∧
    ∀ other, lookup after other = if other = key then some id else lookup before other

/-- A string has no id any more, and the others have theirs. -/
def Released (lookup : Dictionary → Text → Option UInt32) (before after : Dictionary)
    (key : Text) : Prop :=
  ∀ other, lookup after other = if other = key then none else lookup before other

/-- What is referenced stays and what is not goes. -/
def Retained (lookup : Dictionary → Text → Option UInt32) (before after : Dictionary)
    (used : UInt32 → Bool) : Prop :=
  ∀ key id, lookup after key = some id ↔ lookup before key = some id ∧ used id = true

/-- What an operation does to its space, and what it replies. -/
def Served (before : Dictionary) : Op → Reply → Dictionary → Prop
  | .internEntity key, .id id, after => Handed entityId before after key id
  | .internLiteral key, .id id, after => Handed literalId before after key id
  | .internPredicate key, .id id, after => Handed predicateId before after key id
  | .freeEntity key, .freed id, after =>
    id = before.entityId key ∧ Released entityId before after key
  | .freeLiteral key, .freed id, after =>
    id = before.literalId key ∧ Released literalId before after key
  | .freePredicate key, .freed id, after =>
    id = before.predicateId key ∧ Released predicateId before after key
  | .reclaimUnused entLit preds, .count count, after =>
    Retained entityId before after entLit ∧ Retained literalId before after entLit ∧
      Retained predicateId before after preds ∧
      count + after.entities.forward.length + after.literals.forward.length +
        after.predicates.forward.length = before.entities.forward.length +
        before.literals.forward.length + before.predicates.forward.length
  | _, _, _ => False

/-- A new entity that takes no freed id finds one below the literals. -/
def Roomy (dict : Dictionary) : Op → Prop
  | .internEntity key => dict.entityId key = none → dict.entities.free = [] →
      dict.entities.backward.length < literalFirstId
  | _ => True

/-! ## Steps -/

section Steps

variable {dict grown : Dictionary} {key : Text}

/-- Where there is room, the bound makes no difference. -/
theorem internEntityKey_eq (valid : dict.Valid) (roomy : dict.Roomy (.internEntity key)) :
    dict.internEntityKey key = (dict.internEntity key).map fun (grown, id) => (id, grown) := by
  rw [internEntityKey, internEntity]
  cases interned : dict.entities.intern key with
  | none => rfl
  | some pair =>
    obtain ⟨entities, index⟩ := pair
    have small : index.toNat < literalFirstId := by
      have bounded := valid.entities_bounded
      rcases Interner.intern_cases interned with ⟨known, -⟩ | ⟨unknown, -, ⟨stack, -⟩ | ⟨stack, -, room, rfl, -⟩⟩
      · exact (valid.entities.index_lt known).trans_le bounded
      · have hole := valid.entities.free_hole index (by rw [stack]; exact List.mem_cons_self)
        exact (List.getElem?_eq_some_iff.mp hole).1.trans_le bounded
      · rw [UInt32.toNat_ofNat_of_lt' room]
        exact roomy unknown stack
    simp only [Option.map_some, if_pos small]

theorem handed_of_intern {interner grown : Interner} {index : UInt32} (valid : interner.Valid)
    (interned : interner.intern key = some (grown, index)) :
    grown.get key = some index ∧ (∀ other, interner.get other = some index → other = key) ∧
      ∀ other, grown.get other = if other = key then some index else interner.get other := by
  have grownValid := valid.intern interned
  have own := Interner.get_intern_self interned
  refine ⟨own, fun other known => ?_, fun other => Interner.get_intern interned⟩
  have kept := Interner.get_intern_of_some interned known
  have same := (grownValid.get_iff _ _).mp kept
  rw [(grownValid.get_iff _ _).mp own] at same
  exact (Option.some.inj same).symm

theorem literalId_eq_some_iff {index : UInt32} :
    dict.literalId key = some (index + UInt32.ofNat literalFirstId) ↔
      dict.literals.get key = some index := by
  rw [literalId, Option.map_eq_some_iff]
  constructor
  · rintro ⟨other, found, same⟩
    rw [found, (UInt32.add_left_inj _).mp same]
  · exact fun found => ⟨index, found, rfl⟩

theorem handed_literal {index : UInt32} {literals : Interner} (valid : dict.literals.Valid)
    (interned : dict.literals.intern key = some (literals, index)) :
    Handed literalId dict { dict with literals } key (index + UInt32.ofNat literalFirstId) := by
  obtain ⟨own, unique, others⟩ := handed_of_intern valid interned
  refine ⟨literalId_eq_some_iff.mpr own, fun other known => ?_, fun other => ?_⟩
  · exact unique other (literalId_eq_some_iff.mp known)
  · change (literals.get other).map _ = _
    rw [others, literalId]
    split
    · rfl
    · rfl

theorem retained_literals (valid : dict.literals.Valid) (entLit preds : UInt32 → Bool) :
    Retained literalId dict (dict.reclaimUnused entLit preds).1 entLit := by
  intro key id
  have shifted : id = (id - UInt32.ofNat literalFirstId) + UInt32.ofNat literalFirstId :=
    (UInt32.sub_add_cancel id _).symm
  rw [shifted, literalId_eq_some_iff, literalId_eq_some_iff]
  exact Interner.get_reclaim valid _ key _

theorem valid_freeKey (valid : dict.Valid) (key : Text) :
    (dict.freeEntity key).2.Valid ∧ (dict.freeLiteral key).2.Valid ∧
      (dict.freePredicate key).2.Valid := by
  refine ⟨{ valid with entities := valid.entities.freeKey key, entities_bounded := ?_ },
    { valid with literals := valid.literals.freeKey key, literals_bounded := ?_ },
    { valid with predicates := valid.predicates.freeKey key }⟩
  · exact (Interner.length_freeKey _ key).le.trans valid.entities_bounded
  · have bounded := valid.literals_bounded
    have same := Interner.length_freeKey dict.literals key
    change (dict.literals.freeKey key).1.backward.length + literalFirstId ≤ 2 ^ 32
    omega

theorem released_literal (dict : Dictionary) (key : Text) :
    Released literalId dict (dict.freeLiteral key).2 key := by
  intro other
  change ((dict.literals.freeKey key).1.get other).map _ = _
  rw [Interner.get_freeKey, literalId]
  split
  · rfl
  · rfl

/-- What one operation does to a valid dictionary. -/
theorem step_spec (valid : dict.Valid) {op : Op} (roomy : dict.Roomy op) {reply : Reply}
    (taken : dict.step op = some (reply, grown)) : grown.Valid ∧ dict.Served op reply grown := by
  cases op with
  | internEntity key =>
    rw [step, internEntityKey_eq valid roomy, Option.map_map] at taken
    obtain ⟨⟨after, id⟩, interned, same⟩ := Option.map_eq_some_iff.mp taken
    cases same
    refine ⟨(internEntity_spec valid interned).1, ?_⟩
    rw [internEntity] at interned
    split at interned
    · rename_i entry
      split at interned
      · cases interned
        exact handed_of_intern valid.entities entry
      · cases interned
    · cases interned
  | internLiteral key =>
    obtain ⟨⟨after, id⟩, interned, same⟩ := Option.map_eq_some_iff.mp taken
    cases same
    refine ⟨(internLiteral_spec valid interned).1, ?_⟩
    rw [internLiteral] at interned
    split at interned
    · rename_i entry
      split at interned
      · cases interned
        exact handed_literal valid.literals entry
      · cases interned
    · cases interned
  | internPredicate key =>
    obtain ⟨⟨after, id⟩, interned, same⟩ := Option.map_eq_some_iff.mp taken
    cases same
    refine ⟨(internPredicate_spec valid interned).1, ?_⟩
    rw [internPredicate] at interned
    split at interned
    · rename_i entry
      cases interned
      exact handed_of_intern valid.predicates entry
    · cases interned
  | freeEntity key =>
    cases taken
    exact ⟨(valid_freeKey valid key).1, rfl, Interner.get_freeKey dict.entities key⟩
  | freeLiteral key =>
    cases taken
    exact ⟨(valid_freeKey valid key).2.1, rfl, released_literal dict key⟩
  | freePredicate key =>
    cases taken
    exact ⟨(valid_freeKey valid key).2.2, rfl, Interner.get_freeKey dict.predicates key⟩
  | reclaimUnused entLit preds =>
    cases taken
    refine ⟨valid.reclaimUnused entLit preds, Interner.get_reclaim valid.entities entLit,
      retained_literals valid.literals entLit preds, Interner.get_reclaim valid.predicates preds,
      ?_⟩
    have entities := Interner.reclaim_count valid.entities entLit
    have literals := Interner.reclaim_count valid.literals
      fun index => entLit (index + UInt32.ofNat literalFirstId)
    have predicates := Interner.reclaim_count valid.predicates preds
    rw [reclaimUnused]
    dsimp only
    omega

/-- In a run in which every new entity finds room below the literals, each space stays a bijection,
no entity has the id of a literal, and every operation does what it is there for. -/
theorem sound_of_roomy {events : List (Event Dictionary Op Reply)} {dict : Dictionary}
    (run : Execution step empty events dict)
    (roomy : ∀ event ∈ events, event.before.Roomy event.action) :
    dict.Sound ∧ ∀ event ∈ events, event.before.Served event.action event.output event.after := by
  have valid : ∀ {past : List (Event Dictionary Op Reply)} {state : Dictionary},
      Execution step empty past state → (∀ event ∈ past, event.before.Roomy event.action) →
      state.Valid := by
    intro past state earlier room
    exact earlier.keeps Valid valid_empty fun event member taken before =>
      (step_spec before (room event member) taken).1
  refine ⟨(valid run roomy).sound, fun event member => ?_⟩
  obtain ⟨past, later, parts⟩ := List.append_of_mem member
  obtain ⟨earlier, taken, -⟩ := run.around parts
  have before := valid earlier fun other isPast =>
    roomy other (parts ▸ List.mem_append_left _ isPast)
  exact (step_spec before (roomy event member) taken).2

end Steps

theorem sound_of_roomy_reuse :
    (lastState step empty [.internEntity ['a'], .internLiteral ['b'], .freeEntity ['a'],
      .internEntity ['c']]).Sound := by
  have run := @execution_trace _ _ _ step empty [.internEntity ['a'], .internLiteral ['b'],
    .freeEntity ['a'], .internEntity ['c']]
  have short : ∀ event ∈ trace step empty [.internEntity ['a'], .internLiteral ['b'],
      .freeEntity ['a'], .internEntity ['c']],
      event.before.entities.backward.length < literalFirstId := by decide
  refine (sound_of_roomy run fun event member => ?_).1
  cases action : event.action with
  | internEntity key => exact fun _ _ => short event member
  | _ => trivial

/-! ## Overflow -/

/-- The dictionary after so many entities: the strings of one letter, by length. -/
structure Filled (dict : Dictionary) (count : Nat) : Prop where
  length : dict.entities.backward.length = count
  free : dict.entities.free = []
  literals : dict.literals = .empty
  known : ∀ size < count, dict.entityId (List.replicate size 'a') = some (UInt32.ofNat size)
  unknown : ∀ size, count ≤ size → dict.entityId (List.replicate size 'a') = none

theorem exists_filled {count : Nat} (small : count ≤ 2 ^ 32) :
    ∃ events dict, Execution step empty events dict ∧ dict.Filled count := by
  induction count with
  | zero =>
    refine ⟨[], empty, .nil, rfl, rfl, rfl, fun size impossible => ?_, fun _ _ => rfl⟩
    cases impossible
  | succ count induction =>
    obtain ⟨events, dict, run, filled⟩ := induction (by omega)
    have absent : dict.entities.get (List.replicate count 'a') = none :=
      filled.unknown count (Nat.le_refl _)
    have room : dict.entities.backward.length < 2 ^ 32 := by
      rw [filled.length]
      omega
    let entities : Interner := {
      forward := (List.replicate count 'a', UInt32.ofNat dict.entities.backward.length) ::
        dict.entities.forward
      backward := dict.entities.backward ++ [some (List.replicate count 'a')]
      free := [] }
    have interned : dict.entities.intern (List.replicate count 'a') =
        some (entities, UInt32.ofNat dict.entities.backward.length) := by
      rw [Interner.intern, absent, filled.free]
      exact if_pos room
    have taken : dict.step (.internEntity (List.replicate count 'a')) =
        some (.id (UInt32.ofNat dict.entities.backward.length), { dict with entities }) := by
      rw [step, internEntityKey, interned]
      rfl
    have lookup : ∀ size, ({ dict with entities } : Dictionary).entityId (List.replicate size 'a') =
        if size = count then some (UInt32.ofNat count)
        else dict.entityId (List.replicate size 'a') := by
      intro size
      refine (Interner.get_intern interned).trans ?_
      rw [filled.length]
      by_cases same : size = count
      · rw [if_pos same, same, if_pos rfl]
      · have different : List.replicate size 'a' ≠ List.replicate count 'a' := by
          intro equal
          have lengths := congrArg List.length equal
          rw [List.length_replicate, List.length_replicate] at lengths
          exact same lengths
        rw [if_neg same, if_neg different]
        rfl
    refine ⟨_, _, run.snoc taken, ?_, rfl, filled.literals, fun size below => ?_,
      fun size above => ?_⟩
    · change (dict.entities.backward ++ [some (List.replicate count 'a')]).length = count + 1
      rw [List.length_append, filled.length]
      rfl
    · rw [lookup]
      split
      · rename_i same
        rw [same]
      · exact filled.known size (by omega)
    · rw [lookup, if_neg (by omega)]
      exact filled.unknown size (by omega)

/-- One entity more than there are ids below the literals, and it shares its id with a literal. -/
theorem not_sound : ¬ ∀ (events : List (Event Dictionary Op Reply)) (dict : Dictionary),
    Execution step empty events dict → dict.Sound := by
  intro sound
  obtain ⟨events, dict, run, filled⟩ :=
    exists_filled (show literalFirstId + 1 ≤ 2 ^ 32 by decide)
  have interned : dict.literals.intern [] = some ({
      forward := [([], 0)]
      backward := [some []]
      free := [] }, 0) := by
    rw [filled.literals]
    rfl
  have taken : dict.step (.internLiteral []) = some (.id (0 + UInt32.ofNat literalFirstId), {
      dict with literals := { forward := [([], 0)], backward := [some []], free := [] } }) := by
    have small : (0 : UInt32).toNat + literalFirstId < 2 ^ 32 := by decide
    rw [step, internLiteral, interned]
    dsimp only
    rw [if_pos small]
    rfl
  have last := (sound _ _ (run.snoc taken)).apart (List.replicate literalFirstId 'a') []
    (UInt32.ofNat literalFirstId) (filled.known literalFirstId (Nat.lt_succ_self _))
  exact last (congrArg some (UInt32.zero_add _))

end Dictionary

end GStore.Dict
