import GStore.Kvstore.IsArray
import GStore.Kvstore.TreeOverflow

/-! # Arrays as maps

Any number of arrays of both kinds over one pager, against the values that were put there last. -/

namespace GStore.Kvstore.Arrays

open PageM Plan IsArray

/-! ## Calls -/

inductive Key where
  | id (key : UInt32)
  | text (key : Bytes)
deriving DecidableEq

inductive Kind where
  | ids
  | texts
deriving DecidableEq

def Key.kind : Key → Kind
  | .id _ => .ids
  | .text _ => .texts

def Key.Addressable : Key → Prop
  | .id key => Plan.Addressable key.toNat
  | .text _ => True

/-- What each key of each array was given last. -/
abbrev Contents := RootSlot → Key → Option Bytes

def get (array : RootSlot) : Key → PageM (Option Bytes)
  | .id key => (IvArray.mk array).get key
  | .text key => (IsArray.mk ⟨array⟩).get key

inductive Call where
  | insert (array : RootSlot) (key : Key) (val : Bytes)
  | delete (array : RootSlot) (key : Key)

inductive Answer where
  | inserted
  | deleted (present : Bool)
deriving DecidableEq

namespace Call

def array : Call → RootSlot
  | .insert array _ _ => array
  | .delete array _ => array

def key : Call → Key
  | .insert _ key _ => key
  | .delete _ key => key

/-- What the call is to leave at its key. -/
def result : Call → Option Bytes
  | .insert _ _ val => some val
  | .delete _ _ => none

def program : Call → PageM Answer
  | .insert array (.id key) val => do
    (IvArray.mk array).insert key val
    return .inserted
  | .insert array (.text key) val => do
    (IsArray.mk ⟨array⟩).insert key val
    return .inserted
  | .delete array (.id key) => do
    let present ← (IvArray.mk array).delete key
    return .deleted present
  | .delete array (.text key) => do
    let present ← (IsArray.mk ⟨array⟩).delete key
    return .deleted present

/-- The contents after a call that returns. -/
def settle (call : Call) (contents : Contents) : Contents :=
  Function.update contents call.array
    (Function.update (contents call.array) call.key call.result)

end Call

structure State where
  heap : Heap
  contents : Contents

/-- A call that fails puts nothing there and takes nothing away. -/
def State.step (state : State) (call : Call) : State where
  heap := (call.program.run state.heap).2
  contents :=
    match (call.program.run state.heap).1 with
    | .ok _ => call.settle state.contents
    | .error _ => state.contents

/-- What the array has where the key goes, and what an insertion makes of it. -/
inductive Payloads (contents : Key → Option Bytes) (val : Bytes) :
    Key → Option Bytes → Bytes → Prop
  | id (key : UInt32) : Payloads contents val (.id key) (contents (.id key)) val
  | text {key : Bytes} {listed : List (Bytes × Bytes)}
      (lists : Lists (fun key => contents (.text key)) (bucketOf key).toNat listed) :
      Payloads contents val (.text key) (payloadOf listed) (upsertEntry (IsArray.pack listed) key val)

/-- Where the old payload has a chain, its pages and the supply are enough for the new one. -/
def Spares (state : State) : Call → Prop
  | .insert array key val => ∀ old new,
      Payloads (state.contents array) val key (some old) new → inlineCap < old.length →
        IvArray.spillPages new.length ≤
          IvArray.spillPages old.length + state.heap.supply.length
  | .delete _ _ => True

/-- The states that calls lead to from arrays without pages. -/
inductive Reached (kinds : RootSlot → Option Kind) : State → Prop
  | start {heap : Heap} (valid : heap.Valid)
      (empty : ∀ array, kinds array ≠ none → heap.roots array = 0) :
      Reached kinds ⟨heap, fun _ _ => none⟩
  | step {state : State} (reached : Reached kinds state) (call : Call)
      (kind : kinds call.array = some call.key.kind) (spares : Spares state call) :
      Reached kinds (state.step call)

/-! ## What the pages show -/

/-- The values of an integer-keyed array are the contents of an array of this kind. -/
def Shows (value : Nat → Option Bytes) (contents : Key → Option Bytes) : Kind → Prop
  | .ids => ∀ key : UInt32, Plan.Addressable key.toNat → value key.toNat = contents (.id key)
  | .texts => Buckets value fun key => contents (.text key)

/-- The heap holds a plan whose values are the contents. -/
structure Stands (kinds : RootSlot → Option Kind) (state : State) (plan : Plan) : Prop where
  valid : state.heap.Valid
  held : plan.Held (fun array => kinds array ≠ none) state.heap
  visible : ∀ array kind, kinds array = some kind →
    Shows (fun index => plan.value (array, index)) (state.contents array) kind

variable {kinds : RootSlot → Option Kind} {state : State} {plan grown : Plan}
  {array : RootSlot} {key : Key} {kind : Kind}

theorem State.step_of_returns {call : Call} {answer : Answer} {after : Heap}
    (returns : call.program.Returns state.heap answer after) :
    state.step call = ⟨after, call.settle state.contents⟩ := by
  rw [PageM.Returns] at returns
  rw [State.step, returns]

theorem State.step_of_stops {call : Call} {error : StoreError} {after : Heap}
    (stops : call.program.Stops state.heap error after) :
    state.step call = ⟨after, state.contents⟩ := by
  rw [PageM.Stops] at stops
  rw [State.step, stops]

/-- One value and the contents of its array change together. -/
theorem Stands.shows_update (stands : Stands kinds state plan) {index : Nat}
    {payload : Option Bytes} {contents : Key → Option Bytes} (isKind : kinds array = some kind)
    (value : grown.value = Function.update plan.value (array, index) payload)
    (here : Shows (Function.update (fun index => plan.value (array, index)) index payload)
      contents kind) :
    ∀ other kind, kinds other = some kind →
      Shows (fun index => grown.value (other, index))
        (Function.update state.contents array contents other) kind := by
  intro other otherKind otherIs
  by_cases same : other = array
  · have values : (fun index => grown.value (array, index)) =
        Function.update (fun index => plan.value (array, index)) index payload := by
      funext further
      rw [value]
      by_cases equal : further = index
      · rw [equal, Function.update_self, Function.update_self]
      · have apart : ((array, further) : Cell) ≠ (array, index) := by
          intro pairs
          exact equal (congrArg Prod.snd pairs)
        rw [Function.update_of_ne apart, Function.update_of_ne equal]
    rw [same, isKind, Option.some.injEq] at otherIs
    rw [same, values, Function.update_self, ← otherIs]
    exact here
  · have values : (fun index => grown.value (other, index)) =
        fun index => plan.value (other, index) := by
      funext further
      have apart : ((other, further) : Cell) ≠ (array, index) := by
        intro pairs
        exact same (congrArg Prod.fst pairs)
      rw [value, Function.update_of_ne apart]
    rw [values, Function.update_of_ne same]
    exact stands.visible other otherKind otherIs

/-- A call that changes no value. -/
theorem Stands.of_same {after : Heap} (stands : Stands kinds state plan)
    (confined : Confined (fun array => kinds array ≠ none) state.heap plan after grown)
    (value : grown.value = plan.value) : Stands kinds ⟨after, state.contents⟩ grown := by
  refine ⟨confined.valid, confined.held, ?_⟩
  rw [value]
  exact stands.visible

theorem shows_ids_update {value : Nat → Option Bytes} {contents : Key → Option Bytes}
    (shown : Shows value contents .ids) (key : UInt32) (result : Option Bytes) :
    Shows (Function.update value key.toNat result) (Function.update contents (.id key) result)
      .ids := by
  intro other addressable
  by_cases same : other = key
  · rw [same, Function.update_self, Function.update_self]
  · have apart : other.toNat ≠ key.toNat := fun equal => same (UInt32.toNat_inj.mp equal)
    have different : Key.id other ≠ Key.id key := by
      rintro ⟨⟩
      exact same rfl
    rw [Function.update_of_ne apart, Function.update_of_ne different]
    exact shown other addressable

/-- The texts of the contents after a call. -/
theorem texts_update (contents : Key → Option Bytes) (key : Bytes) (result : Option Bytes) :
    (fun other => Function.update contents (.text key) result (.text other)) =
      Function.update (fun other => contents (.text other)) key result := by
  funext other
  by_cases same : other = key
  · rw [same, Function.update_self, Function.update_self]
  · have different : Key.text other ≠ Key.text key := by
      rintro ⟨⟩
      exact same rfl
    rw [Function.update_of_ne different, Function.update_of_ne same]

/-! ## One call -/

/-- What an insertion does. -/
theorem Stands.insert_runs (stands : Stands kinds state plan)
    (isKind : kinds array = some key.kind) {val : Bytes}
    (spares : Spares state (.insert array key val)) :
    ∃ grown, Stands kinds (state.step (.insert array key val)) grown ∧
      ((∃ after, (Call.insert array key val).program.Returns state.heap .inserted after) ∨
        (key.Addressable → ∃ old new, Payloads (state.contents array) val key old new ∧
          (UInt32.size ≤ new.length ∨
            state.heap.supply.length < IvArray.spillPages new.length + 3))) := by
  have member : kinds array ≠ none := by
    rw [isKind]
    exact Option.some_ne_none _
  have shown := stands.visible array key.kind isKind
  cases key with
  | id key =>
    by_cases addressable : Plan.Addressable key.toNat
    · have found : plan.value (array, key.toNat) = state.contents array (.id key) :=
        shown key addressable
      obtain ⟨after, grown, confined, ⟨returns, -, value⟩ | ⟨error, stops, value, why⟩⟩ :=
        stands.held.put_runs stands.valid member addressable val (by
          intro old present
          apply spares old val
          rw [← present, found]
          exact .id key)
      · have whole : (Call.insert array (.id key) val).program.Returns state.heap .inserted
            after := returns.bind (returns_pure _ _)
        refine ⟨grown, ?_, .inl ⟨after, whole⟩⟩
        rw [State.step_of_returns whole]
        exact ⟨confined.valid, confined.held, stands.shows_update isKind value
          (shows_ids_update shown key (some val))⟩
      · have whole : (Call.insert array (.id key) val).program.Stops state.heap error after :=
          stops.bind _
        refine ⟨grown, ?_, .inr fun _ => ⟨_, _, .id key, why⟩⟩
        rw [State.step_of_stops whole]
        exact stands.of_same confined value
    · have stops : ∃ error, ((IvArray.mk array).insert key val).Stops state.heap error
          state.heap := by
        by_cases short : val.length < UInt32.size
        · exact ⟨_, insert_beyond _ _ addressable short⟩
        · exact ⟨_, insert_too_large _ key _ (not_lt.mp short)⟩
      rcases stops with ⟨error, stops⟩
      have whole : (Call.insert array (.id key) val).program.Stops state.heap error
          state.heap := stops.bind _
      refine ⟨plan, ?_, .inr fun can => absurd can addressable⟩
      rw [State.step_of_stops whole]
      exact stands.of_same (stands.held.extends_self stands.valid).toConfined rfl
  | text key =>
    rcases shown (bucketOf key).toNat with ⟨listed, lists, shorts, found⟩
    obtain ⟨after, grown, confined, ⟨returns, shortsAfter, value⟩ | ⟨error, stops, value, why⟩⟩ :=
      IsArray.insert_runs stands.held stands.valid member shorts found val (by
        intro long
        have nonempty : listed ≠ [] := by
          rintro rfl
          cases long
        apply spares (IsArray.pack listed) _ _ long
        have payload : payloadOf listed = some (IsArray.pack listed) := if_neg nonempty
        rw [← payload]
        exact .text lists)
    · have whole : (Call.insert array (.text key) val).program.Returns state.heap .inserted
          after := returns.bind (returns_pure _ _)
      refine ⟨grown, ?_, .inl ⟨after, whole⟩⟩
      rw [State.step_of_returns whole]
      refine ⟨confined.valid, confined.held, stands.shows_update isKind value ?_⟩
      change Buckets _ fun other =>
        Function.update (state.contents array) (.text key) (some val) (.text other)
      rw [texts_update]
      exact shown.update (lists.upsert val) shortsAfter
    · have whole : (Call.insert array (.text key) val).program.Stops state.heap error after :=
        stops.bind _
      refine ⟨grown, ?_, .inr fun _ => ⟨_, _, .text lists, why⟩⟩
      rw [State.step_of_stops whole]
      exact stands.of_same confined value

/-- What a deletion does. -/
theorem Stands.delete_runs (stands : Stands kinds state plan)
    (isKind : kinds array = some key.kind) :
    ∃ grown, Stands kinds (state.step (.delete array key)) grown ∧
      (key.Addressable → ∃ after, (Call.delete array key).program.Returns state.heap
        (.deleted (state.contents array key).isSome) after) := by
  have member : kinds array ≠ none := by
    rw [isKind]
    exact Option.some_ne_none _
  have shown := stands.visible array key.kind isKind
  cases key with
  | id key =>
    by_cases addressable : Plan.Addressable key.toNat
    · have found : plan.value (array, key.toNat) = state.contents array (.id key) :=
        shown key addressable
      obtain ⟨after, grown, returns, confined, value⟩ :=
        stands.held.delete_runs stands.valid member addressable
      have whole : (Call.delete array (.id key)).program.Returns state.heap
          (.deleted (state.contents array (.id key)).isSome) after := by
        rw [← found]
        exact returns.bind (returns_pure _ _)
      refine ⟨grown, ?_, fun _ => ⟨after, whole⟩⟩
      rw [State.step_of_returns whole]
      exact ⟨confined.valid, confined.held,
        stands.shows_update isKind value (shows_ids_update shown key none)⟩
    · have whole : (Call.delete array (.id key)).program.Stops state.heap
          (.keyBeyondCapacity key) state.heap := (delete_beyond _ _ addressable).bind _
      refine ⟨plan, ?_, fun can => absurd can addressable⟩
      rw [State.step_of_stops whole]
      exact stands.of_same (stands.held.extends_self stands.valid).toConfined rfl
  | text key =>
    rcases shown (bucketOf key).toNat with ⟨listed, lists, shorts, found⟩
    obtain ⟨after, grown, returns, confined, value⟩ :=
      IsArray.delete_runs stands.held stands.valid member lists shorts found
    have whole : (Call.delete array (.text key)).program.Returns state.heap
        (.deleted (state.contents array (.text key)).isSome) after :=
      returns.bind (returns_pure _ _)
    refine ⟨grown, ?_, fun _ => ⟨after, whole⟩⟩
    rw [State.step_of_returns whole]
    refine ⟨confined.valid, confined.held, stands.shows_update isKind value ?_⟩
    change Buckets _ fun other =>
      Function.update (state.contents array) (.text key) none (.text other)
    rw [texts_update]
    apply shown.update lists.remove
    intro entry within
    exact shorts entry (mem_without.mp within).1

/-! ## Runs -/

/-- The plan of arrays without pages. -/
def emptyPlan : Plan := ⟨fun _ => 0, fun _ => none, fun _ => [], fun _ => none⟩

theorem held_emptyPlan {heap : Heap} {arrays : RootSlot → Prop}
    (empty : ∀ array, arrays array → heap.roots array = 0) : emptyPlan.Held arrays heap where
  root := empty
  level := fun _ present => absurd rfl present
  page := fun _ present => absurd rfl present
  parent := fun _ present => absurd rfl present
  directory := by rintro cell val ⟨⟩
  short := by rintro cell val ⟨⟩
  carries := fun _ => IvArray.carries_none heap
  owner_table := fun _ present => absurd rfl present
  owner_chain := by rintro cell id ⟨⟩

theorem stands_start {heap : Heap} (valid : heap.Valid)
    (empty : ∀ array, kinds array ≠ none → heap.roots array = 0) :
    Stands kinds ⟨heap, fun _ _ => none⟩ emptyPlan := by
  refine ⟨valid, held_emptyPlan empty, ?_⟩
  intro array kind _
  cases kind with
  | ids => exact fun _ _ => rfl
  | texts => exact buckets_none

theorem Reached.stands (reached : Reached kinds state) : ∃ plan, Stands kinds state plan := by
  induction reached with
  | start valid empty => exact ⟨emptyPlan, stands_start valid empty⟩
  | @step state reached call kind spares induction =>
    rcases induction with ⟨plan, stands⟩
    cases call with
    | insert array key val =>
      obtain ⟨grown, after, -⟩ := stands.insert_runs kind spares
      exact ⟨grown, after⟩
    | delete array key =>
      obtain ⟨grown, after, -⟩ := stands.delete_runs kind
      exact ⟨grown, after⟩

theorem Stands.returns_get (stands : Stands kinds state plan)
    (isKind : kinds array = some key.kind) (addressable : key.Addressable) :
    (get array key).Returns state.heap (state.contents array key) state.heap := by
  have member : kinds array ≠ none := by
    rw [isKind]
    exact Option.some_ne_none _
  have shown := stands.visible array key.kind isKind
  cases key with
  | id key =>
    have found : plan.value (array, key.toNat) = state.contents array (.id key) :=
      shown key addressable
    rw [← found]
    exact stands.held.returns_get stands.valid member addressable
  | text key => exact IsArray.returns_get stands.held stands.valid member shown key

/-- Arrays are maps. In every state that calls lead to, where no insertion finds that the chain
it replaces and the free pages together are too few for the chain it needs, a key has what it was
given last, a deletion answers whether the key is there, and an insertion with pages and lengths
to spare returns. What a call leaves at other keys and in other arrays is in the contents. -/
theorem arrays_are_maps (kinds : RootSlot → Option Kind) (state : State)
    (reached : Reached kinds state) :
    (∀ array key, kinds array = some key.kind → key.Addressable →
      (get array key).Returns state.heap (state.contents array key) state.heap) ∧
    (∀ array key, kinds array = some key.kind → key.Addressable →
      ∃ after, (Call.delete array key).program.Returns state.heap
        (.deleted (state.contents array key).isSome) after) ∧
    ∀ array key val, kinds array = some key.kind → key.Addressable →
      (∀ old new, Payloads (state.contents array) val key old new →
        new.length < UInt32.size ∧
          IvArray.spillPages new.length + 3 ≤ state.heap.supply.length) →
      ∃ after, (Call.insert array key val).program.Returns state.heap .inserted after := by
  rcases reached.stands with ⟨plan, stands⟩
  refine ⟨fun array key kind can => stands.returns_get kind can, ?_, ?_⟩
  · intro array key kind can
    obtain ⟨grown, -, answers⟩ := stands.delete_runs kind
    exact answers can
  · intro array key val kind can enough
    have spares : Spares state (.insert array key val) := by
      intro old new payloads _
      have plenty := (enough _ _ payloads).2
      omega
    obtain ⟨grown, -, returns | fails⟩ := stands.insert_runs kind spares
    · exact returns
    · rcases fails can with ⟨old, new, payloads, why⟩
      have plenty := enough _ _ payloads
      omega

/-! ## A value that is lost -/

/-- One array of each kind. -/
def bothKinds (slot : RootSlot) : Option Kind :=
  if slot = 0 then some .ids else if slot = 1 then some .texts else none

def fresh : State := ⟨freshHeap, fun _ _ => none⟩

theorem reached_fresh : Reached bothKinds fresh := .start valid_freshHeap fun _ _ => rfl

theorem spares_fresh (array : RootSlot) (key : Key) (val : Bytes) :
    Spares fresh (.insert array key val) := by
  intro old new payloads long
  exfalso
  generalize present : some old = payload at payloads
  cases payloads with
  | id key => cases present
  | @text key listed lists =>
    have nothing : listed = [] := by
      apply List.eq_nil_iff_forall_not_mem.mpr
      rintro ⟨key, val⟩ member
      have known := ((lists.mem key val).mp member).1
      cases known
    rw [nothing] at present
    cases present

/-- A short value and then what is found. -/
theorem arrays_are_maps_short :
    (get 0 (.id 7)).Returns (fresh.step (.insert 0 (.id 7) [1, 2, 3])).heap (some [1, 2, 3])
      (fresh.step (.insert 0 (.id 7) [1, 2, 3])).heap := by
  have addressable : (Key.id 7).Addressable := by
    change 7 / slotsPerDir / fanout < fanout
    decide
  have kind : bothKinds 0 = some (Key.id 7).kind := rfl
  have inserted := (arrays_are_maps bothKinds fresh reached_fresh).2.2 0 (.id 7) [1, 2, 3] kind
    addressable (by
      intro old new payloads
      cases payloads
      decide)
  rcases inserted with ⟨after, returns⟩
  have found := (arrays_are_maps bothKinds _
    (reached_fresh.step (.insert 0 (.id 7) [1, 2, 3]) kind (spares_fresh _ _ _))).1 0 (.id 7)
    kind addressable
  rw [State.step_of_returns returns] at found ⊢
  exact found

/-- A value with a chain of one page, and one that needs three. -/
def chainedOld : Bytes := List.replicate 200 1

def chainedNew : Bytes := List.replicate 9000 2

theorem addressable_zero : Plan.Addressable (0 : UInt32).toNat := by
  change (0 : UInt32).toNat / slotsPerDir / fanout < fanout
  decide

/-- Five pages are enough for the first value and its way. -/
theorem fresh_old_runs : ∃ (after : Heap) (grown : Plan),
    (Call.insert 0 (.id 0) chainedOld).program.Returns freshHeap .inserted after ∧
      after.Valid ∧ grown.Held (fun array => bothKinds array ≠ none) after ∧
      grown.value ((0 : RootSlot), (0 : UInt32).toNat) = some chainedOld ∧
      after.supply.length ≤ 1 := by
  have length : chainedOld.length = 200 := List.length_replicate
  have pages : IvArray.spillPages 200 = 1 := by decide
  have member : bothKinds 0 ≠ none := by decide
  have addressable := addressable_zero
  have held := @held_emptyPlan freshHeap (fun array => bothKinds array ≠ none) fun _ _ => rfl
  obtain ⟨after, grown, confined, ⟨returns, -, value⟩ | ⟨error, stops, -, why⟩⟩ :=
    held.put_runs valid_freshHeap member addressable chainedOld (by rintro old ⟨⟩)
  · have found : grown.value ((0 : RootSlot), (0 : UInt32).toNat) = some chainedOld := by
      rw [value, Function.update_self]
    refine ⟨after, grown, returns.bind (returns_pure _ _), confined.valid, confined.held, found, ?_⟩
    have present := confined.held.directory _ _ found
    have above := @Held.above _ _ _ ((0 : RootSlot), (0 : UInt32).toNat) confined.held addressable
      present
    have distinct := confined.held.nodup_pages confined.valid addressable present
    have carries := confined.held.carries ((0 : RootSlot), (0 : UInt32).toNat)
    rw [found] at carries
    have count := carries.length
    have within : ∀ id, grown.Owns id ∨ id ∈ after.supply → id ∈ freshHeap.supply := by
      intro id inside
      rcases confined.pages id inside with (⟨place, same, present⟩ | ⟨cell, absurd⟩) | free
      · exact absurd same.symm present
      · cases absurd
      · exact free
    have bound := (List.subperm_of_subset distinct (by
      intro id inside
      apply within
      rcases List.mem_append.mp inside with path | rest
      · left
        left
        rcases List.mem_cons.mp path with same | path
        · exact ⟨_, same.symm, same ▸ above.1⟩
        · rcases List.mem_cons.mp path with same | path
          · exact ⟨_, same.symm, same ▸ above.2⟩
          · have same := List.mem_singleton.mp path
            exact ⟨_, same.symm, same ▸ present⟩
      · rcases List.mem_append.mp rest with chained | free
        · exact .inl (.inr ⟨_, chained⟩)
        · exact .inr free)).length_le
    rw [List.length_append, List.length_append, count, length, pages] at bound
    have five : freshHeap.supply.length = 5 := rfl
    simp only [List.length_cons, List.length_nil] at bound
    omega
  · exfalso
    have five : freshHeap.supply.length = 5 := rfl
    have size : UInt32.size = 4294967296 := rfl
    rw [length, pages, five, size] at why
    omega

/-- The second insertion fails for want of pages, and the array has zeros in place of the value
that it was given. -/
theorem old_value_lost : ∃ state, Reached bothKinds state ∧
    state.contents 0 (.id 0) = some chainedOld ∧
    (state.step (.insert 0 (.id 0) chainedNew)).contents 0 (.id 0) = some chainedOld ∧
    (get 0 (.id 0)).Returns (state.step (.insert 0 (.id 0) chainedNew)).heap
      (some (List.replicate 200 0)) (state.step (.insert 0 (.id 0) chainedNew)).heap ∧
    (List.replicate 200 0 : Bytes) ≠ chainedOld := by
  have length : chainedOld.length = 200 := List.length_replicate
  have newLength : chainedNew.length = 9000 := List.length_replicate
  obtain ⟨after, grown, inserting, valid, held, found, few⟩ := fresh_old_runs
  have stepped := @State.step_of_returns fresh _ _ _ inserting
  have known : (fresh.step (.insert 0 (.id 0) chainedOld)).contents 0 (.id 0) =
      some chainedOld := by
    rw [stepped]
    rfl
  obtain ⟨lost, stops, reading⟩ := held.insert_loses valid (by decide) addressable_zero found
    (by rw [length]; decide) (by rw [length]; decide) (by rw [newLength]; decide) (by
      have one : IvArray.spillPages 200 = 1 := by decide
      have three : IvArray.spillPages 9000 = 3 := by decide
      rw [length, newLength, one, three]
      omega)
  have failing : (Call.insert 0 (.id 0) chainedNew).program.Stops
      (fresh.step (.insert 0 (.id 0) chainedOld)).heap .pageCountOverflow lost := by
    rw [stepped]
    exact stops.bind _
  have again := State.step_of_stops failing
  have still : ((fresh.step (.insert 0 (.id 0) chainedOld)).step
      (.insert 0 (.id 0) chainedNew)).contents 0 (.id 0) = some chainedOld := by
    rw [again]
    dsimp only
    exact known
  refine ⟨_, reached_fresh.step (.insert 0 (.id 0) chainedOld) rfl (spares_fresh _ _ _), known,
    still, ?_, ?_⟩
  · rw [again, ← length]
    exact reading
  · intro same
    have equal := (List.replicate_inj.mp same).2
    revert equal
    decide

end GStore.Kvstore.Arrays
