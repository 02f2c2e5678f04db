import GStore.Foundation.SortedSlice
import Mathlib.Order.WithBot

/-! # Search trees of one depth

Multi-way search trees in which every leaf lies at the same depth. A block is a
labelled list of items. In a leaf an item is a key with its value; in a branch it is
a child with a lower bound of the keys below it. The first bound of a branch is the
branch's own lower bound, so both kinds of block are cut and joined the same way:
splitting, merging and moving an item between neighbours all cut one list of items
at another place. -/

namespace GStore.SearchTree

open SortedSlice

structure Block (Key Label Payload : Type) where
  label : Label
  items : List (Key × Payload)

variable (Key Value Label : Type)

/-- What the items of a block at the given height hold. -/
def Payload : Nat → Type
  | 0 => Value
  | height + 1 => Block Key Label (Payload height)

abbrev Tree (height : Nat) : Type := Block Key Label (Payload Key Value Label height)

variable {Key Value Label}

/-- The items at one height. -/
abbrev Items (Key Value Label : Type) (height : Nat) : Type :=
  List (Key × Payload Key Value Label height)

/-- The entries below a list of items, in order. -/
@[grind =] def itemEntries : (height : Nat) → Items Key Value Label height → List (Key × Value)
  | 0, items => items
  | height + 1, items => items.flatMap fun item => itemEntries height item.2.items

def Block.entries {height : Nat} (tree : Tree Key Value Label height) : List (Key × Value) :=
  itemEntries height tree.items

/-- The labels below a list of items, each branch before its children. -/
@[grind =] def itemLabels : (height : Nat) → Items Key Value Label height → List Label
  | 0, _ => []
  | height + 1, items =>
    items.flatMap fun item => item.2.label :: itemLabels height item.2.items

def Block.labels {height : Nat} (tree : Tree Key Value Label height) : List Label :=
  tree.label :: itemLabels height tree.items

@[simp] theorem itemEntries_append (height : Nat) (left right : Items Key Value Label height) :
    itemEntries height (left ++ right) =
      itemEntries height left ++ itemEntries height right := by
  cases height with
  | zero => rfl
  | succ height => simp [itemEntries]

theorem itemEntries_cons (height : Nat) (item : Key × Payload Key Value Label height)
    (rest : Items Key Value Label height) :
    itemEntries height (item :: rest) = itemEntries height [item] ++ itemEntries height rest :=
  itemEntries_append height [item] rest

@[simp] theorem itemEntries_nil (height : Nat) :
    itemEntries height ([] : Items Key Value Label height) = [] := by
  cases height <;> rfl

@[simp] theorem itemEntries_cons_succ (height : Nat)
    (item : Key × Payload Key Value Label (height + 1))
    (rest : Items Key Value Label (height + 1)) :
    itemEntries (height + 1) (item :: rest) =
      itemEntries height item.2.items ++ itemEntries (height + 1) rest := rfl

@[simp] theorem itemLabels_append (height : Nat) (left right : Items Key Value Label height) :
    itemLabels height (left ++ right) = itemLabels height left ++ itemLabels height right := by
  cases height with
  | zero => rfl
  | succ height => simp [itemLabels]

@[simp] theorem itemLabels_nil (height : Nat) :
    itemLabels height ([] : Items Key Value Label height) = [] := by
  cases height <;> rfl

@[simp] theorem itemLabels_cons_succ (height : Nat)
    (item : Key × Payload Key Value Label (height + 1))
    (rest : Items Key Value Label (height + 1)) :
    itemLabels (height + 1) (item :: rest) =
      item.2.label :: itemLabels height item.2.items ++ itemLabels (height + 1) rest := rfl

/-! ## Order -/

/-- The bound that the items before a list see: the first bound of `items`, else `high`. -/
def bound {β : Type} : List (Key × β) → WithTop Key → WithTop Key
  | [], high => high
  | item :: _, _ => item.1

@[simp] theorem bound_append {β : Type} (left right : List (Key × β)) (high : WithTop Key) :
    bound (left ++ right) high = bound left (bound right high) := by
  cases left <;> rfl

section Order

variable [LinearOrder Key]

/-- Each item lies between its own bound and the next one. -/
@[grind =] def Spans {β : Type} (within : Key → WithTop Key → β → Prop) :
    List (Key × β) → WithTop Key → Prop
  | [], _ => True
  | item :: rest, high =>
    within item.1 (bound rest high) item.2 ∧ (item.1 : WithTop Key) ≤ bound rest high ∧
      Spans within rest high

/-- The items are a search tree for the keys from `low` on and below `high`. -/
@[grind =] def Ordered : (height : Nat) → Key → WithTop Key → Items Key Value Label height → Prop
  | 0, low, high, items =>
    items.Pairwise (fun left right => left.1 < right.1) ∧
      ∀ item ∈ items, low ≤ item.1 ∧ (item.1 : WithTop Key) < high
  | height + 1, low, high, items =>
    (items.head?).map Prod.fst = some low ∧
      Spans (fun low high child => Ordered height low high child.items) items high

theorem spans_append {β : Type} {within : Key → WithTop Key → β → Prop}
    {left right : List (Key × β)} {high : WithTop Key} :
    Spans within (left ++ right) high ↔
      Spans within left (bound right high) ∧ Spans within right high := by
  induction left with
  | nil => simp [Spans]
  | cons item rest induction =>
    simp only [List.cons_append, Spans, bound_append, induction]
    tauto

/-- The first bound of a list of spans is below the bound after it. -/
theorem Spans.le_high {β : Type} {within : Key → WithTop Key → β → Prop}
    {items : List (Key × β)} {high : WithTop Key} (spans : Spans within items high) :
    bound items high ≤ high := by
  induction items with
  | nil => exact le_refl high
  | cons item rest induction => exact spans.2.1.trans (induction spans.2.2)

variable {height : Nat} {low middle : Key} {high : WithTop Key}

/-- A block may be cut before any item but the first. -/
theorem Ordered.cut {left right : Items Key Value Label height}
    {item : Key × Payload Key Value Label height} (notFirst : left ≠ [])
    (ordered : Ordered height low high (left ++ item :: right)) :
    Ordered height low item.1 left ∧ low ≤ item.1 ∧
      Ordered height item.1 high (item :: right) ∧ (item.1 : WithTop Key) ≤ high := by
  cases height with
  | zero =>
    have parts := List.pairwise_append.mp ordered.1
    have itemIn := ordered.2 item (by simp)
    refine ⟨⟨parts.1, ?_⟩, itemIn.1, ⟨parts.2.1, ?_⟩, itemIn.2.le⟩
    · intro other member
      have less := parts.2.2 other member item (by simp)
      exact ⟨(ordered.2 other (by simp [member])).1, WithTop.coe_lt_coe.mpr less⟩
    · intro other member
      refine ⟨?_, (ordered.2 other (List.mem_append_right left member)).2⟩
      rcases List.mem_cons.mp member with same | further
      · rw [same]
      · exact ((List.pairwise_cons.mp parts.2.1).1 other further).le
  | succ height =>
    cases left with
    | nil => exact absurd rfl notFirst
    | cons first rest =>
      have head : first.1 = low := by simpa using ordered.1
      have parts := spans_append.mp ordered.2
      have lowItem := parts.1.le_high
      refine ⟨⟨by simp [head], parts.1⟩, ?_, ⟨rfl, parts.2⟩, parts.2.le_high⟩
      rw [← head]
      exact WithTop.coe_le_coe.mp lowItem

/-- Two neighbouring blocks may be joined. -/
theorem Ordered.join {left right : Items Key Value Label height}
    (leftOrdered : Ordered height low middle left) (lowMiddle : low ≤ middle)
    (rightOrdered : Ordered height middle high right) (middleHigh : (middle : WithTop Key) ≤ high) :
    Ordered height low high (left ++ right) := by
  cases height with
  | zero =>
    refine ⟨List.pairwise_append.mpr ⟨leftOrdered.1, rightOrdered.1, ?_⟩, ?_⟩
    · intro item member other otherMember
      have below := WithTop.coe_lt_coe.mp (leftOrdered.2 item member).2
      exact below.trans_le (rightOrdered.2 other otherMember).1
    · intro item member
      rcases List.mem_append.mp member with inLeft | inRight
      · exact ⟨(leftOrdered.2 item inLeft).1, (leftOrdered.2 item inLeft).2.trans_le middleHigh⟩
      · exact ⟨lowMiddle.trans (rightOrdered.2 item inRight).1, (rightOrdered.2 item inRight).2⟩
  | succ height =>
    cases left with
    | nil => cases leftOrdered.1
    | cons first rest =>
      cases right with
      | nil => cases rightOrdered.1
      | cons next others =>
        have head : next.1 = middle := by simpa using rightOrdered.1
        refine ⟨leftOrdered.1, spans_append.mpr ⟨?_, rightOrdered.2⟩⟩
        simpa [bound, head] using leftOrdered.2

/-! One child, two neighbouring children, and a run of children in its place. -/

theorem ordered_single {child : Payload Key Value Label (height + 1)} :
    Ordered (height + 1) low high [(low, child)] ↔
      Ordered height low high child.items ∧ (low : WithTop Key) ≤ high := by
  simp [Ordered, Spans, bound]

theorem ordered_pair {left right : Payload Key Value Label (height + 1)} :
    Ordered (height + 1) low high [(low, left), (middle, right)] ↔
      Ordered height low middle left.items ∧ low ≤ middle ∧
        Ordered height middle high right.items ∧ (middle : WithTop Key) ≤ high := by
  simp [Ordered, Spans, bound]

/-- The run `run` of children between `front` and `back`. -/
theorem Ordered.run {front run back : Items Key Value Label (height + 1)}
    {item : Key × Payload Key Value Label (height + 1)}
    (ordered : Ordered (height + 1) low high (front ++ item :: run ++ back)) :
    Ordered (height + 1) item.1 (bound back high) (item :: run) := by
  rw [Ordered, List.append_assoc, spans_append, spans_append] at ordered
  exact ⟨rfl, ordered.2.2.1⟩

theorem Ordered.splice {front run back others : Items Key Value Label (height + 1)}
    {item : Key × Payload Key Value Label (height + 1)}
    (ordered : Ordered (height + 1) low high (front ++ item :: run ++ back))
    (replaced : Ordered (height + 1) item.1 (bound back high) others) :
    Ordered (height + 1) low high (front ++ others ++ back) := by
  cases others with
  | nil => cases replaced.1
  | cons first rest =>
    have head : first.1 = item.1 := by simpa using replaced.1
    rw [Ordered, List.append_assoc, spans_append, spans_append] at ordered ⊢
    refine ⟨?_, ?_, replaced.2, ordered.2.2.2⟩
    · cases front with
      | nil => simpa [head] using ordered.1
      | cons other others => simpa using ordered.1
    · simpa [bound, head] using ordered.2.1

/-- Two neighbours may share their items otherwise. -/
theorem Ordered.recut {left right : Payload Key Value Label (height + 1)}
    {front back : Items Key Value Label height} {item : Key × Payload Key Value Label height}
    (ordered : Ordered (height + 1) low high [(low, left), (middle, right)])
    (same : left.items ++ right.items = front ++ item :: back) (notFirst : front ≠ [])
    (leftLabel rightLabel : Label) :
    Ordered (height + 1) low high
      [(low, (⟨leftLabel, front⟩ : Payload Key Value Label (height + 1))),
        (item.1, ⟨rightLabel, item :: back⟩)] := by
  obtain ⟨leftOrdered, lowMiddle, rightOrdered, middleHigh⟩ := ordered_pair.mp ordered
  have joined := leftOrdered.join lowMiddle rightOrdered middleHigh
  rw [same] at joined
  exact ordered_pair.mpr (joined.cut notFirst)

theorem Ordered.merge {left right : Payload Key Value Label (height + 1)}
    (ordered : Ordered (height + 1) low high [(low, left), (middle, right)]) (label : Label) :
    Ordered (height + 1) low high
      [(low, (⟨label, left.items ++ right.items⟩ : Payload Key Value Label (height + 1)))] := by
  obtain ⟨leftOrdered, lowMiddle, rightOrdered, middleHigh⟩ := ordered_pair.mp ordered
  exact ordered_single.mpr ⟨leftOrdered.join lowMiddle rightOrdered middleHigh,
    (WithTop.coe_le_coe.mpr lowMiddle).trans middleHigh⟩

/-- Everything below a block lies within the block's bounds, in ascending order. -/
theorem Ordered.entries : ∀ {height : Nat} {low : Key} {high : WithTop Key}
    {items : Items Key Value Label height}, Ordered height low high items →
    (itemEntries height items).Pairwise (fun left right => left.1 < right.1) ∧
      ∀ entry ∈ itemEntries height items, low ≤ entry.1 ∧ (entry.1 : WithTop Key) < high := by
  intro height
  induction height with
  | zero => intro low high items ordered; exact ordered
  | succ height induction =>
    intro low high items ordered
    rcases ordered with ⟨head, spans⟩
    induction items generalizing low with
    | nil => simp [itemEntries]
    | cons item rest further =>
      have headLow : item.1 = low := by simpa using head
      have inItem := induction spans.1
      cases rest with
      | nil =>
        rw [itemEntries_cons_succ, itemEntries_nil, List.append_nil, ← headLow]
        exact inItem
      | cons next others =>
        have inRest := further rfl spans.2.2
        have middle : item.1 ≤ next.1 := WithTop.coe_le_coe.mp spans.2.1
        have middleHigh : (next.1 : WithTop Key) ≤ high := spans.2.2.le_high
        rw [itemEntries_cons_succ, ← headLow]
        -- As in a leaf: what is below the second item follows what is below the first.
        have leaf : @Ordered Key Value Label _ 0 item.1 next.1 _ := inItem
        exact leaf.join middle inRest middleHigh

/-! ## Leaves -/

theorem Ordered.leaf_insert {below above : Items Key Value Label 0} {key : Key}
    (value : Payload Key Value Label 0)
    (ordered : Ordered 0 low high (below ++ above)) (belowKey : ∀ item ∈ below, item.1 < key)
    (aboveKey : ∀ item ∈ above, key < item.1) (lowKey : low ≤ key)
    (keyHigh : (key : WithTop Key) < high) :
    Ordered 0 low high (below ++ (key, value) :: above) := by
  have parts := List.pairwise_append.mp ordered.1
  refine ⟨List.pairwise_append.mpr
    ⟨parts.1, List.pairwise_cons.mpr ⟨aboveKey, parts.2.1⟩, ?_⟩, ?_⟩
  · intro item member other otherMember
    rcases List.mem_cons.mp otherMember with same | further
    · rw [same]
      exact belowKey item member
    · exact parts.2.2 item member other further
  · intro item member
    rcases List.mem_append.mp member with inBelow | inRest
    · exact ordered.2 item (List.mem_append_left above inBelow)
    · rcases List.mem_cons.mp inRest with same | inAbove
      · rw [same]
        exact ⟨lowKey, keyHigh⟩
      · exact ordered.2 item (List.mem_append_right below inAbove)

theorem Ordered.leaf_sublist {items others : Items Key Value Label 0}
    (ordered : Ordered 0 low high items) (sublist : others.Sublist items) :
    Ordered 0 low high others :=
  ⟨ordered.1.sublist sublist, fun item member => ordered.2 item (sublist.subset member)⟩

/-! ## Routing -/

/-- The position of the child to descend into: how many bounds but the first are at or
below `key`. -/
def route {β : Type} (items : List (Key × β)) (key : Key) : Nat :=
  partitionPoint (fun bound => decide (bound ≤ key)) (items.tail.map Prod.fst)

theorem Spans.pairwise_le {β : Type} {within : Key → WithTop Key → β → Prop}
    {items : List (Key × β)} {high : WithTop Key} (spans : Spans within items high) :
    items.Pairwise fun left right => left.1 ≤ right.1 := by
  induction items with
  | nil => exact List.Pairwise.nil
  | cons item rest induction =>
    have further := induction spans.2.2
    refine List.pairwise_cons.mpr ⟨?_, further⟩
    intro other member
    cases rest with
    | nil => cases member
    | cons next others =>
      have first : item.1 ≤ next.1 := WithTop.coe_le_coe.mp spans.2.1
      rcases List.mem_cons.mp member with same | later
      · rw [same]
        exact first
      · exact first.trans ((List.pairwise_cons.mp further).1 other later)

/-- The routed child is the one whose bounds hold the key. -/
theorem Ordered.route {items : Items Key Value Label (height + 1)} {key : Key}
    (ordered : Ordered (height + 1) low high items) (lowKey : low ≤ key)
    (keyHigh : (key : WithTop Key) < high) :
    ∃ front item back, items = front ++ item :: back ∧
      front.length = SearchTree.route items key ∧
      item.1 ≤ key ∧ (key : WithTop Key) < bound back high := by
  cases items with
  | nil => cases ordered.1
  | cons first rest =>
    have head : first.1 = low := by simpa using ordered.1
    have ascending := (List.pairwise_cons.mp ordered.2.pairwise_le).2
    obtain ⟨below, above, equal, belowKey, aboveKey⟩ :=
      exists_split (fun item : Key × Payload Key Value Label (height + 1) =>
        decide (item.1 ≤ key)) rest
        (ascending.imp fun less rightBelow => by
          simp only [decide_eq_true_eq] at rightBelow ⊢
          exact less.trans rightBelow)
    have position : SearchTree.route (first :: rest) key = below.length := by
      rw [SearchTree.route, List.tail_cons, equal, List.map_append,
        partitionPoint_append, List.length_map]
      · simpa using belowKey
      · simpa using aboveKey
    have keyBound : (key : WithTop Key) < bound above high := by
      cases above with
      | nil => exact keyHigh
      | cons next others => simpa [bound] using aboveKey next (by simp)
    rcases List.eq_nil_or_concat below with none | ⟨front, item, some⟩
    · refine ⟨[], first, above, by rw [equal, none]; rfl, by rw [position, none], ?_, keyBound⟩
      rw [head]
      exact lowKey
    · refine ⟨first :: front, item, above, by rw [equal, some]; simp, ?_, ?_, keyBound⟩
      · rw [position, some]
        simp
      · simpa using belowKey item (by rw [some]; simp)

/-- The child at the routed position is that one. -/
theorem Ordered.route_bounds {items front back : Items Key Value Label (height + 1)}
    {item : Key × Payload Key Value Label (height + 1)} {key : Key}
    (ordered : Ordered (height + 1) low high items) (lowKey : low ≤ key)
    (keyHigh : (key : WithTop Key) < high) (equal : items = front ++ item :: back)
    (position : front.length = SearchTree.route items key) :
    item.1 ≤ key ∧ (key : WithTop Key) < bound back high := by
  obtain ⟨otherFront, other, otherBack, otherEqual, otherPosition, bounds⟩ :=
    ordered.route lowKey keyHigh
  have parts := List.append_inj (equal.symm.trans otherEqual) (position.trans otherPosition.symm)
  rw [List.cons.injEq] at parts
  rw [parts.2.1, parts.2.2]
  exact bounds

/-- What lies beside the routed child is below and above the key. -/
theorem Ordered.beside {front back : Items Key Value Label (height + 1)}
    {item : Key × Payload Key Value Label (height + 1)} {key : Key}
    (ordered : Ordered (height + 1) low high (front ++ item :: back)) (itemKey : item.1 ≤ key)
    (keyBack : (key : WithTop Key) < bound back high) :
    (∀ entry ∈ itemEntries (height + 1) front, entry.1 < key) ∧
      ∀ entry ∈ itemEntries (height + 1) back, key < entry.1 := by
  constructor
  · cases front with
    | nil => simp
    | cons first rest =>
      intro entry member
      have below := (ordered.cut (by simp)).1.entries.2 entry member
      exact (WithTop.coe_lt_coe.mp below.2).trans_le itemKey
  · cases back with
    | nil => simp
    | cons next others =>
      intro entry member
      rw [List.append_cons] at ordered
      have above := (ordered.cut (by simp)).2.2.1.entries.2 entry member
      exact (WithTop.coe_lt_coe.mp keyBack).trans_le above.1

end Order

end GStore.SearchTree
