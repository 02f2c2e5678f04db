import GStore.Signature.Signature
import GStore.Foundation.SortedSlice
import GStore.Foundation.Assoc

/-! # The signature tree in memory

`signature/vstree.rs`. A node carries the union of the signatures below it; a
candidate scan descends only where that union contains the query. Nodes are
bulk-built or grow by insertion with splits. The choice of a child and of the
seeds of a split only shapes the tree. -/

namespace GStore.Signature

open CoverTree

/-- `Node::Leaf` with its entries, `Node::Internal` with its children. -/
abbrev Node := CoverTree UInt32 Signature

/-- Max entries per leaf and children per internal node. -/
def fanout : Nat := 64

/-- The child whose signature grows least; ties go to the smaller signature. -/
def chooseChild (children : List Node) (sig : Signature) : Nat :=
  (children.zipIdx.foldl
    (fun (state : Nat × Nat × Nat) (child, index) =>
      let added := child.cover.addedBits sig
      let pop := child.cover.popcount
      if added < state.2.1 ∨ (added = state.2.1 ∧ pop < state.2.2) then (index, added, pop)
      else state)
    (0, 2 ^ 32 - 1, 2 ^ 32 - 1)).1

/-! ## Splitting a node -/

/-- The pair of positions with the greatest distance. -/
def seeds (sigs : List Signature) : Nat × Nat :=
  let pairs := (List.range sigs.length).flatMap fun i =>
    (List.range' (i + 1) (sigs.length - (i + 1))).map fun j => (i, j)
  (pairs.foldl
    (fun (state : (Nat × Nat) × Nat) pair =>
      let d := (sigs.getD pair.1 new).distance (sigs.getD pair.2 new)
      if state.2 ≤ d then (pair, d) else state)
    ((0, 1), 0)).1

/-- Two groups of positions with their unions. -/
structure Groups where
  left : List Nat
  leftSig : Signature
  right : List Nat
  rightSig : Signature

/-- A remaining member joins the group that it enlarges less. -/
def Groups.add (groups : Groups) (sig : Signature) (index : Nat) : Groups :=
  let la := groups.leftSig.addedBits sig
  let ra := groups.rightSig.addedBits sig
  if la < ra ∨ (la = ra ∧ groups.left.length ≤ groups.right.length) then
    { groups with left := groups.left ++ [index], leftSig := groups.leftSig.unionWith sig }
  else
    { groups with right := groups.right ++ [index], rightSig := groups.rightSig.unionWith sig }

/-- The seeds are dealt already. -/
def Groups.deal (seeds : Nat × Nat) (groups : Groups) (entry : Signature × Nat) : Groups :=
  if entry.2 = seeds.1 ∨ entry.2 = seeds.2 then groups else groups.add entry.1 entry.2

def Groups.start (sigs : List Signature) (seeds : Nat × Nat) : Groups where
  left := [seeds.1]
  leftSig := sigs.getD seeds.1 new
  right := [seeds.2]
  rightSig := sigs.getD seeds.2 new

/-- The two groups for the positions of `sigs`. With fewer than two members the
source panics; a node is split only when it has more than `fanout`. -/
def groups (sigs : List Signature) : Groups :=
  sigs.zipIdx.foldl (Groups.deal (seeds sigs)) (.start sigs (seeds sigs))

def seedSplit {α : Type} (items : List α) (sigOf : α → Signature) :
    (List α × Signature) × (List α × Signature) :=
  let groups := groups (items.map sigOf)
  ((groups.left.filterMap fun index => items[index]?, groups.leftSig),
    (groups.right.filterMap fun index => items[index]?, groups.rightSig))

/-- The left half stays in place, the right half is returned. -/
def split : Node → Node × Node
  | .leaf _ entries =>
    let (left, right) := seedSplit entries Prod.snd
    (.leaf left.2 left.1, .leaf right.2 right.1)
  | .inner _ children =>
    let (left, right) := seedSplit children cover
    (.inner left.2 left.1, .inner right.2 right.1)

/-! ## Insertion and update -/

/-- The number of entries of a leaf, of children of an internal node. -/
def width : Node → Nat
  | .leaf _ entries => entries.length
  | .inner _ children => children.length

/-- A node that overflowed is split; the caller adopts the sibling. -/
def overflow (node : Node) : Node × Option Node :=
  if width node ≤ fanout then (node, none)
  else
    let (left, right) := split node
    (left, some right)

mutual

/-- `Node::insert`; an index out of bounds is the result `none`. -/
def insertNode (id : UInt32) (sig : Signature) : Node → Option (Node × Option Node)
  | .leaf nsig entries =>
    some (overflow (.leaf (nsig.unionWith sig) (entries ++ [(id, sig)])))
  | .inner nsig children =>
    let ci := chooseChild children sig
    match insertChild id sig children ci with
    | none => none
    | some (children, none) => some (.inner (nsig.unionWith sig) children, none)
    | some (children, some newChild) =>
      some (overflow (.inner (nsig.unionWith sig) (children.insertIdx (ci + 1) newChild)))

/-- `children[ci].insert(id, sig)`. -/
@[grind =] def insertChild (id : UInt32) (sig : Signature) :
    List Node → Nat → Option (List Node × Option Node)
  | [], _ => none
  | child :: rest, 0 =>
    match insertNode id sig child with
    | none => none
    | some (child, sibling) => some (child :: rest, sibling)
  | child :: rest, index + 1 =>
    match insertChild id sig rest index with
    | none => none
    | some (rest, sibling) => some (child :: rest, sibling)

end

/-- Replace the value of the first entry with the key, if there is one. -/
@[grind =] def replaceFirst (id : UInt32) (sig : Signature) :
    List (UInt32 × Signature) → Option (List (UInt32 × Signature))
  | [] => none
  | entry :: rest =>
    if entry.1 = id then some ((entry.1, sig) :: rest)
    else (replaceFirst id sig rest).map (entry :: ·)

mutual

/-- `Node::update`; the flag tells whether the entity was found. -/
def updateNode (id : UInt32) (newSig : Signature) : Node → Node × Bool
  | .leaf sig entries =>
    match replaceFirst id newSig entries with
    | some entries => (.leaf (sig.unionWith newSig) entries, true)
    | none => (.leaf sig entries, false)
  | .inner sig children =>
    match updateChildren id newSig children with
    | (children, true) => (.inner (sig.unionWith newSig) children, true)
    | (children, false) => (.inner sig children, false)

@[grind =] def updateChildren (id : UInt32) (newSig : Signature) : List Node → List Node × Bool
  | [] => ([], false)
  | child :: rest =>
    match updateNode id newSig child with
    | (child, true) => (child :: rest, true)
    | (child, false) =>
      let (rest, found) := updateChildren id newSig rest
      (child :: rest, found)

end

/-- Sort key: the limbs, each without the bits past the signature. -/
def sigKey (sig : Signature) : List UInt64 :=
  (List.range limbs).map fun limb =>
    (List.range 64).foldl
      (fun word b =>
        if inside : limb * 64 + b < entitySigLength then
          if sig.test ⟨limb * 64 + b, inside⟩ then word ||| (1 <<< UInt64.ofNat b) else word
        else word)
      0

/-- Cluster similar signatures; the sort is stable. -/
def clustered (entries : List (UInt32 × Signature)) : List (UInt32 × Signature) :=
  entries.mergeSort fun left right => decide (sigKey left.2 ≤ sigKey right.2)

/-! ## Where an insertion goes -/

theorem clustered_perm (entries : List (UInt32 × Signature)) : (clustered entries).Perm entries :=
  List.mergeSort_perm _ _

theorem chooseChild_lt {children : List Node} (nonempty : children ≠ []) (sig : Signature) :
    chooseChild children sig < children.length := by
  have chosen : ∀ (listed : List (Node × Nat)) (state : Nat × Nat × Nat),
      state.1 < children.length → (∀ entry ∈ listed, entry.2 < children.length) →
      (listed.foldl
        (fun (state : Nat × Nat × Nat) (child, index) =>
          let added := child.cover.addedBits sig
          let pop := child.cover.popcount
          if added < state.2.1 ∨ (added = state.2.1 ∧ pop < state.2.2) then (index, added, pop)
          else state)
        state).1 < children.length := by
    intro listed
    induction listed with
    | nil => intro state inside _; exact inside
    | cons entry rest induction =>
      intro state inside bounded
      rw [List.foldl_cons]
      apply induction
      · dsimp only
        split
        · exact bounded entry List.mem_cons_self
        · exact inside
      · exact fun other member => bounded other (List.mem_cons_of_mem _ member)
  apply chosen
  · exact List.length_pos_iff.mpr nonempty
  · intro entry member
    exact (List.mem_zipIdx' member).1

/-! ## A split deals out its members -/

theorem seeds_spec {sigs : List Signature} (two : 2 ≤ sigs.length) :
    (seeds sigs).1 < (seeds sigs).2 ∧ (seeds sigs).2 < sigs.length := by
  have chosen : ∀ (pairs : List (Nat × Nat)) (state : (Nat × Nat) × Nat),
      (state.1.1 < state.1.2 ∧ state.1.2 < sigs.length) →
      (∀ pair ∈ pairs, pair.1 < pair.2 ∧ pair.2 < sigs.length) →
      let last := (pairs.foldl
        (fun (state : (Nat × Nat) × Nat) pair =>
          let d := (sigs.getD pair.1 new).distance (sigs.getD pair.2 new)
          if state.2 ≤ d then (pair, d) else state)
        state).1
      last.1 < last.2 ∧ last.2 < sigs.length := by
    intro pairs
    induction pairs with
    | nil => intro state inside _; exact inside
    | cons pair rest induction =>
      intro state inside bounded
      simp only [List.foldl_cons]
      apply induction
      · split
        · exact bounded pair List.mem_cons_self
        · exact inside
      · exact fun other member => bounded other (List.mem_cons_of_mem _ member)
  apply chosen
  · exact ⟨Nat.zero_lt_one, two⟩
  · intro pair member
    rcases List.mem_flatMap.mp member with ⟨i, _, among⟩
    rcases List.mem_map.mp among with ⟨j, inRange, rfl⟩
    rw [List.mem_range'_1] at inRange
    dsimp only
    omega

/-- Every position is dealt to one group, and each group's signature is above
its members and no higher than needed. -/
structure Groups.Deals (groups : Groups) (sigs : List Signature) (dealt : List Nat) : Prop where
  perm : (groups.left ++ groups.right).Perm dealt
  left_above : ∀ index ∈ groups.left, sigs.getD index new ≤ groups.leftSig
  right_above : ∀ index ∈ groups.right, sigs.getD index new ≤ groups.rightSig
  left_least : ∀ bound, (∀ sig ∈ sigs, sig ≤ bound) → groups.leftSig ≤ bound
  right_least : ∀ bound, (∀ sig ∈ sigs, sig ≤ bound) → groups.rightSig ≤ bound
  left_seeded : groups.left ≠ []
  right_seeded : groups.right ≠ []

theorem Groups.Deals.add {groups : Groups} {sigs : List Signature} {dealt : List Nat}
    (deals : groups.Deals sigs dealt) {index : Nat} (inside : index < sigs.length) :
    (groups.add (sigs.getD index new) index).Deals sigs (index :: dealt) := by
  have member : sigs.getD index new ∈ sigs := by
    rw [List.getD_eq_getElem _ _ inside]
    exact List.getElem_mem inside
  unfold Groups.add
  dsimp only
  split
  · refine ⟨?_, ?_, deals.right_above, ?_, deals.right_least, by simp, deals.right_seeded⟩
    · rw [List.append_assoc, List.singleton_append]
      exact List.perm_middle.trans (deals.perm.cons index)
    · intro other among
      rcases List.mem_append.mp among with earlier | same
      · exact le_trans (deals.left_above other earlier) le_sup_left
      · rw [List.mem_singleton.mp same]
        exact le_sup_right
    · intro bound below
      exact sup_le (deals.left_least bound below) (below _ member)
  · refine ⟨?_, deals.left_above, ?_, deals.left_least, ?_, deals.left_seeded, by simp⟩
    · rw [← List.append_assoc]
      exact (List.perm_append_singleton _ _).trans (deals.perm.cons index)
    · intro other among
      rcases List.mem_append.mp among with earlier | same
      · exact le_trans (deals.right_above other earlier) le_sup_left
      · rw [List.mem_singleton.mp same]
        exact le_sup_right
    · intro bound below
      exact sup_le (deals.right_least bound below) (below _ member)

/-- The positions that the loop deals: all but the seeds. -/
def isRest (seeds : Nat × Nat) (index : Nat) : Bool :=
  !decide (index = seeds.1 ∨ index = seeds.2)

theorem Groups.Deals.loop {sigs : List Signature} (seeds : Nat × Nat)
    (entries : List (Signature × Nat)) :
    ∀ {start : Groups} {dealt : List Nat},
      (∀ entry ∈ entries, entry.2 < sigs.length ∧ entry.1 = sigs.getD entry.2 new) →
      start.Deals sigs dealt →
      (entries.foldl (Groups.deal seeds) start).Deals sigs
        (((entries.map Prod.snd).filter (isRest seeds)).reverse ++ dealt) := by
  induction entries with
  | nil => intro start dealt _ deals; exact deals
  | cons entry rest induction =>
    intro start dealt listed deals
    rcases listed entry List.mem_cons_self with ⟨within, isSig⟩
    have later := fun other member => listed other (List.mem_cons_of_mem entry member)
    rw [List.foldl_cons, List.map_cons]
    by_cases seed : entry.2 = seeds.1 ∨ entry.2 = seeds.2
    · rw [Groups.deal, if_pos seed, List.filter_cons_of_neg (by simp [isRest, seed])]
      exact induction later deals
    · rw [Groups.deal, if_neg seed, List.filter_cons_of_pos (by simp [isRest, seed]),
        List.reverse_cons, List.append_assoc, List.singleton_append, isSig]
      exact induction later (deals.add within)

theorem perm_range_of_seeds {seeds : Nat × Nat} {size : Nat} (apart : seeds.1 < seeds.2)
    (inside : seeds.2 < size) :
    (((List.range size).filter (isRest seeds)).reverse ++ [seeds.1, seeds.2]).Perm
      (List.range size) := by
  refine (List.perm_ext_iff_of_nodup ?_ List.nodup_range).mpr ?_
  · refine List.nodup_append.mpr ⟨List.nodup_reverse.mpr (List.nodup_range.filter _), ?_, ?_⟩
    · simpa using apart.ne
    · intro index dealt other seed same
      have rest : isRest seeds index = true := by simpa using (List.mem_filter.mp
        (List.mem_reverse.mp dealt)).2
      simp only [isRest, Bool.not_eq_true', decide_eq_false_iff_not] at rest
      exact rest (by simpa [same] using seed)
  · intro index
    simp only [List.mem_append, List.mem_reverse, List.mem_filter, List.mem_range, isRest,
      List.mem_cons, List.not_mem_nil, or_false, Bool.not_eq_true', decide_eq_false_iff_not]
    omega

theorem groups_deals {sigs : List Signature} (two : 2 ≤ sigs.length) :
    (groups sigs).Deals sigs (List.range sigs.length) := by
  rcases seeds_spec two with ⟨apart, inside⟩
  have placed : ∀ index < sigs.length, sigs.getD index new ∈ sigs := by
    intro index within
    rw [List.getD_eq_getElem _ _ within]
    exact List.getElem_mem within
  have start : (Groups.start sigs (seeds sigs)).Deals sigs [(seeds sigs).1, (seeds sigs).2] := by
    refine ⟨List.Perm.refl _, by simp [Groups.start], by simp [Groups.start], ?_, ?_,
      by simp [Groups.start], by simp [Groups.start]⟩
    · intro bound below
      exact below _ (placed _ (by omega))
    · intro bound below
      exact below _ (placed _ inside)
  have dealt := Groups.Deals.loop (seeds sigs) sigs.zipIdx ?_ start
  · refine { dealt with perm := dealt.perm.trans ?_ }
    rw [List.zipIdx_map_snd, ← List.range_eq_range']
    exact perm_range_of_seeds apart inside
  · intro entry member
    rcases List.mem_zipIdx' member with ⟨within, isSig⟩
    exact ⟨within, by rw [List.getD_eq_getElem _ _ within, isSig]⟩

theorem filterMap_range {α : Type} (items : List α) :
    (List.range items.length).filterMap (fun index => items[index]?) = items := by
  induction items using List.reverseRecOn with
  | nil => rfl
  | append_singleton front last induction =>
    rw [List.length_append, List.length_singleton, List.range_succ, List.filterMap_append]
    congr 1
    · refine Eq.trans (List.filterMap_congr ?_) induction
      intro index member
      exact List.getElem?_append_left (List.mem_range.mp member)
    · simp

/-- A split keeps every member, leaves no half empty, and signs each half by a
union of its own members. -/
structure Halves {α : Type} (items : List α) (sigOf : α → Signature)
    (halves : (List α × Signature) × (List α × Signature)) : Prop where
  perm : (halves.1.1 ++ halves.2.1).Perm items
  left_above : ∀ item ∈ halves.1.1, sigOf item ≤ halves.1.2
  right_above : ∀ item ∈ halves.2.1, sigOf item ≤ halves.2.2
  left_least : ∀ bound, (∀ item ∈ items, sigOf item ≤ bound) → halves.1.2 ≤ bound
  right_least : ∀ bound, (∀ item ∈ items, sigOf item ≤ bound) → halves.2.2 ≤ bound
  left_ne_nil : halves.1.1 ≠ []
  right_ne_nil : halves.2.1 ≠ []

theorem seedSplit_halves {α : Type} {items : List α} (sigOf : α → Signature)
    (two : 2 ≤ items.length) : Halves items sigOf (seedSplit items sigOf) := by
  have many : 2 ≤ (items.map sigOf).length := by simpa using two
  have deals := groups_deals many
  rw [List.length_map] at deals
  have inside : ∀ index ∈ (groups (items.map sigOf)).left ++ (groups (items.map sigOf)).right,
      index < items.length := fun index member => List.mem_range.mp (deals.perm.mem_iff.mp member)
  have signed : ∀ {index item}, items[index]? = some item →
      (items.map sigOf).getD index new = sigOf item := by
    intro index item found
    rw [List.getD_eq_getElem?_getD, List.getElem?_map, found]
    rfl
  have someLeft : ∀ {picked : List Nat}, picked ≠ [] → (∀ index ∈ picked, index < items.length) →
      picked.filterMap (fun index => items[index]?) ≠ [] := by
    intro picked nonempty bounded empty
    rcases List.exists_mem_of_ne_nil picked nonempty with ⟨index, member⟩
    have none := List.filterMap_eq_nil_iff.mp empty index member
    rw [List.getElem?_eq_none_iff] at none
    exact absurd (bounded index member) (by omega)
  refine ⟨?_, ?_, ?_, ?_, ?_, ?_, ?_⟩
  · refine List.Perm.trans (List.Perm.of_eq (List.filterMap_append).symm) ?_
    exact (deals.perm.filterMap _).trans (List.Perm.of_eq (filterMap_range items))
  · intro item member
    rcases List.mem_filterMap.mp member with ⟨index, dealt, found⟩
    exact signed found ▸ deals.left_above index dealt
  · intro item member
    rcases List.mem_filterMap.mp member with ⟨index, dealt, found⟩
    exact signed found ▸ deals.right_above index dealt
  · intro bound below
    exact deals.left_least bound (List.forall_mem_map.mpr below)
  · intro bound below
    exact deals.right_least bound (List.forall_mem_map.mpr below)
  · exact someLeft deals.left_seeded fun index member => inside index (List.mem_append_left _ member)
  · exact someLeft deals.right_seeded fun index member =>
      inside index (List.mem_append_right _ member)

/-! ## Insertion -/

/-- Nodes that hold the entries of `before` under covers of its own. -/
structure Regrown (entries : List (UInt32 × Signature)) (bound : Signature)
    (nodes : Node × Option Node) : Prop where
  covers : nodes.1.Covers
  sibling_covers : ∀ sibling ∈ nodes.2, sibling.Covers
  entries_perm : (nodes.1.entries ++ nodes.2.elim [] CoverTree.entries).Perm entries
  cover_le : nodes.1.cover ≤ bound
  sibling_cover_le : ∀ sibling ∈ nodes.2, sibling.cover ≤ bound

theorem Regrown.kept {node : Node} (covers : node.Covers) :
    Regrown node.entries node.cover (node, none) :=
  ⟨covers, by simp, by simp, le_rfl, by simp⟩

theorem split_regrown {node : Node} (covers : node.Covers) (two : 2 ≤ width node) :
    Regrown node.entries node.cover ((split node).1, some (split node).2) := by
  cases covers with
  | @leaf cover held above =>
    have halves := seedSplit_halves Prod.snd two
    refine ⟨.leaf halves.left_above, ?_, halves.perm, halves.left_least _ above, ?_⟩
    · rintro sibling ⟨⟩
      exact .leaf halves.right_above
    · rintro sibling ⟨⟩
      exact halves.right_least _ above
  | @inner cover children nonempty below above =>
    have halves := seedSplit_halves CoverTree.cover two
    have inside : ∀ child ∈ (seedSplit children CoverTree.cover).1.1 ++
        (seedSplit children CoverTree.cover).2.1, child ∈ children :=
      fun child member => halves.perm.mem_iff.mp member
    refine ⟨.inner halves.left_ne_nil ?_ halves.left_above, ?_, ?_,
      halves.left_least _ above, ?_⟩
    · exact fun child member => below child (inside child (List.mem_append_left _ member))
    · rintro sibling ⟨⟩
      exact .inner halves.right_ne_nil
        (fun child member => below child (inside child (List.mem_append_right _ member)))
        halves.right_above
    · simp only [split, entries_inner, Option.elim_some, ← List.flatMap_append]
      exact halves.perm.flatMap_right _
    · rintro sibling ⟨⟩
      exact halves.right_least _ above

theorem overflow_regrown {node : Node} (covers : node.Covers) :
    Regrown node.entries node.cover (overflow node) := by
  unfold overflow
  split
  · exact .kept covers
  · rename_i many
    have limit : fanout = 64 := rfl
    exact split_regrown covers (by omega)

theorem insertChild_eq (id : UInt32) (sig : Signature) (front : List Node) (child : Node)
    (back : List Node) :
    insertChild id sig (front ++ child :: back) front.length =
      (insertNode id sig child).map fun (child, sibling) => (front ++ child :: back, sibling) := by
  induction front with
  | nil =>
    simp only [List.nil_append, List.length_nil, insertChild]
    cases insertNode id sig child <;> rfl
  | cons head tail induction =>
    simp only [List.cons_append, List.length_cons, insertChild, induction]
    cases insertNode id sig child <;> rfl

/-- A node stays covered when a child is replaced by what it has grown into. -/
theorem Regrown.adopted {front back : List Node} {child : Node} {entry : UInt32 × Signature}
    {cover bound : Signature} {nodes : Node × Option Node}
    (regrown : Regrown (entry :: child.entries) bound nodes)
    (below : ∀ other ∈ front ++ child :: back, other.Covers)
    (above : ∀ other ∈ front ++ child :: back, other.cover ≤ cover) (within : bound ≤ cover) :
    (CoverTree.inner cover (front ++ nodes.1 :: (nodes.2.toList ++ back))).Covers ∧
      (CoverTree.inner cover (front ++ nodes.1 :: (nodes.2.toList ++ back))).entries.Perm
        (entry :: (CoverTree.inner cover (front ++ child :: back)).entries) := by
  have members : ∀ other ∈ front ++ nodes.1 :: (nodes.2.toList ++ back),
      other.Covers ∧ other.cover ≤ cover := by
    intro other member
    simp only [List.mem_append, List.mem_cons, Option.mem_toList] at member
    rcases member with left | rfl | new | right
    · exact ⟨below other (by simp [left]), above other (by simp [left])⟩
    · exact ⟨regrown.covers, le_trans regrown.cover_le within⟩
    · exact ⟨regrown.sibling_covers other new, le_trans (regrown.sibling_cover_le other new) within⟩
    · exact ⟨below other (by simp [right]), above other (by simp [right])⟩
  refine ⟨.inner (by simp) (fun other member => (members other member).1)
    fun other member => (members other member).2, ?_⟩
  have siblings : nodes.2.toList.flatMap CoverTree.entries = nodes.2.elim [] CoverTree.entries := by
    cases nodes.2 <;> simp
  simp only [entries_inner, List.flatMap_append, List.flatMap_cons, siblings]
  rw [← List.append_assoc nodes.1.entries]
  refine ((regrown.entries_perm.append_right _).append_left _).trans ?_
  exact List.perm_middle

/-- An insertion never fails, and adds its entry under a grown cover. -/
theorem insertNode_spec (id : UInt32) (sig : Signature) (node : Node) :
    node.Covers → ∃ nodes, insertNode id sig node = some nodes ∧
      Regrown ((id, sig) :: node.entries) (node.cover ⊔ sig) nodes := by
  induction node using CoverTree.byChildren with
  | leaf cover held =>
    rintro ⟨above⟩
    refine ⟨_, rfl, ?_⟩
    have grown : (CoverTree.leaf (cover.unionWith sig) (held ++ [(id, sig)])).Covers := by
      refine .leaf ?_
      intro entry member
      rcases List.mem_append.mp member with earlier | last
      · exact le_trans (above entry earlier) le_sup_left
      · rw [List.mem_singleton.mp last]
        exact le_sup_right
    have regrown := overflow_regrown grown
    exact { regrown with
      entries_perm := regrown.entries_perm.trans (List.perm_append_singleton _ _) }
  | inner cover children induction =>
    intro covers
    cases covers with
    | inner nonempty below above =>
      have inside := chooseChild_lt nonempty sig
      have choice : insertNode id sig (.inner cover children) =
          match insertChild id sig children (chooseChild children sig) with
          | none => none
          | some (children', none) => some (.inner (cover.unionWith sig) children', none)
          | some (children', some newChild) =>
            some (overflow (.inner (cover.unionWith sig)
              (children'.insertIdx (chooseChild children sig + 1) newChild))) := rfl
      rw [choice]
      clear choice
      generalize chooseChild children sig = chosen at inside
      have parts : children = children.take chosen ++ children[chosen] ::
          children.drop (chosen + 1) := by
        rw [← List.drop_eq_getElem_cons inside, List.take_append_drop]
      have position : (children.take chosen).length = chosen :=
        List.length_take_of_le inside.le
      generalize children.take chosen = front at parts position
      generalize children[chosen] = child at parts
      generalize children.drop (chosen + 1) = back at parts
      subst parts position
      have childMem : child ∈ front ++ child :: back := by simp
      rcases induction child childMem (below child childMem) with
        ⟨⟨changed, sibling⟩, inserted, regrown⟩
      have widened : ∀ other ∈ front ++ child :: back, other.cover ≤ cover ⊔ sig :=
        fun other member => le_trans (above other member) le_sup_left
      have adopted := regrown.adopted below widened (sup_le_sup_right (above child childMem) sig)
      rw [insertChild_eq, inserted]
      cases sibling with
      | none => exact ⟨_, rfl, adopted.1, by simp, by simpa using adopted.2, le_rfl, by simp⟩
      | some newChild =>
        have placed : (front ++ changed :: back).insertIdx (front.length + 1) newChild =
            front ++ changed :: newChild :: back := by
          have inserted := SortedSlice.insertIdx_length_append (front ++ [changed]) back
            newChild
          simpa using inserted
        refine ⟨_, rfl, ?_⟩
        rw [placed]
        have regrown := overflow_regrown adopted.1
        exact { regrown with entries_perm := regrown.entries_perm.trans adopted.2 }

/-! ## Update in place -/

section Update

variable {id : UInt32} {sig : Signature}

theorem replaceFirst_append (left right : List (UInt32 × Signature)) :
    replaceFirst id sig (left ++ right) =
      match replaceFirst id sig left with
      | some left => some (left ++ right)
      | none => (replaceFirst id sig right).map (left ++ ·) := by
  induction left with
  | nil => simp [replaceFirst]
  | cons entry rest induction =>
    rw [List.cons_append, replaceFirst, replaceFirst]
    split
    · rfl
    · rw [induction]
      cases replaceFirst id sig rest with
      | some found => rfl
      | none => exact Option.map_map _ _ _

theorem replaceFirst_eq_none_iff {entries : List (UInt32 × Signature)} :
    replaceFirst id sig entries = none ↔ id ∉ entries.map Prod.fst := by
  induction entries with
  | nil => simp [replaceFirst]
  | cons entry rest induction =>
    rw [replaceFirst, List.map_cons, List.mem_cons, not_or]
    split
    · rename_i same
      simp [same]
    · rename_i different
      rw [Option.map_eq_none_iff, induction]
      simp [Ne.symm different]

/-- Only the value of the key changes. -/
theorem replaceFirst_eq_some {entries replaced : List (UInt32 × Signature)}
    (found : replaceFirst id sig entries = some replaced) :
    ∃ front old back, entries = front ++ (id, old) :: back ∧
      replaced = front ++ (id, sig) :: back := by
  induction entries generalizing replaced with
  | nil => simp [replaceFirst] at found
  | cons entry rest induction =>
    rw [replaceFirst] at found
    split at found
    · rename_i same
      cases found
      exact ⟨[], entry.2, rest, by simp [← same], by simp [same]⟩
    · rcases Option.map_eq_some_iff.mp found with ⟨further, later, rfl⟩
      rcases induction later with ⟨front, old, back, rfl, rfl⟩
      exact ⟨entry :: front, old, back, rfl, rfl⟩

/-- What an update leaves of some nodes: one entry replaced under grown covers,
or everything as it was. -/
def Updated (id : UInt32) (sig : Signature) (before : List Node) (after : List Node × Bool) :
    Prop :=
  if after.2 then
    replaceFirst id sig (before.flatMap CoverTree.entries) =
        some (after.1.flatMap CoverTree.entries) ∧
      (∀ node ∈ after.1, node.Covers) ∧
      (∀ bound, (∀ node ∈ before, node.cover ≤ bound) →
        ∀ node ∈ after.1, node.cover ≤ bound ⊔ sig) ∧
      (before ≠ [] → after.1 ≠ [])
  else
    replaceFirst id sig (before.flatMap CoverTree.entries) = none ∧ after.1 = before

theorem Updated.children (children : List Node) :
    (∀ child ∈ children, child.Covers) →
      (∀ child ∈ children, Updated id sig [child]
        ([(updateNode id sig child).1], (updateNode id sig child).2)) →
      Updated id sig children (updateChildren id sig children) := by
  induction children with
  | nil => intro _ _; exact ⟨rfl, rfl⟩
  | cons child rest induction =>
    intro covers each
    have first := each child List.mem_cons_self
    have later := induction (fun other member => covers other (List.mem_cons_of_mem _ member))
      fun other member => each other (List.mem_cons_of_mem _ member)
    have restCovers : ∀ other ∈ rest, other.Covers :=
      fun other member => covers other (List.mem_cons_of_mem _ member)
    rw [updateChildren]
    rcases updated : updateNode id sig child with ⟨changed, found⟩
    rw [updated] at first
    cases found with
    | true =>
      rcases first with ⟨replaced, changedCovers, bounded, -⟩
      refine ⟨?_, ?_, ?_, by simp⟩
      · simp only [List.flatMap_cons, List.flatMap_nil, List.append_nil] at replaced ⊢
        rw [replaceFirst_append, replaced]
      · exact List.forall_mem_cons.mpr ⟨changedCovers changed (by simp), restCovers⟩
      · intro bound above
        refine List.forall_mem_cons.mpr ⟨?_, ?_⟩
        · exact bounded bound (by simpa using above child List.mem_cons_self) changed (by simp)
        · intro other member
          exact le_trans (above other (List.mem_cons_of_mem _ member)) le_sup_left
    | false =>
      rcases first with ⟨absent, same⟩
      have unchanged : changed = child := by simpa using same
      simp only [List.flatMap_cons, List.flatMap_nil, List.append_nil] at absent
      rcases rested : updateChildren id sig rest with ⟨after, found⟩
      rw [rested] at later
      cases found with
      | true =>
        rcases later with ⟨replaced, afterCovers, bounded, -⟩
        refine ⟨?_, ?_, ?_, by simp⟩
        · simp only [List.flatMap_cons]
          rw [replaceFirst_append, absent, replaced, unchanged]
          rfl
        · exact List.forall_mem_cons.mpr
            ⟨unchanged ▸ covers child List.mem_cons_self, afterCovers⟩
        · intro bound above
          refine List.forall_mem_cons.mpr ⟨?_, ?_⟩
          · rw [unchanged]
            exact le_trans (above child List.mem_cons_self) le_sup_left
          · exact bounded bound fun other member =>
              above other (List.mem_cons_of_mem _ member)
      | false =>
        rcases later with ⟨restAbsent, restSame⟩
        refine ⟨?_, ?_⟩
        · rw [List.flatMap_cons, replaceFirst_append, absent, restAbsent]
          rfl
        · rw [unchanged, ← restSame]

theorem updateNode_spec (id : UInt32) (sig : Signature) (node : Node) : node.Covers →
    Updated id sig [node] ([(updateNode id sig node).1], (updateNode id sig node).2) := by
  induction node using CoverTree.byChildren with
  | leaf cover held =>
    rintro ⟨above⟩
    rw [updateNode]
    cases replaced : replaceFirst id sig held with
    | none => exact ⟨by simpa using replaced, rfl⟩
    | some entries =>
      refine ⟨by simpa using replaced, ?_, ?_, by simp⟩
      · rcases replaceFirst_eq_some replaced with ⟨front, old, back, rfl, rfl⟩
        intro node single
        rw [List.mem_singleton.mp single]
        refine .leaf ?_
        intro entry member
        rcases List.mem_append.mp member with left | right
        · exact le_trans (above entry (by simp [left])) le_sup_left
        · rcases List.mem_cons.mp right with rfl | right
          · exact le_sup_right
          · exact le_trans (above entry (by simp [right])) le_sup_left
      · intro bound under node single
        have lower : cover ≤ bound := under (.leaf cover held) (by simp)
        rw [List.mem_singleton.mp single]
        exact sup_le_sup_right lower sig
  | inner cover children induction =>
    intro covers
    cases covers with
    | inner nonempty below above =>
      have each := Updated.children children below
        fun child member => induction child member (below child member)
      rw [updateNode]
      rcases updated : updateChildren id sig children with ⟨after, found⟩
      rw [updated] at each
      cases found with
      | true =>
        rcases each with ⟨replaced, afterCovers, bounded, some⟩
        refine ⟨by simpa using replaced, ?_, ?_, by simp⟩
        · intro node single
          rw [List.mem_singleton.mp single]
          exact .inner (some nonempty) afterCovers (bounded cover above)
        · intro bound under node single
          have lower : cover ≤ bound := under (.inner cover children) (by simp)
          rw [List.mem_singleton.mp single]
          exact sup_le_sup_right lower sig
      | false =>
        rcases each with ⟨absent, same⟩
        have unchanged : after = children := same
        exact ⟨by simpa using absent, by rw [unchanged]⟩

end Update

end GStore.Signature

namespace GStore

open CoverTree Signature

/-! ## The tree -/

/-- `VsTree` with its nodes in memory. -/
structure VsTree where
  root : Option Node
  entityCount : Nat

namespace VsTree

def new : VsTree := { root := none, entityCount := 0 }

/-- Bulk-build from `(entity id, signature)` pairs. -/
def build (entries : List (UInt32 × Signature)) : VsTree :=
  { root := (bulk fanout (clustered entries)).getLast?, entityCount := entries.length }

/-- Insert one entity; a root split grows the tree by one level. -/
def insert (tree : VsTree) (id : UInt32) (sig : Signature) : Option VsTree :=
  match tree.root with
  | none =>
    some { root := some (.leaf sig [(id, sig)]), entityCount := tree.entityCount + 1 }
  | some root =>
    match insertNode id sig root with
    | none => none
    | some (root, some sibling) =>
      some { root := some (.inner (root.cover.unionWith sibling.cover) [root, sibling])
             entityCount := tree.entityCount + 1 }
    | some (root, none) => some { root := some root, entityCount := tree.entityCount + 1 }

/-- Replace the signature of an entity; the flag tells whether it was there. -/
def update (tree : VsTree) (id : UInt32) (newSig : Signature) : VsTree × Bool :=
  match tree.root with
  | none => (tree, false)
  | some root =>
    ({ tree with root := some (updateNode id newSig root).1 }, (updateNode id newSig root).2)

/-- The entities whose signature contains the query; an empty tree does not
filter. -/
def candidates (tree : VsTree) (query : Signature) : Option (List UInt32) :=
  tree.root.map (search query)

/-- The entries, in the order of the leaves. -/
@[grind =] def entries (tree : VsTree) : List (UInt32 × Signature) :=
  tree.root.elim [] CoverTree.entries

/-- The root covers its entries, of which there is one. -/
def Sound (tree : VsTree) : Prop := ∀ root ∈ tree.root, root.Covers ∧ root.entries ≠ []

theorem sound_new : new.Sound := by simp [Sound, new]

/-- A sound tree filters exactly. -/
theorem Sound.candidates_eq {tree : VsTree} (sound : tree.Sound) (query : Signature) :
    tree.candidates query =
      if tree.entries = [] then none else some (above query tree.entries) := by
  rcases tree with ⟨root, count⟩
  cases root with
  | none => rfl
  | some root =>
    rcases sound root rfl with ⟨covers, nonempty⟩
    rw [candidates, Option.map_some, covers.search_eq, entries, Option.elim_some,
      if_neg nonempty]

theorem build_spec (entries : List (UInt32 × Signature)) :
    (build entries).Sound ∧ (build entries).entries.Perm entries := by
  have clusters := clustered_perm entries
  by_cases empty : entries = []
  · subst empty
    have none : (build []).root = none := by
      simp [build, clustered, bulk, stack, chunks, chunksFrom]
    exact ⟨by simp [Sound, none], by simp [VsTree.entries, none]⟩
  · have nonempty : clustered entries ≠ [] := fun none =>
      empty (List.perm_nil.mp (none ▸ clusters.symm))
    rcases bulk_spec (by decide : 2 ≤ fanout) nonempty with ⟨root, single, covers, held⟩
    have rooted : (build entries).root = some root := by rw [build, single]; rfl
    refine ⟨?_, ?_⟩
    · intro other isRoot
      rw [rooted] at isRoot
      cases isRoot
      exact ⟨covers, held ▸ nonempty⟩
    · rw [VsTree.entries, rooted, Option.elim_some, held]
      exact clusters

theorem Sound.insert {tree : VsTree} (sound : tree.Sound) (id : UInt32) (sig : Signature) :
    ∃ grown, tree.insert id sig = some grown ∧ grown.Sound ∧
      grown.entries.Perm ((id, sig) :: tree.entries) := by
  rcases tree with ⟨root, count⟩
  cases root with
  | none =>
    refine ⟨_, rfl, ?_, by simp [VsTree.entries]⟩
    rintro root ⟨⟩
    exact ⟨.leaf (by simp), by simp⟩
  | some root =>
    rcases insertNode_spec id sig root (sound root rfl).1 with ⟨⟨left, sibling⟩, inserted, regrown⟩
    have held := regrown.entries_perm
    have some : left.entries ++ sibling.elim [] CoverTree.entries ≠ [] := fun none =>
      absurd (none ▸ held).length_eq (by simp)
    cases sibling with
    | none =>
      refine ⟨⟨left, count + 1⟩, by simp [VsTree.insert, inserted], ?_,
        by simpa [VsTree.entries] using held⟩
      rintro other ⟨⟩
      exact ⟨regrown.covers, by simpa using some⟩
    | some right =>
      refine ⟨⟨.some (.inner (left.cover.unionWith right.cover) [left, right]), count + 1⟩,
        by simp [VsTree.insert, inserted], ?_, by simpa [VsTree.entries] using held⟩
      rintro other ⟨⟩
      refine ⟨.inner (by simp) ?_ ?_, by simpa using some⟩
      · simpa using ⟨regrown.covers, regrown.sibling_covers right rfl⟩
      · simpa using ⟨(le_sup_left : left.cover ≤ left.cover ⊔ right.cover),
          (le_sup_right : right.cover ≤ left.cover ⊔ right.cover)⟩

theorem Sound.update {tree : VsTree} (sound : tree.Sound) (id : UInt32) (sig : Signature) :
    (tree.update id sig).1.Sound ∧
      ((replaceFirst id sig tree.entries = some (tree.update id sig).1.entries) ∨
        (replaceFirst id sig tree.entries = none ∧ (tree.update id sig).1 = tree)) := by
  rcases tree with ⟨root, count⟩
  cases root with
  | none => exact ⟨sound, .inr ⟨rfl, rfl⟩⟩
  | some root =>
    rcases sound root rfl with ⟨covers, nonempty⟩
    have updated := updateNode_spec id sig root covers
    have step : (VsTree.update ⟨some root, count⟩ id sig).1 =
        ⟨some (updateNode id sig root).1, count⟩ := rfl
    rw [step]
    revert updated
    rcases updateNode id sig root with ⟨after, found⟩
    intro updated
    cases found with
    | true =>
      rcases updated with ⟨replaced, afterCovers, -, -⟩
      simp only [List.flatMap_singleton] at replaced
      refine ⟨?_, .inl replaced⟩
      rintro other ⟨⟩
      refine ⟨afterCovers after (by simp), ?_⟩
      rcases replaceFirst_eq_some replaced with ⟨front, old, back, -, entries⟩
      rw [entries]
      simp
    | false =>
      rcases updated with ⟨absent, same⟩
      have unchanged : after = root := by simpa using same
      subst unchanged
      simp only [List.flatMap_singleton] at absent
      exact ⟨sound, .inr ⟨absent, rfl⟩⟩

/-! ## Runs -/

inductive Op where
  | build (entries : List (UInt32 × Signature))
  | insert (id : UInt32) (sig : Signature)
  | update (id : UInt32) (sig : Signature)

/-- The current signature of every entity. -/
abbrev Signatures := UInt32 → Option Signature

namespace Op

def run (tree : VsTree) : Op → Option VsTree
  | .build entries => some (VsTree.build entries)
  | .insert id sig => tree.insert id sig
  | .update id sig => some (tree.update id sig).1

/-- What the operation does to the current signatures. -/
def apply (current : Signatures) : Op → Signatures
  | .build entries => fun id => entries.lookup id
  | .insert id sig => Function.update current id (some sig)
  | .update id sig =>
    if (current id).isSome then Function.update current id (some sig) else current

/-- Entity ids are unique: in a bulk build, and an inserted one is new. -/
def Unique (current : Signatures) : Op → Prop
  | .build entries => (entries.map Prod.fst).Nodup
  | .insert id _ => current id = none
  | .update _ _ => True

end Op

/-- The entries are the current signatures, each entity once. -/
structure Reflects (tree : VsTree) (current : Signatures) : Prop where
  sound : tree.Sound
  nodup : (tree.entries.map Prod.fst).Nodup
  mem_iff : ∀ id sig, (id, sig) ∈ tree.entries ↔ current id = some sig

theorem reflects_new : Reflects new fun _ => none where
  sound := sound_new
  nodup := by simp [entries, new]
  mem_iff := by simp [entries, new]

theorem Reflects.isSome_iff {tree : VsTree} {current : Signatures}
    (reflects : tree.Reflects current) (id : UInt32) :
    (current id).isSome ↔ id ∈ tree.entries.map Prod.fst := by
  rw [Option.isSome_iff_exists, List.mem_map]
  constructor
  · rintro ⟨sig, known⟩
    exact ⟨(id, sig), (reflects.mem_iff id sig).mpr known, rfl⟩
  · rintro ⟨⟨_, sig⟩, member, rfl⟩
    exact ⟨sig, (reflects.mem_iff _ sig).mp member⟩

theorem Reflects.run {tree : VsTree} {current : Signatures} (reflects : tree.Reflects current)
    (op : Op) (unique : op.Unique current) :
    ∃ next, op.run tree = some next ∧ next.Reflects (op.apply current) := by
  cases op with
  | build entries =>
    rcases build_spec entries with ⟨sound, permuted⟩
    refine ⟨_, rfl, sound, ((permuted.map _).nodup_iff).mpr unique, ?_⟩
    intro id sig
    rw [permuted.mem_iff]
    exact ⟨lookup_eq_some_of_mem unique, mem_of_lookup_eq_some⟩
  | insert id sig =>
    rcases reflects.sound.insert id sig with ⟨grown, inserted, sound, permuted⟩
    have fresh : id ∉ tree.entries.map Prod.fst := by
      rw [← reflects.isSome_iff, unique]
      simp
    refine ⟨grown, inserted, sound, ?_, ?_⟩
    · rw [(permuted.map _).nodup_iff, List.map_cons, List.nodup_cons]
      exact ⟨fresh, reflects.nodup⟩
    · intro other otherSig
      rw [permuted.mem_iff, List.mem_cons, reflects.mem_iff, Op.apply, Function.update_apply]
      split
      · rename_i same
        subst same
        rw [unique]
        simp [eq_comm]
      · rename_i different
        simp [different]
  | update id sig =>
    rcases reflects.sound.update id sig with ⟨sound, replaced | ⟨absent, same⟩⟩
    · rcases replaceFirst_eq_some replaced with ⟨front, old, back, before, after⟩
      have held : (id, old) ∈ tree.entries := by simp [before]
      have known : (current id).isSome := by simp [(reflects.mem_iff id old).mp held]
      have nodup := reflects.nodup
      rw [before] at nodup
      refine ⟨_, rfl, sound, by rw [after]; simpa using nodup, ?_⟩
      intro other otherSig
      have stored := reflects.mem_iff other otherSig
      rw [before] at stored
      rw [after, Op.apply, if_pos known, Function.update_apply]
      split
      · rename_i same
        subst same
        have once : ∀ sig', (other, sig') ∉ front ∧ (other, sig') ∉ back := by
          intro sig'
          rw [List.map_append, List.map_cons, List.nodup_append, List.nodup_cons] at nodup
          refine ⟨fun member => ?_, fun member => ?_⟩
          · exact nodup.2.2 other (List.mem_map.mpr ⟨_, member, rfl⟩) other (by simp) rfl
          · exact nodup.2.1.1 (List.mem_map.mpr ⟨_, member, rfl⟩)
        simp [once, eq_comm]
      · rename_i different
        rw [← stored]
        simp [different]
    · have unknown : ¬ (current id).isSome := by
        rw [reflects.isSome_iff]
        exact replaceFirst_eq_none_iff.mp absent
      refine ⟨_, rfl, ?_⟩
      rw [same, Op.apply, if_neg unknown]
      exact reflects

/-- The operations in order; the source panics nowhere in them. -/
def runOps : VsTree → List Op → Option VsTree
  | tree, [] => some tree
  | tree, op :: rest => (op.run tree).bind fun next => runOps next rest

def applyOps : Signatures → List Op → Signatures
  | current, [] => current
  | current, op :: rest => applyOps (op.apply current) rest

def UniqueOps : Signatures → List Op → Prop
  | _, [] => True
  | current, op :: rest => op.Unique current ∧ UniqueOps (op.apply current) rest

theorem Reflects.runOps (ops : List Op) :
    ∀ {tree : VsTree} {current : Signatures}, tree.Reflects current → UniqueOps current ops →
      ∃ last, tree.runOps ops = some last ∧ last.Reflects (applyOps current ops) := by
  induction ops with
  | nil => intro tree current reflects _; exact ⟨tree, rfl, reflects⟩
  | cons op rest induction =>
    intro tree current reflects unique
    rcases reflects.run op unique.1 with ⟨next, ran, kept⟩
    rcases induction kept unique.2 with ⟨last, later, final⟩
    exact ⟨last, by simp [VsTree.runOps, ran, later], final⟩

/-- The candidates as a set; the answer of an empty tree, which does not filter,
holds nobody. -/
theorem Reflects.candidates {tree : VsTree} {current : Signatures}
    (reflects : tree.Reflects current) (query : Signature) :
    ((tree.candidates query).getD []).Nodup ∧
      (∀ id, id ∈ (tree.candidates query).getD [] ↔
        ∃ sig, current id = some sig ∧ query ≤ sig) ∧
      (tree.candidates query = none ↔ ∀ id, current id = none) := by
  have nodup : (above query tree.entries).Nodup :=
    reflects.nodup.sublist (List.filter_sublist.map _)
  have empty : tree.entries = [] ↔ ∀ id, current id = none := by
    constructor
    · intro none id
      rw [← Option.not_isSome_iff_eq_none, reflects.isSome_iff, none]
      simp
    · intro none
      rw [List.eq_nil_iff_forall_not_mem]
      rintro ⟨id, sig⟩ member
      rw [reflects.mem_iff, none] at member
      cases member
  rw [reflects.sound.candidates_eq]
  by_cases held : tree.entries = []
  · have absent := empty.mp held
    simp [held, absent]
  · rw [if_neg held]
    refine ⟨nodup, ?_, by simp [← empty, held]⟩
    intro id
    simp [reflects.mem_iff]

end VsTree

end GStore
