import GStore.Signature.VsTree
import GStore.Kvstore.PageM

/-! # The signature tree on disk

`signature/disk_vstree.rs`: one node a page. An internal node keeps the union
signature of each child beside its page id, so a scan reads only the pages it
descends into. -/

namespace GStore.Signature

open CoverTree Kvstore

/-! ## Node pages -/

def offIsLeaf : Nat := 0
def offCount : Nat := 1
def offNodeSig : Nat := 3
def offEntries : Nat := offNodeSig + sigBytes

/-- An entry signature plus a 4-byte id or child page. -/
def entrySize : Nat := sigBytes + 4

/-- Max entries that fit in one node page. -/
def diskFanout : Nat := (pageSize - offEntries) / entrySize

def entryBytes (entry : Signature × UInt32) : Bytes := entry.1.writeLe ++ le32 entry.2

/-- One node page; `value` is an entity id in a leaf and a child page otherwise. -/
def buildNode (isLeaf : Bool) (nodeSig : Signature) (entries : List (Signature × UInt32)) : Page :=
  .ofBytes ([if isLeaf then 1 else 0] ++ le16 entries.length ++ nodeSig.writeLe ++
    entries.flatMap entryBytes)

/-- The entry at a position of a node page. -/
def entryAt (buf : Bytes) (index : Nat) : Signature × UInt32 :=
  let off := offEntries + index * entrySize
  (readLe (slice buf off (off + sigBytes)), ofLe32 (slice buf (off + sigBytes) (off + sigBytes + 4)))

/-! ## Building -/

structure DiskTree where
  root : PageId
  entityCount : Nat

/-- Write one node over a chunk and keep its union signature. -/
def writeNode (isLeaf : Bool) (chunk : List (Signature × UInt32)) :
    PageM (Signature × PageId) := do
  let nsig := joinAll (chunk.map Prod.fst)
  let pid ← alloc
  writePage pid (buildNode isLeaf nsig chunk)
  return (nsig, pid)

def writeLevel (isLeaf : Bool) :
    List (List (Signature × UInt32)) → PageM (List (Signature × PageId))
  | [] => pure []
  | chunk :: rest => do
    let node ← writeNode isLeaf chunk
    let further ← writeLevel isLeaf rest
    return node :: further

/-- Internal levels until a single root remains, with fuel for the levels. -/
def writeLevels : Nat → List (Signature × PageId) → PageM (List (Signature × PageId))
  | 0, level => pure level
  | fuel + 1, level =>
    if 1 < level.length then do
      let next ← writeLevel false (chunks diskFanout level)
      writeLevels fuel next
    else
      pure level

/-- Pager header slots of the root page and of the entity count. -/
def rootSlot : RootSlot := ⟨0, by decide⟩
def countSlot : RootSlot := ⟨1, by decide⟩

namespace DiskTree

def build (entries : List (UInt32 × Signature)) : PageM DiskTree := do
  if entries = [] then
    setRoot rootSlot 0
    setRoot countSlot 0
    return { root := 0, entityCount := 0 }
  else
    let leaves ← writeLevel true
      ((chunks diskFanout (clustered entries)).map fun chunk => chunk.map Prod.swap)
    let level ← writeLevels leaves.length leaves
    match level with
    | [] => .fail .panic
    | (_, root) :: _ =>
      setRoot rootSlot (UInt64.ofNat root.toNat)
      setRoot countSlot (UInt64.ofNat entries.length)
      return { root, entityCount := entries.length }

end DiskTree

/-! ## Scanning -/

/-- The loop over the entries of a node. -/
def visit (isLeaf : Bool) (query : Signature) (descend : PageId → PageM (List UInt32)) :
    List (Signature × UInt32) → PageM (List UInt32)
  | [] => pure []
  | (sig, value) :: rest =>
    if sig.contains query then do
      let here ← if isLeaf then pure [value] else descend value
      let further ← visit isLeaf query descend rest
      return here ++ further
    else
      visit isLeaf query descend rest

/-- `DiskTree::search`, with fuel for the height. -/
def searchPage : Nat → PageId → Signature → PageM (List UInt32)
  | 0, _, _ => .fail .endless
  | fuel + 1, page, query => do
    let buf ← readPage page
    let isLeaf := buf.bytes.getD offIsLeaf 0 != 0
    let count := ofLe16 (slice buf.bytes offCount (offCount + 2))
    let nsig := readLe (slice buf.bytes offNodeSig (offNodeSig + sigBytes))
    if nsig.contains query then
      visit isLeaf query (fun child => searchPage fuel child query)
        ((List.range count).map (entryAt buf.bytes))
    else
      return []

/-- The entities whose signature contains the query; an empty tree does not
filter. -/
def DiskTree.candidates (tree : DiskTree) (query : Signature) : PageM (Option (List UInt32)) :=
  if tree.root = 0 then pure none
  else do
    let out ← searchPage pageLimit tree.root query
    return some out

/-! ## What a node page holds -/

theorem diskFanout_eq : diskFanout = 32 := rfl

section NodePage

variable {isLeaf : Bool} {nodeSig : Signature} {entries : List (Signature × UInt32)}

theorem length_entryBytes (entry : Signature × UInt32) :
    (entryBytes entry).length = entrySize := by
  rw [entryBytes, List.length_append, length_writeLe, length_le32, entrySize]

theorem bytes_buildNode (isLeaf : Bool) (nodeSig : Signature)
    (fits : entries.length ≤ diskFanout) :
    ∃ padding, (buildNode isLeaf nodeSig entries).bytes =
      [if isLeaf then 1 else 0] ++ le16 entries.length ++ nodeSig.writeLe ++
        entries.flatMap entryBytes ++ padding := by
  refine ⟨_, Page.bytes_ofBytes ?_⟩
  have body := length_flatMap entryBytes entries fun entry _ => length_entryBytes entry
  have widths : diskFanout = 32 ∧ entrySize = 124 ∧ sigBytes = 120 ∧ pageSize = 4096 :=
    ⟨rfl, rfl, rfl, rfl⟩
  simp only [List.length_append, List.length_singleton, length_le16, length_writeLe, body]
  rw [widths.2.1]
  omega

theorem flag_buildNode (fits : entries.length ≤ diskFanout) :
    ((buildNode isLeaf nodeSig entries).bytes.getD offIsLeaf 0 != 0) = isLeaf := by
  rcases bytes_buildNode isLeaf nodeSig fits with ⟨padding, bytes⟩
  rw [bytes]
  cases isLeaf <;> simp [offIsLeaf]

theorem count_buildNode (fits : entries.length ≤ diskFanout) :
    ofLe16 (slice (buildNode isLeaf nodeSig entries).bytes offCount (offCount + 2)) =
      entries.length := by
  rcases bytes_buildNode isLeaf nodeSig fits with ⟨padding, bytes⟩
  rw [bytes, List.append_assoc, List.append_assoc,
    slice_append (by simp [offCount]) (by simp [offCount])]
  apply ofLe16_le16
  have width : diskFanout = 32 := rfl
  omega

theorem sig_buildNode (fits : entries.length ≤ diskFanout) :
    readLe (slice (buildNode isLeaf nodeSig entries).bytes offNodeSig (offNodeSig + sigBytes)) =
      nodeSig := by
  rcases bytes_buildNode isLeaf nodeSig fits with ⟨padding, bytes⟩
  rw [bytes, List.append_assoc _ _ padding,
    slice_append (by simp [offNodeSig]) (by simp [offNodeSig, length_writeLe])]
  simpa using readLe_writeLe nodeSig []

theorem entries_buildNode (fits : entries.length ≤ diskFanout) :
    (List.range entries.length).map (entryAt (buildNode isLeaf nodeSig entries).bytes) =
      entries := by
  rcases bytes_buildNode isLeaf nodeSig fits with ⟨padding, bytes⟩
  have head : ([if isLeaf then 1 else 0] ++ le16 entries.length ++ nodeSig.writeLe).length =
      offEntries := by
    simp [offEntries, offNodeSig, length_writeLe]
    omega
  apply List.ext_getElem (by simp)
  intro index _ inside
  have chunk := slice_flatMap entryBytes entries index inside
    fun entry _ => length_entryBytes entry
  have body := length_flatMap entryBytes entries fun entry _ => length_entryBytes entry
  -- the entry as one slice of the page
  have whole : ∀ start stop, stop ≤ entrySize →
      slice (buildNode isLeaf nodeSig entries).bytes (offEntries + index * entrySize + start)
        (offEntries + index * entrySize + stop) = slice (entryBytes entries[index]) start stop := by
    intro start stop within
    have room : index * entrySize + entrySize ≤ entries.length * entrySize := by
      rw [← Nat.succ_mul]
      exact Nat.mul_le_mul_right _ inside
    rw [bytes, List.append_assoc, ← head, Nat.add_assoc, Nat.add_assoc, slice_append_right,
      slice_append_left _ _ (by omega), ← chunk, slice_slice _ _ _ _ _ (by omega)]
  rw [List.getElem_map, List.getElem_range, entryAt]
  have first := whole 0 sigBytes (by simp [entrySize])
  have second := whole sigBytes (sigBytes + 4) (by simp [entrySize])
  rw [Nat.add_zero] at first
  rw [← Nat.add_assoc] at second
  rw [first, second]
  have sigPart : slice (entryBytes entries[index]) 0 sigBytes = entries[index].1.writeLe := by
    have part : slice ([] ++ entries[index].1.writeLe ++ le32 entries[index].2) 0 sigBytes =
        entries[index].1.writeLe := slice_append rfl (by simp [length_writeLe])
    simpa [entryBytes] using part
  have valuePart : slice (entryBytes entries[index]) sigBytes (sigBytes + 4) =
      le32 entries[index].2 := by
    have part : slice (entries[index].1.writeLe ++ le32 entries[index].2 ++ []) sigBytes
        (sigBytes + 4) = le32 entries[index].2 :=
      slice_append (length_writeLe _) (by simp [length_writeLe])
    simpa [entryBytes] using part
  rw [sigPart, valuePart, ofLe32_le32]
  have read := readLe_writeLe entries[index].1 []
  rw [List.append_nil] at read
  rw [read]

end NodePage

/-! ## Nodes at rest -/

section Rest

variable {heap after : Heap} {query : Signature}

/-- The node is at the page, and its children are at the pages of its entries. -/
inductive Rests (heap : Heap) : Nat → Node → PageId → Prop where
  | leaf {cover : Signature} {held : List (UInt32 × Signature)} {page : PageId}
      (fits : held.length ≤ diskFanout)
      (stored : heap.page page = some (buildNode true cover (held.map Prod.swap))) :
      Rests heap 0 (.leaf cover held) page
  | inner {height : Nat} {cover : Signature} {placed : List (Node × PageId)} {page : PageId}
      (fits : placed.length ≤ diskFanout)
      (stored : heap.page page =
        some (buildNode false cover (placed.map fun child => (child.1.cover, child.2))))
      (below : ∀ child ∈ placed, Rests heap height child.1 child.2) :
      Rests heap (height + 1) (.inner cover (placed.map Prod.fst)) page

/-- The live pages are kept. -/
def Keeps (heap after : Heap) : Prop := ∀ id, heap.page id ≠ none → after.page id = heap.page id

theorem Keeps.stored {id : PageId} {page : Page} (keeps : Keeps heap after)
    (stored : heap.page id = some page) : after.page id = some page :=
  (keeps id (by simp [stored])).trans stored

theorem Keeps.trans {middle : Heap} (first : Keeps heap middle) (second : Keeps middle after) :
    Keeps heap after := by
  intro id live
  have kept := first id live
  exact (second id (by rwa [kept])).trans kept

theorem Rests.keeps {height : Nat} {node : Node} {page : PageId} (rests : Rests heap height node page)
    (keeps : Keeps heap after) : Rests after height node page := by
  induction rests with
  | leaf fits stored => exact .leaf fits (keeps.stored stored)
  | inner fits stored below induction =>
    exact .inner fits (keeps.stored stored) fun child among => induction child among

theorem Rests.live {height : Nat} {node : Node} {page : PageId}
    (rests : Rests heap height node page) : heap.page page ≠ none := by
  cases rests with
  | leaf fits stored => simp [stored]
  | inner fits stored below => simp [stored]

/-! ## Scanning what rests -/

theorem visit_leaf (descend : PageId → PageM (List UInt32)) (held : List (UInt32 × Signature)) :
    (visit true query descend (held.map Prod.swap)).Returns heap (above query held) heap := by
  induction held with
  | nil => rfl
  | cons entry rest induction =>
    rw [List.map_cons]
    simp only [Prod.swap, visit]
    by_cases reaches : query ≤ entry.2
    · have kept : above query (entry :: rest) = [entry.1] ++ above query rest := by
        simp [above, reaches]
      rw [if_pos (Signature.le_iff_contains.mp reaches), kept]
      apply (returns_pure _ _).bind
      apply PageM.Returns.bind induction
      exact returns_pure _ _
    · have dropped : above query (entry :: rest) = above query rest := by
        simp [above, reaches]
      rw [if_neg (fun contains => reaches (Signature.le_iff_contains.mpr contains)), dropped]
      exact induction

/-- A child that the scan does not enter has nothing to find. -/
theorem search_eq_nil {node : Node} (pruned : ¬ query ≤ node.cover) : node.search query = [] := by
  cases node with
  | leaf cover held => exact if_neg pruned
  | inner cover children => exact if_neg pruned

theorem visit_inner {descend : PageId → PageM (List UInt32)} (placed : List (Node × PageId))
    (descends : ∀ child ∈ placed, (descend child.2).Returns heap (child.1.search query) heap) :
    (visit false query descend (placed.map fun child => (child.1.cover, child.2))).Returns heap
      ((placed.map Prod.fst).flatMap (search query)) heap := by
  induction placed with
  | nil => rfl
  | cons child rest induction =>
    have further := induction fun other among => descends other (List.mem_cons_of_mem child among)
    rw [List.map_cons, List.map_cons, List.flatMap_cons]
    simp only [visit]
    by_cases reaches : query ≤ child.1.cover
    · rw [if_pos (Signature.le_iff_contains.mp reaches)]
      apply PageM.Returns.bind (descends child List.mem_cons_self)
      apply PageM.Returns.bind further
      exact returns_pure _ _
    · rw [if_neg (fun contains => reaches (Signature.le_iff_contains.mpr contains)),
        search_eq_nil reaches, List.nil_append]
      exact further

/-- The scan of a page finds what the search of the node at rest there finds. -/
theorem Rests.searchPage {height : Nat} {node : Node} {page : PageId}
    (rests : Rests heap height node page) :
    ∀ fuel, height < fuel →
      (searchPage fuel page query).Returns heap (node.search query) heap := by
  induction rests with
  | @leaf cover held page fits stored =>
    intro fuel enough
    rcases Nat.exists_eq_add_of_lt enough with ⟨more, rfl⟩
    have small : (held.map Prod.swap).length ≤ diskFanout := by simpa using fits
    rw [Signature.searchPage]
    apply PageM.Returns.bind (returns_readPage stored)
    simp only [flag_buildNode small, count_buildNode small, sig_buildNode small,
      entries_buildNode small]
    by_cases reaches : query ≤ cover
    · rw [if_pos (Signature.le_iff_contains.mp reaches), search, if_pos reaches]
      exact visit_leaf _ held
    · rw [if_neg (fun contains => reaches (Signature.le_iff_contains.mpr contains)),
        search, if_neg reaches]
      exact returns_pure _ _
  | @inner height cover placed page fits stored below induction =>
    intro fuel enough
    rcases Nat.exists_eq_add_of_lt enough with ⟨more, rfl⟩
    have small : (placed.map fun child => (child.1.cover, child.2)).length ≤ diskFanout := by
      simpa using fits
    rw [Signature.searchPage]
    apply PageM.Returns.bind (returns_readPage stored)
    simp only [flag_buildNode small, count_buildNode small, sig_buildNode small,
      entries_buildNode small]
    by_cases reaches : query ≤ cover
    · rw [if_pos (Signature.le_iff_contains.mp reaches), search, if_pos reaches, searchAll_eq]
      apply visit_inner
      intro child among
      exact induction child among _ (by omega)
    · rw [if_neg (fun contains => reaches (Signature.le_iff_contains.mpr contains)),
        search, if_neg reaches]
      exact returns_pure _ _

/-! ## Writing nodes to rest -/

theorem returns_writeNode (isLeaf : Bool) (chunk : List (Signature × UInt32)) {page : PageId}
    {rest : List PageId} (valid : heap.Valid) (supply : heap.supply = page :: rest) :
    ∃ after, (writeNode isLeaf chunk).Returns heap (joinAll (chunk.map Prod.fst), page) after ∧
      after.supply = rest ∧ Keeps heap after ∧
      after.page page = some (buildNode isLeaf (joinAll (chunk.map Prod.fst)) chunk) := by
  let allocated : Heap := { heap.set page Page.zero with supply := rest }
  have live : allocated.page page = some Page.zero := Function.update_self _ _ _
  let node := buildNode isLeaf (joinAll (chunk.map Prod.fst)) chunk
  refine ⟨allocated.set page node, ?_, rfl, ?_, Function.update_self _ _ _⟩
  · apply PageM.Returns.bind (returns_alloc supply)
    apply PageM.Returns.bind (returns_writePage live node)
    exact returns_pure _ _
  · intro id held
    have apart : id ≠ page := by
      rintro rfl
      exact held (valid.supply_free id (by simp [supply]))
    exact (Function.update_of_ne apart _ _).trans (Function.update_of_ne apart _ _)

/-- One node a chunk, each at a page of its own, on the next pages of the supply. -/
theorem returns_writeLevel {ι : Type} (isLeaf : Bool) (view : ι → List (Signature × UInt32))
    (items : List ι) : ∀ {heap : Heap}, heap.Valid → items.length ≤ heap.supply.length →
      ∃ (written : List (ι × PageId)) (after : Heap), written.map Prod.fst = items ∧
        (writeLevel isLeaf (items.map view)).Returns heap
          (written.map fun node => (joinAll ((view node.1).map Prod.fst), node.2)) after ∧
        after.supply = heap.supply.drop items.length ∧ Keeps heap after ∧
        ∀ node ∈ written, after.page node.2 =
          some (buildNode isLeaf (joinAll ((view node.1).map Prod.fst)) (view node.1)) := by
  induction items with
  | nil =>
    intro heap _ _
    exact ⟨[], heap, rfl, rfl, rfl, fun _ _ => rfl, by simp⟩
  | cons item rest induction =>
    intro heap valid room
    cases supply : heap.supply with
    | nil => simp [supply] at room
    | cons page further =>
      rcases returns_writeNode isLeaf (view item) valid supply with
        ⟨middle, returns, left, keeps, stored⟩
      have enough : rest.length ≤ middle.supply.length := by
        simp only [supply, List.length_cons] at room
        rw [left]
        omega
      rcases induction (returns.valid valid) enough with
        ⟨written, after, items, later, remaining, keepsLater, storedLater⟩
      refine ⟨(item, page) :: written, after, by simp [items], ?_, ?_,
        keeps.trans keepsLater, ?_⟩
      · apply PageM.Returns.bind returns
        apply PageM.Returns.bind later
        exact returns_pure _ _
      · rw [remaining, left, List.length_cons, List.drop_succ_cons]
      · intro node among
        rcases List.mem_cons.mp among with rfl | among
        · exact keepsLater.stored stored
        · exact storedLater node among

/-- What is written of a level of nodes: the cover and the page of each. -/
def level (placed : List (Node × PageId)) : List (Signature × PageId) :=
  placed.map fun child => (child.1.cover, child.2)

theorem chunks_level (placed : List (Node × PageId)) :
    chunks diskFanout (level placed) = (chunks diskFanout placed).map level :=
  chunks_map _ _ _

/-- The next level up: the nodes over the chunks of one at rest. -/
theorem returns_writeLevel_inner {height : Nat} {placed : List (Node × PageId)}
    (valid : heap.Valid) (room : (chunks diskFanout placed).length ≤ heap.supply.length)
    (rests : ∀ child ∈ placed, Rests heap height child.1 child.2) :
    ∃ (parents : List (Node × PageId)) (after : Heap),
      parents.map Prod.fst = (chunks diskFanout (placed.map Prod.fst)).map ofChildren ∧
      (writeLevel false (chunks diskFanout (level placed))).Returns heap (level parents) after ∧
      after.supply = heap.supply.drop (chunks diskFanout placed).length ∧
      ∀ parent ∈ parents, Rests after (height + 1) parent.1 parent.2 := by
  rcases returns_writeLevel false level (chunks diskFanout placed) valid room with
    ⟨written, after, items, returns, supply, keeps, stored⟩
  have covers : ∀ chunk : List (Node × PageId),
      (level chunk).map Prod.fst = (chunk.map Prod.fst).map cover := by
    intro chunk
    simp [level]
  refine ⟨written.map fun node => (ofChildren (node.1.map Prod.fst), node.2), after, ?_, ?_,
    supply, ?_⟩
  · rw [chunks_map, ← items]
    simp
  · rw [chunks_level]
    convert returns using 1
    rw [level, List.map_map]
    apply List.map_congr_left
    intro node _
    simp only [Function.comp, covers]
    rfl
  · intro parent among
    rcases List.mem_map.mp among with ⟨node, member, rfl⟩
    have chunk : node.1 ∈ chunks diskFanout placed := by
      rw [← items]
      exact List.mem_map_of_mem member
    apply Rests.inner (length_le_of_mem_chunks (by decide) chunk)
    · rw [stored node member, covers]
      rfl
    · intro child held
      apply (rests child ?_).keeps keeps
      rw [← flatten_chunks (by decide : 0 < diskFanout) placed]
      exact List.mem_flatten.mpr ⟨node.1, chunk, held⟩

/-- A level needs at most half as many nodes above it. -/
theorem two_mul_length_chunks_le {α : Type} {list : List α} (many : 1 < list.length) :
    2 * (chunks diskFanout list).length ≤ list.length := by
  have bound := length_chunks_le (by decide : 0 < diskFanout) list
  rw [diskFanout_eq] at bound ⊢
  omega

/-- The levels written are those of the tree, and the root rests. -/
theorem returns_writeLevels (fuel : Nat) : ∀ {heap : Heap} {height : Nat}
    {placed : List (Node × PageId)}, heap.Valid → placed.length ≤ heap.supply.length →
      (∀ child ∈ placed, Rests heap height child.1 child.2) →
      ∃ (top : List (Node × PageId)) (reached : Nat) (after : Heap),
        top.map Prod.fst = stack diskFanout fuel (placed.map Prod.fst) ∧
        (writeLevels fuel (level placed)).Returns heap (level top) after ∧
        reached ≤ height + fuel ∧ ∀ node ∈ top, Rests after reached node.1 node.2 := by
  induction fuel with
  | zero =>
    intro heap height placed valid room rests
    exact ⟨placed, height, heap, rfl, rfl, Nat.le_refl _, rests⟩
  | succ fuel induction =>
    intro heap height placed valid room rests
    by_cases many : 1 < placed.length
    · have half := two_mul_length_chunks_le many
      rcases returns_writeLevel_inner valid (by omega) rests with
        ⟨parents, middle, nodes, returns, supply, restsAbove⟩
      have count : parents.length = (chunks diskFanout placed).length := by
        have lengths := congrArg List.length nodes
        simpa [chunks_map] using lengths
      have enough : parents.length ≤ middle.supply.length := by
        rw [supply, List.length_drop, count]
        omega
      rcases induction (returns.valid valid) enough restsAbove with
        ⟨top, reached, after, tops, later, bounded, final⟩
      refine ⟨top, reached, after, ?_, ?_, by omega, final⟩
      · rw [stack, if_pos (by simpa using many), ← nodes, tops]
      · rw [writeLevels, if_pos (by simpa [level] using many)]
        exact PageM.Returns.bind returns later
    · refine ⟨placed, height, heap, ?_, ?_, by omega, rests⟩
      · rw [stack, if_neg (by simpa using many)]
      · rw [writeLevels, if_neg (by simpa [level] using many)]
        exact returns_pure _ _

end Rest

/-! ## The tree on disk -/

namespace DiskTree

/-- The supply has the pages of the leaves, and as many again for the levels
above them. -/
def HasRoom (heap : Heap) (entries : List (UInt32 × Signature)) : Prop :=
  2 * ((entries.length + diskFanout - 1) / diskFanout) ≤ heap.supply.length

theorem clustered_ne_nil {entries : List (UInt32 × Signature)} (nonempty : entries ≠ []) :
    clustered entries ≠ [] := by
  intro none
  have permuted := clustered_perm entries
  rw [none] at permuted
  exact nonempty permuted.nil_eq.symm

/-- The leaves as they are written. -/
theorem returns_leaves {heap : Heap} (entries : List (UInt32 × Signature)) (valid : heap.Valid)
    (room : (chunks diskFanout entries).length ≤ heap.supply.length) :
    ∃ (leaves : List (Node × PageId)) (after : Heap),
      leaves.map Prod.fst = (chunks diskFanout entries).map ofEntries ∧
      (writeLevel true ((chunks diskFanout entries).map fun chunk => chunk.map Prod.swap)).Returns
        heap (level leaves) after ∧
      after.supply = heap.supply.drop (chunks diskFanout entries).length ∧
      ∀ leaf ∈ leaves, Rests after 0 leaf.1 leaf.2 := by
  rcases returns_writeLevel true (fun chunk => chunk.map Prod.swap) (chunks diskFanout entries)
    valid room with ⟨written, after, items, returns, supply, keeps, stored⟩
  have covers : ∀ chunk : List (UInt32 × Signature),
      (chunk.map Prod.swap).map Prod.fst = chunk.map Prod.snd := by
    intro chunk
    simp
  refine ⟨written.map fun node => (ofEntries node.1, node.2), after, ?_, ?_, supply, ?_⟩
  · rw [← items]
    simp
  · convert returns using 1
    rw [level, List.map_map]
    apply List.map_congr_left
    intro node _
    simp only [Function.comp, covers]
    rfl
  · intro leaf among
    rcases List.mem_map.mp among with ⟨node, member, rfl⟩
    have chunk : node.1 ∈ chunks diskFanout entries := by
      rw [← items]
      exact List.mem_map_of_mem member
    apply Rests.leaf (length_le_of_mem_chunks (by decide) chunk)
    rw [stored node member, covers]

/-- With room for its pages the tree is built, and its root rests. -/
theorem returns_build {heap : Heap} {entries : List (UInt32 × Signature)} (valid : heap.Valid)
    (nonempty : entries ≠ []) (room : HasRoom heap entries) :
    ∃ (tree : DiskTree) (after : Heap) (root : Node) (height : Nat),
      (build entries).Returns heap tree after ∧ tree.entityCount = entries.length ∧
      tree.root ≠ 0 ∧ height < pageLimit ∧ Rests after height root tree.root ∧
      bulk diskFanout (clustered entries) = [root] := by
  have bound := length_chunks_le (by decide : 0 < diskFanout) (clustered entries)
  rw [(clustered_perm entries).length_eq] at bound
  have pages := length_le_pageLimit valid.supply_nodup
  rw [HasRoom] at room
  rcases returns_leaves (clustered entries) valid (by omega) with
    ⟨leaves, middle, nodes, returns, supply, rests⟩
  have count : leaves.length = (chunks diskFanout (clustered entries)).length := by
    have lengths := congrArg List.length nodes
    simpa using lengths
  have enough : leaves.length ≤ middle.supply.length := by
    rw [supply, List.length_drop, count]
    omega
  rcases returns_writeLevels leaves.length (returns.valid valid) enough rests with
    ⟨top, height, after, tops, later, bounded, final⟩
  rcases bulk_spec (by decide : 2 ≤ diskFanout) (clustered_ne_nil nonempty) with ⟨root, single, -, -⟩
  have bulked : bulk diskFanout (clustered entries) = top.map Prod.fst := by
    rw [tops, nodes, bulk, List.length_map, count]
  have alone : top.map Prod.fst = [root] := by rw [← bulked, single]
  have shape : ∃ page, top = [(root, page)] := by
    rcases List.map_eq_singleton_iff.mp alone with ⟨⟨node, page⟩, rfl, rfl⟩
    exact ⟨page, rfl⟩
  rcases shape with ⟨page, rfl⟩
  have rest := final (root, page) (List.mem_singleton_self _)
  have apart : page ≠ 0 := by
    rintro rfl
    exact rest.live ((later.valid (returns.valid valid)).header_free)
  have limit : 0 < pageLimit := by decide
  have built : ∃ last, (build entries).Returns heap ⟨page, entries.length⟩ last ∧
      Keeps after last := by
    have same : (level leaves).length = leaves.length := by simp [level]
    let rooted := Function.update after.roots rootSlot (UInt64.ofNat page.toNat)
    let counted := Function.update rooted countSlot (UInt64.ofNat entries.length)
    refine ⟨{ after with roots := counted }, ?_, fun id _ => rfl⟩
    rw [build, if_neg nonempty]
    apply PageM.Returns.bind returns
    rw [same]
    apply PageM.Returns.bind later
    apply PageM.Returns.bind (returns_setRoot _ _)
    apply PageM.Returns.bind (returns_setRoot _ _)
    exact returns_pure _ _
  rcases built with ⟨last, built, keeps⟩
  exact ⟨⟨page, entries.length⟩, last, root, height, built, rfl, apart, by omega,
    rest.keeps keeps, single⟩

/-- The tree built over the entries returns those that include the query. -/
theorem build_candidates {heap : Heap} {entries : List (UInt32 × Signature)} (valid : heap.Valid)
    (room : HasRoom heap entries) :
    ∃ (tree : DiskTree) (after : Heap), (build entries).Returns heap tree after ∧
      ∀ query, ∃ answer, (tree.candidates query).Returns after answer after ∧
        (answer = none ↔ entries = []) ∧ (answer.getD []).Perm (above query entries) := by
  by_cases nonempty : entries = []
  · subst nonempty
    exact ⟨⟨0, 0⟩, _, rfl, fun query => ⟨none, rfl, by simp, .refl _⟩⟩
  · rcases returns_build valid nonempty room with
      ⟨tree, after, root, height, returns, -, apart, low, rests, single⟩
    rcases bulk_spec (by decide : 2 ≤ diskFanout) (clustered_ne_nil nonempty) with ⟨other, alone, covers, held⟩
    have same : root = other := by
      rw [single] at alone
      exact List.singleton_inj.mp alone
    subst same
    refine ⟨tree, after, returns, ?_⟩
    intro query
    refine ⟨some (root.search query), ?_, by simp [nonempty], ?_⟩
    · rw [candidates, if_neg apart]
      apply PageM.Returns.bind (rests.searchPage pageLimit low)
      exact returns_pure _ _
    · rw [Option.getD_some, covers.search_eq query, held]
      exact above_perm (clustered_perm entries)

/-- A pager on a new file: page 0 is the header, and `alloc` counts up until the
page count would overflow. -/
def newFile : Heap where
  page := fun _ => none
  supply := (List.range (pageLimit - 2)).map fun number => UInt32.ofNat (number + 1)
  roots := fun _ => 0

theorem newFile_valid : newFile.Valid where
  supply_nodup := by
    apply List.Nodup.map_on _ List.nodup_range
    intro left leftBelow right rightBelow same
    rw [List.mem_range] at leftBelow rightBelow
    have numbers := congrArg UInt32.toNat same
    rw [pageLimit] at leftBelow rightBelow
    simp only [UInt32.toNat_ofNat'] at numbers
    omega
  supply_free := fun _ _ => rfl
  supply_ne_zero := by
    intro id member
    simp only [newFile, List.mem_map, List.mem_range] at member
    rcases member with ⟨number, below, rfl⟩
    rw [pageLimit] at below
    intro zero
    have numbers := congrArg UInt32.toNat zero
    simp only [UInt32.toNat_ofNat', UInt32.toNat_zero] at numbers
    omega
  header_free := rfl

/-- A new file has room for the entities there can be. -/
theorem newFile_hasRoom {entries : List (UInt32 × Signature)}
    (unique : (entries.map Prod.fst).Nodup) : HasRoom newFile entries := by
  have few := length_le_pageLimit unique
  have size : newFile.supply.length = pageLimit - 2 := by
    rw [newFile, List.length_map, List.length_range]
  rw [HasRoom, size, diskFanout_eq]
  rw [List.length_map] at few
  rw [pageLimit] at few ⊢
  omega

end DiskTree

end GStore.Signature
