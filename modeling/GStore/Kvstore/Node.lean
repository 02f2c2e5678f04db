import GStore.Kvstore.PageM

/-! # B+ tree nodes and their pages

`bptree.rs`: the in-memory view of a node page. The source keeps keys beside values
(or children) in parallel vectors; here they are one list of pairs, and the leaf flag
is the constructor. -/

namespace GStore.Kvstore

inductive Node where
  /-- `link` is the next leaf page, 0 for none. -/
  | leaf (link : PageId) (entries : List (Bytes × Bytes))
  /-- `link` is the child for keys below the first separator. -/
  | internal (link : PageId) (entries : List (Bytes × PageId))
deriving DecidableEq

namespace Node

def isLeaf : Node → Bool
  | leaf _ _ => true
  | internal _ _ => false

def link : Node → PageId
  | leaf link _ => link
  | internal link _ => link

def keys : Node → List Bytes
  | leaf _ entries => entries.map Prod.fst
  | internal _ entries => entries.map Prod.fst

/-! ## Serialization -/

def leafEntrySize (entry : Bytes × Bytes) : Nat := 2 + entry.1.length + (2 + entry.2.length)

def internalEntrySize (entry : Bytes × PageId) : Nat := 2 + entry.1.length + 4

/-- Serialized byte size. -/
def size : Node → Nat
  | leaf _ entries => 1 + 4 + 2 + (entries.map leafEntrySize).sum
  | internal _ entries => 1 + 4 + 2 + (entries.map internalEntrySize).sum

def field (bytes : Bytes) : Bytes := le16 bytes.length ++ bytes

def leafEntry (entry : Bytes × Bytes) : Bytes := field entry.1 ++ field entry.2

def internalEntry (entry : Bytes × PageId) : Bytes := field entry.1 ++ le32 entry.2

def body : Node → Bytes
  | leaf link entries => 1 :: le32 link ++ le16 entries.length ++ entries.flatMap leafEntry
  | internal link entries =>
    0 :: le32 link ++ le16 entries.length ++ entries.flatMap internalEntry

/-- The node's page. Writing past the end of the page buffer panics. -/
def serialize (node : Node) : Option Page :=
  if node.size ≤ pageSize then some (Page.ofBytes node.body) else none

/-! ## Parsing -/

/-- A length-prefixed byte string at the front of `bytes`, and the rest. -/
def takeField (bytes : Bytes) : Option (Bytes × Bytes) :=
  if bytes.length < 2 then none
  else
    let length := ofLe16 (bytes.take 2)
    if bytes.length < 2 + length then none
    else some (slice bytes 2 (2 + length), bytes.drop (2 + length))

def takePageId (bytes : Bytes) : Option (PageId × Bytes) :=
  if bytes.length < 4 then none else some (ofLe32 (bytes.take 4), bytes.drop 4)

def parseLeaf : Nat → Bytes → Option (List (Bytes × Bytes))
  | 0, _ => some []
  | count + 1, bytes => do
    let (key, bytes) ← takeField bytes
    let (value, bytes) ← takeField bytes
    let entries ← parseLeaf count bytes
    return (key, value) :: entries

def parseInternal : Nat → Bytes → Option (List (Bytes × PageId))
  | 0, _ => some []
  | count + 1, bytes => do
    let (key, bytes) ← takeField bytes
    let (child, bytes) ← takePageId bytes
    let entries ← parseInternal count bytes
    return (key, child) :: entries

/-- The node of a page, `none` where the source would panic on a malformed one. -/
def parse (page : Page) : Option Node :=
  let link := ofLe32 (slice page.bytes 1 5)
  let count := ofLe16 (slice page.bytes 5 7)
  if page.bytes[0]? ≠ some 0 then
    (parseLeaf count (page.bytes.drop 7)).map (leaf link)
  else
    (parseInternal count (page.bytes.drop 7)).map (internal link)

/-! ## Round trip -/

@[simp] theorem length_field (bytes : Bytes) : (field bytes).length = 2 + bytes.length := by
  simp [field]

theorem takeField_field {bytes : Bytes} (small : bytes.length < 2 ^ 16) (rest : Bytes) :
    takeField (field bytes ++ rest) = some (bytes, rest) := by
  have count : (field bytes ++ rest).take 2 = le16 bytes.length := by
    rw [field, List.append_assoc]
    exact List.take_left' (length_le16 _)
  have whole : (field bytes ++ rest).length = 2 + bytes.length + rest.length := by simp
  rw [takeField, if_neg (by omega)]
  simp only [count, ofLe16_le16 small]
  rw [if_neg (by omega)]
  have contents : slice (field bytes ++ rest) 2 (2 + bytes.length) = bytes := by
    rw [field]
    exact slice_append (length_le16 _) (by rw [length_le16])
  rw [contents, List.drop_left' (length_field bytes)]

theorem takePageId_le32 (id : PageId) (rest : Bytes) :
    takePageId (le32 id ++ rest) = some (id, rest) := by
  rw [takePageId, if_neg (by simp), List.take_left' (length_le32 id),
    List.drop_left' (length_le32 id), ofLe32_le32]

theorem parseLeaf_flatMap {entries : List (Bytes × Bytes)} (rest : Bytes)
    (small : ∀ entry ∈ entries, entry.1.length < 2 ^ 16 ∧ entry.2.length < 2 ^ 16) :
    parseLeaf entries.length (entries.flatMap leafEntry ++ rest) = some entries := by
  induction entries with
  | nil => rfl
  | cons entry entries induction =>
    have bounds := small entry List.mem_cons_self
    have further := induction fun other member => small other (List.mem_cons_of_mem _ member)
    simp [parseLeaf, leafEntry, takeField_field bounds.1, takeField_field bounds.2, further]

theorem parseInternal_flatMap {entries : List (Bytes × PageId)} (rest : Bytes)
    (small : ∀ entry ∈ entries, entry.1.length < 2 ^ 16) :
    parseInternal entries.length (entries.flatMap internalEntry ++ rest) = some entries := by
  induction entries with
  | nil => rfl
  | cons entry entries induction =>
    have bound := small entry List.mem_cons_self
    have further := induction fun other member => small other (List.mem_cons_of_mem _ member)
    simp [parseInternal, internalEntry, takeField_field bound, takePageId_le32, further]

theorem length_body (node : Node) : node.body.length = node.size := by
  have leafLength : ∀ entries : List (Bytes × Bytes),
      (entries.flatMap leafEntry).length = (entries.map leafEntrySize).sum := by
    intro entries
    induction entries with
    | nil => rfl
    | cons entry entries induction =>
      simp [leafEntry, leafEntrySize, induction]
      omega
  have internalLength : ∀ entries : List (Bytes × PageId),
      (entries.flatMap internalEntry).length = (entries.map internalEntrySize).sum := by
    intro entries
    induction entries with
    | nil => rfl
    | cons entry entries induction =>
      simp [internalEntry, internalEntrySize, induction]
      omega
  cases node with
  | leaf link entries =>
    simp [body, size, leafLength]
    omega
  | internal link entries =>
    simp [body, size, internalLength]
    omega

theorem le_sum_of_mem {α : Type} {weight : α → Nat} {entry : α} {entries : List α}
    (member : entry ∈ entries) : weight entry ≤ (entries.map weight).sum := by
  induction entries with
  | nil => cases member
  | cons first rest induction =>
    rw [List.map_cons, List.sum_cons]
    rcases List.mem_cons.mp member with same | further
    · rw [same]
      omega
    · have bound := induction further
      omega

theorem length_le_sum {α : Type} {weight : α → Nat} (positive : ∀ entry, 0 < weight entry)
    (entries : List α) : entries.length ≤ (entries.map weight).sum := by
  induction entries with
  | nil => simp
  | cons first rest induction =>
    have bound := positive first
    rw [List.map_cons, List.sum_cons, List.length_cons]
    omega

theorem leafEntrySize_pos (entry : Bytes × Bytes) : 0 < leafEntrySize entry := by
  rw [leafEntrySize]
  omega

theorem internalEntrySize_pos (entry : Bytes × PageId) : 0 < internalEntrySize entry := by
  rw [internalEntrySize]
  omega

/-- The parts of a node page, read at their offsets. -/
theorem parts_of_header {flag : UInt8} {linkBytes countBytes rest bytes : Bytes}
    (linkLength : linkBytes.length = 4) (countLength : countBytes.length = 2)
    (layout : bytes = flag :: linkBytes ++ countBytes ++ rest) :
    bytes[0]? = some flag ∧ slice bytes 1 5 = linkBytes ∧ slice bytes 5 7 = countBytes ∧
      bytes.drop 7 = rest := by
  subst layout
  refine ⟨rfl, ?_, ?_, ?_⟩
  · have grouped : flag :: linkBytes ++ countBytes ++ rest =
        [flag] ++ linkBytes ++ (countBytes ++ rest) := by simp
    rw [grouped]
    exact slice_append rfl (by simp [linkLength])
  · have grouped : flag :: linkBytes ++ countBytes ++ rest =
        ([flag] ++ linkBytes) ++ countBytes ++ rest := by simp
    rw [grouped]
    exact slice_append (by simp [linkLength]) (by simp [linkLength, countLength])
  · exact List.drop_left' (by simp [linkLength, countLength])

/-- A page that was written is read back as the node it was written from. -/
theorem parse_serialize {node : Node} {page : Page} (written : node.serialize = some page) :
    parse page = some node := by
  rw [serialize] at written
  split at written
  · next fits =>
      cases written
      have small : pageSize < 2 ^ 16 := by decide
      have bytes := Page.bytes_ofBytes (node.length_body.le.trans fits)
      generalize List.replicate (pageSize - node.body.length) (0 : UInt8) = zeros at bytes
      cases node with
      | leaf link entries =>
        have entrySizes : ∀ entry ∈ entries,
            entry.1.length < 2 ^ 16 ∧ entry.2.length < 2 ^ 16 := by
          intro entry member
          have bound : leafEntrySize entry ≤ _ := le_sum_of_mem member
          rw [leafEntrySize] at bound
          simp only [size] at fits
          omega
        have count : entries.length < 2 ^ 16 := by
          have bound := length_le_sum leafEntrySize_pos entries
          simp only [size] at fits
          omega
        have layout : (Page.ofBytes (leaf link entries).body).bytes =
            1 :: le32 link ++ le16 entries.length ++
              (entries.flatMap leafEntry ++ zeros) := by
          rw [bytes]
          simp [body]
        rcases parts_of_header (length_le32 link) (length_le16 _) layout with
          ⟨flag, linkEq, countEq, restEq⟩
        simp only [parse, flag, linkEq, countEq, restEq, ofLe32_le32, ofLe16_le16 count,
          parseLeaf_flatMap zeros entrySizes]
        simp
      | internal link entries =>
        have entrySizes : ∀ entry ∈ entries, entry.1.length < 2 ^ 16 := by
          intro entry member
          have bound : internalEntrySize entry ≤ _ := le_sum_of_mem member
          rw [internalEntrySize] at bound
          simp only [size] at fits
          omega
        have count : entries.length < 2 ^ 16 := by
          have bound := length_le_sum internalEntrySize_pos entries
          simp only [size] at fits
          omega
        have layout : (Page.ofBytes (internal link entries).body).bytes =
            0 :: le32 link ++ le16 entries.length ++
              (entries.flatMap internalEntry ++ zeros) := by
          rw [bytes]
          simp [body]
        rcases parts_of_header (length_le32 link) (length_le16 _) layout with
          ⟨flag, linkEq, countEq, restEq⟩
        simp only [parse, flag, linkEq, countEq, restEq, ofLe32_le32, ofLe16_le16 count,
          parseInternal_flatMap zeros entrySizes]
        simp
  · cases written

theorem serialize_of_fits {node : Node} (fits : node.size ≤ pageSize) :
    node.serialize = some (Page.ofBytes node.body) :=
  if_pos fits

theorem serialize_eq_none {node : Node} (overflows : pageSize < node.size) :
    node.serialize = none :=
  if_neg (by omega)

end Node

end GStore.Kvstore
