import GStore.Foundation.Bytes

/-! # Pages of the paged file -/

namespace GStore.Kvstore

/-- Fixed disk-block size. -/
def pageSize : Nat := 4096

/-- A page index into the file. Page 0 is the header; 0 also means "null". -/
abbrev PageId := UInt32

/-- A disk block, `[u8; PAGE_SIZE]`. -/
structure Page where
  bytes : Bytes
  size_eq : bytes.length = pageSize
deriving DecidableEq

namespace Page

@[ext] theorem ext {left right : Page} (same : left.bytes = right.bytes) : left = right := by
  cases left
  cases right
  cases same
  rfl

/-- `bytes` copied to the front of a zeroed block. -/
def ofBytes (bytes : Bytes) : Page where
  bytes := (bytes ++ List.replicate pageSize 0).take pageSize
  size_eq := by simp

@[simp] theorem ofBytes_bytes (page : Page) : ofBytes page.bytes = page := by
  apply Page.ext
  exact List.take_left' page.size_eq

theorem bytes_ofBytes {bytes : Bytes} (fits : bytes.length ≤ pageSize) :
    (ofBytes bytes).bytes = bytes ++ List.replicate (pageSize - bytes.length) 0 := by
  change (bytes ++ List.replicate pageSize 0).take pageSize = _
  rw [List.take_append, List.take_of_length_le fits, List.take_replicate,
    Nat.min_eq_left (Nat.sub_le _ _)]

def zero : Page := ofBytes []

end Page

/-- The offset of a page in the file. -/
def pageOffset (id : PageId) : Nat := id.toNat * pageSize

end GStore.Kvstore
