import AutomatonCore.Io.Hex

/-!
# The blobstore

New blobs are put behind the last one and nothing moves, so the store is kept
here as the log of what was stored.
-/

namespace AutomatonCore.Storage

open Io List

/-- `storage::blobstore`: the stored blobs with their ids, newest first. -/
structure Blobstore where
  blobs : List (Nat × Bytes)
  nextFree : Nat

namespace Blobstore

def create : Blobstore where
  blobs := []
  nextFree := 0

def sizeInInt32 (size : Nat) : Nat :=
  if size % 4 ≠ 0 then size / 4 + 1 else size / 4

def store (blobstore : Blobstore) (data : Bytes) : Blobstore × Nat :=
  ({ blobs := (blobstore.nextFree, data) :: blobstore.blobs
     nextFree := blobstore.nextFree + (sizeInInt32 data.length + 1) },
    blobstore.nextFree)

/-- An id reads the bytes that were given to the call which returned it. -/
def get (blobstore : Blobstore) (id : Nat) : Bytes :=
  (blobstore.blobs.lookup id).getD []

variable {bs : Blobstore} {data : Bytes} {id : Nat}

@[simp]
theorem get_store_self : (bs.store data).1.get (bs.store data).2 = data := by simp [store, get]

theorem get_store_of_lt (old : id < bs.nextFree) : (bs.store data).1.get id = bs.get id := by
  have ne : (id == bs.nextFree) = false := by
    simp
    omega
  simp [store, get, lookup_cons, ne]

@[simp]
theorem store_id : (bs.store data).2 = bs.nextFree :=
  rfl

theorem nextFree_lt_store : bs.nextFree < (bs.store data).1.nextFree := by simp [store]

theorem mem_store : (bs.nextFree, data) ∈ (bs.store data).1.blobs := mem_cons_self

theorem subset_store : bs.blobs ⊆ (bs.store data).1.blobs := subset_cons_self _ _

end Blobstore

def uint32Bytes (number : UInt32) : Bytes :=
  [UInt8.ofNat number.toNat, UInt8.ofNat (number.toNat / 2 ^ 8),
    UInt8.ofNat (number.toNat / 2 ^ 16), UInt8.ofNat (number.toNat / 2 ^ 24)]

/-- Read a `uint32_t` through a pointer to bytes.  Missing bytes are zero:
the only blob that is read with fewer bytes is the empty blob zero, which is
followed by the size of another empty blob. -/
def readUInt32 (bytes : Bytes) : UInt32 :=
  UInt32.ofNat ((bytes.getD 0 0).toNat + (bytes.getD 1 0).toNat * 2 ^ 8 +
      (bytes.getD 2 0).toNat * 2 ^ 16 + (bytes.getD 3 0).toNat * 2 ^ 24)

@[simp]
theorem readUInt32_uint32Bytes (n : UInt32) : readUInt32 (uint32Bytes n) = n := by
  have small : n.toNat < 2 ^ 32 := n.toNat_lt
  have whole :
      n.toNat % 2 ^ 8 + n.toNat / 2 ^ 8 % 2 ^ 8 * 2 ^ 8 + n.toNat / 2 ^ 16 % 2 ^ 8 * 2 ^ 16 +
        n.toNat / 2 ^ 24 % 2 ^ 8 * 2 ^ 24 = n.toNat := by
    omega
  simp only [readUInt32, uint32Bytes, getD_cons_zero,
    getD_cons_succ, UInt8.toNat_ofNat', whole, UInt32.ofNat_toNat]

end AutomatonCore.Storage
