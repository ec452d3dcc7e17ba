import AutomatonCore.Storage.PersistentBlobstore

/-!
# The array of a blobstore

The array is on the heap and has the layout of a persistent blobstore, but no
header.  The memory never runs out.
-/

namespace AutomatonCore.Storage

open Io Library List
open Blobstore (sizeInInt32)
open PersistentBlobstore (Holds advance blobWords length_sized lt_advance
  sizeInInt32_bounds written)

/-- `storage::blobstore` with its array; `next_free` and `capacity` count
words. -/
structure BlobArray where
  storage : Bytes
  nextFree : Nat
  capacity : Nat

namespace BlobArray

def firstCapacity : Nat := 2 ^ 28

section Model

-- the bytes of a new array, by its number of words
variable (uninitialized : Nat → Nat → UInt8)

/-- What `new` finds in the memory is not known, so it is a parameter. -/
def allocate (words : Nat) : Bytes :=
  (List.range (4 * words)).map (uninitialized words)

def construct : BlobArray where
  storage := allocate uninitialized firstCapacity
  nextFree := 0
  capacity := firstCapacity

/-- The array is copied into one of twice the size, once, if the words from
`next_free` on do not fit. -/
def grow (blobstore : BlobArray) (words : Nat) : BlobArray :=
  if blobstore.nextFree + words ≥ blobstore.capacity then
    let capacity := blobstore.capacity * 2
    -- half of the bytes of the new array are copied
    let copied := blobstore.storage.take (capacity * 2)
    { blobstore with
      storage := splice (allocate uninitialized capacity) 0 copied
      capacity }
  else blobstore

def createBlob (blobstore : BlobArray) (size : Nat) :
    Result (BlobArray × Nat) := do
  let grown := grow uninitialized blobstore (sizeInInt32 size)
  let storage ← MappedFile.writeInteger 4 grown.storage (4 * blobstore.nextFree) size
  let nextFree := blobstore.nextFree + (sizeInInt32 size + 1)
  return ({ grown with storage, nextFree }, blobstore.nextFree)

def store (blobstore : BlobArray) (data : Bytes) :
    Result (BlobArray × Nat) := do
  let (created, id) ← createBlob uninitialized blobstore data.length
  let storage ← MappedFile.write created.storage (4 * (id + 1)) data
  return ({ created with storage }, id)

def storeAll : BlobArray → List Bytes → Result (BlobArray × List Nat)
  | blobstore, [] => return (blobstore, [])
  | blobstore, data :: rest => do
    let (next, id) ← store uninitialized blobstore data
    let (final, ids) ← storeAll next rest
    return (final, id :: ids)

end Model

/-- `get`: what is put into `*size` and the byte that the pointer points to,
or nothing if the null pointer is returned. -/
def get (blobstore : BlobArray) (id : Nat) : Result (Option (Nat × Nat)) :=
  if id + 1 ≥ blobstore.capacity then return none
  else do
    let size ← MappedFile.readInteger 4 blobstore.storage (4 * id)
    return some (size, 4 * (id + 1))

def asMapped (blobstore : BlobArray) : PersistentBlobstore :=
  ⟨blobstore.storage, true, blobstore.nextFree, blobstore.capacity⟩

def firstCursor : Nat × Nat :=
  (0, firstCapacity)

variable (uninitialized : Nat → Nat → UInt8) {bs : BlobArray}
  {blobs : List (Nat × Bytes)} {data : Bytes}

theorem length_allocate (words : Nat) : (allocate uninitialized words).length = 4 * words := by
  rw [allocate, length_map, length_range]

theorem two_le_firstCapacity : 2 ≤ firstCapacity := by
  rw [firstCapacity]
  omega

theorem construct_holds : Holds (construct uninitialized).asMapped [] := by
  have capacity := two_le_firstCapacity
  have length := length_allocate uninitialized firstCapacity
  rw [construct]
  generalize firstCapacity = words at capacity length ⊢
  exact
    { mapped := rfl
      length := length
      positive := lt_of_lt_of_le Nat.two_pos capacity
      room := Nat.zero_le _
      placed := by simp }

theorem grow_eq (data : Bytes) (holds : Holds bs.asMapped blobs) :
    ∃ more, grow uninitialized bs (sizeInInt32 data.length) =
          ⟨bs.storage ++ more, bs.nextFree, (advance bs.asMapped.cursor data).2⟩ ∧
        (bs.storage ++ more).length = 4 * (advance bs.asMapped.cursor data).2 := by
  have length : bs.storage.length = 4 * bs.capacity := holds.length
  by_cases full : bs.nextFree + sizeInInt32 data.length ≥ bs.capacity
  · have doubled : (advance bs.asMapped.cursor data).2 = bs.capacity * 2 := if_pos full
    have copied : bs.storage.take (bs.capacity * 2 * 2) = bs.storage := take_of_length_le (by omega)
    refine ⟨(allocate uninitialized (bs.capacity * 2)).drop bs.storage.length, ?_, ?_⟩
    · rw [grow, if_pos full, doubled]
      dsimp only
      rw [copied, splice, take_zero, nil_append, zero_add]
    · rw [length_append, length_drop, length_allocate]
      omega
  · have same : (advance bs.asMapped.cursor data).2 = bs.capacity := if_neg full
    refine ⟨[], ?_, ?_⟩
    · rw [grow, if_neg full, same, append_nil]
    · rw [append_nil, same]
      exact length

theorem store_inside (holds : Holds bs.asMapped blobs)
    (fits : bs.nextFree + sizeInInt32 data.length < bs.capacity * 2)
    (small : data.length < 2 ^ 32) :
    ∃ next, store uninitialized bs data = .ok (next, bs.nextFree) ∧
        next.asMapped.cursor = advance bs.asMapped.cursor data ∧
          Holds next.asMapped (blobs ++ [(bs.nextFree, data)]) := by
  obtain ⟨more, grown, length⟩ := grow_eq uninitialized data holds
  have rounding := sizeInInt32_bounds data.length
  have enough : bs.nextFree + sizeInInt32 data.length < (advance bs.asMapped.cursor data).2 :=
    lt_advance bs.asMapped.cursor data fits
  have sizeInside : 4 * bs.nextFree + 4 ≤ (bs.storage ++ more).length := by omega
  have sized := length_sized data sizeInside
  refine ⟨⟨written (bs.storage ++ more) bs.nextFree data,
      bs.nextFree + blobWords data, (advance bs.asMapped.cursor data).2⟩, ?_, rfl,
      holds.written small length enough⟩
  rw [store, createBlob, grown, MappedFile.writeInteger_eq _ sizeInside]
  dsimp only [Result.ok_bind, Result.pure_eq_ok]
  rw [MappedFile.write_eq (by omega)]
  rfl

theorem store_outside (holds : Holds bs.asMapped blobs)
    (large : bs.capacity * 2 ≤ bs.nextFree + sizeInInt32 data.length) :
    store uninitialized bs data = .error .accessViolation := by
  obtain ⟨more, grown, length⟩ := grow_eq uninitialized data holds
  have pos : 0 < bs.capacity := holds.positive
  have room : bs.nextFree ≤ bs.capacity := holds.room
  have rounding := sizeInInt32_bounds data.length
  have doubled : (advance bs.asMapped.cursor data).2 = bs.capacity * 2 :=
    if_pos (show bs.capacity ≤ bs.nextFree + _ by omega)
  have sizeInside : 4 * bs.nextFree + 4 ≤ (bs.storage ++ more).length := by omega
  have outside : ¬ 4 * (bs.nextFree + 1) + data.length ≤
        (splice (bs.storage ++ more) (4 * bs.nextFree)
          (Library.littleEndian 4 data.length)).length := by
    rw [length_sized data sizeInside]
    omega
  rw [store, createBlob, grown, MappedFile.writeInteger_eq _ sizeInside]
  simp only [Result.ok_bind, Result.pure_eq_ok, MappedFile.write, if_neg outside, Result.error_bind]

end BlobArray

end AutomatonCore.Storage
