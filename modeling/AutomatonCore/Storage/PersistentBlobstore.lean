import AutomatonCore.Library.Lockstep
import AutomatonCore.Storage.Blobstore
import AutomatonCore.Storage.MappedFile

/-!
# Persistent blobstores

The blobs are in a mapped file of 32-bit words, behind a header of 1024 bytes.
-/

namespace AutomatonCore.Storage

open Io Library List
open Blobstore (sizeInInt32)

/-- `persistent_blobstore` with the file that it maps; `next_free` and
`capacity` count words. -/
structure PersistentBlobstore where
  file : Bytes
  isMapped : Bool
  nextFree : Nat
  capacity : Nat

namespace PersistentBlobstore

def curVersion : Nat := 10000

/-- `next_free` as the constructor sets it: the word behind the header. -/
def firstFree : Nat := 1024 / 4

def newFileSize : Nat := 2 ^ 10

/-- The file is made twice as long, once, if the words from `next_free` on do
not fit. -/
def grow (blobstore : PersistentBlobstore) (words : Nat) : Result PersistentBlobstore :=
  if blobstore.nextFree + words ≥ blobstore.capacity then do
    let file ← MappedFile.resizeFile blobstore.file (blobstore.capacity * 2 * 4)
    return { blobstore with file, capacity := file.length / 4 }
  else return blobstore

def createBlob (blobstore : PersistentBlobstore) (size : Nat) :
    Result (PersistentBlobstore × Nat) :=
  if blobstore.isMapped = false then .error .notMapped
  else do
    let grown ← blobstore.grow (sizeInInt32 size)
    let file ← MappedFile.writeInteger 4 grown.file (4 * blobstore.nextFree) size
    let nextFree := blobstore.nextFree + (sizeInInt32 size + 1)
    return ({ grown with file, nextFree }, blobstore.nextFree)

def store (blobstore : PersistentBlobstore) (data : Bytes) : Result (PersistentBlobstore × Nat) :=
  if blobstore.isMapped = false then .error .notMapped
  else do
    let (created, id) ← blobstore.createBlob data.length
    let file ← MappedFile.write created.file (4 * (id + 1)) data
    return ({ created with file }, id)

def get (blobstore : PersistentBlobstore) (id : Nat) : Result Bytes :=
  if blobstore.isMapped = false then .error .notMapped
  else if id + 1 ≥ blobstore.capacity then .error .outOfRange
  else do
    let size ← MappedFile.readInteger 4 blobstore.file (4 * id)
    MappedFile.read blobstore.file (4 * (id + 1)) size

/-- `get` as it is: what is put into `*size`, and the byte that the pointer
points to, or nothing if the null pointer is returned. -/
def getPointer (blobstore : PersistentBlobstore) (id : Nat) : Result (Nat × Option Nat) :=
  if blobstore.isMapped = false then .error .notMapped
  else if id + 1 ≥ blobstore.capacity then .error .outOfRange
  else do
    let size ← MappedFile.readInteger 4 blobstore.file (4 * id)
    -- the size has no sign
    return (size, if size ≤ 0 then none else some (4 * (id + 1)))

/-- `map_file` of a new object; `none` is a path at which there is no file. -/
def mapFile (file : Option Bytes) : Result PersistentBlobstore :=
  match file with
  | some contents => return ⟨contents, true, firstFree, contents.length / 4⟩
  | none => do
    let blank := List.replicate newFileSize 0
    let file ← MappedFile.writeInteger 8 blank 0 curVersion
    return ⟨file, true, firstFree, newFileSize / 4⟩

def storeAll : PersistentBlobstore → List Bytes → Result (PersistentBlobstore × List Nat)
  | blobstore, [] => return (blobstore, [])
  | blobstore, data :: rest => do
    let (next, id) ← blobstore.store data
    let (final, ids) ← storeAll next rest
    return (final, id :: ids)

/-! ## Storing -/

/-- A blob is a word with its size followed by its bytes, rounded up to whole
words. -/
def blobWords (data : Bytes) : Nat :=
  sizeInInt32 data.length + 1

/-- Where the next blob goes and how many words the file has, after a blob. -/
def advance (cursor : Nat × Nat) (data : Bytes) : Nat × Nat :=
  (cursor.1 + blobWords data,
    if cursor.1 + sizeInInt32 data.length ≥ cursor.2 then cursor.2 * 2
    else
      cursor.2)

/-- A blob fits into the file, if need be after the file was made twice as
long. -/
def Fits (cursor : Nat × Nat) (data : Bytes) : Prop :=
  cursor.1 + sizeInInt32 data.length < cursor.2 ∨
    cursor.1 + sizeInInt32 data.length < cursor.2 * 2 ∧ cursor.2 * 2 * 4 ≤ maxFileSize

instance (cursor : Nat × Nat) (data : Bytes) : Decidable (Fits cursor data) :=
  inferInstanceAs (Decidable (_ ∨ _))

def FitsAll : Nat × Nat → List Bytes → Prop
  | _, [] => True
  | cursor, data :: rest => Fits cursor data ∧ FitsAll (advance cursor data) rest

instance decidableFitsAll : (cursor : Nat × Nat) → (calls : List Bytes) →
    Decidable (FitsAll cursor calls)
  | _, [] => isTrue trivial
  | cursor, data :: rest =>
    have := decidableFitsAll (advance cursor data) rest
    inferInstanceAs (Decidable (_ ∧ _))

def blobIds : Nat → List Bytes → List Nat
  | _, [] => []
  | nextFree, data :: rest => nextFree :: blobIds (nextFree + blobWords data) rest

def cursor (blobstore : PersistentBlobstore) : Nat × Nat :=
  (blobstore.nextFree, blobstore.capacity)

/-- The id of a blob is the index of its size word. -/
structure Placed (file : Bytes) (bound id : Nat) (data : Bytes) : Prop where
  below : id + blobWords data ≤ bound
  size : littleEndianValue (slice file (4 * id) 4) = data.length
  bytes : slice file (4 * (id + 1)) data.length = data

/-- The blobs that can be read from a mapped file. -/
structure Holds (blobstore : PersistentBlobstore) (blobs : List (Nat × Bytes)) : Prop where
  mapped : blobstore.isMapped = true
  length : blobstore.file.length = 4 * blobstore.capacity
  positive : 0 < blobstore.capacity
  room : blobstore.nextFree ≤ blobstore.capacity
  placed : ∀ blob ∈ blobs, Placed blobstore.file blobstore.nextFree blob.1 blob.2

theorem sizeInInt32_bounds (size : Nat) :
    size ≤ 4 * sizeInInt32 size ∧ 4 * sizeInInt32 size < size + 4 := by
  rw [sizeInInt32]
  split <;> omega

theorem lt_advance (cursor : Nat × Nat) (data : Bytes)
    (fits : cursor.1 + sizeInInt32 data.length < cursor.2 * 2) :
    cursor.1 + sizeInInt32 data.length < (advance cursor data).2 := by
  rw [advance]
  split <;> omega

variable {bs : PersistentBlobstore} {blobs : List (Nat × Bytes)}
  {data : Bytes}

variable {file : Bytes} {id : Nat} {more : List Bytes}

variable {bound : Nat} {blob : Nat × Bytes} {before : List Bytes}

theorem Placed.kept {pos : Nat} (placed : Placed file bound id data) (more written : Bytes)
    (inside : 4 * bound ≤ file.length) (above : 4 * bound ≤ pos)
    (within : pos ≤ (file ++ more).length) :
    Placed (splice (file ++ more) pos written) bound id data := by
  have below := placed.below
  have rounding := sizeInInt32_bounds data.length
  rw [blobWords] at below
  exact
    { below := placed.below
      size := by
        rw [slice_splice_apart within (.inl (by omega)), slice_append (by omega)]
        exact placed.size
      bytes := by
        rw [slice_splice_apart within (.inl (by omega)), slice_append (by omega)]
        exact placed.bytes }

theorem Holds.grow (holds : Holds bs blobs) (fits : Fits bs.cursor data) :
    ∃ zeros, bs.grow (sizeInInt32 data.length) = .ok
            { bs with
              file := bs.file ++ zeros
              capacity := (advance bs.cursor data).2 } ∧
        (bs.file ++ zeros).length = 4 * (advance bs.cursor data).2 ∧
          bs.nextFree + sizeInInt32 data.length < (advance bs.cursor data).2 := by
  have length := holds.length
  by_cases full : bs.nextFree + sizeInInt32 data.length ≥ bs.capacity
  · have doubled : (advance bs.cursor data).2 = bs.capacity * 2 := if_pos full
    obtain ⟨enough, small⟩ := fits.resolve_left (not_lt.mpr full)
    let zeros : Bytes := List.replicate (bs.capacity * 2 * 4 - bs.file.length) 0
    have resized : MappedFile.resizeFile bs.file (bs.capacity * 2 * 4) = .ok (bs.file ++ zeros) :=
      MappedFile.resizeFile_eq (by omega) small
    have longer : (bs.file ++ zeros).length = 4 * (bs.capacity * 2) := by
      rw [length_append, length_replicate]
      omega
    refine ⟨zeros, ?_, by rw [doubled, longer], by rw [doubled]; exact enough⟩
    rw [PersistentBlobstore.grow, if_pos full, resized, Result.ok_bind,
      longer, doubled, Nat.mul_div_cancel_left _ (by decide)]
    rfl
  · have same : (advance bs.cursor data).2 = bs.capacity := if_neg full
    refine ⟨[], ?_, ?_, by omega⟩
    · rw [PersistentBlobstore.grow, if_neg full, same, append_nil]
      rfl
    · rw [append_nil, same]
      exact length

def written (file : Bytes) (id : Nat) (data : Bytes) : Bytes :=
  splice (splice file (4 * id) (Library.littleEndian 4 data.length)) (4 * (id + 1)) data

theorem length_sized (data : Bytes) (inside : 4 * id + 4 ≤ file.length) :
    (splice file (4 * id) (Library.littleEndian 4 data.length)).length = file.length :=
  length_splice (by rw [length_littleEndian]; exact inside)

theorem length_written (inside : 4 * (id + blobWords data) ≤ file.length) :
    (written file id data).length = file.length := by
  have rounding := sizeInInt32_bounds data.length
  rw [blobWords] at inside
  have sized := length_sized data (show 4 * id + 4 ≤ file.length by omega)
  rw [written, length_splice (by omega), sized]

theorem placed_written (small : data.length < 2 ^ 32) (inside : 4 * (id + 1) ≤ file.length) :
    Placed (written file id data) (id + blobWords data) id data := by
  have length := length_sized data (show 4 * id + 4 ≤ file.length by omega)
  exact
    { below := le_rfl
      size := by
        rw [written, slice_splice_apart (by omega) (.inl (by omega))]
        exact MappedFile.littleEndianValue_splice small (by omega)
      bytes := slice_splice (by omega) }

theorem Placed.mono {higher : Nat}
    (placed : Placed file bound id data) (above : bound ≤ higher) : Placed file higher id data :=
  { placed with below := le_trans placed.below above }

/-- The blobs are still there when another one was written behind them, into
a file that may have become longer. -/
theorem Holds.written (holds : Holds bs blobs) {more : Bytes}
    {capacity : Nat} (small : data.length < 2 ^ 32)
    (length : (bs.file ++ more).length = 4 * capacity)
    (enough : bs.nextFree + sizeInInt32 data.length < capacity) :
    Holds ⟨PersistentBlobstore.written (bs.file ++ more)
        bs.nextFree data, true, bs.nextFree + blobWords data, capacity⟩
      (blobs ++ [(bs.nextFree, data)]) := by
  have room := holds.room
  have before := holds.length
  have sized :=
    length_sized data (show 4 * bs.nextFree + 4 ≤ (bs.file ++ more).length by
        omega)
  exact
    { mapped := rfl
      length := by
        rw [← length]
        exact length_written (by rw [blobWords]; omega)
      positive := by dsimp only; omega
      room := by dsimp only [blobWords]; omega
      placed := fun blob mem => by
        rcases mem_append.mp mem with old | new
        · have kept :=
            (holds.placed blob old).kept more (Library.littleEndian 4 data.length) (by omega)
              (Nat.le_refl (4 * bs.nextFree)) (by omega)
          have again :=
            kept.kept [] data (by omega) (show 4 * bs.nextFree ≤ 4 * (bs.nextFree + 1) by omega)
              (by rw [append_nil]; omega)
          rw [append_nil] at again
          exact again.mono (Nat.le_add_right _ _)
        · rw [mem_singleton.mp new]
          exact placed_written small (by omega) }

theorem Holds.store (holds : Holds bs blobs)
    (fits : Fits bs.cursor data) (small : data.length < 2 ^ 32) :
    ∃ next, bs.store data = .ok (next, bs.nextFree) ∧
        next.cursor = advance bs.cursor data ∧ Holds next (blobs ++ [(bs.nextFree, data)]) := by
  obtain ⟨zeros, grown, length, enough⟩ := holds.grow fits
  have rounding := sizeInInt32_bounds data.length
  have sizeInside : 4 * bs.nextFree + 4 ≤ (bs.file ++ zeros).length := by omega
  have sized := length_sized data sizeInside
  refine ⟨_, ?_, rfl, holds.written small length enough⟩
  rw [PersistentBlobstore.store, createBlob, holds.mapped,
    if_neg (by simp), if_neg (by simp), grown, Result.ok_bind,
    MappedFile.writeInteger_eq _ sizeInside, Result.ok_bind]
  dsimp only [Result.pure_eq_ok, Result.ok_bind]
  rw [MappedFile.write_eq (by omega), holds.mapped]
  rfl

theorem Holds.store_outside (holds : Holds bs blobs)
    (large : bs.capacity * 2 ≤ bs.nextFree + sizeInInt32 data.length)
    (allowed : bs.capacity * 2 * 4 ≤ maxFileSize) : bs.store data = .error .accessViolation := by
  have length := holds.length
  have pos := holds.positive
  have room := holds.room
  have rounding := sizeInInt32_bounds data.length
  let zeros : Bytes := List.replicate (bs.capacity * 2 * 4 - bs.file.length) 0
  have resized : MappedFile.resizeFile bs.file (bs.capacity * 2 * 4) = .ok (bs.file ++ zeros) :=
    MappedFile.resizeFile_eq (by omega) allowed
  have longer : (bs.file ++ zeros).length = bs.capacity * 2 * 4 := by
    rw [length_append, length_replicate]
    omega
  have sizeInside : 4 * bs.nextFree + 4 ≤ (bs.file ++ zeros).length := by omega
  have outside : ¬ 4 * (bs.nextFree + 1) + data.length ≤
        (splice (bs.file ++ zeros) (4 * bs.nextFree)
          (Library.littleEndian 4 data.length)).length := by
    rw [length_sized data sizeInside]
    omega
  rw [PersistentBlobstore.store, createBlob, PersistentBlobstore.grow,
    holds.mapped, if_neg (by simp), if_neg (by simp), if_pos (by omega), resized]
  simp only [Result.ok_bind, Result.pure_eq_ok,
    MappedFile.writeInteger_eq _ sizeInside, MappedFile.write, if_neg outside, Result.error_bind]

theorem Holds.store_tooLarge (holds : Holds bs blobs)
    (full : bs.capacity ≤ bs.nextFree + sizeInInt32 data.length)
    (refused : maxFileSize < bs.capacity * 2 * 4) : bs.store data = .error .fileTooLarge := by
  rw [PersistentBlobstore.store, createBlob, PersistentBlobstore.grow,
    holds.mapped, if_neg (by simp), if_neg (by simp), if_pos full,
    MappedFile.resizeFile, if_pos refused]
  rfl

theorem Holds.store_fails (holds : Holds bs blobs) (large : ¬ Fits bs.cursor data) :
    ∃ fault, bs.store data = .error fault := by
  obtain ⟨full, beyond⟩ := not_or.mp large
  by_cases allowed : bs.capacity * 2 * 4 ≤ maxFileSize
  · have more : bs.capacity * 2 ≤ bs.nextFree + sizeInInt32 data.length :=
      le_of_not_gt fun less => beyond ⟨less, allowed⟩
    exact ⟨_, holds.store_outside more allowed⟩
  · exact ⟨_, holds.store_tooLarge (le_of_not_gt full) (lt_of_not_ge allowed)⟩

/-- Calls of `store` on any object that is seen as a mapped file. -/
theorem storeAll_holds {σ : Type} (view : σ → PersistentBlobstore)
    {store : σ → Bytes → Result (σ × Nat)}
    {storeAll : σ → List Bytes → Result (σ × List Nat)}
    {fitting : Nat × Nat → List Bytes → Prop}
    (nil : ∀ object, storeAll object [] = .ok (object, []))
    (cons : ∀ {object next final data rest id ids}, store object data = .ok (next, id) →
        storeAll next rest = .ok (final, ids) →
        storeAll object (data :: rest) = .ok (final, id :: ids))
    (first : ∀ {object blobs data rest}, Holds (view object) blobs → data.length < 2 ^ 32 →
        fitting (view object).cursor (data :: rest) → ∃ next,
        store object data = .ok (next, (view object).nextFree) ∧
        (view next).cursor = advance (view object).cursor data ∧
        Holds (view next) (blobs ++ [((view object).nextFree, data)]))
    (later :
      ∀ {cursor data rest}, fitting cursor (data :: rest) → fitting (advance cursor data) rest)
    {object : σ} {blobs : List (Nat × Bytes)}
    (holds : Holds (view object) blobs) (small : ∀ data ∈ more, data.length < 2 ^ 32)
    (fits : fitting (view object).cursor more) :
    ∃ final, storeAll object more = .ok (final, blobIds (view object).nextFree more) ∧
        (view final).cursor = more.foldl advance (view object).cursor ∧
          Holds (view final) (blobs ++ (blobIds (view object).nextFree more).zip more) := by
  induction more generalizing object blobs with
  | nil =>
    refine ⟨object, nil object, rfl, ?_⟩
    rw [zip_nil_right, append_nil]
    exact holds
  | cons data more ih =>
    obtain ⟨smallFirst, smallLater⟩ := forall_mem_cons.mp small
    obtain ⟨next, stored, moved, after⟩ := first holds smallFirst fits
    have fitsLater := later fits
    rw [← moved] at fitsLater
    have place : (view next).nextFree = (view object).nextFree + blobWords data :=
      congrArg Prod.fst moved
    obtain ⟨final, storedAll, cursors, held⟩ := ih after smallLater fitsLater
    rw [place] at storedAll held
    refine ⟨final, cons stored storedAll, ?_, ?_⟩
    · rw [cursors, moved]
      rfl
    · rw [append_assoc] at held
      exact held

theorem Holds.storeAll_fits (holds : Holds bs blobs)
    (small : ∀ data ∈ more, data.length < 2 ^ 32) (fits : FitsAll bs.cursor more) :
    ∃ final, bs.storeAll more = .ok (final, blobIds bs.nextFree more) ∧
        final.cursor = more.foldl advance bs.cursor ∧
          Holds final (blobs ++ (blobIds bs.nextFree more).zip more) := by
  have cons {object next final : PersistentBlobstore} {data : Bytes}
      {rest : List Bytes} {id : Nat} {ids : List Nat}
      (stored : object.store data = .ok (next, id))
      (storedAll : next.storeAll rest = .ok (final, ids)) :
      object.storeAll (data :: rest) = .ok (final, id :: ids) := by
    simp only [PersistentBlobstore.storeAll, stored, Result.ok_bind, storedAll, Result.pure_eq_ok]
  exact storeAll_holds id (fun _ => rfl) cons (fun holds small fits => holds.store fits.1 small)
      (fun fits => fits.2) holds small fits

theorem Holds.fits_of_storeAll
    {final : PersistentBlobstore} {ids : List Nat} (holds : Holds bs blobs)
    (small : ∀ data ∈ more, data.length < 2 ^ 32) (stored : bs.storeAll more = .ok (final, ids)) :
    FitsAll bs.cursor more := by
  induction more generalizing bs blobs final ids with
  | nil => trivial
  | cons data more ih =>
    rw [PersistentBlobstore.storeAll] at stored
    by_cases first : Fits bs.cursor data
    · obtain ⟨next, storedFirst, moved, after⟩ := holds.store first (small data mem_cons_self)
      rw [storedFirst, Result.ok_bind] at stored
      obtain ⟨_, rest, -⟩ := bind_eq_ok_iff.mp stored
      refine ⟨first, ?_⟩
      rw [← moved]
      exact ih after (fun data mem => small data (mem_cons_of_mem _ mem)) rest
    · obtain ⟨fault, failed⟩ := holds.store_fails first
      rw [failed] at stored
      cases stored

/-! ## Mapping -/

theorem mapFile_new :
    ∃ bs, mapFile none = .ok bs ∧ bs.cursor = (firstFree, newFileSize / 4) ∧ Holds bs [] := by
  have inside : 0 + 8 ≤ (List.replicate newFileSize (0 : UInt8)).length := by
    rw [length_replicate]
    decide
  refine ⟨⟨splice (List.replicate newFileSize 0) 0
      (Library.littleEndian 8 curVersion), true, firstFree, newFileSize / 4⟩, ?_, rfl, ?_⟩
  · have written := MappedFile.writeInteger_eq curVersion inside
    change (MappedFile.writeInteger 8 _ 0 curVersion >>= _) = _
    rw [written]
    rfl
  · exact
      { mapped := rfl
        length := by
          rw [length_splice (by rw [length_littleEndian]; exact inside), length_replicate]
          decide
        positive := by decide
        room := by decide
        placed := by simp }

theorem Holds.reopen (holds : Holds bs blobs) :
    mapFile (some bs.file) = .ok ⟨bs.file, true, firstFree, bs.capacity⟩ := by
  rw [mapFile, holds.length, Nat.mul_div_cancel_left _ (by decide)]
  rfl

theorem Holds.get_iff (holds : Holds bs blobs) (mem : blob ∈ blobs) :
    bs.get blob.1 = .ok blob.2 ↔ blob.1 + 1 < bs.capacity := by
  have placed := holds.placed blob mem
  have below := placed.below
  have room := holds.room
  have length := holds.length
  have rounding := sizeInInt32_bounds blob.2.length
  rw [blobWords] at below
  rw [PersistentBlobstore.get, holds.mapped]
  by_cases inside : blob.1 + 1 < bs.capacity
  · rw [if_neg (not_le.mpr inside),
      MappedFile.readInteger_eq (by omega), Result.ok_bind, placed.size,
      MappedFile.read_eq (by omega), placed.bytes]
    simp [inside]
  · rw [if_pos (le_of_not_gt inside)]
    simp [inside]

/-! ## Reopening -/

def newCursor : Nat × Nat :=
  (firstFree, newFileSize / 4)

/-- The blobs `before` are stored in a new file, the file is mapped again, and
the blobs `after` are stored: the old blobs are read as they were, and no new
one overlaps an old one. -/
def KeepsBlobs (before after : List Bytes) : Prop :=
  ∃ created stored ids reopened final newIds, mapFile none = .ok created ∧
    created.storeAll before = .ok (stored, ids) ∧ mapFile (some stored.file) = .ok reopened ∧
    reopened.storeAll after = .ok (final, newIds) ∧
    (∀ blob ∈ ids.zip before, final.get blob.1 = .ok blob.2) ∧ ∀ old ∈ ids.zip before,
    ∀ new ∈ newIds.zip after, old.1 + blobWords old.2 ≤ new.1 ∨ new.1 + blobWords new.2 ≤ old.1

theorem advance_mono (cursor : Nat × Nat) (more : List Bytes) :
    cursor.1 ≤ (more.foldl advance cursor).1 ∧ cursor.2 ≤ (more.foldl advance cursor).2 := by
  induction more generalizing cursor with
  | nil => exact ⟨le_rfl, le_rfl⟩
  | cons data more ih =>
    obtain ⟨first, second⟩ := ih (advance cursor data)
    constructor
    · exact le_trans (Nat.le_add_right _ _) first
    · refine le_trans ?_ second
      rw [advance]
      split <;> omega

theorem Holds.reopened (holds : Holds bs blobs) (enough : firstFree ≤ bs.capacity) :
    Holds ⟨bs.file, true, firstFree, bs.capacity⟩ [] where
  mapped := rfl
  length := holds.length
  positive := holds.positive
  room := enough
  placed := by simp

theorem stored_new (small : ∀ data ∈ before, data.length < 2 ^ 32)
    (fits : FitsAll newCursor before) :
    ∃ created stored, mapFile none = .ok created ∧
      created.storeAll before = .ok (stored, blobIds firstFree before) ∧
      stored.cursor = before.foldl advance newCursor ∧
      Holds stored ((blobIds firstFree before).zip before) ∧ firstFree ≤ stored.capacity := by
  obtain ⟨created, mapped, cursor, started⟩ := mapFile_new
  have nextFree : created.nextFree = firstFree := congrArg Prod.fst cursor
  have fitting : FitsAll created.cursor before := by
    rw [cursor]
    exact fits
  obtain ⟨stored, storedAll, moved, held⟩ := started.storeAll_fits small fitting
  rw [nextFree] at storedAll held
  rw [cursor] at moved
  have higher := (advance_mono newCursor before).2
  have capacity : stored.capacity = (before.foldl advance newCursor).2 := congrArg Prod.snd moved
  refine ⟨created, stored, mapped, storedAll, moved, held, ?_⟩
  rw [capacity]
  exact higher

theorem blobIds_bound (cursor : Nat × Nat) (mem : blob ∈ (blobIds cursor.1 more).zip more) :
    blob.1 + blobWords blob.2 ≤ (more.foldl advance cursor).1 := by
  induction more generalizing cursor with
  | nil => simp at mem
  | cons data more ih =>
    rcases mem_cons.mp mem with rfl | later
    · exact (advance_mono (advance cursor data) more).1
    · exact ih (advance cursor data) later

theorem blobIds_concat (cursor : Nat × Nat) (more : List Bytes) (last : Bytes) :
    (blobIds cursor.1 (more ++ [last])).zip (more ++ [last]) =
      (blobIds cursor.1 more).zip more ++ [((more.foldl advance cursor).1, last)] := by
  induction more generalizing cursor with
  | nil => rfl
  | cons data more ih =>
    have rest := ih (advance cursor data)
    exact congrArg _ rest

theorem blobIds_readable (cursor : Nat × Nat) (before : List Bytes)
    (room : (before.foldl advance cursor).1 ≤ (before.foldl advance cursor).2) :
    (∀ blob ∈ (blobIds cursor.1 before).zip before, blob.1 + 1 < (before.foldl advance cursor).2) ↔
      (before.getLast? = some [] →
        (before.foldl advance cursor).1 < (before.foldl advance cursor).2) := by
  rcases eq_nil_or_concat before with rfl | ⟨initial, last, rfl⟩
  · simp
  · rw [concat_eq_append] at room ⊢
    have nextFree : ((initial ++ [last]).foldl advance cursor).1 =
          (initial.foldl advance cursor).1 + blobWords last := by
      rw [foldl_append]
      rfl
    have rounding := sizeInInt32_bounds last.length
    rw [blobIds_concat, getLast?_concat]
    rw [blobWords] at nextFree
    constructor
    · intro readable empty
      have here :=
        readable ((initial.foldl advance cursor).1, last)
          (mem_append_right _ (mem_singleton_self _))
      have length := congrArg List.length (Option.some.inj empty)
      rw [length_nil] at length
      omega
    · intro notLast blob mem
      rcases mem_append.mp mem with early | late
      · -- a later blob follows
        have bound := blobIds_bound cursor early
        rw [blobWords] at bound
        omega
      · rw [mem_singleton.mp late]
        by_cases empty : last = []
        · have free := notLast (by rw [empty])
          omega
        · have ne := length_pos_iff.mpr empty
          omega

theorem Holds.readsAll_iff (held : Holds bs ((blobIds firstFree before).zip before))
    (moved : bs.cursor = before.foldl advance newCursor) :
    (∀ blob ∈ (blobIds firstFree before).zip before,
        (PersistentBlobstore.mk bs.file true firstFree bs.capacity).get blob.1 = .ok blob.2) ↔
      (before.getLast? = some [] →
        (before.foldl advance newCursor).1 < (before.foldl advance newCursor).2) := by
  have same (id : Nat) :
      (PersistentBlobstore.mk bs.file true firstFree bs.capacity).get id = bs.get id := by
    rw [PersistentBlobstore.get, PersistentBlobstore.get, held.mapped]
  have room : bs.cursor.1 ≤ bs.cursor.2 := held.room
  have capacity : bs.capacity = (before.foldl advance newCursor).2 := congrArg Prod.snd moved
  rw [moved] at room
  rw [← blobIds_readable newCursor before room, ← capacity]
  constructor
  · intro reads blob mem
    exact (held.get_iff mem).mp ((same _).symm.trans (reads blob mem))
  · intro below blob mem
    exact (same _).trans ((held.get_iff mem).mpr (below blob mem))

/-- A reopened blobstore keeps its blobs exactly if nothing is stored before
the reopening or nothing after it; besides, the blobs must fit into the file,
and an empty blob in the last word of the file cannot be read. -/
theorem keepsBlobs_iff {before after : List Bytes}
    (smallBefore : ∀ data ∈ before, data.length < 2 ^ 32)
    (smallAfter : ∀ data ∈ after, data.length < 2 ^ 32) :
    KeepsBlobs before after ↔ FitsAll newCursor before ∧
      FitsAll (firstFree, (before.foldl advance newCursor).2) after ∧ (before = [] ∨ after = [] ∧
      (before.getLast? = some [] →
      (before.foldl advance newCursor).1 < (before.foldl advance newCursor).2)) := by
  constructor
  · rintro ⟨created, stored, ids, reopened, final, newIds, mapped,
      storedBefore, mappedAgain, storedAfter, kept, apart⟩
    have fits : FitsAll newCursor before := by
      obtain ⟨fresh, mappedFresh, cursor, started⟩ := mapFile_new
      cases mappedFresh.symm.trans mapped
      have fitting := started.fits_of_storeAll smallBefore storedBefore
      rw [cursor] at fitting
      exact fitting
    obtain ⟨fresh, full, mappedFresh, storedAll, moved, held, enough⟩ := stored_new smallBefore fits
    cases mappedFresh.symm.trans mapped
    cases storedAll.symm.trans storedBefore
    cases held.reopen.symm.trans mappedAgain
    have empty := held.reopened enough
    have fitsAfter := empty.fits_of_storeAll smallAfter storedAfter
    obtain ⟨last, storedLast, -, -⟩ := empty.storeAll_fits smallAfter fitsAfter
    cases storedLast.symm.trans storedAfter
    refine ⟨fits, moved ▸ fitsAfter, ?_⟩
    cases before with
    | nil => exact .inl rfl
    | cons first before =>
      refine .inr ?_
      cases after with
      | nil =>
        -- nothing is stored, so reading is as before the reopening
        refine ⟨rfl, ?_⟩
        cases storedAfter
        exact (held.readsAll_iff moved).mp kept
      | cons second after =>
        -- both first blobs stand at the first free word
        have overlap :=
          apart (firstFree, first) (mem_cons_self ..) (firstFree, second) (mem_cons_self ..)
        rw [blobWords, blobWords] at overlap
        omega
  · rintro ⟨fits, fitsAfter, separate⟩
    obtain ⟨created, stored, mapped, storedAll, moved, held, enough⟩ := stored_new smallBefore fits
    rw [← moved] at fitsAfter
    obtain ⟨final, storedAfter, -, -⟩ := (held.reopened enough).storeAll_fits smallAfter fitsAfter
    refine ⟨created, stored, _, _, final, _, mapped, storedAll, held.reopen, storedAfter, ?_, ?_⟩
    · rcases separate with rfl | ⟨rfl, readable⟩
      · simp
      · cases storedAfter
        exact (held.readsAll_iff moved).mpr readable
    · rcases separate with rfl | ⟨rfl, -⟩
      · simp
      · simp

theorem keepsBlobs_several :
    KeepsBlobs [[97, 98, 99, 100, 101], [], [102]] [] ∧ KeepsBlobs [] [[97], []] := by
  constructor
  · exact (keepsBlobs_iff (by simp) (by simp)).mpr (by decide)
  · exact (keepsBlobs_iff (by simp) (by simp)).mpr (by decide)

theorem overwritten_after_reopening :
    (do
      let created ← mapFile none
      let (stored, id) ← created.store [97]
      let reopened ← mapFile (some stored.file)
      let (final, newId) ← reopened.store [98]
      let bytes ← final.get id
      pure (id, newId, bytes)) = .ok (256, 256, [98]) := by
  decide +kernel

end PersistentBlobstore

end AutomatonCore.Storage
