import AutomatonCore.Library.GuardedRun
import AutomatonCore.Storage.BlobBounds

/-!
# Freeing of blobs
-/

namespace AutomatonCore.Storage

open Io Library List
open PersistentBlobstore

namespace PersistentBlobstore

/-- A blob is marked as deleted by changing the sign of its size, which is a
number without a sign. -/
def negated (word : Nat) : Nat :=
  word * (2 ^ 32 - 1) % 2 ^ 32

/-- `free`; the argument has 32 bits, and so has the sum in the check. -/
def free (blobstore : PersistentBlobstore) (id : Nat) : Result PersistentBlobstore :=
  let id := id % 2 ^ 32
  if blobstore.isMapped = false then .error .notMapped
  else if (id + 1) % 2 ^ 32 ≥ blobstore.capacity then .error .outOfRange
  else do
    let word ← MappedFile.readInteger 4 blobstore.file (4 * id)
    let file ← MappedFile.writeInteger 4 blobstore.file (4 * id) (negated word)
    return { blobstore with file }

theorem negated_pos {word : Nat} (pos : 0 < word)
    (small : word < 2 ^ 32) : 0 < negated word ∧ negated word < 2 ^ 32 := by
  have v : negated word = 2 ^ 32 - word := by
    rw [negated]
    omega
  omega

def marked (blobstore : PersistentBlobstore) (blob : Nat × Bytes) : PersistentBlobstore :=
  { blobstore with
    file := splice blobstore.file (4 * blob.1) (Library.littleEndian 4 (negated blob.2.length)) }

variable {blobstore : PersistentBlobstore} {blobs : List (Nat × Bytes)}
  {blob : Nat × Bytes}

theorem Holds.free_eq (holds : Holds blobstore blobs) (mem : blob ∈ blobs)
    (inside : blob.1 + 1 < blobstore.capacity) (small : blob.1 < 2 ^ 32) :
    blobstore.free blob.1 = .ok (blobstore.marked blob) := by
  have length := holds.length
  have check : ¬ (blob.1 + 1) % 2 ^ 32 ≥ blobstore.capacity := by omega
  rw [free, Nat.mod_eq_of_lt small, if_neg (by simp [holds.mapped]),
    if_neg check, MappedFile.readInteger_eq (by omega), Result.ok_bind,
    (holds.placed blob mem).size, MappedFile.writeInteger_eq _ (by omega)]
  rfl

theorem Holds.marked_empty (holds : Holds blobstore blobs)
    (mem : blob ∈ blobs) (inside : blob.1 + 1 < blobstore.capacity)
    (empty : blob.2 = []) : blobstore.marked blob = blobstore := by
  have length := holds.length
  have size := (holds.placed _ mem).size
  rw [empty] at size
  have word : Library.littleEndian 4 (negated 0) = slice blobstore.file (4 * blob.1) 4 := by
    have read := littleEndian_littleEndianValue (slice blobstore.file (4 * blob.1) 4)
    rw [length_slice (by omega), size] at read
    exact read
  rw [marked, empty, length_nil, word, splice_slice (by omega)]

theorem Holds.getPointer_marked (holds : Holds blobstore blobs)
    (inside : blob.1 + 1 < blobstore.capacity) (ne : blob.2 ≠ []) (small : blob.2.length < 2 ^ 32) :
    (blobstore.marked blob).getPointer blob.1 =
      .ok (negated blob.2.length, some (4 * (blob.1 + 1))) := by
  have length := holds.length
  obtain ⟨pos, bounded⟩ := negated_pos (length_pos_iff.mpr ne) small
  have fileLength : (blobstore.marked blob).file.length = blobstore.file.length :=
    length_splice (by rw [length_littleEndian]; omega)
  have word : littleEndianValue
          (slice (blobstore.marked blob).file (4 * blob.1) 4) = negated blob.2.length :=
    MappedFile.littleEndianValue_splice bounded (by omega)
  have mapped : (blobstore.marked blob).isMapped = true := holds.mapped
  have below : ¬ blob.1 + 1 ≥ (blobstore.marked blob).capacity := not_le.mpr inside
  rw [getPointer, if_neg (by simp [mapped]), if_neg below,
    MappedFile.readInteger_eq (by omega), Result.ok_bind, word, if_neg (not_le.mpr pos)]
  rfl

end PersistentBlobstore

/-! ## Clients -/

/-- The calls of a client; `free` names a blob by its id. -/
inductive BlobCall where
  | store (data : Bytes)
  | free (id : Nat)

/-- A store with what a client knows of it: the blobs that it has stored, with
their ids, and the ids that it has freed. -/
structure BlobClient where
  blobstore : PersistentBlobstore
  blobs : List (Nat × Bytes)
  freed : List Nat

namespace BlobClient

def perform (client : BlobClient) : BlobCall → Result BlobClient
  | .store data => do
    let (blobstore, id) ← client.blobstore.store data
    return { client with blobstore, blobs := client.blobs ++ [(id, data)] }
  | .free id => do
    let blobstore ← client.blobstore.free id
    return { client with blobstore, freed := id :: client.freed }

/-- `get` finds the blobs that were stored and not freed, and no others. -/
structure Faithful (client : BlobClient) : Prop where
  absent : ∀ blob ∈ client.blobs, blob.1 ∈ client.freed →
      ∃ size, client.blobstore.getPointer blob.1 = .ok (size, none)
  present : ∀ blob ∈ client.blobs, blob.1 ∉ client.freed → client.blobstore.Reads blob

/-- What a client may do: it stores blobs that fit, and frees stored ids. -/
def Permitted (client : BlobClient) : BlobCall → Prop
  | .store data => data.length < 2 ^ 32 ∧ Fits client.blobstore.cursor data
  | .free id => ∃ data, (id, data) ∈ client.blobs

/-- Only empty blobs are freed, by ids of 32 bits, and none of them is stored
in the last word of the file. -/
def OnlyEmptyFreed (client : BlobClient) : BlobCall → Prop
  | .store data => data = [] → client.blobstore.nextFree + 1 ≠ client.blobstore.capacity
  | .free id => (id, []) ∈ client.blobs ∧ id < 2 ^ 32

structure Sound (client : BlobClient) : Prop where
  holds : Holds client.blobstore client.blobs
  header : firstFree ≤ client.blobstore.nextFree
  readable : ∀ blob ∈ client.blobs, blob.1 + 1 < client.blobstore.capacity
  small : ∀ blob ∈ client.blobs, blob.2.length < 2 ^ 32
  empty : ∀ id ∈ client.freed, (id, []) ∈ client.blobs

variable {client : BlobClient}

theorem Sound.start {blobstore : PersistentBlobstore}
    (holds : Holds blobstore []) (header : firstFree ≤ blobstore.nextFree) :
    Sound ⟨blobstore, [], []⟩ where
  holds := holds
  header := header
  readable := by simp
  small := by simp
  empty := by simp

theorem Sound.faithful (sound : client.Sound) : client.Faithful where
  absent := fun blob _ freed => by
    -- what stands at a freed id is the empty blob
    have mem := sound.empty _ freed
    exact ⟨0, sound.holds.getPointer_eq mem (sound.readable _ mem)⟩
  present := fun blob mem _ => (sound.holds.reads_iff mem).mpr (sound.readable blob mem)

theorem Sound.below (sound : client.Sound) {data : Bytes} (fits : Fits client.blobstore.cursor data)
    (condition : client.OnlyEmptyFreed (.store data)) :
    client.blobstore.nextFree + 1 < (advance client.blobstore.cursor data).2 := by
  have room := sound.holds.room
  have header : 1024 / 4 ≤ client.blobstore.nextFree := sound.header
  cases data with
  | nil =>
    have apart := condition rfl
    by_cases full : client.blobstore.nextFree ≥ client.blobstore.capacity
    · have doubled : (advance client.blobstore.cursor []).2 = client.blobstore.capacity * 2 :=
        if_pos full
      omega
    · have same : (advance client.blobstore.cursor []).2 = client.blobstore.capacity := if_neg full
      omega
  | cons b rest =>
    have enough :=
      lt_advance client.blobstore.cursor (b :: rest)
        (by rcases fits with inside | ⟨inside, -⟩ <;> omega)
    have rounding := sizeInInt32_bounds (b :: rest).length
    dsimp only [cursor, length_cons] at enough rounding ⊢
    omega

theorem Sound.store (sound : client.Sound) {data : Bytes}
    (permitted : client.Permitted (.store data)) (condition : client.OnlyEmptyFreed (.store data)) :
    ∃ next, client.perform (.store data) = .ok next ∧ next.Sound := by
  obtain ⟨small, fits⟩ := permitted
  obtain ⟨blobstore, stored, moved, held⟩ := sound.holds.store fits small
  have nextFree : blobstore.nextFree = client.blobstore.nextFree + blobWords data :=
    congrArg Prod.fst moved
  have capacity : blobstore.capacity = (advance client.blobstore.cursor data).2 :=
    congrArg Prod.snd moved
  have longer : client.blobstore.capacity ≤ blobstore.capacity := by
    rw [capacity]
    exact (advance_mono client.blobstore.cursor [data]).2
  have header := sound.header
  refine ⟨⟨blobstore, client.blobs ++ [(client.blobstore.nextFree, data)], client.freed⟩, ?_, ?_⟩
  · rw [perform, stored]
    rfl
  · exact
      { holds := held
        header := by dsimp only; omega
        readable := fun blob mem => by
          rcases mem_append.mp mem with old | new
          · exact lt_of_lt_of_le (sound.readable blob old) longer
          · rw [mem_singleton.mp new]
            exact capacity ▸ sound.below fits condition
        small := fun blob mem => by
          rcases mem_append.mp mem with old | new
          · exact sound.small blob old
          · rw [mem_singleton.mp new]
            exact small
        empty := fun id freed => mem_append_left _ (sound.empty id freed) }

theorem Sound.perform_free (sound : client.Sound) {blob : Nat × Bytes}
    (mem : blob ∈ client.blobs) (small : blob.1 < 2 ^ 32) :
    client.perform (.free blob.1) =
      .ok ⟨client.blobstore.marked blob, client.blobs, blob.1 :: client.freed⟩ := by
  have freed := sound.holds.free_eq mem (sound.readable blob mem) small
  rw [perform, freed]
  rfl

theorem Sound.free (sound : client.Sound) {blob : Nat × Bytes}
    (mem : blob ∈ client.blobs) (empty : blob.2 = []) :
    Sound ⟨client.blobstore.marked blob, client.blobs, blob.1 :: client.freed⟩ := by
  rw [sound.holds.marked_empty mem (sound.readable blob mem) empty]
  exact
    { sound with
      empty := fun id freed => by
        rcases mem_cons.mp freed with rfl | old
        · rw [← empty]
          exact mem
        · exact sound.empty id old }

theorem Sound.free_faithful_iff (sound : client.Sound) {blob : Nat × Bytes}
    (mem : blob ∈ client.blobs) :
    Faithful
        ⟨client.blobstore.marked blob, client.blobs, blob.1 :: client.freed⟩ ↔ blob.2 = [] := by
  constructor
  · intro faithful
    by_contra ne
    obtain ⟨size, found⟩ := faithful.absent blob mem (mem_cons_self ..)
    have still := sound.holds.getPointer_marked (sound.readable blob mem) ne (sound.small blob mem)
    rw [still] at found
    simp at found
  · intro empty
    exact (sound.free mem empty).faithful

theorem Sound.step (client : BlobClient) (call : BlobCall) (sound : client.Sound)
    (allowed : client.Permitted call ∧ client.OnlyEmptyFreed call) :
    ∃ next, client.perform call = .ok next ∧ next.Sound := by
  obtain ⟨permitted, condition⟩ := allowed
  cases call with
  | store data => exact sound.store permitted condition
  | free id =>
    obtain ⟨mem, small⟩ := condition
    exact ⟨_, sound.perform_free mem small, sound.free mem rfl⟩

/-- A client that frees only empty blobs sees, at every time, the blobs that
it has stored and not freed.  The next blob that it frees is gone exactly if
it is empty. -/
theorem perform_faithful {blobstore : PersistentBlobstore}
    {calls : List BlobCall} (holds : Holds blobstore []) (header : firstFree ≤ blobstore.nextFree)
    (permitted : Guarded perform Permitted ⟨blobstore, [], []⟩ calls)
    (condition : Guarded perform OnlyEmptyFreed ⟨blobstore, [], []⟩ calls) :
    ∃ final, calls.foldlM perform ⟨blobstore, [], []⟩ = .ok final ∧ final.Faithful ∧
      ∀ blob ∈ final.blobs, blob.1 < 2 ^ 32 → ∃ next, final.perform (.free blob.1) = .ok next ∧
      (next.Faithful ↔ blob.2 = []) := by
  obtain ⟨final, performed, sound⟩ :=
    (permitted.and condition).run Sound.step (Sound.start holds header)
  refine ⟨final, performed, sound.faithful, fun blob mem small => ?_⟩
  exact ⟨_, sound.perform_free mem small, sound.free_faithful_iff mem⟩

/-- Of two blobs, the empty one is freed. -/
theorem perform_faithful_empty :
    ∃ created final, mapFile none = .ok created ∧
      [.store [97], .store [], .free 258].foldlM perform ⟨created, [], []⟩ = .ok final ∧
      final.Faithful := by
  obtain ⟨created, mapped, cursor, holds⟩ := mapFile_new
  have fits : Fits created.cursor [97] := by
    rw [cursor]
    decide
  obtain ⟨one, stored, moved, holdsOne⟩ := holds.store fits (by decide)
  rw [cursor] at moved
  have fitsEmpty : Fits one.cursor [] := by
    rw [moved]
    decide
  obtain ⟨two, storedEmpty, -, -⟩ := holdsOne.store fitsEmpty (by decide)
  have start : created.nextFree = 256 := congrArg Prod.fst cursor
  have nextFree : one.nextFree = 258 := congrArg Prod.fst moved
  have capacity : one.capacity = 512 := congrArg Prod.snd moved
  have first : perform ⟨created, [], []⟩ (.store [97]) = .ok ⟨one, [(256, [97])], []⟩ := by
    rw [perform, stored, start]
    rfl
  have second : perform ⟨one, [(256, [97])], []⟩ (.store []) =
      .ok ⟨two, [(256, [97]), (258, [])], []⟩ := by
    rw [perform, storedEmpty, nextFree]
    rfl
  have permitted :
      Guarded perform Permitted ⟨created, [], []⟩ [.store [97], .store [], .free 258] := by
    rw [Guarded.cons_ok first, Guarded.cons_ok second]
    exact ⟨⟨by decide, fits⟩, ⟨by decide, fitsEmpty⟩, ⟨[], by simp⟩, fun _ _ => trivial⟩
  have condition :
      Guarded perform OnlyEmptyFreed ⟨created, [], []⟩ [.store [97], .store [], .free 258] := by
    rw [Guarded.cons_ok first, Guarded.cons_ok second]
    refine ⟨by simp [OnlyEmptyFreed], fun _ => ?_, by simp [OnlyEmptyFreed], fun _ _ => trivial⟩
    rw [nextFree, capacity]
    decide
  obtain ⟨final, performed, faithful, -⟩ :=
    perform_faithful holds (by rw [start]; decide) permitted condition
  exact ⟨created, final, mapped, performed, faithful⟩

theorem freed_blob_found :
    (do
      let created ← mapFile none
      let (stored, id) ← created.store [97]
      let freed ← stored.free id
      freed.getPointer id) = .ok (2 ^ 32 - 1, some 1028) := by
  decide +kernel

end BlobClient

end AutomatonCore.Storage
