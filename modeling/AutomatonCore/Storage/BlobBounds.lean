import AutomatonCore.Storage.BlobArray

/-!
# Bounds of the blob stores

Both blob stores make their storage twice as long when a blob does not fit,
once and whatever the size of the blob, and both compare the id of a blob with
the capacity when the blob is read.
-/

namespace AutomatonCore.Storage

open Io Library List
open Blobstore (sizeInInt32)
open PersistentBlobstore

/-! ## Writes -/

/-- At every call one doubling of the storage is enough.  A growth that is
refused ends the sequence: nothing is written then or later. -/
def GrowsOnce (refused : Nat → Bool) : Nat × Nat → List Bytes → Prop
  | _, [] => True
  | cursor, data :: rest =>
    cursor.2 ≤ cursor.1 + sizeInInt32 data.length ∧ refused (cursor.2 * 2) = true ∨
      cursor.1 + sizeInInt32 data.length < cursor.2 * 2 ∧
        GrowsOnce refused (advance cursor data) rest

instance decidableGrowsOnce (refused : Nat → Bool) : (cursor : Nat × Nat) →
    (calls : List Bytes) → Decidable (GrowsOnce refused cursor calls)
  | _, [] => isTrue trivial
  | cursor, data :: rest =>
    have := decidableGrowsOnce refused (advance cursor data) rest
    inferInstanceAs (Decidable (_ ∨ _))

def fileRefused (capacity : Nat) : Bool :=
  decide (maxFileSize < capacity * 4)

/-- The memory for an array is never refused. -/
def arrayRefused (_ : Nat) : Bool :=
  false

namespace PersistentBlobstore

/-- The object after a call that threw: a growth that failed has closed the
file. -/
def afterThrow (blobstore : PersistentBlobstore) : Fault → PersistentBlobstore
  | .fileTooLarge =>
    { blobstore with isMapped := false, capacity := blobstore.capacity * 2 }
  | _ => blobstore

/-- No call of a sequence writes outside of the file, calls that throw
included. -/
def WritesInside : PersistentBlobstore → List Bytes → Prop
  | _, [] => True
  | blobstore, data :: rest =>
    match blobstore.store data with
    | .ok (next, _) => WritesInside next rest
    | .error fault => fault ≠ .accessViolation ∧ WritesInside (blobstore.afterThrow fault) rest

variable {bs : PersistentBlobstore} {blobs : List (Nat × Bytes)}

variable {data : Bytes} {rest : List Bytes}

theorem WritesInside.of_ok
    {next : PersistentBlobstore} {id : Nat} (stored : bs.store data = .ok (next, id)) :
    bs.WritesInside (data :: rest) ↔ next.WritesInside rest := by
  rw [WritesInside, stored]

theorem WritesInside.of_error {fault : Fault} (failed : bs.store data = .error fault) :
    bs.WritesInside (data :: rest) ↔ fault ≠ .accessViolation ∧
      (bs.afterThrow fault).WritesInside rest := by
  rw [WritesInside, failed]

theorem WritesInside.closed (unmapped : bs.isMapped = false)
    (calls : List Bytes) : bs.WritesInside calls := by
  induction calls with
  | nil => trivial
  | cons data calls ih =>
    have failed : bs.store data = .error .notMapped := by
      rw [PersistentBlobstore.store, if_pos unmapped]
    exact (WritesInside.of_error failed).mpr ⟨by decide, ih⟩

theorem Holds.writesInside_iff_growsOnce {calls : List Bytes} (holds : Holds bs blobs)
    (small : ∀ data ∈ calls, data.length < 2 ^ 32) :
    bs.WritesInside calls ↔ GrowsOnce fileRefused bs.cursor calls := by
  induction calls generalizing bs blobs with
  | nil => exact Iff.rfl
  | cons data calls ih =>
    by_cases closes :
        bs.capacity ≤ bs.nextFree + sizeInInt32 data.length ∧ fileRefused (bs.capacity * 2) = true
    · have failed := holds.store_tooLarge closes.1 (of_decide_eq_true closes.2)
      rw [WritesInside.of_error failed]
      exact ⟨fun _ => .inl closes, fun _ => ⟨by decide, WritesInside.closed rfl calls⟩⟩
    · by_cases enough : bs.nextFree + sizeInInt32 data.length < bs.capacity * 2
      · have fits : Fits bs.cursor data := by
          by_cases full : bs.capacity ≤ bs.nextFree + sizeInInt32 data.length
          · refine .inr ⟨enough, le_of_not_gt fun refused => ?_⟩
            exact closes ⟨full, decide_eq_true refused⟩
          · exact .inl (lt_of_not_ge full)
        obtain ⟨next, stored, moved, after⟩ := holds.store fits (small data mem_cons_self)
        rw [WritesInside.of_ok stored,
          ih after fun data mem => small data (mem_cons_of_mem _ mem), moved]
        exact ⟨fun later => .inr ⟨enough, later⟩, fun grows => (grows.resolve_left closes).2⟩
      · have allowed : bs.capacity * 2 * 4 ≤ maxFileSize := by
          refine le_of_not_gt fun refused => closes ⟨?_, ?_⟩
          · omega
          · exact decide_eq_true refused
        have failed := holds.store_outside (le_of_not_gt enough) allowed
        rw [WritesInside.of_error failed]
        exact ⟨fun inside => absurd rfl inside.1,
            fun grows => absurd (grows.resolve_left closes).1 enough⟩

end PersistentBlobstore

namespace BlobArray

variable (uninitialized : Nat → Nat → UInt8)

def WritesInside : BlobArray → List Bytes → Prop
  | _, [] => True
  | blobstore, data :: rest =>
    match store uninitialized blobstore data with
    | .ok (next, _) => WritesInside next rest
    | .error _ => False

theorem writesInside_iff_growsOnce {bs : BlobArray}
    {blobs : List (Nat × Bytes)} {calls : List Bytes} (holds : Holds bs.asMapped blobs)
    (small : ∀ data ∈ calls, data.length < 2 ^ 32) :
    WritesInside uninitialized bs calls ↔ GrowsOnce arrayRefused bs.asMapped.cursor calls := by
  induction calls generalizing bs blobs with
  | nil => exact Iff.rfl
  | cons data calls ih =>
    by_cases enough : bs.nextFree + sizeInInt32 data.length < bs.capacity * 2
    · obtain ⟨next, stored, moved, after⟩ :=
        store_inside uninitialized holds enough (small data mem_cons_self)
      have rest := ih after fun data mem => small data (mem_cons_of_mem _ mem)
      rw [moved] at rest
      rw [WritesInside, stored]
      dsimp only
      rw [rest]
      exact ⟨fun later => .inr ⟨enough, later⟩,
          fun grows => (grows.resolve_left (by simp [arrayRefused])).2⟩
    · have failed := store_outside uninitialized holds (le_of_not_gt enough)
      rw [WritesInside, failed]
      refine ⟨False.elim, fun grows => enough ?_⟩
      exact (grows.resolve_left (by simp [arrayRefused])).1

end BlobArray

/-- A sequence of `store` calls on a new blob store writes inside of the
storage exactly if one doubling is enough at every call. -/
theorem writesInside_iff {calls : List Bytes} (small : ∀ data ∈ calls, data.length < 2 ^ 32) :
    ((∃ created, mapFile none = .ok created ∧ created.WritesInside calls) ↔
      GrowsOnce fileRefused newCursor calls) ∧
      ∀ uninitialized, (BlobArray.construct uninitialized).WritesInside
            uninitialized calls ↔ GrowsOnce arrayRefused BlobArray.firstCursor calls := by
  constructor
  · obtain ⟨created, mapped, cursor, holds⟩ := mapFile_new
    have inside := holds.writesInside_iff_growsOnce small
    rw [cursor] at inside
    rw [mapped]
    constructor
    · rintro ⟨same, mappedSame, writes⟩
      cases mappedSame
      exact inside.mp writes
    · intro grows
      exact ⟨created, rfl, inside.mpr grows⟩
  · intro uninitialized
    exact BlobArray.writesInside_iff_growsOnce uninitialized
        (BlobArray.construct_holds uninitialized) small

def exampleBlobs : List Bytes :=
  [[97, 98, 99, 100, 101], [], [102]]

theorem exampleBlobs_small : ∀ data ∈ exampleBlobs, data.length < 2 ^ 32 := by decide

theorem writesInside_exampleBlobs :
    (∃ created, mapFile none = .ok created ∧ created.WritesInside exampleBlobs) ∧
      (BlobArray.construct fun _ _ => 0).WritesInside (fun _ _ => 0) exampleBlobs := by
  constructor
  · exact (writesInside_iff exampleBlobs_small).1.mpr (by decide)
  · rw [(writesInside_iff exampleBlobs_small).2]
    decide +kernel

theorem writes_outside_new :
    (do
      let created ← mapFile none
      let (_, id) ← created.store (List.replicate 1024 0)
      pure id) = .error .accessViolation := by
  decide +kernel

/-! ## Reads -/

/-- No empty blob is stored while the next free word is the last one. -/
def NoEmptyAtEnd (cursor : Nat × Nat) (calls : List Bytes) : Prop :=
  ∀ before after, calls = before ++ [] :: after →
    (before.foldl advance cursor).1 + 1 ≠ (before.foldl advance cursor).2

theorem noEmptyAtEnd_cons {cursor : Nat × Nat} {data : Bytes} {calls : List Bytes} :
    NoEmptyAtEnd cursor (data :: calls) ↔
      (data = [] → cursor.1 + 1 ≠ cursor.2) ∧ NoEmptyAtEnd (advance cursor data) calls := by
  constructor
  · intro noEmpty
    refine ⟨fun empty => noEmpty [] calls (by rw [empty, nil_append]), fun before after split => ?_⟩
    exact noEmpty (data :: before) after (by rw [split, cons_append])
  · rintro ⟨first, later⟩ before after split
    cases before with
    | nil => exact first (cons.inj split).1
    | cons _ before =>
      obtain ⟨rfl, rest⟩ := cons.inj split
      exact later before after rest

instance decidableNoEmptyAtEnd : (cursor : Nat × Nat) → (calls : List Bytes) →
    Decidable (NoEmptyAtEnd cursor calls)
  | _, [] => isTrue (by simp [NoEmptyAtEnd])
  | cursor, data :: calls =>
    have := decidableNoEmptyAtEnd (advance cursor data) calls
    decidable_of_iff _ noEmptyAtEnd_cons.symm

/-- Blobs with their ids: all are read, and their words do not overlap. -/
structure BlobsKept (reads : Nat × Bytes → Prop) (ids : List Nat) (blobs : List Bytes) : Prop where
  count : ids.length = blobs.length
  read : ∀ blob ∈ ids.zip blobs, reads blob
  apart : (ids.zip blobs).Pairwise fun old new => old.1 + blobWords old.2 ≤ new.1

theorem length_blobIds (nextFree : Nat) (blobs : List Bytes) :
    (blobIds nextFree blobs).length = blobs.length := by
  induction blobs generalizing nextFree with
  | nil => rfl
  | cons data blobs ih => rw [blobIds, length_cons, ih, length_cons]

theorem le_of_mem_blobIds {nextFree : Nat} {blobs : List Bytes}
    {blob : Nat × Bytes} (mem : blob ∈ (blobIds nextFree blobs).zip blobs) : nextFree ≤ blob.1 := by
  induction blobs generalizing nextFree with
  | nil => simp at mem
  | cons data blobs ih =>
    rcases mem_cons.mp mem with rfl | later
    · exact le_rfl
    · exact le_trans (Nat.le_add_right _ _) (ih later)

theorem blobIds_apart (nextFree : Nat) (blobs : List Bytes) :
    ((blobIds nextFree blobs).zip blobs).Pairwise fun old new =>
      old.1 + blobWords old.2 ≤ new.1 := by
  induction blobs generalizing nextFree with
  | nil => exact List.Pairwise.nil
  | cons data blobs ih =>
    exact List.Pairwise.cons (fun blob later => le_of_mem_blobIds later) (ih _)

variable {cursor : Nat × Nat} {calls before : List Bytes}

theorem GrowsOnce.of_fitsAll
    (fits : FitsAll cursor calls) : GrowsOnce arrayRefused cursor calls := by
  induction calls generalizing cursor with
  | nil => trivial
  | cons data calls ih =>
    obtain ⟨first, later⟩ := fits
    refine .inr ⟨?_, ih later⟩
    rcases first with inside | ⟨inside, -⟩
    · omega
    · exact inside

theorem GrowsOnce.initial {after : List Bytes}
    (grows : GrowsOnce arrayRefused cursor (before ++ after)) :
    GrowsOnce arrayRefused cursor before := by
  induction before generalizing cursor with
  | nil => trivial
  | cons data before ih =>
    rcases grows with ⟨-, refused⟩ | ⟨enough, later⟩
    · cases refused
    · exact .inr ⟨enough, ih later⟩

theorem fitsAll_initial {after : List Bytes}
    (fits : FitsAll cursor (before ++ after)) : FitsAll cursor before := by
  induction before generalizing cursor with
  | nil => trivial
  | cons data before ih => exact ⟨fits.1, ih fits.2⟩

theorem GrowsOnce.room
    (grows : GrowsOnce arrayRefused cursor before) (start : cursor.1 ≤ cursor.2) :
    (before.foldl advance cursor).1 ≤ (before.foldl advance cursor).2 := by
  induction before generalizing cursor with
  | nil => exact start
  | cons data before ih =>
    rcases grows with ⟨-, refused⟩ | ⟨enough, later⟩
    · cases refused
    · exact ih later (lt_advance cursor data enough)

theorem advance_nil (cursor : Nat × Nat) :
    advance cursor [] = (cursor.1 + 1,
        if cursor.1 ≥ cursor.2 then cursor.2 * 2 else cursor.2) :=
  rfl

/-- After every call the last blob is below the last word or not empty,
exactly if no empty blob is put into the last word: an empty blob behind the
last word makes the storage longer. -/
theorem noEmptyAtEnd_iff (grows : GrowsOnce arrayRefused cursor calls)
    (start : cursor.1 ≤ cursor.2) (two : 2 ≤ cursor.2) :
    NoEmptyAtEnd cursor calls ↔ ∀ before after, calls = before ++ after →
      before.getLast? = some [] →
      (before.foldl advance cursor).1 < (before.foldl advance cursor).2 := by
  constructor
  · intro noEmpty before after split last
    obtain ⟨initial, rfl⟩ := getLast?_eq_some_iff.mp last
    rw [append_assoc] at split
    have apart := noEmpty initial after split
    have room := (split ▸ grows).initial.room start
    have higher := (advance_mono cursor initial).2
    rw [foldl_append]
    rw [foldl_cons, foldl_nil, advance_nil]
    split <;> omega
  · intro below before after split full
    have last := below (before ++ [[]]) after (by simp [split]) (by simp)
    rw [foldl_append] at last
    rw [foldl_cons, foldl_nil, advance_nil, if_neg (by omega)] at last
    omega

theorem blobsKept_iff {reads : Nat × Bytes → Prop} {stored : PersistentBlobstore}
    (moved : stored.cursor = before.foldl advance cursor)
    (held : Holds stored ((blobIds cursor.1 before).zip before))
    (reads_iff : ∀ blob ∈ (blobIds cursor.1 before).zip before,
        reads blob ↔ blob.1 + 1 < stored.capacity) :
    BlobsKept reads (blobIds cursor.1 before) before ↔ (before.getLast? = some [] →
      (before.foldl advance cursor).1 < (before.foldl advance cursor).2) := by
  have room : stored.cursor.1 ≤ stored.cursor.2 := held.room
  change ∀ blob ∈ _, _ ↔ _ < stored.cursor.2 at reads_iff
  rw [moved] at room reads_iff
  rw [← blobIds_readable cursor before room]
  constructor
  · intro kept blob mem
    exact (reads_iff blob mem).mp (kept.read blob mem)
  · intro below
    exact
      { count := length_blobIds _ _
        read := fun blob mem => (reads_iff blob mem).mpr (below blob mem)
        apart := blobIds_apart _ _ }

theorem keptAlways_iff {σ : Type} {run : List Bytes → Result (σ × List Nat)}
    {reads : σ → Nat × Bytes → Prop} {condition : List Bytes → Prop}
    (once : ∀ before after, calls = before ++ after → ∃ stored ids, run before = .ok (stored, ids) ∧
        (BlobsKept (reads stored) ids before ↔ condition before)) :
    (∀ before after, calls = before ++ after → ∃ stored ids, run before = .ok (stored, ids) ∧
          BlobsKept (reads stored) ids before) ↔
      ∀ before after, calls = before ++ after → condition before := by
  constructor
  · intro kept before after split
    obtain ⟨stored, ids, ran, blobs⟩ := kept before after split
    obtain ⟨same, sameIds, ranSame, iff⟩ := once before after split
    cases ranSame.symm.trans ran
    exact iff.mp blobs
  · intro holds before after split
    obtain ⟨stored, ids, ran, iff⟩ := once before after split
    exact ⟨stored, ids, ran, iff.mpr (holds before after split)⟩

namespace PersistentBlobstore

/-- `get` sets the size of the blob, and the pointer points to its bytes. -/
def Reads (blobstore : PersistentBlobstore) (blob : Nat × Bytes) : Prop :=
  ∃ pointer, blobstore.getPointer blob.1 = .ok (blob.2.length, pointer) ∧ (blob.2 ≠ [] → ∃ position,
    pointer = some position ∧ slice blobstore.file position blob.2.length = blob.2)

/-- Where the first blob goes and how many words there are, after `map_file`
at a path with this file. -/
def mappedCursor (file : Option Bytes) : Nat × Nat :=
  (firstFree, (file.elim newFileSize length) / 4)

/-- At every time after the file was mapped, the blobs stored since then are
kept. -/
def ReadsBack (file : Option Bytes) (calls : List Bytes) : Prop :=
  ∃ opened, mapFile file = .ok opened ∧ ∀ before after, calls = before ++ after → ∃ stored ids,
    opened.storeAll before = .ok (stored, ids) ∧ BlobsKept stored.Reads ids before

/-- A file that is mapped again has whole words and room for the header. -/
theorem mapFile_holds {file : Option Bytes}
    (whole : ∀ contents ∈ file, 4 ∣ contents.length ∧ 4 * firstFree ≤ contents.length) :
    ∃ opened, mapFile file = .ok opened ∧ opened.cursor = mappedCursor file ∧ Holds opened [] := by
  cases file with
  | none => exact mapFile_new
  | some contents =>
    obtain ⟨words, header⟩ := whole contents rfl
    have positive : 0 < firstFree := by decide
    exact ⟨_, rfl, rfl,
      { mapped := rfl
        length := (Nat.mul_div_cancel' words).symm
        positive := Nat.div_pos (by omega) (by decide)
        room := (Nat.le_div_iff_mul_le (by decide)).mpr ((mul_comm ..).trans_le header)
        placed := by simp }⟩

theorem Holds.getPointer_eq {bs : PersistentBlobstore}
    {blobs : List (Nat × Bytes)} (holds : Holds bs blobs)
    {blob : Nat × Bytes} (mem : blob ∈ blobs) (inside : blob.1 + 1 < bs.capacity) :
    bs.getPointer blob.1 = .ok (blob.2.length,
          if blob.2.length ≤ 0 then none else some (4 * (blob.1 + 1))) := by
  have length := holds.length
  rw [getPointer, holds.mapped, if_neg (by simp),
    if_neg (not_le.mpr inside), MappedFile.readInteger_eq (by omega),
    Result.ok_bind, (holds.placed blob mem).size]
  rfl

theorem Holds.reads_iff {bs : PersistentBlobstore}
    {blobs : List (Nat × Bytes)} (holds : Holds bs blobs)
    {blob : Nat × Bytes} (mem : blob ∈ blobs) : bs.Reads blob ↔ blob.1 + 1 < bs.capacity := by
  constructor
  · rintro ⟨pointer, found, -⟩
    by_contra outside
    rw [getPointer, holds.mapped, if_pos (le_of_not_gt outside)] at found
    cases found
  · intro inside
    refine ⟨_, holds.getPointer_eq mem inside, fun ne => ?_⟩
    exact ⟨4 * (blob.1 + 1), if_neg (by simp [ne]), (holds.placed blob mem).bytes⟩

theorem Holds.storeAll_kept {bs : PersistentBlobstore} {before : List Bytes} (holds : Holds bs [])
    (small : ∀ data ∈ before, data.length < 2 ^ 32) (fits : FitsAll bs.cursor before) :
    ∃ stored ids, bs.storeAll before = .ok (stored, ids) ∧ (BlobsKept stored.Reads ids before ↔
      (before.getLast? = some [] →
      (before.foldl advance bs.cursor).1 < (before.foldl advance bs.cursor).2)) := by
  obtain ⟨stored, storedAll, moved, held⟩ := holds.storeAll_fits small fits
  exact ⟨stored, _, storedAll, blobsKept_iff moved held fun blob mem => held.reads_iff mem⟩

end PersistentBlobstore

namespace BlobArray

/-- `get` sets the size of the blob, and the pointer points to its bytes. -/
def Reads (blobstore : BlobArray) (blob : Nat × Bytes) : Prop :=
  ∃ position, blobstore.get blob.1 = .ok (some (blob.2.length, position)) ∧
    slice blobstore.storage position blob.2.length = blob.2

def ReadsBack (uninitialized : Nat → Nat → UInt8) (calls : List Bytes) : Prop :=
  ∀ before after, calls = before ++ after →
      ∃ stored ids, (construct uninitialized).storeAll uninitialized before = .ok (stored, ids) ∧
          BlobsKept stored.Reads ids before

theorem reads_iff {bs : BlobArray} {blobs : List (Nat × Bytes)}
    (holds : Holds bs.asMapped blobs) {blob : Nat × Bytes} (mem : blob ∈ blobs) :
    bs.Reads blob ↔ blob.1 + 1 < bs.capacity := by
  have placed := holds.placed blob mem
  have length : bs.storage.length = 4 * bs.capacity := holds.length
  have size : littleEndianValue (slice bs.storage (4 * blob.1) 4) = blob.2.length := placed.size
  rw [Reads, get]
  by_cases inside : blob.1 + 1 < bs.capacity
  · rw [if_neg (not_le.mpr inside), MappedFile.readInteger_eq (by omega), size]
    simp only [inside, iff_true]
    exact ⟨_, rfl, placed.bytes⟩
  · rw [if_pos (le_of_not_gt inside)]
    simp [inside]

theorem storeAll_inside (uninitialized : Nat → Nat → UInt8)
    {bs : BlobArray} {blobs : List (Nat × Bytes)}
    {more : List Bytes} (holds : Holds bs.asMapped blobs)
    (small : ∀ data ∈ more, data.length < 2 ^ 32)
    (grows : GrowsOnce arrayRefused bs.asMapped.cursor more) :
    ∃ final, bs.storeAll uninitialized more = .ok (final, blobIds bs.nextFree more) ∧
        final.asMapped.cursor = more.foldl advance bs.asMapped.cursor ∧
          Holds final.asMapped (blobs ++ (blobIds bs.nextFree more).zip more) := by
  have cons {object next final : BlobArray} {data : Bytes}
      {rest : List Bytes} {id : Nat} {ids : List Nat}
      (stored : store uninitialized object data = .ok (next, id))
      (storedAll : next.storeAll uninitialized rest = .ok (final, ids)) :
      object.storeAll uninitialized (data :: rest) = .ok (final, id :: ids) := by
    simp only [storeAll, stored, Result.ok_bind, storedAll, Result.pure_eq_ok]
  have doubled {cursor : Nat × Nat} {data : Bytes} {rest : List Bytes}
      (grows : GrowsOnce arrayRefused cursor (data :: rest)) :
      cursor.1 + sizeInInt32 data.length < cursor.2 * 2 ∧
        GrowsOnce arrayRefused (advance cursor data) rest :=
    grows.resolve_left fun refused => Bool.false_ne_true refused.2
  exact storeAll_holds asMapped (fun _ => rfl) cons
      (fun holds small grows => store_inside uninitialized holds (doubled grows).1 small)
      (fun grows => (doubled grows).2) holds small grows

theorem storeAll_kept (uninitialized : Nat → Nat → UInt8)
    {bs : BlobArray} {before : List Bytes} (holds : Holds bs.asMapped [])
    (small : ∀ data ∈ before, data.length < 2 ^ 32)
    (grows : GrowsOnce arrayRefused bs.asMapped.cursor before) :
    ∃ stored ids, bs.storeAll uninitialized before = .ok (stored, ids) ∧
        (BlobsKept stored.Reads ids before ↔ (before.getLast? = some [] →
            (before.foldl advance bs.asMapped.cursor).1 <
              (before.foldl advance bs.asMapped.cursor).2)) := by
  obtain ⟨stored, storedAll, moved, held⟩ := storeAll_inside uninitialized holds small grows
  exact ⟨stored, _, storedAll, blobsKept_iff moved held fun blob mem => reads_iff held mem⟩

end BlobArray

/-- Blobs that fit are read back at all times exactly if no empty blob is put
into the last word of the storage.  The file of a persistent blobstore is new,
or it has whole words and room for the header. -/
theorem readsBack_iff {calls : List Bytes} (small : ∀ data ∈ calls, data.length < 2 ^ 32) :
    (∀ file : Option Bytes,
      (∀ contents ∈ file, 4 ∣ contents.length ∧ 4 * firstFree ≤ contents.length) →
        FitsAll (mappedCursor file) calls →
        (PersistentBlobstore.ReadsBack file calls ↔ NoEmptyAtEnd (mappedCursor file) calls)) ∧
      ∀ uninitialized, GrowsOnce arrayRefused BlobArray.firstCursor calls →
        (BlobArray.ReadsBack uninitialized calls ↔ NoEmptyAtEnd BlobArray.firstCursor calls) := by
  have smallInitial {before after : List Bytes} (split : calls = before ++ after) :
      ∀ data ∈ before, data.length < 2 ^ 32 := fun data mem =>
    small data (split ▸ mem_append_left after mem)
  constructor
  · intro file whole fits
    obtain ⟨opened, mapped, cursor, holds⟩ := mapFile_holds whole
    rw [← cursor] at fits ⊢
    have header : firstFree ≤ opened.capacity := (congrArg Prod.fst cursor).symm.trans_le holds.room
    have two : 2 ≤ opened.capacity := le_trans (by decide) header
    rw [noEmptyAtEnd_iff (GrowsOnce.of_fitsAll fits) holds.room two]
    have started : PersistentBlobstore.ReadsBack file calls ↔
        ∀ before after, calls = before ++ after →
          ∃ stored ids, opened.storeAll before = .ok (stored, ids) ∧
          BlobsKept stored.Reads ids before := by
      simp [PersistentBlobstore.ReadsBack, mapped]
    rw [started]
    exact keptAlways_iff fun before after split =>
        holds.storeAll_kept (smallInitial split) (fitsAll_initial (split ▸ fits))
  · intro uninitialized grows
    rw [noEmptyAtEnd_iff grows (Nat.zero_le _) BlobArray.two_le_firstCapacity]
    exact keptAlways_iff fun before after split =>
        BlobArray.storeAll_kept uninitialized
          (BlobArray.construct_holds uninitialized) (smallInitial split) (split ▸ grows).initial

theorem readsBack_exampleBlobs :
    PersistentBlobstore.ReadsBack none exampleBlobs ∧
      PersistentBlobstore.ReadsBack (some (List.replicate 1048 0)) exampleBlobs ∧
      BlobArray.ReadsBack (fun _ _ => 0) exampleBlobs := by
  obtain ⟨file, array⟩ := readsBack_iff exampleBlobs_small
  refine ⟨?_, ?_, ?_⟩
  · exact (file none (by simp) (by decide)).mpr (by decide)
  · refine (file _ (fun _ mem => ?_) (by decide +kernel)).mpr (by decide +kernel)
    rw [← Option.some.inj mem, length_replicate]
    decide
  · exact (array _ (by decide +kernel)).mpr (by decide +kernel)

theorem empty_blob_out_of_range :
    (do
      let created ← mapFile none
      let (stored, _) ← created.store (List.replicate 1016 0)
      let (full, id) ← stored.store []
      let (size, _) ← full.getPointer id
      pure size) = .error .outOfRange := by
  decide +kernel

end AutomatonCore.Storage
