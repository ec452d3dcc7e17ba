import AutomatonCore.Storage.BlobBounds

/-!
# The array as a log

The state classes are modelled over the log of `Blobstore`.  Here the array
is shown to refine it.
-/

namespace AutomatonCore.Storage

open Io List
open PersistentBlobstore (Holds advance blobIds)

namespace Blobstore

def storeAll (log : Blobstore) (calls : List Bytes) : Blobstore :=
  calls.foldl (fun log data => (log.store data).1) log

end Blobstore

namespace BlobArray

/-- Every blob of the log is in the array, and both put the next blob at the
same word. -/
structure Refines (array : BlobArray) (log : Blobstore) : Prop where
  nextFree : array.nextFree = log.nextFree
  holds : Holds array.asMapped log.blobs

variable {array : BlobArray} {log : Blobstore}

theorem Refines.construct (uninitialized : Nat → Nat → UInt8) :
    (construct uninitialized).Refines Blobstore.create where
  nextFree := rfl
  holds := construct_holds uninitialized

/-- One call returns the id that the log returns, and the results are
related again. -/
theorem Refines.store (uninitialized : Nat → Nat → UInt8) {data : Bytes}
    (refines : array.Refines log) (small : data.length < 2 ^ 32)
    (fits : array.nextFree + Blobstore.sizeInInt32 data.length < array.capacity * 2) :
    ∃ next, array.store uninitialized data = .ok (next, (log.store data).2) ∧
      next.asMapped.cursor = advance array.asMapped.cursor data ∧
      next.Refines (log.store data).1 := by
  obtain ⟨next, stored, moved, holds⟩ := store_inside uninitialized refines.holds fits small
  have last : next.nextFree = (log.store data).1.nextFree := by
    rw [Blobstore.store, ← refines.nextFree]
    exact congrArg Prod.fst moved
  refine ⟨next, ?_, moved, last, { holds with placed := fun blob mem => ?_ }⟩
  · rw [stored, refines.nextFree, Blobstore.store_id]
  · rw [Blobstore.store, ← refines.nextFree] at mem
    exact holds.placed blob (by simpa [or_comm] using mem)

/-- A blob of the log is read in the array, with its size and its bytes,
exactly if its id is below the last word. -/
theorem Refines.reads_iff {id : Nat} {data : Bytes} (refines : array.Refines log)
    (found : log.blobs.lookup id = some data) :
    array.Reads (id, log.get id) ↔ id + 1 < array.capacity := by
  obtain ⟨_, _, split, -⟩ := lookup_eq_some_iff.mp found
  rw [Blobstore.get, found]
  exact BlobArray.reads_iff refines.holds (by simp [split])

/-- The calls of a run return the ids of the log as long as one doubling of
the array is enough at every call. -/
theorem Refines.storeAll (uninitialized : Nat → Nat → UInt8) {calls : List Bytes}
    (refines : array.Refines log) (small : ∀ data ∈ calls, data.length < 2 ^ 32)
    (grows : GrowsOnce arrayRefused array.asMapped.cursor calls) :
    ∃ final, array.storeAll uninitialized calls = .ok (final, blobIds log.nextFree calls) ∧
      final.Refines (log.storeAll calls) := by
  induction calls generalizing array log with
  | nil => exact ⟨array, rfl, refines⟩
  | cons data calls ih =>
    obtain ⟨first, later⟩ := grows.resolve_left fun refused => Bool.false_ne_true refused.2
    obtain ⟨next, stored, moved, after⟩ :=
      refines.store uninitialized (small data mem_cons_self) first
    rw [← moved] at later
    obtain ⟨final, storedAll, last⟩ := ih after (fun data mem => small data (.tail _ mem)) later
    refine ⟨final, ?_, last⟩
    simp only [BlobArray.storeAll, stored, Result.ok_bind, storedAll, Result.pure_eq_ok]
    rfl

end BlobArray

end AutomatonCore.Storage
