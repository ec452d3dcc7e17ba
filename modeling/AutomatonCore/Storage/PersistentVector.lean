import Mathlib.Data.List.Infix
import AutomatonCore.Storage.MappedFile

/-!
# Persistent vectors

An element is known by its bytes, as all copies are made by `memcpy`.
-/

namespace AutomatonCore.Storage

open Io Library List

structure PersistentStorage where
  file : Bytes
  isMapped : Bool
  objectSize : Nat
  capacity : Nat

namespace PersistentStorage

def headerSize : Nat := 1024

def curVersion : Nat := 10000

def newFileSize : Nat := 2 ^ 20

def location (storage : PersistentStorage) (index : Nat) : Nat :=
  index * storage.objectSize + headerSize

/-- The loop in `store` that makes the file longer until `needed` bytes fit.
A capacity of 64 bits that is not zero can be doubled at most 64 times. -/
def growLoop (needed : Nat) : Nat → PersistentStorage → Result PersistentStorage
  | 0, storage =>
    if needed > storage.capacity then .error .endless else return storage
  | rounds + 1, storage =>
    if needed > storage.capacity then do
      let file ← MappedFile.resizeFile storage.file (storage.capacity * 2)
      -- closed and opened again: the capacity is that of the file
      growLoop needed rounds { storage with file, capacity := file.length }
    else return storage

def store (storage : PersistentStorage) (index : Nat) (data : Bytes) : Result PersistentStorage :=
  if storage.isMapped = false then .error .notMapped
  else do
    let needed := storage.location index + storage.objectSize
    let grown ← growLoop needed 64 storage
    let file ← MappedFile.write grown.file (storage.location index) data
    return { grown with file }

def get (storage : PersistentStorage) (index : Nat) : Result Nat :=
  if storage.isMapped = false then .error .notMapped
  else if storage.location index ≥ storage.capacity then .error .outOfRange
  else return storage.location index

/-- `map_file` of a new object; `none` is a path at which there is no file. -/
def mapFile (file : Option Bytes) (objectSize : Nat) : Result PersistentStorage :=
  match file with
  | some contents => return ⟨contents, true, objectSize, contents.length⟩
  | none => do
    let blank := List.replicate newFileSize 0
    let file ← MappedFile.write blank 0 (List.replicate headerSize 0)
    let file ← MappedFile.writeInteger 8 file 0 curVersion
    return ⟨file, true, objectSize, newFileSize⟩

/-- The word 8 of the header is the number of elements. -/
def headerWord (index : Nat) : Nat :=
  8 * index

end PersistentStorage

/-- The number of elements is also kept in the object; it is read from the
header when a file is mapped. -/
structure PersistentVector where
  storage : PersistentStorage
  nextFree : Nat

namespace PersistentVector

open PersistentStorage (headerWord)

def get (vector : PersistentVector) (index : Nat) : Result Bytes := do
  let location ← vector.storage.get index
  MappedFile.read vector.storage.file location vector.storage.objectSize

def assign (vector : PersistentVector) (index : Nat) (value : Bytes) : Result PersistentVector := do
  let location ← vector.storage.get index
  let file ← MappedFile.write vector.storage.file location value
  return { vector with storage := { vector.storage with file } }

def pushBack (vector : PersistentVector) (value : Bytes) : Result PersistentVector := do
  let storage ← vector.storage.store vector.nextFree value
  let count ← MappedFile.readInteger 8 storage.file (headerWord 8)
  let file ← MappedFile.writeInteger 8 storage.file (headerWord 8) (count + 1)
  return ⟨{ storage with file }, vector.nextFree + 1⟩

def resize (vector : PersistentVector) (size : Nat) : Result PersistentVector := do
  let file ← MappedFile.writeInteger 8 vector.storage.file (headerWord 8) size
  return ⟨{ vector.storage with file }, size⟩

def mapFile (file : Option Bytes) (objectSize : Nat) : Result PersistentVector := do
  let storage ← PersistentStorage.mapFile file objectSize
  let count ← MappedFile.readInteger 8 storage.file (headerWord 8)
  return ⟨storage, count⟩

def size (vector : PersistentVector) : Nat :=
  vector.nextFree

/-- The operations; `reopen` closes the file and maps it with a new object. -/
inductive Operation where
  | pushBack (value : Bytes)
  | assign (index : Nat) (value : Bytes)
  | resize (size : Nat)
  | reopen
  deriving DecidableEq, Repr

def apply (vector : PersistentVector) : Operation → Result PersistentVector
  | .pushBack value => vector.pushBack value
  | .assign index value => vector.assign index value
  | .resize size => vector.resize size
  | .reopen => mapFile (some vector.storage.file) vector.storage.objectSize

def applyAll : PersistentVector → List Operation → Result PersistentVector
  | vector, [] => return vector
  | vector, operation :: operations => do
    let next ← vector.apply operation
    applyAll next operations

def run (objectSize : Nat) (operations : List Operation) : Result PersistentVector := do
  let vector ← mapFile none objectSize
  vector.applyAll operations

/-! ## What a vector is for: a list -/

def Operation.onList (items : List Bytes) : Operation → List Bytes
  | .pushBack value => items ++ [value]
  | .assign index value => items.set index value
  | .resize size => items.take size
  | .reopen => items

def contents (operations : List Operation) : List Bytes :=
  operations.foldl Operation.onList []

/-- Values have the size of the objects, assigned elements exist, and a vector
is only made shorter. -/
def Operation.Allowed (objectSize : Nat) (items : List Bytes) : Operation → Prop
  | .pushBack value => value.length = objectSize
  | .assign index value => index < items.length ∧ value.length = objectSize
  | .resize size => size ≤ items.length
  | .reopen => True

def AllAllowed (objectSize : Nat) : List Bytes → List Operation → Prop
  | _, [] => True
  | items, operation :: operations =>
    operation.Allowed objectSize items ∧ AllAllowed objectSize (operation.onList items) operations

end PersistentVector

/-! ## Growing -/

namespace PersistentStorage

def lengthened (storage : PersistentStorage) (zeros : Bytes) : PersistentStorage :=
  { storage with
    file := storage.file ++ zeros
    capacity := (storage.file ++ zeros).length }

theorem lengthened_lengthened (storage : PersistentStorage) (first second : Bytes) :
    (storage.lengthened first).lengthened second = storage.lengthened (first ++ second) := by
  simp [lengthened]

theorem growLoop_spec {rounds : Nat} (needed : Nat) (storage : PersistentStorage)
    (mapped : storage.capacity = storage.file.length) (small : storage.capacity ≤ maxFileSize)
    (enough : maxFileSize < storage.capacity * 2 ^ rounds) :
    (growLoop needed rounds storage = .error .fileTooLarge ∧ maxFileSize < needed * 2) ∨
      ∃ zeros, growLoop needed rounds storage = .ok (storage.lengthened zeros) ∧
        needed ≤ (storage.file ++ zeros).length ∧ (storage.file ++ zeros).length ≤ maxFileSize := by
  induction rounds generalizing storage with
  | zero => omega
  | succ rounds ih =>
    by_cases short : needed > storage.capacity
    · by_cases large : storage.capacity * 2 > maxFileSize
      · left
        refine ⟨?_, by omega⟩
        simp [growLoop, short, MappedFile.resizeFile, large]
      · let zeros : Bytes := List.replicate (storage.capacity * 2 - storage.file.length) 0
        have resized : MappedFile.resizeFile storage.file (storage.capacity * 2) =
              .ok (storage.file ++ zeros) :=
          MappedFile.resizeFile_eq (by omega) (by omega)
        have length : (storage.file ++ zeros).length = storage.capacity * 2 := by
          rw [length_append, length_replicate]
          omega
        have step : growLoop needed (rounds + 1) storage =
              growLoop needed rounds (storage.lengthened zeros) := by
          rw [growLoop, if_pos short, resized]
          rfl
        have doubled : (storage.lengthened zeros).capacity = storage.capacity * 2 := length
        rw [step]
        rcases ih (storage.lengthened zeros) rfl (by omega)
            (by rw [doubled, mul_assoc, ← pow_succ']; exact enough)
          with refused | ⟨more, grown, fits, bound⟩
        · exact .inl refused
        · rw [lengthened_lengthened] at grown
          have joined : (storage.lengthened zeros).file ++ more =
                storage.file ++ (zeros ++ more) := append_assoc _ _ _
          rw [joined] at fits bound
          exact .inr ⟨zeros ++ more, grown, fits, bound⟩
    · right
      refine ⟨[], ?_, ?_, ?_⟩
      · simp [growLoop, short, lengthened, ← mapped]
      · rw [append_nil, ← mapped]
        omega
      · rw [append_nil, ← mapped]
        exact small

end PersistentStorage

/-! ## The vector is a list -/

namespace PersistentVector

open PersistentStorage (headerSize headerWord newFileSize)

structure Elements (file : Bytes) (objectSize : Nat) (items : List Bytes) : Prop where
  small : file.length ≤ maxFileSize
  header : headerSize ≤ file.length
  room : items.length * objectSize + headerSize ≤ file.length
  sizes : ∀ item ∈ items, item.length = objectSize
  elements : ∀ {index item}, items[index]? = some item →
      slice file (index * objectSize + headerSize) objectSize = item

def headerCount (file : Bytes) : Nat :=
  littleEndianValue (slice file (headerWord 8) 8)

/-- The mapped file holds the elements of a list. -/
structure Represents (vector : PersistentVector) (objectSize : Nat)
    (items : List Bytes) : Prop where
  mapped : vector.storage.isMapped = true
  size : vector.storage.objectSize = objectSize
  capacity : vector.storage.capacity = vector.storage.file.length
  count : vector.nextFree = items.length
  counted : headerCount vector.storage.file = items.length
  elements : Elements vector.storage.file objectSize items

variable {vector : PersistentVector} {objectSize : Nat} {items : List Bytes}
  {file : Bytes}

theorem headerCount_element (i : Nat) (v : Bytes)
    (inside : i * objectSize + headerSize ≤ file.length) :
    headerCount (splice file (i * objectSize + headerSize) v) = headerCount file := by
  rw [headerCount, slice_splice_apart inside (.inl ?_), headerCount]
  simp only [headerSize, headerWord]
  omega

namespace Elements

variable (elements : Elements file objectSize items)
include elements

theorem headerWord_inside : headerWord 8 + 8 ≤ file.length := by
  have header := elements.header
  simp only [headerSize, headerWord] at header ⊢
  omega

theorem inside {i : Nat} (below : i < items.length) :
    i * objectSize + headerSize + objectSize ≤ file.length := by
  have room := elements.room
  have rows : (i + 1) * objectSize ≤ items.length * objectSize := Nat.mul_le_mul_right _ below
  rw [Nat.succ_mul] at rows
  omega

theorem fits (pos : 0 < objectSize) : items.length < 2 ^ 64 := by
  have room := elements.room
  have small := elements.small
  have rows : items.length * 1 ≤ items.length * objectSize := Nat.mul_le_mul_left _ pos
  simp only [maxFileSize] at small
  omega

theorem take (count : Nat) : Elements file objectSize (items.take count) where
  small := elements.small
  header := elements.header
  room := by
    have room := elements.room
    have rows : (items.take count).length * objectSize ≤ items.length * objectSize :=
      Nat.mul_le_mul_right _ (length_take_le' _ _)
    omega
  sizes item mem := elements.sizes item (mem_of_mem_take mem)
  elements found := by
    rw [getElem?_take] at found
    split at found
    · exact elements.elements found
    · cases found

theorem lengthen {zeros : Bytes} (small : (file ++ zeros).length ≤ maxFileSize) :
    Elements (file ++ zeros) objectSize items where
  small := small
  header := by
    rw [length_append]
    exact Nat.le_add_right_of_le elements.header
  room := by
    rw [length_append]
    exact Nat.le_add_right_of_le elements.room
  sizes := elements.sizes
  elements found := by
    rw [slice_append (elements.inside (List.getElem?_eq_some_iff.mp found).1)]
    exact elements.elements found

theorem length_setCount (n : Nat) :
    (splice file (headerWord 8) (littleEndian 8 n)).length = file.length :=
  length_splice (by
    rw [length_littleEndian]
    exact elements.headerWord_inside)

theorem setCount (n : Nat) :
    Elements (splice file (headerWord 8) (littleEndian 8 n)) objectSize items := by
  have word := elements.headerWord_inside
  have length := elements.length_setCount n
  exact
    { small := by rw [length]; exact elements.small
      header := by rw [length]; exact elements.header
      room := by rw [length]; exact elements.room
      sizes := elements.sizes
      elements := fun found => by
        rw [slice_splice_apart (by omega) (.inr ?_)]
        · exact elements.elements found
        · rw [length_littleEndian]
          simp only [headerSize, headerWord]
          omega }

theorem headerCount_setCount {number : Nat} (fits : number < 2 ^ 64) :
    headerCount (splice file (headerWord 8) (littleEndian 8 number)) = number := by
  have word := elements.headerWord_inside
  exact MappedFile.littleEndianValue_splice fits (by omega)

theorem write {i : Nat} {value : Bytes} (size : value.length = objectSize)
    (inside : i * objectSize + headerSize + objectSize ≤ file.length)
    {changed : List Bytes} (room : changed.length ≤ items.length ∨ changed.length ≤ i + 1)
    (written : changed[i]? = some value)
    (kept : ∀ other, other ≠ i → changed[other]? = items[other]?) :
    Elements (splice file (i * objectSize + headerSize) value) objectSize changed := by
  have length : (splice file (i * objectSize + headerSize) value).length = file.length :=
    length_splice (by rw [size]; exact inside)
  exact
    { small := by rw [length]; exact elements.small
      header := by rw [length]; exact elements.header
      room := by
        have before := elements.room
        rw [length]
        rcases room with shorter | shorter
        · have rows := Nat.mul_le_mul_right objectSize shorter
          omega
        · have rows := Nat.mul_le_mul_right objectSize shorter
          rw [Nat.succ_mul] at rows
          omega
      sizes := fun item mem => by
        obtain ⟨other, found⟩ := mem_iff_getElem?.mp mem
        by_cases same : other = i
        · rw [same, written] at found
          exact Option.some.inj found ▸ size
        · rw [kept other same] at found
          exact elements.sizes item (mem_of_getElem? found)
      elements := fun {other item} found => by
        by_cases same : other = i
        · subst same
          cases written.symm.trans found
          have here : slice (splice file (other * objectSize + headerSize) value)
                  (other * objectSize + headerSize) value.length = value :=
            slice_splice (by omega)
          rwa [size] at here
        · -- different elements do not overlap
          rw [kept other same] at found
          rw [slice_splice_apart (by omega) ?_]
          · exact elements.elements found
          · rw [size]
            rcases Nat.lt_or_gt_of_ne same with before | after
            · left
              have rows : (other + 1) * objectSize ≤ i * objectSize := Nat.mul_le_mul_right _ before
              rw [Nat.succ_mul] at rows
              omega
            · right
              have rows : (i + 1) * objectSize ≤ other * objectSize := Nat.mul_le_mul_right _ after
              rw [Nat.succ_mul] at rows
              omega }

end Elements

namespace Represents

variable (rep : Represents vector objectSize items)
include rep

theorem location_eq (i : Nat) : vector.storage.location i = i * objectSize + headerSize := by
  rw [PersistentStorage.location, rep.size]

variable {i : Nat} {v : Bytes}

theorem storage_get (pos : 0 < objectSize) (below : i < items.length) :
    vector.storage.get i = .ok (i * objectSize + headerSize) := by
  have inside := rep.elements.inside below
  have capacity := rep.capacity
  rw [PersistentStorage.get, rep.mapped, rep.location_eq, if_neg (by simp), if_neg (by omega)]
  rfl

theorem get (pos : 0 < objectSize) {item : Bytes} (found : items[i]? = some item) :
    vector.get i = .ok item := by
  have below := (List.getElem?_eq_some_iff.mp found).1
  rw [PersistentVector.get, rep.storage_get pos below, Result.ok_bind, rep.size,
    MappedFile.read_eq (rep.elements.inside below), rep.elements.elements found]

theorem assign (pos : 0 < objectSize) (below : i < items.length) (size : v.length = objectSize) :
    ∃ next, vector.assign i v = .ok next ∧ Represents next objectSize (items.set i v) := by
  have inside := rep.elements.inside below
  have placed : i * objectSize + headerSize + v.length ≤ vector.storage.file.length := by
    rw [size]
    exact inside
  have result : vector.assign i v = .ok
          { vector with
            storage :=
              { vector.storage with
                file := splice vector.storage.file (i * objectSize + headerSize) v } } := by
    rw [PersistentVector.assign, rep.storage_get pos below,
      Result.ok_bind, MappedFile.write_eq placed]
    rfl
  exact ⟨_, result,
      { mapped := rep.mapped
        size := rep.size
        capacity := rep.capacity.trans (length_splice placed).symm
        count := by rw [length_set]; exact rep.count
        counted := by
          rw [headerCount_element _ _ (by omega), length_set]
          exact rep.counted
        elements :=
          rep.elements.write size inside (.inl (le_of_eq length_set))
            (getElem?_set_self below)
            fun other ne => getElem?_set_ne (Ne.symm ne) }⟩

theorem resize (pos : 0 < objectSize) {count : Nat} (fewer : count ≤ items.length) :
    ∃ next, vector.resize count = .ok next ∧ Represents next objectSize (items.take count) := by
  have word := rep.elements.headerWord_inside
  have length : (items.take count).length = count := length_take_of_le fewer
  have fits := rep.elements.fits pos
  have result : vector.resize count = .ok
          ⟨{ vector.storage with
              file :=
                splice vector.storage.file (headerWord 8) (littleEndian 8 count) }, count⟩ := by
    rw [PersistentVector.resize, MappedFile.writeInteger_eq _ word]
    rfl
  exact ⟨_, result,
      { mapped := rep.mapped
        size := rep.size
        capacity := rep.capacity.trans (rep.elements.length_setCount count).symm
        count := length.symm
        counted := by rw [rep.elements.headerCount_setCount (by omega), length]
        elements := (rep.elements.take count).setCount count }⟩

theorem reopen :
    ∃ next, mapFile (some vector.storage.file) vector.storage.objectSize = .ok next ∧
        Represents next objectSize items := by
  have result : mapFile (some vector.storage.file) vector.storage.objectSize = .ok
          ⟨⟨vector.storage.file, true, vector.storage.objectSize, vector.storage.file.length⟩,
            headerCount vector.storage.file⟩ := by
    rw [mapFile, PersistentStorage.mapFile, Result.pure_eq_ok, Result.ok_bind,
      MappedFile.readInteger_eq rep.elements.headerWord_inside]
    rfl
  exact ⟨_, result,
      { mapped := rfl
        size := rep.size
        capacity := rfl
        count := rep.counted
        counted := rep.counted
        elements := rep.elements }⟩

theorem store_pushed {zeros : Bytes} (size : v.length = objectSize) (grown :
      PersistentStorage.growLoop (items.length * objectSize + headerSize + objectSize) 64
          vector.storage = .ok (vector.storage.lengthened zeros))
    (inside :
      items.length * objectSize + headerSize + objectSize ≤ (vector.storage.file ++ zeros).length) :
    vector.storage.store vector.nextFree v = .ok
        { vector.storage.lengthened zeros with
          file :=
            splice (vector.storage.file ++ zeros) (items.length * objectSize + headerSize) v } := by
  rw [PersistentStorage.store, rep.mapped, if_neg (by simp), rep.location_eq, rep.size, rep.count]
  dsimp only
  rw [grown, Result.ok_bind, PersistentStorage.lengthened,
    MappedFile.write_eq (by rw [size]; exact inside)]
  rfl

theorem pushBack (pos : 0 < objectSize) (size : v.length = objectSize) :
    (∃ next, vector.pushBack v = .ok next ∧ Represents next objectSize (items ++ [v])) ∨
      vector.pushBack v = .error .fileTooLarge ∧
        2 ^ 62 ≤ headerSize + objectSize * (items.length + 1) := by
  have header := rep.elements.header
  have small := rep.elements.small
  have capacity := rep.capacity
  have enough : maxFileSize < vector.storage.capacity * 2 ^ 64 := by
    simp only [headerSize] at header
    simp only [maxFileSize]
    omega
  rcases PersistentStorage.growLoop_spec (items.length * objectSize + headerSize + objectSize)
      vector.storage capacity (by omega) enough
    with ⟨refused, long⟩ | ⟨zeros, grown, inside, bound⟩
  · right
    constructor
    · rw [PersistentVector.pushBack, PersistentStorage.store,
        rep.mapped, if_neg (by simp), rep.location_eq, rep.size, rep.count]
      dsimp only
      rw [refused]
      rfl
    · rw [mul_comm, Nat.succ_mul]
      simp only [maxFileSize] at long
      omega
  · left
    have lengthened := rep.elements.lengthen bound
    have stored := rep.store_pushed size grown inside
    have placed : items.length * objectSize + headerSize + v.length ≤
          (vector.storage.file ++ zeros).length := by
      rw [size]
      exact inside
    have length := length_splice placed
    have pushed : Elements _ objectSize (items ++ [v]) :=
      lengthened.write size inside (.inr (by simp)) (by simp) fun other ne => by
          rcases Nat.lt_or_gt_of_ne ne with before | after
          · exact getElem?_append_left before
          · rw [getElem?_eq_none (by simp; omega), getElem?_eq_none (by omega)]
    have count : headerCount
            (splice (vector.storage.file ++ zeros) (items.length * objectSize + headerSize) v) =
          items.length := by
      rw [headerCount_element _ _ (by omega), headerCount,
        slice_append rep.elements.headerWord_inside]
      exact rep.counted
    have fits := pushed.fits pos
    rw [length_append, length_singleton] at fits
    have result : vector.pushBack v = .ok
            ⟨{ vector.storage.lengthened zeros with
                file :=
                  splice (splice (vector.storage.file ++ zeros)
                      (items.length * objectSize + headerSize) v)
                    (headerWord 8) (littleEndian 8 (items.length + 1)) },
              vector.nextFree + 1⟩ := by
      rw [PersistentVector.pushBack, stored, Result.ok_bind,
        MappedFile.readInteger_eq pushed.headerWord_inside, Result.ok_bind]
      rw [headerCount] at count
      dsimp only
      rw [count, MappedFile.writeInteger_eq _ pushed.headerWord_inside]
      rfl
    exact ⟨_, result,
        { mapped := rep.mapped
          size := rep.size
          capacity := by
            dsimp only [PersistentStorage.lengthened]
            rw [pushed.length_setCount, length]
          count := by
            rw [length_append, length_singleton]
            exact congrArg Nat.succ rep.count
          counted := by
            rw [pushed.headerCount_setCount fits, length_append, length_singleton]
          elements := pushed.setCount _ }⟩

end Represents

theorem Represents.apply (rep : Represents vector objectSize items)
    (pos : 0 < objectSize) {operation : Operation} (allowed : operation.Allowed objectSize items) :
    (∃ next,
        vector.apply operation = .ok next ∧ Represents next objectSize (operation.onList items)) ∨
      vector.apply operation = .error .fileTooLarge ∧
        2 ^ 62 ≤ headerSize + objectSize * (operation.onList items).length := by
  cases operation with
  | pushBack v =>
    have pushed := rep.pushBack pos allowed
    simpa [PersistentVector.apply, Operation.onList] using pushed
  | assign i v => exact .inl (rep.assign pos allowed.1 allowed.2)
  | resize size => exact .inl (rep.resize pos allowed)
  | reopen => exact .inl rep.reopen

theorem Represents.applyAll {operations : List Operation}
    (rep : Represents vector objectSize items) (pos : 0 < objectSize)
    (allowed : AllAllowed objectSize items operations) :
    (∃ final, vector.applyAll operations = .ok final ∧
          Represents final objectSize (operations.foldl Operation.onList items)) ∨
      vector.applyAll operations = .error .fileTooLarge ∧ ∃ initial, initial <+: operations ∧
        2 ^ 62 ≤ headerSize + objectSize * (initial.foldl Operation.onList items).length := by
  induction operations generalizing vector items with
  | nil => exact .inl ⟨vector, rfl, rep⟩
  | cons operation operations ih =>
    obtain ⟨first, later⟩ := allowed
    rw [PersistentVector.applyAll]
    rcases rep.apply pos first with
      ⟨next, applied, after⟩ | ⟨refused, long⟩
    · rw [applied, Result.ok_bind]
      rcases ih after later with
        final | ⟨refused, initial, among, long⟩
      · exact .inl final
      · exact .inr ⟨refused, operation :: initial, cons_prefix_cons.mpr ⟨rfl, among⟩, long⟩
    · right
      rw [refused]
      exact ⟨rfl, [operation], cons_prefix_cons.mpr ⟨rfl, nil_prefix⟩, long⟩

theorem mapFile_new (objectSize : Nat) :
    ∃ vector, mapFile none objectSize = .ok vector ∧ Represents vector objectSize [] := by
  let blank : Bytes := List.replicate newFileSize 0
  let cleared := splice blank 0 (List.replicate headerSize 0)
  let file := splice cleared 0 (littleEndian 8 PersistentStorage.curVersion)
  have blankLength : blank.length = newFileSize := length_replicate
  have clearedInside : 0 + (List.replicate headerSize (0 : UInt8)).length ≤ blank.length := by
    rw [length_replicate, blankLength]
    decide
  have clearedLength : cleared.length = newFileSize :=
    (length_splice clearedInside).trans blankLength
  have fileInside : 0 + 8 ≤ cleared.length := by
    rw [clearedLength]
    decide
  have fileLength : file.length = newFileSize :=
    (length_splice (by rw [length_littleEndian]; exact fileInside)).trans clearedLength
  have elements : Elements file objectSize [] :=
    { small := by rw [fileLength]; decide
      header := by rw [fileLength]; decide
      room := by
        rw [fileLength, length_nil, zero_mul]
        decide
      sizes := by simp
      elements := by simp }
  -- the word of the number of items was cleared
  have count : headerCount file = 0 := by
    have zeros :
        slice file (headerWord 8) 8 = slice (List.replicate headerSize 0) (headerWord 8) 8 := by
      rw [slice_splice_apart (Nat.zero_le _) (.inr ?_)]
      · have part : slice cleared (0 + headerWord 8) 8 =
              slice (List.replicate headerSize 0) (headerWord 8) 8 :=
          slice_splice_inside (Nat.zero_le _) (by
            rw [length_replicate]
            decide)
        rwa [zero_add] at part
      · rw [length_littleEndian]
        decide
    rw [headerCount, zeros]
    decide +kernel
  have result :
      mapFile none objectSize = .ok ⟨⟨file, true, objectSize, newFileSize⟩, headerCount file⟩ := by
    have first : MappedFile.write blank 0 (List.replicate headerSize 0) = .ok cleared :=
      MappedFile.write_eq clearedInside
    have second : MappedFile.writeInteger 8 cleared 0 PersistentStorage.curVersion = .ok file :=
      MappedFile.writeInteger_eq _ fileInside
    have mapped :
        PersistentStorage.mapFile none objectSize = .ok ⟨file, true, objectSize, newFileSize⟩ := by
      change (MappedFile.write blank 0 (List.replicate headerSize 0) >>= _) = _
      rw [first, Result.ok_bind, second, Result.ok_bind]
      rfl
    rw [mapFile, mapped, Result.ok_bind, MappedFile.readInteger_eq elements.headerWord_inside]
    rfl
  exact ⟨_, result,
      { mapped := rfl
        size := rfl
        capacity := fileLength.symm
        count
        counted := count
        elements }⟩

/-- A persistent vector is a list that survives reopening: after any allowed
operations its size and its elements are those of the list.  The only other
outcome is that the file system refuses a file of `2 ^ 63` bytes, for which
the list must have had `2 ^ 62` bytes. -/
theorem vector_is_list {objectSize : Nat} (pos : 0 < objectSize)
    {operations : List Operation} (allowed : AllAllowed objectSize [] operations) :
    (∃ vector, run objectSize operations = .ok vector ∧ vector.size = (contents operations).length ∧
          ∀ i (below : i < (contents operations).length),
          vector.get i = .ok (contents operations)[i]) ∨
      run objectSize operations = .error .fileTooLarge ∧ ∃ initial, initial <+: operations ∧
        2 ^ 62 ≤ headerSize + objectSize * (contents initial).length := by
  obtain ⟨vector, mapped, rep⟩ := mapFile_new objectSize
  rw [run, mapped, Result.ok_bind]
  rcases rep.applyAll pos allowed with
    ⟨final, ran, rep⟩ | refused
  · left
    refine ⟨final, ran, rep.count, ?_⟩
    intro i below
    exact rep.get pos (getElem?_eq_getElem below)
  · exact .inr refused

def exampleOperations : List Operation :=
  [.pushBack [1], .pushBack [2], .reopen, .assign 1 [3], .reopen]

theorem vector_is_list_example :
    ∃ vector, run 1 exampleOperations = .ok vector ∧ vector.size = 2 ∧ vector.get 1 = .ok [3] := by
  have allowed : AllAllowed 1 [] exampleOperations := by
    simp [exampleOperations, AllAllowed, Operation.Allowed, Operation.onList]
  rcases vector_is_list (by decide) allowed with
    ⟨vector, ran, size, elements⟩ | ⟨_, initial, among, long⟩
  · exact ⟨vector, ran, size, elements 1 (by decide)⟩
  · have short : ∀ initial ∈ exampleOperations.inits,
          headerSize + 1 * (contents initial).length < 2 ^ 62 := by
      decide +kernel
    have bound := short initial (mem_inits _ _ |>.mpr among)
    omega

end PersistentVector

end AutomatonCore.Storage
