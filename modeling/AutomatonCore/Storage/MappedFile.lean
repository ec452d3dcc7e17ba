import AutomatonCore.Io.Hex
import AutomatonCore.Library.LittleEndian
import AutomatonCore.Library.Splice

/-!
# Mapped files

A file that is mapped into the memory is a list of bytes: what is written
through the mapping is in the file, and nothing else is.
-/

namespace AutomatonCore.Storage

open Io Library

/-- What can go wrong: an exception for an object that is not mapped or an
index out of range, a `resize_file` that fails, an access outside of the
mapping, and a loop that does not end. -/
inductive Fault where
  | notMapped
  | outOfRange
  | fileTooLarge
  | accessViolation
  | endless
  deriving DecidableEq, Repr

abbrev Result := Except Fault

namespace Result

variable {α β : Type}

@[simp]
theorem ok_bind (v : α) (next : α → Result β) : ((Except.ok v : Result α) >>= next) = next v :=
  rfl

@[simp]
theorem error_bind (fault : Fault) (next : α → Result β) :
    ((Except.error fault : Result α) >>= next) = Except.error fault :=
  rfl

@[simp]
theorem pure_eq_ok (v : α) : (pure v : Result α) = Except.ok v :=
  rfl

end Result

/-- The largest offset into a file, a number of 64 bits with a sign. -/
def maxFileSize : Nat := 2 ^ 63 - 1

namespace MappedFile

def read (file : Bytes) (position count : Nat) : Result Bytes :=
  if position + count ≤ file.length then return slice file position count
  else .error .accessViolation

def write (file : Bytes) (position : Nat) (data : Bytes) : Result Bytes :=
  if position + data.length ≤ file.length then return splice file position data
  else .error .accessViolation

def readInteger (width : Nat) (file : Bytes) (position : Nat) : Result Nat := do
  let bytes ← read file position width
  return littleEndianValue bytes

def writeInteger (width : Nat) (file : Bytes) (position number : Nat) : Result Bytes :=
  write file position (littleEndian width number)

def resizeFile (file : Bytes) (size : Nat) : Result Bytes :=
  if size > maxFileSize then .error .fileTooLarge
  else return file.take size ++ List.replicate (size - file.length) 0

variable {file data : Bytes} {pos count width : Nat}

theorem read_eq (inside : pos + count ≤ file.length) :
    read file pos count = .ok (slice file pos count) :=
  if_pos inside

theorem write_eq (inside : pos + data.length ≤ file.length) :
    write file pos data = .ok (splice file pos data) :=
  if_pos inside

theorem readInteger_eq (inside : pos + width ≤ file.length) :
    readInteger width file pos = .ok (littleEndianValue (slice file pos width)) := by
  rw [readInteger, read_eq inside]
  rfl

theorem writeInteger_eq (n : Nat) (inside : pos + width ≤ file.length) :
    writeInteger width file pos n = .ok (splice file pos (littleEndian width n)) :=
  write_eq (by rwa [length_littleEndian])

theorem littleEndianValue_splice {number : Nat} (fits : number < 256 ^ width)
    (inside : pos ≤ file.length) :
    littleEndianValue (slice (splice file pos (littleEndian width number)) pos width) = number := by
  have written : slice (splice file pos (littleEndian width number)) pos
          (littleEndian width number).length = littleEndian width number :=
    slice_splice inside
  rw [length_littleEndian] at written
  rw [written, littleEndianValue_littleEndian, Nat.mod_eq_of_lt fits]

theorem resizeFile_eq {size : Nat} (longer : file.length ≤ size) (small : size ≤ maxFileSize) :
    resizeFile file size = .ok (file ++ List.replicate (size - file.length) 0) := by
  rw [resizeFile, if_neg (Nat.not_lt.mpr small), List.take_of_length_le longer]
  rfl

end MappedFile

end AutomatonCore.Storage
