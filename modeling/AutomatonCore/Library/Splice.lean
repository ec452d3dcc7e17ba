import Mathlib.Data.List.Basic

/-!
# Cells of a list

A list as a memory of cells.
-/

namespace AutomatonCore.Library

open List

variable {α : Type*}

/-- Writes a list at a position. -/
def splice (cells : List α) (position : Nat) (data : List α) : List α :=
  cells.take position ++ data ++ cells.drop (position + data.length)

/-- Reads a number of cells. -/
def slice (cells : List α) (position count : Nat) : List α :=
  (cells.drop position).take count

variable {cells data : List α} {pos other count : Nat}

theorem slice_getElem? (i : Nat) :
    (slice cells pos count)[i]? =
      if i < count then cells[pos + i]? else none := by
  simp [slice, getElem?_take]

theorem splice_getElem? (inside : pos ≤ cells.length) (i : Nat) :
    (splice cells pos data)[i]? =
      if pos ≤ i ∧ i < pos + data.length then data[i - pos]?
      else cells[i]? := by
  have start : (cells.take pos).length = pos := length_take_of_le inside
  by_cases before : i < pos
  · rw [if_neg (by omega), splice, append_assoc,
      getElem?_append_left (by omega), getElem?_take_of_lt before]
  · rw [splice, append_assoc, getElem?_append_right (by omega), start]
    by_cases written : i < pos + data.length
    · rw [if_pos (by omega), getElem?_append_left (by omega)]
    · rw [if_neg (by omega), getElem?_append_right (by omega), getElem?_drop]
      congr 1
      omega

theorem length_splice (inside : pos + data.length ≤ cells.length) :
    (splice cells pos data).length = cells.length := by
  simp only [splice, length_append, length_take, length_drop]
  omega

theorem length_slice (inside : pos + count ≤ cells.length) :
    (slice cells pos count).length = count := by
  simp only [slice, length_take, length_drop]
  omega

theorem slice_splice (inside : pos ≤ cells.length) :
    slice (splice cells pos data) pos data.length = data := by
  apply ext_getElem?
  intro i
  rw [slice_getElem?, splice_getElem? inside]
  by_cases written : i < data.length
  · rw [if_pos written, if_pos (by omega), Nat.add_sub_cancel_left]
  · rw [if_neg written, getElem?_eq_none (by omega)]

theorem slice_splice_inside (inside : pos ≤ cells.length) (written : other + count ≤ data.length) :
    slice (splice cells pos data) (pos + other) count = slice data other count := by
  apply ext_getElem?
  intro i
  rw [slice_getElem?, slice_getElem?, splice_getElem? inside]
  by_cases read : i < count
  · rw [if_pos read, if_pos read, if_pos (by omega)]
    congr 1
    omega
  · rw [if_neg read, if_neg read]

theorem slice_splice_apart (inside : pos ≤ cells.length)
    (apart : other + count ≤ pos ∨ pos + data.length ≤ other) :
    slice (splice cells pos data) other count = slice cells other count := by
  apply ext_getElem?
  intro i
  rw [slice_getElem?, slice_getElem?, splice_getElem? inside]
  by_cases read : i < count
  · rw [if_pos read, if_pos read, if_neg (by omega)]
  · rw [if_neg read, if_neg read]

theorem splice_slice (inside : pos + count ≤ cells.length) :
    splice cells pos (slice cells pos count) = cells := by
  apply ext_getElem?
  intro i
  rw [splice_getElem? (by omega), length_slice inside, slice_getElem?]
  split
  · rw [if_pos (by omega)]
    congr 1
    omega
  · rfl

theorem slice_add (first second : Nat) :
    slice cells pos (first + second) =
      slice cells pos first ++ slice cells (pos + first) second := by
  rw [slice, slice, slice, take_add, drop_drop]

theorem slice_append {more : List α} (inside : pos + count ≤ cells.length) :
    slice (cells ++ more) pos count = slice cells pos count := by
  apply ext_getElem?
  intro i
  rw [slice_getElem?, slice_getElem?]
  by_cases read : i < count
  · rw [if_pos read, if_pos read, getElem?_append_left (by omega)]
  · rw [if_neg read, if_neg read]

end AutomatonCore.Library
