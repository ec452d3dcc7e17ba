import Mathlib.Data.List.Basic

/-!
# Writing into a memory
-/

namespace AutomatonCore.Library

open List

variable {α : Type}

/-- A list is written at a position of the memory. -/
def overlay (memory : Nat → Option α) (position : Nat) (data : List α) : Nat → Option α :=
  fun index =>
    if position ≤ index ∧ index < position + data.length then data[index - position]?
    else memory index

/-- The list has gaps, where the memory stays as it was. -/
def fill (memory : Nat → Option α) (position : Nat) (cells : List (Option α)) : Nat → Option α :=
  fun index =>
    if position ≤ index then (cells[index - position]?).join.or (memory index)
    else memory index

variable (memory : Nat → Option α)

theorem overlay_eq_fill (pos : Nat) (data : List α) :
    overlay memory pos data = fill memory pos (data.map some) := by
  funext i
  simp only [overlay, fill, getElem?_map]
  by_cases inside : i - pos < data.length
  · rw [getElem?_eq_getElem inside]
    by_cases reached : pos ≤ i
    · rw [if_pos (by omega), if_pos reached]
      rfl
    · rw [if_neg (by omega), if_neg reached]
  · rw [if_neg (by omega), getElem?_eq_none (by omega)]
    simp

theorem fill_gaps (pos count : Nat) : fill memory pos (List.replicate count none) = memory := by
  funext i
  simp only [fill, getElem?_replicate]
  split
  · split <;> rfl
  · rfl

@[simp]
theorem fill_nil (pos : Nat) : fill memory pos [] = memory := fill_gaps memory pos 0

theorem fill_append (pos : Nat) (first second : List (Option α)) :
    fill (fill memory pos first) (pos + first.length) second =
      fill memory pos (first ++ second) := by
  funext i
  simp only [fill]
  by_cases before : i < pos + first.length
  · rw [if_neg (by omega)]
    by_cases reached : pos ≤ i
    · rw [if_pos reached, if_pos reached, getElem?_append_left (by omega)]
    · rw [if_neg reached, if_neg reached]
  · rw [if_pos (by omega), if_pos (by omega), if_pos (by omega),
      getElem?_eq_none (show first.length ≤ i - pos by omega),
      getElem?_append_right (by omega), Nat.sub_sub]
    rfl

theorem fill_comm {left right : Nat} (first second : List (Option α))
    (apart : left + first.length ≤ right) :
    fill (fill memory right second) left first = fill (fill memory left first) right second := by
  funext i
  simp only [fill]
  by_cases reached : right ≤ i
  · rw [if_pos (by omega), if_pos reached, if_pos reached, if_pos (by omega),
      getElem?_eq_none (show first.length ≤ i - left by omega)]
    rfl
  · rw [if_neg reached, if_neg reached]

theorem fill_interleaved {left right : Nat} (first second firstRest secondRest : List (Option α))
    (apart : left + first.length + firstRest.length ≤ right) :
    fill (fill (fill (fill memory left first) right second) (left + first.length) firstRest)
        (right + second.length) secondRest =
      fill (fill memory left (first ++ firstRest)) right (second ++ secondRest) := by
  rw [fill_comm _ firstRest second apart, fill_append, fill_append]

theorem fill_empty (cells : List (Option α)) (i : Nat) :
    fill (fun _ => none) 0 cells i = (cells[i]?).join := by
  simp [fill]

theorem overlay_getElem? {data : List α} {i : Nat} (inside : i < data.length) :
    overlay memory 0 data i = data[i]? := by
  simp [overlay, inside]

end AutomatonCore.Library
