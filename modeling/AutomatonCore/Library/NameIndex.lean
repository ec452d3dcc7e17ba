import Mathlib.Data.List.AList

/-!
# Names and positions
-/

namespace AutomatonCore.Library

open List

variable {κ : Type*} [DecidableEq κ]

/-- The map gives the positions of the names in the list. -/
def Indexes (index : AList fun _ : κ => Nat) (names : List κ) : Prop :=
  ∀ name position, index.lookup name = some position ↔ names[position]? = some name

/-- The map is written on its own each time a name is appended. -/
def appendIndex (index : AList fun _ : κ => Nat) (count : Nat) : List κ → AList fun _ : κ => Nat
  | [] => index
  | name :: names => appendIndex (index.insert name count) (count + 1) names

namespace Indexes

variable {i : AList fun _ : κ => Nat} {names : List κ}

theorem empty : Indexes (∅ : AList fun _ : κ => Nat) [] := by
  intro name pos
  simp

theorem mem_iff (indexes : Indexes i names) (name : κ) :
    name ∈ names ↔ ∃ pos, i.lookup name = some pos := by
  rw [mem_iff_getElem?]
  exact exists_congr fun pos => (indexes name pos).symm

theorem push {name : κ} (indexes : Indexes i names) (fresh : name ∉ names) :
    Indexes (i.insert name names.length) (names ++ [name]) := by
  intro other pos
  by_cases same : other = name
  · subst same
    rw [AList.lookup_insert, Option.some.injEq]
    constructor
    · rintro rfl
      exact getElem?_concat_length
    · intro found
      rcases lt_trichotomy pos names.length with
        before | here | after
      · rw [getElem?_append_left before] at found
        exact absurd (mem_of_getElem? found) fresh
      · exact here.symm
      · rw [getElem?_eq_none (by simp; omega)] at found
        cases found
  · rw [AList.lookup_insert_ne same, indexes]
    by_cases before : pos < names.length
    · rw [getElem?_append_left before]
    · rw [getElem?_eq_none (by omega), getElem?_append_right (by omega)]
      cases pos - names.length with
      | zero => simp [Ne.symm same]
      | succ rest => simp

theorem append {more : List κ} (indexes : Indexes i names)
    (fresh : ∀ name ∈ more, name ∉ names) (distinct : more.Nodup) :
    Indexes (appendIndex i names.length more) (names ++ more) := by
  induction more generalizing i names with
  | nil =>
    rw [append_nil]
    exact indexes
  | cons name more ih =>
    obtain ⟨absent, distinct⟩ := nodup_cons.mp distinct
    have pushed := indexes.push (fresh name mem_cons_self)
    have later :=
      ih pushed (fun other mem => by
          rw [mem_append, mem_singleton]
          rintro (old | rfl)
          · exact fresh other (mem_cons_of_mem _ mem) old
          · exact absent mem)
        distinct
    rw [length_append, append_assoc] at later
    exact later

theorem lookup_mono {later : AList fun _ : κ => Nat} {more : List κ} (indexes : Indexes i names)
    (after : Indexes later (names ++ more)) {name : κ} {pos : Nat}
    (found : i.lookup name = some pos) : later.lookup name = some pos := by
  have here := (indexes name pos).mp found
  refine (after name pos).mpr ?_
  rw [List.getElem?_append_left (List.getElem?_eq_some_iff.mp here).1]
  exact here

end Indexes

end AutomatonCore.Library
