import Mathlib.Logic.Function.Basic

/-!
# Tables of objects that know their key
-/

namespace AutomatonCore.Library

variable {κ ω : Type*}

/-- Every object has a field for the key under which it is listed; table and
field are updated separately. -/
def BackReferenced (table : κ → Option ω) (own : ω → κ) : Prop :=
  ∀ key object, table key = some object → own object = key

namespace BackReferenced

variable {table : κ → Option ω} {own : ω → κ}

theorem once (consistent : BackReferenced table own) {k other : κ}
    {object : ω} (first : table k = some object) (second : table other = some object) : k = other :=
  (consistent k object first).symm.trans (consistent other object second)

theorem mono (consistent : BackReferenced table own) {fewer : κ → Option ω}
    (kept : ∀ k object, fewer k = some object → table k = some object) : BackReferenced fewer own :=
  fun k object listed => consistent k object (kept k object listed)

variable [DecidableEq ω]

theorem update_unlisted (consistent : BackReferenced table own) {object : ω}
    (unlisted : ∀ k, table k ≠ some object) (k : κ) :
    BackReferenced table (Function.update own object k) := by
  intro k' object' listed
  have ne : object' ≠ object := by
    rintro rfl
    exact unlisted k' listed
  rw [Function.update_of_ne ne]
  exact consistent k' object' listed

variable [DecidableEq κ]

theorem insert_iff (consistent : BackReferenced table own) (k : κ) (object : ω) :
    BackReferenced (Function.update table k (some object))
        (Function.update own object k) ↔ ∀ other, table other = some object → other = k := by
  constructor
  · intro inserted other listed
    by_contra ne
    have still : Function.update table k (some object) other = some object := by
      rw [Function.update_of_ne ne, listed]
    have known := inserted other object still
    rw [Function.update_self] at known
    exact ne known.symm
  · intro single k' object' listed
    by_cases same : k' = k
    · subst same
      rw [Function.update_self] at listed
      cases listed
      exact Function.update_self ..
    · rw [Function.update_of_ne same] at listed
      have ne : object' ≠ object := by
        rintro rfl
        exact same (single k' listed)
      rw [Function.update_of_ne ne]
      exact consistent k' object' listed

end BackReferenced

end AutomatonCore.Library
