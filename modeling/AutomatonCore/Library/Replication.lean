import Mathlib.Logic.Relation

/-!
# Replicas that count their steps

Replicas start in one state and take steps of a relation that is a partial
function, and every step is counted.  Then a replica that has counted less is
behind the others: it has been through none but their states.
-/

namespace AutomatonCore.Library

open Relation

variable {σ : Type*} {step : σ → σ → Prop} {count : σ → Nat} {start first second : σ}

theorem count_le_of_reflTransGen (counted : ∀ s next, step s next → count next = count s + 1)
    (reached : ReflTransGen step first second) :
    count first ≤ count second ∧ (count first = count second → first = second) := by
  induction reached with
  | refl => exact ⟨Nat.le_refl _, fun _ => rfl⟩
  | tail _ last ih =>
    have more := counted _ _ last
    exact ⟨by omega, fun same => by omega⟩

theorem reflTransGen_of_count_le (unique : Relator.RightUnique step)
    (counted : ∀ s next, step s next → count next = count s + 1)
    (reachesFirst : ReflTransGen step start first) (reachesSecond : ReflTransGen step start second)
    (behind : count first ≤ count second) : ReflTransGen step first second := by
  rcases ReflTransGen.total_of_right_unique unique reachesFirst reachesSecond with ahead | back
  · exact ahead
  · have := count_le_of_reflTransGen counted back
    rw [this.2 (by omega)]

end AutomatonCore.Library
