import AutomatonCore.Library.Simulation

/-!
# Invariants of programs with state and exceptions
-/

namespace AutomatonCore.Library

/-- The state that a program leaves behind, by returning or by throwing,
satisfies the invariant whenever the state before it does. -/
def Preserves {ε σ α : Type} (invariant : σ → Prop) (program : EStateM ε σ α) : Prop :=
  ∀ state, invariant state → invariant (finalState (program state))

namespace Preserves

variable {ε σ α β ι : Type} {invariant : σ → Prop}

theorem pure (v : α) : Preserves invariant (Pure.pure v : EStateM ε σ α) := fun _ holds => holds

theorem throw (error : ε) : Preserves invariant (MonadExcept.throw error : EStateM ε σ α) :=
  fun _ holds => holds

theorem bind {program : EStateM ε σ α} {next : α → EStateM ε σ β}
    (first : Preserves invariant program) (second : ∀ v, Preserves invariant (next v)) :
    Preserves invariant (program >>= next) := by
  intro s holds
  have middle := first s holds
  change invariant (finalState (EStateM.bind program next s))
  unfold EStateM.bind
  cases run : program s with
  | error error final =>
    rw [run] at middle
    exact middle
  | ok v final =>
    rw [run] at middle
    exact second v final middle

theorem ite {condition : Prop} [Decidable condition]
    {program other : EStateM ε σ α} (yes : Preserves invariant program)
    (no : Preserves invariant other) :
    Preserves invariant (if condition then program else other) := by
  split
  · exact yes
  · exact no

theorem forM {body : ι → EStateM ε σ Unit}
    (each : ∀ item, Preserves invariant (body item)) (items : List ι) :
    Preserves invariant (items.forM body) := by
  induction items with
  | nil => exact pure ()
  | cons item items ih => exact (each item).bind fun _ => ih

end Preserves

end AutomatonCore.Library
