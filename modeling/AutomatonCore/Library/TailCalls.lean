import Mathlib.Data.List.Basic

/-!
# Functions that call each other last
-/

namespace AutomatonCore.Library

/-- A step goes on with another call, returns or fails. -/
structure TailCalls (ε σ ρ : Type*) where
  step : σ → Except ε (σ ⊕ ρ)
  size : σ → Nat
  decreases : ∀ call next, step call = .ok (.inl next) → size next < size call

namespace TailCalls

variable {ε σ ρ : Type*} (machine : TailCalls ε σ ρ)

def resultWithin : Nat → σ → Option (Except ε ρ)
  | 0, _ => none
  | count + 1, call =>
    match machine.step call with
    | .error error => some (.error error)
    | .ok (.inr value) => some (.ok value)
    | .ok (.inl next) => resultWithin count next

variable {call : σ}

theorem isSome_resultWithin {count : Nat} (enough : machine.size call < count) :
    (machine.resultWithin count call).isSome := by
  induction count generalizing call with
  | zero => cases enough
  | succ count ih =>
    rw [resultWithin]
    split
    · rfl
    · rfl
    next next stepped =>
      have smaller := machine.decreases call next stepped
      exact ih (by omega)

theorem resultWithin_of_enough {first second : Nat} (enough : machine.size call < first)
    (alsoEnough : machine.size call < second) :
    machine.resultWithin first call = machine.resultWithin second call := by
  induction first generalizing second call with
  | zero => cases enough
  | succ first ih =>
    cases second with
    | zero => cases alsoEnough
    | succ second =>
      rw [resultWithin, resultWithin]
      split
      · rfl
      · rfl
      next next stepped =>
        have smaller := machine.decreases call next stepped
        exact ih (by omega) (by omega)

def result (call : σ) : Except ε ρ :=
  (machine.resultWithin (machine.size call + 1) call).get
    (machine.isSome_resultWithin (Nat.lt_succ_self _))

theorem some_result (call : σ) :
    some (machine.result call) = machine.resultWithin (machine.size call + 1) call :=
  Option.some_get _

variable {machine}

theorem result_of_error {error : ε} (stepped : machine.step call = .error error) :
    machine.result call = .error error := by
  have same := machine.some_result call
  rw [resultWithin, stepped] at same
  exact Option.some.inj same

theorem result_of_return {v : ρ} (stepped : machine.step call = .ok (.inr v)) :
    machine.result call = .ok v := by
  have same := machine.some_result call
  rw [resultWithin, stepped] at same
  exact Option.some.inj same

theorem result_of_call {next : σ} (stepped : machine.step call = .ok (.inl next)) :
    machine.result call = machine.result next := by
  have smaller := machine.decreases call next stepped
  have same := machine.some_result call
  rw [resultWithin, stepped] at same
  have more := machine.resultWithin_of_enough smaller (Nat.lt_succ_self (machine.size next))
  rw [← machine.some_result next] at more
  exact Option.some.inj (same.trans more)

end TailCalls

end AutomatonCore.Library
