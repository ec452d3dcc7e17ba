import AutomatonCore.Library.Lockstep
import Mathlib.Data.List.Basic

/-!
# Runs under a condition
-/

namespace AutomatonCore.Library

variable {ε σ ι : Type*}

/-- Each step of the run meets the condition in the state before it; a step may
fail. -/
def Guarded (step : σ → ι → Except ε σ) (condition : σ → ι → Prop) : σ → List ι → Prop
  | _, [] => True
  | state, input :: rest =>
    condition state input ∧ ∀ next, step state input = .ok next → Guarded step condition next rest

namespace Guarded

variable {step : σ → ι → Except ε σ} {condition : σ → ι → Prop}

variable {s : σ} {inputs : List ι}

variable {invariant : σ → Prop} {input : ι} {rest : List ι}

theorem run (each :
      ∀ s input, invariant s → condition s input → ∃ next, step s input = .ok next ∧ invariant next)
    (holds : invariant s) (guarded : Guarded step condition s inputs) :
    ∃ final, inputs.foldlM step s = .ok final ∧ invariant final := by
  induction inputs generalizing s with
  | nil => exact ⟨s, rfl, holds⟩
  | cons input rest ih =>
    obtain ⟨here, later⟩ := guarded
    obtain ⟨next, stepped, kept⟩ := each s input holds here
    obtain ⟨final, ran, held⟩ := ih kept (later next stepped)
    refine ⟨final, ?_, held⟩
    rw [List.foldlM_cons, stepped]
    exact ran

theorem reached (each :
      ∀ s input next, invariant s → condition s input → step s input = .ok next → invariant next)
    {final : σ} (holds : invariant s) (guarded : Guarded step condition s inputs)
    (ran : inputs.foldlM step s = .ok final) : invariant final := by
  induction inputs generalizing s with
  | nil =>
    cases ran
    exact holds
  | cons input rest ih =>
    obtain ⟨here, later⟩ := guarded
    rw [List.foldlM_cons] at ran
    obtain ⟨next, stepped, ran⟩ := bind_eq_ok_iff.mp ran
    exact ih (each s input next holds here stepped) (later next stepped) ran

theorem of_forall (all : ∀ input ∈ inputs, ∀ s, condition s input) :
    Guarded step condition s inputs := by
  induction inputs generalizing s with
  | nil => trivial
  | cons input rest ih =>
    refine ⟨all input List.mem_cons_self s, fun _ _ => ?_⟩
    exact ih fun other mem => all other (List.mem_cons_of_mem _ mem)

theorem and {other : σ → ι → Prop}
    (first : Guarded step condition s inputs) (second : Guarded step other s inputs) :
    Guarded step (fun s input => condition s input ∧ other s input) s inputs := by
  induction inputs generalizing s with
  | nil => trivial
  | cons input rest ih =>
    exact ⟨⟨first.1, second.1⟩, fun next stepped =>
        ih (first.2 next stepped) (second.2 next stepped)⟩

theorem cons_ok {next : σ} (stepped : step s input = .ok next) :
    Guarded step condition s (input :: rest) ↔
      condition s input ∧ Guarded step condition next rest := by
  simp [Guarded, stepped]

theorem cons_error {error : ε} (stepped : step s input = .error error) :
    Guarded step condition s (input :: rest) ↔ condition s input := by
  simp [Guarded, stepped]

instance decidable [∀ state input, Decidable (condition state input)] :
    ∀ state inputs, Decidable (Guarded step condition state inputs)
  | _, [] => isTrue trivial
  | state, input :: rest =>
    match stepped : step state input with
    | .error _ => decidable_of_iff (condition state input) (cons_error stepped).symm
    | .ok next =>
      have := decidable next rest
      decidable_of_iff (condition state input ∧ Guarded step condition next rest)
        (cons_ok stepped).symm

end Guarded

end AutomatonCore.Library
