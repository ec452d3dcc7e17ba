import Mathlib.Logic.Basic

/-!
# Simulation of programs with state and exceptions

A program over concrete states keeps its state when it throws; its meaning is
a function over abstract states that returns a result or fails.  The concrete
states stand for abstract ones only while a resource that grows from call to
call stays within its bound.  The rules ask for the bound at the end of a
program, and every state before the end inherits it.
-/

namespace AutomatonCore.Library

/-- How concrete states stand for abstract ones.  `Grows` orders the states
by the resource that is used up, and `Bounded` is its bound. -/
structure Interpretation (σ τ : Type) where
  Valid : σ → Prop
  view : σ → τ
  Grows : σ → σ → Prop
  Bounded : σ → Prop
  grows_refl : ∀ state, Grows state state
  grows_trans : ∀ {first second third}, Grows first second → Grows second third → Grows first third
  bounded_of_grows : ∀ {first second}, Grows first second → Bounded second → Bounded first

/-- The state that a call leaves behind, whether it returns or throws. -/
def finalState {ε σ α : Type} : EStateM.Result ε σ α → σ
  | .ok _ state => state
  | .error _ state => state

def reading {δ τ β : Type} (look : τ → β) : StateT τ (Except δ) β :=
  fun state => .ok (look state, state)

def changing {δ τ : Type} (change : τ → τ) : StateT τ (Except δ) Unit :=
  fun state => .ok ((), change state)

def answering {δ τ β : Type} (change : τ → τ × β) : StateT τ (Except δ) β :=
  fun state => .ok (change state).swap

def attempting {δ τ : Type} (change : τ → Except δ τ) : StateT τ (Except δ) Unit :=
  fun state => (change state).map fun after => ((), after)

section Meanings

variable {δ τ β κ : Type}

theorem reading_bind (look : τ → β) (next : β → StateT τ (Except δ) κ) (s : τ) :
    ((reading look : StateT τ (Except δ) β) >>= next) s = next (look s) s :=
  rfl

theorem changing_bind (change : τ → τ) (next : Unit → StateT τ (Except δ) κ) (s : τ) :
    ((changing change : StateT τ (Except δ) Unit) >>= next) s = next () (change s) :=
  rfl

theorem answering_bind (change : τ → τ × β) (next : β → StateT τ (Except δ) κ) (s : τ) :
    ((answering change : StateT τ (Except δ) β) >>= next) s = next (change s).2 (change s).1 :=
  rfl

theorem attempting_bind (change : τ → Except δ τ) (next : Unit → StateT τ (Except δ) κ) (s : τ) :
    (attempting change >>= next) s = (change s >>= fun after => next () after) := by
  simp only [Bind.bind, StateT.bind, attempting]
  cases change s <;> rfl

theorem mapping_bind {ρ : Type} (attempt : τ → Except δ ρ)
    (split : ρ → β × τ) (next : β → StateT τ (Except δ) κ) (s : τ) :
    ((fun current => (attempt current).map split : StateT τ (Except δ) β) >>= next) s =
      (attempt s >>= fun found =>
        next (split found).1 (split found).2) := by
  simp only [Bind.bind, StateT.bind]
  cases attempt s <;> rfl

end Meanings

/-- Where `meaning` returns, `program` returns a value that translates to the
result, in a state that stands for the same abstract state. -/
structure Simulates {ε δ σ τ α β : Type} (interp : Interpretation σ τ) (translate : α → β)
    (program : EStateM ε σ α) (meaning : StateT τ (Except δ) β) : Prop where
  grows : ∀ state, interp.Grows state (finalState (program state))
  agrees : ∀ {state result after}, interp.Valid state →
      interp.Bounded (finalState (program state)) →
      meaning (interp.view state) = .ok (result, after) → ∃ value final,
      program state = .ok value final ∧ translate value = result ∧ interp.Valid final ∧
      interp.view final = after

namespace Simulates

variable {ε δ σ τ α β γ κ ι : Type}
  {interp : Interpretation σ τ}
  {translate : α → β} {translateNext : γ → κ}

variable {program : EStateM ε σ α} {meaning : StateT τ (Except δ) β}

theorem congr
    {other : StateT τ (Except δ) β} (simulates : Simulates interp translate program meaning)
    (same : ∀ s, other s = meaning s) :
    Simulates interp translate program other where
  grows := simulates.grows
  agrees valid bounded returns := simulates.agrees valid bounded ((same _).symm.trans returns)

theorem pure {v : α} {result : β} (same : translate v = result) :
    Simulates interp translate (Pure.pure v : EStateM ε σ α)
      (Pure.pure result : StateT τ (Except δ) β) where
  grows s := interp.grows_refl s
  agrees := by
    intro s found after valid _ returns
    cases returns
    exact ⟨v, s, rfl, same, valid, rfl⟩

theorem skip :
    Simulates interp (id : Unit → Unit) (Pure.pure () : EStateM ε σ Unit)
      (changing id : StateT τ (Except δ) Unit) :=
  pure rfl

theorem throw {error : ε} (fault : δ) :
    Simulates interp translate (MonadExcept.throw error : EStateM ε σ α)
      (fun _ => .error fault : StateT τ (Except δ) β) where
  grows s := interp.grows_refl s
  agrees := by
    intro s found after _ _ returns
    cases returns

theorem read {look : σ → α} {lookThrough : τ → β} (same :
      ∀ s, interp.Valid s → translate (look s) = lookThrough (interp.view s)) :
    Simulates interp translate (fun s => .ok (look s) s : EStateM ε σ α)
      (reading lookThrough : StateT τ (Except δ) β) where
  grows s := interp.grows_refl s
  agrees := by
    intro s found after valid _ returns
    cases returns
    exact ⟨look s, s, rfl, same s valid, valid, rfl⟩

theorem change {update : σ → σ} {meaning : τ → τ} (grows : ∀ s, interp.Grows s (update s))
    (same : ∀ s, interp.Valid s → interp.Bounded (update s) →
        interp.Valid (update s) ∧
        interp.view (update s) = meaning (interp.view s)) :
    Simulates interp (id : Unit → Unit) (fun s => .ok () (update s) : EStateM ε σ Unit)
      (changing meaning : StateT τ (Except δ) Unit) where
  grows := grows
  agrees := by
    intro s found after valid bounded returns
    cases returns
    obtain ⟨updateValid, view⟩ := same s valid bounded
    exact ⟨(), update s, rfl, rfl, updateValid, view⟩

theorem bind {next : α → EStateM ε σ γ} {meaningNext : β → StateT τ (Except δ) κ}
    (first : Simulates interp translate program meaning)
    (second : ∀ v result, translate v = result →
        Simulates interp translateNext (next v) (meaningNext result)) :
    Simulates interp translateNext (program >>= next) (meaning >>= meaningNext) where
  grows := by
    intro s
    have here := first.grows s
    change interp.Grows s (finalState (EStateM.bind program next s))
    unfold EStateM.bind
    cases run : program s with
    | error error final =>
      rw [run] at here
      exact here
    | ok v middle =>
      rw [run] at here
      exact interp.grows_trans here ((second v _ rfl).grows middle)
  agrees := by
    intro s result after valid bounded returns
    change interp.Bounded (finalState (EStateM.bind program next s)) at bounded
    change ∃ v final, EStateM.bind program next s = .ok v final ∧ _
    unfold EStateM.bind at bounded ⊢
    cases middle : meaning (interp.view s) with
    | error fault => simp [Bind.bind, StateT.bind, Except.bind, middle] at returns
    | ok found =>
      obtain ⟨found, between⟩ := found
      have rest : meaningNext found between = .ok (result, after) := by
        simpa [Bind.bind, StateT.bind, Except.bind, middle] using returns
      -- the bound at the end is a bound after the first program
      have boundedHere : interp.Bounded (finalState (program s)) := by
        cases run : program s with
        | error error final =>
          rw [run] at bounded
          exact bounded
        | ok v final =>
          rw [run] at bounded
          exact interp.bounded_of_grows ((second v _ rfl).grows final) bounded
      obtain ⟨v, final, run, rfl, finalValid, rfl⟩ := first.agrees valid boundedHere middle
      rw [run] at bounded ⊢
      exact (second v _ rfl).agrees finalValid bounded rest

theorem andThen {next : EStateM ε σ γ} {meaningNext : StateT τ (Except δ) κ}
    (first : Simulates interp translate program meaning)
    (second : Simulates interp translateNext next meaningNext) :
    Simulates interp translateNext (program >>= fun _ => next)
      (meaning >>= fun _ => meaningNext) :=
  first.bind fun _ _ _ => second

theorem ite {condition condition' : Prop} [Decidable condition]
    [Decidable condition'] {other : EStateM ε σ α}
    {otherMeaning : StateT τ (Except δ) β} (same : condition ↔ condition')
    (yes : condition → Simulates interp translate program meaning)
    (no : ¬ condition → Simulates interp translate other otherMeaning) :
    Simulates interp translate (if condition then program else other)
      (if condition' then meaning else otherMeaning) := by
  by_cases holds : condition
  · rw [if_pos holds, if_pos (same.mp holds)]
    exact yes holds
  · rw [if_neg holds, if_neg fun other => holds (same.mpr other)]
    exact no holds

theorem bindOption {name : α → β} {program : EStateM ε σ (Option α)}
    {next : Option α → EStateM ε σ γ}
    {meaning : StateT τ (Except δ) (Option β)}
    {meaningNone : StateT τ (Except δ) κ}
    {meaningSome : β → StateT τ (Except δ) κ}
    (first : Simulates interp (Option.map name) program meaning)
    (absent : Simulates interp translateNext (next none) meaningNone)
    (present : ∀ found named, name found = named →
        Simulates interp translateNext (next (some found)) (meaningSome named)) :
    Simulates interp translateNext (program >>= next)
      (meaning >>= fun result => result.elim meaningNone meaningSome) := by
  apply first.bind
  rintro (_ | found) _ rfl
  · exact absent
  · exact present found _ rfl

theorem forM {body : ι → EStateM ε σ Unit} {step : ι → τ → Except δ τ} (each :
      ∀ item, Simulates interp (id : Unit → Unit) (body item) (attempting (step item)))
    (items : List ι) :
    Simulates interp (id : Unit → Unit) (items.forM body)
      (attempting fun s => items.foldlM (fun current item => step item current) s) := by
  induction items with
  | nil => exact skip.congr fun _ => rfl
  | cons item items ih =>
    apply ((each item).andThen ih).congr
    intro s
    simp only [attempting, List.foldlM_cons, Bind.bind, StateT.bind]
    cases step item s <;> rfl

end Simulates

end AutomatonCore.Library
