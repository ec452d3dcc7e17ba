/-!
# Computations in lockstep
-/

namespace AutomatonCore.Library

universe u v

theorem bind_eq_ok_iff {ε : Type u} {α β : Type v} {first : Except ε α}
    {next : α → Except ε β} {v : β} :
    first >>= next = .ok v ↔ ∃ u, first = .ok u ∧ next u = .ok v := by
  cases first <;> simp [Bind.bind, Except.bind]

/-- Both fail with the same error, or both return and their results are
related. -/
inductive Lockstep {ε α β : Type} (relation : α → β → Prop) : Except ε α → Except ε β → Prop
  | ok {first : α} {second : β} : relation first second → Lockstep relation (.ok first) (.ok second)
  | error (fault : ε) : Lockstep relation (.error fault) (.error fault)

namespace Lockstep

variable {ε α β γ δ ι : Type} {relation : α → β → Prop} {first : Except ε α} {second : Except ε β}

theorem bind {relationNext : γ → δ → Prop} {next : α → Except ε γ} {nextSecond : β → Except ε δ}
    (here : Lockstep relation first second)
    (rest : ∀ v other, first = .ok v → relation v other →
      Lockstep relationNext (next v) (nextSecond other)) :
    Lockstep relationNext (first >>= next) (second >>= nextSecond) := by
  cases here with
  | ok related => exact rest _ _ rfl related
  | error fault => exact .error fault

theorem map {relationNext : γ → β → Prop} {change : α → γ} (here : Lockstep relation first second)
    (step : ∀ v other, first = .ok v → relation v other → relationNext (change v) other) :
    Lockstep relationNext (change <$> first) second := by
  cases here with
  | ok related => exact .ok (step _ _ rfl related)
  | error fault => exact .error fault

theorem imp {other : α → β → Prop} (here : Lockstep relation first second)
    (step : ∀ v w, first = .ok v → relation v w → other v w) : Lockstep other first second := by
  rw [← id_map first]
  exact here.map step

theorem bind_eq {next : α → Except ε γ} {nextSecond : β → Except ε γ}
    (here : Lockstep relation first second)
    (same : ∀ v other, first = .ok v → relation v other → nextSecond other = next v) :
    second >>= nextSecond = first >>= next := by
  cases here with
  | ok related => exact same _ _ rfl related
  | error fault => rfl

theorem exists_ok {v : α} (here : Lockstep relation (.ok v) second) :
    ∃ other, second = .ok other ∧ relation v other := by
  cases here with
  | ok related => exact ⟨_, rfl, related⟩

theorem foldlM {body : α → ι → Except ε α} {bodySecond : β → ι → Except ε β} (each :
      ∀ v other item, relation v other → Lockstep relation (body v item) (bodySecond other item))
    (items : List ι) {v : α} {other : β} (related : relation v other) :
    Lockstep relation (items.foldlM body v) (items.foldlM bodySecond other) := by
  induction items generalizing v other with
  | nil => exact .ok related
  | cons item items ih =>
    rw [List.foldlM_cons, List.foldlM_cons]
    exact (each v other item related).bind fun _ _ _ => ih

end Lockstep

end AutomatonCore.Library
