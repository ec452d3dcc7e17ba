import Mathlib.Data.List.Basic

/-!
# Ancestry under a parent function
-/

namespace AutomatonCore.Library

open List

/-- The keys from the first one below the root down to the key itself. -/
inductive Path {κ : Type} (parent : κ → Option κ) (root : κ) : κ → List κ → Prop
  | root : Path parent root root []
  | child {key previous : κ} {path : List κ} (link : parent key = some previous)
      (rest : Path parent root previous path) : Path parent root key (path ++ [key])

namespace Path

variable {κ : Type} {parent other : κ → Option κ} {root k : κ}
  {path second : List κ}

theorem mono (grows : ∀ k prev, parent k = some prev → other k = some prev)
    (leads : Path parent root k path) : Path other root k path := by
  induction leads with
  | root => exact .root
  | child link _ ih => exact .child (grows _ _ link) ih

theorem child_inv {prev : κ} (rootless : parent root = none) (link : parent k = some prev)
    (leads : Path parent root k path) :
    ∃ shorter, path = shorter ++ [k] ∧ Path parent root prev shorter := by
  cases leads with
  | root =>
    rw [rootless] at link
    contradiction
  | child link' rest =>
    rw [link'] at link
    cases link
    exact ⟨_, rfl, rest⟩

theorem unique_of_agree (rootless : parent root = none) (rootless' : other root = none)
    (agree : ∀ k prev prev', parent k = some prev → other k = some prev' → prev = prev')
    (leads : Path parent root k path) (leads' : Path other root k second) : path = second := by
  induction leads generalizing second with
  | root =>
    cases leads' with
    | root => rfl
    | child link' _ =>
      rw [rootless'] at link'
      contradiction
  | child link rest ih =>
    cases leads' with
    | root =>
      rw [rootless] at link
      contradiction
    | child link' rest' =>
      obtain rfl := agree _ _ _ link link'
      rw [ih rest']

theorem unique (rootless : parent root = none) (leads : Path parent root k path)
    (leads' : Path parent root k second) : path = second := by
  refine leads.unique_of_agree rootless rootless ?_ leads'
  intro k prev prev' link link'
  exact Option.some.inj (link.symm.trans link')

theorem append_inv {first : List κ} (leads : Path parent root k (first ++ second)) :
    ∃ prev, Path parent root prev first := by
  generalize whole : first ++ second = path at leads
  induction leads generalizing second with
  | root =>
    obtain ⟨rfl, -⟩ := append_eq_nil_iff.mp whole
    exact ⟨root, .root⟩
  | @child k prev path link rest ih =>
    rcases eq_nil_or_concat second with rfl | ⟨initial, last, rfl⟩
    · rw [append_nil] at whole
      exact ⟨k, whole ▸ .child link rest⟩
    · rw [concat_eq_append, ← append_assoc] at whole
      exact ih (append_inj' whole rfl).1

theorem middle {first : List κ} {last : κ} (leads : Path parent root k (first ++ last :: second)) :
    ∃ prev, parent last = some prev ∧ Path parent root prev first := by
  rw [append_cons] at leads
  obtain ⟨ends, leads⟩ := leads.append_inv
  generalize whole : first ++ [last] = path at leads
  cases leads with
  | root => simp at whole
  | child link rest =>
    obtain ⟨rfl, same⟩ := append_inj' whole rfl
    cases same
    exact ⟨_, link, rest⟩

theorem getElem?_length (leads : Path parent root k path) :
    (root :: path)[path.length]? = some k := by
  cases leads with
  | root => rfl
  | child link rest => simp

theorem exists_parent (leads : Path parent root k path)
    {mem : κ} (inside : mem ∈ path) : ∃ prev, parent mem = some prev := by
  obtain ⟨first, second, rfl⟩ := mem_iff_append.mp inside
  obtain ⟨prev, link, -⟩ := leads.middle
  exact ⟨prev, link⟩

end Path

end AutomatonCore.Library
