import Mathlib.Data.List.Infix

/-!
# The longest common prefix of a list of words
-/

namespace AutomatonCore.Library

open List

universe u

variable {α : Type u} [DecidableEq α]

def commonPrefix : List α → List α → List α
  | first :: left, second :: right =>
    if first = second then first :: commonPrefix left right else []
  | _, _ => []

def commonPrefixAll : List (List α) → List α
  | [] => []
  | word :: words => words.foldl commonPrefix word

theorem prefix_commonPrefix_iff (word left right : List α) :
    word <+: commonPrefix left right ↔ word <+: left ∧ word <+: right := by
  induction left generalizing word right with
  | nil =>
    simp only [commonPrefix, prefix_nil]
    constructor
    · rintro rfl
      exact ⟨rfl, nil_prefix⟩
    · exact And.left
  | cons first left ih =>
    cases right with
    | nil =>
      simp only [commonPrefix, prefix_nil]
      constructor
      · rintro rfl
        exact ⟨List.nil_prefix, rfl⟩
      · exact And.right
    | cons second right =>
      cases word with
      | nil => simp
      | cons a word =>
        by_cases same : first = second
        · subst same
          simp only [commonPrefix, ↓reduceIte, cons_prefix_cons, ih]
          tauto
        · simp only [commonPrefix, same, ↓reduceIte, prefix_nil, cons_prefix_cons]
          constructor
          · intro impossible
            cases impossible
          · rintro ⟨⟨rfl, _⟩, rfl, _⟩
            exact absurd rfl same

theorem prefix_foldl_commonPrefix_iff (word start : List α) (words : List (List α)) :
    word <+: words.foldl commonPrefix start ↔ word <+: start ∧ ∀ other ∈ words, word <+: other := by
  induction words generalizing start with
  | nil => simp
  | cons other words ih => rw [foldl_cons, ih, prefix_commonPrefix_iff, forall_mem_cons, and_assoc]

theorem prefix_commonPrefixAll_iff {words : List (List α)} (ne : words ≠ []) (word : List α) :
    word <+: commonPrefixAll words ↔ ∀ other ∈ words, word <+: other := by
  cases words with
  | nil => exact absurd rfl ne
  | cons first words => rw [commonPrefixAll, prefix_foldl_commonPrefix_iff, forall_mem_cons]

theorem commonPrefixAll_eq {words : List (List α)} (ne : words ≠ []) {word : List α}
    (starts : ∀ other ∈ words, word <+: other)
    (longest : ∀ longer, (∀ other ∈ words, longer <+: other) → longer <+: word) :
    commonPrefixAll words = word := by
  apply List.IsPrefix.eq_of_length_le
  · apply longest
    exact (prefix_commonPrefixAll_iff ne _).mp (prefix_refl _)
  · exact ((prefix_commonPrefixAll_iff ne word).mpr starts).length_le

end AutomatonCore.Library
