import Mathlib.Data.List.Basic

/-!
# The first occurrence of a pattern
-/

namespace AutomatonCore.Library

open List

variable {α : Type*} [DecidableEq α]

/-- Where a pattern begins for the first time in a list. -/
def firstOccurrence (pattern : List α) : List α → Option Nat
  | [] => if pattern = [] then some 0 else none
  | first :: rest =>
    if pattern.isPrefixOf (first :: rest) then some 0
    else (firstOccurrence pattern rest).map (· + 1)

variable {pattern items : List α} {pos : Nat}

theorem firstOccurrence_short (short : items.length < pattern.length) :
    firstOccurrence pattern items = none := by
  induction items with
  | nil => exact if_neg (length_pos_iff.mp short)
  | cons first rest ih =>
    rw [length_cons] at short
    have here : ¬ pattern.isPrefixOf (first :: rest) := by
      rw [List.isPrefixOf_iff_prefix]
      intro begins
      have := begins.length_le
      rw [length_cons] at this
      omega
    rw [firstOccurrence, if_neg here, ih (by omega)]
    rfl

theorem firstOccurrence_take (ne : pattern ≠ [])
    (found : firstOccurrence pattern items = some pos) (size : Nat) :
    firstOccurrence pattern (items.take size) =
      if pos + pattern.length ≤ size then some pos else none := by
  induction items generalizing pos size with
  | nil => simp [firstOccurrence, ne] at found
  | cons first rest ih =>
    have long : 0 < pattern.length := length_pos_iff.mpr ne
    cases size with
    | zero =>
      rw [if_neg (by omega)]
      exact if_neg ne
    | succ size =>
      rw [firstOccurrence] at found
      rw [take_succ_cons, firstOccurrence]
      split_ifs at found with here
      · -- the pattern is a prefix of the list, so of what reaches so far
        obtain rfl : 0 = pos := Option.some.inj found
        have begins := isPrefixOf_iff_prefix.mp here
        have reaches : pattern.isPrefixOf (first :: rest.take size) = true ↔
              0 + pattern.length ≤ size + 1 := by
          rw [List.isPrefixOf_iff_prefix, ← take_succ_cons, prefix_take_iff, Nat.zero_add]
          exact and_iff_right begins
        by_cases fits : 0 + pattern.length ≤ size + 1
        · rw [if_pos (reaches.mpr fits), if_pos fits]
        · rw [if_neg (mt reaches.mp fits), if_neg fits, firstOccurrence_short]
          · rfl
          · rw [length_take]
            omega
      · obtain ⟨before, later, rfl⟩ := Option.map_eq_some_iff.mp found
        have absent : ¬ pattern.isPrefixOf (first :: rest.take size) := by
          intro there
          rw [List.isPrefixOf_iff_prefix, ← take_succ_cons, prefix_take_iff] at there
          exact here (List.isPrefixOf_iff_prefix.mpr there.1)
        rw [ih later]
        split_ifs
        · rfl
        · omega
        · omega
        · rfl

theorem firstOccurrence_append {first : α} {skipped : List α}
    (absent : first ∉ skipped) (items : List α) :
    firstOccurrence (first :: pattern) (skipped ++ items) =
      (firstOccurrence (first :: pattern) items).map (· + skipped.length) := by
  induction skipped with
  | nil => simp
  | cons head skipped ih =>
    obtain ⟨ne, absent⟩ := not_or.mp (mt mem_cons.mpr absent)
    have here : ¬ (first :: pattern).isPrefixOf (head :: (skipped ++ items)) := by simp [ne]
    rw [cons_append, firstOccurrence, if_neg here, ih absent, Option.map_map]
    rfl

theorem prefix_of_firstOccurrence (found : firstOccurrence pattern items = some pos) :
    pattern <+: items.drop pos := by
  induction items generalizing pos with
  | nil =>
    rw [firstOccurrence] at found
    split at found
    next empty =>
      rw [empty]
      exact nil_prefix
    · cases found
  | cons first rest ih =>
    rw [firstOccurrence] at found
    split at found
    next here =>
      cases found
      exact isPrefixOf_iff_prefix.mp here
    · obtain ⟨before, later, rfl⟩ := Option.map_eq_some_iff.mp found
      exact ih later

theorem le_length_of_firstOccurrence (ne : pattern ≠ [])
    (found : firstOccurrence pattern items = some pos) : pos + pattern.length ≤ items.length := by
  have fits := (prefix_of_firstOccurrence found).length_le
  have positive := length_pos_iff.mpr ne
  rw [length_drop] at fits
  omega

theorem firstOccurrence_append_pattern {first : α} (once : first ∉ pattern)
    (absent : firstOccurrence (first :: pattern) items = none) (more : List α) :
    firstOccurrence (first :: pattern) (items ++ (first :: pattern ++ more)) =
      some items.length := by
  induction items with
  | nil => simp [firstOccurrence]
  | cons head rest ih =>
    rw [firstOccurrence] at absent
    split at absent
    · cases absent
    next here =>
      have later := ih (Option.map_eq_none_iff.mp absent)
      have elsewhere : ¬ (first :: pattern).isPrefixOf
          (head :: (rest ++ (first :: pattern ++ more))) := by
        rw [List.isPrefixOf_iff_prefix] at here ⊢
        intro there
        rw [← cons_append] at there
        rcases prefix_or_prefix_of_prefix there
          (prefix_append (head :: rest) _) with inside | ⟨ending, split⟩
        · exact here inside
        · rw [← split, prefix_append_right_inj] at there
          cases ending with
          | nil =>
            rw [append_nil] at split
            exact here (split ▸ prefix_rfl)
          | cons item ending =>
            obtain ⟨same, -⟩ := cons_prefix_cons.mp there
            obtain ⟨begins, remains⟩ := List.cons.inj split
            refine once ?_
            rw [← remains, ← begins, ← same]
            exact mem_append_right _ mem_cons_self
      rw [cons_append, firstOccurrence, if_neg elsewhere, later]
      rfl

/-! ## Pieces of a stream -/

omit [DecidableEq α] in
theorem eq_take_of_append {kept unread whole : List α}
    (split : kept ++ unread = whole) : kept = whole.take kept.length := by
  rw [← split, take_left]

omit [DecidableEq α] in
theorem exists_append_of_le {kept unread first more : List α}
    (split : kept ++ unread = first ++ more) (long : first.length ≤ kept.length) :
    ∃ rest, kept = first ++ rest ∧ rest ++ unread = more := by
  obtain ⟨rest, rfl⟩ :=
    prefix_of_prefix_length_le (split ▸ prefix_append first more) (prefix_append kept unread) long
  rw [append_assoc] at split
  exact ⟨rest, rfl, append_cancel_left split⟩

end AutomatonCore.Library
