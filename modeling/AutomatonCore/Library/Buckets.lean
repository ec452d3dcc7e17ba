import Mathlib.Data.List.Basic
import Mathlib.Data.List.Perm.Basic

/-!
# Lists sorted by buckets
-/

namespace AutomatonCore.Library

open List

variable {α : Type*} (key : α → Nat)

def bucket (items : List α) (index : Nat) : List α :=
  items.filter fun item => key item = index

/-- The items with keys below a bound, key by key, and within one key in the
order of the list. -/
def buckets (items : List α) (bound : Nat) : List α :=
  (List.range bound).flatMap (bucket key items)

variable {key}

variable {items : List α} {i bound : Nat} {item : α}

theorem key_of_mem_bucket (mem : item ∈ bucket key items i) : key item = i := by
  simpa using (mem_filter.mp mem).2

theorem bucket_append (items more : List α) (i : Nat) :
    bucket key (items ++ more) i = bucket key items i ++ bucket key more i :=
  filter_append _ _

theorem bucket_singleton_of_ne (ne : key item ≠ i) : bucket key [item] i = [] := by
  simp [bucket, ne]

@[simp]
theorem bucket_singleton (item : α) : bucket key [item] (key item) = [item] := by simp [bucket]

@[simp]
theorem buckets_zero (items : List α) : buckets key items 0 = [] := rfl

theorem buckets_succ (items : List α) (bound : Nat) :
    buckets key items (bound + 1) = buckets key items bound ++ bucket key items bound := by
  simp [buckets, range_succ]

theorem key_lt_of_mem_buckets (mem : item ∈ buckets key items bound) : key item < bound := by
  obtain ⟨i, below, inside⟩ := mem_flatMap.mp mem
  rw [key_of_mem_bucket inside]
  exact mem_range.mp below

theorem buckets_append_of_le (above : bound ≤ key item) :
    buckets key (items ++ [item]) bound = buckets key items bound := by
  apply flatMap_congr
  intro i mem
  have below := mem_range.mp mem
  rw [bucket_append, bucket_singleton_of_ne (by omega), append_nil]

theorem buckets_pairwise (items : List α) (bound : Nat) :
    (buckets key items bound).Pairwise fun first second => key first ≤ key second := by
  induction bound with
  | zero => exact List.Pairwise.nil
  | succ bound ih =>
    rw [buckets_succ, pairwise_append]
    refine ⟨ih, ?_, ?_⟩
    · apply pairwise_of_forall_mem_list
      intro first firstMember second secondMember
      exact Nat.le_of_eq
          ((key_of_mem_bucket firstMember).trans (key_of_mem_bucket secondMember).symm)
    · intro first firstMember second secondMember
      rw [key_of_mem_bucket secondMember]
      exact Nat.le_of_lt (key_lt_of_mem_buckets firstMember)

theorem buckets_perm (items : List α) (bound : Nat) :
    (buckets key items bound).Perm (items.filter fun item => key item < bound) := by
  induction bound with
  | zero => simp
  | succ bound ih =>
    have split : (items.filter fun item => key item < bound + 1).Perm
          ((items.filter fun item => key item < bound) ++ bucket key items bound) := by
      have parts :=
        filter_append_perm (fun item => decide (key item < bound))
          (items.filter fun item => key item < bound + 1)
      rw [filter_filter, filter_filter] at parts
      refine parts.symm.trans ?_
      apply List.Perm.append <;> apply List.Perm.of_eq
      · apply filter_congr
        intro item _
        simp only [← Bool.decide_and, decide_eq_decide]
        omega
      · apply filter_congr
        intro item _
        by_cases below : key item < bound
        · simp only [below, decide_true, Bool.not_true, Bool.false_and]
          symm
          rw [decide_eq_false_iff_not]
          omega
        · simp only [below, decide_false, Bool.not_false, Bool.true_and, decide_eq_decide]
          omega
    rw [buckets_succ]
    exact (ih.append_right _).trans split.symm

theorem bucket_buckets (items : List α) (bound i : Nat) :
    bucket key (buckets key items bound) i =
      if i < bound then bucket key items i else [] := by
  induction bound with
  | zero => simp [bucket]
  | succ bound ih =>
    rw [buckets_succ, bucket_append, ih]
    by_cases same : bound = i
    · subst same
      rw [if_neg (Nat.lt_irrefl _), if_pos (Nat.lt_succ_self _),
        nil_append, bucket, bucket, filter_filter]
      simp
    · have empty : bucket key (bucket key items bound) i = [] := by
        rw [bucket, filter_eq_nil_iff]
        intro item mem
        rw [key_of_mem_bucket mem]
        simpa using same
      rw [empty, append_nil]
      congr 1
      simp only [eq_iff_iff]
      omega

end AutomatonCore.Library
