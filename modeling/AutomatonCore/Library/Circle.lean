import Mathlib.Data.Set.Card
import Mathlib.Order.Interval.Finset.Nat

/-!
# Places on a circle
-/

namespace AutomatonCore.Library.Circle

variable {size reach : Nat}

/-- The places are the numbers below `size`, and every place looks at the next
`reach` places. -/
def Ahead (size reach start stop : Nat) : Prop :=
  ∃ step, 1 ≤ step ∧ step ≤ reach ∧ stop = (start + step) % size

variable {start stop place : Nat}

theorem add_mod_cases {step : Nat} (startBound : start < size) (stepBound : step < size) :
    start + step < size ∧ (start + step) % size = start + step ∨
      size ≤ start + step ∧ (start + step) % size = start + step - size := by
  by_cases small : start + step < size
  · exact .inl ⟨small, Nat.mod_eq_of_lt small⟩
  · refine .inr ⟨by omega, ?_⟩
    rw [Nat.mod_eq_sub_mod (by omega), Nat.mod_eq_of_lt (by omega)]

theorem ahead_iff (short : reach < size) (startBound : start < size) (stopBound : stop < size) :
    Ahead size reach start stop ↔ start < stop ∧ stop ≤ start + reach ∨
      stop < start ∧ stop + size ≤ start + reach := by
  constructor
  · rintro ⟨step, pos, bound, rfl⟩
    rcases add_mod_cases startBound (bound.trans_lt short) with ⟨inside, same⟩ | ⟨outside, same⟩
    · omega
    · omega
  · rintro (⟨behind, bound⟩ | ⟨before, bound⟩)
    · refine ⟨stop - start, by omega, by omega, ?_⟩
      rw [Nat.add_sub_cancel' behind.le, Nat.mod_eq_of_lt stopBound]
    · refine ⟨stop + size - start, by omega, by omega, ?_⟩
      rw [Nat.add_sub_cancel' (by omega), Nat.add_mod_right, Nat.mod_eq_of_lt stopBound]

theorem not_ahead_self (short : reach < size)
    (bound : place < size) : ¬ Ahead size reach place place := by
  rw [ahead_iff short bound bound]
  omega

theorem Ahead.asymm (half : 2 * reach < size)
    (startBound : start < size) (stopBound : stop < size) (ahead : Ahead size reach start stop) :
    ¬ Ahead size reach stop start := by
  rw [ahead_iff (by omega) startBound stopBound] at ahead
  rw [ahead_iff (by omega) stopBound startBound]
  omega

def neighbours (size reach place : Nat) : Set Nat :=
  { other | other < size ∧ (Ahead size reach place other ∨ Ahead size reach other place) }

def steps (size reach : Nat) : Finset Nat :=
  Finset.Icc 1 reach ∪ Finset.Ico (size - reach) size

theorem card_steps (half : 2 * reach < size) : (steps size reach).card = 2 * reach := by
  have disjoint : Disjoint (Finset.Icc 1 reach) (Finset.Ico (size - reach) size) := by
    rw [Finset.disjoint_left]
    intro step low high
    rw [Finset.mem_Icc] at low
    rw [Finset.mem_Ico] at high
    omega
  rw [steps, Finset.card_union_of_disjoint disjoint, Nat.card_Icc, Nat.card_Ico]
  omega

theorem neighbours_eq_image (half : 2 * reach < size) (bound : place < size) :
    neighbours size reach place = (fun step => (place + step) % size) '' (steps size reach) := by
  ext other
  simp only [neighbours, Set.mem_ofPred_eq, Set.mem_image, steps,
    Finset.coe_union, Finset.coe_Icc, Finset.coe_Ico, Set.mem_union, Set.mem_Icc, Set.mem_Ico]
  constructor
  · rintro ⟨otherBound, near⟩
    rw [ahead_iff (by omega) bound otherBound, ahead_iff (by omega) otherBound bound] at near
    by_cases behind : place ≤ other
    · refine ⟨other - place, by omega, ?_⟩
      rw [Nat.add_sub_cancel' behind, Nat.mod_eq_of_lt otherBound]
    · refine ⟨other + size - place, by omega, ?_⟩
      rw [Nat.add_sub_cancel' (by omega), Nat.add_mod_right, Nat.mod_eq_of_lt otherBound]
  · rintro ⟨step, range, rfl⟩
    have otherBound : (place + step) % size < size := Nat.mod_lt _ (by omega)
    refine ⟨otherBound, ?_⟩
    rw [ahead_iff (by omega) bound otherBound, ahead_iff (by omega) otherBound bound]
    rcases add_mod_cases bound (show step < size by omega)
      with ⟨inside, same⟩ | ⟨outside, same⟩ <;> omega

theorem ncard_neighbours (half : 2 * reach < size) (bound : place < size) :
    (neighbours size reach place).ncard = 2 * reach := by
  have injective : Set.InjOn (fun step => (place + step) % size) (steps size reach : Set Nat) := by
    intro first firstMember second secondMember same
    simp only [steps, Finset.coe_union, Finset.coe_Icc, Finset.coe_Ico,
      Set.mem_union, Set.mem_Icc, Set.mem_Ico] at firstMember secondMember
    have firstCases := add_mod_cases bound (show first < size by omega)
    have secondCases := add_mod_cases bound (show second < size by omega)
    dsimp only at same
    omega
  rw [neighbours_eq_image half bound, injective.ncard_image, Set.ncard_coe_finset, card_steps half]

end AutomatonCore.Library.Circle
