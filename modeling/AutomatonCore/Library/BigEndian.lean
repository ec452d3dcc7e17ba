import Mathlib.Data.Nat.Digits.Lemmas

/-!
# Big-endian numbers
-/

namespace AutomatonCore.Library

open List

/-- The most significant byte comes first; higher digits are dropped. -/
def bigEndian : Nat → Nat → List UInt8
  | 0, _ => []
  | count + 1, number => bigEndian count (number / 256) ++ [UInt8.ofNat number]

def bigEndianValue (bytes : List UInt8) : Nat :=
  bytes.foldl (fun value byte => value * 256 + byte.toNat) 0

@[simp]
theorem length_bigEndian (count n : Nat) : (bigEndian count n).length = count := by
  induction count generalizing n with
  | zero => rfl
  | succ count ih => simp [bigEndian, ih]

theorem bigEndianValue_concat (bytes : List UInt8) (b : UInt8) :
    bigEndianValue (bytes ++ [b]) = bigEndianValue bytes * 256 + b.toNat := by
  simp [bigEndianValue]

theorem bigEndianValue_bigEndian (count n : Nat) :
    bigEndianValue (bigEndian count n) = n % 256 ^ count := by
  induction count generalizing n with
  | zero => simp [bigEndian, bigEndianValue, Nat.mod_one]
  | succ count ih =>
    have digit : (UInt8.ofNat n).toNat = n % 256 := UInt8.toNat_ofNat'
    rw [bigEndian, bigEndianValue_concat, ih, pow_succ' 256 count, Nat.mod_mul]
    omega

theorem bigEndian_eq_iff (count first second : Nat) :
    bigEndian count first = bigEndian count second ↔
      first % 256 ^ count = second % 256 ^ count := by
  constructor
  · intro same
    have values := congrArg bigEndianValue same
    rwa [bigEndianValue_bigEndian, bigEndianValue_bigEndian] at values
  · intro same
    induction count generalizing first second with
    | zero => rfl
    | succ count ih =>
      rw [pow_succ', Nat.mod_mul, Nat.mod_mul] at same
      have digit : first % 256 = second % 256 := by omega
      have rest : first / 256 % 256 ^ count = second / 256 % 256 ^ count := by omega
      have b : UInt8.ofNat first = UInt8.ofNat second := by
        apply UInt8.toNat.inj
        exact digit
      rw [bigEndian, bigEndian, ih _ _ rest, b]

theorem bigEndian_leading_zeros {count n : Nat} (zeros : Nat) (small : n < 256 ^ count) :
    bigEndian (zeros + count) n = List.replicate zeros 0 ++ bigEndian count n := by
  induction count generalizing n with
  | zero =>
    obtain rfl : n = 0 := by simpa using small
    induction zeros with
    | zero => rfl
    | succ zeros ih => simpa [bigEndian, replicate_succ'] using ih
  | succ count ih =>
    have quotient : n / 256 < 256 ^ count := by
      rw [Nat.div_lt_iff_lt_mul (by omega)]
      exact small
    rw [← add_assoc, bigEndian, bigEndian, ih quotient, append_assoc]

/-! ## Without leading zeros -/

/-- The digits of a number to the base 256; zero has none. -/
def shortest (number : Nat) : List UInt8 :=
  ((Nat.digits 256 number).map UInt8.ofNat).reverse

theorem shortest_of_byte {n : Nat} (pos : n ≠ 0) (small : n < 256) :
    shortest n = [UInt8.ofNat n] := by
  rw [shortest, Nat.digits_of_lt 256 n pos small]
  rfl

theorem bigEndianValue_eq_ofDigits (bytes : List UInt8) :
    bigEndianValue bytes = Nat.ofDigits 256 (bytes.map UInt8.toNat).reverse := by
  induction bytes using reverseRecOn with
  | nil => rfl
  | append_singleton bytes b ih =>
    rw [bigEndianValue_concat, ih, map_append, reverse_append, map_singleton, reverse_singleton,
      singleton_append, Nat.ofDigits_cons]
    ring

theorem bigEndianValue_shortest (n : Nat) : bigEndianValue (shortest n) = n := by
  have digits : ((Nat.digits 256 n).map UInt8.ofNat).map UInt8.toNat = Nat.digits 256 n := by
    rw [map_map]
    conv_rhs => rw [← map_id (Nat.digits 256 n)]
    apply map_congr_left
    intro digit mem
    have bound := Nat.digits_lt_base (by decide : 1 < 256) mem
    simp only [Function.comp_apply, UInt8.toNat_ofNat', id_eq]
    omega
  rw [bigEndianValue_eq_ofDigits, shortest, map_reverse,
    reverse_reverse, digits, Nat.ofDigits_digits]

theorem shortest_bigEndianValue {bytes : List UInt8} (noZero : bytes.head? ≠ some 0) :
    shortest (bigEndianValue bytes) = bytes := by
  have digits : Nat.digits 256 (bigEndianValue bytes) = (bytes.map UInt8.toNat).reverse := by
    rw [bigEndianValue_eq_ofDigits]
    apply Nat.digits_ofDigits 256 (by decide)
    · intro digit mem
      simp only [mem_reverse, mem_map] at mem
      obtain ⟨b, _, rfl⟩ := mem
      exact b.toNat_lt
    · intro ne zero
      cases bytes with
      | nil => exact ne rfl
      | cons b bytes =>
        apply noZero
        simp only [map_cons, reverse_cons, getLast_append_singleton] at zero
        have first : b = 0 := UInt8.toNat.inj (zero.trans rfl)
        rw [head?_cons, first]
  have bytesBack : (bytes.map UInt8.toNat).map UInt8.ofNat = bytes := by
    rw [map_map]
    conv_rhs => rw [← map_id bytes]
    apply map_congr_left
    intro b _
    exact UInt8.ofNat_toNat
  rw [shortest, digits, map_reverse, reverse_reverse, bytesBack]

theorem head_shortest (n : Nat) : (shortest n).head? ≠ some 0 := by
  rw [shortest, head?_reverse, getLast?_map]
  intro zero
  obtain ⟨digit, last, small⟩ := Option.map_eq_some_iff.mp zero
  have mem := mem_of_getLast? last
  have bound := Nat.digits_lt_base (by decide : 1 < 256) mem
  have v := congrArg UInt8.toNat small
  rw [UInt8.toNat_ofNat'] at v
  obtain rfl : digit = 0 := by
    have zeroValue : (0 : UInt8).toNat = 0 := rfl
    omega
  by_cases pos : n = 0
  · rw [pos] at last
    cases last
  · have nonzero := Nat.getLast_digit_ne_zero 256 pos
    rw [getLast?_eq_getLast_of_ne_nil (Nat.digits_ne_nil_iff_ne_zero.mpr pos)] at last
    exact nonzero (Option.some.inj last)

theorem shortest_eq_nil_iff (n : Nat) : shortest n = [] ↔ n = 0 := by
  rw [shortest, reverse_eq_nil_iff, map_eq_nil_iff, Nat.digits_eq_nil_iff_eq_zero]

theorem length_shortest_le_iff (n count : Nat) : (shortest n).length ≤ count ↔ n < 256 ^ count := by
  rw [shortest, length_reverse, length_map]
  exact Nat.digits_length_le_iff (by decide) n

theorem bigEndianValue_lt (bytes : List UInt8) : bigEndianValue bytes < 256 ^ bytes.length := by
  rw [bigEndianValue_eq_ofDigits]
  have bound :=
    Nat.ofDigits_lt_base_pow_length (b := 256)
      (l := (bytes.map UInt8.toNat).reverse) (by decide) (by
        intro digit mem
        simp only [mem_reverse, mem_map] at mem
        obtain ⟨byte, _, rfl⟩ := mem
        exact byte.toNat_lt)
  simpa using bound

end AutomatonCore.Library
