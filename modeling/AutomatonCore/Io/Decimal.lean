import Mathlib.Data.List.TakeWhile
import Mathlib.Data.Nat.Digits.Lemmas
import AutomatonCore.Io.Hex

/-!
# Decimal numbers as text
-/

namespace AutomatonCore.Io

open List

/-- `std::to_string` of a number without a sign. -/
def decimal (number : Nat) : Bytes :=
  if number = 0 then text "0"
  else ((Nat.digits 10 number).map fun digit => UInt8.ofNat (48 + digit)).reverse

def decimalInt (number : Int) : Bytes :=
  if number < 0 then 45 :: decimal number.natAbs
  else decimal number.natAbs

def isDigit (c : UInt8) : Bool :=
  48 ≤ c && c ≤ 57

def isSpace (c : UInt8) : Bool :=
  c = 32 || (9 ≤ c && c ≤ 13)

def digitsValue (digits : Bytes) : Nat :=
  Nat.ofDigits 10 (digits.map fun c => c.toNat - 48).reverse

def splitSign : Bytes → Bool × Bytes
  | 45 :: rest => (true, rest)
  | 43 :: rest => (false, rest)
  | unsigned => (false, unsigned)

/-- The conversion behind `std::stoi` before its range check: white space, a
sign, and as many digits as follow; `none` if there is no digit. -/
def strtol (input : Bytes) : Option Int :=
  let signed := splitSign (input.dropWhile isSpace)
  let digits := signed.2.takeWhile isDigit
  if digits = [] then none
  else if signed.1 then some (-(digitsValue digits : Int))
  else some (digitsValue digits : Int)

/-- A decimal string: digits, possibly after a minus sign. -/
def decimalValue (input : Bytes) : Option Int :=
  match input with
  | [] => none
  | 45 :: digits =>
    if digits ≠ [] ∧ digits.all isDigit then some (-(digitsValue digits : Int))
    else none
  | digits =>
    if digits.all isDigit then some (digitsValue digits : Int)
    else none

theorem digit_ofNat :
    ∀ digit < 10, isDigit (UInt8.ofNat (48 + digit)) = true ∧
      (UInt8.ofNat (48 + digit)).toNat - 48 = digit := by
  decide

theorem isDigit_of_mem_decimal {n : Nat} {c : UInt8} (mem : c ∈ decimal n) : isDigit c = true := by
  unfold decimal at mem
  split at mem
  · obtain rfl : c = 48 := mem_singleton.mp mem
    rfl
  · simp only [mem_reverse, mem_map] at mem
    obtain ⟨digit, inside, rfl⟩ := mem
    exact (digit_ofNat digit (Nat.digits_lt_base (by omega) inside)).1

theorem decimal_ne_nil (n : Nat) : decimal n ≠ [] := by
  unfold decimal
  split
  · decide
  next pos =>
    simpa [Nat.digits_eq_nil_iff_eq_zero] using pos

theorem digitsValue_decimal (n : Nat) : digitsValue (decimal n) = n := by
  unfold decimal
  split
  next zero =>
    rw [zero]
    rfl
  · have same : (Nat.digits 10 n).map
            (fun digit => (UInt8.ofNat (48 + digit)).toNat - 48) = (Nat.digits 10 n).map id := by
      apply map_congr_left
      intro digit mem
      exact (digit_ofNat digit (Nat.digits_lt_base (by omega) mem)).2
    rw [map_id] at same
    rw [digitsValue, map_reverse, reverse_reverse, map_map]
    exact (congrArg _ same).trans (Nat.ofDigits_digits 10 n)

theorem decimal_injective : Function.Injective decimal := by
  intro first second same
  rw [← digitsValue_decimal first, same, digitsValue_decimal]

theorem not_space_or_sign_of_isDigit :
    ∀ c : UInt8, isDigit c = true → isSpace c = false ∧ c ≠ 45 ∧ c ≠ 43 := by
  apply forall_byte
  decide +kernel

theorem strtol_digits_append {digits : Bytes} (ne : digits ≠ [])
    (all : ∀ c ∈ digits, isDigit c = true) {rest : Bytes}
    (stops : ∀ c ∈ rest.head?, isDigit c = false) :
    strtol (digits ++ rest) = some (digitsValue digits : Int) := by
  have whole : (digits ++ rest).takeWhile isDigit = digits := by
    have stopped : rest.takeWhile isDigit = [] := by
      cases rest with
      | nil => rfl
      | cons c rest => simp [stops c rfl]
    rw [takeWhile_append_of_pos all, stopped, append_nil]
  obtain ⟨first, others, rfl⟩ := exists_cons_of_ne_nil ne
  obtain ⟨notSpace, notMinus, notPlus⟩ :=
    not_space_or_sign_of_isDigit first (all first (mem_cons_self))
  rw [cons_append] at whole ⊢
  have unsigned : splitSign (first :: (others ++ rest)) = (false, first :: (others ++ rest)) := by
    unfold splitSign
    split <;> simp_all
  simp [strtol, notSpace, unsigned, whole]

theorem strtol_of_digits {digits : Bytes} (ne : digits ≠ [])
    (all : ∀ c ∈ digits, isDigit c = true) : strtol digits = some (digitsValue digits : Int) := by
  have stops : ∀ c ∈ ([] : Bytes).head?, isDigit c = false := by simp
  simpa using strtol_digits_append ne all stops

theorem strtol_decimal (n : Nat) : strtol (decimal n) = some (n : Int) := by
  rw [strtol_of_digits (decimal_ne_nil n) (fun _ => isDigit_of_mem_decimal), digitsValue_decimal]

theorem decimalValue_decimalInt (n : Int) : decimalValue (decimalInt n) = some n := by
  have all : (decimal n.natAbs).all isDigit = true :=
    all_eq_true.mpr fun _ => isDigit_of_mem_decimal
  unfold decimalInt
  split
  · rw [decimalValue, if_pos ⟨decimal_ne_nil _, all⟩, digitsValue_decimal]
    congr 1
    omega
  · unfold decimalValue
    split
    next empty =>
      exact absurd empty (decimal_ne_nil _)
    next digits shape =>
      simp [shape, isDigit] at all
    · rw [if_pos all, digitsValue_decimal]
      congr 1
      omega

end AutomatonCore.Io
