import AutomatonCore.Io.Decimal

/-!
# Numbers and texts in Lua

The part of Lua 5.3 on which the scripts rely.
-/

namespace AutomatonCore.Script

open Io

inductive LuaError where
  | indexNil
  | noIntegerRepresentation
  | stringContainsZeros
  deriving DecidableEq, Repr

/-! ## Rounding -/

/-- Division that rounds to the nearest number, and to the even one of two. -/
def roundDiv (value unit : Nat) : Nat :=
  let quotient := value / unit
  let rest := value % unit
  if 2 * rest < unit ∨ 2 * rest = unit ∧ quotient % 2 = 0 then quotient
  else quotient + 1

theorem div_le_roundDiv (v unit : Nat) : v / unit ≤ roundDiv v unit := by
  unfold roundDiv
  simp only
  split
  · exact le_rfl
  · exact Nat.le_succ _

/-- A double has 53 significant bits. -/
def toDouble (value : Nat) : Nat :=
  let unit := 2 ^ (value.log2 - 52)
  roundDiv value unit * unit

theorem two_pow_le_toDouble {v k : Nat} (large : 2 ^ k ≤ v) : 2 ^ k ≤ toDouble v := by
  have nonzero : v ≠ 0 := by
    have := Nat.two_pow_pos k
    omega
  have exponent : k ≤ v.log2 := (Nat.le_log2 nonzero).mpr large
  have leading : 2 ^ v.log2 ≤ v := Nat.log2_self_le nonzero
  -- the unit divides the leading power of two
  have split : 2 ^ v.log2 = 2 ^ (v.log2 - (v.log2 - 52)) * 2 ^ (v.log2 - 52) := by
    rw [← Nat.pow_add, Nat.sub_add_cancel (Nat.sub_le _ _)]
  have quotient : 2 ^ (v.log2 - (v.log2 - 52)) ≤ v / 2 ^ (v.log2 - 52) := by
    rw [Nat.le_div_iff_mul_le (Nat.two_pow_pos _), ← split]
    exact leading
  calc 2 ^ k ≤ 2 ^ v.log2 := Nat.pow_le_pow_right (by decide) exponent
    _ = 2 ^ (v.log2 - (v.log2 - 52)) * 2 ^ (v.log2 - 52) := split
    _ ≤ toDouble v := Nat.mul_le_mul_right _ (quotient.trans (div_le_roundDiv _ _))

def toDoubleInt (value : Int) : Int :=
  value.sign * toDouble value.natAbs

/-! ## Numbers -/

/-- An integer of 64 bits or a double.  The doubles that scripts get from the
node are whole numbers, so a double is kept as an integer. -/
inductive LuaNumber where
  | integer (value : Int)
  | float (value : Int)
  deriving DecidableEq, Repr

namespace LuaNumber

def value : LuaNumber → Int
  | integer value => value
  | float value => value

@[simp]
theorem value_integer (n : Int) : (integer n).value = n :=
  rfl

@[simp]
theorem value_float (n : Int) : (float n).value = n :=
  rfl

def asDouble : LuaNumber → Int
  | integer value => toDoubleInt value
  | float value => value

/-- Integers wrap around; otherwise both operands become doubles. -/
def sub : LuaNumber → LuaNumber → LuaNumber
  | integer left, integer right => integer ((left - right).bmod (2 ^ 64))
  | left, right => float (toDoubleInt (left.asDouble - right.asDouble))

/-- How the binding library pushes a `uint64_t`: as an integer if it is one of
Lua's, otherwise as a double. -/
def ofUInt64 (number : Nat) : LuaNumber :=
  if number < 2 ^ 63 then integer number else float (toDouble number)

def toInteger : LuaNumber → Option Int
  | integer value => some value
  | float value =>
    if -2 ^ 63 ≤ value ∧ value < 2 ^ 63 then some value else none

variable {n : Nat}

theorem ofUInt64_of_lt (small : n < 2 ^ 63) : ofUInt64 n = integer n := if_pos small

theorem ofUInt64_of_le (large : 2 ^ 63 ≤ n) : ofUInt64 n = float (toDouble n) :=
  if_neg (not_lt.mpr large)

theorem le_value_ofUInt64 (large : 2 ^ 63 ≤ n) : 2 ^ 63 ≤ (ofUInt64 n).value := by
  rw [ofUInt64_of_le large, value_float]
  exact_mod_cast two_pow_le_toDouble large

theorem toInteger_of_lt (small : n < 2 ^ 63) : (ofUInt64 n).toInteger = some (n : Int) := by
  rw [ofUInt64_of_lt small]
  rfl

theorem toInteger_of_le (large : 2 ^ 63 ≤ n) : (ofUInt64 n).toInteger = none := by
  have high := le_value_ofUInt64 large
  rw [ofUInt64_of_le large, value_float] at high
  rw [ofUInt64_of_le large, toInteger, if_neg]
  rintro ⟨-, low⟩
  omega

theorem sub_one (small : n < 2 ^ 63) (pos : 0 < n) :
    (ofUInt64 n).sub (integer 1) = integer (n - 1 : Nat) := by
  rw [ofUInt64_of_lt small]
  have wrapped : ((n : Int) - 1).bmod (2 ^ 64) = (n - 1 : Nat) := by
    rw [Int.bmod_eq_of_le (by omega) (by omega)]
    omega
  exact congrArg integer wrapped

theorem value_ofUInt64_eq_iff {other : Nat} (small : other < 2 ^ 63) :
    (ofUInt64 n).value = (integer other).value ↔ n = other := by
  rcases lt_or_ge n (2 ^ 63) with fits | large
  · rw [ofUInt64_of_lt fits]
    exact Int.ofNat_inj
  · have high := le_value_ofUInt64 large
    constructor
    · intro same
      rw [same, value_integer] at high
      omega
    · intro same
      omega

/-- `%.14g` of a whole number, with `.0` behind what looks like an integer. -/
def spellDouble (number : Nat) : Bytes :=
  let digits := decimal number
  if digits.length ≤ 14 then digits ++ text ".0"
  else
    let dropped := digits.length - 14
    let kept := decimal (roundDiv number (10 ^ dropped))
    let mantissa := (kept.reverse.dropWhile (· = 48)).reverse
    let fraction :=
      if mantissa.length = 1 then [] else text "." ++ mantissa.drop 1
    mantissa.take 1 ++ fraction ++ text "e+" ++ decimal (dropped + (kept.length - 1))

def tostring : LuaNumber → Bytes
  | integer value => decimalInt value
  | float value =>
    if value < 0 then 45 :: spellDouble value.natAbs
    else spellDouble value.natAbs

example : (ofUInt64 (2 ^ 63)).tostring = text "9.2233720368548e+18" := by decide +kernel

theorem tostring_of_lt (small : n < 2 ^ 63) : (ofUInt64 n).tostring = decimal n := by
  rw [ofUInt64_of_lt small, tostring, decimalInt, if_neg (by omega), Int.natAbs_natCast]

end LuaNumber

/-! ## Two conversions of `string.format` -/

def padLeft (width : Nat) (s : Bytes) : Bytes :=
  List.replicate (width - s.length) 32 ++ s

/-- `%d` with a width. -/
def formatD (width : Nat) (number : LuaNumber) : Except LuaError Bytes :=
  match number.toInteger with
  | some value => .ok (padLeft width (decimalInt value))
  | none => .error .noIntegerRepresentation

/-- `%s` with a width. -/
def formatS (width : Nat) (s : Bytes) : Except LuaError Bytes :=
  if 0 ∈ s then .error .stringContainsZeros else .ok (padLeft width s)

end AutomatonCore.Script
