import Mathlib.Data.List.Basic
import Mathlib.Tactic.Ring

/-!
# Little-endian numbers
-/

namespace AutomatonCore.Library

/-- The least significant byte comes first; higher digits are dropped. -/
def littleEndian : Nat → Nat → List UInt8
  | 0, _ => []
  | count + 1, number => UInt8.ofNat number :: littleEndian count (number / 256)

def littleEndianValue (bytes : List UInt8) : Nat :=
  bytes.foldr (fun byte value => byte.toNat + 256 * value) 0

@[simp]
theorem length_littleEndian (count n : Nat) : (littleEndian count n).length = count := by
  induction count generalizing n with
  | zero => rfl
  | succ count ih => simp [littleEndian, ih]

theorem littleEndianValue_littleEndian (count n : Nat) :
    littleEndianValue (littleEndian count n) = n % 256 ^ count := by
  induction count generalizing n with
  | zero => simp [littleEndian, littleEndianValue, Nat.mod_one]
  | succ count ih =>
    have digit : (UInt8.ofNat n).toNat = n % 256 := UInt8.toNat_ofNat'
    have rest : littleEndianValue (littleEndian (count + 1) n) =
          (UInt8.ofNat n).toNat + 256 * littleEndianValue (littleEndian count (n / 256)) :=
      rfl
    rw [rest, digit, ih, pow_succ' 256 count, Nat.mod_mul]

theorem littleEndian_littleEndianValue (bytes : List UInt8) :
    littleEndian bytes.length (littleEndianValue bytes) = bytes := by
  induction bytes with
  | nil => rfl
  | cons byte bytes ih =>
    have v : littleEndianValue (byte :: bytes) = byte.toNat + 256 * littleEndianValue bytes := rfl
    have small : byte.toNat < 256 := byte.toNat_lt
    have digit : UInt8.ofNat (byte.toNat + 256 * littleEndianValue bytes) = byte := by
      apply UInt8.toNat.inj
      rw [UInt8.toNat_ofNat']
      omega
    have rest : (byte.toNat + 256 * littleEndianValue bytes) / 256 = littleEndianValue bytes := by
      omega
    rw [v, List.length_cons, littleEndian, digit, rest, ih]

end AutomatonCore.Library
