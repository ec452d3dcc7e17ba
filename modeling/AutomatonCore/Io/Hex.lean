import Mathlib.Algebra.Ring.Nat
import Mathlib.Data.List.Nodup

/-!
# Byte strings and their hexadecimal spelling

`bin2hex` and `hex2bin` of `core/io/io.cc`.
-/

namespace AutomatonCore.Io

open List

/-- A `std::string`. -/
abbrev Bytes := List UInt8

/-- The bytes of a string literal. -/
def text (literal : String) : Bytes :=
  literal.toList.map Char.toUInt8

/-- The values a `uint8_t` counter takes from zero until it wraps. -/
def allBytes : List UInt8 :=
  (List.range 256).map UInt8.ofNat

theorem mem_allBytes (b : UInt8) : b ∈ allBytes := by
  simp only [allBytes, mem_map, mem_range]
  exact ⟨b.toNat, b.toNat_lt, by simp⟩

theorem allBytes_increasing : allBytes.Pairwise (· < ·) := by
  rw [allBytes, pairwise_map]
  refine pairwise_lt_range.imp_of_mem ?_
  intro first second firstMember secondMember less
  have secondBound := mem_range.mp secondMember
  simp only [UInt8.lt_iff_toNat_lt, UInt8.toNat_ofNat']
  omega

theorem allBytes_nodup : allBytes.Nodup := allBytes_increasing.imp UInt8.ne_of_lt

def hexLut : Bytes :=
  text "0123456789ABCDEF"

def hexDigit (nibble : UInt8) : UInt8 :=
  hexLut.getD nibble.toNat 0

def bin2hex (input : Bytes) : Bytes :=
  input.flatMap fun (byte : UInt8) => [hexDigit (byte >>> 4), hexDigit (byte &&& 15)]

/-- `none` where the source throws `std::invalid_argument`. -/
def hex2nibble (c : UInt8) : Option UInt8 :=
  if 48 ≤ c ∧ c ≤ 57 then some (c - 48)
  else if 65 ≤ c ∧ c ≤ 70 then some (c - 65 + 10)
  else if 97 ≤ c ∧ c ≤ 102 then some (c - 97 + 10)
  else none

def hexPairs : Bytes → Option Bytes
  | first :: second :: rest => do
    let n1 ← hex2nibble first
    let n2 ← hex2nibble second
    let output ← hexPairs rest
    return (n1 <<< 4 ||| n2) :: output
  | _ => some []

def hex2bin (input : Bytes) : Option Bytes :=
  match input with
  | [] => some []
  | first :: rest =>
    if input.length % 2 = 1 then do
      -- an odd length: the first nibble makes a byte of its own
      let nibble ← hex2nibble first
      let output ← hexPairs rest
      return nibble :: output
    else hexPairs input

def upperCase (c : UInt8) : UInt8 :=
  if 97 ≤ c ∧ c ≤ 122 then c - 32 else c

/-- A string of hexadecimal digits, in upper or lower case, for some bytes. -/
def HexSpells (input output : Bytes) : Prop :=
  input.map upperCase = bin2hex output

theorem forall_byte {holds : UInt8 → Prop} [DecidablePred holds]
    (checked : allBytes.all fun b => holds b) (b : UInt8) : holds b :=
  of_decide_eq_true (all_eq_true.mp checked b (mem_allBytes b))

theorem hex2nibble_of_upperCase (c nibble : UInt8) (small : nibble < 16)
    (digit : upperCase c = hexDigit nibble) : hex2nibble c = some nibble := by
  have checked : ∀ v < 16, hex2nibble (hexDigit (UInt8.ofNat v)) = some (UInt8.ofNat v) ∧
      (97 ≤ hexDigit (UInt8.ofNat v) + 32 →
        hex2nibble (hexDigit (UInt8.ofNat v) + 32) = some (UInt8.ofNat v)) := by
    decide
  obtain ⟨upper, lower⟩ := checked nibble.toNat small
  rw [UInt8.ofNat_toNat, ← digit, upperCase] at upper lower
  by_cases letter : 97 ≤ c ∧ c ≤ 122
  · rw [if_pos letter, UInt8.sub_add_cancel] at lower
    exact lower letter.1
  · rwa [if_neg letter] at upper

theorem toNat_high (b : UInt8) : (b >>> 4).toNat = b.toNat / 16 := by
  simp [Nat.shiftRight_eq_div_pow]

theorem toNat_low (b : UInt8) : (b &&& 15).toNat = b.toNat % 16 := by
  simpa using Nat.and_two_pow_sub_one_eq_mod b.toNat 4

variable {first second : UInt8} {input output : Bytes}

theorem toNat_pair (high : first < 16) (low : second < 16) :
    (first <<< 4 ||| second).toNat = first.toNat * 16 + second.toNat := by
  have highBound : first.toNat < 16 := high
  have shifted : (first <<< 4).toNat = first.toNat <<< 4 := by
    simp [Nat.shiftLeft_eq]
    omega
  rw [UInt8.toNat_or, shifted, ← Nat.shiftLeft_add_eq_or_of_lt low, Nat.shiftLeft_eq]

theorem nibbles_of_byte (b : UInt8) :
    b >>> 4 < 16 ∧ b &&& 15 < 16 ∧ (b >>> 4) <<< 4 ||| b &&& 15 = b := by
  have bound := b.toNat_lt
  have high : b >>> 4 < 16 := show (b >>> 4).toNat < 16 by rw [toNat_high]; omega
  have low : b &&& 15 < 16 := show (b &&& 15).toNat < 16 by rw [toNat_low]; omega
  refine ⟨high, low, UInt8.toNat_inj.mp ?_⟩
  rw [toNat_pair high low, toNat_high, toNat_low]
  omega

theorem hexPairs_of_spells (spells : HexSpells input output) : hexPairs input = some output := by
  induction output generalizing input with
  | nil =>
    obtain rfl : input = [] := by simpa [HexSpells, bin2hex] using spells
    rfl
  | cons b output ih =>
    obtain ⟨high, low, whole⟩ := nibbles_of_byte b
    match input, spells with
    | [], spells => simp [HexSpells, bin2hex] at spells
    | [first], spells => simp [HexSpells, bin2hex] at spells
    | first :: second :: rest, spells =>
      simp only [HexSpells, bin2hex, map_cons, flatMap_cons,
        cons_append, nil_append, List.cons.injEq] at spells
      obtain ⟨firstDigit, secondDigit, others⟩ := spells
      simp only [hexPairs, hex2nibble_of_upperCase _ _ high firstDigit,
        hex2nibble_of_upperCase _ _ low secondDigit, ih others, Option.bind_eq_bind,
        Option.bind_some, Option.pure_def, whole]

theorem length_bin2hex (input : Bytes) : (bin2hex input).length = 2 * input.length := by
  induction input with
  | nil => rfl
  | cons b input ih =>
    simp only [bin2hex, flatMap_cons, length_append, length_cons, length_nil] at ih ⊢
    omega

theorem hexSpells_bin2hex (input : Bytes) : HexSpells (bin2hex input) input := by
  have checked : ∀ v < 16, upperCase (hexDigit (UInt8.ofNat v)) = hexDigit (UInt8.ofNat v) := by
    decide
  have digits (n : UInt8) (small : n < 16) : upperCase (hexDigit n) = hexDigit n := by
    simpa using checked n.toNat small
  simp only [HexSpells, bin2hex, map_flatMap, map_cons, map_nil, digits _ (nibbles_of_byte _).1,
    digits _ (nibbles_of_byte _).2.1]

theorem HexSpells.length_eq (spells : HexSpells input output) :
    input.length = 2 * output.length := by
  rw [← length_bin2hex, ← spells, length_map]

theorem hex2bin_of_spells (spells : HexSpells input output) : hex2bin input = some output := by
  have pairs := hexPairs_of_spells spells
  have even := spells.length_eq
  unfold hex2bin
  split
  · exact pairs
  · rw [if_neg (by omega)]
    exact pairs

theorem spells_of_hex2nibble : ∀ c, ∀ n ∈ hex2nibble c, n < 16 ∧ upperCase c = hexDigit n := by
  -- `Option.all` looks at one nibble, where `∀ n ∈ _` may be decided over all bytes `n`
  have checked : ∀ c, (hex2nibble c).all fun n => n < 16 ∧ upperCase c = hexDigit n := by
    apply forall_byte
    decide +kernel
  intro c n read
  simpa [Option.mem_def.mp read] using checked c

theorem nibbles_of_pair (high : first < 16) (low : second < 16) :
    (first <<< 4 ||| second) >>> 4 = first ∧ (first <<< 4 ||| second) &&& 15 = second := by
  have bound : second.toNat < 16 := low
  constructor <;> apply UInt8.toNat_inj.mp
  · rw [toNat_high, toNat_pair high low]
    omega
  · rw [toNat_low, toNat_pair high low]
    omega

theorem spells_of_hexPairs (even : input.length % 2 = 0)
    (read : hexPairs input = some output) : HexSpells input output := by
  induction input using hexPairs.induct generalizing output with
  | case1 first second rest ih =>
    simp only [hexPairs, Option.bind_eq_bind, Option.bind_eq_some_iff, Option.pure_def] at read
    obtain ⟨n1, readFirst, n2, readSecond, output, readRest, same⟩ := read
    cases same
    obtain ⟨high, digit⟩ := spells_of_hex2nibble first n1 readFirst
    obtain ⟨low, digitSecond⟩ := spells_of_hex2nibble second n2 readSecond
    have others := ih (by simp only [length_cons] at even; omega) readRest
    rw [HexSpells, bin2hex] at others ⊢
    simp [digit, digitSecond, nibbles_of_pair high low, others]
  | case2 short few =>
    rcases short with _ | ⟨first, _ | ⟨second, rest⟩⟩
    · cases read
      rfl
    · cases even
    · exact (few first second rest rfl).elim

theorem hex2bin_eq_hexPairs (input : Bytes) :
    hex2bin input = hexPairs (if input.length % 2 = 1 then 48 :: input else input) := by
  cases input with
  | nil => rfl
  | cons first rest =>
    rw [hex2bin]
    split
    · have zero : hex2nibble 48 = some 0 := by decide
      simp [hexPairs, zero]
    · rfl

/-- A text is accepted if and only if it consists of digits, and its bytes are
those it spells; an odd number of digits is read as with a zero in front. -/
theorem hex2bin_eq_some_iff (input output : Bytes) :
    hex2bin input = some output ↔
      HexSpells (if input.length % 2 = 1 then 48 :: input else input) output := by
  rw [hex2bin_eq_hexPairs]
  refine ⟨spells_of_hexPairs ?_, hexPairs_of_spells⟩
  split
  · rw [length_cons]
    omega
  · omega

end AutomatonCore.Io
