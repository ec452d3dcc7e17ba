import AutomatonCore.Io.Decimal
import AutomatonCore.Library.BigEndian

/-!
# Hexadecimal numbers as text

`dec2hex` and `hex2dec` of `core/io/io.cc`.
-/

namespace AutomatonCore.Io

open Library List

def lowerDigit (nibble : Nat) : UInt8 :=
  if nibble < 10 then UInt8.ofNat (48 + nibble) else UInt8.ofNat (87 + nibble)

/-- A number as the manipulator `std::hex` writes it. -/
def hexadecimal (number : Nat) : Bytes :=
  if number = 0 then text "0"
  else ((Nat.digits 16 number).map lowerDigit).reverse

def evenDigits (digits : Bytes) : Bytes :=
  if digits.length % 2 = 1 then text "0" ++ digits else digits

def dec2hex (number : UInt32) : Bytes :=
  evenDigits (hexadecimal number.toNat)

def isHexDigit (c : UInt8) : Bool :=
  (hex2nibble c).isSome

def hexValue (digits : Bytes) : Nat :=
  digits.foldl (fun value c => value * 16 + ((hex2nibble c).getD 0).toNat) 0

/-- What `std::hex` reads of a text that does not start with blanks: a sign, a
prefix, and as many digits as follow.  Larger numbers give the largest one,
and no digits give zero. -/
def readHex (input : Bytes) : Nat :=
  let signed := splitSign input
  let unsigned :=
    if signed.2.take 2 = text "0x" ∨ signed.2.take 2 = text "0X" then signed.2.drop 2
    else signed.2
  let value := hexValue (unsigned.takeWhile isHexDigit)
  if value ≥ 2 ^ 32 then 2 ^ 32 - 1
  else if signed.1 then (2 ^ 32 - value) % 2 ^ 32
  else value

/-- `none` where there is nothing to read and the result is never set. -/
def hex2dec (hex : Bytes) : Option UInt32 :=
  let input := hex.dropWhile isSpace
  if input = [] then none else some (UInt32.ofNat (readHex input))

/-! ## Writing -/

theorem HexSpells.append {first second firstBytes secondBytes : Bytes}
    (firstSpells : HexSpells first firstBytes) (secondSpells : HexSpells second secondBytes) :
    HexSpells (first ++ second) (firstBytes ++ secondBytes) := by
  rw [HexSpells, map_append, firstSpells, secondSpells, bin2hex, bin2hex, bin2hex, flatMap_append]

theorem hexSpells_byte :
    ∀ b < 256, HexSpells [lowerDigit (b / 16), lowerDigit (b % 16)] [UInt8.ofNat b] := by
  have lower : ∀ v < 16, upperCase (lowerDigit v) = hexDigit (UInt8.ofNat v) := by decide
  intro b bound
  have high : UInt8.ofNat b >>> 4 = UInt8.ofNat (b / 16) := by
    apply UInt8.toNat_inj.mp
    rw [toNat_high, UInt8.toNat_ofNat', UInt8.toNat_ofNat']
    omega
  have low : UInt8.ofNat b &&& 15 = UInt8.ofNat (b % 16) := by
    apply UInt8.toNat_inj.mp
    rw [toNat_low, UInt8.toNat_ofNat', UInt8.toNat_ofNat']
    omega
  simp [HexSpells, bin2hex, high, low, lower (b / 16) (by omega), lower (b % 16) (by omega)]

variable {n : Nat} {input output digits : Bytes}

theorem hexadecimal_of_pos (pos : n ≠ 0) :
    hexadecimal n = ((Nat.digits 16 n).map lowerDigit).reverse :=
  if_neg pos

theorem hexadecimal_step (large : 256 ≤ n) :
    hexadecimal n =
      hexadecimal (n / 256) ++ [lowerDigit (n % 256 / 16), lowerDigit (n % 256 % 16)] := by
  have digits : Nat.digits 16 n = n % 16 :: n / 16 % 16 :: Nat.digits 16 (n / 256) := by
    rw [Nat.digits_def' (by decide) (by omega),
      Nat.digits_def' (by decide) (by omega), Nat.div_div_eq_div_mul]
  have high : n % 256 / 16 = n / 16 % 16 := by omega
  have low : n % 256 % 16 = n % 16 := by omega
  rw [hexadecimal_of_pos (by omega), hexadecimal_of_pos (by omega), digits, high]
  simp

theorem hexSpells_evenDigits (n : Nat) (pos : n ≠ 0) :
    HexSpells (evenDigits (hexadecimal n)) (shortest n) := by
  induction n using Nat.strongRecOn with
  | ind n ih =>
    by_cases large : 256 ≤ n
    · have step := hexadecimal_step large
      have spells := ih (n / 256) (by omega) (by omega)
      have even : evenDigits (hexadecimal n) = evenDigits (hexadecimal (n / 256)) ++
              [lowerDigit (n % 256 / 16), lowerDigit (n % 256 % 16)] := by
        rw [step]
        unfold evenDigits
        rw [length_append]
        simp only [length_cons, length_nil, Nat.add_mod_right]
        split <;> simp
      have bytes : shortest n = shortest (n / 256) ++ [UInt8.ofNat (n % 256)] := by
        rw [shortest, Nat.digits_def' (by decide) (by omega), shortest]
        simp
      rw [even, bytes]
      exact spells.append (hexSpells_byte _ (by omega))
    · have even : evenDigits (hexadecimal n) = [lowerDigit (n / 16), lowerDigit (n % 16)] := by
        rw [hexadecimal_of_pos pos, Nat.digits_def' (by decide) (by omega)]
        by_cases single : n < 16
        · rw [Nat.div_eq_of_lt single]
          simp [evenDigits]
          rfl
        · rw [Nat.digits_of_lt 16 (n / 16) (by omega) (by omega)]
          simp [evenDigits]
      rw [even, shortest_of_byte pos (by omega)]
      exact hexSpells_byte n (by omega)

theorem hexSpells_dec2hex {n : UInt32} (pos : n ≠ 0) :
    HexSpells (dec2hex n) (shortest n.toNat) := by
  apply hexSpells_evenDigits
  intro zero
  exact pos (UInt32.toNat.inj zero)

def numberBytes (number : UInt32) : Bytes :=
  if number = 0 then [0] else shortest number.toNat

theorem hexSpells_numberBytes (n : UInt32) : HexSpells (dec2hex n) (numberBytes n) := by
  unfold numberBytes
  split
  next zero =>
    rw [zero]
    unfold HexSpells
    decide +kernel
  next pos =>
    exact hexSpells_dec2hex pos

theorem length_numberBytes_le (n : UInt32) : (numberBytes n).length ≤ 4 := by
  unfold numberBytes
  split
  · exact Nat.le_add_left 1 3
  · exact (length_shortest_le_iff _ 4).mpr (n.toNat_lt.trans_eq (by norm_num))

theorem numberBytes_eq_shortest_iff (n : UInt32) (v : Nat) :
    numberBytes n = shortest v ↔ n ≠ 0 ∧ n.toNat = v := by
  unfold numberBytes
  split
  next zero =>
    have head := head_shortest v
    constructor
    · intro same
      rw [← same] at head
      exact absurd rfl head
    · intro both
      exact absurd zero both.1
  next pos =>
    constructor
    · intro same
      have values := congrArg bigEndianValue same
      rw [bigEndianValue_shortest, bigEndianValue_shortest] at values
      exact ⟨pos, values⟩
    · intro both
      rw [both.2]

/-! ## Reading -/

theorem isHexDigit_of_mem_spells
    (spells : HexSpells input output) {c : UInt8} (mem : c ∈ input) : isHexDigit c = true := by
  have inside : upperCase c ∈ input.map upperCase := mem_map_of_mem mem
  rw [spells, bin2hex, mem_flatMap] at inside
  obtain ⟨b, _, digit⟩ := inside
  obtain ⟨high, low, _⟩ := nibbles_of_byte b
  rcases mem_cons.mp digit with same | later
  · rw [isHexDigit, hex2nibble_of_upperCase c _ high same, Option.isSome_some]
  · rw [isHexDigit, hex2nibble_of_upperCase c _ low (mem_singleton.mp later), Option.isSome_some]

theorem hexValue_append_pair {first second b : UInt8}
    (high : upperCase first = hexDigit (b >>> 4)) (low : upperCase second = hexDigit (b &&& 15)) :
    hexValue (digits ++ [first, second]) = hexValue digits * 256 + b.toNat := by
  have nibbles : (b >>> 4).toNat * 16 + (b &&& 15).toNat = b.toNat := by
    rw [toNat_high, toNat_low]
    omega
  obtain ⟨smallHigh, smallLow, _⟩ := nibbles_of_byte b
  have firstNibble := hex2nibble_of_upperCase _ _ smallHigh high
  have secondNibble := hex2nibble_of_upperCase _ _ smallLow low
  rw [← nibbles]
  simp only [hexValue, foldl_append, foldl_cons, foldl_nil,
    firstNibble, secondNibble, Option.getD_some]
  ring

theorem hexValue_of_spells (spells : HexSpells input output) :
    hexValue input = bigEndianValue output := by
  induction output using reverseRecOn generalizing input with
  | nil =>
    obtain rfl : input = [] := by simpa [HexSpells, bin2hex] using spells
    rfl
  | append_singleton output b ih =>
    rw [HexSpells, bin2hex, flatMap_append] at spells
    obtain ⟨digits, last, rfl, before, after⟩ := map_eq_append_iff.mp spells
    obtain ⟨first, _, rfl, high, after⟩ := map_eq_cons_iff.mp after
    obtain ⟨second, _, rfl, low, after⟩ := map_eq_cons_iff.mp after
    obtain rfl := map_eq_nil_iff.mp after
    rw [hexValue_append_pair high low, ih before, bigEndianValue_concat]

theorem ne_nil_of_spells (spells : HexSpells input output) (ne : output ≠ []) : input ≠ [] := by
  have length := spells.length_eq
  have pos := length_pos_iff.mpr ne
  exact ne_nil_of_length_pos (by omega)

theorem not_space_or_sign_of_isHexDigit :
    ∀ c : UInt8, isHexDigit c = true → isSpace c = false ∧ c ≠ 45 ∧ c ≠ 43 ∧ c ≠ 120 ∧ c ≠ 88 := by
  apply forall_byte
  decide +kernel

/-- A number that is too large is read as the largest one. -/
theorem hex2dec_of_digits (ne : digits ≠ []) (all : ∀ c ∈ digits, isHexDigit c = true) :
    hex2dec digits = some (UInt32.ofNat (min (hexValue digits) (2 ^ 32 - 1))) := by
  obtain ⟨first, rest, rfl⟩ := exists_cons_of_ne_nil ne
  obtain ⟨notSpace, notMinus, notPlus, _⟩ :=
    not_space_or_sign_of_isHexDigit first (all first mem_cons_self)
  have unsigned : splitSign (first :: rest) = (false, first :: rest) := by
    unfold splitSign
    split <;> simp_all
  have unmarked : ¬ ((first :: rest).take 2 = text "0x" ∨ (first :: rest).take 2 = text "0X") := by
    cases rest with
    | nil => simp [text]
    | cons second rest =>
      obtain ⟨_, _, _, notLower, notUpper⟩ :=
        not_space_or_sign_of_isHexDigit second (all second (by simp))
      have lower : Char.toUInt8 'x' = 120 := by decide
      have upper : Char.toUInt8 'X' = 88 := by decide
      simp [text, lower, upper, notLower, notUpper]
  have whole : (first :: rest).takeWhile isHexDigit = first :: rest := takeWhile_eq_self_iff.mpr all
  have blanks : (first :: rest).dropWhile isSpace = first :: rest := by
    rw [dropWhile_cons_of_neg (by simp [notSpace])]
  rw [hex2dec, blanks, if_neg (cons_ne_nil _ _), readHex]
  simp only [unsigned, if_neg unmarked, whole, Bool.false_eq_true, if_false]
  congr 2
  split <;> omega

theorem hex2dec_of_spells (spells : HexSpells input output) (ne : output ≠ []) :
    hex2dec input = some (UInt32.ofNat (min (bigEndianValue output) (2 ^ 32 - 1))) := by
  rw [hex2dec_of_digits (ne_nil_of_spells spells ne)
    fun c mem => isHexDigit_of_mem_spells spells mem, hexValue_of_spells spells]

/-- Every number is read back from its digits. -/
theorem hex2dec_dec2hex (n : UInt32) : hex2dec (dec2hex n) = some n := by
  have value : bigEndianValue (numberBytes n) = n.toNat := by
    unfold numberBytes
    split
    next zero =>
      rw [zero]
      rfl
    · exact bigEndianValue_shortest _
  have ne : numberBytes n ≠ [] := by
    intro nil
    have zero : n = 0 := UInt32.toNat.inj (value.symm.trans (by rw [nil]; rfl))
    simp [numberBytes, zero] at nil
  have small : n.toNat ≤ 2 ^ 32 - 1 := Nat.le_of_lt_succ n.toNat_lt
  rw [hex2dec_of_spells (hexSpells_numberBytes n) ne, value, min_eq_left small,
    UInt32.ofNat_toNat]

end AutomatonCore.Io
