import AutomatonCore.Interop.AbiNumbers
import AutomatonCore.Io.HexNumbers

/-!
# Numbers in hexadecimal
-/

namespace AutomatonCore.Interop.Ethereum

open Io Library List
open ContractType (uint word uint_lt)

/-- The library takes base 16 from the letter `h` at the end of the string
only. -/
def integerBase (spelled : Bytes) : Nat :=
  if spelled.getLast? = some 104 ∨ spelled.take 2 = text "0x" then 16 else 10

def integerStep (base value : Nat) (c : UInt8) : Nat :=
  match hex2nibble c with
  | some digit =>
    if digit.toNat < base then value * base + digit.toNat else value
  | none => value

def integerValue (spelled : Bytes) : Int :=
  let magnitude : Nat := spelled.foldl (integerStep (integerBase spelled)) 0
  if spelled.head? = some 45 then -magnitude else magnitude

/-! ## Reading digits to another base -/

variable {digits spelled : Bytes}

theorem decimal_of_hex (hex : ∀ c ∈ digits, isHexDigit c = true) :
    digits.foldl (integerStep 10) 0 ≤ hexValue digits ∧
      (digits.foldl (integerStep 10) 0 = hexValue digits ↔ hexValue digits < 10) := by
  induction digits using reverseRecOn with
  | nil => exact ⟨Nat.le_refl 0, by decide⟩
  | append_singleton digits c ih =>
    obtain ⟨smaller, same⟩ := ih (fun c mem => hex c (mem_append_left _ mem))
    obtain ⟨digit, found⟩ := Option.isSome_iff_exists.mp (hex c (by simp))
    simp only [hexValue, foldl_append, foldl_cons, foldl_nil] at smaller same ⊢
    simp only [integerStep, found, Option.getD_some]
    split <;> omega

theorem decimal_of_digits (all : ∀ c ∈ digits, isDigit c = true) :
    digits.foldl (integerStep 10) 0 = digitsValue digits := by
  induction digits using reverseRecOn with
  | nil => rfl
  | append_singleton digits c ih =>
    have v : ∀ c : UInt8, isDigit c = true →
          hex2nibble c = some (c - 48) ∧ (c - 48).toNat = c.toNat - 48 ∧ (c - 48).toNat < 10 := by
      apply forall_byte
      decide +kernel
    obtain ⟨found, same, small⟩ := v c (all c (by simp))
    have before := ih (fun c mem => all c (mem_append_left _ mem))
    simp only [foldl_append, foldl_cons, foldl_nil, before,
      integerStep, found, if_pos small, digitsValue, map_append, reverse_append, map_cons, map_nil,
      reverse_singleton, singleton_append, Nat.ofDigits_cons]
    omega

theorem integerBase_eq_ten (a : spelled.getLast? ≠ some 104)
    (mark : spelled.take 2 ≠ text "0x") : integerBase spelled = 10 :=
  if_neg (not_or.mpr ⟨a, mark⟩)

theorem integerValue_of_decimalValue {n : Int}
    (decimal : decimalValue spelled = some n) : integerValue spelled = n := by
  have base : integerBase spelled = 10 := by
    apply integerBase_eq_ten
    · intro last
      rcases ContractType.mem_of_decimalValue decimal (mem_of_getLast? last) with digit | minus
      · exact absurd digit (by decide)
      · exact absurd minus (by decide)
    · exact ContractType.not_hex_of_decimalValue decimal
  rw [integerValue, base]
  unfold decimalValue at decimal
  split at decimal
  · cases decimal
  · split at decimal
    next all =>
      cases decimal
      exact congrArg (fun v : Nat => -(v : Int)) (decimal_of_digits (all_eq_true.mp all.2))
    · cases decimal
  next unsigned =>
    split at decimal
    next all =>
      cases decimal
      have notMinus : spelled.head? ≠ some 45 := by
        intro minus
        obtain ⟨rest, rfl⟩ := head?_eq_some_iff.mp minus
        exact unsigned rest rfl
      rw [if_neg notMinus, decimal_of_digits (all_eq_true.mp all)]
    · cases decimal

section Spellings

variable {lib : IntegerLibrary}

/-- `dec_to_i256` replaces `0x` by the letter `h` at the beginning, so the
digits are read to the base 10 and the others are skipped. -/
theorem decToI256_hex (parses : ∀ spelled, lib.parse spelled = integerValue spelled)
    {digits : Bytes} (ne : digits ≠ [])
    (hex : ∀ c ∈ digits, isHexDigit c = true) (isSigned : Bool) :
    decToI256 lib isSigned (text "0x" ++ digits) =
      lib.encode (digits.foldl (integerStep 10) 0 : Nat) isSigned := by
  have replaced : (if (text "0x" ++ digits).take 2 = text "0x" then
          text "h" ++ (text "0x" ++ digits).drop 2
        else text "0x" ++ digits) = 104 :: digits :=
    if_pos rfl
  have noZero : (104 :: digits).takeWhile (· ≠ 0) = 104 :: digits := by
    have nonzero : ∀ c : UInt8, isHexDigit c = true → c ≠ 0 := by
      apply forall_byte
      decide +kernel
    rw [takeWhile_eq_self_iff, forall_mem_cons]
    exact ⟨by decide, fun c mem => by simpa using nonzero c (hex c mem)⟩
  have base : integerBase (104 :: digits) = 10 := by
    apply integerBase_eq_ten
    · intro last
      obtain ⟨first, rest, rfl⟩ := exists_cons_of_ne_nil ne
      exact absurd (hex _ (mem_of_getLast? last)) (by decide)
    · intro same
      exact absurd (List.cons.inj same).1 (by decide)
  simp only [decToI256]
  rw [replaced, noZero, parses, integerValue, base]
  rfl

open ContractType
theorem reads_hex (encodes : lib.Encodes)
    (parses : ∀ spelled, lib.parse spelled = integerValue spelled)
    {width : IntegerWidth} {digits : Bytes} (ne : digits ≠ [])
    (hex : ∀ c ∈ digits, isHexDigit c = true)
    {v : (uint width).Value} (taken : digits.foldl (integerStep 10) 0 = v.1) :
    (uint width).Reads lib (.string (text "0x" ++ digits)) v := by
  have integral := integral_uint width
  simp only [Reads, numericalWord, if_neg integral.notBool, integral.isInt,
    if_true, integerText, integral.sign, pure_eq_ok, ok_bind,
    Option.map_some, decToI256_hex parses ne hex, taken, encodes.encodeUnsigned (uint_lt v)]
  rfl

theorem encode_uint_of_reads {parse : Bytes → Option Json}
    {signaturesJson parametersJson : Bytes} {width : IntegerWidth}
    {json : Json} {v : (uint width).Value}
    (signatures : parse signaturesJson = some (.array [.string (uint width).render]))
    (values : parse parametersJson = some (.array [json]))
    (reads : (uint width).Reads lib json v) :
    encode lib parse signaturesJson parametersJson = .ok (word v.1) := by
  have read : Parameter.ReadAs lib [json] [⟨.uint width, v⟩] := .cons reads .nil
  have one : Parameter.encodings [⟨.uint width, v⟩] = word v.1 := by
    exact (headTail_inPlace [_]).trans (append_nil _)
  rw [Parameter.encode_of_small signatures values read, one]
  rw [one, ContractType.length_word]
  norm_num

/-- A number is encoded alike in both spellings if and only if it has one
digit in both. -/
theorem encode_hex_eq_decimal_iff (encodes : lib.Encodes)
    (parses : ∀ spelled, lib.parse spelled = integerValue spelled)
    {parse : Bytes → Option Json}
    {signaturesJson hexJson decimalJson : Bytes} {width : IntegerWidth}
    (v : (uint width).Value) {digits : Bytes}
    (ne : digits ≠ []) (hex : ∀ c ∈ digits, isHexDigit c = true) (spelled : hexValue digits = v.1)
    (signatures : parse signaturesJson = some (.array [.string (uint width).render]))
    (hexValues : parse hexJson = some (.array [.string (text "0x" ++ digits)]))
    (decimalValues : parse decimalJson = some (.array [.string (decimal v.1)])) :
    encode lib parse signaturesJson hexJson =
        encode lib parse signaturesJson decimalJson ↔ v.1 < 10 := by
  obtain ⟨smaller, same⟩ := decimal_of_hex hex
  rw [spelled] at smaller same
  let taken : (uint width).Value :=
    ⟨digits.foldl (integerStep 10) 0, smaller.trans_lt v.2⟩
  have hexReads : (uint width).Reads lib (.string (text "0x" ++ digits)) taken :=
    reads_hex encodes parses ne hex rfl
  have decimalReads : (uint width).Reads lib (.string (decimal v.1)) v :=
    ContractType.numericalWord_uint encodes v (decimalValue_decimalInt v.1)
  rw [encode_uint_of_reads signatures hexValues hexReads,
    encode_uint_of_reads signatures decimalValues decimalReads, Except.ok.injEq]
  constructor
  · intro words
    exact same.mp
      (ContractType.word_injective (uint_lt taken) (uint_lt v) words)
  · intro small
    exact congrArg word (same.mpr small)

end Spellings

def basesLibrary : IntegerLibrary :=
  { referenceLibrary with parse := integerValue }

theorem basesLibrary_encodes : basesLibrary.Encodes where
  parse := integerValue_of_decimalValue
  encodeUnsigned := referenceLibrary_encodes.encodeUnsigned
  encodeSigned := referenceLibrary_encodes.encodeSigned

theorem encode_hex_five :
    encode basesLibrary
        (twoWays (.uint ⟨256, by decide⟩) (.string (text "0x" ++ text "05")) (.string (decimal 5)))
        (text "s") (text "n") =
      encode basesLibrary
        (twoWays (.uint ⟨256, by decide⟩) (.string (text "0x" ++ text "05")) (.string (decimal 5)))
        (text "s") (text "d") := by
  have ne : text "05" ≠ [] := by decide
  exact (encode_hex_eq_decimal_iff basesLibrary_encodes (fun _ => rfl)
      ⟨5, by decide⟩ ne (by decide +kernel) (by decide +kernel) rfl rfl rfl).mpr (by decide)

theorem encode_hex_sixteen :
    hexValue (text "10") = 16 ∧ encode basesLibrary
          (twoWays (.uint ⟨8, by decide⟩) (.string (text "0x10"))
            (.string (decimal 16))) (text "s") (text "n") =
        .ok (word 10) ∧
      encode basesLibrary (twoWays (.uint ⟨8, by decide⟩) (.string (text "0x10"))
            (.string (decimal 16))) (text "s") (text "d") =
        .ok (word 16) ∧
      word 10 ≠ word 16 := by
  refine ⟨?_, ?_, ?_, ?_⟩ <;> decide +kernel

end AutomatonCore.Interop.Ethereum
