import AutomatonCore.Interop.AbiCodec
import AutomatonCore.Interop.JsonGrammar

/-!
# JSON texts

What a JSON text stands for, after the grammar of JSON.  This is what the JSON
library is documented to read.
-/

namespace AutomatonCore.Interop.Ethereum

open Io List

/-! ## Reading -/

def isUnicode (input : Bytes) : Bool :=
  input.toByteArray.validateUTF8

namespace Json

def readKeyword (input : Bytes) : Option (Json × Bytes) :=
  if (text "true").isPrefixOf input then some (.boolean true, input.drop 4)
  else if (text "false").isPrefixOf input then some (.boolean false, input.drop 5)
  else if (text "null").isPrefixOf input then some (.null, input.drop 4)
  else none

def readDigits (input : Bytes) : Option (Bytes × Bytes) :=
  let digits := input.takeWhile isDigit
  if digits = [] then none else some (digits, input.dropWhile isDigit)

def readFraction : Bytes → Option (Bytes × Bytes)
  | 46 :: rest => readDigits rest
  | rest => some ([], rest)

def readExponent : Bytes → Option (Option Int × Bytes)
  | [] => some (none, [])
  | c :: rest =>
    if c = 101 ∨ c = 69 then do
      let (negative, unsigned) := splitSign rest
      let (digits, rest) ← readDigits unsigned
      let size : Int := digitsValue digits
      some (some (if negative then -size else size), rest)
    else some (none, c :: rest)

def scaled (digits : Nat) (exponent : Int) : Nat :=
  if 0 ≤ exponent then digits * 10 ^ exponent.toNat
  else digits / 10 ^ (-exponent).toNat

def readNumber (input : Bytes) : Option (Json × Bytes) := do
  let negative := input.head? = some 45
  let (digits, rest) ← readDigits (if negative then input.tail else input)
  if digits.head? = some 48 ∧ digits.length ≠ 1 then none
  else
    let (fraction, rest) ← readFraction rest
    let (exponent, rest) ← readExponent rest
    let signed (size : Nat) : Int := if negative then -size else size
    if fraction = [] ∧ exponent = none then some (.integer (signed (digitsValue digits)), rest)
    else
      let size := scaled (digitsValue (digits ++ fraction)) (exponent.getD 0 - fraction.length)
      some (.real (signed size), rest)

def readMember (value : Bytes → Option (Json × Bytes)) (input : Bytes) :
    Option ((Bytes × Json) × Bytes) :=
  let input := skipBlanks input
  if input.head? = some 34 then do
    let (name, rest) ← readLiteral input.tail
    let rest := skipBlanks rest
    if rest.head? = some 58 then do
      let (member, rest) ← value rest.tail
      some ((name, member), rest)
    else none
  else none

/-- A value with at most so many brackets inside of each other, and the
rest. -/
def readValue : Nat → Bytes → Option (Json × Bytes)
  | 0, _ => none
  | depth + 1, input =>
    let input := skipBlanks input
    let inside := skipBlanks input.tail
    if input.head? = some 34 then
      (readLiteral input.tail).map fun (value, rest) => (.string value, rest)
    else if input.head? = some 91 then
      if inside.head? = some 93 then some (.array [], inside.tail)
      else
        (separated (readValue depth) 93 inside.length inside).map
          fun (elements, rest) => (.array elements, rest)
    else if input.head? = some 123 then
      if inside.head? = some 125 then some (.object [], inside.tail)
      else
        (separated (readMember (readValue depth)) 125 inside.length
          inside).map fun (members, rest) => (.object members, rest)
    else (readKeyword input).or (readNumber input)

/-- A JSON text is one value, between blanks. -/
def read (input : Bytes) : Option Json :=
  if isUnicode input then
    match readValue (input.length + 1) input with
    | some (value, rest) => if skipBlanks rest = [] then some value else none
    | none => none
  else none

theorem read_eq_some {input : Bytes} {v : Json} (unicode : isUnicode input = true)
    (whole : readValue (input.length + 1) input = some (v, [])) : read input = some v := by
  rw [read, if_pos unicode, whole]
  rfl

example : readNumber (text "-12.5e1,") = some (.real (-125), text ",") :=
  rfl

/-! ## Values -/

theorem readValue_literal (depth : Nat) (v more rest : Bytes) :
    readValue (depth + 1) (34 :: (v ++ 34 :: more)) =
        some (.string v, rest) ↔ Unescaped v ∧ rest = more := by
  have visible : isBlank 34 = false := rfl
  rw [← readLiteral_eq_iff, readValue, skipBlanks_cons visible]
  simp

theorem readValue_boolean (depth : Nat) (v : Bool) (more : Bytes) :
    readValue (depth + 1)
        (cond v (text "true") (text "false") ++ more) = some (.boolean v, more) := by
  cases v with
  | false => rfl
  | true => rfl

def Starts (input : Bytes) : Prop :=
  ∃ first rest, input = first :: rest ∧ isBlank first = false ∧ first ≠ 93

section Arrays

variable {α : Type} {render : α → Bytes} {values : List α} {depth : Nat}

theorem readValue_nonempty (ne : values ≠ [])
    (starts : ∀ v ∈ values, Starts (render v)) (more : Bytes) :
    readValue (depth + 1) (91 :: (listed render values ++ 93 :: more)) =
      (separated (readValue depth) 93 (listed render values ++ 93 :: more).length
        (listed render values ++ 93 :: more)).map
          fun (elements, rest) => (.array elements, rest) := by
  have bracket : isBlank 91 = false := rfl
  obtain ⟨first, others, rfl⟩ := exists_cons_of_ne_nil ne
  obtain ⟨c, rest, shape, visible, other⟩ := starts first mem_cons_self
  obtain ⟨tail, inside⟩ : ∃ tail, listed render (first :: others) ++ 93 :: more = c :: tail := by
    cases others with
    | nil =>
      rw [listed_singleton, shape]
      exact ⟨_, rfl⟩
    | cons second others =>
      rw [listed_cons_cons, shape]
      exact ⟨_, rfl⟩
  rw [readValue, skipBlanks_cons bracket, tail_cons, inside, skipBlanks_cons visible]
  simp [other]

theorem readValue_listed {result : α → Json} (starts : ∀ v ∈ values, Starts (render v))
    (reads : ∀ v ∈ values, ∀ more, readValue depth (render v ++ more) = some (result v, more))
    (more : Bytes) :
    readValue (depth + 1) (91 :: (listed render values ++ 93 :: more)) =
      some (.array (values.map result), more) := by
  by_cases empty : values = []
  · rw [empty]
    rfl
  · have enough : values.length ≤ (listed render values ++ 93 :: more).length := by
      have bound : values.length ≤ (listed render values).length + 1 := length_le_succ_listed values
      rw [length_append, length_cons]
      omega
    rw [readValue_nonempty empty starts, separated_listed (by decide) rfl empty reads enough]
    rfl

theorem good_of_readValue_listed {good : α → Prop}
    {spells : Json → α → Prop} (starts : ∀ v ∈ values, Starts (render v))
    (reads : ∀ v ∈ values, ∀ more json rest,
      readValue depth (render v ++ more) = some (json, rest) → spells json v → good v ∧ rest = more)
    {more rest : Bytes} {elements : List Json}
    (read : readValue (depth + 1) (91 :: (listed render values ++ 93 :: more)) =
        some (.array elements, rest))
    (spelled : List.Forall₂ spells elements values) : (∀ v ∈ values, good v) ∧ rest = more := by
  by_cases empty : values = []
  · rw [empty] at read ⊢
    cases read
    exact ⟨nofun, rfl⟩
  · rw [readValue_nonempty empty starts] at read
    obtain ⟨⟨items, left⟩, listed, result⟩ := Option.map_eq_some_iff.mp read
    obtain ⟨same, rfl⟩ := Prod.mk.inj result
    obtain rfl := Json.array.inj same
    exact good_of_separated (by decide) rfl reads listed spelled empty

end Arrays

end Json

/-! ## Texts in UTF-8 -/

theorem isUnicode_append {first second : Bytes} (firstUnicode : isUnicode first = true)
    (secondUnicode : isUnicode second = true) : isUnicode (first ++ second) = true := by
  rw [isUnicode, ByteArray.validateUTF8_eq_true_iff] at *
  rw [toByteArray_append]
  exact firstUnicode.append secondUnicode

theorem isUnicode_of_ascii {input : Bytes} (ascii : ∀ c ∈ input, c < 128) :
    isUnicode input = true := by
  have checked : ∀ c, c < 128 → isUnicode [c] = true := by
    apply forall_byte
    decide +kernel
  induction input with
  | nil => decide +kernel
  | cons c rest ih =>
    obtain ⟨here, later⟩ := forall_mem_cons.mp ascii
    exact isUnicode_append (checked c here) (ih later)

end AutomatonCore.Interop.Ethereum
