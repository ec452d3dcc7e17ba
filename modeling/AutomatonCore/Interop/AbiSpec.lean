import AutomatonCore.Library.BigEndian
import AutomatonCore.Library.HeadTail
import AutomatonCore.Interop.AbiCodec

/-!
# The contract ABI

What the encoding and the decoding are for, in terms of types and their values.
The encoding is the one of the contract ABI specification.
-/

namespace AutomatonCore.Interop.Ethereum

open Io Library

abbrev IntegerWidth := { bits : Nat // 8 ∣ bits ∧ 0 < bits ∧ bits ≤ 256 }

abbrev ByteWidth := { count : Nat // 0 < count ∧ count ≤ 32 }

abbrev ArrayLength := { count : Nat // 0 < count ∧ count < 2 ^ 31 }

inductive ContractType where
  | bool
  | uint (width : IntegerWidth)
  | int (width : IntegerWidth)
  | address
  | fixedBytes (width : ByteWidth)
  | bytes
  | string
  | array (elem : ContractType)
  | fixedArray (elem : ContractType) (length : ArrayLength)
  deriving DecidableEq

namespace ContractType

def render : ContractType → Bytes
  | bool => text "bool"
  | uint width => text "uint" ++ decimal width
  | int width => text "int" ++ decimal width
  | address => text "address"
  | fixedBytes width => text "bytes" ++ decimal width
  | bytes => text "bytes"
  | string => text "string"
  | array elem => elem.render ++ text "[" ++ text "]"
  | fixedArray elem length => elem.render ++ text "[" ++ decimal length ++ text "]"

/-- Values of the type differ in the length of their encoding. -/
def isDynamic : ContractType → Bool
  | bytes | string | array _ => true
  | fixedArray elem _ => elem.isDynamic
  | _ => false

/-- A value is well formed by its own type: numbers are in range, byte strings
and arrays of fixed length have that length. -/
def Value : ContractType → Type
  | bool => Bool
  | uint width => { number : Nat // number < 2 ^ width.1 }
  | int width =>
    { number : Int // -2 ^ (width.1 - 1) ≤ number ∧ number < 2 ^ (width.1 - 1) }
  | address => { value : Bytes // value.length = 20 }
  | fixedBytes width => { value : Bytes // value.length = width.1 }
  | bytes => Bytes
  | string => Bytes
  | array elem => List elem.Value
  | fixedArray elem length =>
    { values : List elem.Value // values.length = length.1 }

def word (number : Nat) : Bytes :=
  bigEndian 32 number

def padded (value : Bytes) : Bytes :=
  value ++ List.replicate ((32 - value.length % 32) % 32) 0

/-- Contents of dynamic size are referenced. -/
def part (type : ContractType) (encoding : Bytes) : Library.Part UInt8 :=
  if type.isDynamic then .referenced encoding else .inPlace encoding

def sequence (parts : List (Library.Part UInt8)) : Bytes :=
  headTail word 32 parts

def encoding : (type : ContractType) → type.Value → Bytes
  | bool, value => word (Bool.toNat value)
  | uint _, value => word value.1
  | int _, value => word (value.1 % 2 ^ 256).toNat
  | address, value => List.replicate 12 0 ++ value.1
  | fixedBytes _, value => padded value.1
  | bytes, value => word (List.length value) ++ padded value
  | string, value => word (List.length value) ++ padded value
  | array elem, values =>
    word (List.length values) ++
      sequence (values.map fun value => elem.part (elem.encoding value))
  | fixedArray elem _, values =>
    sequence (values.1.map fun value => elem.part (elem.encoding value))

/-- A JSON value spells a value of the type: integers are decimal strings,
byte strings are hexadecimal. -/
def Spells : (type : ContractType) → Json → type.Value → Prop
  | bool, json, value => json = .boolean value
  | uint _, json, value =>
    ∃ spelled, json = .string spelled ∧ decimalValue spelled = some (value.1 : Int)
  | int _, json, value => ∃ spelled, json = .string spelled ∧ decimalValue spelled = some value.1
  | address, json, value => ∃ spelled, json = .string spelled ∧ HexSpells spelled value.1
  | fixedBytes _, json, value => ∃ spelled, json = .string spelled ∧ HexSpells spelled value.1
  | bytes, json, value => ∃ spelled, json = .string spelled ∧ HexSpells spelled value
  | string, json, value => json = .string value
  | array elem, json, values =>
    ∃ elements, json = .array elements ∧ List.Forall₂ elem.Spells elements values
  | fixedArray elem _, json, values =>
    ∃ elements, json = .array elements ∧ List.Forall₂ elem.Spells elements values.1

/-- The JSON that `decode` writes for a value. -/
def compact : (type : ContractType) → type.Value → Bytes
  | bool, value => cond value (text "true") (text "false")
  | uint _, value => quoted (decimal value.1)
  | int _, value => quoted (decimalInt value.1)
  | address, value => quoted (bin2hex value.1)
  | fixedBytes _, value => quoted (bin2hex value.1)
  | bytes, value => quoted (bin2hex value)
  | string, value => quoted value
  | array elem, values =>
    text "[" ++ List.intercalate (text ",") (values.map elem.compact) ++ text "]"
  | fixedArray elem _, values =>
    text "[" ++ List.intercalate (text ",") (values.1.map elem.compact) ++ text "]"

end ContractType

abbrev Parameter := (type : ContractType) × type.Value

namespace Parameter

def part (parameter : Parameter) : Library.Part UInt8 :=
  parameter.1.part (parameter.1.encoding parameter.2)

def encodings (parameters : List Parameter) : Bytes :=
  ContractType.sequence (parameters.map part)

def signatures (parameters : List Parameter) : List Json :=
  parameters.map fun parameter => .string parameter.1.render

def compacts (parameters : List Parameter) : Bytes :=
  text "[" ++ List.intercalate (text ",")
        (parameters.map fun parameter => parameter.1.compact parameter.2) ++ text "]"

end Parameter

/-- What is assumed of `CryptoPP::Integer` for the encoding: decimal strings
are parsed, and numbers in range are written in two's complement. -/
structure IntegerLibrary.Encodes (lib : IntegerLibrary) : Prop where
  parse : ∀ {spelled number}, decimalValue spelled = some number → lib.parse spelled = number
  encodeUnsigned :
    ∀ {number : Nat}, number < 2 ^ 256 → lib.encode number false = bigEndian 32 number
  encodeSigned : ∀ {number : Int}, -2 ^ 255 ≤ number → number < 2 ^ 255 →
      lib.encode number true = bigEndian 32 (number % 2 ^ 256).toNat

/-- Decoding and printing are inverse to encoding and parsing; the printed
number ends with a dot. -/
structure IntegerLibrary.Decodes (lib : IntegerLibrary) : Prop where
  decodeUnsigned :
    ∀ {number : Nat}, number < 2 ^ 256 → lib.decode (lib.encode number false) false = number
  decodeSigned : ∀ {number : Int}, -2 ^ 255 ≤ number → number < 2 ^ 255 →
      lib.decode (lib.encode number true) true = number
  print : ∀ number, lib.print number = decimalInt number ++ text "."

end AutomatonCore.Interop.Ethereum
