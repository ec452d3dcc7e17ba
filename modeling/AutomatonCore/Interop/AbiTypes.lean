import AutomatonCore.Io.Decimal

/-!
# Type strings of the contract interface

The functions `get_type`, `extract_array_type` and `calculate_offset` of
`eth_helper_functions.h` work on type strings such as `uint256[3][]`.
-/

namespace AutomatonCore.Interop.Ethereum

open Io

/-- What keeps a function from returning: exceptions that are not caught, and
steps that are not defined. -/
inductive Fault where
  | invalidArgument
  | outOfRange
  /-- The exception of the JSON library for a value of another kind. -/
  | typeError
  /-- Bytes outside of an object, or never written, are read or written. -/
  | invalidAccess
  /-- A signed overflow, or a number that does not fit its new type. -/
  | undefinedArithmetic
  | unboundedRecursion
  deriving DecidableEq, Repr

abbrev Result := Except Fault

@[simp]
theorem ok_bind {α β : Type} (v : α) (next : α → Result β) :
    (Except.ok v : Result α) >>= next = next v :=
  rfl

@[simp]
theorem pure_eq_ok {α : Type} (v : α) : (pure v : Result α) = .ok v :=
  rfl

inductive AbiType where
  | empty
  | numerical
  | fixedSizeBytes
  | dynamicSizeBytes
  | string
  deriving DecidableEq, Repr

inductive AbiArrayType where
  | noArray
  | fixed
  | dynamic
  deriving DecidableEq, Repr

structure ParamType where
  str : Bytes
  sType : AbiType
  sArrayType : AbiArrayType
  arrayLen : Nat
  deriving DecidableEq, Repr

def ParamType.default : ParamType :=
  ⟨[], .empty, .noArray, 0⟩

def ParamType.inTail (t : ParamType) : Bool :=
  t.sType = .dynamicSizeBytes ∨ t.sType = .string ∨ t.sArrayType = .dynamic

/-- `std::stoi`, with an `int` of 32 bits. -/
def stoi (input : Bytes) : Result Int :=
  match strtol input with
  | none => .error .invalidArgument
  | some value =>
    if -2 ^ 31 ≤ value ∧ value < 2 ^ 31 then .ok value
    else .error .outOfRange

def positions (c : UInt8) : Nat → Bytes → List Nat
  | _, [] => []
  | start, first :: rest =>
    if first = c then start :: positions c (start + 1) rest
    else positions c (start + 1) rest

def find (c : UInt8) (start : Nat) (s : Bytes) : Option Nat :=
  (positions c start (s.drop start)).head?

/-- The positions `k1` of the last `[` from `start` on and `k2` of the first
`]` after it.  As in the source, an opening bracket at the very beginning
does not count. -/
def lastSuffix (start : Nat) (s : Bytes) : Option (Nat × Nat) :=
  let k1 := (positions 91 start (s.drop start)).getLastD 0
  if k1 = 0 then none
  else (find 93 (k1 + 1) s).map fun k2 => (k1, k2)

def elementaryType (s : Bytes) : AbiType :=
  if s = text "function" ∨ ((text "bytes").isPrefixOf s ∧ s.length > 5) ∨ s = text "address" then
    .fixedSizeBytes
  else if s = text "bytes" then .dynamicSizeBytes
  else if s = text "string" then .string
  else .numerical

def suffixLength (s : Bytes) (k1 k2 : Nat) : Result Nat :=
  if k1 < k2 - 1 then do
    let value ← stoi ((s.drop (k1 + 1)).take (k2 - k1 - 1))
    return (value % 2 ^ 32).toNat
  else return 0

/-- The recursion of `get_type`; every round drops at least one bracket, so
that the length of the string bounds their number. -/
def getTypeLoop : Nat → Bytes → Result ParamType
  | 0, s => return ⟨s, elementaryType s, .noArray, 0⟩
  | rounds + 1, s =>
    match lastSuffix 0 s with
    | none => return ⟨s, elementaryType s, .noArray, 0⟩
    | some (k1, k2) => do
      let arrayLen ← suffixLength s k1 k2
      let arrType ← getTypeLoop rounds (s.take k1)
      let arrayType :=
        if arrType.sArrayType = .dynamic ∨ arrayLen = 0 ∨ arrType.sType = .dynamicSizeBytes ∨
            arrType.sType = .string then
          AbiArrayType.dynamic
        else .fixed
      return ⟨s, arrType.sType, arrayType, arrayLen⟩

def getType (s : Bytes) : Result ParamType :=
  getTypeLoop s.length s

/-- The type of the elements; a warning is logged if there is no suffix. -/
def extractArrayType (s : Bytes) : Result ParamType :=
  match lastSuffix 1 s with
  | some (k1, k2) => getType (s.take k1 ++ s.drop (k2 + 1))
  | none => return .default

/-- The number of elements is `uint32_t` in the source. -/
def elementCount : Nat → ParamType → Nat → Result Nat
  | 0, _, _ => .error .unboundedRecursion
  | rounds + 1, t, count =>
    if t.sArrayType = .fixed then do
      let next ← extractArrayType t.str
      elementCount rounds next (count * t.arrayLen % 2 ^ 32)
    else return count

def offsetLoop : List Bytes → Nat → Result Nat
  | [], tailOffset => return tailOffset
  | param :: params, tailOffset => do
    let t ← getType param
    if t.sArrayType = .fixed then
      let count ← elementCount (t.str.length + 1) t 1
      offsetLoop params ((tailOffset + 32 * count) % 2 ^ 32)
    else offsetLoop params ((tailOffset + 32) % 2 ^ 32)

def calculateOffset (params : List Bytes) : Result Nat :=
  offsetLoop params 0

end AutomatonCore.Interop.Ethereum
