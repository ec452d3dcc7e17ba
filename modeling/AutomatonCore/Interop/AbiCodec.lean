import AutomatonCore.Interop.AbiTypes

/-!
# Encoding and decoding of contract parameters

The functions `encode`, `decode` and their helpers of `eth_helper_functions.h`.
The JSON library and `CryptoPP::Integer` are arguments; positions are natural
numbers where the source has `size_t`.
-/

namespace AutomatonCore.Interop.Ethereum

open Io

/-- A value of the JSON library.  A number that is not an integer is known by
its integral part. -/
inductive Json where
  | null
  | boolean (value : Bool)
  | integer (value : Int)
  | real (integralPart : Int)
  | string (value : Bytes)
  | array (elements : List Json)
  | object (members : List (Bytes × Json))

/-- `CryptoPP::Integer`: the constructor from a C string, `Encode` to 32
bytes, the constructor from 32 bytes, and `operator<<`.  The flag says whether
the number is signed. -/
structure IntegerLibrary where
  parse : Bytes → Int
  encode : Int → Bool → Bytes
  decode : Bytes → Bool → Int
  print : Int → Bytes

/-! ## Words -/

def u64ToU256 (n : UInt64) : Bytes :=
  List.replicate 24 (0 : UInt8) ++ [((n >>> 56) &&& 0xFF).toUInt8, ((n >>> 48) &&& 0xFF).toUInt8,
      ((n >>> 40) &&& 0xFF).toUInt8, ((n >>> 32) &&& 0xFF).toUInt8,
      ((n >>> 24) &&& 0xFF).toUInt8, ((n >>> 16) &&& 0xFF).toUInt8,
      ((n >>> 8) &&& 0xFF).toUInt8, (n &&& 0xFF).toUInt8]

/-- A word of another length is logged and taken for zero. -/
def u256ToU64 (s : Bytes) : UInt64 :=
  if s.length ≠ 32 then 0
  else
    (List.range 8).foldl
      (fun n i => n ||| (s.getD (24 + i) 0).toUInt64 <<< UInt64.ofNat ((7 - i) * 8)) 0

def decToI256 (lib : IntegerLibrary) (isSigned : Bool) (s : Bytes) : Bytes :=
  let spelled := if s.take 2 = text "0x" then text "h" ++ s.drop 2 else s
  -- the constructor reads to the first zero byte
  lib.encode (lib.parse (spelled.takeWhile (· ≠ 0))) isSigned

def i256ToDec (lib : IntegerLibrary) (isSigned : Bool) (s : Bytes) : Result Bytes :=
  if s.length = 0 then return []
  else if s.length < 32 then .error .invalidAccess
  else return (lib.print (lib.decode (s.take 32) isSigned)).dropLast

def encodeString (byteArray : Bytes) : Bytes :=
  let remainder := byteArray.length % 32
  byteArray ++
    if remainder ≠ 0 then List.replicate (32 - remainder) 0 else []

/-! ## The buffer -/

/-- The allocated bytes; `none` where nothing was written. -/
abbrev Buffer := List (Option UInt8)

def bufferSize : Nat :=
  2048

/-- The loop of `check_and_resize_buffer`; `needed` rounds are enough. -/
def grownSize : Nat → Nat → Nat → Nat
  | 0, size, _ => size
  | rounds + 1, size, needed =>
    if needed > size then grownSize rounds (size + bufferSize) needed
    else size

def checkAndResizeBuffer (buffer : Buffer) (pos dataSize : Nat) : Buffer :=
  let newSize := grownSize (pos + dataSize) buffer.length (pos + dataSize)
  buffer ++ List.replicate (newSize - buffer.length) none

def memcpy (buffer : Buffer) (pos : Nat) (source : Bytes) (count : Nat) : Result Buffer :=
  if count ≤ source.length ∧ pos + count ≤ buffer.length then
    return buffer.take pos ++ (source.take count).map some ++ buffer.drop (pos + count)
  else .error .invalidAccess

def store (buffer : Buffer) (pos : Nat) (source : Bytes) (count : Nat) : Result Buffer :=
  memcpy (checkAndResizeBuffer buffer pos count) pos source count

def readBuffer (buffer : Buffer) (count : Nat) : Result Bytes :=
  if count ≤ buffer.length then
    match (buffer.take count).mapM id with
    | some bytes => return bytes
    | none => .error .invalidAccess
  else .error .invalidAccess

/-- The variables behind `head_pos` and `tail_pos`, which may be one. -/
inductive Cursors where
  | separate (head tail : Nat)
  | shared (position : Nat)
  deriving DecidableEq, Repr

namespace Cursors

def head : Cursors → Nat
  | separate head _ => head
  | shared position => position

def tail : Cursors → Nat
  | separate _ tail => tail
  | shared position => position

def advanceHead (cursors : Cursors) (count : Nat) : Cursors :=
  match cursors with
  | separate head tail => separate (head + count) tail
  | shared position => shared (position + count)

def setTail (cursors : Cursors) (position : Nat) : Cursors :=
  match cursors with
  | separate head _ => separate head position
  | shared _ => shared position

def advanceTail (cursors : Cursors) (count : Nat) : Cursors :=
  cursors.setTail (cursors.tail + count)

end Cursors

/-! ## Encoding -/

/-- A function of the encoder: the new buffer and the new cursors.  Where the
source logs a warning and returns, both are as they were. -/
abbrev Encoded := Result (Buffer × Cursors)

def encodeDynamicBytes (t : ParamType) (json : Json) (buffer : Buffer)
    (cursors : Cursors) : Encoded :=
  match json with
  | .string data =>
    let decoded :=
      if t.sType = .dynamicSizeBytes then hex2bin data else some data
    match decoded with
    | none => .error .invalidArgument
    | some s => do
      let lengthWord := u64ToU256 (UInt64.ofNat s.length)
      let buffer ← store buffer cursors.tail lengthWord 32
      let cursors := cursors.advanceTail 32
      let encoded := encodeString s
      let buffer ← store buffer cursors.tail encoded encoded.length
      return (buffer, cursors.advanceTail encoded.length)
  | _ => return (buffer, cursors)

def encodeFixedBytes (t : ParamType) (json : Json) (buffer : Buffer)
    (cursors : Cursors) : Encoded :=
  match json with
  | .string data =>
    match hex2bin data with
    | none => .error .invalidArgument
    | some binData =>
      if binData.length > 32 then return (buffer, cursors)
      else if t.str = text "address" then
        if binData.length ≠ 20 then return (buffer, cursors)
        else do
          let encoded := List.replicate 12 0 ++ binData
          let buffer ← store buffer cursors.head encoded 32
          return (buffer, cursors.advanceHead 32)
      else do
        let encoded := binData ++ List.replicate (32 - binData.length) 0
        let buffer ← store buffer cursors.head encoded 32
        return (buffer, cursors.advanceHead 32)
  | _ => return (buffer, cursors)

def contains (s part : Bytes) : Bool :=
  s.tails.any part.isPrefixOf

/-- The text of an integer parameter; a number is converted to `uint64_t`.
The conversion of a number that is not an integer is defined only if the
integral part fits. -/
def integerText : Json → Result (Option Bytes)
  | .integer value => return some (decimal (value % 2 ^ 64).toNat)
  | .real integralPart =>
    if 0 ≤ integralPart ∧ integralPart < 2 ^ 64 then return some (decimal integralPart.toNat)
    else .error .undefinedArithmetic
  | .string value => return some value
  | _ => return none

/-- The word of a number; `none` where the source logs a warning.  The word
of a type that is neither `bool` nor an integer stays empty. -/
def numericalWord (lib : IntegerLibrary) (t : ParamType) (json : Json) :
    Result (Option Bytes) :=
  if t.str = text "bool" then
    match json with
    | .boolean value => return some (u64ToU256 (if value then 1 else 0))
    | _ => return none
  else if contains t.str (text "int") then do
    let spelled ← integerText json
    let isSigned := t.str.head? ≠ some 117
    return spelled.map (decToI256 lib isSigned)
  else if contains t.str (text "fixed") then return none
  else return some []

def encodeNumerical (lib : IntegerLibrary) (t : ParamType) (json : Json)
    (buffer : Buffer) (cursors : Cursors) : Encoded := do
  match ← numericalWord lib t json with
  | none => return (buffer, cursors)
  | some encoded =>
    let buffer ← store buffer cursors.head encoded 32
    return (buffer, cursors.advanceHead 32)

def encodeLength (t : ParamType) (count : Nat) (buffer : Buffer) (cursors : Cursors) : Encoded :=
  if t.arrayLen = 0 then do
    let encoded := u64ToU256 (UInt64.ofNat count)
    let buffer ← store buffer cursors.tail encoded 32
    return (buffer, cursors.advanceTail 32)
  else return (buffer, cursors)

mutual

/-- A value that does not fit its type is logged, and nothing is written. -/
def encodeParam (lib : IntegerLibrary) (t : ParamType) (json : Json)
    (buffer : Buffer) (cursors : Cursors) : Encoded :=
  if t.sArrayType = .fixed then
    match json with
    | .array elements =>
      if elements.length ≠ t.arrayLen then return (buffer, cursors)
      else do
        let tp ← extractArrayType t.str
        encodeElements lib tp elements buffer cursors
    | _ => return (buffer, cursors)
  else if t.sArrayType = .dynamic then
    match json with
    | .array elements =>
      if t.arrayLen ≠ 0 ∧ elements.length ≠ t.arrayLen then return (buffer, cursors)
      else do
        let (buffer, cursors) ← encodeLength t elements.length buffer cursors
        let start := cursors.tail
        let tp ← extractArrayType t.str
        if tp.sArrayType = .fixed then
          let size ← calculateOffset [tp.str]
          let (buffer, inner) ← encodeElements lib tp elements buffer
              (.separate start (start + elements.length * size))
          return (buffer, cursors.setTail inner.tail)
        else if tp.inTail then
          let (buffer, tail) ←
            encodeReferences lib tp start elements buffer start (start + 32 * elements.length)
          return (buffer, cursors.setTail tail)
        else if tp.sType = .numerical ∨ tp.sType = .fixedSizeBytes then
          let (buffer, inner) ← encodeElements lib tp elements buffer
              (.separate start (start + 32 * elements.length))
          return (buffer, cursors.setTail inner.tail)
        else return (buffer, cursors)
    | _ => return (buffer, cursors)
  else if t.sType = .string ∨ t.sType = .dynamicSizeBytes then
    encodeDynamicBytes t json buffer cursors
  else if t.sType = .fixedSizeBytes then encodeFixedBytes t json buffer cursors
  else if t.sType = .numerical then encodeNumerical lib t json buffer cursors
  else return (buffer, cursors)

def encodeElements (lib : IntegerLibrary) (tp : ParamType)
    (elements : List Json) (buffer : Buffer) (cursors : Cursors) : Encoded :=
  match elements with
  | [] => return (buffer, cursors)
  | json :: rest => do
    let (buffer, cursors) ← encodeParam lib tp json buffer cursors
    encodeElements lib tp rest buffer cursors

/-- Elements of dynamic size: an offset in the head, the element in the
tail. -/
def encodeReferences (lib : IntegerLibrary) (tp : ParamType)
    (start : Nat) (elements : List Json) (buffer : Buffer)
    (head tail : Nat) : Result (Buffer × Nat) :=
  match elements with
  | [] => return (buffer, tail)
  | json :: rest => do
    let encoded := u64ToU256 (UInt64.ofNat (tail - start))
    let buffer ← store buffer head encoded 32
    let (buffer, cursors) ← encodeParam lib tp json buffer (.shared tail)
    encodeReferences lib tp start rest buffer (head + 32) cursors.tail

end

def encodeLoop (lib : IntegerLibrary) :
    List Bytes → List Json → Buffer → Nat → Nat → Result (Buffer × Nat)
  | signature :: signatures, json :: params, buffer, headPos, tailPos => do
    let t ← getType signature
    if t.inTail then
      let encoded := u64ToU256 (UInt64.ofNat tailPos)
      let buffer ← memcpy (checkAndResizeBuffer buffer tailPos 32) headPos encoded 32
      let (buffer, cursors) ← encodeParam lib t json buffer (.shared tailPos)
      encodeLoop lib signatures params buffer (headPos + 32) cursors.tail
    else
      let (buffer, cursors) ← encodeParam lib t json buffer (.separate headPos tailPos)
      encodeLoop lib signatures params buffer cursors.head cursors.tail
  | _, _, buffer, _, tailPos => return (buffer, tailPos)

/-- `get<std::vector<std::string>>`; `none` where it throws. -/
def stringVector : Json → Option (List Bytes)
  | .array elements =>
    elements.mapM fun
      | .string value => some value
      | _ => none
  | _ => none

/-- `parse` reads a JSON text and is `none` where the library throws.  All
exceptions of the library are caught here. -/
def encode (lib : IntegerLibrary) (parse : Bytes → Option Json)
    (signaturesJson parametersJson : Bytes) : Result Bytes :=
  match parse signaturesJson, parse parametersJson with
  | some (.array signatureValues), some (.array params) =>
    if params.length ≠ signatureValues.length then return []
    else
      match stringVector (.array signatureValues) with
      | none => return []
      | some signatures => do
        let tailPos ← calculateOffset signatures
        let (buffer, tailPos) ←
          encodeLoop lib signatures params (List.replicate bufferSize none) 0 tailPos
        readBuffer buffer tailPos
  | _, _ => return []

/-! ## Decoding -/

def substr (data : Bytes) (pos count : Nat) : Result Bytes :=
  if pos > data.length then .error .outOfRange
  else return (data.drop pos).take count

/-- `u256_to_u64`, which takes fewer than 32 bytes for zero.  With `whole` they
are refused; the decoder of the source is the one without. -/
def wordNumber (whole : Bool) (s : Bytes) : Result UInt64 :=
  if whole = true ∧ s.length ≠ 32 then .error .invalidAccess
  else return u256ToU64 s

/-- The loops over elements that stand one after the other: all but the last
one are followed by a comma.  The counter `i` is less than `limit`. -/
def decodeElements (elem : Nat → Result Bytes) (size : Result Nat)
    (limit : Nat) : Nat → Nat → Nat → Result Bytes
  | 0, _, pos => elem pos
  | rounds + 1, i, pos => do
    let first ← elem pos
    let step ← size
    if i + 1 ≥ limit then .error .undefinedArithmetic
    else
      let later ← decodeElements elem size limit rounds (i + 1) (pos + step)
      return first ++ text "," ++ later

def decodeReference (whole : Bool) (elem : Nat → Result Bytes) (data : Bytes)
    (start slot : Nat) : Result Bytes := do
  let s ← substr data slot 32
  let offset ← wordNumber whole s
  elem ((start + offset.toNat) % 2 ^ 64)

/-- The loop over elements with offsets.  The position of the next offset is
computed with 32 bits, that of the last one with 64 bits. -/
def decodeReferences (whole : Bool) (elem : Nat → Result Bytes) (data : Bytes)
    (start : Nat) (len : Int) : Nat → Nat → Result Bytes
  | 0, _ =>
    let distance := 32 * (len - 1)
    if -2 ^ 63 ≤ distance ∧ distance < 2 ^ 63 then
      decodeReference whole elem data start ((start + distance) % 2 ^ 64).toNat
    else .error .undefinedArithmetic
  | rounds + 1, i =>
    if 32 * (i - 1) ≥ 2 ^ 31 then .error .undefinedArithmetic
    else do
      let first ← decodeReference whole elem data start (start + 32 * (i - 1))
      let later ← decodeReferences whole elem data start len rounds (i + 1)
      return first ++ text "," ++ later

/-- The number of elements, where it is not part of the type, and the position
of the first one. -/
def decodeLength (whole : Bool) (t : ParamType) (data : Bytes) (pos : Nat) : Result (Int × Nat) :=
  if t.arrayLen = 0 then do
    let s ← substr data pos 32
    let len ← wordNumber whole s
    return (len.toInt64.toInt, pos + 32)
  else return (t.arrayLen, pos)

def quoted (s : Bytes) : Bytes :=
  text "\"" ++ s ++ text "\""

/-- The number of bytes of `function` and `bytes<M>`; other types count as 32
bytes.  The number is read by `std::stoul` and stored with 32 bits. -/
def fixedBytesSize (str : Bytes) : Result Nat :=
  let digits := str.drop 5
  if str = text "function" then return 24
  else if (text "bytes").isPrefixOf str ∧ digits ≠ [] ∧ digits.all isDigit then
    if digitsValue digits < 2 ^ 64 then return digitsValue digits % 2 ^ 32
    else .error .outOfRange
  else return 32

def decodeElementary (whole : Bool) (lib : IntegerLibrary) (t : ParamType)
    (data : Bytes) (pos : Nat) : Result Bytes :=
  if t.sType = .dynamicSizeBytes ∨ t.sType = .string then do
    let s ← substr data pos 32
    let len ← wordNumber whole s
    let res ← substr data (pos + 32) len.toNat
    return quoted (if t.sType = .string then res else bin2hex res)
  else if t.sType = .numerical then do
    let res ← substr data pos 32
    if t.str = text "bool" then
      let k ← wordNumber whole res
      return if k > 0 then text "true" else text "false"
    else if contains t.str (text "int") then
      let isSigned := t.str.head? ≠ some 117
      return quoted (← i256ToDec lib isSigned res)
    else if contains t.str (text "fixed") then return quoted []
    else return []
  else if t.sType = .fixedSizeBytes then
    if t.str = text "address" then do
      let res ← substr data pos 32
      return quoted (bin2hex (← substr res 12 20))
    else do
      let size ← fixedBytesSize t.str
      return quoted (bin2hex (← substr data pos size))
  else return []

/-- The depth bounds the recursion, which the text of a type that the source
accepts always ends. -/
def decodeParam (whole : Bool) (lib : IntegerLibrary) (data : Bytes) :
    Nat → ParamType → Nat → Result Bytes
  | 0, _, _ => .error .unboundedRecursion
  | depth + 1, t, pos =>
    if t.sArrayType = .fixed then do
      let tp ← extractArrayType t.str
      let elem := decodeParam whole lib data depth tp
      let rounds := t.arrayLen - 1
      if tp.sArrayType = .fixed then
        let body ← decodeElements elem (calculateOffset [tp.str]) (2 ^ 32) rounds 1 pos
        return text "[" ++ body ++ text "]"
      else if tp.sType = .numerical ∨ tp.sType = .fixedSizeBytes then
        let body ← decodeElements elem (return 32) (2 ^ 32) rounds 1 pos
        return text "[" ++ body ++ text "]"
      else return text "[]"
    else if t.sArrayType = .dynamic then do
      let (len, pos) ← decodeLength whole t data pos
      if len = 0 then return text "[]"
      else
        let tp ← extractArrayType t.str
        let elem := decodeParam whole lib data depth tp
        let rounds := (len - 1).toNat
        if tp.sArrayType = .noArray ∧ (tp.sType = .numerical ∨ tp.sType = .fixedSizeBytes) then
          let body ← decodeElements elem (return 32) (2 ^ 31) rounds 1 pos
          return text "[" ++ body ++ text "]"
        else if tp.sArrayType = .fixed then
          let body ← decodeElements elem (calculateOffset [tp.str]) (2 ^ 31) rounds 1 pos
          return text "[" ++ body ++ text "]"
        else if tp.inTail then
          let body ← decodeReferences whole elem data pos len rounds 1
          return text "[" ++ body ++ text "]"
        else return []
    else decodeElementary whole lib t data pos

def Json.items : Json → List Json
  | .null => []
  | .array elements => elements
  | .object members => members.map Prod.snd
  | value => [value]

def Json.getString : Json → Result Bytes
  | .string value => return value
  | _ => .error .typeError

def decodeHead (whole : Bool) (lib : IntegerLibrary) (data : Bytes)
    (t : ParamType) (pos : Nat) : Result Bytes :=
  let elem := decodeParam whole lib data (t.str.length + 2) t
  if t.inTail then decodeReference whole elem data 0 pos
  else elem pos

def headSize (t : ParamType) : Result Nat :=
  if t.sArrayType = .fixed then calculateOffset [t.str] else pure 32

def decodeLoop (whole : Bool) (lib : IntegerLibrary) (data : Bytes) :
    List Json → Nat → Result Bytes
  | [], _ => return []
  | json :: rest, pos => do
    let signature ← json.getString
    let t ← getType signature
    let value ← decodeHead whole lib data t pos
    let size ← headSize t
    let later ← decodeLoop whole lib data rest (pos + size)
    return value ++ (if rest.isEmpty then [] else text ",") ++ later

/-- The parameters one after the other, each from its head. -/
def decodeWith (whole : Bool) (lib : IntegerLibrary) (parse : Bytes → Option Json)
    (signaturesJson data : Bytes) : Result Bytes :=
  match parse signaturesJson with
  | none => return []
  | some signatures => do
    let body ← decodeLoop whole lib data signatures.items 0
    return text "[" ++ body ++ text "]"

def decode : IntegerLibrary → (Bytes → Option Json) → Bytes → Bytes → Result Bytes :=
  decodeWith false

end AutomatonCore.Interop.Ethereum
