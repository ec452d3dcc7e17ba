import AutomatonCore.Interop.AbiRecognition

/-!
# Encoding values that need not fit
-/

namespace AutomatonCore.Interop.Ethereum

open Io Library List

/-- What is assumed of `CryptoPP::Integer`: decimal strings are parsed, and
`Encode` writes the last 32 bytes of the magnitude, or of the two's
complement if the number is signed. -/
structure IntegerLibrary.Truncates (lib : IntegerLibrary) : Prop where
  parse : ∀ {spelled number}, decimalValue spelled = some number → lib.parse spelled = number
  encodeUnsigned : ∀ number : Int, lib.encode number false = bigEndian 32 number.natAbs
  encodeSigned : ∀ number : Int, lib.encode number true = bigEndian 32 (number % 2 ^ 256).toNat

theorem IntegerLibrary.Truncates.encodes {lib : IntegerLibrary}
    (truncates : lib.Truncates) : lib.Encodes where
  parse := truncates.parse
  encodeUnsigned {n} _ := truncates.encodeUnsigned n
  encodeSigned {n} _ _ := truncates.encodeSigned n

/-- The number that a JSON value is taken for. -/
def Json.number (lib : IntegerLibrary) : Json → Option Int
  | .integer value => some (value % 2 ^ 64)
  | .real integralPart =>
    if 0 ≤ integralPart ∧ integralPart < 2 ^ 64 then some integralPart
    else none
  | .string s =>
    let spelled := if s.take 2 = text "0x" then text "h" ++ s.drop 2 else s
    some (lib.parse (spelled.takeWhile (· ≠ 0)))
  | _ => none

namespace ContractType

/-- A JSON value fits a value of the type.  Numbers count modulo the range of
32 bytes, and byte strings of fixed length without zeros at their end. -/
def Fits (lib : IntegerLibrary) : (type : ContractType) → Json → type.Value → Prop
  | bool, json, value => json = .boolean value
  | uint _, json, value =>
    ∃ number, json.number lib = some number ∧ number.natAbs % 2 ^ 256 = value.1
  | int _, json, value =>
    ∃ number, json.number lib = some number ∧ number % 2 ^ 256 = value.1 % 2 ^ 256
  | address, json, value => ∃ spelled, json = .string spelled ∧ hex2bin spelled = some value.1
  | fixedBytes _, json, value =>
    ∃ spelled content, json = .string spelled ∧ hex2bin spelled = some content ∧
        content.length ≤ 32 ∧ content ++ List.replicate (32 - content.length) 0 =
            value.1 ++ List.replicate (32 - value.1.length) 0
  | bytes, json, value => ∃ spelled, json = .string spelled ∧ hex2bin spelled = some value
  | string, json, value => json = .string value
  | array element, json, values =>
    ∃ elements, json = .array elements ∧ List.Forall₂ (element.Fits lib) elements values
  | fixedArray element _, json, values =>
    ∃ elements, json = .array elements ∧ List.Forall₂ (element.Fits lib) elements values.1

variable {lib : IntegerLibrary}

theorem numericalWord_iff (encodes : lib.Encodes) {t : ParamType}
    {isSigned : Bool} (integral : t.Integral isSigned) (json : Json) (encoded : Bytes) :
    numericalWord lib t json = .ok (some encoded) ↔ ∃ n,
      json.number lib = some n ∧ lib.encode n isSigned = encoded := by
  have printed (n : Nat) : decToI256 lib isSigned (decimal n) = lib.encode n isSigned := by
    have v := decimalValue_decimalInt n
    exact decToI256_decimal encodes v isSigned
  simp only [numericalWord, if_neg integral.notBool, integral.isInt, if_true, integral.sign]
  cases json with
  | integer v =>
    have natural : ((v % 2 ^ 64).toNat : Int) = v % 2 ^ 64 := by omega
    simp only [integerText, Json.number, pure_eq_ok, ok_bind,
      Option.map_some, printed, natural, Except.ok.injEq, Option.some.injEq, exists_eq_left']
  | real integralPart =>
    simp only [integerText, Json.number]
    split
    · have natural : (integralPart.toNat : Int) = integralPart := by omega
      simp [printed, natural]
    · simp [bind, Except.bind]
  | string s => simp [integerText, Json.number, decToI256]
  | _ => simp [integerText, Json.number]

variable {json : Json}

theorem reads_uint_iff (truncates : lib.Truncates)
    (width : IntegerWidth) {v : (uint width).Value} :
    (uint width).Reads lib json v ↔ (uint width).Fits lib json v := by
  have small : v.1 % 256 ^ 32 = v.1 := Nat.mod_eq_of_lt ((uint_lt v).trans_eq (by norm_num))
  have same (n : Int) : lib.encode n false = word v.1 ↔ n.natAbs % 2 ^ 256 = v.1 := by
    rw [truncates.encodeUnsigned, word, bigEndian_eq_iff, small]
    norm_num
  refine (numericalWord_iff truncates.encodes (integral_uint width) json _).trans ?_
  exact exists_congr fun n => and_congr_right fun _ => same n

theorem reads_int_iff (truncates : lib.Truncates)
    (width : IntegerWidth) {v : (int width).Value} :
    (int width).Reads lib json v ↔ (int width).Fits lib json v := by
  have same (n : Int) :
      lib.encode n true = word (v.1 % 2 ^ 256).toNat ↔ n % 2 ^ 256 = v.1 % 2 ^ 256 := by
    rw [truncates.encodeSigned, word, bigEndian_eq_iff]
    omega
  refine (numericalWord_iff truncates.encodes (integral_int width) json _).trans ?_
  exact exists_congr fun n => and_congr_right fun _ => same n

theorem reads_bool_iff {v : bool.Value} : bool.Reads lib json v ↔ bool.Fits lib json v := by
  have isBool : bool.paramType.str = text "bool" := rfl
  constructor
  · intro reads
    cases json with
    | boolean given =>
      have words : word given.toNat = word (Bool.toNat v) := by
        rw [Reads, numericalWord_bool] at reads
        exact Option.some.inj (Except.ok.inj reads)
      have small (flag : Bool) : flag.toNat < 2 ^ 256 := by cases flag <;> decide
      have numbers := word_injective (small given) (small v) words
      have equal : given = v := by
        revert numbers
        cases given <;> cases v <;> decide
      exact congrArg Json.boolean equal
    | _ => cases reads
  · rintro rfl
    exact numericalWord_bool v

theorem reads_address_iff {value : address.Value} :
    address.Reads lib json value ↔ address.Fits lib json value := by
  constructor
  · intro reads
    cases json with
    | string spelled =>
      refine ⟨spelled, rfl, ?_⟩
      simp only [Reads, fixedBytesWord, if_true] at reads
      split at reads
      · cases reads
      next content decoded =>
        split at reads
        · cases reads
        · split at reads
          · cases reads
          · have cells := Option.some.inj (Except.ok.inj reads)
            exact decoded.trans (congrArg some (append_cancel_left cells))
    | _ => cases reads
  · rintro ⟨spelled, rfl, decoded⟩
    simp only [Reads, fixedBytesWord, decoded, value.2]
    rfl

theorem reads_fixedBytes_iff (width : ByteWidth) {v : (fixedBytes width).Value} :
    (fixedBytes width).Reads lib json v ↔ (fixedBytes width).Fits lib json v := by
  have size := v.2
  have encoded : (fixedBytes width).encoding v = v.1 ++ List.replicate (32 - v.1.length) 0 := by
    have zeros : (32 - v.1.length % 32) % 32 = 32 - v.1.length := by omega
    rw [encoding, padded, zeros]
  rw [Reads, encoded]
  constructor
  · intro reads
    cases json with
    | string spelled =>
      simp only [fixedBytesWord] at reads
      split at reads
      · cases reads
      next content decoded =>
        split at reads
        · cases reads
        next short =>
          exact ⟨spelled, content, rfl, decoded, not_lt.mp short,
              Option.some.inj (Except.ok.inj reads)⟩
    | _ => cases reads
  · rintro ⟨spelled, content, rfl, decoded, short, same⟩
    simp only [fixedBytesWord, decoded, if_neg (not_lt.mpr short), same]
    rfl

theorem reads_iff_fits (truncates : lib.Truncates) (type : ContractType) {v : type.Value} :
    type.Reads lib json v ↔ type.Fits lib json v := by
  induction type generalizing json with
  | bool => exact reads_bool_iff
  | uint width => exact reads_uint_iff truncates width
  | int width => exact reads_int_iff truncates width
  | address => exact reads_address_iff
  | fixedBytes width => exact reads_fixedBytes_iff width
  | bytes => exact Iff.rfl
  | string => exact Iff.rfl
  | array elem ih =>
    refine exists_congr fun elements => and_congr_right fun _ => ?_
    exact ⟨fun all => all.imp fun _ _ => ih.mp, fun all => all.imp fun _ _ => ih.mpr⟩
  | fixedArray elem length ih =>
    refine exists_congr fun elements => and_congr_right fun _ => ?_
    exact ⟨fun all => all.imp fun _ _ => ih.mp, fun all => all.imp fun _ _ => ih.mpr⟩

/-! ## Types whose sizes fit into 32 bits -/

/-- The size of the elements of every array fits into 32 bits. -/
def Unwrapped : ContractType → Prop
  | array element => 32 * element.headWords < 2 ^ 32 ∧ element.Unwrapped
  | fixedArray element _ => element.Unwrapped
  | _ => True

/-- `calculate_offset` does not wrap around for the types. -/
def Addressable (types : List ContractType) : Prop :=
  headSpace types < 2 ^ 32 ∧ ∀ type ∈ types, type.Unwrapped

theorem makesWord_of_truncates (truncates : lib.Truncates)
    {t : ParamType} {isSigned : Bool} (integral : t.Integral isSigned)
    (json : Json) : MakesWord lib t json := by
  intro encoded made
  obtain ⟨n, _, rfl⟩ := (numericalWord_iff truncates.encodes integral json _).mp made
  cases isSigned
  · rw [truncates.encodeUnsigned]
    exact length_bigEndian 32 _
  · rw [truncates.encodeSigned]
    exact length_bigEndian 32 _

theorem Unwrapped.regular (truncates : lib.Truncates)
    {type : ContractType} (unwrapped : type.Unwrapped) (json : Json) :
    type.Regular lib json := by
  induction type generalizing json with
  | uint width => exact makesWord_of_truncates truncates (integral_uint width) json
  | int width => exact makesWord_of_truncates truncates (integral_int width) json
  | array elem ih =>
    cases json with
    | array elements => exact ⟨.inr unwrapped.1, fun json _ => ih unwrapped.2 json⟩
    | _ => trivial
  | fixedArray elem length ih =>
    cases json with
    | array elements => exact fun json _ => ih unwrapped json
    | _ => trivial
  | _ => trivial

theorem Addressable.allRegular (truncates : lib.Truncates)
    {types : List ContractType} (addressable : Addressable types)
    {params : List Json} (count : params.length = types.length) :
    AllRegular lib types params := by
  have each := addressable.2
  clear addressable
  induction types generalizing params with
  | nil =>
    obtain rfl : params = [] := length_eq_zero_iff.mp count
    exact .nil
  | cons type types ih =>
    cases params with
    | nil => cases count
    | cons json params =>
      rw [forall_mem_cons] at each
      refine .cons (each.1.regular truncates json) ?_
      exact ih (by simpa using count) each.2

end ContractType

/-- Nothing is returned, or else the encoding of parameters of the types. -/
def Acceptable (types : List ContractType) (result : Result Bytes) : Prop :=
  result = .ok [] ∨ ∃ parameters : List Parameter, parameters.map Sigma.fst = types ∧
    result = .ok (Parameter.encodings parameters)

/-- The JSON values are values of the types. -/
def Parameter.Fit (lib : IntegerLibrary) (types : List ContractType)
    (params : List Json) : Prop :=
  ∃ parameters : List Parameter, parameters.map Sigma.fst = types ∧
      List.Forall₂ (fun json parameter => parameter.1.Fits lib json parameter.2)
        params parameters

theorem readAs_iff_forall₂_fits {lib : IntegerLibrary}
    (truncates : lib.Truncates) {params : List Json}
    {parameters : List Parameter} :
    Parameter.ReadAs lib params parameters ↔
      List.Forall₂ (fun json (param : Parameter) => param.1.Fits lib json param.2)
        params parameters := by
  constructor
  · intro read
    exact List.Forall₂.imp (fun _ (param : Parameter) => (param.1.reads_iff_fits truncates).mp) read
  · intro fits
    exact List.Forall₂.imp (fun _ (param : Parameter) => (param.1.reads_iff_fits truncates).mpr)
        fits

section IllTyped

variable {lib : IntegerLibrary} {parse : Bytes → Option Json}
  {signaturesJson parametersJson : Bytes} {types : List ContractType}
  {params : List Json}

/-- If one of the values does not fit, only a warning is logged, and what is
returned is not an encoding. -/
theorem fit_of_acceptable (truncates : lib.Truncates)
    (signatures : parse signaturesJson = some (.array (types.map fun type => .string type.render)))
    (values : parse parametersJson = some (.array params)) (count : params.length = types.length)
    (addressable : ContractType.Addressable types)
    (short : ∀ result, encode lib parse signaturesJson parametersJson = .ok result →
        result.length < 2 ^ 64)
    (acceptable : Acceptable types (encode lib parse signaturesJson parametersJson)) :
    Parameter.Fit lib types params := by
  have regular := addressable.allRegular truncates count
  have encoded := encode_eq_layout signatures values regular addressable.1
  cases drawn : ContractType.images lib types params with
  | error fault =>
    rw [encoded, drawn] at acceptable
    rcases acceptable with empty | ⟨parameters, _, result⟩
    · cases empty
    · cases result
  | ok contents =>
    rw [drawn, ok_bind] at encoded
    rcases acceptable with empty | ⟨parameters, rfl, result⟩
    · -- a type has at least one word among the heads
      rw [empty, eq_comm, readCells_eq_ok] at encoded
      have length := congrArg List.length encoded
      rw [ContractType.length_layout
        (ContractType.headsLength_le_headSpace regular drawn)] at length
      cases types with
      | nil =>
        obtain rfl : params = [] := length_eq_zero_iff.mp count
        exact ⟨[], rfl, .nil⟩
      | cons type types =>
        have words := type.headWords_pos
        simp [ContractType.headSpace] at length
        omega
    · have small := short _ result
      rw [result, eq_comm, readCells_eq_ok] at encoded
      have read := Parameter.readAs_of_layout regular drawn encoded small
      exact ⟨parameters, rfl, (readAs_iff_forall₂_fits truncates).mp read⟩

theorem acceptable_of_fit (truncates : lib.Truncates)
    (signatures : parse signaturesJson = some (.array (types.map fun type => .string type.render)))
    (values : parse parametersJson = some (.array params))
    (addressable : ContractType.Addressable types)
    (short : ∀ result, encode lib parse signaturesJson parametersJson = .ok result →
        result.length < 2 ^ 64) (fit : Parameter.Fit lib types params) :
    Acceptable types (encode lib parse signaturesJson parametersJson) := by
  obtain ⟨parameters, rfl, fits⟩ := fit
  have read := (readAs_iff_forall₂_fits truncates).mpr fits
  have count : params.length = (parameters.map Sigma.fst).length := by
    rw [length_map, fits.length_eq]
  have regular := addressable.allRegular truncates count
  rw [← Parameter.signatures_eq] at signatures
  obtain ⟨result, encoded, resembles⟩ :=
    Parameter.encode_of_readAs signatures values read regular addressable.1
  have small := short result encoded
  rw [resembles.1] at small
  exact .inr ⟨parameters, rfl, by rw [encoded, resembles.2 small]⟩

/-- What `encode` returns is acceptable exactly if the values fit. -/
theorem acceptable_iff_fit (truncates : lib.Truncates)
    (signatures : parse signaturesJson = some (.array (types.map fun type => .string type.render)))
    (values : parse parametersJson = some (.array params)) (count : params.length = types.length)
    (addressable : ContractType.Addressable types)
    (short : ∀ result, encode lib parse signaturesJson parametersJson = .ok result →
        result.length < 2 ^ 64) :
    Acceptable types
        (encode lib parse signaturesJson parametersJson) ↔ Parameter.Fit lib types params :=
  ⟨fit_of_acceptable truncates signatures values count addressable short,
    acceptable_of_fit truncates signatures values addressable short⟩

end IllTyped

def truncatingLibrary : IntegerLibrary where
  parse := referenceLibrary.parse
  encode number isSigned :=
    bigEndian 32 (if isSigned then (number % 2 ^ 256).toNat else number.natAbs)
  decode := referenceLibrary.decode
  print := referenceLibrary.print

theorem truncatingLibrary_truncates : truncatingLibrary.Truncates where
  parse := referenceLibrary_encodes.parse
  encodeUnsigned _ := rfl
  encodeSigned _ := rfl

theorem exampleJson_fits :
    Parameter.Fit truncatingLibrary (exampleParameters.map Sigma.fst) exampleJson := by
  refine ⟨exampleParameters, rfl, ?_⟩
  refine .cons ⟨_, rfl, .cons ⟨_, rfl, .cons ?_ (.cons ?_ .nil)⟩ .nil⟩ (.cons rfl .nil)
  · exact ⟨1, rfl, rfl⟩
  · exact ⟨255, rfl, rfl⟩

theorem acceptable_exampleParameters :
    Acceptable (exampleParameters.map Sigma.fst)
      (encode truncatingLibrary exampleParse (text "s") (text "p")) := by
  have addressable : ContractType.Addressable (exampleParameters.map Sigma.fst) := by
    refine ⟨by decide, ?_⟩
    simp [exampleParameters, exampleArray, ContractType.Unwrapped, ContractType.headWords,
      ContractType.isDynamic]
  have short (result : Bytes)
      (encoded : encode truncatingLibrary exampleParse (text "s") (text "p") =
          .ok result) : result.length < 2 ^ 64 := by
    have bound := exampleParameters_short.trans (show 2 ^ 31 < 2 ^ 32 by decide)
    rw [Parameter.encode_of_spelled truncatingLibrary_truncates.encodes rfl rfl
      exampleJson_spelled bound] at encoded
    cases encoded
    omega
  exact (acceptable_iff_fit truncatingLibrary_truncates rfl rfl rfl addressable
      short).mpr exampleJson_fits

def singleParse (signature : Bytes) (json : Json) (input : Bytes) : Option Json :=
  if input = text "s" then some (.array [.string signature])
  else some (.array [json])

/-- Nothing for a number: bytes are returned that were never written.  A
number for a string: only the offset of a string is returned.  No digits for
bytes: an exception leaves `encode`. -/
theorem unwritten_bytes_returned :
    ¬ Acceptable [.uint ⟨8, by decide⟩]
          (encode truncatingLibrary (singleParse (text "uint8") .null) (text "s") (text "p")) ∧
      encode truncatingLibrary (singleParse (text "uint8") .null) (text "s") (text "p") =
        .error .invalidAccess ∧
      encode truncatingLibrary (singleParse (text "string") (.integer 5)) (text "s") (text "p") =
        .ok (ContractType.word 32) ∧
      encode truncatingLibrary (singleParse (text "bytes") (.string (text "zz"))) (text "s")
          (text "p") = .error .invalidArgument := by
  have unwritten : encode truncatingLibrary (singleParse (text "uint8") .null) (text "s")
          (text "p") = .error .invalidAccess := by
    decide +kernel
  refine ⟨?_, unwritten, by decide +kernel, by decide +kernel⟩
  rw [unwritten]
  rintro (empty | ⟨parameters, _, result⟩)
  · cases empty
  · cases result

end AutomatonCore.Interop.Ethereum
