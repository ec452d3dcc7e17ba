import AutomatonCore.Interop.AbiDecoding
import AutomatonCore.Interop.JsonText
import AutomatonCore.Io.HexNumbers

/-!
# The JSON that the decoder writes
-/

namespace AutomatonCore.Interop.Ethereum

open Io List
open Json (readValue read_eq_some Starts)

/-! ## Values and their JSON -/

inductive Json.Simple : Json → Prop
  | boolean (value : Bool) : Simple (.boolean value)
  | string (value : Bytes) : Simple (.string value)
  | array {elements : List Json}
      (simple : ∀ element ∈ elements, Simple element) : Simple (.array elements)

/-- What is assumed of the JSON library: it reads arrays of strings and
booleans, of any nesting, as JSON says. -/
def ReadsJson (parse : Bytes → Option Json) : Prop :=
  ∀ {input value}, Json.read input = some value → value.Simple → parse input = some value

namespace ContractType

/-- The strings in a value, which the decoder puts between quotation marks as
they are. -/
def strings : (type : ContractType) → type.Value → List Bytes
  | string, value => [value]
  | array element, values => List.flatMap element.strings values
  | fixedArray element _, values => values.1.flatMap element.strings
  | _, _ => []

def toJson : (type : ContractType) → type.Value → Json
  | bool, value => .boolean value
  | uint _, value => .string (decimal value.1)
  | int _, value => .string (decimalInt value.1)
  | address, value => .string (bin2hex value.1)
  | fixedBytes _, value => .string (bin2hex value.1)
  | bytes, value => .string (bin2hex value)
  | string, value => .string value
  | array element, values => .array (List.map element.toJson values)
  | fixedArray element _, values => .array (values.1.map element.toJson)

theorem forall₂_map_left {α β : Type} {relation : β → α → Prop} {f : α → β}
    {values : List α} (related : ∀ v ∈ values, relation (f v) v) :
    List.Forall₂ relation (values.map f) values := by
  rw [forall₂_map_left_iff, forall₂_same]
  exact related

theorem spells_toJson (type : ContractType) (v : type.Value) : type.Spells (type.toJson v) v := by
  induction type with
  | bool => exact rfl
  | uint width => exact ⟨_, rfl, decimalValue_decimalInt v.1⟩
  | int width => exact ⟨_, rfl, decimalValue_decimalInt v.1⟩
  | address => exact ⟨_, rfl, hexSpells_bin2hex v.1⟩
  | fixedBytes width => exact ⟨_, rfl, hexSpells_bin2hex v.1⟩
  | bytes => exact ⟨_, rfl, hexSpells_bin2hex v⟩
  | string => exact rfl
  | array elem ih => exact ⟨_, rfl, forall₂_map_left fun v _ => ih v⟩
  | fixedArray elem length ih => exact ⟨_, rfl, forall₂_map_left fun v _ => ih v⟩

theorem simple_map {α : Type} {f : α → Json} {values : List α} (simple : ∀ v, (f v).Simple) :
    (Json.array (values.map f)).Simple := by
  refine .array fun elem mem => ?_
  obtain ⟨v, -, rfl⟩ := mem_map.mp mem
  exact simple v

theorem simple_toJson (type : ContractType) (v : type.Value) : (type.toJson v).Simple := by
  induction type with
  | bool => exact .boolean v
  | uint width => exact .string _
  | int width => exact .string _
  | address => exact .string _
  | fixedBytes width => exact .string _
  | bytes => exact .string _
  | string => exact .string _
  | array elem ih => exact simple_map ih
  | fixedArray elem length ih => exact simple_map ih

/-! ## What the decoder writes -/

def Legible (value : Bytes) : Prop :=
  ∀ c ∈ value, (c ≠ 34 ∧ c ≠ 92 ∧ 32 ≤ c) ∧ c < 128

variable {v more rest : Bytes} {depth : Nat}

theorem Legible.unescaped (legible : Legible v) : Unescaped v := fun c mem => (legible c mem).1

theorem legible_of_hexDigits (digits : ∀ c ∈ v, isHexDigit c = true) : Legible v := by
  have checked : ∀ c : UInt8, isHexDigit c = true → (c ≠ 34 ∧ c ≠ 92 ∧ 32 ≤ c) ∧ c < 128 := by
    apply forall_byte
    decide +kernel
  exact fun c mem => checked c (digits c mem)

theorem legible_bin2hex (v : Bytes) : Legible (bin2hex v) :=
  legible_of_hexDigits fun _ mem => isHexDigit_of_mem_spells (hexSpells_bin2hex v) mem

theorem legible_decimal (n : Nat) : Legible (decimal n) := by
  have checked : ∀ c : UInt8, isDigit c = true → isHexDigit c = true := by
    apply forall_byte
    decide +kernel
  exact legible_of_hexDigits fun c mem => checked c (isDigit_of_mem_decimal mem)

theorem legible_decimalInt (n : Int) : Legible (decimalInt n) := by
  unfold decimalInt
  split
  · exact forall_mem_cons.mpr ⟨by decide, legible_decimal _⟩
  · exact legible_decimal _

theorem quoted_append (v more : Bytes) : quoted v ++ more = 34 :: (v ++ 34 :: more) := by
  simp [quoted, text]
  decide

theorem bracketed_append {α : Type} (render : α → Bytes) (values : List α) (more : Bytes) :
    text "[" ++ intercalate (text ",") (values.map render) ++ text "]" ++
        more = 91 :: (listed render values ++ 93 :: more) := by
  have comma : text "," = [44] := rfl
  have close : text "]" = [93] := rfl
  rw [append_assoc]
  rfl

theorem length_bracketed {α : Type} (render : α → Bytes) (values : List α) :
    (text "[" ++ intercalate (text ",") (values.map render) ++
        text "]").length = (listed render values).length + 2 := by
  rw [← append_nil (text "[" ++ _ ++ text "]"), bracketed_append, length_cons, length_append]
  rfl

theorem starts_quoted (v : Bytes) : Starts (quoted v) := ⟨34, v ++ [34], rfl, rfl, by decide⟩

theorem starts_compact (type : ContractType) (v : type.Value) : Starts (type.compact v) := by
  cases type with
  | bool =>
    cases v with
    | false => exact ⟨_, _, rfl, rfl, by decide⟩
    | true => exact ⟨_, _, rfl, rfl, by decide⟩
  | uint width => exact starts_quoted _
  | int width => exact starts_quoted _
  | address => exact starts_quoted _
  | fixedBytes width => exact starts_quoted _
  | bytes => exact starts_quoted _
  | string => exact starts_quoted _
  | array elem => exact ⟨91, _, rfl, rfl, by decide⟩
  | fixedArray elem length => exact ⟨91, _, rfl, rfl, by decide⟩

/-! ## Reading it -/

theorem readValue_quoted (unescaped : Unescaped v)
    (enough : (quoted v).length ≤ depth) (more : Bytes) :
    readValue depth (quoted v ++ more) = some (.string v, more) := by
  cases depth with
  | zero => cases (Nat.le_add_left _ _).trans enough
  | succ depth =>
    rw [quoted_append]
    exact (Json.readValue_literal depth v more more).mpr ⟨unescaped, rfl⟩

theorem readValue_bool (v : Bool) (enough : (compact .bool v).length ≤ depth) (more : Bytes) :
    readValue depth (compact .bool v ++ more) = some (.boolean v, more) := by
  cases depth with
  | zero =>
    cases v with
    | false => cases enough
    | true => cases enough
  | succ depth => exact Json.readValue_boolean depth v more

theorem readValue_bracketed {α : Type} {render : α → Bytes}
    {result : α → Json} {values : List α} (starts : ∀ v ∈ values, Starts (render v))
    (reads : ∀ v ∈ values, ∀ {depth}, (render v).length ≤ depth →
      ∀ more, readValue depth (render v ++ more) = some (result v, more))
    (enough : (text "[" ++ intercalate (text ",") (values.map render) ++ text "]").length ≤ depth)
    (more : Bytes) :
    readValue depth (text "[" ++ intercalate (text ",") (values.map render) ++
          text "]" ++ more) = some (.array (values.map result), more) := by
  rw [length_bracketed] at enough
  cases depth with
  | zero => omega
  | succ depth =>
    rw [bracketed_append]
    refine Json.readValue_listed starts (fun v mem more => ?_) more
    have short : (render v).length ≤ (listed render values).length := length_le_listed mem
    exact reads v mem (by omega) more

theorem readValue_compact (type : ContractType) (v : type.Value)
    (unescaped : ∀ part ∈ type.strings v, Unescaped part)
    (enough : (type.compact v).length ≤ depth) (more : Bytes) :
    readValue depth (type.compact v ++ more) = some (type.toJson v, more) := by
  induction type generalizing depth more with
  | bool => exact readValue_bool v enough more
  | uint width => exact readValue_quoted (legible_decimal _).unescaped enough more
  | int width => exact readValue_quoted (legible_decimalInt _).unescaped enough more
  | address => exact readValue_quoted (legible_bin2hex _).unescaped enough more
  | fixedBytes width => exact readValue_quoted (legible_bin2hex _).unescaped enough more
  | bytes => exact readValue_quoted (legible_bin2hex _).unescaped enough more
  | string => exact readValue_quoted (unescaped v (mem_singleton_self _)) enough more
  | array elem ih =>
    refine readValue_bracketed (fun v _ => elem.starts_compact v) (fun v mem _ => ?_) enough more
    exact ih v fun part inside => unescaped part (mem_flatMap.mpr ⟨v, mem, inside⟩)
  | fixedArray elem length ih =>
    refine readValue_bracketed (fun v _ => elem.starts_compact v) (fun v mem _ => ?_) enough more
    exact ih v fun part inside => unescaped part (mem_flatMap.mpr ⟨v, mem, inside⟩)

theorem ends_of_quoted (unescaped : Unescaped v) {json : Json}
    (read : readValue depth (quoted v ++ more) = some (json, rest)) : rest = more := by
  cases depth with
  | zero => cases read
  | succ depth =>
    rw [quoted_append, (Json.readValue_literal depth v more more).mpr ⟨unescaped, rfl⟩] at read
    exact (Prod.mk.inj (Option.some.inj read)).2.symm

theorem unescaped_of_quoted (read : readValue depth (quoted v ++ more) =
      some (.string v, rest)) : Unescaped v ∧ rest = more := by
  cases depth with
  | zero => cases read
  | succ depth =>
    rw [quoted_append, Json.readValue_literal] at read
    exact read

theorem good_of_readValue_bracketed {α : Type} {render : α → Bytes}
    {values : List α} {good : α → Prop} {spells : Json → α → Prop}
    (starts : ∀ v ∈ values, Starts (render v))
    (reads : ∀ v ∈ values, ∀ {depth more json rest},
      readValue depth (render v ++ more) = some (json, rest) →
      spells json v → good v ∧ rest = more)
    {elements : List Json}
    (read : readValue depth (text "[" ++ intercalate (text ",") (values.map render) ++
            text "]" ++ more) = some (.array elements, rest))
    (spelled : List.Forall₂ spells elements values) : (∀ v ∈ values, good v) ∧ rest = more := by
  cases depth with
  | zero => cases read
  | succ depth =>
    rw [bracketed_append] at read
    exact Json.good_of_readValue_listed starts (fun v mem _ _ _ => reads v mem) read spelled

/-- A string that is read back as it was needs no escape. -/
theorem unescaped_of_readValue (type : ContractType) (v : type.Value)
    {json : Json} (read : readValue depth (type.compact v ++ more) = some (json, rest))
    (spells : type.Spells json v) : (∀ part ∈ type.strings v, Unescaped part) ∧ rest = more := by
  induction type generalizing depth more json rest with
  | bool =>
    refine ⟨nofun, ?_⟩
    cases depth with
    | zero => cases read
    | succ depth =>
      have same := Json.readValue_boolean depth v more
      exact (Prod.mk.inj (Option.some.inj (read.symm.trans same))).2
  | uint width => exact ⟨nofun, ends_of_quoted (legible_decimal _).unescaped read⟩
  | int width => exact ⟨nofun, ends_of_quoted (legible_decimalInt _).unescaped read⟩
  | address => exact ⟨nofun, ends_of_quoted (legible_bin2hex _).unescaped read⟩
  | fixedBytes width => exact ⟨nofun, ends_of_quoted (legible_bin2hex _).unescaped read⟩
  | bytes => exact ⟨nofun, ends_of_quoted (legible_bin2hex _).unescaped read⟩
  | string =>
    obtain rfl : json = .string v := spells
    obtain ⟨unescaped, ends⟩ := unescaped_of_quoted read
    exact ⟨forall_mem_singleton.mpr unescaped, ends⟩
  | array elem ih =>
    obtain ⟨elements, rfl, spelled⟩ := spells
    obtain ⟨good, ends⟩ := good_of_readValue_bracketed (fun v _ => elem.starts_compact v)
      (fun v _ _ _ _ _ => ih v) read spelled
    exact ⟨forall_mem_flatMap.mpr good, ends⟩
  | fixedArray elem length ih =>
    obtain ⟨elements, rfl, spelled⟩ := spells
    obtain ⟨good, ends⟩ := good_of_readValue_bracketed (fun v _ => elem.starts_compact v)
      (fun v _ _ _ _ _ => ih v) read spelled
    exact ⟨forall_mem_flatMap.mpr good, ends⟩

/-! ## UTF-8 -/

theorem isUnicode_quoted (unicode : isUnicode v = true) : isUnicode (quoted v) = true := by
  have quote : isUnicode (text "\"") = true := by decide +kernel
  exact isUnicode_append (isUnicode_append quote unicode) quote

theorem Legible.isUnicode_quoted (legible : Legible v) : isUnicode (quoted v) = true :=
  ContractType.isUnicode_quoted (isUnicode_of_ascii fun c mem => (legible c mem).2)

theorem isUnicode_bracketed {α : Type} {render : α → Bytes}
    {values : List α} (unicode : ∀ v ∈ values, isUnicode (render v) = true) :
    isUnicode (text "[" ++ intercalate (text ",") (values.map render) ++ text "]") = true := by
  have comma : isUnicode [44] = true := by decide +kernel
  have inside : isUnicode (listed render values) = true := by
    induction values with
    | nil =>
      have empty : isUnicode [] = true := by decide +kernel
      exact empty
    | cons first rest ih =>
      obtain ⟨here, later⟩ := forall_mem_cons.mp unicode
      cases rest with
      | nil =>
        rw [listed_singleton]
        exact here
      | cons second rest => exact isUnicode_append here (isUnicode_append comma (ih later))
  refine isUnicode_append (isUnicode_append ?_ inside) ?_
  · decide +kernel
  · decide +kernel

theorem isUnicode_compact (type : ContractType) (v : type.Value)
    (unicode : ∀ part ∈ type.strings v, isUnicode part = true) :
    isUnicode (type.compact v) = true := by
  induction type with
  | bool =>
    cases v with
    | false => decide +kernel
    | true => decide +kernel
  | uint width => exact (legible_decimal _).isUnicode_quoted
  | int width => exact (legible_decimalInt _).isUnicode_quoted
  | address => exact (legible_bin2hex _).isUnicode_quoted
  | fixedBytes width => exact (legible_bin2hex _).isUnicode_quoted
  | bytes => exact (legible_bin2hex _).isUnicode_quoted
  | string => exact isUnicode_quoted (unicode v (mem_singleton_self _))
  | array elem ih =>
    exact isUnicode_bracketed fun v mem =>
      ih v fun part inside => unicode part (mem_flatMap.mpr ⟨v, mem, inside⟩)
  | fixedArray elem length ih =>
    exact isUnicode_bracketed fun v mem =>
      ih v fun part inside => unicode part (mem_flatMap.mpr ⟨v, mem, inside⟩)

end ContractType

/-! ## The main theorem -/

namespace Parameter

def strings (parameters : List Parameter) : List Bytes :=
  parameters.flatMap fun parameter => parameter.1.strings parameter.2

def toJson (parameters : List Parameter) : Json :=
  .array (parameters.map fun parameter => parameter.1.toJson parameter.2)

/-- What is decoded is a JSON array that spells the parameters, their strings
in particular, and is encoded to the same bytes again. -/
def RoundTrips (library : IntegerLibrary) (parse : Bytes → Option Json)
    (signaturesJson parametersJson : Bytes) (parameters : List Parameter) : Prop :=
  ∃ data output elements, encode library parse signaturesJson parametersJson = .ok data ∧
    decode library parse signaturesJson data = .ok output ∧
    Json.read output = some (.array elements) ∧ Spelled elements parameters ∧
    encode library parse signaturesJson output = .ok data

theorem read_compacts {params : List Parameter}
    (unicode : ∀ part ∈ strings params, isUnicode part = true)
    (unescaped : ∀ part ∈ strings params, Unescaped part) :
    Json.read (compacts params) = some (toJson params) := by
  have v : readValue ((compacts params).length + 1)
          (compacts params) = some (toJson params, []) := by
    have read := ContractType.readValue_bracketed
      (fun (param : Parameter) _ => param.1.starts_compact param.2)
      (fun param mem _ => param.1.readValue_compact param.2
        fun part inside => unescaped part (mem_flatMap.mpr ⟨param, mem, inside⟩))
      (Nat.le_succ (compacts params).length) []
    rw [append_nil] at read
    exact read
  have whole : isUnicode (compacts params) = true :=
    ContractType.isUnicode_bracketed fun param mem =>
      param.1.isUnicode_compact param.2 fun part inside =>
        unicode part (mem_flatMap.mpr ⟨param, mem, inside⟩)
  exact read_eq_some whole v

theorem unescaped_of_read {params : List Parameter}
    {elements : List Json} (read : Json.read (compacts params) = some (.array elements))
    (spelled : Spelled elements params) : ∀ part ∈ strings params, Unescaped part := by
  unfold Json.read at read
  split at read
  · split at read
    next v rest whole =>
      split at read
      · cases read
        rw [← append_nil (compacts params)] at whole
        obtain ⟨good, -⟩ := ContractType.good_of_readValue_bracketed
          (fun (param : Parameter) _ => param.1.starts_compact param.2)
          (fun param _ _ _ _ _ => param.1.unescaped_of_readValue param.2) whole spelled
        exact forall_mem_flatMap.mpr good
      · cases read
    · cases read
  · cases read

theorem spelled_toJson (parameters : List Parameter) :
    Spelled (parameters.map fun param => param.1.toJson param.2) parameters :=
  ContractType.forall₂_map_left fun param _ => param.1.spells_toJson param.2

end Parameter

/-- What is decoded is JSON that gives the parameters back if and only if there
is nothing to escape in their strings. -/
theorem roundTrips_iff_unescaped {lib : IntegerLibrary}
    (encodes : lib.Encodes) (decodes : lib.Decodes)
    {parse : Bytes → Option Json} (reads : ReadsJson parse)
    {signaturesJson parametersJson : Bytes} {params : List Parameter}
    {elements : List Json}
    (signatures : parse signaturesJson = some (.array (Parameter.signatures params)))
    (values : parse parametersJson = some (.array elements))
    (spelled : Parameter.Spelled elements params)
    (unicode : ∀ part ∈ Parameter.strings params, isUnicode part = true)
    (small : (Parameter.encodings params).length < 2 ^ 31) :
    Parameter.RoundTrips lib parse signaturesJson parametersJson
        params ↔ ∀ part ∈ Parameter.strings params, Unescaped part := by
  have encoded := Parameter.encode_of_spelled encodes signatures values spelled (by omega)
  have decoded := Parameter.decode_encodings encodes decodes signatures small
  constructor
  · rintro ⟨data, output, again, first, second, read, respelled, -⟩
    cases encoded.symm.trans first
    cases decoded.symm.trans second
    exact Parameter.unescaped_of_read read respelled
  · intro unescaped
    have read := Parameter.read_compacts unicode unescaped
    have respelled := Parameter.spelled_toJson params
    have simple : (Parameter.toJson params).Simple :=
      ContractType.simple_map fun param => param.1.simple_toJson param.2
    refine ⟨_, _, _, encoded, decoded, read, respelled, ?_⟩
    exact Parameter.encode_of_spelled encodes signatures (reads read simple) respelled (by omega)

def greeting : List Parameter :=
  [⟨.string, text "hi"⟩, ⟨.array .bool, [true]⟩]

theorem greeting_roundTrips :
    Parameter.RoundTrips referenceLibrary Json.read
      (text "[\"string\",\"bool[]\"]") (text "[\"hi\",[true]]") greeting := by
  refine (roundTrips_iff_unescaped referenceLibrary_encodes
    referenceLibrary_decodes (fun read _ => read) (read_eq_some (by decide +kernel) rfl)
    (read_eq_some (by decide +kernel) rfl) (Parameter.spelled_toJson greeting) ?_ ?_).mpr ?_
  · decide +kernel
  · decide +kernel
  · decide +kernel

/-- For a string with a quotation mark the decoder writes a text that is no
JSON.  For one with a backslash before the letter `n`, what it writes is read
as a string with a line feed. -/
theorem escapes_lost :
    let signaturesJson := text "[\"string\"]"
    let quotation := text "[\"a\\\"b\"]"
    let backslash := text "[\"a\\\\nb\"]"
    Json.read quotation = some (.array [.string (text "a\"b")]) ∧
      Json.read backslash = some (.array [.string (text "a\\nb")]) ∧
      (do
        let data ← encode referenceLibrary Json.read signaturesJson quotation
        decode referenceLibrary Json.read signaturesJson data) = .ok (text "[\"a\"b\"]") ∧
      Json.read (text "[\"a\"b\"]") = none ∧
      (do
        let data ← encode referenceLibrary Json.read signaturesJson backslash
        decode referenceLibrary Json.read signaturesJson data) = .ok (text "[\"a\\nb\"]") ∧
      Json.read (text "[\"a\\nb\"]") = some (.array [.string (text "a\nb")]) := by
  refine ⟨read_eq_some (by decide +kernel) rfl,
    read_eq_some (by decide +kernel) rfl, ?_, ?_, ?_,
    read_eq_some (by decide +kernel) rfl⟩
  · decide +kernel
  · exact Option.isNone_iff_eq_none.mp (by decide +kernel)
  · decide +kernel

end AutomatonCore.Interop.Ethereum
