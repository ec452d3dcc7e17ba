import AutomatonCore.Interop.AbiLayout

/-!
# The encoder writes the encoding of the contract ABI
-/

namespace AutomatonCore.Interop.Ethereum

open Io Library
open ContractType (headSpace images layout cellPart AllRegular)

/-- A function of the encoder writes some bytes and leaves the cursors as given. -/
def Writes (result : Encoded) (memory : Nat → Option UInt8)
    (position : Nat) (data : Bytes) (cursors : Cursors) : Prop :=
  ∃ buffer, result = .ok (buffer, cursors) ∧ buffer.view = overlay memory position data

namespace ContractType

variable {lib : IntegerLibrary}

/-- `encode_param` writes the encodings of the values of a type. -/
def Written (library : IntegerLibrary) (type : ContractType) : Prop :=
  ∀ {json : Json} {value : type.Value}, type.Spells json value →
      (type.encoding value).length < 2 ^ 32 → ∀ (buffer : Buffer) (cursors : Cursors),
          Writes (encodeParam library type.paramType json buffer cursors)
            buffer.view (type.position cursors) (type.encoding value)
            (type.advance cursors (type.encoding value).length)

def parts (element : ContractType) (values : List element.Value) : List (Library.Part UInt8) :=
  values.map fun value => element.part (element.encoding value)

theorem length_word (number : Nat) : (word number).length = 32 := length_bigEndian 32 number

theorem length_padded (v : Bytes) : (padded v).length = v.length + (32 - v.length % 32) % 32 := by
  simp [padded]

theorem length_le_padded (v : Bytes) : v.length ≤ (padded v).length := by
  rw [length_padded]
  exact Nat.le_add_right _ _

theorem part_of_static {elem : ContractType} (static : elem.isDynamic = false) :
    elem.part = Library.Part.inPlace := by
  funext content
  simp [part, static]

theorem sequence_static {elem : ContractType}
    (static : elem.isDynamic = false) (values : List elem.Value) :
    sequence (elem.parts values) = values.flatMap elem.encoding := by
  have inPlace : elem.parts values = (values.map elem.encoding).map Library.Part.inPlace := by
    rw [parts, part_of_static static, List.map_map]
    rfl
  rw [inPlace, sequence, headTail_inPlace, List.flatMap_def]

theorem length_flatMap_of_forall {α β : Type} {length : Nat}
    {content : α → List β} {values : List α} (each : ∀ v ∈ values, (content v).length = length) :
    (values.flatMap content).length = values.length * length := by
  induction values with
  | nil => simp
  | cons v values ih =>
    simp only [List.mem_cons, forall_eq_or_imp] at each
    rw [List.flatMap_cons, List.length_append, each.1, ih each.2, List.length_cons]
    ring

theorem length_encoding_static {type : ContractType}
    (static : type.isDynamic = false) (v : type.Value) :
    (type.encoding v).length = 32 * type.headWords := by
  induction type with
  | fixedArray elem length ih =>
    rw [isDynamic] at static
    have flat : (fixedArray elem length).encoding v = v.1.flatMap elem.encoding :=
      sequence_static static v.1
    rw [flat, headWords, length_flatMap_of_forall fun v _ => ih static v, v.2]
    simp only [static, Bool.false_eq_true, if_false]
    ring
  | fixedBytes width =>
    have size := v.2
    rw [encoding, length_padded]
    simp only [headWords]
    omega
  | address =>
    have size := v.2
    rw [encoding, List.length_append, size]
    rfl
  | array elem => cases static
  | bytes => cases static
  | string => cases static
  | _ => exact length_word _

def lengthWord (t : ParamType) (count : Nat) : Bytes :=
  if t.arrayLen = 0 then word count else []

/-- A content of static size fills the head that its type provides. -/
def Full (type : ContractType) (content : Bytes) : Prop :=
  type.isDynamic = false → content.length = 32 * type.headWords

theorem full_encoding (type : ContractType) (v : type.Value) : type.Full (type.encoding v) :=
  fun static => length_encoding_static static v

variable {content : Bytes} {first second : List (Library.Part UInt8)}

theorem Full.headLength {type : ContractType} (full : type.Full content) :
    (type.part content).headLength 32 = 32 * type.headWords := by
  unfold part
  split
  next dynamic =>
    rw [Part.headLength, headWords_of_not_fixed (arrayType_ne_fixed dynamic)]
  next static =>
    exact full (by simpa using static)

theorem headLength_part (type : ContractType) (v : type.Value) :
    (type.part (type.encoding v)).headLength 32 = 32 * type.headWords :=
  (type.full_encoding v).headLength

theorem headsLength_parts (elem : ContractType) (values : List elem.Value) :
    headsLength 32 (elem.parts values) = values.length * (32 * elem.headWords) := by
  induction values with
  | nil => simp [parts, headsLength]
  | cons v values ih =>
    rw [parts, List.map_cons, headsLength, headLength_part, ← parts, ih, List.length_cons]
    ring

theorem length_sequence (parts : List (Library.Part UInt8)) :
    (sequence parts).length = headsLength 32 parts + (tails parts).length := by
  rw [sequence, headTail, List.length_append, length_heads length_word]

theorem length_elements {elem : ContractType}
    (static : elem.isDynamic = false) (values : List elem.Value) :
    (values.flatMap elem.encoding).length = values.length * (32 * elem.headWords) :=
  length_flatMap_of_forall fun v _ => length_encoding_static static v

theorem length_encoding_pos (type : ContractType) (v : type.Value) :
    32 ≤ (type.encoding v).length := by
  cases dynamic : type.isDynamic with
  | false =>
    have words := type.headWords_pos
    rw [length_encoding_static dynamic]
    omega
  | true =>
    induction type with
    | fixedArray elem length =>
      have words := elem.headWords_pos
      have pos := length.2.1
      have count := v.2
      change 32 ≤ (sequence (elem.parts v.1)).length
      rw [length_sequence, headsLength_parts]
      nlinarith
    | bytes | string | array =>
      simp only [encoding, List.length_append, length_word]
      omega
    | _ => cases dynamic

/-! ## What the encoder makes of a value -/

def offsetBytes (offset : Nat) : Bytes :=
  u64ToU256 (UInt64.ofNat offset)

theorem length_offsetBytes (offset : Nat) : (offsetBytes offset).length = 32 := length_u64ToU256 _

/-- Bytes that are the expected ones, unless these are too many for 64 bits;
then their number is still the expected one. -/
def Resembles (bytes expected : Bytes) : Prop :=
  bytes.length = expected.length ∧ (expected.length < 2 ^ 64 → bytes = expected)

theorem Resembles.refl (bytes : Bytes) : Resembles bytes bytes := ⟨rfl, fun _ => rfl⟩

def ResemblesPart : Library.Part UInt8 → Library.Part UInt8 → Prop
  | .inPlace content, .inPlace expected => Resembles content expected
  | .referenced content, .referenced expected => Resembles content expected
  | _, _ => False

theorem ResemblesPart.sameShape {first second : Library.Part UInt8}
    (resembles : ResemblesPart first second) : first.SameShape second := by
  cases first <;> cases second <;>
    first | exact resembles.1 | exact resembles.elim

theorem parts_eq_of_resembles (resembles : List.Forall₂ ResemblesPart first second)
    (small : headsLength 32 second + (tails second).length < 2 ^ 64) : first = second := by
  induction resembles with
  | nil => rfl
  | cons here others ih =>
    rename_i left right first second
    cases left with
    | inPlace left =>
      cases right with
      | referenced right => exact here.elim
      | inPlace right =>
        simp only [headsLength, Part.headLength, tails] at small
        rw [here.2 (by omega), ih (by omega)]
    | referenced left =>
      cases right with
      | inPlace right => exact here.elim
      | referenced right =>
        simp only [headsLength, tails, List.length_append] at small
        rw [here.2 (by omega), ih (by omega)]

theorem headTail_resembles (resembles : List.Forall₂ ResemblesPart first second) :
    Resembles (headTail offsetBytes 32 first) (sequence second) := by
  have shapes : List.Forall₂ Part.SameShape first second :=
    resembles.imp fun _ _ => ResemblesPart.sameShape
  refine ⟨?_, ?_⟩
  · rw [length_headTail_of_sameShape length_offsetBytes shapes,
      length_headTail length_offsetBytes, length_sequence]
  · intro small
    rw [length_sequence] at small
    obtain rfl := parts_eq_of_resembles resembles small
    have words {offset : Nat} (bound : offset ≤ 2 ^ 64 - 1) : offsetBytes offset = word offset :=
      u64ToU256_ofNat (by omega)
    rw [sequence, headTail, headTail, heads_congr words (by omega)]

/-- How the encoder takes a JSON value for a value of the type. -/
def Reads (library : IntegerLibrary) : (type : ContractType) → Json → type.Value → Prop
  | bool, json, value =>
    numericalWord library bool.paramType json = .ok (some (bool.encoding value))
  | uint width, json, value =>
    numericalWord library (uint width).paramType json = .ok (some ((uint width).encoding value))
  | int width, json, value =>
    numericalWord library (int width).paramType json = .ok (some ((int width).encoding value))
  | address, json, value => fixedBytesWord true json = .ok (some (address.encoding value))
  | fixedBytes width, json, value =>
    fixedBytesWord false json = .ok (some ((fixedBytes width).encoding value))
  | bytes, json, value => ∃ spelled, json = .string spelled ∧ hex2bin spelled = some value
  | string, json, value => json = .string value
  | array element, json, values =>
    ∃ elements, json = .array elements ∧ List.Forall₂ (element.Reads library) elements values
  | fixedArray element _, json, values =>
    ∃ elements, json = .array elements ∧ List.Forall₂ (element.Reads library) elements values.1

def Shows (library : IntegerLibrary) (type : ContractType) (json : Json)
    (value : type.Value) : Prop :=
  ∃ bytes : Bytes, type.image library json = .ok (bytes.map some) ∧
    Resembles bytes (type.encoding value)

variable {elements : List Json} {contents : List Bytes} {spelled v : Bytes} {json : Json}
  {number : Int} {width : IntegerWidth}

theorem mapM_of_shows {elem : ContractType}
    {values : List elem.Value} (shows : List.Forall₂ (elem.Shows lib) elements values) :
    ∃ contents : List Bytes, elements.mapM (elem.image lib) = .ok (contents.map (List.map some)) ∧
        List.Forall₂ (fun content v => Resembles content (elem.encoding v)) contents values := by
  induction shows with
  | nil => exact ⟨[], rfl, .nil⟩
  | cons first others ih =>
    obtain ⟨bytes, drawn, resembles⟩ := first
    obtain ⟨contents, read, all⟩ := ih
    refine ⟨bytes :: contents, ?_, .cons resembles all⟩
    rw [List.mapM_cons, drawn, read]
    rfl

theorem resemblesPart_parts {elem : ContractType} {values : List elem.Value} (resemble :
      List.Forall₂ (fun content v => Resembles content (elem.encoding v)) contents values) :
    List.Forall₂ ResemblesPart (contents.map elem.part) (elem.parts values) := by
  rw [parts, List.forall₂_map_left_iff, List.forall₂_map_right_iff]
  refine resemble.imp fun content v resembles => ?_
  cases dynamic : elem.isDynamic <;>
    simpa [part, dynamic, ResemblesPart] using resembles

theorem referenceCells_map_some {elem : ContractType}
    (dynamic : elem.isDynamic = true) (contents : List Bytes) :
    referenceCells (contents.map (List.map some)) =
      (headTail offsetBytes 32 (contents.map elem.part)).map some := by
  rw [← headTail_map, referenceCells, List.map_map, List.map_map]
  congr 1
  apply List.map_congr_left
  intro content _
  simp [part, dynamic, Library.Part.map]

theorem flatten_map_some {elem : ContractType}
    (static : elem.isDynamic = false) (contents : List Bytes) :
    (contents.map (List.map some)).flatten =
      (headTail offsetBytes 32 (contents.map elem.part)).map some := by
  rw [part_of_static static, headTail_inPlace, List.map_flatten]

theorem length_flatten_of_full {elem : ContractType} (static : elem.isDynamic = false)
    (full : ∀ content ∈ contents, elem.Full content) :
    contents.flatten.length = contents.length * (32 * elem.headWords) := by
  rw [← List.flatMap_id]
  exact length_flatMap_of_forall fun content mem => full content mem static

theorem bodyCells_map_some {elem : ContractType} (full : ∀ content ∈ contents, elem.Full content) :
    elem.bodyCells (contents.map (List.map some)) =
      (headTail offsetBytes 32 (contents.map elem.part)).map some := by
  unfold bodyCells
  split
  next dynamic =>
    exact referenceCells_map_some dynamic contents
  next notDynamic =>
    have static : elem.isDynamic = false := by simpa using notDynamic
    have gaps : (contents.map (List.map some)).length * (32 * elem.headWords) -
            ((headTail offsetBytes 32 (contents.map elem.part)).map some).length = 0 := by
      rw [List.length_map, List.length_map, part_of_static static,
        headTail_inPlace, length_flatten_of_full static full, Nat.sub_self]
    rw [elementCells, flatten_map_some static, gaps]
    exact List.append_nil _

theorem image_array {elem : ContractType}
    (read : elements.mapM (elem.image lib) = .ok (contents.map (List.map some)))
    (full : ∀ content ∈ contents, elem.Full content) :
    (array elem).image lib (.array elements) = .ok ((offsetBytes elements.length ++
          headTail offsetBytes 32 (contents.map elem.part)).map some) := by
  simp only [image, read, ok_bind, bodyCells_map_some full]
  rfl

theorem image_fixedArray {elem : ContractType} {length : ArrayLength}
    (count : elements.length = length.1)
    (read : elements.mapM (elem.image lib) = .ok (contents.map (List.map some))) :
    (fixedArray elem length).image lib (.array elements) =
      .ok ((headTail offsetBytes 32 (contents.map elem.part)).map some) := by
  simp only [image, if_neg (not_not.mpr count), read, ok_bind]
  congr 1
  split
  next dynamic =>
    exact referenceCells_map_some dynamic contents
  next notDynamic =>
    exact flatten_map_some (by simpa using notDynamic) contents

theorem full_of_resemble {elem : ContractType} {values : List elem.Value} (resemble :
      List.Forall₂ (fun content v => Resembles content (elem.encoding v)) contents values) :
    ∀ content ∈ contents, elem.Full content := by
  induction resemble with
  | nil => simp
  | cons first others ih =>
    rw [List.forall_mem_cons]
    refine ⟨fun static => ?_, ih⟩
    rw [first.1, length_encoding_static static]

theorem Resembles.append_word {expected : Bytes}
    (resembles : Resembles content expected) (number : Nat)
    (bound : number < 2 ^ 64 ∨ 2 ^ 64 ≤ expected.length) :
    Resembles (offsetBytes number ++ content) (word number ++ expected) := by
  refine ⟨?_, fun small => ?_⟩
  · rw [List.length_append, List.length_append, length_offsetBytes, length_word, resembles.1]
  · rw [List.length_append] at small
    rw [resembles.2 (by omega), offsetBytes, u64ToU256_ofNat (by omega)]

theorem dynamicBytesCells_shows {isHex : Bool}
    (decoded : (if isHex then hex2bin spelled else some spelled) = some v) :
    ∃ content : Bytes, dynamicBytesCells isHex (.string spelled) = .ok (content.map some) ∧
        Resembles content (word v.length ++ padded v) := by
  have short := length_le_padded v
  refine ⟨offsetBytes v.length ++ padded v, ?_, ?_⟩
  · simp only [dynamicBytesCells, decoded]
    rfl
  · exact (Resembles.refl _).append_word _ (by omega)

theorem few_or_many (elem : ContractType) (values : List elem.Value) :
    values.length < 2 ^ 64 ∨ 2 ^ 64 ≤ (sequence (elem.parts values)).length := by
  have words := elem.headWords_pos
  rw [length_sequence, headsLength_parts]
  by_contra! many
  nlinarith

/-- The image of a JSON value resembles the encoding of the value that was read
from it. -/
theorem shows_of_reads (type : ContractType)
    {v : type.Value} (reads : type.Reads lib json v) : type.Shows lib json v := by
  induction type generalizing json with
  | bool => exact ⟨_, by rw [image, reads]; rfl, Resembles.refl _⟩
  | uint width => exact ⟨_, by rw [image, reads]; rfl, Resembles.refl _⟩
  | int width => exact ⟨_, by rw [image, reads]; rfl, Resembles.refl _⟩
  | address => exact ⟨_, by rw [image, reads]; rfl, Resembles.refl _⟩
  | fixedBytes width => exact ⟨_, by rw [image, reads]; rfl, Resembles.refl _⟩
  | bytes =>
    obtain ⟨spelled, rfl, decoded⟩ := reads
    exact dynamicBytesCells_shows decoded
  | string =>
    obtain rfl := reads
    exact dynamicBytesCells_shows (if_neg Bool.false_ne_true)
  | array elem ih =>
    obtain ⟨elements, rfl, all⟩ := reads
    obtain ⟨contents, read, resemble⟩ := mapM_of_shows (all.imp fun _ _ => ih)
    have body := headTail_resembles (resemblesPart_parts resemble)
    refine ⟨_, image_array read (full_of_resemble resemble), ?_⟩
    have few := few_or_many elem v
    rw [all.length_eq]
    exact body.append_word _ few
  | fixedArray elem length ih =>
    obtain ⟨elements, rfl, all⟩ := reads
    obtain ⟨contents, read, resemble⟩ := mapM_of_shows (all.imp fun _ _ => ih)
    exact ⟨_, image_fixedArray (all.length_eq.trans v.2) read,
        headTail_resembles (resemblesPart_parts resemble)⟩

/-! ## Spelled values -/

theorem mem_of_decimalValue (decimal : decimalValue spelled = some number) {c : UInt8}
    (mem : c ∈ spelled) : isDigit c = true ∨ c = 45 := by
  unfold decimalValue at decimal
  split at decimal
  · cases decimal
  · split at decimal
    next digits =>
      rcases List.mem_cons.mp mem with rfl | inside
      · exact .inr rfl
      · exact .inl (List.all_eq_true.mp digits.2 c inside)
    · cases decimal
  · split at decimal
    next digits =>
      exact .inl (List.all_eq_true.mp digits c mem)
    · cases decimal

theorem not_hex_of_decimalValue (decimal : decimalValue spelled = some number) :
    spelled.take 2 ≠ text "0x" := by
  intro hex
  have mem : 120 ∈ spelled := by
    apply List.mem_of_mem_take (i := 2)
    rw [hex]
    decide
  rcases mem_of_decimalValue decimal mem with digit | minus
  · exact absurd digit (by decide)
  · exact absurd minus (by decide)

theorem decToI256_decimal (encodes : lib.Encodes)
    (decimal : decimalValue spelled = some number) (isSigned : Bool) :
    decToI256 lib isSigned spelled = lib.encode number isSigned := by
  have notHex := not_hex_of_decimalValue decimal
  have noZero : spelled.takeWhile (· ≠ 0) = spelled := by
    rw [List.takeWhile_eq_self_iff]
    intro c mem
    rcases mem_of_decimalValue decimal mem with digit | rfl
    · have zero : c ≠ 0 := by
        rintro rfl
        exact absurd digit (by decide)
      simpa using zero
    · decide
  simp only [decToI256, if_neg notHex, noZero, encodes.parse decimal]

theorem numericalWord_bool (v : Bool) :
    numericalWord lib bool.paramType (.boolean v) = .ok (some (word v.toNat)) := by
  have words : u64ToU256 (if v then 1 else 0) = word v.toNat := by
    cases v
    · exact u64ToU256_ofNat (show 0 < 2 ^ 64 by decide)
    · exact u64ToU256_ofNat (show 1 < 2 ^ 64 by decide)
  have isBool : bool.paramType.str = text "bool" := rfl
  simp only [numericalWord, if_pos isBool, words, pure_eq_ok]

theorem numericalWord_text (encodes : lib.Encodes) {t : ParamType}
    {isSigned : Bool} (integral : t.Integral isSigned)
    (decimal : decimalValue spelled = some number) :
    numericalWord lib t (.string spelled) = .ok (some (lib.encode number isSigned)) := by
  simp only [numericalWord, if_neg integral.notBool, integral.isInt, if_true,
    integerText, integral.sign, pure_eq_ok, ok_bind, Option.map_some,
    decToI256_decimal encodes decimal]

theorem uint_lt (v : (uint width).Value) : v.1 < 2 ^ 256 :=
  v.2.trans_le (Nat.pow_le_pow_right (by omega) width.2.2.2)

theorem int_bounds (v : (int width).Value) : -2 ^ 255 ≤ v.1 ∧ v.1 < 2 ^ 255 := by
  have range : (2 : Int) ^ (width.1 - 1) ≤ 2 ^ 255 := by
    apply pow_le_pow_right₀ (by omega)
    omega
  have lower := v.2.1
  have upper := v.2.2
  omega

theorem numericalWord_uint (encodes : lib.Encodes) (v : (uint width).Value)
    (decimal : decimalValue spelled = some (v.1 : Int)) :
    numericalWord lib (uint width).paramType (.string spelled) = .ok (some (word v.1)) := by
  rw [numericalWord_text encodes (integral_uint width) decimal,
    encodes.encodeUnsigned (uint_lt v), word]

theorem numericalWord_int (encodes : lib.Encodes) (v : (int width).Value)
    (decimal : decimalValue spelled = some v.1) :
    numericalWord lib (int width).paramType (.string spelled) =
      .ok (some (word (v.1 % 2 ^ 256).toNat)) := by
  obtain ⟨lower, upper⟩ := int_bounds v
  rw [numericalWord_text encodes (integral_int width) decimal,
    encodes.encodeSigned lower upper, word]

theorem fixedBytesWord_address (spells : HexSpells spelled v) (size : v.length = 20) :
    fixedBytesWord true (.string spelled) = .ok (some (List.replicate 12 0 ++ v)) := by
  simp only [fixedBytesWord, hex2bin_of_spells spells, size]
  rfl

theorem fixedBytesWord_fixedBytes (width : ByteWidth)
    (spells : HexSpells spelled v) (size : v.length = width.1) :
    fixedBytesWord false (.string spelled) = .ok (some (padded v)) := by
  have zeros : (32 - v.length % 32) % 32 = 32 - v.length := by omega
  simp only [fixedBytesWord, hex2bin_of_spells spells,
    if_neg (show ¬ v.length > 32 by omega), padded, zeros]
  rfl

theorem reads_of_spells (encodes : lib.Encodes) (type : ContractType)
    {v : type.Value} (spells : type.Spells json v) : type.Reads lib json v := by
  induction type generalizing json with
  | bool =>
    obtain rfl := spells
    exact numericalWord_bool v
  | uint width =>
    obtain ⟨spelled, rfl, decimal⟩ := spells
    exact numericalWord_uint encodes v decimal
  | int width =>
    obtain ⟨spelled, rfl, decimal⟩ := spells
    exact numericalWord_int encodes v decimal
  | address =>
    obtain ⟨spelled, rfl, hex⟩ := spells
    exact fixedBytesWord_address hex v.2
  | fixedBytes width =>
    obtain ⟨spelled, rfl, hex⟩ := spells
    exact fixedBytesWord_fixedBytes width hex v.2
  | bytes =>
    obtain ⟨spelled, rfl, hex⟩ := spells
    exact ⟨spelled, rfl, hex2bin_of_spells hex⟩
  | string => exact spells
  | array elem ih =>
    obtain ⟨elements, rfl, all⟩ := spells
    exact ⟨elements, rfl, all.imp fun _ _ => ih⟩
  | fixedArray elem length ih =>
    obtain ⟨elements, rfl, all⟩ := spells
    exact ⟨elements, rfl, all.imp fun _ _ => ih⟩

/-! ## Small encodings -/

theorem length_content_le {parts : List (Library.Part UInt8)}
    {part : Library.Part UInt8} (mem : part ∈ parts) :
    part.content.length ≤ (sequence parts).length := by
  rw [length_sequence]
  induction parts with
  | nil => cases mem
  | cons first parts ih =>
    rw [headsLength]
    rcases List.mem_cons.mp mem with rfl | later
    · cases part <;>
        simp only [Part.content, Part.headLength, tails, List.length_append] <;>
        omega
    · have bound := ih later
      cases first <;> simp only [tails, List.length_append] <;> omega

theorem length_encoding_le {elem : ContractType}
    {values : List elem.Value} {v : elem.Value} (mem : v ∈ values) :
    (elem.encoding v).length ≤ (sequence (elem.parts values)).length := by
  have part : elem.part (elem.encoding v) ∈ elem.parts values := List.mem_map_of_mem mem
  have bound := length_content_le part
  unfold ContractType.part at bound
  split at bound <;> exact bound

theorem regular_elements {elem : ContractType} {values : List elem.Value} (regular :
      ∀ {json : Json} {v : elem.Value}, elem.Reads lib json v →
        (elem.encoding v).length < 2 ^ 32 → elem.Regular lib json)
    (reads : List.Forall₂ (elem.Reads lib) elements values)
    (small : (sequence (elem.parts values)).length < 2 ^ 32) :
    ∀ json ∈ elements, elem.Regular lib json := by
  have each : ∀ v ∈ values, (elem.encoding v).length < 2 ^ 32 := by
    intro v mem
    have := length_encoding_le mem
    omega
  clear small
  induction reads with
  | nil => simp
  | cons first others ih =>
    rw [List.forall_mem_cons] at each ⊢
    exact ⟨regular first each.1, ih each.2⟩

theorem regular_of_reads (type : ContractType)
    {v : type.Value} (reads : type.Reads lib json v) (small : (type.encoding v).length < 2 ^ 32) :
    type.Regular lib json := by
  induction type generalizing json with
  | uint width =>
    intro encoded made
    rw [Option.some.inj (Except.ok.inj (made.symm.trans reads))]
    exact length_word _
  | int width =>
    intro encoded made
    rw [Option.some.inj (Except.ok.inj (made.symm.trans reads))]
    exact length_word _
  | array elem ih =>
    obtain ⟨elements, rfl, all⟩ := reads
    have length : ((array elem).encoding v).length = 32 + (sequence (elem.parts v)).length := by
      simp only [encoding, List.length_append, length_word]
      rfl
    rw [length] at small
    refine ⟨?_, regular_elements ih all (by omega)⟩
    cases all with
    | nil => exact .inl rfl
    | cons first others =>
      right
      rw [length_sequence, headsLength_parts, List.length_cons] at small
      nlinarith
  | fixedArray elem length ih =>
    obtain ⟨elements, rfl, all⟩ := reads
    exact regular_elements ih all small
  | _ => trivial

/-- Whatever the buffer holds, nothing but the encoding is written. -/
theorem encodeParam_writes (encodes : lib.Encodes) (type : ContractType) : type.Written lib := by
  intro json v spells small buf cursors
  have reads := reads_of_spells encodes type spells
  obtain ⟨content, drawn, resembles⟩ := type.shows_of_reads reads
  obtain rfl := resembles.2 (by omega)
  have draws := type.imaged (type.regular_of_reads reads small) buf cursors
  rw [drawn] at draws
  obtain ⟨⟨next, moved⟩, encoded, rfl, view⟩ := draws.exists_ok
  rw [List.length_map] at encoded
  rw [← overlay_eq_fill] at view
  exact ⟨next, encoded, view⟩

end ContractType

/-! ## Lists of parameters -/

namespace Parameter

variable {lib : IntegerLibrary}

def Spelled (elements : List Json) (parameters : List Parameter) : Prop :=
  List.Forall₂ (fun json parameter => parameter.1.Spells json parameter.2) elements parameters

def ReadAs (library : IntegerLibrary) (elements : List Json) (parameters : List Parameter) : Prop :=
  List.Forall₂ (fun json parameter => parameter.1.Reads library json parameter.2)
    elements parameters

theorem signatures_eq (params : List Parameter) :
    signatures params = (params.map Sigma.fst).map fun type => .string type.render := by
  rw [List.map_map]
  rfl

theorem headsLength_map_part (params : List Parameter) :
    headsLength 32 (params.map part) = headSpace (params.map Sigma.fst) := by
  induction params with
  | nil => rfl
  | cons param params ih =>
    rw [List.map_cons, headsLength, ih, part, ContractType.headLength_part]
    rfl

variable {elements : List Json} {params : List Parameter} {parse : Bytes → Option Json}
  {signaturesJson parametersJson : Bytes}

theorem images_of_readAs (read : ReadAs lib elements params) :
    ∃ contents : List Bytes, images lib (params.map Sigma.fst) elements =
          .ok (contents.map (List.map some)) ∧
        List.Forall₂ ContractType.ResemblesPart
          (List.zipWith ContractType.part (params.map Sigma.fst) contents) (params.map part) := by
  induction read with
  | nil => exact ⟨[], rfl, .nil⟩
  | cons first others ih =>
    rename_i json param elements params
    obtain ⟨bytes, drawn, resembles⟩ := param.1.shows_of_reads first
    obtain ⟨contents, read, all⟩ := ih
    refine ⟨bytes :: contents, ?_, .cons ?_ all⟩
    · rw [List.map_cons, images, drawn, read]
      rfl
    · cases dynamic : param.1.isDynamic <;>
        simpa [part, ContractType.part, dynamic, ContractType.ResemblesPart] using resembles

theorem layout_map_some {types : List ContractType} {contents : List Bytes} (full :
      headsLength 32 (List.zipWith ContractType.part types contents) =
        headSpace types) :
    layout types (contents.map (List.map some)) = (headTail ContractType.offsetBytes 32
        (List.zipWith ContractType.part types contents)).map some := by
  have parts : List.zipWith cellPart types (contents.map (List.map some)) =
        (List.zipWith ContractType.part types contents).map (Library.Part.map some) := by
    rw [List.zipWith_map_right, List.map_zipWith]
    congr 1
    funext type content
    cases dynamic : type.isDynamic <;>
      simp [cellPart, ContractType.part, dynamic, Library.Part.map]
  have lengths : headsLength 32
          ((List.zipWith ContractType.part types contents).map
            (Library.Part.map (some : UInt8 → Option UInt8))) =
        headsLength 32 (List.zipWith ContractType.part types contents) :=
    headsLength_map _ _
  rw [← headTail_map, headTail, layout]
  simp only [parts, lengths, full, Nat.sub_self, List.replicate_zero, List.append_nil]
  rfl

/-- The buffer holds the encoding of the parameters that were read. -/
theorem encode_of_readAs (types : parse signaturesJson = some (.array (signatures params)))
    (values : parse parametersJson = some (.array elements)) (read : ReadAs lib elements params)
    (regular : AllRegular lib (params.map Sigma.fst) elements)
    (small : headSpace (params.map Sigma.fst) < 2 ^ 32) :
    ∃ bytes, encode lib parse signaturesJson parametersJson = .ok bytes ∧
      ContractType.Resembles bytes (encodings params) := by
  obtain ⟨contents, drawn, resemble⟩ := images_of_readAs read
  have full : headsLength 32 (List.zipWith ContractType.part (params.map Sigma.fst) contents) =
        headSpace (params.map Sigma.fst) := by
    rw [← headsLength_map_part]
    apply headsLength_of_sameHead
    exact resemble.imp fun _ _ same => same.sameShape.sameHead
  refine ⟨_, ?_, ContractType.headTail_resembles resemble⟩
  rw [signatures_eq] at types
  rw [encode_eq_layout types values regular small, drawn, ok_bind,
    layout_map_some full, readCells_map_some]

theorem length_encoding_le {param : Parameter} (mem : param ∈ params) :
    (param.1.encoding param.2).length ≤ (encodings params).length := by
  have bound := ContractType.length_content_le (List.mem_map_of_mem (f := part) mem)
  have content : (part param).content = param.1.encoding param.2 := by
    cases dynamic : param.1.isDynamic <;>
      simp [part, ContractType.part, dynamic, Part.content]
  rwa [content] at bound

theorem regular_of_readAs (read : ReadAs lib elements params)
    (small : (encodings params).length < 2 ^ 32) :
    AllRegular lib (params.map Sigma.fst) elements := by
  have each : ∀ param ∈ params, (param.1.encoding param.2).length < 2 ^ 32 :=
    fun param mem => (length_encoding_le mem).trans_lt small
  clear small
  induction read with
  | nil => exact .nil
  | cons first others ih =>
    rw [List.forall_mem_cons] at each
    exact .cons (ContractType.regular_of_reads _ first each.1) (ih each.2)

theorem encode_of_small (types : parse signaturesJson = some (.array (signatures params)))
    (values : parse parametersJson = some (.array elements))
    (read : ReadAs lib elements params) (small : (encodings params).length < 2 ^ 32) :
    encode lib parse signaturesJson parametersJson = .ok (encodings params) := by
  have space : headSpace (params.map Sigma.fst) < 2 ^ 32 := by
    rw [← headsLength_map_part]
    rw [encodings, ContractType.length_sequence] at small
    omega
  obtain ⟨bytes, encoded, resembles⟩ :=
    encode_of_readAs types values read (regular_of_readAs read small) space
  rw [encoded, resembles.2 (by omega)]

theorem encode_of_spelled (encodes : lib.Encodes)
    (types : parse signaturesJson = some (.array (signatures params)))
    (values : parse parametersJson = some (.array elements)) (spelled : Spelled elements params)
    (small : (encodings params).length < 2 ^ 32) :
    encode lib parse signaturesJson parametersJson = .ok (encodings params) := by
  have read : ReadAs lib elements params :=
    List.Forall₂.imp (fun _ (param : Parameter) => ContractType.reads_of_spells encodes param.1)
      spelled
  exact encode_of_small types values read small

end Parameter

/-- `encode` returns the encoding of the contract ABI. -/
theorem encode_eq_encodings {lib : IntegerLibrary}
    (encodes : lib.Encodes) {parse : Bytes → Option Json}
    {signaturesJson parametersJson : Bytes} {params : List Parameter}
    {elements : List Json}
    (signatures : parse signaturesJson = some (.array (Parameter.signatures params)))
    (values : parse parametersJson = some (.array elements))
    (spelled : Parameter.Spelled elements params)
    (small : (Parameter.encodings params).length < 2 ^ 32) :
    encode lib parse signaturesJson parametersJson = .ok (Parameter.encodings params) :=
  Parameter.encode_of_spelled encodes signatures values spelled small

def referenceLibrary : IntegerLibrary where
  parse spelled := (decimalValue spelled).getD 0
  encode number _ := bigEndian 32 (number % 2 ^ 256).toNat
  decode bytes isSigned :=
    let value := bigEndianValue bytes
    if isSigned ∧ value ≥ 2 ^ 255 then (value : Int) - 2 ^ 256
    else value
  print number := decimalInt number ++ text "."

theorem referenceLibrary_encodes : referenceLibrary.Encodes where
  parse decimal := by simp [referenceLibrary, decimal]
  encodeUnsigned small := by
    simp only [referenceLibrary]
    congr 1
    omega
  encodeSigned _ _ := rfl

def exampleArray : Parameter :=
  ⟨.array (.fixedArray (.uint ⟨8, by decide⟩) ⟨2, by decide⟩),
    [⟨[⟨1, by decide⟩, ⟨255, by decide⟩], rfl⟩]⟩

def exampleElements : Json :=
  .array [.array [.string (text "1"), .string (text "255")]]

theorem exampleElements_spelled : exampleArray.1.Spells exampleElements exampleArray.2 :=
  ⟨_, rfl, .cons ⟨_, rfl, .cons ⟨_, rfl, rfl⟩ (.cons ⟨_, rfl, rfl⟩ .nil)⟩ .nil⟩

/-- A nested array behind two cells that are in use. -/
theorem encodeParam_writes_exampleArray :
    Writes (encodeParam referenceLibrary exampleArray.1.paramType exampleElements
        [some 7, none] (.separate 1 33))
      (Buffer.view [some 7, none]) 33 (exampleArray.1.encoding exampleArray.2)
      (.separate 1 (33 + (exampleArray.1.encoding exampleArray.2).length)) :=
  ContractType.encodeParam_writes referenceLibrary_encodes _ exampleElements_spelled
    (by decide +kernel) _ _

def exampleParameters : List Parameter :=
  [exampleArray, ⟨.string, text "ab"⟩]

def exampleJson : List Json :=
  [exampleElements, .string (text "ab")]

def exampleParse (input : Bytes) : Option Json :=
  if input = text "s" then some (.array (Parameter.signatures exampleParameters))
  else if input = text "p" then some (.array exampleJson)
  else none

theorem exampleJson_spelled : Parameter.Spelled exampleJson exampleParameters :=
  .cons exampleElements_spelled (.cons rfl .nil)

theorem exampleParameters_short : (Parameter.encodings exampleParameters).length < 2 ^ 31 := by
  decide +kernel

theorem encode_exampleParameters :
    encode referenceLibrary exampleParse (text "s") (text "p") =
      .ok (Parameter.encodings exampleParameters) :=
  encode_eq_encodings referenceLibrary_encodes rfl rfl exampleJson_spelled
    (exampleParameters_short.trans (by decide))

end AutomatonCore.Interop.Ethereum
