import AutomatonCore.Interop.AbiEncoding

/-!
# The decoder reads the encoding of the contract ABI
-/

namespace AutomatonCore.Interop.Ethereum

open Io Library List
open ContractType (word sequence)

theorem substr_stands {data content : Bytes} {pos count : Nat}
    (stands : StandsAt data pos content) (length : content.length = count) (positive : 0 < count) :
    substr data pos count = .ok content := by
  have bound := stands.bound
  rw [substr, if_neg (by omega), ← length, stands.take_eq, pure_eq_ok]

theorem wordNumber_complete {whole : Bool} {s : Bytes} (complete : s.length = 32) :
    wordNumber whole s = .ok (u256ToU64 s) :=
  if_neg fun short => short.2 complete

theorem toInt_u256ToU64_word {n : Nat} (small : n < 2 ^ 63) :
    (u256ToU64 (word n)).toInt64.toInt = n := by
  have value := toNat_u256ToU64_word (show n < 2 ^ 64 by omega)
  have positive : 2 * (u256ToU64 (word n)).toBitVec.toNat < 2 ^ 64 := by
    rw [UInt64.toNat_toBitVec]
    omega
  exact (BitVec.toInt_eq_toNat_of_lt positive).trans (congrArg Nat.cast value)

namespace ContractType

variable {whole : Bool} {lib : IntegerLibrary}

/-- A reader returns the rendering of the values of a type, where their
encoding stands in the data. -/
def RenderedBy (read : Nat → Result Bytes) (data : Bytes) (type : ContractType) : Prop :=
  ∀ {value : type.Value} {pos : Nat}, StandsAt data pos (type.encoding value) →
    read pos = .ok (type.compact value)

variable {elem : ContractType} {read : Nat → Result Bytes} {data : Bytes}

variable {pos depth : Nat} {value : Bytes}

/-- Elements of static size stand one after the other. -/
theorem decodeElements_rendered (static : elem.isDynamic = false)
    (rendered : elem.RenderedBy read data) {size : Result Nat}
    (step : size = .ok (32 * elem.headWords)) (value : elem.Value)
    (values : List elem.Value) (i : Nat) {limit : Nat} (few : i + values.length < limit)
    (stands : StandsAt data pos ((value :: values).flatMap elem.encoding)) :
    decodeElements read size limit values.length i pos =
      .ok (intercalate (text ",") ((value :: values).map elem.compact)) := by
  induction values generalizing value i pos with
  | nil => simpa [decodeElements] using rendered stands.left
  | cons next values ih =>
    rw [length_cons] at few
    have first := rendered stands.left
    have rest := stands.right
    rw [length_encoding_static static] at rest
    rw [length_cons, decodeElements, first, step, ok_bind, ok_bind,
      if_neg (by omega), ← step, ih next (i + 1) (by omega) rest, ok_bind, pure_eq_ok]
    simp [intercalate]

variable {start offset : Nat} {length : ArrayLength} {isSigned : Bool} {encoded : Bytes} {n : Int}

theorem decodeReference_rendered (rendered : elem.RenderedBy read data)
    (small : data.length < 2 ^ 31) {value : elem.Value}
    {slot : Nat} (word : StandsAt data slot (word offset))
    (stands : StandsAt data (start + offset) (elem.encoding value)) :
    decodeReference whole read data start slot = .ok (elem.compact value) := by
  have bound := stands.bound
  have words := elem.length_encoding_pos value
  have offsetRead := toNat_u256ToU64_word (show offset < 2 ^ 64 by omega)
  rw [decodeReference, substr_stands word (length_word offset) (by omega), ok_bind,
    wordNumber_complete (length_word offset), ok_bind, offsetRead, Nat.mod_eq_of_lt (by omega),
    rendered stands]

/-- Elements of dynamic size are found through their offsets. -/
theorem decodeReferences_rendered (dynamic : elem.isDynamic = true)
    (rendered : elem.RenderedBy read data) (small : data.length < 2 ^ 31) (value : elem.Value)
    (values : List elem.Value) (i : Nat)
    {len : Int} (first : 0 < i) (count : len = i + values.length)
    (located :
      Located word 32 data start (start + 32 * (i - 1)) offset (elem.parts (value :: values))) :
    decodeReferences whole read data start len values.length i =
      .ok (intercalate (text ",") ((value :: values).map elem.compact)) := by
  have shape (value : elem.Value) (values : List elem.Value) :
      elem.parts (value :: values) =
        .referenced (elem.encoding value) :: elem.parts values := by
    simp [parts, part, dynamic]
  induction values generalizing value i offset with
  | nil =>
    rw [shape] at located
    obtain ⟨word, stands, _⟩ := located
    have bound := word.bound
    rw [length_word] at bound
    have distance : 32 * (len - 1) = (32 * (i - 1) : Nat) := by
      simp only [length_nil] at count
      omega
    have slot : (((start : Int) + (32 * (i - 1) : Nat)) % 2 ^ 64).toNat = start + 32 * (i - 1) := by
      omega
    rw [length_nil, decodeReferences]
    simp only [distance, slot]
    rw [if_pos (by omega), decodeReference_rendered rendered small word stands]
    simp
  | cons next values ih =>
    rw [shape] at located
    obtain ⟨word, stands, rest⟩ := located
    have bound := word.bound
    rw [length_word] at bound
    have slot : start + 32 * (i - 1) + 32 = start + 32 * (i + 1 - 1) := by omega
    rw [slot] at rest
    rw [length_cons] at count
    rw [length_cons, decodeReferences, if_neg (by omega),
      decodeReference_rendered rendered small word stands, ok_bind,
      ih next (i + 1) (by omega) (by push_cast at count ⊢; omega) rest, ok_bind, pure_eq_ok]
    simp [intercalate]

theorem decodeLength_reads {t : ParamType} {count : Nat} {rest : Bytes}
    (fits : t.arrayLen = 0 ∨ count = t.arrayLen) (small : count < 2 ^ 63)
    (stands : StandsAt data pos (lengthWord t count ++ rest)) :
    decodeLength whole t data pos = .ok ((count : Int), pos + (lengthWord t count).length) := by
  by_cases unknown : t.arrayLen = 0
  · simp only [lengthWord, if_pos unknown] at stands ⊢
    rw [decodeLength, if_pos unknown,
      substr_stands stands.left (length_word count) (by omega), ok_bind,
      wordNumber_complete (length_word count), ok_bind, toInt_u256ToU64_word small, length_word,
      pure_eq_ok]
  · have same : count = t.arrayLen := fits.resolve_left unknown
    rw [decodeLength, if_neg unknown, lengthWord, if_neg unknown, same]
    rfl

/-- The distance of neighbouring elements, computed with 32 bits. -/
def stride (type : ContractType) : Nat :=
  32 * type.headWords % 2 ^ 32

theorem calculateOffset_stride (type : ContractType) :
    calculateOffset [type.paramType.str] = .ok type.stride :=
  type.calculateOffset_singleton

theorem stride_of_not_fixed {type : ContractType}
    (notFixed : type.arrayType ≠ .fixed) : type.stride = 32 := by
  simp [stride, headWords_of_not_fixed notFixed]

theorem headSize_paramType (type : ContractType) : headSize type.paramType = .ok type.stride := by
  rw [headSize]
  split
  · exact type.calculateOffset_stride
  next notFixed =>
    rw [stride_of_not_fixed notFixed, pure_eq_ok]

theorem stride_of_stands (static : elem.isDynamic = false)
    (small : data.length < 2 ^ 31) {value : elem.Value}
    (stands : StandsAt data pos (elem.encoding value)) :
    elem.stride = 32 * elem.headWords := by
  have bound := stands.bound
  rw [length_encoding_static static] at bound
  exact Nat.mod_eq_of_lt (by omega)

theorem not_plain_of_isDynamic (dynamic : elem.isDynamic = true) :
    ¬ (elem.paramType.sArrayType = .noArray ∧ (elem.paramType.sType = .numerical ∨
      elem.paramType.sType = .fixedSizeBytes)) := by
  simp only [paramType]
  rcases elem.isDynamic_iff.mp dynamic with array | bytes | string
  · simp [array]
  · simp [bytes]
  · simp [string]

theorem plain_of_static (static : elem.isDynamic = false)
    (notFixed : elem.paramType.sArrayType ≠ .fixed) :
    elem.paramType.sArrayType = .noArray ∧ (elem.paramType.sType = .numerical ∨
      elem.paramType.sType = .fixedSizeBytes) := by
  refine ⟨?_, abiType_of_static static⟩
  have notDynamic : elem.arrayType ≠ .dynamic := by
    intro dynamic
    have := elem.isDynamic_iff.mpr (.inl dynamic)
    simp [static] at this
  cases kind : elem.arrayType with
  | noArray => exact kind
  | fixed => exact absurd kind notFixed
  | dynamic => exact absurd kind notDynamic

/-- The branches of `decode_param` for arrays with a length word or with
references, in terms of the type of the elements. -/
theorem decodeParam_dynamic_eq {t : ParamType} (dynamicArray : t.sArrayType = .dynamic)
    (elementType : extractArrayType t.str = .ok elem.paramType) :
    decodeParam whole lib data (depth + 1) t pos = (do
      let (len, start) ← decodeLength whole t data pos
      if len = 0 then return text "[]"
      else
        let read := decodeParam whole lib data depth elem.paramType
        let body ←
          if elem.isDynamic then decodeReferences whole read data start len (len - 1).toNat 1
          else decodeElements read (.ok elem.stride) (2 ^ 31) (len - 1).toNat 1 start
        return text "[" ++ body ++ text "]") := by
  have notFixed : t.sArrayType ≠ .fixed := by simp [dynamicArray]
  rw [decodeParam, if_neg notFixed, if_pos dynamicArray]
  simp only [elementType, ok_bind]
  cases dynamic : elem.isDynamic with
  | true =>
    have notFixedElement : elem.paramType.sArrayType ≠ .fixed := arrayType_ne_fixed dynamic
    simp only [if_neg (not_plain_of_isDynamic dynamic), if_neg notFixedElement,
      inTail_paramType, dynamic, if_true]
  | false =>
    by_cases fixed : elem.paramType.sArrayType = .fixed
    · simp [fixed, calculateOffset_stride]
    · simp only [if_pos (plain_of_static dynamic fixed), stride_of_not_fixed fixed,
        Bool.false_eq_true, if_false, pure_eq_ok]

theorem decodeParam_fixed_eq (static : elem.isDynamic = false) :
    decodeParam whole lib data (depth + 1) (fixedArray elem length).paramType pos = (do
      let body ← decodeElements (decodeParam whole lib data depth elem.paramType)
          (.ok elem.stride) (2 ^ 32) (length.1 - 1) 1 pos
      return text "[" ++ body ++ text "]") := by
  have fixedLength : (fixedArray elem length).paramType.sArrayType = .fixed := by
    simp [paramType, arrayType, static]
  have elementType :
      extractArrayType (fixedArray elem length).paramType.str = .ok elem.paramType :=
    elem.extractArrayType_fixedArray length
  rw [decodeParam, if_pos fixedLength, elementType, ok_bind]
  by_cases fixed : elem.paramType.sArrayType = .fixed
  · rw [if_pos fixed, calculateOffset_stride]
    rfl
  · rw [if_neg fixed, if_pos (plain_of_static static fixed).2, stride_of_not_fixed fixed]
    rfl

theorem decodeParam_dynamicArray {t : ParamType} (dynamicArray : t.sArrayType = .dynamic)
    (elementType : extractArrayType t.str = .ok elem.paramType)
    (rendered : elem.RenderedBy (decodeParam whole lib data depth elem.paramType) data)
    (small : data.length < 2 ^ 31) {values : List elem.Value}
    (count : t.arrayLen = 0 ∨ values.length = t.arrayLen)
    (stands : StandsAt data pos (lengthWord t values.length ++ sequence (elem.parts values))) :
    decodeParam whole lib data (depth + 1) t pos =
      .ok (text "[" ++ intercalate (text ",") (values.map elem.compact) ++ text "]") := by
  have words := elem.headWords_pos
  have body := stands.right
  have bound := body.bound
  rw [length_sequence, headsLength_parts] at bound
  have few : values.length * 32 ≤ data.length := by
    have product : values.length * 32 ≤ values.length * (32 * elem.headWords) :=
      Nat.mul_le_mul_left _ (by omega)
    omega
  rw [decodeParam_dynamic_eq dynamicArray elementType,
    decodeLength_reads count (by omega) stands, ok_bind]
  cases values with
  | nil => rfl
  | cons value values =>
    have nonzero : ((value :: values).length : Int) ≠ 0 := by
      rw [length_cons]
      omega
    have rounds : (((value :: values).length : Int) - 1).toNat = values.length := by simp
    simp only [if_neg nonzero, rounds]
    cases dynamic : elem.isDynamic with
    | true =>
      have total : ((value :: values).length : Int) = (1 : Nat) + values.length := by omega
      rw [if_pos rfl, decodeReferences_rendered dynamic rendered small value values 1 Nat.one_pos
        total (body.located length_word), ok_bind, pure_eq_ok]
    | false =>
      rw [sequence_static dynamic] at body
      rw [stride_of_stands dynamic small body.left, if_neg (by simp),
        decodeElements_rendered dynamic rendered rfl value values 1 (by omega) body,
        ok_bind, pure_eq_ok]

theorem decodeParam_fixedArray (static : elem.isDynamic = false)
    (rendered : elem.RenderedBy (decodeParam whole lib data depth elem.paramType) data)
    (small : data.length < 2 ^ 31)
    {values : (fixedArray elem length).Value}
    (stands : StandsAt data pos ((fixedArray elem length).encoding values)) :
    decodeParam whole lib data (depth + 1) (fixedArray elem length).paramType pos =
      .ok ((fixedArray elem length).compact values) := by
  have body : StandsAt data pos (values.1.flatMap elem.encoding) := by
    rw [← sequence_static static]
    exact stands
  obtain ⟨values, count⟩ := values
  obtain ⟨value, rest, rfl⟩ : ∃ value rest, values = value :: rest :=
    exists_cons_of_length_pos (by omega)
  have rounds : length.1 - 1 = rest.length := by
    rw [length_cons] at count
    omega
  rw [decodeParam_fixed_eq static, stride_of_stands static small body.left, rounds,
    decodeElements_rendered static rendered rfl value rest 1 (by omega) body]
  rfl

/-! ## Types that are not arrays -/

theorem decodeElementary_bytes {t : ParamType}
    (kind : t.sType = .dynamicSizeBytes ∨ t.sType = .string) (small : data.length < 2 ^ 31)
    (stands : StandsAt data pos (word value.length ++ padded value)) :
    decodeElementary whole lib t data pos =
      .ok (quoted (if t.sType = .string then value else bin2hex value)) := by
  have rest := stands.right
  have bound := rest.bound
  rw [length_word] at rest bound
  have short := length_le_padded value
  have content : substr data (pos + 32) value.length = .ok value := by
    rw [substr, if_neg]
    · rw [rest.left.take_eq, pure_eq_ok]
    · have whole := stands.bound
      rw [length_append, length_word] at whole
      omega
  rw [decodeElementary, if_pos kind, substr_stands stands.left (length_word _) (by omega), ok_bind,
    wordNumber_complete (length_word _), ok_bind, toNat_u256ToU64_word (by omega), content,
    ok_bind, pure_eq_ok]

theorem i256ToDec_prints (decodes : lib.Decodes) (width : encoded.length = 32)
    (decoded : lib.decode encoded isSigned = n) :
    i256ToDec lib isSigned encoded = .ok (decimalInt n) := by
  rw [i256ToDec, if_neg (by omega), if_neg (by omega),
    take_of_length_le (by omega), decoded, decodes.print, pure_eq_ok]
  congr 1
  exact dropLast_concat

theorem decodeElementary_bool_eq :
    decodeElementary whole lib bool.paramType data pos = (do
      let res ← substr data pos 32
      let k ← wordNumber whole res
      return if k > 0 then text "true" else text "false") :=
  rfl

theorem decodeElementary_bool {value : Bool} (stands : StandsAt data pos (word value.toNat)) :
    decodeElementary whole lib bool.paramType data pos =
      .ok (cond value (text "true") (text "false")) := by
  rw [decodeElementary_bool_eq, substr_stands stands (length_word _) (by omega), ok_bind,
    wordNumber_complete (length_word _), ok_bind, pure_eq_ok]
  cases value <;> rfl

theorem decodeElementary_integer_eq {t : ParamType} (integral : t.Integral isSigned) :
    decodeElementary whole lib t data pos = (do
      let res ← substr data pos 32
      return quoted (← i256ToDec lib isSigned res)) := by
  have kind : ¬ (t.sType = .dynamicSizeBytes ∨ t.sType = .string) := by simp [integral.numerical]
  rw [decodeElementary, if_neg kind, if_pos integral.numerical]
  simp only [if_neg integral.notBool, if_pos integral.isInt, integral.sign]

theorem decodeElementary_integer (decodes : lib.Decodes)
    {t : ParamType} (integral : t.Integral isSigned)
    (width : encoded.length = 32)
    (decoded : lib.decode encoded isSigned = n) (stands : StandsAt data pos encoded) :
    decodeElementary whole lib t data pos = .ok (quoted (decimalInt n)) := by
  rw [decodeElementary_integer_eq integral, substr_stands stands width (by omega), ok_bind,
    i256ToDec_prints decodes width decoded, ok_bind, pure_eq_ok]

theorem decodeElementary_address_eq :
    decodeElementary whole lib address.paramType data pos = (do
      let res ← substr data pos 32
      return quoted (bin2hex (← substr res 12 20))) :=
  rfl

theorem decodeElementary_address (size : value.length = 20)
    (stands : StandsAt data pos (List.replicate 12 0 ++ value)) :
    decodeElementary whole lib address.paramType data pos = .ok (quoted (bin2hex value)) := by
  have content : substr (List.replicate 12 0 ++ value) 12 20 = .ok value := by
    apply substr_stands _ size (by omega)
    exact ⟨[], by simp⟩
  have width : (List.replicate 12 (0 : UInt8) ++ value).length = 32 := by simp [size]
  rw [decodeElementary_address_eq, substr_stands stands width (by omega), ok_bind, content,
    ok_bind, pure_eq_ok]

theorem fixedBytesSize_fixedBytes (width : ByteWidth) :
    fixedBytesSize (fixedBytes width).paramType.str = .ok width.1 := by
  have digits : (decimal width.1).all isDigit = true :=
    all_eq_true.mpr fun _ => isDigit_of_mem_decimal
  have rest : (fixedBytes width).paramType.str.drop 5 = decimal width.1 := rfl
  have notFunction : (fixedBytes width).paramType.str ≠ text "function" := by
    simp +decide [paramType, render, text]
  have isBytes : (text "bytes").isPrefixOf (fixedBytes width).paramType.str = true := by
    rw [List.isPrefixOf_iff_prefix]
    exact prefix_append _ _
  simp only [fixedBytesSize, rest, if_neg notFunction]
  rw [if_pos ⟨isBytes, decimal_ne_nil _, digits⟩, digitsValue_decimal,
    if_pos (by omega), Nat.mod_eq_of_lt (by omega), pure_eq_ok]

theorem decodeElementary_fixedBytes_eq (width : ByteWidth) :
    decodeElementary whole lib (fixedBytes width).paramType data pos = (do
      return quoted (bin2hex (← substr data pos width.1))) := by
  have notAddress : (fixedBytes width).paramType.str ≠ text "address" := by
    simp +decide [paramType, render, text]
  have size := fixedBytesSize_fixedBytes width
  simp only [decodeElementary, size]
  rfl

theorem decodeElementary_fixedBytes (width : ByteWidth)
    (size : value.length = width.1) (stands : StandsAt data pos (padded value)) :
    decodeElementary whole lib (fixedBytes width).paramType data pos =
      .ok (quoted (bin2hex value)) := by
  rw [decodeElementary_fixedBytes_eq, substr_stands stands.left size width.2.1, ok_bind, pure_eq_ok]

theorem decodeParam_elementary (type : ContractType) (elementary : type.Elementary)
    (enough : type.render.length < depth) (pos : Nat) :
    decodeParam whole lib data depth type.paramType pos =
      decodeElementary whole lib type.paramType data pos := by
  obtain ⟨fewer, rfl⟩ : ∃ fewer, depth = fewer + 1 := Nat.exists_eq_succ_of_ne_zero (by omega)
  have kind : type.paramType.sArrayType = .noArray := by rw [elementary.paramType_eq]
  rw [decodeParam, if_neg (by simp [kind]), if_neg (by simp [kind])]

theorem uint_rendered (encodes : lib.Encodes) (decodes : lib.Decodes) (width : IntegerWidth)
    {value : (uint width).Value} (stands : StandsAt data pos ((uint width).encoding value)) :
    decodeElementary whole lib (uint width).paramType data pos =
      .ok ((uint width).compact value) := by
  have fits := uint_lt value
  have decoded : lib.decode (word value.1) false = value.1 := by
    rw [word, ← encodes.encodeUnsigned fits, decodes.decodeUnsigned fits]
  have printed : decimalInt value.1 = decimal value.1 := by simp [decimalInt]
  rw [decodeElementary_integer decodes (integral_uint width)
    (length_word _) decoded stands, printed]
  rfl

theorem int_rendered (encodes : lib.Encodes) (decodes : lib.Decodes) (width : IntegerWidth)
    {value : (int width).Value} (stands : StandsAt data pos ((int width).encoding value)) :
    decodeElementary whole lib (int width).paramType data pos =
      .ok ((int width).compact value) := by
  obtain ⟨lower, upper⟩ := int_bounds value
  have decoded : lib.decode (word (value.1 % 2 ^ 256).toNat) true = value.1 := by
    rw [word, ← encodes.encodeSigned lower upper, decodes.decodeSigned lower upper]
  rw [decodeElementary_integer decodes (integral_int width) (length_word _) decoded stands]
  rfl

/-- Where the encoding of a value stands in the data, `decode_param` returns
the compact rendering of the value. -/
theorem renderedBy_decodeParam (encodes : lib.Encodes)
    (decodes : lib.Decodes) (small : data.length < 2 ^ 31) (type : ContractType)
    (enough : type.render.length < depth) :
    type.RenderedBy (decodeParam whole lib data depth type.paramType) data := by
  intro value pos stands
  induction type generalizing depth pos with
  | array elem ih =>
    obtain ⟨fewer, rfl⟩ : ∃ fewer, depth = fewer + 1 := Nat.exists_eq_succ_of_ne_zero (by omega)
    have shorter : elem.render.length < fewer := by
      rw [render_array, length_append, length_cons] at enough
      omega
    exact decodeParam_dynamicArray (t := (array elem).paramType) rfl
        elem.extractArrayType_array (fun stands => ih shorter stands) small (.inl rfl) stands
  | fixedArray elem length ih =>
    obtain ⟨fewer, rfl⟩ : ∃ fewer, depth = fewer + 1 := Nat.exists_eq_succ_of_ne_zero (by omega)
    have shorter : elem.render.length < fewer := by
      rw [render_fixedArray, length_append, length_cons] at enough
      omega
    cases dynamic : elem.isDynamic with
    | true =>
      have dynamicArray : (fixedArray elem length).paramType.sArrayType = .dynamic := by
        simp [paramType, arrayType, dynamic]
      have noWord : lengthWord (fixedArray elem length).paramType value.1.length = [] :=
        if_neg (Nat.pos_iff_ne_zero.mp length.2.1)
      exact decodeParam_dynamicArray dynamicArray (elem.extractArrayType_fixedArray length)
          (fun stands => ih shorter stands) small (.inr value.2) (by rw [noWord]; exact stands)
    | false => exact decodeParam_fixedArray dynamic (fun stands => ih shorter stands) small stands
  | bool =>
    rw [decodeParam_elementary bool trivial enough]
    exact decodeElementary_bool stands
  | uint width =>
    rw [decodeParam_elementary (uint width) trivial enough]
    exact uint_rendered encodes decodes width stands
  | int width =>
    rw [decodeParam_elementary (int width) trivial enough]
    exact int_rendered encodes decodes width stands
  | address =>
    rw [decodeParam_elementary address trivial enough]
    exact decodeElementary_address value.2 stands
  | fixedBytes width =>
    rw [decodeParam_elementary (fixedBytes width) trivial enough]
    exact decodeElementary_fixedBytes width value.2 stands
  | bytes =>
    rw [decodeParam_elementary bytes trivial enough]
    exact decodeElementary_bytes (.inl rfl) small stands
  | string =>
    rw [decodeParam_elementary string trivial enough]
    exact decodeElementary_bytes (.inr rfl) small stands

end ContractType

namespace Parameter

variable {whole : Bool} {lib : IntegerLibrary} {data : Bytes}

variable {slot offset : Nat} {params : List Parameter}

theorem decodeLoop_first (whole : Bool) (encodes : lib.Encodes)
    (decodes : lib.Decodes) (small : data.length < 2 ^ 31)
    {type : ContractType} {value : type.Value}
    {parts : List (Library.Part UInt8)}
    (located : Located word 32 data 0 slot offset (part ⟨type, value⟩ :: parts)) :
    decodeHead whole lib data type.paramType slot = .ok (type.compact value) ∧
      ∃ size later, headSize type.paramType = .ok size ∧
        Located word 32 data 0 (slot + size) later parts := by
  have rendered :
      type.RenderedBy (decodeParam whole lib data (type.render.length + 2) type.paramType)
        data :=
    type.renderedBy_decodeParam encodes decodes small (by omega)
  rw [decodeHead, ContractType.inTail_paramType]
  cases dynamic : type.isDynamic with
  | true =>
    have shape : part ⟨type, value⟩ = .referenced (type.encoding value) := by
      simp [part, ContractType.part, dynamic]
    have notFixed : type.arrayType ≠ .fixed := ContractType.arrayType_ne_fixed dynamic
    rw [shape] at located
    obtain ⟨word, stands, rest⟩ := located
    have size := type.headSize_paramType
    rw [ContractType.stride_of_not_fixed notFixed] at size
    exact ⟨ContractType.decodeReference_rendered rendered small word stands, 32, _, size, rest⟩
  | false =>
    have shape : part ⟨type, value⟩ = .inPlace (type.encoding value) := by
      simp [part, ContractType.part, dynamic]
    rw [shape] at located
    obtain ⟨stands, rest⟩ := located
    have length := ContractType.length_encoding_static dynamic value
    rw [length, ← ContractType.stride_of_stands dynamic small stands] at rest
    exact ⟨rendered stands, _, offset, type.headSize_paramType, rest⟩

theorem decodeLoop_compacts (whole : Bool) (encodes : lib.Encodes)
    (decodes : lib.Decodes) (small : data.length < 2 ^ 31)
    (located : Located word 32 data 0 slot offset (params.map part)) :
    decodeLoop whole lib data (signatures params) slot =
      .ok (intercalate (text ",") (params.map fun param => param.1.compact param.2)) := by
  induction params generalizing slot offset with
  | nil => rfl
  | cons param params ih =>
    obtain ⟨first, size, later, step, rest⟩ := decodeLoop_first whole encodes decodes small located
    have others := ih rest
    simp only [signatures] at others
    simp only [signatures, map_cons, decodeLoop, Json.getString,
      pure_eq_ok, ok_bind, ContractType.getType_render, first, step, others]
    cases params with
    | nil => simp
    | cons next params => simp [intercalate]

theorem decode_encodings {lib : IntegerLibrary}
    (encodes : lib.Encodes) (decodes : lib.Decodes)
    {parse : Bytes → Option Json} {signaturesJson : Bytes}
    (types : parse signaturesJson = some (.array (signatures params)))
    (small : (encodings params).length < 2 ^ 31) :
    decode lib parse signaturesJson (encodings params) = .ok (compacts params) := by
  have stands : StandsAt (encodings params) 0 (sequence (params.map part)) :=
    ⟨[], by simp [encodings]⟩
  have decoded :=
    decodeLoop_compacts false encodes decodes small (stands.located ContractType.length_word)
  rw [decode, decodeWith, types]
  simp only [Json.items, decoded, ok_bind, pure_eq_ok, compacts]

end Parameter

/-- `decode` undoes `encode` up to the compact rendering. -/
theorem decode_encode {lib : IntegerLibrary}
    (encodes : lib.Encodes) (decodes : lib.Decodes)
    {parse : Bytes → Option Json} {signaturesJson parametersJson : Bytes}
    {params : List Parameter} {elements : List Json}
    (signatures : parse signaturesJson = some (.array (Parameter.signatures params)))
    (values : parse parametersJson = some (.array elements))
    (spelled : Parameter.Spelled elements params)
    (small : (Parameter.encodings params).length < 2 ^ 31) :
    (do
        let data ← encode lib parse signaturesJson parametersJson
        decode lib parse signaturesJson data) =
      (.ok (Parameter.compacts params) : Result Bytes) := by
  have encoded := Parameter.encode_of_spelled encodes signatures values spelled (by omega)
  rw [encoded]
  exact Parameter.decode_encodings encodes decodes signatures small

theorem referenceLibrary_decodes : referenceLibrary.Decodes where
  decodeUnsigned {n} small := by
    have value : ((n : Int) % 2 ^ 256).toNat = n := by omega
    have fits : n % 256 ^ 32 = n := Nat.mod_eq_of_lt small
    simp only [referenceLibrary, value, bigEndianValue_bigEndian, fits]
    simp
  decodeSigned {n} lower upper := by
    simp only [referenceLibrary, bigEndianValue_bigEndian, true_and]
    split <;> omega
  print _ := rfl

theorem decode_encode_exampleParameters :
    (do
        let data ← encode referenceLibrary exampleParse (text "s") (text "p")
        decode referenceLibrary exampleParse (text "s") data) =
      (.ok (Parameter.compacts exampleParameters) : Result Bytes) :=
  decode_encode referenceLibrary_encodes referenceLibrary_decodes rfl rfl
    exampleJson_spelled exampleParameters_short

example : Parameter.compacts exampleParameters = text "[[[\"1\",\"255\"]],\"ab\"]" := by
  decide +kernel

end AutomatonCore.Interop.Ethereum
