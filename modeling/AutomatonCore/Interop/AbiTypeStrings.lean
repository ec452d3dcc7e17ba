import AutomatonCore.Interop.AbiSpec

/-!
# Type strings and the types they spell
-/

namespace AutomatonCore.Interop.Ethereum

open Io List

theorem positions_append (c : UInt8) (start : Nat) (first second : Bytes) :
    positions c start (first ++ second) =
      positions c start first ++ positions c (start + first.length) second := by
  induction first generalizing start with
  | nil => simp [positions]
  | cons a first ih =>
    have shift : start + (a :: first).length = start + 1 + first.length := by
      simp only [length_cons]
      omega
    simp only [cons_append, positions, ih, shift]
    split <;> rfl

theorem positions_eq_nil {c : UInt8} {s : Bytes} (absent : c ∉ s)
    (start : Nat) : positions c start s = [] := by
  induction s generalizing start with
  | nil => rfl
  | cons a s ih =>
    simp only [mem_cons, not_or] at absent
    rw [positions, if_neg (Ne.symm absent.1), ih absent.2]

theorem lastSuffix_eq_none {s : Bytes} (absent : 91 ∉ s) (start : Nat) :
    lastSuffix start s = none := by
  have later : (91 : UInt8) ∉ s.drop start := fun mem => absent (mem_of_mem_drop mem)
  simp [lastSuffix, positions_eq_nil later]

theorem lastSuffix_append {base inner : Bytes} {start : Nat}
    (ne : base ≠ []) (within : start ≤ base.length)
    (noOpening : 91 ∉ inner) (noClosing : 93 ∉ inner) :
    lastSuffix start (base ++ 91 :: (inner ++ [93])) =
      some (base.length, base.length + 1 + inner.length) := by
  have nothing : positions 91 (base.length + 1) (inner ++ [93]) = [] :=
    positions_eq_nil (by simpa using noOpening) _
  have opening : positions 91 start ((base ++ 91 :: (inner ++ [93])).drop start) =
        positions 91 start (base.drop start) ++ [base.length] := by
    rw [drop_append_of_le_length within, positions_append,
      length_drop, Nat.add_sub_of_le within, positions, if_pos rfl, nothing]
  have rest : (base ++ 91 :: (inner ++ [93])).drop (base.length + 1) = inner ++ [93] := by
    rw [← drop_drop, drop_left]
    rfl
  have closing : find 93 (base.length + 1) (base ++ 91 :: (inner ++ [93])) =
        some (base.length + 1 + inner.length) := by
    rw [find, rest, positions_append, positions_eq_nil noClosing]
    rfl
  have pos : base.length ≠ 0 := by simpa using ne
  simp [lastSuffix, opening, closing, pos]

namespace ContractType

def abiType : ContractType → AbiType
  | bool | uint _ | int _ => .numerical
  | address | fixedBytes _ => .fixedSizeBytes
  | bytes => .dynamicSizeBytes
  | string => .string
  | array element => element.abiType
  | fixedArray element _ => element.abiType

def arrayType : ContractType → AbiArrayType
  | array _ => .dynamic
  | fixedArray element _ =>
    if element.isDynamic then .dynamic else .fixed
  | _ => .noArray

def arrayLength : ContractType → Nat
  | fixedArray _ length => length
  | _ => 0

/-- What `get_type` should read off the type string. -/
def paramType (type : ContractType) : ParamType :=
  ⟨type.render, type.abiType, type.arrayType, type.arrayLength⟩

theorem render_ne_nil (type : ContractType) : type.render ≠ [] := by
  cases type <;> simp [render, text]

theorem isDynamic_iff (type : ContractType) :
    type.isDynamic = true ↔ type.arrayType = .dynamic ∨ type.abiType = .dynamicSizeBytes ∨
      type.abiType = .string := by
  induction type with
  | array elem => simp [isDynamic, arrayType]
  | fixedArray elem length ih =>
    cases dynamic : elem.isDynamic <;>
      simp_all [isDynamic, arrayType, abiType]
  | _ => simp [isDynamic, arrayType, abiType]

@[simp]
theorem inTail_paramType (type : ContractType) : type.paramType.inTail = type.isDynamic := by
  rw [Bool.eq_iff_iff, isDynamic_iff, ParamType.inTail, decide_eq_true_iff]
  tauto

theorem decimal_no_bracket (n : Nat) : 91 ∉ decimal n ∧ 93 ∉ decimal n := by
  constructor <;>
    intro mem <;>
    exact absurd (isDigit_of_mem_decimal mem) (by decide)

theorem getTypeLoop_elementary (rounds : Nat) {s : Bytes} (absent : 91 ∉ s) :
    getTypeLoop rounds s = .ok ⟨s, elementaryType s, .noArray, 0⟩ := by
  cases rounds with
  | zero => rfl
  | succ rounds => simp [getTypeLoop, lastSuffix_eq_none absent]

variable {rounds n count : Nat} {inner : Bytes}

theorem getTypeLoop_suffix {base : Bytes}
    {elem : ContractType} {length : Nat} (ne : base ≠ []) (noOpening : 91 ∉ inner)
    (noClosing : 93 ∉ inner) (elements : getTypeLoop rounds base = .ok elem.paramType)
    (reads :
      suffixLength (base ++ 91 :: (inner ++ [93])) base.length (base.length + 1 + inner.length) =
        .ok length) :
    getTypeLoop (rounds + 1) (base ++ 91 :: (inner ++ [93])) = .ok
        ⟨base ++ 91 :: (inner ++ [93]), elem.abiType,
          if elem.isDynamic ∨ length = 0 then .dynamic else .fixed,
          length⟩ := by
  have suffix := lastSuffix_append ne (Nat.zero_le _) noOpening noClosing
  have condition : (elem.arrayType = .dynamic ∨ length = 0 ∨ elem.abiType = .dynamicSizeBytes ∨
          elem.abiType = .string) ↔ (elem.isDynamic = true ∨ length = 0) := by
    rw [isDynamic_iff]
    tauto
  simp only [getTypeLoop, suffix, reads, take_left, elements, ok_bind,
    pure_eq_ok, paramType, condition]

theorem stoi_decimal (small : n < 2 ^ 31) : stoi (decimal n) = .ok (n : Int) := by
  have fits : -2 ^ 31 ≤ (n : Int) ∧ (n : Int) < 2 ^ 31 := by omega
  simp only [stoi, strtol_decimal]
  rw [if_pos fits]

theorem suffixLength_decimal (small : n < 2 ^ 31) (base : Bytes) :
    suffixLength (base ++ 91 :: (decimal n ++ [93])) base.length
        (base.length + 1 + (decimal n).length) = .ok n := by
  have pos : 0 < (decimal n).length := length_pos_of_ne_nil (decimal_ne_nil n)
  have digits : ((base ++ 91 :: (decimal n ++ [93])).drop (base.length + 1)).take
          (base.length + 1 + (decimal n).length - base.length - 1) = decimal n := by
    have count : base.length + 1 + (decimal n).length - base.length - 1 = (decimal n).length := by
      omega
    rw [← drop_drop, drop_left, count]
    exact take_left
  rw [suffixLength, if_pos (by omega), digits, stoi_decimal small]
  simp only [ok_bind]
  congr 1
  omega

theorem render_array (elem : ContractType) :
    (array elem).render = elem.render ++ 91 :: ([] ++ [93]) := by
  simp +decide [render, text]

theorem render_fixedArray (elem : ContractType) (length : ArrayLength) :
    (fixedArray elem length).render = elem.render ++ 91 :: (decimal length ++ [93]) := by
  simp +decide [render, text]

def Elementary : ContractType → Prop
  | array _ | fixedArray _ _ => False
  | _ => True

theorem Elementary.no_bracket {type : ContractType}
    (elementary : type.Elementary) : 91 ∉ type.render := by
  have digits (n : Nat) := (decimal_no_bracket n).1
  cases type <;>
    simp_all +decide [Elementary, render, text]

theorem Elementary.elementaryType_render {type : ContractType} (elementary : type.Elementary) :
    elementaryType type.render = type.abiType := by
  cases type with
  | fixedBytes width =>
    have digits := decimal_ne_nil width.1
    simp [render, elementaryType, abiType, text, digits]
  | uint width => simp +decide [render, elementaryType, abiType, text]
  | int width => simp +decide [render, elementaryType, abiType, text]
  | array elem => exact elementary.elim
  | fixedArray elem length => exact elementary.elim
  | _ => decide

theorem Elementary.paramType_eq {type : ContractType} (elementary : type.Elementary) :
    type.paramType = ⟨type.render, type.abiType, .noArray, 0⟩ := by
  cases type <;> first | rfl | exact elementary.elim

theorem Elementary.getTypeLoop_render {type : ContractType}
    (elementary : type.Elementary) (rounds : Nat) :
    getTypeLoop rounds type.render = .ok type.paramType := by
  rw [getTypeLoop_elementary rounds elementary.no_bracket,
    elementary.elementaryType_render, elementary.paramType_eq]

theorem getTypeLoop_render (type : ContractType) (enough : type.render.length ≤ rounds) :
    getTypeLoop rounds type.render = .ok type.paramType := by
  induction type generalizing rounds with
  | array elem ih =>
    rw [render_array] at enough ⊢
    simp only [length_append, length_cons] at enough
    obtain ⟨fewer, rfl⟩ : ∃ fewer, rounds = fewer + 1 := Nat.exists_eq_succ_of_ne_zero (by omega)
    have reads : suffixLength (elem.render ++ 91 :: ([] ++ [93])) elem.render.length
            (elem.render.length + 1 + ([] : Bytes).length) = .ok 0 := by
      simp [suffixLength]
    rw [getTypeLoop_suffix elem.render_ne_nil (by simp) (by simp)
      (ih (by omega)) reads, paramType, render_array]
    simp [abiType, arrayType, arrayLength]
  | fixedArray elem length ih =>
    rw [render_fixedArray] at enough ⊢
    simp only [length_append, length_cons] at enough
    obtain ⟨fewer, rfl⟩ : ∃ fewer, rounds = fewer + 1 := Nat.exists_eq_succ_of_ne_zero (by omega)
    obtain ⟨noOpening, noClosing⟩ := decimal_no_bracket length.1
    have pos : length.1 ≠ 0 := by omega
    rw [getTypeLoop_suffix elem.render_ne_nil noOpening noClosing (ih (by omega))
      (suffixLength_decimal length.2.2 elem.render), paramType, render_fixedArray]
    simp [abiType, arrayType, arrayLength, pos]
  | _ =>
    apply Elementary.getTypeLoop_render
    trivial

theorem getType_render (type : ContractType) : getType type.render = .ok type.paramType :=
  type.getTypeLoop_render (le_rfl)

theorem extractArrayType_suffix (elem : ContractType)
    (noOpening : 91 ∉ inner) (noClosing : 93 ∉ inner) :
    extractArrayType (elem.render ++ 91 :: (inner ++ [93])) = .ok elem.paramType := by
  have suffix :=
    lastSuffix_append elem.render_ne_nil
      (length_pos_of_ne_nil elem.render_ne_nil) noOpening noClosing
  have nothing : (elem.render ++ 91 :: (inner ++ [93])).drop
          (elem.render.length + 1 + inner.length + 1) = [] := by
    apply drop_eq_nil_of_le
    simp only [length_append, length_cons, length_nil]
    omega
  simp only [extractArrayType, suffix, nothing, take_left, append_nil, getType_render]

theorem extractArrayType_array (elem : ContractType) :
    extractArrayType (array elem).render = .ok elem.paramType := by
  rw [render_array]
  exact extractArrayType_suffix elem (by simp) (by simp)

theorem extractArrayType_fixedArray (elem : ContractType) (length : ArrayLength) :
    extractArrayType (fixedArray elem length).render = .ok elem.paramType := by
  obtain ⟨noOpening, noClosing⟩ := decimal_no_bracket length.1
  rw [render_fixedArray]
  exact extractArrayType_suffix elem noOpening noClosing

/-- The size of a head in words. -/
def headWords : ContractType → Nat
  | fixedArray element length =>
    if element.isDynamic then 1 else length * element.headWords
  | _ => 1

theorem headWords_of_not_fixed {type : ContractType}
    (notFixed : type.arrayType ≠ .fixed) : type.headWords = 1 := by
  cases type with
  | fixedArray elem length =>
    cases dynamic : elem.isDynamic <;>
      simp_all [arrayType, headWords]
  | _ => rfl

theorem elementCount_of_not_fixed {type : ContractType} (notFixed : type.arrayType ≠ .fixed)
    (enough : type.render.length < rounds) (small : count < 2 ^ 32) :
    elementCount rounds type.paramType count = .ok (count * type.headWords % 2 ^ 32) := by
  obtain ⟨fewer, rfl⟩ : ∃ fewer, rounds = fewer + 1 := Nat.exists_eq_succ_of_ne_zero (by omega)
  rw [elementCount, paramType, if_neg notFixed,
    headWords_of_not_fixed notFixed, mul_one, Nat.mod_eq_of_lt small, pure_eq_ok]

theorem elementCount_paramType (type : ContractType)
    (enough : type.render.length < rounds) (small : count < 2 ^ 32) :
    elementCount rounds type.paramType count = .ok (count * type.headWords % 2 ^ 32) := by
  induction type generalizing rounds count with
  | fixedArray elem length ih =>
    by_cases dynamic : elem.isDynamic
    · apply elementCount_of_not_fixed _ enough small
      simp [arrayType, dynamic]
    · obtain ⟨fewer, rfl⟩ : ∃ fewer, rounds = fewer + 1 := Nat.exists_eq_succ_of_ne_zero (by omega)
      have fixed : (fixedArray elem length).paramType.sArrayType = .fixed := by
        simp [paramType, arrayType, dynamic]
      have shorter : elem.render.length < fewer := by
        rw [render_fixedArray] at enough
        simp only [length_append, length_cons] at enough
        omega
      rw [elementCount, if_pos fixed, paramType, extractArrayType_fixedArray, ok_bind,
        ih shorter (Nat.mod_lt _ (by omega)), headWords,
        if_neg dynamic, arrayLength, Nat.mod_mul_mod, mul_assoc]
  | _ =>
    apply elementCount_of_not_fixed _ enough small
    simp [arrayType]

theorem offsetLoop_render (types : List ContractType) {offset : Nat} (small : offset < 2 ^ 32) :
    offsetLoop (types.map render) offset =
      .ok ((offset + (types.map fun type => 32 * type.headWords).sum) % 2 ^ 32) := by
  induction types generalizing offset with
  | nil =>
    rw [map_nil, map_nil, sum_nil, offsetLoop, add_zero, Nat.mod_eq_of_lt small, pure_eq_ok]
  | cons type types ih =>
    have count :
        elementCount (type.render.length + 1) type.paramType 1 = .ok (type.headWords % 2 ^ 32) := by
      rw [type.elementCount_paramType (Nat.lt_succ_self _) (by omega), one_mul]
    simp only [map_cons, offsetLoop, getType_render, ok_bind, sum_cons]
    split
    · rw [show type.paramType.str = type.render from rfl, count, ok_bind,
        ih (Nat.mod_lt _ (by omega))]
      congr 1
      omega
    next notFixed =>
      rw [ih (Nat.mod_lt _ (by omega)), headWords_of_not_fixed notFixed]
      congr 1
      omega

theorem calculateOffset_render (types : List ContractType) :
    calculateOffset (types.map render) =
      .ok ((types.map fun type => 32 * type.headWords).sum % 2 ^ 32) := by
  rw [calculateOffset, offsetLoop_render types (by omega), zero_add]

theorem calculateOffset_singleton (type : ContractType) :
    calculateOffset [type.render] = .ok (32 * type.headWords % 2 ^ 32) := by
  simpa using calculateOffset_render [type]

theorem abiType_of_static {type : ContractType} (static : type.isDynamic = false) :
    type.abiType = .numerical ∨ type.abiType = .fixedSizeBytes := by
  induction type with
  | fixedArray elem length ih => exact ih static
  | _ => simp_all [isDynamic, abiType]

end ContractType

/-! ## Integers -/

theorem contains_of_eq_append {s part : Bytes} (before after : Bytes)
    (shape : s = before ++ part ++ after) : contains s part = true := by
  subst shape
  simp only [contains, any_eq_true, mem_tails, isPrefixOf_iff_prefix]
  refine ⟨part ++ after, ?_, prefix_append part after⟩
  rw [append_assoc]
  exact suffix_append before (part ++ after)

structure ParamType.Integral (t : ParamType) (isSigned : Bool) : Prop where
  numerical : t.sType = .numerical
  notBool : t.str ≠ text "bool"
  isInt : contains t.str (text "int") = true
  sign : decide (t.str.head? ≠ some 117) = isSigned

theorem ContractType.integral_uint (width : IntegerWidth) :
    (uint width).paramType.Integral false where
  numerical := rfl
  notBool := by simp +decide [paramType, render, text]
  isInt := contains_of_eq_append (text "u") (decimal width) rfl
  sign := by simp +decide [paramType, render, text]

theorem ContractType.integral_int (width : IntegerWidth) :
    (int width).paramType.Integral true where
  numerical := rfl
  notBool := by simp +decide [paramType, render, text]
  isInt := contains_of_eq_append [] (decimal width) rfl
  sign := by simp +decide [paramType, render, text]

end AutomatonCore.Interop.Ethereum
