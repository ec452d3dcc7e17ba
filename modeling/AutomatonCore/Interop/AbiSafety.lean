import AutomatonCore.Interop.AbiDecoding

/-!
# Decoding data that nobody encoded

Which data `decode` reads without leaving them.  The offsets and the lengths
are words of the data, so the condition follows them.
-/

namespace AutomatonCore.Interop.Ethereum

open Io List

/-! ## The data that can be read -/

/-- Bytes can be taken at the position, and if `whole`, a word. -/
def Within (whole : Bool) (data : Bytes) (pos : Nat) : Prop :=
  pos ≤ data.length ∧ (whole = true → pos + 32 ≤ data.length)

/-- The number at a position, zero if the word is incomplete. -/
def numberAt (data : Bytes) (pos : Nat) : UInt64 :=
  u256ToU64 ((data.drop pos).take 32)

/-- The offset can be read, and what it refers to. -/
def ReferenceReadable (whole : Bool) (data : Bytes) (readable : Nat → Prop)
    (start slot : Nat) : Prop :=
  Within whole data slot ∧ readable ((start + (numberAt data slot).toNat) % 2 ^ 64)

/-- The offsets of `len` elements, the last of which is read even if `len` is
negative. -/
def ReferencesReadable (whole : Bool) (data : Bytes) (readable : Nat → Prop)
    (start : Nat) (len : Int) : Prop :=
  (∀ i < (len - 1).toNat,
      32 * i < 2 ^ 31 ∧ ReferenceReadable whole data readable start (start + 32 * i)) ∧
    (-2 ^ 63 ≤ 32 * (len - 1) ∧ 32 * (len - 1) < 2 ^ 63) ∧
      ReferenceReadable whole data readable start ((start + 32 * (len - 1)) % 2 ^ 64).toNat

namespace ContractType

/-- What `decode_param` visits for a value of the type at `pos` can be
read. -/
def Readable (whole : Bool) (data : Bytes) : ContractType → Nat → Prop
  | bool, pos => Within whole data pos
  -- nothing is converted if nothing is left
  | uint _, pos => pos = data.length ∨ pos + 32 ≤ data.length
  | int _, pos => pos = data.length ∨ pos + 32 ≤ data.length
  | address, pos => pos + 12 ≤ data.length
  | fixedBytes _, pos => pos ≤ data.length
  | bytes, pos => pos + 32 ≤ data.length
  | string, pos => pos + 32 ≤ data.length
  | array element, pos =>
    Within whole data pos ∧
      let len := (numberAt data pos).toInt64.toInt
      len = 0 ∨
        if element.isDynamic then
          ReferencesReadable whole data (element.Readable whole data) (pos + 32) len
        else
          (len - 1).toNat + 1 < 2 ^ 31 ∧ ∀ i < (len - 1).toNat + 1,
            element.Readable whole data (pos + 32 + i * element.stride)
  | fixedArray element length, pos =>
    if element.isDynamic then
      ReferencesReadable whole data (element.Readable whole data) pos length.1
    else ∀ i < length.1, element.Readable whole data (pos + i * element.stride)

/-- A parameter of dynamic size is read through its offset. -/
def HeadReadable (whole : Bool) (data : Bytes) (type : ContractType) (pos : Nat) : Prop :=
  if type.isDynamic then ReferenceReadable whole data (type.Readable whole data) 0 pos
  else type.Readable whole data pos

/-- All values whose heads stand from `pos` on can be read. -/
def HeadsReadable (whole : Bool) (data : Bytes) : List ContractType → Nat → Prop
  | [], _ => True
  | type :: types, pos =>
    type.HeadReadable whole data pos ∧ HeadsReadable whole data types (pos + type.stride)

end ContractType

/-! ## What returns -/

def Returns {α : Type} (result : Result α) : Prop :=
  ∃ value, result = .ok value

@[simp]
theorem returns_ok {α : Type} (v : α) : Returns (.ok v : Result α) := ⟨v, rfl⟩

@[simp]
theorem not_returns_error {α : Type} (fault : Fault) : ¬ Returns (.error fault : Result α) := by
  rintro ⟨v, equal⟩
  cases equal

@[simp]
theorem returns_bind {α β : Type} (result : Result α) (next : α → Result β) :
    Returns (result >>= next) ↔ ∃ v, result = .ok v ∧ Returns (next v) := by
  cases result with
  | error fault => simp [Returns, bind, Except.bind]
  | ok v => simp

theorem returns_bind_ok {α β : Type} (result : Result α) (v : α → β) :
    Returns (result >>= fun first => .ok (v first)) ↔ Returns result := by
  simp only [returns_bind, returns_ok, and_true]
  rfl

theorem returns_both {α β γ : Type} (first : Result α) (second : Result β) (join : α → β → γ) :
    Returns (do
        let left ← first
        let right ← second
        .ok (join left right)) ↔ Returns first ∧ Returns second := by
  cases first <;> cases second <;> simp [Returns, bind, Except.bind]

theorem substr_eq_ok {data taken : Bytes} {pos count : Nat} :
    substr data pos count = .ok taken ↔ pos ≤ data.length ∧ (data.drop pos).take count = taken := by
  by_cases beyond : pos > data.length
  · simp [substr, beyond]
  · simp [substr, beyond, not_lt.mp beyond]

theorem returns_substr (data : Bytes) (pos count : Nat) :
    Returns (substr data pos count) ↔ pos ≤ data.length := by
  simp [Returns, substr_eq_ok]

theorem returns_decodeElements {elem : Nat → Result Bytes}
    {size : Result Nat} {step : Nat} (distance : size = .ok step) (limit rounds i pos : Nat) :
    Returns (decodeElements elem size limit rounds i pos) ↔ (rounds = 0 ∨ i + rounds < limit) ∧
      ∀ j < rounds + 1, Returns (elem (pos + j * step)) := by
  induction rounds generalizing i pos with
  | zero => simp [decodeElements]
  | succ rounds ih =>
    have shift (j : Nat) : pos + step + j * step = pos + (j + 1) * step := by ring
    rw [Nat.forall_lt_succ_left]
    simp only [decodeElements, distance, ok_bind, pure_eq_ok]
    rw [distance] at ih
    by_cases few : i + 1 ≥ limit
    · have many : ¬ (rounds + 1 = 0 ∨ i + (rounds + 1) < limit) := by omega
      simp only [if_pos few, many]
      simp
    · have counter :
          (rounds = 0 ∨ i + 1 + rounds < limit) ↔ (rounds + 1 = 0 ∨ i + (rounds + 1) < limit) := by
        omega
      simp only [if_neg few, returns_both, ih, shift, zero_mul]
      tauto

section Decoder

variable {whole : Bool} {lib : IntegerLibrary} {data : Bytes}

variable {pos : Nat} {readable : Nat → Prop}

theorem word_bind {β : Type} (next : UInt64 → Result β) (within : Within whole data pos) :
    (do
        let s ← substr data pos 32
        let n ← wordNumber whole s
        next n) = next (numberAt data pos) := by
  have taken : substr data pos 32 = .ok ((data.drop pos).take 32) :=
    substr_eq_ok.mpr ⟨within.1, rfl⟩
  have complete : ¬ (whole = true ∧ ((data.drop pos).take 32).length ≠ 32) := by
    rintro ⟨checked, short⟩
    have inside := within.2 checked
    rw [length_take, length_drop] at short
    omega
  rw [taken, ok_bind, wordNumber, if_neg complete, pure_eq_ok, ok_bind]
  rfl

theorem within_of_word {β : Type} {next : UInt64 → Result β} {v : β} (equal :
      (do
          let s ← substr data pos 32
          let n ← wordNumber whole s
          next n) =
        .ok v) : Within whole data pos := by
  by_cases inside : pos ≤ data.length
  · refine ⟨inside, fun checked => ?_⟩
    have taken : substr data pos 32 = .ok ((data.drop pos).take 32) :=
      substr_eq_ok.mpr ⟨inside, rfl⟩
    by_contra short
    have incomplete : whole = true ∧ ((data.drop pos).take 32).length ≠ 32 := by
      rw [length_take, length_drop]
      exact ⟨checked, by omega⟩
    rw [taken, ok_bind, wordNumber, if_pos incomplete] at equal
    cases equal
  · rw [substr, if_pos (not_le.mp inside)] at equal
    cases equal

theorem returns_word {β : Type} {next : UInt64 → Result β} :
    Returns (do
        let s ← substr data pos 32
        let n ← wordNumber whole s
        next n) ↔ Within whole data pos ∧ Returns (next (numberAt data pos)) := by
  constructor
  · rintro ⟨v, equal⟩
    have within := within_of_word equal
    rw [word_bind next within] at equal
    exact ⟨within, v, equal⟩
  · rintro ⟨within, v, equal⟩
    exact ⟨v, by rw [word_bind next within, equal]⟩

theorem decodeLength_eq_ok {t : ParamType} (unknown : t.arrayLen = 0) {start : Nat} {len : Int} :
    decodeLength whole t data pos = .ok (len, start) ↔
      Within whole data pos ∧ (numberAt data pos).toInt64.toInt = len ∧ pos + 32 = start := by
  rw [decodeLength, if_pos unknown]
  constructor
  · intro equal
    have within := within_of_word equal
    rw [word_bind _ within] at equal
    cases equal
    exact ⟨within, rfl, rfl⟩
  · rintro ⟨within, rfl, rfl⟩
    rw [word_bind _ within, pure_eq_ok]

theorem returns_decodeReference {elem : Nat → Result Bytes}
    (elements : ∀ pos, Returns (elem pos) ↔ readable pos) (start slot : Nat) :
    Returns (decodeReference whole elem data start slot) ↔
      ReferenceReadable whole data readable start slot := by
  rw [decodeReference, returns_word, elements, ReferenceReadable]

theorem returns_decodeReferences_from {elem : Nat → Result Bytes}
    (elements : ∀ pos, Returns (elem pos) ↔ readable pos)
    (start : Nat) (len : Int) (rounds i : Nat) :
    Returns (decodeReferences whole elem data start len rounds (i + 1)) ↔
      (∀ j < rounds, 32 * (i + j) < 2 ^ 31 ∧
            ReferenceReadable whole data readable start (start + 32 * (i + j))) ∧
        (-2 ^ 63 ≤ 32 * (len - 1) ∧ 32 * (len - 1) < 2 ^ 63) ∧
          ReferenceReadable whole data readable start
            ((start + 32 * (len - 1)) % 2 ^ 64).toNat := by
  induction rounds generalizing i with
  | zero =>
    simp only [decodeReferences]
    split
    next defined =>
      rw [returns_decodeReference elements]
      exact ⟨fun last => ⟨by simp, defined, last⟩, fun all => all.2.2⟩
    next overflow =>
      simp only [overflow, not_returns_error, false_and, and_false]
  | succ rounds ih =>
    have shift (j : Nat) : i + 1 + j = i + (j + 1) := by omega
    rw [Nat.forall_lt_succ_left]
    simp only [decodeReferences, Nat.add_sub_cancel, add_zero]
    by_cases overflow : 32 * i ≥ 2 ^ 31
    · simp only [if_pos overflow, not_lt.mpr overflow, false_and, not_returns_error]
    · rw [if_neg overflow]
      simp only [pure_eq_ok, returns_both, ih, shift,
        returns_decodeReference elements, not_le.mp overflow, true_and, and_assoc]

theorem returns_decodeReferences {elem : Nat → Result Bytes}
    (elements : ∀ pos, Returns (elem pos) ↔ readable pos) (start : Nat) (len : Int) :
    Returns (decodeReferences whole elem data start len (len - 1).toNat 1) ↔
      ReferencesReadable whole data readable start len := by
  have loop :=
    @returns_decodeReferences_from whole data readable elem elements start len (len - 1).toNat 0
  simpa only [zero_add, ReferencesReadable] using loop

/-! ### Types that are not arrays -/

theorem returns_i256ToDec (isSigned : Bool) (pos : Nat) (inside : pos ≤ data.length) :
    Returns (i256ToDec lib isSigned ((data.drop pos).take 32)) ↔
      pos = data.length ∨ pos + 32 ≤ data.length := by
  have length : ((data.drop pos).take 32).length = min 32 (data.length - pos) := by
    rw [length_take, length_drop]
  simp only [i256ToDec]
  split
  · simp only [pure_eq_ok, returns_ok, true_iff]
    omega
  · split
    · simp only [not_returns_error, false_iff]
      omega
    · simp only [pure_eq_ok, returns_ok, true_iff]
      omega

theorem returns_bytes {t : ParamType}
    (kind : t.sType = .dynamicSizeBytes ∨ t.sType = .string) (pos : Nat) :
    Returns (decodeElementary whole lib t data pos) ↔ pos + 32 ≤ data.length := by
  rw [decodeElementary, if_pos kind, returns_word]
  simp only [pure_eq_ok, returns_bind_ok, returns_substr, Within]
  omega

theorem returns_bool (pos : Nat) :
    Returns (decodeElementary whole lib ContractType.bool.paramType data pos) ↔
      Within whole data pos := by
  rw [ContractType.decodeElementary_bool_eq, returns_word]
  simp

theorem returns_integer {t : ParamType} {isSigned : Bool}
    (integral : t.Integral isSigned) (pos : Nat) :
    Returns (decodeElementary whole lib t data pos) ↔
      pos = data.length ∨ pos + 32 ≤ data.length := by
  rw [ContractType.decodeElementary_integer_eq integral, returns_bind]
  simp only [substr_eq_ok, returns_bind_ok, pure_eq_ok]
  constructor
  · rintro ⟨taken, ⟨inside, rfl⟩, printed⟩
    exact (returns_i256ToDec _ pos inside).mp printed
  · intro complete
    have inside : pos ≤ data.length := by omega
    exact ⟨_, ⟨inside, rfl⟩, (returns_i256ToDec _ pos inside).mpr complete⟩

theorem returns_address (pos : Nat) :
    Returns (decodeElementary whole lib ContractType.address.paramType data pos) ↔
      pos + 12 ≤ data.length := by
  rw [ContractType.decodeElementary_address_eq, returns_bind]
  simp only [pure_eq_ok, returns_bind_ok, returns_substr, substr_eq_ok,
    and_assoc, exists_eq_left', length_take, length_drop, exists_and_left]
  omega

theorem returns_fixedBytes (width : ByteWidth) (pos : Nat) :
    Returns (decodeElementary whole lib (ContractType.fixedBytes width).paramType data pos) ↔
      pos ≤ data.length := by
  rw [ContractType.decodeElementary_fixedBytes_eq]
  simp only [pure_eq_ok, returns_bind_ok, returns_substr]

end Decoder

namespace ContractType

variable {whole : Bool} {lib : IntegerLibrary} {data : Bytes}
  {elem : ContractType}

theorem returns_dynamicArray {t : ParamType} (dynamicArray : t.sArrayType = .dynamic)
    (elementType : extractArrayType t.str = .ok elem.paramType)
    {depth : Nat}
    (elements : ∀ pos, Returns (decodeParam whole lib data depth elem.paramType pos) ↔
          elem.Readable whole data pos)
    (pos : Nat) :
    Returns (decodeParam whole lib data (depth + 1) t pos) ↔
      ∃ len start, decodeLength whole t data pos = .ok (len, start) ∧ (len = 0 ∨
            if elem.isDynamic then
              ReferencesReadable whole data (elem.Readable whole data) start len
            else
              (len - 1).toNat + 1 < 2 ^ 31 ∧ ∀ i < (len - 1).toNat + 1,
                elem.Readable whole data (start + i * elem.stride)) := by
  rw [decodeParam_dynamic_eq dynamicArray elementType, returns_bind]
  simp only [Prod.exists]
  refine exists_congr fun len => exists_congr fun start => and_congr_right fun _ => ?_
  by_cases empty : len = 0
  · simp [empty]
  have counter (rounds : Nat) : (rounds = 0 ∨ 1 + rounds < 2 ^ 31) ↔ rounds + 1 < 2 ^ 31 := by omega
  simp only [empty, false_or]
  cases elem.isDynamic with
  | true =>
    rw [← returns_decodeReferences elements]
    exact returns_bind_ok _ _
  | false =>
    simp only [pure_eq_ok, returns_bind_ok, returns_decodeElements rfl, counter, elements,
      Bool.false_eq_true, if_false]

theorem returns_fixedArray {length : ArrayLength} (static : elem.isDynamic = false) {depth : Nat}
    (elements : ∀ pos, Returns (decodeParam whole lib data depth elem.paramType pos) ↔
          elem.Readable whole data pos) (pos : Nat) :
    Returns (decodeParam whole lib data (depth + 1) (fixedArray elem length).paramType pos) ↔
      ∀ i < length.1, elem.Readable whole data (pos + i * elem.stride) := by
  have rounds : length.1 - 1 + 1 = length.1 := by omega
  have counter : length.1 - 1 = 0 ∨ 1 + (length.1 - 1) < 2 ^ 32 := by omega
  rw [decodeParam_fixed_eq static]
  simp only [pure_eq_ok, returns_bind_ok, returns_decodeElements rfl, counter, rounds, elements,
    true_and]

/-- By induction on the type, from one lemma for each loop. -/
theorem returns_decodeParam (type : ContractType) {depth : Nat}
    (enough : type.render.length < depth) (pos : Nat) :
    Returns (decodeParam whole lib data depth type.paramType pos) ↔
      type.Readable whole data pos := by
  induction type generalizing depth pos with
  | array elem ih =>
    obtain ⟨fewer, rfl⟩ : ∃ fewer, depth = fewer + 1 := Nat.exists_eq_succ_of_ne_zero (by omega)
    have shorter : elem.render.length < fewer := by
      rw [render_array, length_append, length_cons] at enough
      omega
    rw [returns_dynamicArray (t := (array elem).paramType) rfl
      elem.extractArrayType_array (ih shorter)]
    simp only [decodeLength_eq_ok (t := (array elem).paramType)
      rfl, Readable, and_assoc, exists_and_left, exists_eq_left']
  | fixedArray elem length ih =>
    obtain ⟨fewer, rfl⟩ : ∃ fewer, depth = fewer + 1 := Nat.exists_eq_succ_of_ne_zero (by omega)
    have shorter : elem.render.length < fewer := by
      rw [render_fixedArray, length_append, length_cons] at enough
      omega
    cases dynamic : elem.isDynamic with
    | true =>
      have dynamicArray : (fixedArray elem length).paramType.sArrayType = .dynamic := by
        simp [paramType, arrayType, dynamic]
      have nonzero : length.1 ≠ 0 := Nat.pos_iff_ne_zero.mp length.2.1
      have known : decodeLength whole
              (fixedArray elem length).paramType data pos = .ok ((length.1 : Int), pos) :=
        if_neg nonzero
      rw [returns_dynamicArray dynamicArray (elem.extractArrayType_fixedArray length)
        (ih shorter), known, Readable]
      simp [dynamic, nonzero]
    | false => rw [returns_fixedArray dynamic (ih shorter), Readable, if_neg (by simp [dynamic])]
  | bool =>
    rw [decodeParam_elementary bool trivial enough]
    exact returns_bool pos
  | uint width =>
    rw [decodeParam_elementary (uint width) trivial enough]
    exact returns_integer (integral_uint width) pos
  | int width =>
    rw [decodeParam_elementary (int width) trivial enough]
    exact returns_integer (integral_int width) pos
  | address =>
    rw [decodeParam_elementary address trivial enough]
    exact returns_address pos
  | fixedBytes width =>
    rw [decodeParam_elementary (fixedBytes width) trivial enough]
    exact returns_fixedBytes width pos
  | bytes =>
    rw [decodeParam_elementary bytes trivial enough]
    exact returns_bytes (.inl rfl) pos
  | string =>
    rw [decodeParam_elementary string trivial enough]
    exact returns_bytes (.inr rfl) pos

theorem returns_decodeHead (type : ContractType) (pos : Nat) :
    Returns (decodeHead whole lib data type.paramType pos) ↔ type.HeadReadable whole data pos := by
  have values := @returns_decodeParam whole lib data type (type.render.length + 2) (by omega)
  rw [decodeHead, inTail_paramType, HeadReadable]
  cases type.isDynamic with
  | true => exact returns_decodeReference values 0 pos
  | false => exact values pos

theorem returns_decodeLoop (types : List ContractType) (pos : Nat) :
    Returns (decodeLoop whole lib data (types.map fun type => .string type.render) pos) ↔
      HeadsReadable whole data types pos := by
  induction types generalizing pos with
  | nil => simp [decodeLoop, HeadsReadable]
  | cons type types ih =>
    simp only [map_cons, decodeLoop, Json.getString,
      pure_eq_ok, ok_bind, getType_render, headSize_paramType,
      returns_both, returns_decodeHead, ih, HeadsReadable]

/-! ### Complete words are words -/

theorem within_weaken {pos : Nat} (within : Within true data pos) : Within false data pos :=
  ⟨within.1, by simp⟩

theorem referenceReadable_weaken {strong weak : Nat → Prop}
    (weaken : ∀ pos, strong pos → weak pos) {start slot : Nat}
    (readable : ReferenceReadable true data strong start slot) :
    ReferenceReadable false data weak start slot :=
  ⟨within_weaken readable.1, weaken _ readable.2⟩

theorem referencesReadable_weaken {strong weak : Nat → Prop}
    (weaken : ∀ pos, strong pos → weak pos) {start : Nat} {len : Int}
    (readable : ReferencesReadable true data strong start len) :
    ReferencesReadable false data weak start len := by
  obtain ⟨all, defined, last⟩ := readable
  refine ⟨fun i before => ?_, defined, referenceReadable_weaken weaken last⟩
  obtain ⟨counted, reference⟩ := all i before
  exact ⟨counted, referenceReadable_weaken weaken reference⟩

theorem Readable.weaken (type : ContractType) (pos : Nat) (readable : type.Readable true data pos) :
    type.Readable false data pos := by
  induction type generalizing pos with
  | bool => exact within_weaken readable
  | array elem ih =>
    obtain ⟨within, empty | elements⟩ := readable
    · exact ⟨within_weaken within, .inl empty⟩
    · refine ⟨within_weaken within, .inr ?_⟩
      split at elements
      next dynamic =>
        rw [if_pos dynamic]
        exact referencesReadable_weaken ih elements
      next static =>
        rw [if_neg static]
        exact ⟨elements.1, fun i before => ih _ (elements.2 i before)⟩
  | fixedArray elem length ih =>
    rw [Readable] at readable ⊢
    split at readable
    next dynamic =>
      rw [if_pos dynamic]
      exact referencesReadable_weaken ih readable
    next static =>
      rw [if_neg static]
      exact fun i before => ih _ (readable i before)
  | _ => exact readable

theorem HeadsReadable.weaken (types : List ContractType) (pos : Nat)
    (readable : HeadsReadable true data types pos) : HeadsReadable false data types pos := by
  induction types generalizing pos with
  | nil => trivial
  | cons type types ih =>
    obtain ⟨first, later⟩ := readable
    refine ⟨?_, ih _ later⟩
    rw [HeadReadable] at first ⊢
    split at first
    next dynamic =>
      rw [if_pos dynamic]
      exact referenceReadable_weaken (Readable.weaken type) first
    next static =>
      rw [if_neg static]
      exact Readable.weaken type pos first

/-! ### The condition can be evaluated -/

instance (pos : Nat) : Decidable (Within whole data pos) :=
  inferInstanceAs (Decidable (_ ∧ _))

instance (readable : Nat → Prop) [DecidablePred readable] (start slot : Nat) :
    Decidable (ReferenceReadable whole data readable start slot) :=
  inferInstanceAs (Decidable (_ ∧ _))

instance (readable : Nat → Prop) [DecidablePred readable] (start : Nat) (len : Int) :
    Decidable (ReferencesReadable whole data readable start len) :=
  inferInstanceAs (Decidable (_ ∧ _))

instance decidableReadable (whole : Bool) (data : Bytes) :
    (type : ContractType) → DecidablePred (type.Readable whole data)
  | bool, pos => inferInstanceAs (Decidable (Within whole data pos))
  | uint _, _ => inferInstanceAs (Decidable (_ ∨ _))
  | int _, _ => inferInstanceAs (Decidable (_ ∨ _))
  | address, _ => inferInstanceAs (Decidable (_ ≤ _))
  | fixedBytes _, _ => inferInstanceAs (Decidable (_ ≤ _))
  | bytes, _ => inferInstanceAs (Decidable (_ ≤ _))
  | string, _ => inferInstanceAs (Decidable (_ ≤ _))
  | array element, pos =>
    have := decidableReadable whole data element
    inferInstanceAs (Decidable (Within whole data pos ∧ (_ ∨ ite _ _ _)))
  | fixedArray element _, _ =>
    have := decidableReadable whole data element
    inferInstanceAs (Decidable (ite _ _ _))

instance (type : ContractType) (pos : Nat) : Decidable (type.HeadReadable whole data pos) :=
  inferInstanceAs (Decidable (ite _ _ _))

instance decidableHeadsReadable (whole : Bool) (data : Bytes) :
    (types : List ContractType) → (pos : Nat) → Decidable (HeadsReadable whole data types pos)
  | [], _ => inferInstanceAs (Decidable True)
  | type :: types, pos =>
    have := decidableHeadsReadable whole data types (pos + type.stride)
    inferInstanceAs (Decidable (_ ∧ _))

end ContractType

/-- No exception leaves `decode`, every byte that it reads belongs to the
data, and no incomplete word is taken for a number. -/
def Safe (library : IntegerLibrary) (parse : Bytes → Option Json)
    (signaturesJson data : Bytes) : Prop :=
  (∃ result, decode library parse signaturesJson data = .ok result) ∧ ∃ result,
    decodeWith true library parse signaturesJson data = .ok result

section Safety

variable {parse : Bytes → Option Json} {signaturesJson : Bytes}
  {types : List ContractType}

theorem returns_decode (whole : Bool) (lib : IntegerLibrary)
    (signatures : parse signaturesJson = some (.array (types.map fun type => .string type.render)))
    (data : Bytes) :
    (∃ result, decodeWith whole lib parse signaturesJson data = .ok result) ↔
      ContractType.HeadsReadable whole data types 0 := by
  rw [decodeWith, signatures]
  exact (returns_bind_ok _ _).trans (ContractType.returns_decodeLoop types 0)

/-- `decode` is safe exactly on the data that can be read with complete
words, and returns exactly on the data that can be read. -/
theorem safe_iff_headsReadable (lib : IntegerLibrary)
    (signatures : parse signaturesJson = some (.array (types.map fun type => .string type.render)))
    (data : Bytes) :
    (Safe lib parse signaturesJson data ↔ ContractType.HeadsReadable true data types 0) ∧
      ((∃ result, decode lib parse signaturesJson data = .ok result) ↔
        ContractType.HeadsReadable false data types 0) := by
  have complete := returns_decode true lib signatures data
  have returning := returns_decode false lib signatures data
  refine ⟨?_, returning⟩
  rw [Safe, complete, decode, returning]
  constructor
  · exact And.right
  · intro readable
    exact ⟨ContractType.HeadsReadable.weaken types 0 readable, readable⟩

end Safety

theorem safe_on_exampleParameters :
    Safe referenceLibrary exampleParse (text "s") (Parameter.encodings exampleParameters) := by
  have signatures : exampleParse (text "s") =
        some (.array ((exampleParameters.map Sigma.fst).map fun type => .string type.render)) :=
    rfl
  exact (safe_iff_headsReadable referenceLibrary signatures _).1.mpr (by decide +kernel)

/-- One byte in place of a word: as an integer 32 bytes are read, as the
offset of a string the exception of `substr` leaves `decode`, as a truth value
the incomplete word is taken for zero. -/
theorem decode_of_one_byte :
    ¬ Safe referenceLibrary (fun _ => some (.array [.string (text "uint256")])) [] [1] ∧
      decode referenceLibrary (fun _ => some (.array [.string (text "uint256")])) [] [1] =
        .error .invalidAccess ∧
      decode referenceLibrary (fun _ => some (.array [.string (text "string")])) [] [1] =
        .error .outOfRange ∧
      decode referenceLibrary
          (fun _ => some (.array [.string (text "bool")])) [] [1] = .ok (text "[false]") := by
  have integer : decode referenceLibrary
          (fun _ => some (.array [.string (text "uint256")])) [] [1] = .error .invalidAccess := by
    decide +kernel
  refine ⟨?_, integer, by decide +kernel, by decide +kernel⟩
  rintro ⟨⟨result, returned⟩, _⟩
  cases returned

end AutomatonCore.Interop.Ethereum
