import AutomatonCore.Interop.AbiIllTyped

/-!
# Numbers and their spellings
-/

namespace AutomatonCore.Interop.Ethereum

open Io Library List
open ContractType (images word render Addressable)

/-- The integer is given as a JSON number or as its decimal string. -/
def Json.Gives (json : Json) (number : Int) : Prop :=
  json = .integer number ∧ -2 ^ 63 ≤ number ∧ number < 2 ^ 64 ∨ json = .string (decimalInt number)

def Json.NegativeNumber (json : Json) : Prop :=
  ∃ number < 0, json = .integer number

/-- A JSON number is converted to `uint64_t` first, so a negative one is
encoded as another number. -/
def Json.taken (number : Int) : Json → Int
  | .integer _ => number % 2 ^ 64
  | _ => number

namespace ContractType

/-- Integers are given as JSON numbers or as decimal strings. -/
def Given : (type : ContractType) → Json → type.Value → Prop
  | bool, json, value => bool.Spells json value
  | uint _, json, value => json.Gives value.1
  | int _, json, value => json.Gives value.1
  | address, json, value => address.Spells json value
  | fixedBytes width, json, value => (fixedBytes width).Spells json value
  | bytes, json, value => bytes.Spells json value
  | string, json, value => string.Spells json value
  | array element, json, values =>
    ∃ elements, json = .array elements ∧ List.Forall₂ element.Given elements values
  | fixedArray element _, json, values =>
    ∃ elements, json = .array elements ∧ List.Forall₂ element.Given elements values.1

/-- No negative number is given as a JSON number on one side only. -/
def Alike : ContractType → Json → Json → Prop
  | int _, first, second => first = second ∨ ¬ first.NegativeNumber ∧ ¬ second.NegativeNumber
  | array element, .array first, .array second => List.Forall₂ element.Alike first second
  | fixedArray element _, .array first, .array second => List.Forall₂ element.Alike first second
  | _, _, _ => True

end ContractType

variable {lib : IntegerLibrary}

/-! ## Words -/

variable {json : Json} {num : Int}

theorem numericalWord_gives (encodes : lib.Encodes) {t : ParamType}
    {isSigned : Bool} (integral : t.Integral isSigned) (gives : json.Gives num) :
    numericalWord lib t json = .ok (some (lib.encode (json.taken num) isSigned)) := by
  rcases gives with ⟨rfl, _⟩ | rfl
  · exact (ContractType.numericalWord_iff encodes integral _ _).mpr ⟨_, rfl, rfl⟩
  · exact ContractType.numericalWord_text encodes integral (decimalValue_decimalInt num)

theorem Json.Gives.taken_bounds
    (gives : json.Gives num) (lower : -2 ^ 255 ≤ num) (upper : num < 2 ^ 255) :
    -2 ^ 255 ≤ json.taken num ∧ json.taken num < 2 ^ 255 := by
  rcases gives with ⟨rfl, _⟩ | rfl
  · simp only [Json.taken]
    omega
  · exact ⟨lower, upper⟩

theorem Json.Gives.taken_eq (gives : json.Gives num) (natural : ¬ json.NegativeNumber) :
    json.taken num = num := by
  rcases gives with ⟨rfl, lower, upper⟩ | rfl
  · have nonnegative : 0 ≤ num := by
      by_contra negative
      exact natural ⟨num, by omega, rfl⟩
    exact Int.emod_eq_of_lt nonnegative upper
  · rfl

theorem Json.Gives.alike {first second : Json}
    (firstGives : first.Gives num) (secondGives : second.Gives num)
    (same : first.taken num = second.taken num) :
    first = second ∨ ¬ first.NegativeNumber ∧ ¬ second.NegativeNumber := by
  have nonnegative {json : Json} (natural : 0 ≤ num)
      (gives : json.Gives num) : ¬ json.NegativeNumber := by
    rintro ⟨negative, below, rfl⟩
    rcases gives with ⟨equal, _⟩ | text
    · cases equal
      omega
    · cases text
  rcases firstGives with ⟨rfl, firstBounds⟩ | rfl
  · rcases secondGives with ⟨rfl, _⟩ | rfl
    · exact .inl rfl
    · simp only [Json.taken] at same
      have natural : 0 ≤ num := by omega
      exact .inr
          ⟨nonnegative natural (.inl ⟨rfl, firstBounds⟩), nonnegative natural (.inr rfl)⟩
  · rcases secondGives with ⟨rfl, secondBounds⟩ | rfl
    · simp only [Json.taken] at same
      have natural : 0 ≤ num := by omega
      exact .inr
          ⟨nonnegative natural (.inr rfl), nonnegative natural (.inl ⟨rfl, secondBounds⟩)⟩
    · exact .inl rfl

namespace ContractType

variable {width : IntegerWidth} {json : Json} {left right : List Bytes}

theorem uint_taken {v : (uint width).Value} (gives : (uint width).Given json v) :
    json.taken v.1 = v.1 := by
  apply Json.Gives.taken_eq gives
  rintro ⟨num, negative, rfl⟩
  rcases gives with ⟨equal, _⟩ | text
  · cases equal
    omega
  · cases text

theorem numericalWord_uint_given (encodes : lib.Encodes)
    {v : (uint width).Value} (given : (uint width).Given json v) :
    numericalWord lib (uint width).paramType json = .ok (some ((uint width).encoding v)) := by
  rw [numericalWord_gives encodes (integral_uint width) given,
    uint_taken given, encodes.encodeUnsigned (uint_lt v)]
  rfl

theorem numericalWord_int_given (encodes : lib.Encodes)
    {v : (int width).Value} (given : (int width).Given json v) :
    numericalWord lib (int width).paramType json =
      .ok (some (word (json.taken v.1 % 2 ^ 256).toNat)) := by
  obtain ⟨lower, upper⟩ := int_bounds v
  obtain ⟨takenLower, takenUpper⟩ := Json.Gives.taken_bounds given lower upper
  rw [numericalWord_gives encodes (integral_int width) given,
    encodes.encodeSigned takenLower takenUpper]
  rfl

/-! ## Numbers that are given alike -/

def SameEffect (library : IntegerLibrary) (t : ParamType) (first second : Json) : Prop :=
  ∀ (buffer : Buffer) (cursors : Cursors),
    encodeParam library t first buffer cursors = encodeParam library t second buffer cursors

theorem SameEffect.elements {t : ParamType} {first second : List Json}
    (same : List.Forall₂ (SameEffect lib t) first second) (buf : Buffer) (cursors : Cursors) :
    encodeElements lib t first buf cursors = encodeElements lib t second buf cursors := by
  induction same generalizing buf cursors with
  | nil => rfl
  | cons here others ih => simp only [encodeElements, here buf cursors, ih]

theorem SameEffect.references {t : ParamType} {first second : List Json}
    (same : List.Forall₂ (SameEffect lib t) first second)
    (start : Nat) (buf : Buffer) (head tail : Nat) :
    encodeReferences lib t start first buf head tail =
      encodeReferences lib t start second buf head tail := by
  induction same generalizing buf head tail with
  | nil => rfl
  | cons here others ih => simp only [encodeReferences, here _ _, ih]

theorem SameEffect.array {elem : ContractType} {t : ParamType}
    (elementType : extractArrayType t.str = .ok elem.paramType)
    {first second : List Json} (same : List.Forall₂ (SameEffect lib elem.paramType) first second) :
    SameEffect lib t (.array first) (.array second) := by
  intro buf cursors
  simp only [encodeParam, same.length_eq, elementType, ok_bind,
    SameEffect.elements same, SameEffect.references same]
  rfl

theorem SameEffect.numerical (type : ContractType)
    (elementary : type.Elementary) (kind : type.abiType = .numerical)
    {first second : Json}
    (words : numericalWord lib type.paramType first = numericalWord lib type.paramType second) :
    SameEffect lib type.paramType first second := by
  intro buf cursors
  rw [encodeParam_elementary type elementary, encodeParam_elementary type elementary]
  simp [kind, encodeNumerical, words]

theorem forall₂_of_common {α β : Type} {relation : α → β → Prop}
    {holds : α → α → Prop} {first second : List α} {values : List β}
    (left : List.Forall₂ relation first values) (right : List.Forall₂ relation second values)
    (each : ∀ {x y v}, relation x v → relation y v → holds x y) :
    List.Forall₂ holds first second := by
  induction left generalizing second with
  | nil =>
    cases right
    exact .nil
  | cons here others ih =>
    cases right with
    | cons there rest => exact .cons (each here there) (ih rest)

theorem SameEffect.hex (type : ContractType) (elementary : type.Elementary)
    (kind : type.abiType = .dynamicSizeBytes ∨ type.abiType = .fixedSizeBytes)
    {first second v : Bytes} (firstSpells : HexSpells first v) (secondSpells : HexSpells second v) :
    SameEffect lib type.paramType (.string first) (.string second) := by
  intro buf cursors
  rw [encodeParam_elementary type elementary, encodeParam_elementary type elementary]
  have dynamicKind : type.paramType.sType = type.abiType := rfl
  rcases kind with kind | kind <;>
    simp [kind, dynamicKind, encodeDynamicBytes, encodeFixedBytes,
      hex2bin_of_spells firstSpells, hex2bin_of_spells secondSpells]

/-- All numbers but the negative ones are encoded like their spellings. -/
theorem sameEffect_of_alike (encodes : lib.Encodes)
    (type : ContractType) {first second : Json} {v : type.Value}
    (firstGiven : type.Given first v) (secondGiven : type.Given second v)
    (alike : type.Alike first second) : SameEffect lib type.paramType first second := by
  induction type generalizing first second with
  | bool =>
    obtain rfl := firstGiven
    obtain rfl := secondGiven
    exact fun _ _ => rfl
  | uint width =>
    apply SameEffect.numerical (uint width) trivial rfl
    rw [numericalWord_uint_given encodes firstGiven, numericalWord_uint_given encodes secondGiven]
  | int width =>
    rcases alike with rfl | ⟨firstNatural, secondNatural⟩
    · exact fun _ _ => rfl
    · apply SameEffect.numerical (int width) trivial rfl
      rw [numericalWord_int_given encodes firstGiven, numericalWord_int_given encodes secondGiven,
        Json.Gives.taken_eq firstGiven firstNatural, Json.Gives.taken_eq secondGiven secondNatural]
  | address =>
    obtain ⟨spelled, rfl, hex⟩ := firstGiven
    obtain ⟨other, rfl, otherHex⟩ := secondGiven
    exact SameEffect.hex address trivial (.inr rfl) hex otherHex
  | fixedBytes width =>
    obtain ⟨spelled, rfl, hex⟩ := firstGiven
    obtain ⟨other, rfl, otherHex⟩ := secondGiven
    exact SameEffect.hex (fixedBytes width) trivial (.inr rfl) hex otherHex
  | bytes =>
    obtain ⟨spelled, rfl, hex⟩ := firstGiven
    obtain ⟨other, rfl, otherHex⟩ := secondGiven
    exact SameEffect.hex bytes trivial (.inl rfl) hex otherHex
  | string =>
    obtain rfl := firstGiven
    obtain rfl := secondGiven
    exact fun _ _ => rfl
  | array elem ih =>
    obtain ⟨elements, rfl, all⟩ := firstGiven
    obtain ⟨others, rfl, allOthers⟩ := secondGiven
    have effects := forall₂_of_common all allOthers ih
    apply SameEffect.array elem.extractArrayType_array
    exact effects.mp (fun _ _ effect => effect) alike
  | fixedArray elem length ih =>
    obtain ⟨elements, rfl, all⟩ := firstGiven
    obtain ⟨others, rfl, allOthers⟩ := secondGiven
    have effects := forall₂_of_common all allOthers ih
    apply SameEffect.array (elem.extractArrayType_fixedArray length)
    exact effects.mp (fun _ _ effect => effect) alike

/-! ## Numbers that are not given alike -/

def Parallel (type : ContractType) (left right : Bytes) : Prop :=
  type.Full left ∧ left.length = right.length

theorem Parallel.symm {type : ContractType} {left right : Bytes}
    (parallel : type.Parallel left right) : type.Parallel right left :=
  ⟨fun static => parallel.2.symm.trans (parallel.1 static), parallel.2.symm⟩

theorem Parallel.sameShape {type : ContractType} {left right : Bytes}
    (parallel : type.Parallel left right) : (type.part left).SameShape (type.part right) := by
  cases dynamic : type.isDynamic <;>
    simpa [part, dynamic, Part.SameShape] using parallel.2

theorem part_injective (type : ContractType) : Function.Injective type.part := by
  intro left right equal
  cases dynamic : type.isDynamic <;> simpa [part, dynamic] using equal

theorem full_of_parallel {elem : ContractType} (parallel : List.Forall₂ elem.Parallel left right) :
    ∀ content ∈ left, elem.Full content := by
  induction parallel with
  | nil => simp
  | cons here others ih => exact forall_mem_cons.mpr ⟨here.1, ih⟩

theorem sameShape_of_parallel {elem : ContractType}
    (parallel : List.Forall₂ elem.Parallel left right) :
    List.Forall₂ Part.SameShape (left.map elem.part) (right.map elem.part) := by
  rw [forall₂_map_left_iff, forall₂_map_right_iff]
  exact parallel.imp fun _ _ => Parallel.sameShape

/-- The images differ unless the JSON values are alike. -/
def Distinguished (library : IntegerLibrary) (type : ContractType) (first second : Json) : Prop :=
  ∃ left right : Bytes, type.image library first = .ok (left.map some) ∧
    type.image library second = .ok (right.map some) ∧ type.Parallel left right ∧
    (left = right → type.Alike first second)

theorem distinguished_of_reads {type : ContractType} {first second : Json}
    {v : type.Value} (firstReads : type.Reads lib first v)
    (secondReads : type.Reads lib second v) (alike : type.Alike first second) :
    type.Distinguished lib first second := by
  obtain ⟨left, leftDrawn, leftResembles⟩ := type.shows_of_reads firstReads
  obtain ⟨right, rightDrawn, rightResembles⟩ := type.shows_of_reads secondReads
  refine ⟨left, right, leftDrawn, rightDrawn, ⟨?_, ?_⟩, fun _ => alike⟩
  · intro static
    rw [leftResembles.1, length_encoding_static static]
  · rw [leftResembles.1, rightResembles.1]

theorem distinguished_int (encodes : lib.Encodes)
    (width : IntegerWidth) {first second : Json} {v : (int width).Value}
    (firstGiven : (int width).Given first v) (secondGiven : (int width).Given second v) :
    (int width).Distinguished lib first second := by
  obtain ⟨lower, upper⟩ := int_bounds v
  have firstBounds := Json.Gives.taken_bounds firstGiven lower upper
  have secondBounds := Json.Gives.taken_bounds secondGiven lower upper
  refine ⟨word (first.taken v.1 % 2 ^ 256).toNat,
      word (second.taken v.1 % 2 ^ 256).toNat, ?_, ?_, ⟨fun _ => length_word _, ?_⟩, ?_⟩
  · rw [image, numericalWord_int_given encodes firstGiven]
    rfl
  · rw [image, numericalWord_int_given encodes secondGiven]
    rfl
  · rw [length_word, length_word]
  · intro words
    have numbers := word_injective (by omega) (by omega) words
    exact Json.Gives.alike firstGiven secondGiven (by omega)

theorem mapM_of_distinguished {elem : ContractType}
    {first second : List Json} (all : List.Forall₂ (elem.Distinguished lib) first second) :
    ∃ left right : List Bytes, first.mapM (elem.image lib) = .ok (left.map (List.map some)) ∧
        second.mapM (elem.image lib) = .ok (right.map (List.map some)) ∧
          List.Forall₂ elem.Parallel left right ∧
            (left = right → List.Forall₂ elem.Alike first second) := by
  induction all with
  | nil => exact ⟨[], [], rfl, rfl, .nil, fun _ => .nil⟩
  | cons here others ih =>
    obtain ⟨left, right, leftDrawn, rightDrawn, parallel, alike⟩ := here
    obtain ⟨lefts, rights, leftRead, rightRead, parallels, allAlike⟩ := ih
    refine ⟨left :: lefts, right :: rights, ?_, ?_, .cons parallel parallels, ?_⟩
    · rw [mapM_cons, leftDrawn, leftRead]
      rfl
    · rw [mapM_cons, rightDrawn, rightRead]
      rfl
    · intro equal
      obtain ⟨equalHere, equalLater⟩ := List.cons.inj equal
      exact .cons (alike equalHere) (allAlike equalLater)

theorem eq_of_elements {elem : ContractType} (parallel : List.Forall₂ elem.Parallel left right)
    (equal : headTail offsetBytes 32 (left.map elem.part) =
        headTail offsetBytes 32 (right.map elem.part)) : left = right := by
  apply map_injective_iff.mpr elem.part_injective
  exact eq_of_headTail_of_sameShape length_offsetBytes (sameShape_of_parallel parallel) equal

theorem distinguished_of_given (encodes : lib.Encodes)
    (type : ContractType) {first second : Json} {v : type.Value}
    (firstGiven : type.Given first v) (secondGiven : type.Given second v) :
    type.Distinguished lib first second := by
  induction type generalizing first second with
  | uint width =>
    exact distinguished_of_reads (numericalWord_uint_given encodes firstGiven)
        (numericalWord_uint_given encodes secondGiven) trivial
  | int width => exact distinguished_int encodes width firstGiven secondGiven
  | array elem ih =>
    obtain ⟨elements, rfl, all⟩ := firstGiven
    obtain ⟨others, rfl, allOthers⟩ := secondGiven
    obtain ⟨left, right, leftRead, rightRead, parallel, alike⟩ :=
      mapM_of_distinguished (forall₂_of_common all allOthers ih)
    have full := full_of_parallel parallel
    have fullOther := full_of_parallel (parallel.flip.imp fun _ _ => Parallel.symm)
    have shapes := sameShape_of_parallel parallel
    refine ⟨_, _, image_array leftRead full, image_array rightRead fullOther, ⟨?_, ?_⟩, ?_⟩
    · intro static
      cases static
    · rw [length_append, length_append, length_offsetBytes, length_offsetBytes,
        length_headTail_of_sameShape length_offsetBytes shapes]
    · intro equal
      apply alike
      apply eq_of_elements parallel
      exact (append_inj equal (by rw [length_offsetBytes, length_offsetBytes])).2
  | fixedArray elem length ih =>
    obtain ⟨elements, rfl, all⟩ := firstGiven
    obtain ⟨others, rfl, allOthers⟩ := secondGiven
    obtain ⟨left, right, leftRead, rightRead, parallel, alike⟩ :=
      mapM_of_distinguished (forall₂_of_common all allOthers ih)
    have count := all.length_eq.trans v.2
    have countOther := allOthers.length_eq.trans v.2
    have shapes := sameShape_of_parallel parallel
    refine ⟨_, _, image_fixedArray count leftRead,
        image_fixedArray countOther rightRead, ⟨?_, ?_⟩, ?_⟩
    · intro static
      rw [isDynamic] at static
      have contents := (mapM_eq_ok_iff.mp leftRead).length_eq
      rw [length_map] at contents
      rw [part_of_static static, headTail_inPlace,
        length_flatten_of_full static (full_of_parallel parallel),
        ← contents, count, headWords, if_neg (by simp [static])]
      ring
    · exact length_headTail_of_sameShape length_offsetBytes shapes
    · exact fun equal => alike (eq_of_elements parallel equal)
  | _ =>
    exact distinguished_of_reads (reads_of_spells encodes _ firstGiven)
        (reads_of_spells encodes _ secondGiven) trivial

/-! ## Sizes -/

theorem Unwrapped.regular_of_given (encodes : lib.Encodes)
    {type : ContractType} (unwrapped : type.Unwrapped)
    {v : type.Value} (given : type.Given json v) : type.Regular lib json := by
  have elements {elem : ContractType} {jsons : List Json}
      {values : List elem.Value}
      (each : ∀ {json v}, elem.Given json v → elem.Regular lib json)
      (all : List.Forall₂ elem.Given jsons values) : ∀ json ∈ jsons, elem.Regular lib json := by
    induction all with
    | nil => simp
    | cons first others ih => exact forall_mem_cons.mpr ⟨each first, ih⟩
  induction type generalizing json with
  | uint width =>
    intro encoded made
    rw [numericalWord_uint_given encodes given] at made
    rw [← Option.some.inj (Except.ok.inj made)]
    exact length_word _
  | int width =>
    intro encoded made
    rw [numericalWord_int_given encodes given] at made
    rw [← Option.some.inj (Except.ok.inj made)]
    exact length_word _
  | array elem ih =>
    obtain ⟨jsons, rfl, all⟩ := given
    exact ⟨.inr unwrapped.1, elements (ih unwrapped.2) all⟩
  | fixedArray elem length ih =>
    obtain ⟨jsons, rfl, all⟩ := given
    exact elements (ih unwrapped) all
  | _ => trivial

end ContractType

/-! ## Lists of parameters -/

namespace Parameter

def AllGiven (elements : List Json) (parameters : List Parameter) : Prop :=
  List.Forall₂ (fun json parameter => parameter.1.Given json parameter.2) elements parameters

def AllAlike : List ContractType → List Json → List Json → Prop
  | type :: types, json :: first, other :: second =>
    type.Alike json other ∧ AllAlike types first second
  | _, _, _ => True

theorem encodeLoop_of_alike (encodes : lib.Encodes)
    {first second : List Json} {params : List Parameter}
    (firstGiven : AllGiven first params) (secondGiven : AllGiven second params)
    (alike : AllAlike (params.map Sigma.fst) first second) (buf : Buffer) (head tail : Nat) :
    encodeLoop lib ((params.map Sigma.fst).map render) first buf head tail =
      encodeLoop lib ((params.map Sigma.fst).map render) second buf head tail := by
  induction firstGiven generalizing second buf head tail with
  | nil =>
    cases secondGiven
    rfl
  | cons given others ih =>
    rename_i json param first params
    cases secondGiven with
    | cons otherGiven rest =>
      have same := param.1.sameEffect_of_alike encodes given otherGiven alike.1
      have later := ih rest alike.2
      simp only [map_cons, encodeLoop, ContractType.getType_render, ok_bind, same _ _, later]

theorem images_of_given (encodes : lib.Encodes) {first second : List Json} {params : List Parameter}
    (firstGiven : AllGiven first params) (secondGiven : AllGiven second params) :
    ∃ left right : List Bytes, images lib (params.map Sigma.fst) first =
          .ok (left.map (List.map some)) ∧
        images lib (params.map Sigma.fst) second = .ok (right.map (List.map some)) ∧
          List.Forall₂ Part.SameShape (zipWith ContractType.part (params.map Sigma.fst) left)
              (zipWith ContractType.part (params.map Sigma.fst) right) ∧
            headsLength 32 (zipWith ContractType.part (params.map Sigma.fst) left) =
                ContractType.headSpace (params.map Sigma.fst) ∧
              (zipWith ContractType.part (params.map Sigma.fst) left =
                  zipWith ContractType.part (params.map Sigma.fst)
                    right → AllAlike (params.map Sigma.fst) first second) := by
  induction firstGiven generalizing second with
  | nil =>
    cases secondGiven
    exact ⟨[], [], rfl, rfl, .nil, rfl, fun _ => trivial⟩
  | cons given others ih =>
    rename_i json param first params
    cases secondGiven with
    | cons otherGiven rest =>
      obtain ⟨left, right, leftDrawn, rightDrawn, parallel, alike⟩ :=
        param.1.distinguished_of_given encodes given otherGiven
      obtain ⟨lefts, rights, leftRead, rightRead, shapes, heads, allAlike⟩ := ih rest
      refine ⟨left :: lefts, right :: rights, ?_, ?_, .cons parallel.sameShape shapes, ?_, ?_⟩
      · rw [map_cons, images, leftDrawn, leftRead]
        rfl
      · rw [map_cons, images, rightDrawn, rightRead]
        rfl
      · rw [map_cons, zipWith_cons_cons, headsLength, heads, parallel.1.headLength]
        rfl
      · intro equal
        obtain ⟨equalHere, equalLater⟩ := List.cons.inj equal
        exact ⟨alike (param.1.part_injective equalHere), allAlike equalLater⟩

theorem allRegular_of_given (encodes : lib.Encodes)
    {elements : List Json} {params : List Parameter} (given : AllGiven elements params)
    (unwrapped : ∀ type ∈ params.map Sigma.fst, type.Unwrapped) :
    ContractType.AllRegular lib (params.map Sigma.fst) elements := by
  induction given with
  | nil => exact .nil
  | cons first others ih =>
    rw [map_cons, forall_mem_cons] at unwrapped
    exact .cons (unwrapped.1.regular_of_given encodes first) (ih unwrapped.2)

end Parameter

section Numbers

variable {parse : Bytes → Option Json}
  {signaturesJson firstJson secondJson : Bytes}
  {params : List Parameter} {first second : List Json}

theorem encode_eq_of_alike (encodes : lib.Encodes)
    (signatures : parse signaturesJson = some (.array (Parameter.signatures params)))
    (firstValues : parse firstJson = some (.array first))
    (secondValues : parse secondJson = some (.array second))
    (firstGiven : Parameter.AllGiven first params) (secondGiven : Parameter.AllGiven second params)
    (alike : Parameter.AllAlike (params.map Sigma.fst) first second) :
    encode lib parse signaturesJson firstJson = encode lib parse signaturesJson secondJson := by
  have lengths : first.length = second.length :=
    firstGiven.length_eq.trans secondGiven.length_eq.symm
  have loops := Parameter.encodeLoop_of_alike encodes firstGiven secondGiven alike
  rw [Parameter.signatures_eq] at signatures
  simp only [encode, signatures, firstValues, secondValues, lengths,
    ContractType.stringVector_render, loops]

theorem alike_of_encode_eq (encodes : lib.Encodes)
    (signatures : parse signaturesJson = some (.array (Parameter.signatures params)))
    (firstValues : parse firstJson = some (.array first))
    (secondValues : parse secondJson = some (.array second))
    (firstGiven : Parameter.AllGiven first params) (secondGiven : Parameter.AllGiven second params)
    (addressable : Addressable (params.map Sigma.fst))
    (equal :
      encode lib parse signaturesJson firstJson = encode lib parse signaturesJson secondJson) :
    Parameter.AllAlike (params.map Sigma.fst) first second := by
  have firstRegular := Parameter.allRegular_of_given encodes firstGiven addressable.2
  have secondRegular := Parameter.allRegular_of_given encodes secondGiven addressable.2
  obtain ⟨left, right, leftDrawn, rightDrawn, shapes, heads, alike⟩ :=
    Parameter.images_of_given encodes firstGiven secondGiven
  have otherHeads :=
    (headsLength_of_sameHead (shapes.imp fun _ _ => Part.SameShape.sameHead)).symm.trans heads
  rw [Parameter.signatures_eq] at signatures
  rw [encode_eq_layout signatures firstValues firstRegular addressable.1,
    encode_eq_layout signatures secondValues secondRegular addressable.1,
    leftDrawn, rightDrawn, ok_bind, ok_bind,
    Parameter.layout_map_some heads, Parameter.layout_map_some otherHeads,
    readCells_map_some, readCells_map_some] at equal
  apply alike
  exact eq_of_headTail_of_sameShape ContractType.length_offsetBytes shapes (Except.ok.inj equal)

/-- Numbers and their spellings are encoded alike, if no negative one is given
as a JSON number, and only then unless sizes wrap around. -/
theorem encode_eq_iff_alike (encodes : lib.Encodes)
    (signatures : parse signaturesJson = some (.array (Parameter.signatures params)))
    (firstValues : parse firstJson = some (.array first))
    (secondValues : parse secondJson = some (.array second))
    (firstGiven : Parameter.AllGiven first params)
    (secondGiven : Parameter.AllGiven second params) :
    (Parameter.AllAlike (params.map Sigma.fst) first second →
        encode lib parse signaturesJson firstJson = encode lib parse signaturesJson secondJson) ∧
      (Addressable (params.map Sigma.fst) → encode lib parse signaturesJson firstJson =
            encode lib parse signaturesJson secondJson →
          Parameter.AllAlike (params.map Sigma.fst) first second) :=
  ⟨encode_eq_of_alike encodes signatures firstValues secondValues firstGiven secondGiven,
    alike_of_encode_eq encodes signatures firstValues secondValues firstGiven secondGiven⟩

end Numbers

/-- One parameter, which is given in two ways; the text `s` stands for its
signature and `n` for the first way. -/
def twoWays (type : ContractType) (first second : Json) (input : Bytes) : Option Json :=
  if input = text "s" then some (.array [.string type.render])
  else if input = text "n" then some (.array [first])
  else some (.array [second])

def fiveAsNumber : Json :=
  .array [.integer 5]

def fiveAsText : Json :=
  .array [.string (decimalInt 5)]

theorem encode_five_alike :
    encode referenceLibrary (twoWays (.array (.int ⟨8, by decide⟩)) fiveAsNumber fiveAsText)
        (text "s") (text "n") =
      encode referenceLibrary (twoWays (.array (.int ⟨8, by decide⟩)) fiveAsNumber fiveAsText)
        (text "s") (text "t") := by
  let five : Parameter := ⟨.array (.int ⟨8, by decide⟩), [⟨5, by decide, by decide⟩]⟩
  have num : Parameter.AllGiven [fiveAsNumber] [five] := by
    refine .cons ⟨_, rfl, .cons (.inl ⟨rfl, ?_, ?_⟩) .nil⟩ .nil <;> decide
  have spelled : Parameter.AllGiven [fiveAsText] [five] :=
    .cons ⟨_, rfl, .cons (.inr rfl) .nil⟩ .nil
  apply (encode_eq_iff_alike referenceLibrary_encodes rfl rfl rfl num spelled).1
  refine ⟨.cons (.inr ⟨?_, ?_⟩) .nil, trivial⟩
  · rintro ⟨other, negative, equal⟩
    cases equal
    exact absurd negative (by decide)
  · rintro ⟨other, _, equal⟩
    cases equal

theorem minus_one_not_alike :
    (Json.integer (-1)).Gives (-1) ∧ (Json.string (decimalInt (-1))).Gives (-1) ∧
        encode referenceLibrary
              (twoWays (.int ⟨8, by decide⟩) (.integer (-1)) (.string (decimalInt (-1))))
              (text "s") (text "n") =
            .ok (word (2 ^ 64 - 1)) ∧
          encode referenceLibrary
                (twoWays (.int ⟨8, by decide⟩) (.integer (-1)) (.string (decimalInt (-1))))
                (text "s") (text "t") =
              .ok (word (2 ^ 256 - 1)) ∧
            word (2 ^ 64 - 1) ≠ word (2 ^ 256 - 1) := by
  refine ⟨.inl ⟨rfl, ?_, ?_⟩, .inr rfl, ?_, ?_, ?_⟩ <;> decide +kernel

end AutomatonCore.Interop.Ethereum
