import AutomatonCore.Interop.AbiEncoding

/-!
# What was read can be recognized
-/

namespace AutomatonCore.Interop.Ethereum

open Io Library List
open ContractType (cellPart AllRegular images layout)

namespace ContractType

variable {lib : IntegerLibrary} {elem : ContractType}

theorem map_some_injective : Function.Injective (List.map (some : UInt8 → Option UInt8)) :=
  map_injective_iff.mpr (Option.some_injective _)

/-! ## Words and byte strings -/

theorem word_injective {first second : Nat} (firstBound : first < 2 ^ 256)
    (secondBound : second < 2 ^ 256) (same : word first = word second) : first = second := by
  have residues := (bigEndian_eq_iff 32 first second).mp same
  rwa [Nat.mod_eq_of_lt (by omega), Nat.mod_eq_of_lt (by omega)] at residues

theorem word_of_cells {result : Result (Option Bytes)} {expected : Bytes} (ne : expected ≠ [])
    (drawn : wordCells <$> result = .ok (expected.map some)) : result = .ok (some expected) := by
  obtain ⟨encoded, made, cells⟩ := map_eq_ok_iff.mp drawn
  cases encoded with
  | none => exact absurd (map_some_injective cells).symm ne
  | some encoded =>
    obtain rfl : encoded = expected := map_some_injective cells
    exact made

theorem padded_injective {first second : Bytes} (length : first.length = second.length)
    (same : padded first = padded second) : first = second :=
  (append_inj same length).1

theorem dynamicBytes_of_cells {isHex : Bool} {json : Json} {v : Bytes}
    (small : (word v.length ++ padded v).length < 2 ^ 64)
    (drawn : dynamicBytesCells isHex json = .ok ((word v.length ++ padded v).map some)) :
    ∃ spelled, json = .string spelled ∧
      (if isHex then hex2bin spelled else some spelled) = some v := by
  cases json with
  | string spelled =>
    refine ⟨spelled, rfl, ?_⟩
    simp only [dynamicBytesCells] at drawn
    split at drawn
    · cases drawn
    next content decoded =>
      rw [decoded]
      have cells := Except.ok.inj drawn
      have halves : offsetBytes content.length = word v.length ∧ padded content = padded v := by
        apply append_inj
        · apply map_some_injective
          rw [← cells]
          rfl
        · rw [length_offsetBytes, length_word]
      have valueBound := length_le_padded v
      have contentBound := length_le_padded content
      rw [halves.2] at contentBound
      rw [length_append] at small
      have words : word content.length = word v.length := by
        rw [← halves.1, offsetBytes, u64ToU256_ofNat (by omega)]
      have length := word_injective (by omega) (by omega) words
      rw [padded_injective length halves.2]
  | _ =>
    have empty := congrArg List.length (Except.ok.inj drawn)
    rw [length_map, length_append, length_word, length_nil] at empty
    omega

/-! ## Sequences -/

theorem no_gaps {front back : Cells} {count : Nat} {expected : Bytes}
    (same : front ++ List.replicate count none ++ back = expected.map some) : count = 0 := by
  by_contra some
  have mem : (none : Option UInt8) ∈ expected.map Option.some := by
    rw [← same]
    simp [some]
  simp at mem

theorem length_eq_of_flatten {limit : Nat} {contents : List Cells}
    (each : ∀ content ∈ contents, content.length ≤ limit)
    (total : contents.flatten.length = contents.length * limit) :
    ∀ content ∈ contents, content.length = limit := by
  induction contents with
  | nil => simp
  | cons content contents ih =>
    rw [forall_mem_cons] at each ⊢
    have bound := length_flatten_le each.2
    rw [flatten_cons, length_append, length_cons, Nat.succ_mul] at total
    exact ⟨by omega, ih each.2 (by omega)⟩

theorem parts_of_sequence {first : List (Library.Part (Option UInt8))}
    {second : List (Library.Part UInt8)}
    (same : List.Forall₂ Part.SameHead first (second.map (Library.Part.map some)))
    (equal : headTail offsetCells 32 first = (sequence second).map some)
    (small : (sequence second).length < 2 ^ 64) : first = second.map (Library.Part.map some) := by
  have words (offset : Nat) : ((word offset).map (some : UInt8 → Option UInt8)).length = 32 := by
    rw [length_map, length_word]
  have injective {left right : Nat} (leftBound : left ≤ 2 ^ 64 - 1)
      (rightBound : right ≤ 2 ^ 64 - 1)
      (sameWords : (word left).map (some : UInt8 → Option UInt8) = (word right).map some) :
      left = right :=
    word_injective (by omega) (by omega) (map_some_injective sameWords)
  have agree {offset : Nat} (bound : offset ≤ 2 ^ 64 - 1) :
      offsetCells offset = (word offset).map some := by
    rw [offsetCells, u64ToU256_ofNat (by omega)]
  have length := congrArg List.length equal
  rw [length_headTail length_offsetCells, length_map] at length
  have converted :
      headTail offsetCells 32 first = headTail (fun offset => (word offset).map some) 32 first := by
    rw [headTail, headTail, heads_congr agree (by omega)]
  rw [sequence, ← headTail_map, converted] at equal
  have bound : (headTail (fun offset => (word offset).map some) 32 first).length ≤ 2 ^ 64 - 1 := by
    rw [length_headTail words]
    omega
  exact headTail_injective injective words same bound equal

theorem cellPart_map_some (type : ContractType) (content : Bytes) :
    type.cellPart (content.map some) = (type.part content).map some := by
  cases dynamic : type.isDynamic <;>
    simp [cellPart, part, dynamic, Library.Part.map]

theorem cellPart_injective (type : ContractType) : Function.Injective type.cellPart := by
  intro first second same
  cases dynamic : type.isDynamic <;>
    simpa [cellPart, dynamic] using same

theorem sameHead_cellPart {type : ContractType} {v : type.Value}
    {cells : Cells} (full : type.isDynamic = false → cells.length = 32 * type.headWords) :
    Part.SameHead (type.cellPart cells) ((type.part (type.encoding v)).map some) := by
  cases dynamic : type.isDynamic with
  | true => simp [cellPart, part, dynamic, Library.Part.map, Part.SameHead]
  | false =>
    simp [cellPart, part, dynamic, Library.Part.map, Part.SameHead,
      full dynamic, length_encoding_static dynamic]

variable {values : List elem.Value} {elements : List Json}

/-- The contents can be read off heads and tails. -/
theorem contents_of_sequence {contents : List Cells} (count : contents.length = values.length)
    (full : elem.isDynamic = false → ∀ content ∈ contents, content.length = 32 * elem.headWords)
    (equal : headTail offsetCells 32 (contents.map elem.cellPart) =
        (sequence (elem.parts values)).map some)
    (small : (sequence (elem.parts values)).length < 2 ^ 64) :
    contents = values.map fun v => (elem.encoding v).map some := by
  have same : List.Forall₂ Part.SameHead (contents.map elem.cellPart)
        ((elem.parts values).map (Library.Part.map some)) := by
    clear equal small
    induction contents generalizing values with
    | nil =>
      obtain rfl : values = [] := length_eq_zero_iff.mp count.symm
      exact .nil
    | cons content contents ih =>
      cases values with
      | nil => cases count
      | cons v values =>
        refine .cons (sameHead_cellPart ?_) (ih ?_ ?_)
        · exact fun static => full static content (by simp)
        · simpa using count
        · exact fun static other mem => full static other (mem_cons_of_mem _ mem)
  have equalParts := parts_of_sequence same equal small
  apply map_injective_iff.mpr elem.cellPart_injective
  rw [equalParts, parts, map_map, map_map]
  apply map_congr_left
  intro v _
  exact (elem.cellPart_map_some _).symm

/-- If the image of a JSON value is the encoding of a value of the type, then
the encoder has read this value. -/
def Recognized (library : IntegerLibrary) (type : ContractType) : Prop :=
  ∀ {json : Json} {value : type.Value}, type.Regular library json →
    type.image library json = .ok ((type.encoding value).map some) →
    (type.encoding value).length < 2 ^ 64 → type.Reads library json value

theorem forall₂_reads (recognized : elem.Recognized lib)
    (regular : ∀ json ∈ elements, elem.Regular lib json)
    (read : elements.mapM (elem.image lib) = .ok (values.map fun v => (elem.encoding v).map some))
    (small : (sequence (elem.parts values)).length < 2 ^ 64) :
    List.Forall₂ (elem.Reads lib) elements values := by
  have each := mapM_eq_ok_iff.mp read
  rw [forall₂_map_right_iff] at each
  have sizes : ∀ v ∈ values, (elem.encoding v).length < 2 ^ 64 := by
    intro v mem
    have := length_encoding_le mem
    omega
  clear read small
  induction each with
  | nil => exact .nil
  | cons first others ih =>
    rw [forall_mem_cons] at regular sizes
    exact .cons (recognized regular.1 first sizes.1) (ih regular.2 sizes.2)

theorem length_image_le_of_mapM (static : elem.isDynamic = false)
    (regular : ∀ json ∈ elements, elem.Regular lib json)
    {contents : List Cells} (read : elements.mapM (elem.image lib) = .ok contents) :
    ∀ content ∈ contents, content.length ≤ 32 * elem.headWords :=
  forall_results (mapM_eq_ok_iff.mp read) fun json mem _ drawn =>
    length_image_le static (regular json mem) drawn

theorem cellPart_of_static (static : elem.isDynamic = false) :
    elem.cellPart = Library.Part.inPlace := by
  funext cells
  simp [cellPart, static]

theorem cellPart_of_dynamic (dynamic : elem.isDynamic = true) :
    elem.cellPart = Library.Part.referenced := by
  funext cells
  simp [cellPart, dynamic]

theorem contents_of_body (regular : ∀ json ∈ elements, elem.Regular lib json)
    {contents : List Cells} (read : elements.mapM (elem.image lib) = .ok contents)
    (count : elements.length = values.length)
    (equal : elem.bodyCells contents = (sequence (elem.parts values)).map some)
    (small : (sequence (elem.parts values)).length < 2 ^ 64) :
    contents = values.map fun v => (elem.encoding v).map some := by
  have length := (mapM_eq_ok_iff.mp read).length_eq
  cases dynamic : elem.isDynamic with
  | true =>
    apply contents_of_sequence (by omega) (by simp [dynamic]) _ small
    rw [← equal, bodyCells, if_pos dynamic, cellPart_of_dynamic dynamic]
    rfl
  | false =>
    have bound := length_image_le_of_mapM dynamic regular read
    rw [bodyCells, if_neg (by simp [dynamic]), elementCells] at equal
    have gaps := @no_gaps _ [] _ _ ((append_nil _).trans equal)
    have fits := length_flatten_le bound
    rw [gaps, replicate_zero, append_nil] at equal
    have full := length_eq_of_flatten bound (by omega)
    apply contents_of_sequence (by omega) (fun _ => full) _ small
    rw [← equal, cellPart_of_static dynamic, headTail_inPlace]

theorem encoding_ne_nil (type : ContractType) (v : type.Value) : type.encoding v ≠ [] := by
  have := type.length_encoding_pos v
  intro empty
  simp [empty] at this

theorem ok_nil_ne (type : ContractType) (v : type.Value) :
    (.ok [] : Result Cells) ≠ .ok ((type.encoding v).map some) := by
  intro equal
  have cells : [].map some = (type.encoding v).map some := Except.ok.inj equal
  exact type.encoding_ne_nil v (map_some_injective cells).symm

theorem length_le_bodyCells {contents : List Cells}
    (fits : elem.isDynamic = false → ∀ content ∈ contents, content.length ≤ 32 * elem.headWords) :
    contents.length ≤ (elem.bodyCells contents).length := by
  unfold bodyCells
  split
  · rw [length_referenceCells]
    omega
  next notDynamic =>
    have words := elem.headWords_pos
    rw [length_elementCells (length_flatten_le (fits (by simpa using notDynamic)))]
    nlinarith

theorem reads_array (recognized : elem.Recognized lib)
    (regular : ∀ json ∈ elements, elem.Regular lib json)
    (drawn :
      (array elem).image lib (.array elements) = .ok (((array elem).encoding values).map some))
    (small : ((array elem).encoding values).length < 2 ^ 64) :
    List.Forall₂ (elem.Reads lib) elements values := by
  have shape : (array elem).encoding values = word values.length ++ sequence (elem.parts values) :=
    rfl
  rw [shape] at drawn small
  obtain ⟨contents, read, cells⟩ := map_eq_ok_iff.mp drawn
  rw [map_append] at cells
  obtain ⟨lengths, body⟩ :=
    append_inj cells (by
      rw [length_offsetCells, length_map, length_word])
  have count : elements.length = values.length := by
    have few := length_le_bodyCells fun static => length_image_le_of_mapM static regular read
    rw [body, length_map, ← (mapM_eq_ok_iff.mp read).length_eq] at few
    have many := few_or_many elem values
    rw [length_append] at small
    have words : word elements.length = word values.length := by
      rw [← u64ToU256_ofNat (by omega)]
      exact map_some_injective lengths
    exact word_injective (by omega) (by omega) words
  rw [length_append] at small
  have same := contents_of_body regular read count body (by omega)
  rw [same] at read
  exact forall₂_reads recognized regular read (by omega)

theorem reads_fixedArray (recognized : elem.Recognized lib)
    {length : ArrayLength} (regular : ∀ json ∈ elements, elem.Regular lib json)
    {values : (fixedArray elem length).Value}
    (drawn : (fixedArray elem length).image lib (.array elements) =
        .ok (((fixedArray elem length).encoding values).map some))
    (small : ((fixedArray elem length).encoding values).length < 2 ^ 64) :
    List.Forall₂ (elem.Reads lib) elements values.1 := by
  have shape : (fixedArray elem length).encoding values = sequence (elem.parts values.1) := rfl
  have pos := (fixedArray elem length).length_encoding_pos values
  rw [shape] at drawn small pos
  by_cases other : elements.length ≠ length.1
  · simp only [image, if_pos other] at drawn
    have empty := congrArg List.length (Except.ok.inj drawn)
    rw [length_map, length_nil] at empty
    omega
  · simp only [image, if_neg other] at drawn
    obtain ⟨contents, read, cells⟩ := map_eq_ok_iff.mp drawn
    have count := (mapM_eq_ok_iff.mp read).length_eq
    have total : contents.length = values.1.length := by
      have := values.2
      omega
    have same : contents = values.1.map fun v => (elem.encoding v).map some := by
      cases dynamic : elem.isDynamic with
      | true =>
        rw [if_pos dynamic] at cells
        apply contents_of_sequence total (by simp [dynamic]) _ small
        rw [← cells, cellPart_of_dynamic dynamic]
        rfl
      | false =>
        rw [if_neg (by simp [dynamic])] at cells
        have full : contents.flatten.length = contents.length * (32 * elem.headWords) := by
          rw [cells, length_map, sequence_static dynamic, length_elements dynamic, total]
        have each := length_eq_of_flatten (length_image_le_of_mapM dynamic regular read) full
        apply contents_of_sequence total (fun _ => each) _ small
        rw [← cells, cellPart_of_static dynamic, headTail_inPlace]
    rw [same] at read
    exact forall₂_reads recognized regular read small

/-- By induction on the type. -/
theorem recognized (type : ContractType) : type.Recognized lib := by
  intro json v regular drawn small
  induction type generalizing json with
  | bool => exact word_of_cells (bool.encoding_ne_nil v) drawn
  | uint width => exact word_of_cells ((uint width).encoding_ne_nil v) drawn
  | int width => exact word_of_cells ((int width).encoding_ne_nil v) drawn
  | address => exact word_of_cells (address.encoding_ne_nil v) drawn
  | fixedBytes width => exact word_of_cells ((fixedBytes width).encoding_ne_nil v) drawn
  | bytes => exact dynamicBytes_of_cells small drawn
  | string =>
    obtain ⟨spelled, rfl, decoded⟩ := dynamicBytes_of_cells small drawn
    exact congrArg Json.string (Option.some.inj decoded)
  | array elem ih =>
    cases json with
    | array elements => exact ⟨elements, rfl, reads_array ih regular.2 drawn small⟩
    | _ => exact absurd drawn ((array elem).ok_nil_ne v)
  | fixedArray elem length ih =>
    cases json with
    | array elements => exact ⟨elements, rfl, reads_fixedArray ih regular drawn small⟩
    | _ => exact absurd drawn ((fixedArray elem length).ok_nil_ne v)

/-! ## Lists of parameters -/

theorem full_of_headsLength {types : List ContractType}
    {params : List Json} (regular : AllRegular lib types params)
    {contents : List Cells} (drawn : images lib types params = .ok contents)
    (total : headsLength 32 (zipWith cellPart types contents) = headSpace types) :
    List.Forall₂ (fun (type : ContractType) (cells : Cells) =>
        type.isDynamic = false → cells.length = 32 * type.headWords)
      types contents := by
  induction regular generalizing contents with
  | nil =>
    cases drawn
    exact .nil
  | cons first others ih =>
    rename_i type json types params
    obtain ⟨cells, later, rfl, here, laterDrawn⟩ := images_cons drawn
    have firstBound := headLength_cellPart_le first here
    have laterBound := headsLength_le_headSpace others laterDrawn
    have space : headSpace (type :: types) = 32 * type.headWords + headSpace types := by
      simp [headSpace]
    rw [zipWith_cons_cons, headsLength] at total
    refine .cons (fun static => ?_) (ih laterDrawn ?_)
    · have head : (type.cellPart cells).headLength 32 = 32 * type.headWords := by omega
      rwa [cellPart_of_static static] at head
    · omega

end ContractType

namespace Parameter

variable {lib : IntegerLibrary} {parameters : List Parameter}
  {params : List Json} {contents : List Cells}

theorem contents_of_parts (count : parameters.length = contents.length) (equal :
      zipWith cellPart (parameters.map Sigma.fst) contents =
        (parameters.map part).map (Library.Part.map some)) :
    contents = parameters.map fun param => (param.1.encoding param.2).map some := by
  induction parameters generalizing contents with
  | nil => exact length_eq_zero_iff.mp count.symm
  | cons param parameters ih =>
    cases contents with
    | nil => cases count
    | cons cells contents =>
      simp only [map_cons, zipWith_cons_cons, List.cons.injEq] at equal
      obtain ⟨here, later⟩ := equal
      rw [part, ← ContractType.cellPart_map_some] at here
      rw [map_cons, param.1.cellPart_injective here, ih (by simpa using count) later]

theorem readAs_of_images (regular : AllRegular lib (parameters.map Sigma.fst) params)
    (drawn : images lib (parameters.map Sigma.fst) params =
        .ok (parameters.map fun param => (param.1.encoding param.2).map some))
    (sizes : ∀ param ∈ parameters, (param.1.encoding param.2).length < 2 ^ 64) :
    ReadAs lib params parameters := by
  induction parameters generalizing params with
  | nil =>
    cases regular
    exact .nil
  | cons param parameters ih =>
    cases regular with
    | cons first others =>
      obtain ⟨cells, later, shape, here, laterDrawn⟩ := ContractType.images_cons drawn
      rw [map_cons, List.cons.injEq] at shape
      rw [← shape.1] at here
      rw [← shape.2] at laterDrawn
      rw [forall_mem_cons] at sizes
      exact .cons (param.1.recognized first here sizes.1) (ih others laterDrawn sizes.2)

theorem readAs_of_layout (regular : AllRegular lib (parameters.map Sigma.fst) params)
    (drawn : images lib (parameters.map Sigma.fst) params = .ok contents)
    (equal :
      layout (parameters.map Sigma.fst) contents = (encodings parameters).map some)
    (small : (encodings parameters).length < 2 ^ 64) : ReadAs lib params parameters := by
  have bound := ContractType.headsLength_le_headSpace regular drawn
  have gaps := ContractType.no_gaps equal
  have total : headsLength 32 (zipWith cellPart (parameters.map Sigma.fst) contents) =
        ContractType.headSpace (parameters.map Sigma.fst) := by
    omega
  have full := ContractType.full_of_headsLength regular drawn total
  rw [forall₂_map_left_iff] at full
  have same :
      List.Forall₂ Part.SameHead (zipWith cellPart (parameters.map Sigma.fst) contents)
        ((parameters.map part).map (Library.Part.map some)) := by
    clear equal small gaps total bound drawn regular
    induction full with
    | nil => exact .nil
    | cons first others ih => exact .cons (ContractType.sameHead_cellPart first) ih
  have sequences :
      headTail offsetCells 32 (zipWith cellPart (parameters.map Sigma.fst) contents) =
        (encodings parameters).map some := by
    rw [← equal, layout, headTail, total]
    simp
  have parts := ContractType.parts_of_sequence same sequences small
  obtain rfl := contents_of_parts full.length_eq parts
  refine readAs_of_images regular drawn fun param mem => ?_
  exact (length_encoding_le mem).trans_lt small

end Parameter

end AutomatonCore.Interop.Ethereum
