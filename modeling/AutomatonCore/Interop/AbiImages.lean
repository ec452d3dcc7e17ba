import AutomatonCore.Interop.AbiMemory
import AutomatonCore.Library.Lockstep

/-!
# What the encoder writes

For every JSON value, whether it fits the type or not: the cells that
`encode_param` fills.
-/

namespace AutomatonCore.Interop.Ethereum

open Io Library

namespace Cursors

@[simp]
theorem advanceHead_zero (cursors : Cursors) : cursors.advanceHead 0 = cursors := by
  cases cursors <;> rfl

theorem advanceHead_advanceHead (cursors : Cursors) (first second : Nat) :
    (cursors.advanceHead first).advanceHead second = cursors.advanceHead (first + second) := by
  cases cursors <;> simp [advanceHead, add_assoc]

@[simp]
theorem head_advanceHead (cursors : Cursors) (count : Nat) :
    (cursors.advanceHead count).head = cursors.head + count := by
  cases cursors <;> rfl

@[simp]
theorem tail_setTail (cursors : Cursors) (pos : Nat) : (cursors.setTail pos).tail = pos := by
  cases cursors <;> rfl

@[simp]
theorem tail_advanceTail (cursors : Cursors) (count : Nat) :
    (cursors.advanceTail count).tail = cursors.tail + count :=
  cursors.tail_setTail _

@[simp]
theorem setTail_tail (cursors : Cursors) : cursors.setTail cursors.tail = cursors := by
  cases cursors <;> rfl

@[simp]
theorem setTail_setTail (cursors : Cursors) (first second : Nat) :
    (cursors.setTail first).setTail second = cursors.setTail second := by
  cases cursors <;> rfl

end Cursors

/-- What is written from a position on; `none` is a cell that stays empty. -/
abbrev Cells := List (Option UInt8)

def offsetCells (offset : Nat) : Cells :=
  (u64ToU256 (UInt64.ofNat offset)).map some

theorem length_u64ToU256 (n : UInt64) : (u64ToU256 n).length = 32 :=
  rfl

theorem length_offsetCells (offset : Nat) : (offsetCells offset).length = 32 := by
  rw [offsetCells, List.length_map, length_u64ToU256]

namespace ContractType

/-- A value of static size is written at the head, one of dynamic size at the
tail. -/
def position (type : ContractType) (cursors : Cursors) : Nat :=
  if type.isDynamic then cursors.tail else cursors.head

def advance (type : ContractType) (cursors : Cursors) (count : Nat) : Cursors :=
  if type.isDynamic then cursors.advanceTail count
  else cursors.advanceHead count

theorem position_of_static {type : ContractType}
    (static : type.isDynamic = false) : type.position = Cursors.head := by
  funext cursors
  simp [position, static]

theorem position_of_dynamic {type : ContractType}
    (dynamic : type.isDynamic = true) : type.position = Cursors.tail := by
  funext cursors
  simp [position, dynamic]

theorem advance_of_static {type : ContractType} (static : type.isDynamic = false) :
    type.advance = Cursors.advanceHead := by
  funext cursors count
  simp [advance, static]

theorem advance_of_dynamic {type : ContractType} (dynamic : type.isDynamic = true) :
    type.advance = Cursors.advanceTail := by
  funext cursors count
  simp [advance, dynamic]

theorem headWords_pos (type : ContractType) : 0 < type.headWords := by
  induction type with
  | fixedArray elem length ih =>
    rw [headWords]
    split
    · exact Nat.one_pos
    · exact Nat.mul_pos length.2.1 ih
  | _ => exact Nat.one_pos

theorem arrayType_ne_fixed {type : ContractType}
    (dynamic : type.isDynamic = true) : type.arrayType ≠ .fixed := by
  cases type <;> simp_all [isDynamic, arrayType]

theorem headWords_of_dynamic {type : ContractType}
    (dynamic : type.isDynamic = true) : type.headWords = 1 :=
  headWords_of_not_fixed (arrayType_ne_fixed dynamic)

/-! ## Images -/

/-- A value that does not fit is not written. -/
def wordCells (encoded : Option Bytes) : Cells :=
  (encoded.getD []).map some

/-- The word that `encode_fixed_bytes` writes. -/
def fixedBytesWord (isAddress : Bool) (json : Json) : Result (Option Bytes) :=
  match json with
  | .string data =>
    match hex2bin data with
    | none => .error .invalidArgument
    | some binData =>
      if binData.length > 32 then return none
      else if isAddress then
        if binData.length ≠ 20 then return none
        else return some (List.replicate 12 0 ++ binData)
      else return some (binData ++ List.replicate (32 - binData.length) 0)
  | _ => return none

/-- The length and the padded bytes. -/
def dynamicBytesCells (isHex : Bool) (json : Json) : Result Cells :=
  match json with
  | .string data =>
    match if isHex then hex2bin data else some data with
    | none => .error .invalidArgument
    | some s => return offsetCells s.length ++ (padded s).map some
  | _ => return []

/-- Elements of dynamic size, behind their offsets. -/
def referenceCells (contents : List Cells) : Cells :=
  headTail offsetCells 32 (contents.map .referenced)

/-- The space for elements of static size was reserved before; what they do not
fill stays empty. -/
def elementCells (elem : ContractType) (contents : List Cells) : Cells :=
  contents.flatten ++
    List.replicate (contents.length * (32 * elem.headWords) - contents.flatten.length) none

def bodyCells (elem : ContractType) (contents : List Cells) : Cells :=
  if elem.isDynamic then referenceCells contents
  else elem.elementCells contents

/-- The cells of a JSON value, by recursion on the type. -/
def image (lib : IntegerLibrary) : ContractType → Json → Result Cells
  | bool, json => wordCells <$> numericalWord lib bool.paramType json
  | uint width, json => wordCells <$> numericalWord lib (uint width).paramType json
  | int width, json => wordCells <$> numericalWord lib (int width).paramType json
  | address, json => wordCells <$> fixedBytesWord true json
  | fixedBytes _, json => wordCells <$> fixedBytesWord false json
  | bytes, json => dynamicBytesCells true json
  | string, json => dynamicBytesCells false json
  | array elem, .array elements => do
    let contents ← elements.mapM (elem.image lib)
    return offsetCells elements.length ++ elem.bodyCells contents
  | array _, _ => return []
  | fixedArray elem length, .array elements =>
    if elements.length ≠ length.1 then return []
    else do
      let contents ← elements.mapM (elem.image lib)
      return if elem.isDynamic then referenceCells contents
      else contents.flatten
  | fixedArray _ _, _ => return []

/-- The integer library returns whole words. -/
def MakesWord (lib : IntegerLibrary) (t : ParamType) (json : Json) : Prop :=
  ∀ {encoded}, numericalWord lib t json = .ok (some encoded) → encoded.length = 32

/-- Numbers make words, and the size of the elements of an array fits into
the 32 bits with which it is computed. -/
def Regular (lib : IntegerLibrary) : ContractType → Json → Prop
  | uint width, json => MakesWord lib (uint width).paramType json
  | int width, json => MakesWord lib (int width).paramType json
  | array elem, .array elements =>
    (elements = [] ∨ 32 * elem.headWords < 2 ^ 32) ∧
      ∀ json ∈ elements, elem.Regular lib json
  | fixedArray elem _, .array elements => ∀ json ∈ elements, elem.Regular lib json
  | _, _ => True

/-- The encoder fills the cells, moves its cursor behind them and changes
nothing else; or both fail. -/
def Draws (drawn : Result Cells) (result : Encoded)
    (memory : Nat → Option UInt8) (position : Nat) (cursors : Nat → Cursors) : Prop :=
  Lockstep (fun cells outcome =>
    outcome.2 = cursors cells.length ∧ outcome.1.view = fill memory position cells) drawn result

/-- `encode_param` draws the image of every JSON value of the type. -/
def Imaged (lib : IntegerLibrary) (type : ContractType) : Prop :=
  ∀ {json : Json}, type.Regular lib json →
      ∀ (buffer : Buffer) (cursors : Cursors), Draws (type.image lib json)
          (encodeParam lib type.paramType json buffer cursors)
          buffer.view (type.position cursors) (type.advance cursors)

end ContractType

theorem store_fills (buf : Buffer) (pos : Nat) {count : Nat}
    {src : Bytes} (whole : src.length = count) :
    ∃ next, store buf pos src count = .ok next ∧
        next.view = fill buf.view pos (src.map some) := by
  obtain ⟨next, stored, view⟩ := store_writes buf pos whole
  exact ⟨next, stored, view.trans (overlay_eq_fill _ _ _)⟩

namespace ContractType

variable {lib : IntegerLibrary} {elem : ContractType}

/-! ## Types that are not arrays -/

theorem draws_nothing (buf : Buffer) (cursors : Cursors) (pos : Nat) (type : ContractType) :
    Draws (.ok []) (.ok (buf, cursors)) buf.view pos (type.advance cursors) := by
  refine .ok ⟨?_, (fill_nil _ _).symm⟩
  unfold advance
  split <;> simp [Cursors.advanceTail]

variable {encoded : Bytes} {cells : Cells}

theorem store_head_draws (width : encoded.length = 32) (buf : Buffer) (cursors : Cursors) :
    Draws (.ok (encoded.map some)) (do
        let buf ← store buf cursors.head encoded 32
        return (buf, cursors.advanceHead 32))
      buf.view cursors.head cursors.advanceHead := by
  obtain ⟨next, stored, view⟩ := store_fills buf cursors.head width
  rw [stored]
  exact .ok ⟨by rw [List.length_map, width], view⟩

variable {json : Json} {elements : List Json}

theorem encodeNumerical_draws {t : ParamType}
    (makesWord : MakesWord lib t json) (buf : Buffer) (cursors : Cursors) :
    Draws (wordCells <$> numericalWord lib t json)
      (encodeNumerical lib t json buf cursors) buf.view cursors.head cursors.advanceHead := by
  rw [encodeNumerical]
  cases words : numericalWord lib t json with
  | error fault => exact .error fault
  | ok encoded =>
    cases encoded with
    | none => exact .ok ⟨by simp [wordCells], by simp [wordCells]⟩
    | some encoded => exact store_head_draws (makesWord words) buf cursors

theorem encodeFixedBytes_draws (t : ParamType) (json : Json) (buffer : Buffer) (cursors : Cursors) :
    Draws (wordCells <$> fixedBytesWord (t.str = text "address") json)
      (encodeFixedBytes t json buffer cursors) buffer.view cursors.head cursors.advanceHead := by
  have nothing : Draws (.ok (wordCells none)) (.ok (buffer, cursors)) buffer.view
        cursors.head cursors.advanceHead :=
    .ok ⟨by simp [wordCells], by simp [wordCells]⟩
  cases json with
  | string data =>
    simp only [fixedBytesWord, encodeFixedBytes]
    cases decoded : hex2bin data with
    | none => exact .error _
    | some binData =>
      dsimp only
      split
      · exact nothing
      · by_cases isAddress : t.str = text "address"
        · simp only [isAddress, decide_true, if_true]
          split
          · exact nothing
          next size =>
            exact store_head_draws (by simp [not_not.mp size]) buffer cursors
        · simp only [isAddress]
          have width : (binData ++ List.replicate (32 - binData.length) 0).length = 32 := by
            rw [List.length_append, List.length_replicate]
            omega
          exact store_head_draws width buffer cursors
  | _ => exact nothing

theorem encodeDynamicBytes_draws (t : ParamType) (json : Json) (buf : Buffer) (cursors : Cursors) :
    Draws (dynamicBytesCells (t.sType = .dynamicSizeBytes) json)
      (encodeDynamicBytes t json buf cursors) buf.view cursors.tail cursors.advanceTail := by
  have nothing : Draws (.ok []) (.ok (buf, cursors)) buf.view cursors.tail cursors.advanceTail :=
    .ok ⟨by simp [Cursors.advanceTail], by simp⟩
  cases json with
  | string data =>
    simp only [dynamicBytesCells, encodeDynamicBytes, decide_eq_true_iff]
    cases decoded :
        if t.sType = .dynamicSizeBytes then hex2bin data else some data with
    | none => exact .error _
    | some v =>
      obtain ⟨next, stored, view⟩ :=
        store_fills buf cursors.tail (length_u64ToU256 (UInt64.ofNat v.length))
      obtain ⟨last, storedRest, viewRest⟩ :=
        store_fills next (cursors.tail + 32) (rfl : (padded v).length = _)
      simp only [stored, encodeString_eq_padded, ok_bind, Cursors.advanceTail,
        Cursors.tail_setTail, Cursors.setTail_setTail, storedRest, pure_eq_ok]
      refine .ok ⟨?_, ?_⟩
      · simp only [List.length_append, List.length_map, length_offsetCells, add_assoc,
          Cursors.advanceTail]
      · rw [viewRest, view, ← fill_append]
        rfl
  | _ => exact nothing

/-! ## Arrays -/

theorem mapM_eq_ok_iff {α β : Type} {read : α → Result β} {values : List α} {results : List β} :
    values.mapM read = .ok results ↔
      List.Forall₂ (fun v result => read v = .ok result) values results := by
  induction values generalizing results with
  | nil => simp [eq_comm]
  | cons v values ih =>
    simp only [List.mapM_cons, bind_eq_ok_iff, ih, List.forall₂_cons_left_iff, pure_eq_ok,
      Except.ok.injEq]
    constructor
    · rintro ⟨first, here, rest, others, rfl⟩
      exact ⟨first, rest, here, others, rfl⟩
    · rintro ⟨first, rest, here, others, rfl⟩
      exact ⟨first, here, rest, others, rfl⟩

theorem forall_results {α β : Type} {relation : α → β → Prop}
    {holds : β → Prop} {values : List α} {results : List β}
    (related : List.Forall₂ relation values results)
    (each : ∀ v ∈ values, ∀ result, relation v result → holds result) :
    ∀ result ∈ results, holds result := by
  induction related with
  | nil => simp
  | cons first others ih =>
    rw [List.forall_mem_cons] at each ⊢
    exact ⟨each.1 _ first, ih each.2⟩

theorem map_eq_ok_iff {α β : Type} {result : Result α} {v : β} {change : α → β} :
    change <$> result = .ok v ↔ ∃ first, result = .ok first ∧ change first = v := by
  cases result <;> simp [Functor.map, Except.map]

theorem length_flatten_le {α : Type} {limit : Nat}
    {contents : List (List α)} (each : ∀ content ∈ contents, content.length ≤ limit) :
    contents.flatten.length ≤ contents.length * limit := by
  induction contents with
  | nil => simp
  | cons content contents ih =>
    rw [List.forall_mem_cons] at each
    have later := ih each.2
    rw [List.flatten_cons, List.length_append, List.length_cons, Nat.succ_mul]
    omega

theorem length_wordCells_le {result : Result (Option Bytes)}
    (width : ∀ {encoded}, result = .ok (some encoded) → encoded.length = 32)
    (drawn : wordCells <$> result = .ok cells) : cells.length ≤ 32 := by
  obtain ⟨encoded, made, rfl⟩ := map_eq_ok_iff.mp drawn
  cases encoded with
  | none => simp [wordCells]
  | some encoded => simp [wordCells, width made]

theorem makesWord_bool (json : Json) : MakesWord lib bool.paramType json := by
  intro encoded made
  have isBool : bool.paramType.str = text "bool" := rfl
  cases json with
  | boolean v =>
    cases made
    exact length_u64ToU256 _
  | _ => cases made

theorem length_fixedBytesWord {isAddress : Bool}
    (made : fixedBytesWord isAddress json = .ok (some encoded)) :
    encoded.length = 32 := by
  cases json with
  | string data =>
    simp only [fixedBytesWord] at made
    split at made
    · cases made
    · split at made
      · cases made
      · split at made
        · split at made
          · cases made
          next size =>
            cases made
            simp [not_not.mp size]
        · cases made
          rw [List.length_append, List.length_replicate]
          omega
  | _ => cases made

/-- An image of static size does not exceed its space. -/
theorem length_image_le {type : ContractType} (static : type.isDynamic = false)
    (regular : type.Regular lib json)
    (drawn : type.image lib json = .ok cells) : cells.length ≤ 32 * type.headWords := by
  induction type generalizing json cells with
  | bool => exact length_wordCells_le (makesWord_bool json) drawn
  | uint width => exact length_wordCells_le regular drawn
  | int width => exact length_wordCells_le regular drawn
  | address => exact length_wordCells_le length_fixedBytesWord drawn
  | fixedBytes width => exact length_wordCells_le length_fixedBytesWord drawn
  | fixedArray elem length ih =>
    rw [isDynamic] at static
    cases json with
    | array elements =>
      simp only [image, static, Bool.false_eq_true, if_false] at drawn
      split at drawn
      · cases drawn
        simp
      next count =>
        obtain ⟨contents, read, rfl⟩ := map_eq_ok_iff.mp drawn
        have each := mapM_eq_ok_iff.mp read
        have bound : ∀ content ∈ contents, content.length ≤ 32 * elem.headWords :=
          forall_results each fun json mem content drawn => ih static (regular json mem) drawn
        have total := length_flatten_le bound
        rw [← each.length_eq, not_not.mp count] at total
        rw [headWords, if_neg (by simp [static])]
        calc
          contents.flatten.length ≤ length.1 * (32 * elem.headWords) := total
          _ = 32 * (length.1 * elem.headWords) := by ring
    | _ =>
      cases drawn
      simp
  | _ => cases static

/-- The loop over elements of static size. -/
theorem encodeElements_draws (static : elem.isDynamic = false) (imaged : elem.Imaged lib)
    (regular : ∀ json ∈ elements, elem.Regular lib json) (buf : Buffer) (cursors : Cursors) :
    Lockstep (fun contents outcome =>
        outcome.2 = cursors.advanceHead contents.flatten.length ∧
          outcome.1.view = fill buf.view cursors.head contents.flatten)
      (elements.mapM (elem.image lib))
      (encodeElements lib elem.paramType elements buf cursors) := by
  induction elements generalizing buf cursors with
  | nil => exact .ok ⟨by simp, by simp⟩
  | cons json elements ih =>
    rw [List.forall_mem_cons] at regular
    have first := imaged regular.1 buf cursors
    rw [position_of_static static, advance_of_static static] at first
    rw [List.mapM_cons, encodeElements]
    refine first.bind fun cells outcome _ held => ?_
    obtain ⟨next, moved⟩ := outcome
    obtain ⟨rfl, view⟩ : moved = _ ∧ next.view = _ := held
    rw [bind_pure_comp]
    refine (ih regular.2 next _).map fun contents final _ held => ?_
    rw [Cursors.advanceHead_advanceHead, Cursors.head_advanceHead, view, fill_append] at held
    rwa [List.flatten_cons, List.length_append]

theorem headsLength_referenced {α : Type} (contents : List (List α)) :
    headsLength 32 (contents.map Part.referenced) = 32 * contents.length := by
  induction contents with
  | nil => rfl
  | cons content contents ih =>
    rw [List.map_cons, headsLength, ih, Part.headLength, List.length_cons]
    ring

/-- The loop over elements of dynamic size fills heads and tails at once. -/
theorem encodeReferences_draws (dynamic : elem.isDynamic = true)
    (imaged : elem.Imaged lib)
    (regular : ∀ json ∈ elements, elem.Regular lib json) (start head offset : Nat)
    (apart : head + 32 * elements.length ≤ start + offset) (buf : Buffer) :
    Lockstep (fun contents outcome =>
        outcome.2 = start + offset + (tails (contents.map Part.referenced)).length ∧
          outcome.1.view =
            fill (fill buf.view head (heads offsetCells offset (contents.map Part.referenced)))
              (start + offset) (tails (contents.map Part.referenced)))
      (elements.mapM (elem.image lib))
      (encodeReferences lib elem.paramType start elements buf head (start + offset)) := by
  induction elements generalizing head offset buf with
  | nil =>
    exact .ok ⟨by simp [tails], by simp [heads, tails]⟩
  | cons json elements ih =>
    rw [List.forall_mem_cons] at regular
    rw [List.length_cons] at apart
    obtain ⟨stored, storeOk, storeView⟩ :=
      store_fills buf head (length_u64ToU256 (UInt64.ofNat offset))
    have first := imaged regular.1 stored (.shared (start + offset))
    rw [position_of_dynamic dynamic, advance_of_dynamic dynamic] at first
    rw [List.mapM_cons]
    simp only [encodeReferences, Nat.add_sub_cancel_left, storeOk, ok_bind]
    refine first.bind fun cells outcome _ held => ?_
    obtain ⟨next, moved⟩ := outcome
    obtain ⟨rfl, view⟩ : moved = _ ∧ next.view = _ := held
    have later := ih regular.2 (head + 32) (offset + cells.length) (by omega) next
    rw [← add_assoc] at later
    rw [bind_pure_comp]
    refine later.map fun contents final read held => ?_
    obtain ⟨tailRest, viewRest⟩ := held
    refine ⟨?_, ?_⟩
    · rw [tailRest]
      simp only [List.map_cons, tails, List.length_append, add_assoc]
    · have room : head + (offsetCells offset).length +
              (heads offsetCells (offset + cells.length)
                (contents.map Part.referenced)).length ≤ start + offset := by
        rw [length_offsetCells, length_heads length_offsetCells, headsLength_referenced,
          ← (mapM_eq_ok_iff.mp read).length_eq]
        omega
      rw [viewRest, view, storeView]
      exact fill_interleaved _ _ _ _ _ room

def lengthCells (t : ParamType) (count : Nat) : Cells :=
  if t.arrayLen = 0 then offsetCells count else []

theorem encodeLength_fills (t : ParamType) (count : Nat) (buf : Buffer) (cursors : Cursors) :
    ∃ next, encodeLength t count buf cursors =
          .ok (next, cursors.advanceTail (lengthCells t count).length) ∧
        next.view = fill buf.view cursors.tail (lengthCells t count) := by
  unfold encodeLength lengthCells
  split
  · obtain ⟨next, stored, view⟩ :=
      store_fills buf cursors.tail (length_u64ToU256 (UInt64.ofNat count))
    refine ⟨next, ?_, view⟩
    simp only [stored, ok_bind, pure_eq_ok, length_offsetCells]
  · exact ⟨buf, by simp [Cursors.advanceTail], by simp⟩

theorem length_referenceCells (contents : List Cells) :
    (referenceCells contents).length =
      32 * contents.length + (tails (contents.map Part.referenced)).length := by
  rw [referenceCells, headTail, List.length_append,
    length_heads length_offsetCells, headsLength_referenced]

theorem length_elementCells {contents : List Cells}
    (fits : contents.flatten.length ≤ contents.length * (32 * elem.headWords)) :
    (elem.elementCells contents).length = contents.length * (32 * elem.headWords) := by
  rw [elementCells, List.length_append, List.length_replicate]
  omega

theorem encodeElements_reserved (static : elem.isDynamic = false)
    (imaged : elem.Imaged lib)
    (regular : ∀ json ∈ elements, elem.Regular lib json) (start : Nat) (buf : Buffer) :
    Lockstep (fun contents outcome =>
        outcome.2.tail = start + (elem.elementCells contents).length ∧
          outcome.1.view = fill buf.view start (elem.elementCells contents))
      (elements.mapM (elem.image lib))
      (encodeElements lib elem.paramType elements buf
        (.separate start (start + elements.length * (32 * elem.headWords)))) := by
  refine (encodeElements_draws static imaged regular buf _).imp fun contents outcome read held => ?_
  obtain ⟨moved, view⟩ := held
  have each := mapM_eq_ok_iff.mp read
  have fits :=
    length_flatten_le (forall_results each fun json mem content drawn =>
        length_image_le static (regular json mem) drawn)
  refine ⟨?_, ?_⟩
  · rw [moved, length_elementCells fits, ← each.length_eq]
    rfl
  · rw [view, elementCells, ← fill_append, fill_gaps]
    rfl

theorem encodeElements_body (static : elem.isDynamic = false) (imaged : elem.Imaged lib)
    (regular : ∀ json ∈ elements, elem.Regular lib json)
    (start : Nat) (buf : Buffer) (cursors : Cursors) :
    Lockstep (fun contents outcome =>
        outcome.2 = cursors.setTail (start + (elem.bodyCells contents).length) ∧
          outcome.1.view = fill buf.view start (elem.bodyCells contents))
      (elements.mapM (elem.image lib)) (do
        let (buf, inner) ← encodeElements lib elem.paramType elements buf
            (.separate start (start + elements.length * (32 * elem.headWords)))
        return (buf, cursors.setTail inner.tail)) := by
  rw [← bind_pure (elements.mapM _)]
  refine (encodeElements_reserved static imaged regular start buf).bind fun contents _ _ held => ?_
  have cells : elem.bodyCells contents = elem.elementCells contents :=
    if_neg (by simp [static])
  exact .ok ⟨by rw [held.1, cells], by rw [held.2, cells]⟩

/-- Arrays that are written at the tail, with or without a length. -/
theorem encodeParam_array {t : ParamType} (dynamicArray : t.sArrayType = .dynamic)
    (elementType : extractArrayType t.str = .ok elem.paramType) (imaged : elem.Imaged lib)
    (small : elements = [] ∨ 32 * elem.headWords < 2 ^ 32)
    (regular : ∀ json ∈ elements, elem.Regular lib json)
    (count : t.arrayLen = 0 ∨ elements.length = t.arrayLen) (buf : Buffer) (cursors : Cursors) :
    Draws ((fun contents =>
          lengthCells t elements.length ++ elem.bodyCells contents) <$>
        elements.mapM (elem.image lib))
      (encodeParam lib t (.array elements) buf cursors) buf.view
      cursors.tail cursors.advanceTail := by
  have notFixed : t.sArrayType ≠ .fixed := by simp [dynamicArray]
  have accepted : ¬ (t.arrayLen ≠ 0 ∧ elements.length ≠ t.arrayLen) := by tauto
  obtain ⟨next, lengthOk, lengthView⟩ := encodeLength_fills t elements.length buf cursors
  -- it remains to write the elements behind the length
  suffices body : Lockstep (fun contents outcome =>
          outcome.2 = cursors.setTail (cursors.tail + (lengthCells t elements.length).length +
                  (elem.bodyCells contents).length) ∧
            outcome.1.view = fill next.view (cursors.tail + (lengthCells t elements.length).length)
                (elem.bodyCells contents))
        (elements.mapM (elem.image lib))
        (encodeParam lib t (.array elements) buf cursors) by
    refine body.map fun contents outcome _ held => ⟨?_, ?_⟩
    · rw [held.1, Cursors.advanceTail, List.length_append, add_assoc]
    · rw [held.2, lengthView, fill_append]
  rw [encodeParam, if_neg notFixed, if_pos dynamicArray]
  simp only [if_neg accepted, lengthOk, elementType, ok_bind,
    Cursors.advanceTail, Cursors.tail_setTail, Cursors.setTail_setTail, inTail_paramType]
  generalize cursors.tail + (lengthCells t elements.length).length = start
  cases dynamic : elem.isDynamic with
  | true =>
    have notFixedElement : elem.paramType.sArrayType ≠ .fixed := arrayType_ne_fixed dynamic
    simp only [if_neg notFixedElement]
    rw [← bind_pure (elements.mapM _)]
    refine (encodeReferences_draws dynamic imaged regular start start
        (32 * elements.length) (le_rfl) next).bind fun contents outcome read held => ?_
    obtain ⟨tail, view⟩ := held
    have length := (mapM_eq_ok_iff.mp read).length_eq
    have cells : elem.bodyCells contents = referenceCells contents := if_pos dynamic
    refine .ok ⟨?_, ?_⟩
    · rw [tail, cells, length_referenceCells, length, add_assoc]
    · have width :=
        length_heads length_offsetCells (32 * contents.length) (contents.map Part.referenced)
      rw [headsLength_referenced] at width
      rw [view, cells, referenceCells, headTail, ← fill_append,
        headsLength_referenced, width, length]
  | false =>
    have written := encodeElements_body dynamic imaged regular start next cursors
    by_cases fixed : elem.paramType.sArrayType = .fixed
    · have size : calculateOffset [elem.paramType.str] = .ok (32 * elem.headWords % 2 ^ 32) :=
        elem.calculateOffset_singleton
      have space : elements.length * (32 * elem.headWords % 2 ^ 32) =
            elements.length * (32 * elem.headWords) := by
        rcases small with rfl | small
        · simp
        · rw [Nat.mod_eq_of_lt small]
      simp only [if_pos fixed, size, ok_bind, space]
      exact written
    · have space : 32 * elements.length = elements.length * (32 * elem.headWords) := by
        rw [headWords_of_not_fixed fixed]
        ring
      have elementary :
          elem.paramType.sType = .numerical ∨ elem.paramType.sType = .fixedSizeBytes :=
        abiType_of_static dynamic
      simp only [if_neg fixed, if_pos elementary, space]
      exact written

theorem encodeParam_not_array {t : ParamType}
    (isArray : t.sArrayType = .fixed ∨ t.sArrayType = .dynamic)
    (other : ∀ elements, json ≠ .array elements) (buf : Buffer) (cursors : Cursors) :
    encodeParam lib t json buf cursors = .ok (buf, cursors) := by
  rw [encodeParam.eq_def]
  cases json with
  | array elements => exact absurd rfl (other elements)
  | _ => rcases isArray with kind | kind <;> simp [kind]

theorem fixedArray_isArray (elem : ContractType) (length : ArrayLength) :
    (fixedArray elem length).paramType.sArrayType = .fixed ∨
      (fixedArray elem length).paramType.sArrayType = .dynamic := by
  cases dynamic : elem.isDynamic <;> simp [paramType, arrayType, dynamic]

theorem encodeParam_fixedArray (length : ArrayLength) (imaged : elem.Imaged lib)
    (regular : ∀ json ∈ elements, elem.Regular lib json) (buf : Buffer) (cursors : Cursors) :
    Draws ((fixedArray elem length).image lib (.array elements))
      (encodeParam lib (fixedArray elem length).paramType (.array elements) buf cursors)
      buf.view ((fixedArray elem length).position cursors)
      ((fixedArray elem length).advance cursors) := by
  have elementType :
      extractArrayType (fixedArray elem length).paramType.str = .ok elem.paramType :=
    elem.extractArrayType_fixedArray length
  have pos : length.1 ≠ 0 := Nat.pos_iff_ne_zero.mp length.2.1
  cases dynamic : elem.isDynamic with
  | true =>
    have kind : (fixedArray elem length).paramType.sArrayType = .dynamic := by
      simp [paramType, arrayType, dynamic]
    have dynamicArray : (fixedArray elem length).isDynamic = true := dynamic
    rw [position_of_dynamic dynamicArray, advance_of_dynamic dynamicArray]
    by_cases count : elements.length = length.1
    · have drawn :=
        encodeParam_array kind elementType imaged
          (.inr (by simp [headWords_of_dynamic dynamic])) regular (.inr count) buf cursors
      have noWord (count : Nat) : lengthCells (fixedArray elem length).paramType count = [] :=
        if_neg pos
      simp only [noWord, bodyCells, dynamic] at drawn
      simp only [image, count, ne_eq, dynamic]
      exact drawn
    · have rejected : (fixedArray elem length).paramType.arrayLen ≠ 0 ∧
            elements.length ≠ (fixedArray elem length).paramType.arrayLen :=
        ⟨pos, count⟩
      simp only [image, ne_eq, count, not_false_eq_true, if_true]
      rw [encodeParam, if_neg (by simp [kind]), if_pos kind, if_pos rejected]
      have nothing := draws_nothing buf cursors cursors.tail (fixedArray elem length)
      rwa [advance_of_dynamic dynamicArray] at nothing
  | false =>
    have kind : (fixedArray elem length).paramType.sArrayType = .fixed := by
      simp [paramType, arrayType, dynamic]
    have staticArray : (fixedArray elem length).isDynamic = false := dynamic
    rw [position_of_static staticArray, advance_of_static staticArray]
    rw [encodeParam, if_pos kind]
    by_cases count : elements.length = length.1
    · have accepted : ¬ elements.length ≠ (fixedArray elem length).paramType.arrayLen :=
        not_not.mpr count
      rw [if_neg accepted]
      simp only [elementType, ok_bind, image, count, ne_eq,
        not_true_eq_false, if_false, dynamic, Bool.false_eq_true]
      exact (encodeElements_draws dynamic imaged regular buf cursors).map fun _ _ _ held => held
    · have rejected : elements.length ≠ (fixedArray elem length).paramType.arrayLen := count
      simp only [image, ne_eq, count]
      rw [if_pos rejected]
      have nothing := draws_nothing buf cursors cursors.head (fixedArray elem length)
      rwa [advance_of_static staticArray] at nothing

theorem encodeParam_elementary (type : ContractType)
    (elementary : type.Elementary) (json : Json) (buf : Buffer) (cursors : Cursors) :
    encodeParam lib type.paramType json buf cursors =
      if type.abiType = .string ∨ type.abiType = .dynamicSizeBytes then
        encodeDynamicBytes type.paramType json buf cursors
      else if type.abiType = .fixedSizeBytes then encodeFixedBytes type.paramType json buf cursors
      else if type.abiType = .numerical then encodeNumerical lib type.paramType json buf cursors
      else .ok (buf, cursors) := by
  have kind : type.paramType.sArrayType = .noArray := by rw [elementary.paramType_eq]
  rw [encodeParam.eq_def, if_neg (by simp [kind]), if_neg (by simp [kind])]
  rfl

/-- By induction on the type. -/
theorem imaged (type : ContractType) : type.Imaged lib := by
  induction type with
  | bool =>
    intro json regular buffer cursors
    rw [encodeParam_elementary bool trivial]
    exact encodeNumerical_draws (makesWord_bool json) buffer cursors
  | uint width =>
    intro json regular buffer cursors
    rw [encodeParam_elementary (uint width) trivial]
    exact encodeNumerical_draws regular buffer cursors
  | int width =>
    intro json regular buffer cursors
    rw [encodeParam_elementary (int width) trivial]
    exact encodeNumerical_draws regular buffer cursors
  | address =>
    intro json regular buffer cursors
    rw [encodeParam_elementary address trivial]
    exact encodeFixedBytes_draws address.paramType json buffer cursors
  | fixedBytes width =>
    intro json regular buffer cursors
    have notAddress : decide ((fixedBytes width).paramType.str = text "address") = false := by
      simp +decide [paramType, render, text]
    have drawn := encodeFixedBytes_draws (fixedBytes width).paramType json buffer cursors
    rw [encodeParam_elementary (fixedBytes width) trivial,
      position_of_static rfl, advance_of_static rfl]
    exact drawn
  | bytes =>
    intro json regular buffer cursors
    rw [encodeParam_elementary bytes trivial]
    exact encodeDynamicBytes_draws bytes.paramType json buffer cursors
  | string =>
    intro json regular buffer cursors
    rw [encodeParam_elementary string trivial]
    exact encodeDynamicBytes_draws string.paramType json buffer cursors
  | array elem ih =>
    intro json regular buffer cursors
    cases json with
    | array elements =>
      exact encodeParam_array (t := (array elem).paramType) rfl
          elem.extractArrayType_array ih regular.1 regular.2 (.inl rfl) buffer cursors
    | _ => exact draws_nothing buffer cursors _ (array elem)
  | fixedArray elem length ih =>
    intro json regular buffer cursors
    cases json with
    | array elements => exact encodeParam_fixedArray length ih regular buffer cursors
    | _ =>
      rw [encodeParam_not_array (fixedArray_isArray elem length) (by simp)]
      exact draws_nothing buffer cursors _ (fixedArray elem length)

end ContractType

end AutomatonCore.Interop.Ethereum
