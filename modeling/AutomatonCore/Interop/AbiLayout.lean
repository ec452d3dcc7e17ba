import AutomatonCore.Interop.AbiImages

/-!
# What `encode` returns
-/

namespace AutomatonCore.Interop.Ethereum

open Io Library

namespace ContractType

variable {lib : IntegerLibrary}

def cellPart (type : ContractType) (cells : Cells) : Library.Part (Option UInt8) :=
  if type.isDynamic then .referenced cells else .inPlace cells

/-- The images of the parameters; superfluous values are not looked at. -/
def images (library : IntegerLibrary) : List ContractType → List Json → Result (List Cells)
  | type :: types, json :: params => do
    let cells ← type.image library json
    let rest ← images library types params
    return cells :: rest
  | _, _ => return []

/-- The space for the heads is computed from the types alone. -/
def headSpace (types : List ContractType) : Nat :=
  (types.map fun type => 32 * type.headWords).sum

/-- The images as heads and tails; heads that are too short leave cells empty
in front of the tails. -/
def layout (types : List ContractType) (contents : List Cells) : Cells :=
  let parts := List.zipWith cellPart types contents
  heads offsetCells (headSpace types) parts ++
    List.replicate (headSpace types - headsLength 32 parts) none ++ tails parts

variable {params : List Json} {contents : List Cells}

theorem images_cons {type : ContractType} {types : List ContractType}
    {json : Json} (drawn : images lib (type :: types) (json :: params) = .ok contents) :
    ∃ cells later, contents = cells :: later ∧ type.image lib json = .ok cells ∧
      images lib types params = .ok later := by
  obtain ⟨cells, first, rest⟩ := bind_eq_ok_iff.mp drawn
  obtain ⟨later, others, built⟩ := bind_eq_ok_iff.mp rest
  cases built
  exact ⟨cells, later, rfl, first, others⟩

def AllRegular (library : IntegerLibrary) (types : List ContractType) (params : List Json) : Prop :=
  List.Forall₂ (fun type json => type.Regular library json) types params

theorem headLength_cellPart_le {type : ContractType} {json : Json}
    (regular : type.Regular lib json) {cells : Cells} (drawn : type.image lib json = .ok cells) :
    (type.cellPart cells).headLength 32 ≤ 32 * type.headWords := by
  unfold cellPart
  split
  next dynamic =>
    simp [Part.headLength, headWords_of_dynamic dynamic]
  next static =>
    exact length_image_le (by simpa using static) regular drawn

theorem headsLength_le_headSpace {types : List ContractType} (regular : AllRegular lib types params)
    (drawn : images lib types params = .ok contents) :
    headsLength 32 (List.zipWith cellPart types contents) ≤ headSpace types := by
  induction regular generalizing contents with
  | nil =>
    cases drawn
    exact le_rfl
  | cons first others ih =>
    obtain ⟨cells, later, rfl, here, laterDrawn⟩ := images_cons drawn
    have firstBound := headLength_cellPart_le first here
    have laterBound := ih laterDrawn
    simp only [List.zipWith_cons_cons, headsLength, headSpace,
      List.map_cons, List.sum_cons] at laterBound ⊢
    omega

/-- The loop fills heads and tails at once. -/
theorem encodeLoop_draws {types : List ContractType}
    (regular : AllRegular lib types params) (head tail : Nat)
    (apart : head + headSpace types ≤ tail) (buf : Buffer) :
    Lockstep (fun contents outcome =>
        outcome.2 = tail + (tails (List.zipWith cellPart types contents)).length ∧
          outcome.1.view = fill
              (fill buf.view head (heads offsetCells tail (List.zipWith cellPart types contents)))
              tail (tails (List.zipWith cellPart types contents)))
      (images lib types params) (encodeLoop lib (types.map render) params buf head tail) := by
  induction regular generalizing head tail buf with
  | nil => exact .ok ⟨rfl, by simp [heads, tails]⟩
  | cons first others ih =>
    rename_i type json types params
    simp only [headSpace, List.map_cons, List.sum_cons] at apart
    simp only [List.map_cons, encodeLoop, getType_render, ok_bind, inTail_paramType, images]
    cases dynamic : type.isDynamic with
    | true =>
      have room : head + 32 ≤ (checkAndResizeBuffer buf tail 32).length := by
        have := length_checkAndResizeBuffer buf tail 32
        omega
      obtain ⟨stored, copied, storedView⟩ :=
        memcpy_writes (length_u64ToU256 (UInt64.ofNat tail)) room
      rw [view_checkAndResizeBuffer, overlay_eq_fill] at storedView
      have drawn := type.imaged first stored (.shared tail)
      rw [position_of_dynamic dynamic, advance_of_dynamic dynamic] at drawn
      rw [headWords_of_dynamic dynamic] at apart
      simp only [if_true, copied, ok_bind]
      refine drawn.bind fun cells outcome _ held => ?_
      obtain ⟨next, moved⟩ := outcome
      obtain ⟨rfl, view⟩ : moved = _ ∧ next.view = _ := held
      have shape : type.cellPart cells = .referenced cells := if_pos dynamic
      rw [bind_pure_comp]
      refine (ih (head + 32) (tail + cells.length) (by unfold headSpace; omega) next).map
        fun contents final rest held => ?_
      obtain ⟨tailRest, viewRest⟩ := held
      have bound := headsLength_le_headSpace others rest
      rw [List.zipWith_cons_cons, shape]
      refine ⟨?_, ?_⟩
      · rw [tailRest, tails, List.length_append, add_assoc]
      · have room : head + (offsetCells tail).length +
                (heads offsetCells (tail + cells.length)
                  (List.zipWith cellPart types contents)).length ≤ tail := by
          rw [length_offsetCells, length_heads length_offsetCells]
          unfold headSpace at bound
          omega
        rw [viewRest, view, storedView, ← length_offsetCells tail]
        exact fill_interleaved _ _ _ _ _ room
    | false =>
      have drawn := type.imaged first buf (.separate head tail)
      rw [position_of_static dynamic, advance_of_static dynamic] at drawn
      refine drawn.bind fun cells outcome image held => ?_
      obtain ⟨next, moved⟩ := outcome
      obtain ⟨rfl, view⟩ : moved = _ ∧ next.view = _ := held
      have bound := length_image_le dynamic first image
      have shape : type.cellPart cells = .inPlace cells := if_neg (by simp [dynamic])
      rw [bind_pure_comp]
      refine (ih (head + cells.length) tail (by unfold headSpace; omega) next).map
        fun contents final _ held => ?_
      rw [List.zipWith_cons_cons, shape]
      refine ⟨held.1, ?_⟩
      rw [held.2, view]
      exact congrArg (fill · tail _) (fill_append _ _ _ _)

theorem stringVector_render (types : List ContractType) :
    stringVector (.array (types.map fun type => .string type.render)) =
      some (types.map render) := by
  induction types with
  | nil => rfl
  | cons type types ih =>
    simp only [stringVector] at ih ⊢
    simp [ih]

theorem length_layout {types : List ContractType}
    (fits : headsLength 32 (List.zipWith cellPart types contents) ≤ headSpace types) :
    (layout types contents).length =
      headSpace types + (tails (List.zipWith cellPart types contents)).length := by
  simp only [layout, List.length_append, length_heads length_offsetCells, List.length_replicate]
  omega

end ContractType

/-- A buffer with an empty cell cannot be read as a whole. -/
def readCells (cells : Cells) : Result Bytes :=
  match cells.mapM id with
  | some bytes => return bytes
  | none => .error .invalidAccess

@[simp]
theorem readCells_map_some (bytes : Bytes) : readCells (bytes.map some) = .ok bytes := by
  rw [readCells, mapM_id_map_some]
  rfl

variable {cells : Cells} {bytes : Bytes}

theorem mapM_id_eq_none_iff : cells.mapM id = none ↔ none ∈ cells := by
  induction cells with
  | nil => simp
  | cons cell cells ih =>
    cases cell with
    | none => simp
    | some b =>
      cases later : cells.mapM id with
      | none => simpa [later] using ih.mp later
      | some bytes => simpa [later] using ih

theorem map_some_of_mapM_id (written : cells.mapM id = some bytes) : cells = bytes.map some := by
  induction cells generalizing bytes with
  | nil =>
    cases written
    rfl
  | cons cell cells ih =>
    cases cell with
    | none => simp at written
    | some b =>
      cases later : cells.mapM id with
      | none => simp [later] at written
      | some rest =>
        simp only [List.mapM_cons, id_eq, Option.pure_def,
          Option.bind_eq_bind, Option.bind_some, later, Option.some.injEq] at written
        subst written
        rw [List.map_cons, ← ih later]

theorem readCells_eq_ok :
    readCells cells = .ok bytes ↔ cells = bytes.map some := by
  constructor
  · intro read
    cases written : cells.mapM id with
    | none =>
      rw [readCells, written] at read
      cases read
    | some found =>
      rw [readCells, written] at read
      cases read
      exact map_some_of_mapM_id written
  · rintro rfl
    exact readCells_map_some bytes

theorem readBuffer_filled {buf : Buffer} (filled : buf.view = fill (fun _ => none) 0 cells) :
    readBuffer buf cells.length = readCells cells := by
  cases written : cells.mapM id with
  | some bytes =>
    obtain rfl := map_some_of_mapM_id written
    rw [← overlay_eq_fill] at filled
    rw [List.length_map, readBuffer_written filled, readCells_map_some]
  | none =>
    obtain ⟨i, inside, empty⟩ := List.mem_iff_getElem.mp (mapM_id_eq_none_iff.mp written)
    have hole : buf.getD i none = none := by
      have here := congrFun filled i
      rw [fill_empty, List.getElem?_eq_getElem inside, empty] at here
      exact here
    rw [readCells, written, readBuffer]
    split
    · have mem : none ∈ buf.take cells.length := by
        rw [List.getD_eq_getElem _ _ (by omega)] at hole
        rw [← hole]
        exact List.mem_take_iff_getElem.mpr ⟨i, by omega, rfl⟩
      rw [mapM_id_eq_none_iff.mpr mem]
    · rfl

/-- For every list of JSON values, `encode` reads the layout of their
images. -/
theorem encode_eq_layout {lib : IntegerLibrary}
    {parse : Bytes → Option Json} {signaturesJson parametersJson : Bytes}
    {types : List ContractType} {params : List Json}
    (signatures : parse signaturesJson = some (.array (types.map fun type => .string type.render)))
    (values : parse parametersJson = some (.array params))
    (regular : ContractType.AllRegular lib types params)
    (small : ContractType.headSpace types < 2 ^ 32) :
    encode lib parse signaturesJson parametersJson =
      ContractType.images lib types params >>= fun contents =>
        readCells (ContractType.layout types contents) := by
  have count : ¬ params.length ≠ (types.map fun type => Json.string type.render).length := by
    rw [List.length_map, regular.length_eq]
    exact not_not.mpr rfl
  have offset :
      calculateOffset (types.map ContractType.render) = .ok (ContractType.headSpace types) := by
    rw [ContractType.calculateOffset_render]
    exact congrArg _ (Nat.mod_eq_of_lt small)
  have loop :=
    ContractType.encodeLoop_draws regular 0 (ContractType.headSpace types)
      (by omega) (List.replicate bufferSize none)
  simp only [encode, signatures, values, if_neg count,
    ContractType.stringVector_render, offset, ok_bind]
  refine loop.bind_eq fun contents outcome drawn held => ?_
  obtain ⟨last, view⟩ := held
  have fits := ContractType.headsLength_le_headSpace regular drawn
  have filled : outcome.1.view = fill (fun _ => none) 0 (ContractType.layout types contents) := by
    have space : 0 +
            (heads offsetCells (ContractType.headSpace types)
                (List.zipWith ContractType.cellPart types contents) ++ List.replicate
                (ContractType.headSpace types -
                  headsLength 32 (List.zipWith ContractType.cellPart types contents))
                (none : Option UInt8)).length = ContractType.headSpace types := by
      rw [List.length_append, length_heads length_offsetCells, List.length_replicate]
      omega
    rw [view, view_fresh, ContractType.layout, ← fill_append, space, ← fill_append, fill_gaps]
  rw [last, ← ContractType.length_layout fits, readBuffer_filled filled]

end AutomatonCore.Interop.Ethereum
