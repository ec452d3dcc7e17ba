import AutomatonCore.Library.BigEndian

/-!
# Recursive length prefixes
-/

namespace AutomatonCore.Library.Rlp

open List

inductive Kind where
  | bytes
  | list
  deriving DecidableEq, Repr

def Kind.base : Kind → Nat
  | .bytes => 128
  | .list => 192

/-- A byte string or a list; a list is given by the encodings of its elements,
one after the other. -/
structure Item where
  kind : Kind
  payload : List UInt8
  deriving DecidableEq, Repr

def Item.isSingle : Item → Bool
  | ⟨.bytes, [byte]⟩ => byte.toNat < 128
  | _ => false

/-- Lengths below 56 are in the first byte, longer ones follow it, without
leading zeros. -/
def header (kind : Kind) (size : Nat) : List UInt8 :=
  if size < 56 then [UInt8.ofNat (kind.base + size)]
  else UInt8.ofNat (kind.base + 55 + (shortest size).length) :: shortest size

/-- A byte below 128 stands for itself. -/
def Item.encoding (item : Item) : List UInt8 :=
  if item.isSingle then item.payload
  else header item.kind item.payload.length ++ item.payload

variable {item : Item} {size count : Nat} {kind : Kind} {data rest : List UInt8}
  {items : List Item}

theorem exists_of_isSingle (single : item.isSingle = true) :
    ∃ b : UInt8, b.toNat < 128 ∧ item = ⟨.bytes, [b]⟩ := by
  unfold Item.isSingle at single
  split at single
  next b =>
    exact ⟨b, of_decide_eq_true single, rfl⟩
  · cases single

theorem isSingle_byte_iff (b : UInt8) : Item.isSingle ⟨.bytes, [b]⟩ = true ↔ b.toNat < 128 :=
  decide_eq_true_iff

theorem encoding_list (payload : List UInt8) :
    Item.encoding ⟨.list, payload⟩ = header .list payload.length ++ payload :=
  rfl

theorem header_injective (kind : Kind) : Function.Injective (header kind) := by
  intro first second same
  unfold header at same
  split at same <;> split at same
  · have codes := congrArg UInt8.toNat (singleton_inj.mp same)
    rw [UInt8.toNat_ofNat', UInt8.toNat_ofNat'] at codes
    cases kind <;> simp only [Kind.base] at codes <;> omega
  · have empty := (List.cons.inj same).2
    rw [eq_comm, shortest_eq_nil_iff] at empty
    omega
  · have empty := (List.cons.inj same).2
    rw [shortest_eq_nil_iff] at empty
    omega
  · have values := congrArg bigEndianValue (List.cons.inj same).2
    rwa [bigEndianValue_shortest, bigEndianValue_shortest] at values

/-! ## Reading -/

def readPayload (kind : Kind) (size : Nat) (data : List UInt8) : Option (Item × List UInt8) :=
  if size ≤ data.length then some (⟨kind, data.take size⟩, data.drop size)
  else none

def readShort (kind : Kind) (size : Nat) (data : List UInt8) : Option (Item × List UInt8) :=
  if Item.isSingle ⟨kind, data.take size⟩ then none
  else readPayload kind size data

/-- The length has `count` digits and could not be given in a shorter way. -/
def readLong (kind : Kind) (count : Nat) (data : List UInt8) : Option (Item × List UInt8) :=
  let digits := data.take count
  if digits.length = count ∧ digits.head? ≠ some 0 ∧ 56 ≤ bigEndianValue digits then
    readPayload kind (bigEndianValue digits) (data.drop count)
  else none

/-- Accepts the encoding of an item and nothing else. -/
def read : List UInt8 → Option (Item × List UInt8)
  | [] => none
  | first :: rest =>
    if first.toNat < 128 then some (⟨.bytes, [first]⟩, rest)
    else
      let kind : Kind := if first.toNat < 192 then .bytes else .list
      let size := first.toNat - kind.base
      if size < 56 then readShort kind size rest
      else readLong kind (size - 55) rest

def readItems : Nat → List UInt8 → Option (List Item)
  | _, [] => some []
  | 0, _ => none
  | fuel + 1, data =>
    match read data with
    | none => none
    | some (item, rest) => (readItems fuel rest).map (item :: ·)

def readAll (data : List UInt8) : Option (List Item) :=
  readItems data.length data

def encodings (items : List Item) : List UInt8 :=
  items.flatMap Item.encoding

/-! ## What is written is read -/

theorem length_header_pos (kind : Kind) (size : Nat) : 0 < (header kind size).length := by
  unfold header
  split <;> simp

theorem length_header_le (kind : Kind) (small : size < 256 ^ count) :
    (header kind size).length ≤ count + 1 := by
  unfold header
  split
  · exact Nat.le_add_left 1 count
  · exact Nat.succ_le_succ ((length_shortest_le_iff size count).mpr small)

theorem lt_length_header (kind : Kind) (long : 56 ≤ size) (large : 256 ^ count ≤ size) :
    count + 1 < (header kind size).length := by
  have digits := mt (length_shortest_le_iff size count).mp (by omega)
  rw [header, if_neg (by omega), length_cons]
  omega

theorem length_encoding_pos (item : Item) : 0 < item.encoding.length := by
  unfold Item.encoding
  split
  next single =>
    obtain ⟨b, _, rfl⟩ := exists_of_isSingle single
    exact Nat.one_pos
  · rw [length_append]
    have := length_header_pos item.kind item.payload.length
    omega

theorem length_payload_le (item : Item) : item.payload.length ≤ item.encoding.length := by
  unfold Item.encoding
  split
  · exact le_rfl
  · rw [length_append]
    exact Nat.le_add_left _ _

theorem readPayload_append (kind : Kind) (payload rest : List UInt8) :
    readPayload kind payload.length (payload ++ rest) = some (⟨kind, payload⟩, rest) := by
  simp [readPayload]

theorem length_shortest_le (small : size < 2 ^ 64) : (shortest size).length ≤ 8 :=
  (length_shortest_le_iff size 8).mpr (small.trans_eq (by norm_num))

theorem read_header (kind : Kind) (small : size < 64) (rest : List UInt8) :
    read (UInt8.ofNat (kind.base + size) :: rest) =
      if size < 56 then readShort kind size rest
      else readLong kind (size - 55) rest := by
  have v : (UInt8.ofNat (kind.base + size)).toNat = kind.base + size := by
    apply Nat.mod_eq_of_lt
    cases kind <;> simp only [Kind.base] <;> omega
  have large : ¬ kind.base + size < 128 := by cases kind <;> simp only [Kind.base] <;> omega
  have found : (if kind.base + size < 192 then Kind.bytes else Kind.list) = kind := by
    cases kind with
    | bytes => exact if_pos (show 128 + size < 192 by omega)
    | list => exact if_neg (show ¬ 192 + size < 192 by omega)
  simp only [read, v, if_neg large, found, Nat.add_sub_cancel_left]

theorem read_encoding (item : Item) (small : item.payload.length < 2 ^ 64) (rest : List UInt8) :
    read (item.encoding ++ rest) = some (item, rest) := by
  obtain ⟨kind, payload⟩ := item
  dsimp only at small
  unfold Item.encoding
  split
  next single =>
    obtain ⟨b, below, same⟩ := exists_of_isSingle single
    cases same
    rw [singleton_append, read, if_pos below]
  next notSingle =>
    rw [append_assoc]
    dsimp only
    unfold header
    split
    next short =>
      rw [singleton_append, read_header kind (by omega), if_pos short,
        readShort, take_left, if_neg notSingle, readPayload_append]
    · have digits := length_shortest_le small
      have some : 0 < (shortest payload.length).length := by
        rw [length_pos_iff, ne_eq, shortest_eq_nil_iff]
        omega
      rw [cons_append, add_assoc, read_header kind (by omega),
        if_neg (by omega), Nat.add_sub_cancel_left, readLong]
      simp only [take_left, drop_left, bigEndianValue_shortest, readPayload_append]
      rw [if_pos ⟨trivial, head_shortest _, by omega⟩]

/-! ## What is read was written -/

theorem payload_of_read (found : readPayload kind size data = some (item, rest)) :
    item.kind = kind ∧ item.payload.length = size ∧ data = item.payload ++ rest := by
  unfold readPayload at found
  split at found
  · cases found
    exact ⟨rfl, by simpa, (take_append_drop size data).symm⟩
  · cases found

theorem shape_of_readShort (small : size < 56)
    (found : readShort kind size data = some (item, rest)) :
    UInt8.ofNat (kind.base + size) :: data = item.encoding ++ rest ∧
      item.payload.length < 2 ^ 64 := by
  unfold readShort at found
  split at found
  · cases found
  next notSingle =>
    obtain ⟨rfl, rfl, rfl⟩ := payload_of_read found
    rw [take_left] at notSingle
    refine ⟨?_, by omega⟩
    rw [Item.encoding, if_neg notSingle, header, if_pos small]
    rfl

theorem shape_of_readLong (few : count ≤ 8) (found : readLong kind count data = some (item, rest)) :
    UInt8.ofNat (kind.base + 55 + count) :: data = item.encoding ++ rest ∧
      item.payload.length < 2 ^ 64 := by
  simp only [readLong] at found
  split at found
  next digits =>
    obtain ⟨length, noZero, long⟩ := digits
    obtain ⟨rfl, size, whole⟩ := payload_of_read found
    have v := shortest_bigEndianValue noZero
    have bound := bigEndianValue_lt (data.take count)
    rw [← size] at v long bound
    have notSingle : ¬ item.isSingle = true := by
      intro single
      obtain ⟨b, _, rfl⟩ := exists_of_isSingle single
      simp at long
    refine ⟨?_, ?_⟩
    · rw [Item.encoding, if_neg notSingle, header, if_neg (by omega), v,
        length, cons_append, cons_append, append_assoc, ← whole, take_append_drop]
    · calc
        item.payload.length < 256 ^ (data.take count).length := bound
        _ ≤ 256 ^ 8 := Nat.pow_le_pow_right (by decide) (by omega)
        _ = 2 ^ 64 := by norm_num
  · cases found

theorem encoding_of_read (found : read data = some (item, rest)) :
    data = item.encoding ++ rest ∧ item.payload.length < 2 ^ 64 := by
  cases data with
  | nil => cases found
  | cons first data =>
    have bound := first.toNat_lt
    by_cases small : first.toNat < 128
    · rw [read, if_pos small] at found
      cases found
      refine ⟨?_, by norm_num⟩
      rw [Item.encoding, if_pos ((isSingle_byte_iff _).mpr small)]
      rfl
    · obtain ⟨kind, size, few, same⟩ :
          ∃ (kind : Kind) (size : Nat), size < 64 ∧ kind.base + size = first.toNat := by
        by_cases kind : first.toNat < 192
        · exact ⟨.bytes, first.toNat - 128, by omega,
            show 128 + _ = _ by omega⟩
        · exact ⟨.list, first.toNat - 192, by omega,
            show 192 + _ = _ by omega⟩
      have code : first = UInt8.ofNat (kind.base + size) := by rw [same, UInt8.ofNat_toNat]
      rw [code, read_header kind few] at found
      rw [code]
      split at found
      next short =>
        exact shape_of_readShort short found
      · have shape := shape_of_readLong (by omega) found
        rwa [show kind.base + 55 + (size - 55) = kind.base + size by
          omega] at shape

theorem read_eq_some_iff :
    read data = some (item, rest) ↔
      data = item.encoding ++ rest ∧ item.payload.length < 2 ^ 64 := by
  constructor
  · exact encoding_of_read
  · rintro ⟨rfl, small⟩
    exact read_encoding item small rest

/-! ## Sequences of items -/

theorem encodings_cons (item : Item) (items : List Item) :
    encodings (item :: items) = item.encoding ++ encodings items :=
  flatMap_cons

theorem length_le_encodings (items : List Item) : items.length ≤ (encodings items).length := by
  induction items with
  | nil => exact Nat.le_refl 0
  | cons item items ih =>
    have pos := length_encoding_pos item
    rw [encodings_cons, length_append, length_cons]
    omega

theorem length_payload_le_encodings (mem : item ∈ items) :
    item.payload.length ≤ (encodings items).length := by
  have sublist := sublist_flatten_of_mem (mem_map_of_mem (f := Item.encoding) mem)
  exact (length_payload_le item).trans sublist.length_le

theorem readItems_encodings (small : ∀ item ∈ items, item.payload.length < 2 ^ 64) {fuel : Nat}
    (enough : (encodings items).length ≤ fuel) : readItems fuel (encodings items) = some items := by
  induction items generalizing fuel with
  | nil => cases fuel <;> rfl
  | cons item items ih =>
    rw [forall_mem_cons] at small
    rw [encodings_cons, length_append] at enough
    have pos := length_encoding_pos item
    cases fuel with
    | zero => omega
    | succ fuel =>
      have later : readItems fuel (encodings items) = some items := ih small.2 (by omega)
      have first := read_encoding item small.1 (encodings items)
      rw [encodings_cons]
      cases whole : item.encoding ++ encodings items with
      | nil => simp_all
      | cons b rest =>
        rw [whole] at first
        simp only [readItems, first, later, Option.map_some]

theorem encodings_of_readItems {fuel : Nat} (found : readItems fuel data = some items) :
    data = encodings items ∧ ∀ item ∈ items, item.payload.length < 2 ^ 64 := by
  induction fuel generalizing data items with
  | zero =>
    cases data with
    | nil =>
      cases found
      exact ⟨rfl, by simp⟩
    | cons b data => cases found
  | succ fuel ih =>
    cases data with
    | nil =>
      cases found
      exact ⟨rfl, by simp⟩
    | cons b data =>
      rw [readItems] at found
      split at found
      · cases found
      next item rest first =>
        obtain ⟨later, others, rfl⟩ := Option.map_eq_some_iff.mp found
        obtain ⟨whole, small⟩ := encoding_of_read first
        obtain ⟨rfl, smaller⟩ := ih others
        exact ⟨by rw [whole, encodings_cons], forall_mem_cons.mpr ⟨small, smaller⟩⟩
      · simp

theorem readAll_eq_some_iff :
    readAll data = some items ↔ data = encodings items ∧
      ∀ item ∈ items, item.payload.length < 2 ^ 64 := by
  constructor
  · exact encodings_of_readItems
  · rintro ⟨rfl, small⟩
    exact readItems_encodings small (le_rfl)

theorem encodings_injective {first second : List Item}
    (firstSmall : ∀ item ∈ first, item.payload.length < 2 ^ 64)
    (secondSmall : ∀ item ∈ second, item.payload.length < 2 ^ 64)
    (same : encodings first = encodings second) : first = second := by
  have left := readAll_eq_some_iff.mpr ⟨rfl, firstSmall⟩
  have right := readAll_eq_some_iff.mpr ⟨rfl, secondSmall⟩
  rw [same, right] at left
  exact (Option.some.inj left).symm

/-! ## Other headers -/

inductive Denotes : Item → List UInt8 → Prop where
  | single (byte : UInt8) (small : byte.toNat < 128) : Denotes ⟨.bytes, [byte]⟩ [byte]
  | short (item : Item) (small : item.payload.length < 56) :
      Denotes item (UInt8.ofNat (item.kind.base + item.payload.length) :: item.payload)
  | long (item : Item) (digits : List UInt8) (some : 0 < digits.length) (few : digits.length ≤ 8)
      (value : bigEndianValue digits = item.payload.length) :
      Denotes item (UInt8.ofNat (item.kind.base + 55 + digits.length) :: (digits ++ item.payload))

theorem length_encoding_le (denotes : Denotes item data) : item.encoding.length ≤ data.length := by
  cases denotes with
  | single b small => rw [Item.encoding, if_pos ((isSingle_byte_iff _).mpr small)]
  | short item small =>
    unfold Item.encoding
    split
    · exact Nat.le_add_right _ 1
    · rw [header, if_pos small]
      rfl
  | long item digits some few v =>
    unfold Item.encoding
    split
    · simp only [length_cons, length_append]
      omega
    · unfold header
      split
      · simp only [singleton_append, length_cons, length_append]
        omega
      · have bound := bigEndianValue_lt digits
        rw [v, ← length_shortest_le_iff] at bound
        simp only [length_cons, length_append]
        omega

end AutomatonCore.Library.Rlp
