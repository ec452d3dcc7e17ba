import AutomatonCore.Interop.RlpEncoding

/-!
# Ethereum transactions

`eth_transaction::sign_tx`.  The hash function and the signature are those of
other libraries and appear as parameters.
-/

namespace AutomatonCore.Interop.Ethereum

open Io Library List

structure EthTransaction where
  nonce : Bytes
  gasPrice : Bytes
  gasLimit : Bytes
  /-- The field `to` of the source. -/
  toAddress : Bytes
  value : Bytes
  data : Bytes
  chainId : Bytes
  deriving DecidableEq, Repr

namespace EthTransaction

def fields (tx : EthTransaction) : List Bytes :=
  [tx.nonce, tx.gasPrice, tx.gasLimit, tx.toAddress, tx.value, tx.data]

def toRlpEncodedTx (tx : EthTransaction) : Option Bytes :=
  (tx.fields.mapM (rlpEncode · false)).map List.flatten

def byteArray (tx : EthTransaction) : Option Bytes := do
  let rlpTx ← tx.toRlpEncodedTx
  let chainId ← rlpEncode tx.chainId false
  let extendedSignTx ← rlpEncode (rlpTx ++ chainId ++ text "8080") true
  hex2bin extendedSignTx

/-- The number that stands for the chain and the parity of the signature. -/
def newV (tx : EthTransaction) (rsv : Bytes) : Option UInt32 := do
  let last ← rsv[64]?
  let v := last.toInt8.toInt - 27
  let chainId ← hex2dec tx.chainId
  return chainId * 2 + (if v.tmod 2 ≠ 0 then 36 else 35)

/-- `none` where the source throws or reads a value that was not set. -/
def signTx (hash : Bytes → Bytes) (sign : Bytes → Bytes → Bytes)
    (tx : EthTransaction) (privateKeyHex : Bytes) : Option Bytes := do
  let rlpTx ← tx.toRlpEncodedTx
  let byteArray ← tx.byteArray
  let hashedTx := hash byteArray
  let prKey ← hex2bin privateKeyHex
  let rsv := sign prKey hashedTx
  let newV ← tx.newV rsv
  let encodedV ← rlpEncode (dec2hex newV) false
  rlpEncode (rlpTx ++ encodedV ++ text "a0" ++ bin2hex (rsv.take 32) ++
      text "a0" ++ bin2hex ((rsv.drop 32).take 32)) true

structure Spells (tx contents : EthTransaction) : Prop where
  fields : List.Forall₂ HexSpells tx.fields contents.fields
  chainId : HexSpells tx.chainId contents.chainId

end EthTransaction

/-- A decoder finds a list of the given items and nothing else. -/
def DecodesTo (bytes : Bytes) (items : List Rlp.Item) : Prop :=
  ∃ payload, Rlp.read bytes = some (⟨.list, payload⟩, []) ∧ Rlp.readAll payload = some items

def byteItems (contents : List Bytes) : List Rlp.Item :=
  contents.map (⟨.bytes, ·⟩)

variable {items : List Rlp.Item} {tx contents : EthTransaction}

theorem decodesTo_iff {bytes : Bytes} :
    DecodesTo bytes items ↔ bytes = Rlp.Item.encoding ⟨.list, Rlp.encodings items⟩ ∧
      (Rlp.encodings items).length < 2 ^ 64 ∧ ∀ item ∈ items, item.payload.length < 2 ^ 64 := by
  simp only [DecodesTo, Rlp.read_eq_some_iff, Rlp.readAll_eq_some_iff, append_nil]
  constructor
  · rintro ⟨_, ⟨rfl, small⟩, rfl, smaller⟩
    exact ⟨rfl, small, smaller⟩
  · rintro ⟨rfl, small, smaller⟩
    exact ⟨_, ⟨rfl, small⟩, rfl, smaller⟩

/-! ## The bytes that are hashed -/

theorem hexSpells_fields {fields contents : List Bytes}
    (spells : List.Forall₂ HexSpells fields contents) :
    ∃ outputs, fields.mapM (rlpEncode · false) = some outputs ∧
      HexSpells outputs.flatten (contents.flatMap (written false)) := by
  induction spells with
  | nil => exact ⟨[], rfl, rfl⟩
  | cons first _ ih =>
    obtain ⟨output, encoded, outputSpells⟩ := rlpEncode_spells first false
    obtain ⟨outputs, others, othersSpell⟩ := ih
    refine ⟨output :: outputs, ?_, outputSpells.append othersSpell⟩
    simp [encoded, others]

theorem toRlpEncodedTx_spells (spells : tx.Spells contents) :
    ∃ output, tx.toRlpEncodedTx = some output ∧
      HexSpells output (contents.fields.flatMap (written false)) := by
  obtain ⟨outputs, encoded, outputSpells⟩ := hexSpells_fields spells.fields
  exact ⟨_, by rw [EthTransaction.toRlpEncodedTx, encoded]; rfl, outputSpells⟩

def EthTransaction.hashedFields (contents : EthTransaction) : List Bytes :=
  contents.fields ++ [contents.chainId, [], []]

theorem byteArray_eq (spells : tx.Spells contents) :
    tx.byteArray = some (written true (contents.hashedFields.flatMap (written false))) := by
  obtain ⟨rlpTx, encoded, rlpSpells⟩ := toRlpEncodedTx_spells spells
  obtain ⟨chainId, chainEncoded, chainSpells⟩ := rlpEncode_spells spells.chainId false
  have empties : HexSpells (text "8080") (written false [] ++ written false []) :=
    hexSpells_empty.append hexSpells_empty
  have body : HexSpells (rlpTx ++ chainId ++ text "8080")
        (contents.hashedFields.flatMap (written false)) := by
    have whole := (rlpSpells.append chainSpells).append empties
    rw [EthTransaction.hashedFields, flatMap_append]
    simpa only [flatMap_cons, flatMap_nil, append_assoc, append_nil] using whole
  obtain ⟨output, list, outputSpells⟩ := rlpEncode_spells body true
  simp only [EthTransaction.byteArray, encoded, chainEncoded, list,
    Option.bind_eq_bind, Option.bind_some, hex2bin_of_spells outputSpells]

theorem content_of_written {content payload : Bytes} (small : payload.length < 2 ^ 64)
    (same : written true content = Rlp.Item.encoding ⟨.list, payload⟩) :
    content = payload ∧ content.length < 2 ^ 31 := by
  have reads := Rlp.read_encoding ⟨.list, payload⟩ small []
  rw [append_nil, ← same] at reads
  simp only [written] at reads
  split at reads
  · cases reads
  next ne =>
    split at reads
    next single =>
      obtain ⟨first, rest, rfl⟩ : ∃ first rest, content = first :: rest := by
        apply exists_cons_of_ne_nil
        rintro rfl
        exact ne rfl
      rw [headD_cons] at single
      rw [Rlp.read, if_pos single.2] at reads
      cases reads
    · -- the decoder takes as many bytes as the header says
      have fits := Nat.mod_le content.length (2 ^ 31)
      have cut : Rlp.header .list (content.length % 2 ^ 31) ++ content =
            Rlp.Item.encoding ⟨.list, content.take (content.length % 2 ^ 31)⟩ ++
              content.drop (content.length % 2 ^ 31) := by
        rw [Rlp.encoding_list, length_take, min_eq_left fits, append_assoc, take_append_drop]
      have small : (content.take (content.length % 2 ^ 31)).length < 2 ^ 64 := by
        rw [length_take]
        omega
      rw [kindOf, if_pos rfl, cut, Rlp.read_encoding _ small] at reads
      simp only [Option.some.injEq, Prod.mk.injEq, Rlp.Item.mk.injEq,
        true_and, drop_eq_nil_iff] at reads
      rw [take_of_length_le reads.2] at reads
      exact ⟨reads.1, by omega⟩

theorem flatMap_written {contents : List Bytes}
    (small : ∀ content ∈ contents, content.length < 2 ^ 31) :
    contents.flatMap (written false) = Rlp.encodings (byteItems contents) := by
  rw [Rlp.encodings, byteItems, flatMap_map]
  apply flatMap_congr
  intro content mem
  exact written_of_small (small content mem) (by simp)

theorem written_encodings (several : 2 ≤ items.length)
    (small : (Rlp.encodings items).length < 2 ^ 31) :
    written true (Rlp.encodings items) = Rlp.Item.encoding ⟨.list, Rlp.encodings items⟩ := by
  have long := several.trans (Rlp.length_le_encodings items)
  apply written_of_small small
  intro _
  constructor
  · exact ne_nil_of_length_pos (by omega)
  · intro single
    obtain ⟨b, _, item⟩ := Rlp.exists_of_isSingle single
    have length := congrArg (fun item => item.payload.length) item
    dsimp only [length_singleton] at length
    omega

theorem decodesTo_encodings (several : 2 ≤ items.length)
    (small : (Rlp.encodings items).length < 2 ^ 31) :
    DecodesTo (written true (Rlp.encodings items)) items := by
  have large : (2 : Nat) ^ 31 < 2 ^ 64 := by norm_num
  refine decodesTo_iff.mpr ⟨written_encodings several small, small.trans large, ?_⟩
  intro item mem
  exact ((Rlp.length_payload_le_encodings mem).trans_lt small).trans large

theorem content_of_decodesTo {content : Bytes} (decodes : DecodesTo (written true content) items) :
    content = Rlp.encodings items ∧ (Rlp.encodings items).length < 2 ^ 31 ∧
      ∀ item ∈ items, item.payload.length < 2 ^ 64 := by
  obtain ⟨same, small, smaller⟩ := decodesTo_iff.mp decodes
  obtain ⟨rfl, length⟩ := content_of_written small same
  exact ⟨rfl, length, smaller⟩

def EthTransaction.hashedItems (contents : EthTransaction) : List Rlp.Item :=
  byteItems contents.hashedFields

theorem flatMap_hashedFields (small : (Rlp.encodings contents.hashedItems).length < 2 ^ 31) :
    contents.hashedFields.flatMap (written false) = Rlp.encodings contents.hashedItems := by
  apply flatMap_written
  intro content mem
  exact (Rlp.length_payload_le_encodings (mem_map_of_mem mem)).trans_lt small

theorem byteArray_decodes (spells : tx.Spells contents)
    (small : (Rlp.encodings contents.hashedItems).length < 2 ^ 31) :
    ∃ bytes, tx.byteArray = some bytes ∧ DecodesTo bytes contents.hashedItems := by
  refine ⟨_, byteArray_eq spells, ?_⟩
  rw [flatMap_hashedFields small]
  exact decodesTo_encodings (show 2 ≤ 9 by decide) small

theorem eq_of_hashedItems {first second : EthTransaction}
    (same : first.hashedItems = second.hashedItems) : first = second := by
  cases first
  cases second
  simp_all [EthTransaction.hashedItems, EthTransaction.hashedFields,
    EthTransaction.fields, byteItems]

/-- The hashed bytes are read as the nine items if and only if the list has
less than `2 ^ 31` bytes, and then no other transaction of which that is true
has the same bytes. -/
theorem byteArray_decodes_iff {tx contents : EthTransaction} (spells : tx.Spells contents) :
    ((∃ bytes, tx.byteArray = some bytes ∧ DecodesTo bytes contents.hashedItems) ↔
      (Rlp.encodings contents.hashedItems).length < 2 ^ 31) ∧
    ((Rlp.encodings contents.hashedItems).length < 2 ^ 31 →
      ∀ {other otherContents : EthTransaction}, other.Spells otherContents →
      (Rlp.encodings otherContents.hashedItems).length < 2 ^ 31 → tx.byteArray = other.byteArray →
      contents = otherContents) := by
  constructor
  · constructor
    · intro decodes
      obtain ⟨bytes, hashed, decodes⟩ := decodes
      rw [byteArray_eq spells] at hashed
      cases hashed
      exact (content_of_decodesTo decodes).2.1
    · exact byteArray_decodes spells
  · intro small other otherContents otherSpells otherSmall same
    obtain ⟨bytes, hashed, decodes⟩ := byteArray_decodes spells small
    obtain ⟨otherBytes, otherHashed, otherDecodes⟩ := byteArray_decodes otherSpells otherSmall
    rw [same, otherHashed] at hashed
    cases hashed
    obtain ⟨payload, reads, items⟩ := decodes
    obtain ⟨otherPayload, otherReads, otherItems⟩ := otherDecodes
    rw [reads] at otherReads
    cases otherReads
    rw [items] at otherItems
    exact eq_of_hashedItems (Option.some.inj otherItems)

theorem byteArray_decodes_transfer :
    (Rlp.encodings (EthTransaction.hashedItems
        ⟨[9], [4], [82, 8], [], [10], [202, 254], [1]⟩)).length < 2 ^ 31 ∧
      ∃ bytes, EthTransaction.byteArray ⟨text "09", text "04", text "5208", text "", text "0A",
              text "cafe", text "01"⟩ = some bytes ∧
          DecodesTo bytes (EthTransaction.hashedItems
            ⟨[9], [4], [82, 8], [], [10], [202, 254], [1]⟩) := by
  have small : (Rlp.encodings (EthTransaction.hashedItems
        ⟨[9], [4], [82, 8], [], [10], [202, 254], [1]⟩)).length < 2 ^ 31 := by
    decide +kernel
  refine ⟨small, (byteArray_decodes_iff ⟨?_, ?_⟩).1.mpr small⟩
  · simp only [EthTransaction.fields, forall₂_cons, HexSpells, forall₂_nil_right_iff, and_true]
    decide +kernel
  · unfold HexSpells
    decide +kernel

theorem hexSpells_zeros (count : Nat) :
    HexSpells (List.replicate (2 * count) 48) (List.replicate count 0) := by
  induction count with
  | zero => rfl
  | succ count ih =>
    have digits : HexSpells [48, 48] [0] := by
      unfold HexSpells
      decide +kernel
    exact digits.append ih

theorem byteArray_long_data :
    EthTransaction.Spells ⟨[], [], [], [], [], List.replicate (2 * 2 ^ 31) 48, []⟩
        ⟨[], [], [], [], [], List.replicate (2 ^ 31) 0, []⟩ ∧
      EthTransaction.byteArray ⟨[], [], [], [], [], List.replicate (2 * 2 ^ 31) 48, []⟩ =
        EthTransaction.byteArray ⟨[], [], [], [], [], [], []⟩ ∧
      ¬ ∃ bytes, EthTransaction.byteArray
            ⟨[], [], [], [], [], List.replicate (2 * 2 ^ 31) 48, []⟩ = some bytes ∧
          DecodesTo bytes (EthTransaction.hashedItems
            ⟨[], [], [], [], [], List.replicate (2 ^ 31) 0, []⟩) := by
  have zeros := hexSpells_zeros (2 ^ 31)
  have length : (List.replicate (2 ^ 31) (0 : UInt8)).length = 2 ^ 31 := length_replicate
  generalize List.replicate (2 ^ 31) (0 : UInt8) = data at zeros length ⊢
  generalize List.replicate (2 * 2 ^ 31) (48 : UInt8) = digits at zeros ⊢
  have nothing : HexSpells [] [] := rfl
  have spells :
      EthTransaction.Spells ⟨[], [], [], [], [], digits, []⟩ ⟨[], [], [], [], [], data, []⟩ :=
    ⟨.cons nothing (.cons nothing (.cons nothing (.cons nothing
      (.cons nothing (.cons zeros .nil))))), nothing⟩
  refine ⟨spells, ?_, ?_⟩
  · have empty : EthTransaction.Spells ⟨[], [], [], [], [], [], []⟩ ⟨[], [], [], [], [], [], []⟩ :=
      ⟨.cons nothing (.cons nothing (.cons nothing (.cons nothing
        (.cons nothing (.cons nothing .nil))))), nothing⟩
    have dropped : written false data = written false [] := by
      unfold written
      rw [length]
      rfl
    rw [byteArray_eq spells, byteArray_eq empty]
    simp only [EthTransaction.hashedFields, EthTransaction.fields,
      flatMap_append, flatMap_cons, dropped]
  · rintro ⟨bytes, hashed, decodes⟩
    rw [byteArray_eq spells] at hashed
    cases hashed
    have small := (content_of_decodesTo decodes).2.1
    have mem :
        (⟨.bytes, data⟩ : Rlp.Item) ∈ EthTransaction.hashedItems ⟨[], [], [], [], [], data, []⟩ :=
      mem_map_of_mem (by simp [EthTransaction.hashedFields, EthTransaction.fields])
    have long := Rlp.length_payload_le_encodings mem
    dsimp only at long
    omega

end AutomatonCore.Interop.Ethereum
