import AutomatonCore.Interop.Transaction

/-!
# Signed transactions

The list that `sign_tx` returns, compared with the canonical one.
-/

namespace AutomatonCore.Interop.Ethereum

open Io Library List

/-- What `secp256k1_sign` returns: two numbers of 32 bytes that are not zero,
and which of the points has them. -/
structure RecoverableSignature where
  r : Bytes
  s : Bytes
  recid : Nat
  length_r : r.length = 32
  length_s : s.length = 32
  nonzero_r : bigEndianValue r ≠ 0
  nonzero_s : bigEndianValue s ≠ 0
  recid_lt : recid < 4

namespace RecoverableSignature

def rsv (sig : RecoverableSignature) : Bytes :=
  sig.r ++ sig.s ++ [UInt8.ofNat (sig.recid + 27)]

def parity (sig : RecoverableSignature) : Nat :=
  sig.recid % 2

end RecoverableSignature

/-- The numbers of a transaction. -/
structure Quantities where
  nonce : UInt32
  gasPrice : UInt32
  gasLimit : UInt32
  toAddress : Bytes
  value : UInt32
  data : Bytes
  chainId : Bytes

namespace Quantities

structure GivenBy (quantities : Quantities) (tx : EthTransaction) : Prop where
  nonce : tx.nonce = dec2hex quantities.nonce
  gasPrice : tx.gasPrice = dec2hex quantities.gasPrice
  gasLimit : tx.gasLimit = dec2hex quantities.gasLimit
  toAddress : HexSpells tx.toAddress quantities.toAddress
  value : tx.value = dec2hex quantities.value
  data : HexSpells tx.data quantities.data
  chainId : HexSpells tx.chainId quantities.chainId

/-- The bytes that the fields spell; the number zero is a byte. -/
def contents (quantities : Quantities) : EthTransaction where
  nonce := numberBytes quantities.nonce
  gasPrice := numberBytes quantities.gasPrice
  gasLimit := numberBytes quantities.gasLimit
  toAddress := quantities.toAddress
  value := numberBytes quantities.value
  data := quantities.data
  chainId := quantities.chainId

def signedV (quantities : Quantities) (sig : RecoverableSignature) : Nat :=
  2 * bigEndianValue quantities.chainId + 35 + sig.parity

/-- The canonical list: no number has leading zeros, and the number zero is
empty. -/
def signedItems (quantities : Quantities) (sig : RecoverableSignature) : List Rlp.Item :=
  byteItems [shortest quantities.nonce.toNat, shortest quantities.gasPrice.toNat,
      shortest quantities.gasLimit.toNat, quantities.toAddress,
      shortest quantities.value.toNat, quantities.data, shortest (quantities.signedV sig),
      shortest (bigEndianValue sig.r), shortest (bigEndianValue sig.s)]

/-- When `sign_tx` gives the canonical list. -/
structure Regular (quantities : Quantities) (sig : RecoverableSignature) : Prop where
  nonce : quantities.nonce ≠ 0
  gasPrice : quantities.gasPrice ≠ 0
  gasLimit : quantities.gasLimit ≠ 0
  value : quantities.value ≠ 0
  chainId : quantities.chainId ≠ []
  signedV : quantities.signedV sig < 2 ^ 32
  r : sig.r.head? ≠ some 0
  s : sig.s.head? ≠ some 0
  small : (Rlp.encodings (quantities.signedItems sig)).length < 2 ^ 31

end Quantities

theorem Quantities.GivenBy.spells {quantities : Quantities}
    {tx : EthTransaction} (given : quantities.GivenBy tx) : tx.Spells quantities.contents := by
  obtain ⟨nonce, gasPrice, gasLimit, toAddress, v, data, chainId⟩ := given
  refine ⟨?_, chainId⟩
  simp only [EthTransaction.fields, Quantities.contents, forall₂_cons,
    nonce, gasPrice, gasLimit, v, hexSpells_numberBytes, toAddress, data,
    List.Forall₂.nil, and_true]

/-! ## The number for the chain -/

theorem newV_eq {quantities : Quantities} {tx : EthTransaction}
    (chainId : HexSpells tx.chainId quantities.chainId)
    (ne : quantities.chainId ≠ []) (sig : RecoverableSignature) :
    ∃ newV, tx.newV sig.rsv = some newV ∧ newV.toNat =
        (2 * min (bigEndianValue quantities.chainId) (2 ^ 32 - 1) + 35 +
          sig.parity) % 2 ^ 32 := by
  have last : sig.rsv[64]? = some (UInt8.ofNat (sig.recid + 27)) := by
    have before : (sig.r ++ sig.s).length = 64 := by
      rw [length_append, sig.length_r, sig.length_s]
    rw [RecoverableSignature.rsv, ← before, getElem?_concat_length]
  have odd :
      ∀ recid < 4, ((UInt8.ofNat (recid + 27)).toInt8.toInt - 27).tmod 2 ≠ 0 ↔ recid % 2 = 1 := by
    decide
  have parity := odd _ sig.recid_lt
  refine ⟨_, by
    rw [EthTransaction.newV, last, Option.bind_eq_bind, Option.bind_some,
      hex2dec_of_spells chainId ne]
    rfl, ?_⟩
  rw [UInt32.toNat_add, UInt32.toNat_mul, UInt32.toNat_ofNat', RecoverableSignature.parity]
  split
  next isOdd =>
    simp only [UInt32.reduceToNat]
    omega
  next isEven =>
    simp only [UInt32.reduceToNat]
    omega

theorem newV_correct_iff {chain parity newV : Nat}
    (sum : newV = (2 * min chain (2 ^ 32 - 1) + 35 + parity) % 2 ^ 32) :
    newV = 2 * chain + 35 + parity ↔ 2 * chain + 35 + parity < 2 ^ 32 := by
  omega

theorem newV_none {tx : EthTransaction} (chainId : HexSpells tx.chainId [])
    (rsv : Bytes) : tx.newV rsv = none := by
  have empty : tx.chainId = [] := length_eq_zero_iff.mp chainId.length_eq
  rw [EthTransaction.newV, empty]
  cases rsv[64]? <;> rfl

/-! ## The result -/

theorem written_half {half : Bytes} (length : half.length = 32) :
    written false half = 160 :: half := by
  unfold written
  rw [length]
  rfl

theorem signTx_spells {hash : Bytes → Bytes} {sign : Bytes → Bytes → Bytes}
    {tx contents : EthTransaction} (spells : tx.Spells contents)
    {privateKeyHex prKey byteArray : Bytes} (k : hex2bin privateKeyHex = some prKey)
    (hashed : tx.byteArray = some byteArray)
    {sig : RecoverableSignature} (signed : sign prKey (hash byteArray) = sig.rsv)
    {newV : UInt32} (found : tx.newV sig.rsv = some newV) :
    ∃ output, tx.signTx hash sign privateKeyHex = some output ∧ HexSpells output (written true
          ((contents.fields ++
            [numberBytes newV, sig.r, sig.s]).flatMap (written false))) := by
  obtain ⟨rlpTx, encoded, rlpSpells⟩ := toRlpEncodedTx_spells spells
  obtain ⟨encodedV, encodedV_eq, vSpells⟩ := rlpEncode_spells (hexSpells_numberBytes newV) false
  have mark : HexSpells (text "a0") [160] := by
    unfold HexSpells
    decide +kernel
  have first : sig.rsv.take 32 = sig.r := by
    rw [RecoverableSignature.rsv, append_assoc, take_left' sig.length_r]
  have second : (sig.rsv.drop 32).take 32 = sig.s := by
    rw [RecoverableSignature.rsv, append_assoc,
      drop_left' sig.length_r, take_left' sig.length_s]
  have body : HexSpells
        (rlpTx ++ encodedV ++ text "a0" ++ bin2hex sig.r ++ text "a0" ++ bin2hex sig.s)
        ((contents.fields ++
            [numberBytes newV, sig.r, sig.s]).flatMap (written false)) := by
    have whole :=
      ((((rlpSpells.append vSpells).append mark).append
        (hexSpells_bin2hex sig.r)).append mark).append (hexSpells_bin2hex sig.s)
    simpa only [flatMap_append, flatMap_cons, flatMap_nil,
      written_half sig.length_r, written_half sig.length_s,
      append_assoc, append_nil, cons_append, nil_append] using whole
  obtain ⟨output, list, outputSpells⟩ := rlpEncode_spells body true
  refine ⟨output, ?_, outputSpells⟩
  simp only [EthTransaction.signTx, encoded, hashed, k, signed, found,
    encodedV_eq, first, second, list, Option.bind_eq_bind, Option.bind_some]

theorem eq_shortest_iff (bytes : Bytes) :
    bytes = shortest (bigEndianValue bytes) ↔ bytes.head? ≠ some 0 := by
  constructor
  · intro same
    rw [same]
    exact head_shortest _
  · intro noZero
    exact (shortest_bigEndianValue noZero).symm

theorem signedItems_eq_iff (quantities : Quantities)
    (sig : RecoverableSignature) (newV : UInt32) :
    byteItems (quantities.contents.fields ++ [numberBytes newV, sig.r, sig.s]) =
        quantities.signedItems sig ↔
      (quantities.nonce ≠ 0 ∧ quantities.gasPrice ≠ 0 ∧
        quantities.gasLimit ≠ 0 ∧ quantities.value ≠ 0) ∧
      newV.toNat = quantities.signedV sig ∧
      sig.r.head? ≠ some 0 ∧ sig.s.head? ≠ some 0 := by
  have pos : newV.toNat = quantities.signedV sig → newV ≠ 0 := by
    rintro same rfl
    unfold Quantities.signedV at same
    rw [UInt32.toNat_zero] at same
    omega
  simp only [byteItems, Quantities.contents, EthTransaction.fields,
    Quantities.signedItems, cons_append, nil_append, map_cons,
    map_nil, List.cons.injEq, Rlp.Item.mk.injEq, true_and, and_true,
    numberBytes_eq_shortest_iff, eq_shortest_iff]
  tauto

theorem length_signed_lt {quantities : Quantities}
    {sig : RecoverableSignature} (newV : UInt32)
    (small : (Rlp.encodings (quantities.signedItems sig)).length < 2 ^ 31) :
    ∀ content ∈ quantities.contents.fields ++ [numberBytes newV, sig.r, sig.s],
      content.length < 2 ^ 31 := by
  have bounded : ∀ item ∈ quantities.signedItems sig, item.payload.length < 2 ^ 31 :=
    fun item mem => (Rlp.length_payload_le_encodings mem).trans_lt small
  have num : ∀ n, (numberBytes n).length < 2 ^ 31 :=
    fun n => (length_numberBytes_le n).trans_lt (by norm_num)
  have toAddress : quantities.toAddress.length < 2 ^ 31 :=
    bounded ⟨.bytes, _⟩ (by simp [Quantities.signedItems, byteItems])
  have data : quantities.data.length < 2 ^ 31 :=
    bounded ⟨.bytes, _⟩ (by simp [Quantities.signedItems, byteItems])
  have r : sig.r.length < 2 ^ 31 := by
    rw [sig.length_r]
    norm_num
  have s : sig.s.length < 2 ^ 31 := by
    rw [sig.length_s]
    norm_num
  simp only [Quantities.contents, EthTransaction.fields, cons_append, nil_append, forall_mem_cons]
  exact ⟨num _, num _, num _, toAddress, num _, data, num _, r, s, by simp⟩

section Canonical

variable {hash : Bytes → Bytes} {sign : Bytes → Bytes → Bytes}
  {quantities : Quantities} {tx : EthTransaction}
  {privateKeyHex prKey byteArray : Bytes} {sig : RecoverableSignature}

theorem chainId_ne_nil_of_signTx (given : quantities.GivenBy tx)
    (k : hex2bin privateKeyHex = some prKey) (hashed : tx.byteArray = some byteArray)
    (signed : sign prKey (hash byteArray) = sig.rsv)
    {output : Bytes} (result : tx.signTx hash sign privateKeyHex = some output) :
    quantities.chainId ≠ [] := by
  intro empty
  have spellsEmpty := given.chainId
  rw [empty] at spellsEmpty
  have unset := newV_none spellsEmpty sig.rsv
  obtain ⟨rlpTx, encoded, _⟩ := toRlpEncodedTx_spells given.spells
  simp [EthTransaction.signTx, hashed, k, signed, unset] at result

theorem regular_of_signTx (given : quantities.GivenBy tx) (k : hex2bin privateKeyHex = some prKey)
    (hashed : tx.byteArray = some byteArray) (signed : sign prKey (hash byteArray) = sig.rsv)
    {output bytes : Bytes} (result : tx.signTx hash sign privateKeyHex = some output)
    (decoded : hex2bin output = some bytes)
    (decodes : DecodesTo bytes (quantities.signedItems sig)) :
    quantities.Regular sig := by
  have chainId := chainId_ne_nil_of_signTx given k hashed signed result
  obtain ⟨newV, found, sum⟩ := newV_eq given.chainId chainId sig
  obtain ⟨_, spelled, outputSpells⟩ := signTx_spells given.spells k hashed signed found
  rw [result] at spelled
  cases spelled
  rw [hex2bin_of_spells outputSpells] at decoded
  cases decoded
  obtain ⟨body, small, payloads⟩ := content_of_decodesTo decodes
  have short := length_signed_lt newV small
  rw [flatMap_written short] at body
  have items : byteItems (quantities.contents.fields ++
        [numberBytes newV, sig.r, sig.s]) = quantities.signedItems sig := by
    refine Rlp.encodings_injective ?_ payloads body
    intro item mem
    obtain ⟨content, inside, rfl⟩ := mem_map.mp mem
    exact (short content inside).trans (by norm_num)
  obtain ⟨⟨nonce, gasPrice, gasLimit, v⟩, correct, r, s⟩ :=
    (signedItems_eq_iff quantities sig newV).mp items
  exact ⟨nonce, gasPrice, gasLimit, v, chainId, (newV_correct_iff sum).mp correct, r, s, small⟩

theorem signTx_of_regular (given : quantities.GivenBy tx) (k : hex2bin privateKeyHex = some prKey)
    (hashed : tx.byteArray = some byteArray) (signed : sign prKey (hash byteArray) = sig.rsv)
    (regular : quantities.Regular sig) :
    ∃ output bytes, tx.signTx hash sign privateKeyHex = some output ∧ hex2bin output = some bytes ∧
      DecodesTo bytes (quantities.signedItems sig) := by
  obtain ⟨newV, found, sum⟩ := newV_eq given.chainId regular.chainId sig
  obtain ⟨output, result, outputSpells⟩ := signTx_spells given.spells k hashed signed found
  have items :=
    (signedItems_eq_iff quantities sig newV).mpr
      ⟨⟨regular.nonce, regular.gasPrice, regular.gasLimit, regular.value⟩,
        (newV_correct_iff sum).mpr regular.signedV, regular.r, regular.s⟩
  refine ⟨output, _, result, hex2bin_of_spells outputSpells, ?_⟩
  rw [flatMap_written (length_signed_lt newV regular.small), items]
  exact decodesTo_encodings (show 2 ≤ 9 by decide) regular.small

/-- The result of `sign_tx` is the canonical list if and only if none of the
four numbers is zero, neither half of the signature starts with a zero byte,
the number for the chain and the parity fits 32 bits, and the list has less
than `2 ^ 31` bytes. -/
theorem signTx_canonical_iff (given : quantities.GivenBy tx)
    (k : hex2bin privateKeyHex = some prKey) (hashed : tx.byteArray = some byteArray)
    (signed : sign prKey (hash byteArray) = sig.rsv) :
    (∃ output bytes, tx.signTx hash sign privateKeyHex = some output ∧ hex2bin output = some bytes ∧
        DecodesTo bytes (quantities.signedItems sig)) ↔ quantities.Regular sig := by
  constructor
  · rintro ⟨output, bytes, result, decoded, decodes⟩
    exact regular_of_signTx given k hashed signed result decoded decodes
  · exact signTx_of_regular given k hashed signed

end Canonical

def sampleSignature : RecoverableSignature where
  r := List.replicate 32 1
  s := List.replicate 32 2
  recid := 1
  length_r := rfl
  length_s := rfl
  nonzero_r := by decide
  nonzero_s := by decide
  recid_lt := by decide

theorem signTx_canonical_transfer :
    Quantities.Regular ⟨9, 4, 21000, [], 10, [], [1]⟩ sampleSignature ∧
      ∃ output bytes, EthTransaction.signTx id (fun _ _ => sampleSignature.rsv)
            ⟨dec2hex 9, dec2hex 4, dec2hex 21000, [], dec2hex 10, [],
              text "01"⟩ (text "05") = some output ∧
          hex2bin output = some bytes ∧
          DecodesTo bytes
            (Quantities.signedItems ⟨9, 4, 21000, [], 10, [], [1]⟩ sampleSignature) := by
  have chain : HexSpells (text "01") [1] := by
    unfold HexSpells
    decide +kernel
  have given : Quantities.GivenBy ⟨9, 4, 21000, [], 10, [], [1]⟩
        ⟨dec2hex 9, dec2hex 4, dec2hex 21000, [], dec2hex 10, [], text "01"⟩ :=
    ⟨rfl, rfl, rfl, rfl, rfl, rfl, chain⟩
  have k : hex2bin (text "05") = some [5] := by decide +kernel
  have regular : Quantities.Regular ⟨9, 4, 21000, [], 10, [], [1]⟩ sampleSignature := by
    constructor <;> decide +kernel
  exact ⟨regular, (signTx_canonical_iff given k (byteArray_eq given.spells) rfl).mpr regular⟩

theorem signTx_nonce_zero :
    ¬ ∃ output bytes, EthTransaction.signTx id (fun _ _ => sampleSignature.rsv)
            ⟨dec2hex 0, dec2hex 4, dec2hex 21000, [], dec2hex 10, [],
              text "01"⟩ (text "05") = some output ∧
          hex2bin output = some bytes ∧
          DecodesTo bytes
            (Quantities.signedItems ⟨0, 4, 21000, [], 10, [], [1]⟩ sampleSignature) := by
  have chain : HexSpells (text "01") [1] := by
    unfold HexSpells
    decide +kernel
  have given : Quantities.GivenBy ⟨0, 4, 21000, [], 10, [], [1]⟩
        ⟨dec2hex 0, dec2hex 4, dec2hex 21000, [], dec2hex 10, [], text "01"⟩ :=
    ⟨rfl, rfl, rfl, rfl, rfl, rfl, chain⟩
  have k : hex2bin (text "05") = some [5] := by decide +kernel
  rintro ⟨output, bytes, result, decoded, decodes⟩
  have regular := regular_of_signTx given k (byteArray_eq given.spells) rfl result decoded decodes
  exact regular.nonce rfl

end AutomatonCore.Interop.Ethereum
