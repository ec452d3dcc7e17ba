import AutomatonCore.Io.HexNumbers
import AutomatonCore.Library.Rlp

/-!
# Recursive length prefixes in hexadecimal

`rlp_encode` of `eth_helper_functions.h`.
-/

namespace AutomatonCore.Interop.Ethereum

open Io Library List

def rlpHeader (length : UInt32) (isList : Bool) : Bytes :=
  if length < 56 then dec2hex ((if isList then 192 else 128) + length)
  else
    let lengthInHex := dec2hex length
    let firstByte := (if isList then 247 else 183) + UInt32.ofNat lengthInHex.length / 2
    dec2hex firstByte ++ lengthInHex

/-- `none` where `hex2dec` leaves its result unset. -/
def rlpEncode (s : Bytes) (isList : Bool) : Option Bytes :=
  let s := evenDigits s
  let length := UInt32.ofNat s.length / 2
  if length = 0 then some (text "80")
  else if length = 1 then do
    let first ← hex2dec (s.take 2)
    return if first < 128 then s else rlpHeader length isList ++ s
  else some (rlpHeader length isList ++ s)

def kindOf (isList : Bool) : Rlp.Kind :=
  if isList then .list else .bytes

/-- The bytes that `rlpEncode` spells.  The number of digits is kept in 32
bits before it is halved. -/
def written (isList : Bool) (content : Bytes) : Bytes :=
  let size := content.length % 2 ^ 31
  if size = 0 then [128]
  else if size = 1 ∧ (content.headD 0).toNat < 128 then content
  else Rlp.header (kindOf isList) size ++ content

/-! ## What is spelled -/

theorem hexSpells_dec2hex_byte {n : UInt32} {v : Nat}
    (same : n.toNat = v) (pos : v ≠ 0) (small : v < 256) :
    HexSpells (dec2hex n) [UInt8.ofNat v] := by
  rw [← shortest_of_byte pos small, ← same]
  apply hexSpells_dec2hex
  rintro rfl
  exact pos same.symm

theorem hexSpells_rlpHeader {length : UInt32} (pos : length ≠ 0) (isList : Bool) :
    HexSpells (rlpHeader length isList) (Rlp.header (kindOf isList) length.toNat) := by
  unfold rlpHeader Rlp.header
  by_cases short : length < 56
  · have small : length.toNat < 56 := UInt32.lt_iff_toNat_lt.mp short
    rw [if_pos short, if_pos small]
    apply hexSpells_dec2hex_byte
    · rw [UInt32.toNat_add]
      cases isList <;>
        simp only [kindOf, Rlp.Kind.base, UInt32.reduceToNat,
          Bool.false_eq_true, if_false, if_true] <;>
        omega
    all_goals cases isList <;> simp [kindOf, Rlp.Kind.base] <;> omega
  · have large : ¬ length.toNat < 56 := fun small => short (UInt32.lt_iff_toNat_lt.mpr small)
    have digits := hexSpells_dec2hex pos
    have count : (shortest length.toNat).length ≤ 4 :=
      (length_shortest_le_iff _ 4).mpr (length.toNat_lt.trans_eq (by norm_num))
    rw [if_neg short, if_neg large]
    refine (hexSpells_dec2hex_byte ?_ ?_ ?_).append digits
    · rw [digits.length_eq, UInt32.toNat_add, UInt32.toNat_div, UInt32.toNat_ofNat']
      cases isList <;>
        simp only [kindOf, Rlp.Kind.base, UInt32.reduceToNat,
          Bool.false_eq_true, if_false, if_true] <;>
        omega
    all_goals cases isList <;> simp [kindOf, Rlp.Kind.base] <;> omega

theorem hexSpells_empty : HexSpells (text "80") [128] := by
  unfold HexSpells
  decide +kernel

variable {s content : Bytes} {isList : Bool}

theorem hex2dec_first {first : UInt8} {rest : Bytes} (spells : HexSpells s (first :: rest)) :
    ∃ v, hex2dec (s.take 2) = some v ∧ (v < 128 ↔ first.toNat < 128) := by
  have digits : HexSpells (s.take 2) [first] := by
    rw [HexSpells, map_take, spells]
    rfl
  refine ⟨_, hex2dec_of_spells digits (cons_ne_nil _ _), ?_⟩
  rw [UInt32.lt_iff_toNat_lt, UInt32.toNat_ofNat']
  simp only [bigEndianValue, foldl_cons, foldl_nil, UInt32.reduceToNat]
  omega

/-- Argument and result are hexadecimal strings, followed here to the bytes
they spell. -/
theorem rlpEncode_spells (spells : HexSpells s content) (isList : Bool) :
    ∃ output, rlpEncode s isList = some output ∧ HexSpells output (written isList content) := by
  have digits := spells.length_eq
  have even : evenDigits s = s := if_neg (by omega)
  have size : (UInt32.ofNat s.length / 2).toNat = content.length % 2 ^ 31 := by
    rw [UInt32.toNat_div, UInt32.toNat_ofNat']
    simp only [UInt32.reduceToNat]
    omega
  unfold rlpEncode written
  simp only [even, ← size]
  generalize UInt32.ofNat s.length / 2 = length at size ⊢
  by_cases zero : length = 0
  · rw [zero]
    exact ⟨_, rfl, hexSpells_empty⟩
  · have nonzero : length.toNat ≠ 0 := fun same => zero (UInt32.toNat.inj same)
    rw [if_neg zero, if_neg nonzero]
    have headed := (hexSpells_rlpHeader zero isList).append spells
    by_cases one : length = 1
    · obtain ⟨first, rest, rfl⟩ : ∃ first rest, content = first :: rest := by
        apply exists_cons_of_ne_nil
        rintro rfl
        exact nonzero size
      obtain ⟨v, found, small⟩ := hex2dec_first spells
      rw [if_pos one, found]
      refine ⟨_, rfl, ?_⟩
      by_cases single : v < 128
      · have both : length.toNat = 1 ∧ first.toNat < 128 :=
          ⟨congrArg UInt32.toNat one, small.mp single⟩
        rw [if_pos single, headD_cons, if_pos both]
        exact spells
      · rw [if_neg single, if_neg (fun both => single (small.mpr both.2))]
        exact headed
    · have notOne : length.toNat ≠ 1 := fun same => one (UInt32.toNat.inj same)
      rw [if_neg one, if_neg (fun both => notOne both.1)]
      exact ⟨_, rfl, headed⟩

/-! ## Reading it back -/

/-- A decoder finds the item and nothing else, in as few bytes as any encoding
of it has. -/
def ReadsAs (output : Bytes) (item : Rlp.Item) : Prop :=
  ∃ bytes, hex2bin output = some bytes ∧ Rlp.read bytes = some (item, []) ∧
    ∀ other, Rlp.Denotes item other → bytes.length ≤ other.length

theorem readsAs_iff {output bytes : Bytes} (spells : HexSpells output bytes) (item : Rlp.Item) :
    ReadsAs output item ↔ bytes = item.encoding ∧ item.payload.length < 2 ^ 64 := by
  rw [ReadsAs, hex2bin_of_spells spells]
  constructor
  · intro reads
    obtain ⟨_, same, reads, _⟩ := reads
    cases same
    rw [← append_nil item.encoding]
    exact Rlp.encoding_of_read reads
  · intro encoded
    obtain ⟨rfl, small⟩ := encoded
    refine ⟨_, rfl, ?_, fun other => Rlp.length_encoding_le⟩
    rw [Rlp.read_eq_some_iff, append_nil]
    exact ⟨rfl, small⟩

theorem written_of_small (small : content.length < 2 ^ 31)
    (headed : isList = true → content ≠ [] ∧ ¬ Rlp.Item.isSingle ⟨.bytes, content⟩ = true) :
    written isList content = Rlp.Item.encoding ⟨kindOf isList, content⟩ := by
  unfold written Rlp.Item.encoding
  rw [Nat.mod_eq_of_lt small]
  match content, isList with
  | [], false => rfl
  | [], true => exact absurd rfl (headed rfl).1
  | [b], false =>
    have ne : [b].length ≠ 0 := one_ne_zero
    rw [if_neg ne]
    simp only [length_singleton, true_and]
    exact if_congr (Rlp.isSingle_byte_iff b).symm rfl rfl
  | [b], true =>
    have large := (headed rfl).2
    rw [Rlp.isSingle_byte_iff] at large
    simp only [length_singleton, headD_cons, true_and]
    rw [if_neg large]
    rfl
  | first :: second :: rest, isList =>
    have several : (first :: second :: rest).length ≠ 1 := by simp
    cases isList <;> rfl

theorem small_of_written {payload : Bytes} (shorter : content.length ≤ payload.length)
    (same : written isList content = Rlp.Item.encoding ⟨kindOf isList, payload⟩) :
    payload.length < 2 ^ 31 := by
  by_contra large
  have notSingle : ¬ Rlp.Item.isSingle ⟨kindOf isList, payload⟩ = true := by
    intro single
    obtain ⟨b, _, item⟩ := Rlp.exists_of_isSingle single
    have length := congrArg (fun item => item.payload.length) item
    dsimp only [length_singleton] at length
    omega
  have longHeader : 3 + 1 < (Rlp.header (kindOf isList) payload.length).length :=
    Rlp.lt_length_header _ (by omega) (by omega)
  rw [Rlp.Item.encoding, if_neg notSingle] at same
  have lengths := congrArg List.length same
  simp only [written] at same lengths
  rw [length_append] at lengths
  split at same
  next zero =>
    rw [if_pos zero, length_singleton] at lengths
    omega
  next some =>
    rw [if_neg some] at lengths
    split at same
    next single =>
      rw [if_pos single] at lengths
      omega
    next headed =>
      have shortHeader : (Rlp.header (kindOf isList) (content.length % 2 ^ 31)).length ≤ 4 + 1 :=
        Rlp.length_header_le _ (by omega)
      rw [if_neg headed, length_append] at lengths
      have headers := (append_inj same (by omega)).1
      have sizes := Rlp.header_injective _ headers
      omega

theorem written_eq_encoding_iff (content : Bytes) (isList : Bool) :
    written isList content = Rlp.Item.encoding ⟨kindOf isList, content⟩ ↔
      content.length < 2 ^ 31 ∧ (isList = true → content ≠ [] ∧
        ¬ Rlp.Item.isSingle ⟨.bytes, content⟩ = true) := by
  constructor
  · intro same
    refine ⟨small_of_written (le_rfl) same, ?_⟩
    rintro rfl
    constructor
    · rintro rfl
      exact absurd same (by decide)
    · intro single
      obtain ⟨b, below, item⟩ := Rlp.exists_of_isSingle single
      cases item
      have bare : written true [b] = [b] := if_pos ⟨rfl, below⟩
      have headed : Rlp.Item.encoding ⟨.list, [b]⟩ = [193, b] := rfl
      have lengths := congrArg List.length same
      rw [bare, kindOf, if_pos rfl] at lengths
      cases lengths
  · intro condition
    exact written_of_small condition.1 condition.2

/-- The result is the one canonical encoding of the item unless the number of
digits does not fit, or the item is a list that is empty or has one byte below
128: those get no header for a list. -/
theorem rlpEncode_readsAs_iff {s content : Bytes} (spells : HexSpells s content) (isList : Bool) :
    (∃ output, rlpEncode s isList = some output ∧ ReadsAs output ⟨kindOf isList, content⟩) ↔
      content.length < 2 ^ 31 ∧ (isList = true → content ≠ [] ∧
        ¬ Rlp.Item.isSingle ⟨.bytes, content⟩ = true) := by
  obtain ⟨output, encoded, outputSpells⟩ := rlpEncode_spells spells isList
  rw [← written_eq_encoding_iff]
  constructor
  · intro reads
    obtain ⟨_, same, reads⟩ := reads
    rw [encoded] at same
    cases same
    exact ((readsAs_iff outputSpells _).mp reads).1
  · intro same
    have small := small_of_written (le_rfl) same
    refine ⟨output, encoded, (readsAs_iff outputSpells _).mpr ⟨same, ?_⟩⟩
    exact small.trans (by norm_num)

theorem rlpEncode_readsAs_list :
    (∃ output, rlpEncode (text "83646F67") true = some output ∧
        ReadsAs output ⟨.list, [131, 100, 111, 103]⟩) ↔
      [131, 100, 111, 103].length < 2 ^ 31 ∧ (true = true → ([131, 100, 111, 103] : Bytes) ≠ [] ∧
        ¬ Rlp.Item.isSingle ⟨.bytes, [131, 100, 111, 103]⟩ = true) :=
  rlpEncode_readsAs_iff (by unfold HexSpells; decide +kernel) true

theorem rlpEncode_empty_list_unread :
    ¬ ∃ output, rlpEncode [] true = some output ∧ ReadsAs output ⟨.list, []⟩ := by
  intro reads
  obtain ⟨output, encoded, bytes, decoded, reads, _⟩ := reads
  have empty : rlpEncode [] true = some (text "80") := by decide +kernel
  cases encoded
  cases decoded
  exact absurd reads (by decide)

end AutomatonCore.Interop.Ethereum
