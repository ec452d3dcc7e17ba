import Mathlib.Data.List.GetD
import AutomatonCore.Library.Overlay
import AutomatonCore.Interop.AbiTypeStrings

/-!
# Words and the buffer
-/

namespace AutomatonCore.Interop.Ethereum

open Io Library List
open ContractType (word padded)

variable {n rounds count : Nat} {buf : Buffer} {src : Bytes}

theorem toUInt8_shiftRight (small : n < 2 ^ 64) (shift : UInt64) (bound : shift.toNat < 64) :
    ((UInt64.ofNat n >>> shift) &&& 0xFF).toUInt8 = UInt8.ofNat (n / 2 ^ shift.toNat) := by
  apply UInt8.toNat.inj
  have v : (UInt64.ofNat n).toNat = n := by exact Nat.mod_eq_of_lt small
  have mask : UInt64.toNat 0xFF = 2 ^ 8 - 1 := rfl
  rw [UInt64.toNat_toUInt8, UInt64.toNat_and, UInt64.toNat_shiftRight, v,
    UInt8.toNat_ofNat', Nat.mod_eq_of_lt bound, Nat.shiftRight_eq_div_pow,
    mask, Nat.and_two_pow_sub_one_eq_mod, Nat.mod_mod]

theorem u64ToU256_ofNat (small : n < 2 ^ 64) : u64ToU256 (UInt64.ofNat n) = word n := by
  have b (shift : UInt64) (bound : shift.toNat < 64) := toUInt8_shiftRight small shift bound
  have last := b 0 (by decide)
  rw [UInt64.shiftRight_zero] at last
  rw [word, show 32 = 24 + 8 from rfl, bigEndian_leading_zeros 24 (by simpa using small), u64ToU256,
    b 56 (by decide), b 48 (by decide), b 40 (by decide),
    b 32 (by decide), b 24 (by decide), b 16 (by decide), b 8 (by decide), last]
  simp [bigEndian, Nat.div_div_eq_div_mul]

theorem or_shiftLeft_byte (high : Nat) (b : UInt8) (shift : Nat) :
    2 ^ (shift + 8) * high ||| b.toNat * 2 ^ shift = 2 ^ shift * (high * 256 + b.toNat) := by
  have digit : b.toNat * 2 ^ shift < 2 ^ (shift + 8) := by
    rw [pow_add, mul_comm]
    exact Nat.mul_lt_mul_of_pos_left b.toNat_lt (Nat.two_pow_pos shift)
  rw [← Nat.two_pow_add_eq_or_of_lt digit]
  ring

theorem toNat_u256ToU64_loop {s : Bytes} (width : s.length = 32) (bound : rounds ≤ 8) :
    ((List.range rounds).foldl
        (fun n i => n ||| (s.getD (24 + i) 0).toUInt64 <<< UInt64.ofNat ((7 - i) * 8))
        0).toNat = 2 ^ (64 - 8 * rounds) * bigEndianValue ((s.drop 24).take rounds) := by
  induction rounds with
  | zero => simp [bigEndianValue]
  | succ rounds ih =>
    have inside : rounds < (s.drop 24).length := by
      rw [length_drop]
      omega
    have a : (s.drop 24)[rounds] = s.getD (24 + rounds) 0 := by rw [getElem_drop, getD_eq_getElem]
    have shift : (UInt64.ofNat ((7 - rounds) * 8)).toNat % 64 = 64 - 8 * (rounds + 1) := by
      rw [UInt64.toNat_ofNat']
      omega
    have exponent : 64 - 8 * rounds = 64 - 8 * (rounds + 1) + 8 := by omega
    have fits (b : UInt8) :
        b.toNat <<< (64 - 8 * (rounds + 1)) % 2 ^ 64 = b.toNat * 2 ^ (64 - 8 * (rounds + 1)) := by
      rw [Nat.shiftLeft_eq]
      apply Nat.mod_eq_of_lt
      calc
        b.toNat * 2 ^ (64 - 8 * (rounds + 1)) < 2 ^ 8 * 2 ^ (64 - 8 * (rounds + 1)) :=
          Nat.mul_lt_mul_of_pos_right b.toNat_lt (Nat.two_pow_pos _)
        _ ≤ 2 ^ 64 := by
          rw [← pow_add]
          exact Nat.pow_le_pow_right (by omega) (by omega)
    rw [range_succ, foldl_append, foldl_cons, foldl_nil, UInt64.toNat_or, ih (by omega),
      UInt64.toNat_shiftLeft, shift, UInt8.toNat_toUInt64, fits,
      exponent, or_shiftLeft_byte, take_succ_eq_append_getElem inside, a, bigEndianValue_concat]

theorem toNat_u256ToU64_word (small : n < 2 ^ 64) : (u256ToU64 (word n)).toNat = n := by
  have width : (word n).length = 32 := length_bigEndian 32 n
  have low : (word n).drop 24 = bigEndian 8 n := by
    rw [word, show 32 = 24 + 8 from rfl, bigEndian_leading_zeros 24 (by simpa using small)]
    exact drop_left' (length_replicate)
  rw [u256ToU64, if_neg (by simp [width]), toNat_u256ToU64_loop width (Nat.le_refl 8), low,
    take_of_length_le (by simp), bigEndianValue_bigEndian]
  omega

theorem encodeString_eq_padded (v : Bytes) : encodeString v = padded v := by
  simp only [encodeString, padded]
  split
  · congr 2
    omega
  next whole =>
    simp [not_not.mp whole]

/-! ## The buffer -/

/-- What is written at each position of the buffer. -/
def Buffer.view (buffer : Buffer) : Nat → Option UInt8 :=
  fun index => buffer.getD index none

theorem view_fresh (size : Nat) : Buffer.view (List.replicate size none) = fun _ => none := by
  funext i
  simp [Buffer.view]

theorem le_grownSize {size needed : Nat} (enough : needed ≤ size + rounds) :
    needed ≤ grownSize rounds size needed := by
  induction rounds generalizing size with
  | zero => exact enough
  | succ rounds ih =>
    rw [grownSize]
    split
    · apply ih
      unfold bufferSize
      omega
    · omega

theorem length_checkAndResizeBuffer (buf : Buffer) (pos dataSize : Nat) :
    pos + dataSize ≤ (checkAndResizeBuffer buf pos dataSize).length := by
  have grown :=
    show pos + dataSize ≤ grownSize (pos + dataSize) buf.length _ from le_grownSize (by omega)
  simp only [checkAndResizeBuffer, length_append, length_replicate]
  omega

theorem view_checkAndResizeBuffer (buf : Buffer) (pos dataSize : Nat) :
    (checkAndResizeBuffer buf pos dataSize).view = buf.view := by
  funext i
  simp only [Buffer.view, checkAndResizeBuffer]
  by_cases inside : i < buf.length
  · rw [getD_append _ _ _ _ inside]
  · rw [getD_append_right _ _ _ _ (by omega), getD_eq_default buf _ (by omega)]
    simp

theorem memcpy_writes {pos : Nat} (whole : src.length = count) (room : pos + count ≤ buf.length) :
    ∃ next, memcpy buf pos src count = .ok next ∧
        next.view = overlay buf.view pos src := by
  subst whole
  refine ⟨_, if_pos ⟨le_rfl, room⟩, ?_⟩
  funext i
  have before : (buf.take pos).length = pos := by
    rw [length_take]
    omega
  simp only [Buffer.view, overlay, take_length, getD_eq_getElem?_getD]
  split
  · rw [getElem?_append_left (by simp; omega),
      getElem?_append_right (by omega), before, getElem?_map]
    cases src[i - pos]? <;> rfl
  · by_cases left : i < pos
    · rw [append_assoc, getElem?_append_left (by omega), getElem?_take_of_lt left]
    · rw [getElem?_append_right (by simp; omega), getElem?_drop]
      congr 2
      simp
      omega

theorem store_writes (buf : Buffer) (pos : Nat) (whole : src.length = count) :
    ∃ next, store buf pos src count = .ok next ∧
        next.view = overlay buf.view pos src := by
  obtain ⟨next, copied, written⟩ := memcpy_writes whole (length_checkAndResizeBuffer buf pos count)
  rw [view_checkAndResizeBuffer] at written
  exact ⟨next, copied, written⟩

theorem mapM_id_map_some (data : Bytes) : (data.map some).mapM id = some data := by
  induction data with
  | nil => rfl
  | cons b data ih => simp [ih]

theorem readBuffer_written {data : Bytes} (written : buf.view = overlay (fun _ => none) 0 data) :
    readBuffer buf data.length = .ok data := by
  have at_index {i : Nat} (inside : i < data.length) : buf.getD i none = data[i]? := by
    have same := congrFun written i
    rwa [overlay_getElem? _ inside] at same
  have room : data.length ≤ buf.length := by
    by_contra short
    have here := at_index (not_le.mp short)
    rw [getD_eq_default _ _ (le_rfl), getElem?_eq_getElem (not_le.mp short)] at here
    cases here
  have same : buf.take data.length = data.map some := by
    apply ext_getElem?
    intro i
    by_cases inside : i < data.length
    · have here := at_index inside
      rw [getD_eq_getElem _ _ (by omega)] at here
      rw [getElem?_take_of_lt inside, getElem?_map,
        getElem?_eq_getElem (by omega), here, getElem?_eq_getElem inside]
      rfl
    · rw [getElem?_eq_none (by simp; omega), getElem?_eq_none (by simp; omega)]
  rw [readBuffer, if_pos room, same, mapM_id_map_some]
  rfl

end AutomatonCore.Interop.Ethereum
