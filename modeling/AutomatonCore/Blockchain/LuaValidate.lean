import AutomatonCore.Blockchain.LongestChain
import AutomatonCore.Library.Lockstep
import AutomatonCore.Script.LuaValue

/-!
# The judgement of blocks in Lua

The blockchain protocol exists twice: as the C++ node, and as a script of
`examples/smartproto/blockchain`.  Both use the same hash function, genesis
hash and target.
-/

namespace AutomatonCore.Blockchain

open Io Library Script
open BlockchainCppNode (lowHash)

/-- A block message as the script reads it through the binding library: the
height is a Lua number. -/
structure LuaBlock where
  miner : Bytes
  prevHash : Bytes
  height : LuaNumber
  nonce : Bytes
  deriving DecidableEq, Repr

/-- The table `blocks`, by what an index gives; `none` is `nil`. -/
abbrev LuaBlocks :=
  Bytes → Option LuaBlock

def Block.toLua (b : Block) : LuaBlock where
  miner := b.miner
  prevHash := b.prevHash
  height := .ofUInt64 b.height
  nonce := b.nonce

def Blocks.toLua (blocks : Blocks) : LuaBlocks :=
  fun key => (blocks.lookup key).map Block.toLua

namespace LuaBlock

def blockHash (hash : Bytes → Bytes) (block : LuaBlock) : Bytes :=
  hash (block.miner ++ block.prevHash ++ block.height.tostring ++ block.nonce)

def logBlock (hash : Bytes → Bytes) (block : LuaBlock) (extra : Bytes) : Except LuaError Bytes := do
  let height ← formatD 4 block.height
  let miner ← formatS 12 block.miner
  return bin2hex (block.blockHash hash) ++ text " | " ++ height ++
    text " | " ++ miner ++ text " | " ++ extra

/-- Every branch of `validate` writes a line and returns its judgement. -/
def judged (hash : Bytes → Bytes) (block : LuaBlock) (extra : Bytes)
    (validity : BlockValidity) : Except LuaError (Bytes × BlockValidity) := do
  let line ← block.logBlock hash extra
  return (line, validity)

end LuaBlock

def validate (hash : Bytes → Bytes) (blocks : LuaBlocks) :
    Option LuaBlock → Except LuaError (Bytes × BlockValidity)
  | none => .ok (text "validate called with block=nil", .invalid)
  | some block =>
    let bhash := block.blockHash hash
    if (blocks bhash).isSome then block.judged hash (text "DUPLICATE") .duplicate
    else if getTarget < bhash then block.judged hash (text "INVALID target > hash") .invalid
    else if block.height.value < 1 then block.judged hash (text "INVALID height < 1") .invalid
    else if block.prevHash ≠ genesisHash hash ∧ blocks block.prevHash = none then
      block.judged hash (text "NO_PARENT") .noParent
    else if block.height.value = 1 ∧ block.prevHash ≠ genesisHash hash then
      block.judged hash (text "INVALID height") .invalid
    else if block.height.value > 1 then
      match blocks block.prevHash with
      | none => .error .indexNil
      | some previous =>
        let expected := block.height.sub (.integer 1)
        if previous.height.value ≠ expected.value then
          block.judged hash (text "INVALID height") .invalid
        else block.judged hash (text "VALID") .valid
    else block.judged hash (text "VALID") .valid

/-! ## What the log can print -/

/-- The line that `validate` logs can be made. -/
structure Block.Printable (b : Block) : Prop where
  height : b.height < 2 ^ 63
  miner : 0 ∉ b.miner

variable {b : Block} {hash : Bytes → Bytes} {blocks : Blocks}

theorem Block.Printable.logBlock (printable : b.Printable) (hash : Bytes → Bytes) (extra : Bytes) :
    ∃ line, b.toLua.logBlock hash extra = .ok line := by
  have height : formatD 4 b.toLua.height = .ok (padLeft 4 (decimalInt b.height)) := by
    unfold formatD
    rw [Block.toLua, LuaNumber.toInteger_of_lt printable.height]
  have miner : formatS 12 b.toLua.miner = .ok (padLeft 12 b.miner) := if_neg printable.miner
  unfold LuaBlock.logBlock
  rw [height, miner]
  exact ⟨_, rfl⟩

theorem Block.printable_of_logBlock
    {extra line : Bytes} (logged : b.toLua.logBlock hash extra = .ok line) : b.Printable := by
  unfold LuaBlock.logBlock at logged
  constructor
  · by_contra large
    have failed : formatD 4 b.toLua.height = .error .noIntegerRepresentation := by
      unfold formatD
      rw [Block.toLua, LuaNumber.toInteger_of_le (not_lt.mp large)]
    rw [failed] at logged
    cases logged
  · intro zero
    have failed : formatS 12 b.toLua.miner = .error .stringContainsZeros := if_pos zero
    rw [failed] at logged
    obtain ⟨_, height, logged⟩ := bind_eq_ok_iff.mp logged
    cases logged

theorem judged_iff {extra : Bytes} {validity expected : BlockValidity} :
    (∃ line, b.toLua.judged hash extra validity = .ok (line, expected)) ↔
      b.Printable ∧ validity = expected := by
  unfold LuaBlock.judged
  constructor
  · rintro ⟨line, returned⟩
    obtain ⟨_, logged, returned⟩ := bind_eq_ok_iff.mp returned
    cases returned
    exact ⟨Block.printable_of_logBlock logged, rfl⟩
  · rintro ⟨printable, rfl⟩
    obtain ⟨line, logged⟩ := printable.logBlock hash extra
    exact ⟨line, by rw [logged]; rfl⟩

/-! ## One block -/

theorem Block.blockHash_toLua (small : b.height < 2 ^ 63)
    (hash : Bytes → Bytes) : b.toLua.blockHash hash = b.blockHash hash := by
  unfold LuaBlock.blockHash Block.blockHash Block.data
  rw [Block.toLua, LuaNumber.tostring_of_lt small]

theorem Blocks.toLua_eq_none {k : Bytes} : blocks.toLua k = none ↔ blocks.lookup k = none :=
  Option.map_eq_none_iff

theorem Block.toLua_height_iff (prev : Block) {b : Block}
    (small : b.height < 2 ^ 63) (above : 1 < b.height) :
    prev.toLua.height.value =
        (b.toLua.height.sub (.integer 1)).value ↔ prev.height = b.height - 1 := by
  have shown : b.toLua.height.sub (.integer 1) = .integer (b.height - 1 : Nat) :=
    LuaNumber.sub_one small (by omega)
  rw [shown]
  exact LuaNumber.value_ofUInt64_eq_iff (by omega)

theorem printable_of_validate {blocks : LuaBlocks} {result : Bytes × BlockValidity} :
    validate hash blocks (some b.toLua) = .ok result → b.Printable := by
  have logged {extra : Bytes} {validity : BlockValidity}
      (judged : b.toLua.judged hash extra validity = .ok result) : b.Printable :=
    (judged_iff.mp ⟨result.1, judged⟩).1
  have tested {condition : Prop} [Decidable condition]
      {yes no : Except LuaError (Bytes × BlockValidity)}
      (first : yes = .ok result → b.Printable)
      (second : no = .ok result → b.Printable) :
      (if condition then yes else no) = .ok result → b.Printable := by
    split
    · exact first
    · exact second
  unfold validate
  refine tested logged (tested logged (tested logged (tested logged
    (tested logged (tested ?_ logged)))))
  cases blocks b.toLua.prevHash with
  | none =>
    intro stopped
    cases stopped
  | some prev => exact tested logged logged

/-- The script returns the judgement of the C++ node. -/
def Agrees (result : Except LuaError (Bytes × BlockValidity))
    (expected : Blocks × BlockValidity) : Prop :=
  ∃ line, result = .ok (line, expected.2)

theorem Agrees.ite {condition other : Prop} [Decidable condition]
    [Decidable other] {yes no : Except LuaError (Bytes × BlockValidity)}
    {yesExpected noExpected : Blocks × BlockValidity}
    (same : condition ↔ other) (first : other → Agrees yes yesExpected)
    (second : ¬ other → Agrees no noExpected) :
    Agrees (if condition then yes else no) (if other then yesExpected else noExpected) := by
  by_cases holds : other
  · rw [if_pos (same.mpr holds), if_pos holds]
    exact first holds
  · rw [if_neg (mt same.mp holds), if_neg holds]
    exact second holds

theorem validate_printable (printable : b.Printable) (stored : ¬ OnGenesis hash blocks b) :
    Agrees (validate hash blocks.toLua (some b.toLua)) (validateBlock hash blocks b) := by
  have logged {extra : Bytes} {after : Blocks} {validity : BlockValidity} :
      Agrees (b.toLua.judged hash extra validity) (after, validity) :=
    judged_iff.mpr ⟨printable, rfl⟩
  have height : b.toLua.height.value = b.height := by
    rw [Block.toLua, LuaNumber.ofUInt64_of_lt printable.height, LuaNumber.value_integer]
  have seen : (blocks.toLua (b.blockHash hash)).isSome =
      (blocks.lookup (b.blockHash hash)).isSome :=
    Option.isSome_map
  unfold validate validateBlock
  simp only [Block.blockHash_toLua printable.height]
  refine .ite (by rw [seen]) (fun _ => logged) fun unseen => ?_
  refine .ite Iff.rfl (fun _ => logged) fun hard => ?_
  refine .ite (by omega) (fun _ => logged) fun _ => ?_
  refine .ite (and_congr_right' Blocks.toLua_eq_none) (fun _ => logged) fun orphan => ?_
  refine .ite (and_congr_left' (by omega)) (fun _ => logged) fun _ => ?_
  refine .ite (by omega) (fun above => ?_) fun _ => logged
  obtain ⟨prev, found⟩ := exists_predecessor stored unseen hard orphan above
  have same := prev.toLua_height_iff printable.height above
  have shown : blocks.toLua b.toLua.prevHash = some prev.toLua := by
    rw [Blocks.toLua, Block.toLua, found, Option.map_some]
  have accessed : blocks.access b.prevHash = (blocks, prev) := by simp only [Blocks.access, found]
  rw [shown, accessed]
  exact .ite (not_congr same) (fun _ => logged) fun _ => logged

theorem OnGenesis.validate (onGenesis : OnGenesis hash blocks b) (small : b.height < 2 ^ 63) :
    validate hash blocks.toLua (some b.toLua) = .error .indexNil := by
  have height : b.toLua.height.value = b.height := by
    rw [Block.toLua, LuaNumber.ofUInt64_of_lt small, LuaNumber.value_integer]
  have high := onGenesis.high
  have root : b.toLua.prevHash = genesisHash hash := onGenesis.root
  have unseen := Blocks.toLua_eq_none.mpr onGenesis.absent
  have unstored := Blocks.toLua_eq_none.mpr onGenesis.unstored
  unfold Blockchain.validate
  simp only [Block.blockHash_toLua small, unseen, onGenesis.hard, height, root,
    unstored, Option.isSome_none, ne_eq, not_true_eq_false, and_false,
    false_and, if_false, Bool.false_eq_true]
  rw [if_neg (by omega), if_pos (by omega)]

/-- The two judgements of a block, whatever blocks are stored.  The C++ node
always returns one.  The script returns the same one, except where it stops
with an error: it cannot print a height from `2 ^ 63` on or a miner with a zero
byte, and for a block above the first one whose predecessor is the genesis
block, it asks for the height of a block that is not stored. -/
theorem validate_agrees_iff (hash : Bytes → Bytes) (blocks : Blocks) (b : Block) :
    (∃ line, validate hash blocks.toLua (some b.toLua) =
        .ok (line, (validateBlock hash blocks b).2)) ↔
      b.height < 2 ^ 63 ∧ 0 ∉ b.miner ∧ ¬ OnGenesis hash blocks b := by
  constructor
  · rintro ⟨line, returned⟩
    obtain ⟨small, noZeros⟩ := printable_of_validate returned
    refine ⟨small, noZeros, fun onGenesis => ?_⟩
    rw [onGenesis.validate small] at returned
    cases returned
  · rintro ⟨small, noZeros, stored⟩
    exact validate_printable ⟨small, noZeros⟩ stored

def secondOnGenesis : Block where
  prevHash := genesisHash lowHash
  height := 2

def zeroMiner : Block where
  miner := [0]
  prevHash := genesisHash lowHash
  height := 1

def tooHigh : Block where
  height := 2 ^ 63

/-- On the empty store the script stops where the C++ node judges these blocks
invalid, valid and without a parent. -/
theorem validate_stops :
    (validateBlock lowHash ∅ secondOnGenesis).2 = .invalid ∧
      validate lowHash (Blocks.toLua ∅) (some secondOnGenesis.toLua) = .error .indexNil ∧
      (validateBlock lowHash ∅ zeroMiner).2 = .valid ∧
      validate lowHash (Blocks.toLua ∅) (some zeroMiner.toLua) = .error .stringContainsZeros ∧
      (validateBlock lowHash ∅ tooHigh).2 = .noParent ∧
      validate lowHash (Blocks.toLua ∅) (some tooHigh.toLua) = .error .noIntegerRepresentation := by
  decide +kernel

end AutomatonCore.Blockchain
