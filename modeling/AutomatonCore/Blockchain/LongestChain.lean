import AutomatonCore.Library.Ancestry
import AutomatonCore.Blockchain.BlockchainNode

/-!
# The main chain is the longest one
-/

namespace AutomatonCore.Blockchain

open Io Library List

namespace Blocks

/-- The parent of a block; a block of height zero has none. -/
def parent (blocks : Blocks) (key : Bytes) : Option Bytes :=
  (blocks.lookup key).bind fun b =>
    if b.height = 0 then none else some b.prevHash

variable {k prev : Bytes} {before after : Blocks}

theorem parent_eq_some {blocks : Blocks} :
    blocks.parent k = some prev ↔ ∃ b, blocks.lookup k = some b ∧ b.height ≠ 0 ∧
      b.prevHash = prev := by
  simp only [parent, Option.bind_eq_some_iff, Option.ite_none_left_eq_some,
    Option.some.injEq, ne_eq]

/-- Nothing is removed or overwritten. -/
def Grows (before after : Blocks) : Prop :=
  ∀ key b, before.lookup key = some b → after.lookup key = some b

theorem Grows.refl (blocks : Blocks) : blocks.Grows blocks := fun _ _ found => found

theorem grows_insert {blocks : Blocks} (b : Block) (absent : blocks.lookup k = none) :
    blocks.Grows (blocks.insert k b) := by
  intro other c found
  have ne : other ≠ k := by
    rintro rfl
    rw [absent] at found
    contradiction
  rw [AList.lookup_insert_ne ne]
  exact found

theorem lookup_insert_cases {blocks : Blocks} {other : Bytes}
    {b c : Block} (found : (blocks.insert k b).lookup other = some c) :
    c = b ∨ blocks.lookup other = some c := by
  by_cases same : other = k
  · rw [same, AList.lookup_insert] at found
    exact .inl (Option.some.inj found).symm
  · rw [AList.lookup_insert_ne same] at found
    exact .inr found

theorem Grows.parent (grows : before.Grows after)
    (k prev : Bytes) (link : before.parent k = some prev) : after.parent k = some prev := by
  obtain ⟨b, found, high, rfl⟩ := parent_eq_some.mp link
  exact parent_eq_some.mpr ⟨b, grows k b found, high, rfl⟩

theorem access_of_parent {blocks : Blocks} (link : blocks.parent k = some prev) :
    (blocks.access k).1 = blocks ∧ (blocks.access k).2.prevHash = prev := by
  obtain ⟨b, found, -, rfl⟩ := parent_eq_some.mp link
  simp [access, found]

abbrev Leads (hash : Bytes → Bytes) (blocks : Blocks) (key : Bytes) (path : List Bytes) : Prop :=
  Path blocks.parent (genesisHash hash) key path

/-- The parents of a block lead to the genesis hash, and the height of the
block counts them. -/
structure Proper (hash : Bytes → Bytes) (blocks : Blocks) (key : Bytes) (b : Block) : Prop where
  keyed : b.blockHash hash = key
  notGenesis : key ≠ genesisHash hash
  hard : ¬ getTarget < key
  counted : ∃ path, blocks.Leads hash b.prevHash path ∧ b.height = path.length + 1

theorem Proper.height_ne_zero {hash : Bytes → Bytes} {blocks : Blocks}
    {b : Block} (proper : blocks.Proper hash k b) : b.height ≠ 0 := by
  obtain ⟨path, -, height⟩ := proper.counted
  omega

theorem Proper.mono {hash : Bytes → Bytes} {b : Block} (proper : before.Proper hash k b)
    (grows : before.Grows after) : after.Proper hash k b := by
  obtain ⟨path, leads, height⟩ := proper.counted
  exact ⟨proper.keyed, proper.notGenesis, proper.hard, path, leads.mono grows.parent, height⟩

/-- Every entry is proper, or the default block that the subscript operator
makes for the genesis hash. -/
def Consistent (hash : Bytes → Bytes) (blocks : Blocks) : Prop :=
  ∀ key b, blocks.lookup key = some b → (key = genesisHash hash ∧ b = {}) ∨ blocks.Proper hash key b

namespace Consistent

variable {hash : Bytes → Bytes} {blocks : Blocks}

theorem empty : Consistent hash ∅ := by
  intro k b found
  simp at found

theorem proper (consistent : blocks.Consistent hash) {k : Bytes}
    {b : Block} (found : blocks.lookup k = some b) (high : b.height ≠ 0) :
    blocks.Proper hash k b := by
  rcases consistent k b found with ⟨-, rfl⟩ | proper
  · exact absurd rfl high
  · exact proper

theorem rootless (consistent : blocks.Consistent hash) :
    blocks.parent (genesisHash hash) = none := by
  by_contra linked
  obtain ⟨prev, link⟩ := Option.ne_none_iff_exists'.mp linked
  obtain ⟨b, found, high, -⟩ := parent_eq_some.mp link
  exact (consistent.proper found high).notGenesis rfl

theorem height_eq (consistent : blocks.Consistent hash) {k : Bytes}
    {b : Block} {path : List Bytes} (found : blocks.lookup k = some b)
    (high : b.height ≠ 0) (leads : blocks.Leads hash k path) : b.height = path.length := by
  have link := parent_eq_some.mpr ⟨b, found, high, rfl⟩
  obtain ⟨shorter, rfl, rest⟩ := leads.child_inv consistent.rootless link
  obtain ⟨other, counted, height⟩ := (consistent.proper found high).counted
  obtain rfl := rest.unique consistent.rootless counted
  simpa using height

theorem insert (consistent : blocks.Consistent hash) {b : Block}
    (absent : blocks.lookup (b.blockHash hash) = none)
    (proper : blocks.Proper hash (b.blockHash hash) b) :
    Consistent hash (blocks.insert (b.blockHash hash) b) := by
  have grows := grows_insert b absent
  intro k c found
  by_cases same : k = b.blockHash hash
  · subst same
    rw [AList.lookup_insert] at found
    cases found
    exact .inr (proper.mono grows)
  · rw [AList.lookup_insert_ne same] at found
    exact (consistent k c found).imp_right fun proper => proper.mono grows

theorem insert_default (consistent : blocks.Consistent hash)
    (absent : blocks.lookup (genesisHash hash) = none) :
    Consistent hash (blocks.insert (genesisHash hash) {}) := by
  intro k c found
  by_cases same : k = genesisHash hash
  · subst same
    rw [AList.lookup_insert] at found
    exact .inl ⟨rfl, (Option.some.inj found).symm⟩
  · rw [AList.lookup_insert_ne same] at found
    exact (consistent k c found).imp_right fun proper => proper.mono (grows_insert {} absent)

end Consistent

end Blocks

/-! ## One block -/

/-- What `validate_block` asks of a block if the store is consistent. -/
structure Acceptable (hash : Bytes → Bytes) (blocks : Blocks) (b : Block) : Prop where
  absent : blocks.lookup (b.blockHash hash) = none
  hard : ¬ getTarget < b.blockHash hash
  parent : b.height = 1 ∧ b.prevHash = genesisHash hash ∨
    ∃ previous, blocks.lookup b.prevHash = some previous ∧
    previous.height ≠ 0 ∧ b.height = previous.height + 1

theorem Acceptable.validateBlock {hash : Bytes → Bytes} {blocks : Blocks}
    {b : Block} (acceptable : Acceptable hash blocks b) :
    validateBlock hash blocks b = (blocks, .valid) := by
  obtain ⟨absent, hard, parent⟩ := acceptable
  rcases parent with ⟨first, root⟩ | ⟨prev, found, high, height⟩
  · simp [Blockchain.validateBlock, absent, hard, first, root]
  · simp [Blockchain.validateBlock, absent, hard, height, found, high,
      Blocks.access, pos_of_ne_zero high]

theorem acceptable_of_valid {hash : Bytes → Bytes} {blocks : Blocks}
    {b : Block} (judged : (validateBlock hash blocks b).2 = .valid) : Acceptable hash blocks b := by
  unfold validateBlock at judged
  simp only at judged
  split_ifs at judged with stored easy ground orphan stray high mismatch
  · refine ⟨by simpa using stored, easy, .inr ?_⟩
    cases found : blocks.lookup b.prevHash with
    | none =>
      -- the default block has height zero
      simp only [Blocks.access, found] at mismatch
      omega
    | some prev =>
      simp only [Blocks.access, found] at mismatch
      exact ⟨prev, rfl, by omega, by omega⟩
  · have first : b.height = 1 := by omega
    refine ⟨by simpa using stored, easy, .inl ⟨first, ?_⟩⟩
    by_contra ne
    exact stray ⟨first, ne⟩

theorem Acceptable.counted {hash : Bytes → Bytes} {blocks : Blocks}
    {b : Block} (acceptable : Acceptable hash blocks b) (consistent : blocks.Consistent hash) :
    ∃ path, blocks.Leads hash b.prevHash path ∧ b.height = path.length + 1 := by
  rcases acceptable.parent with
    ⟨first, root⟩ | ⟨prev, found, high, height⟩
  · exact ⟨[], root ▸ .root, first⟩
  · obtain ⟨path, leads, counted⟩ := (consistent.proper found high).counted
    have link := Blocks.parent_eq_some.mpr ⟨prev, found, high, rfl⟩
    refine ⟨path ++ [b.prevHash], .child link leads, ?_⟩
    simp only [length_append, length_singleton]
    omega

theorem Acceptable.proper {hash : Bytes → Bytes} {blocks : Blocks}
    {b : Block} (acceptable : Acceptable hash blocks b) (consistent : blocks.Consistent hash)
    (notGenesis : b.blockHash hash ≠ genesisHash hash) : blocks.Proper hash (b.blockHash hash) b :=
  ⟨rfl, notGenesis, acceptable.hard, acceptable.counted consistent⟩

/-- The block asks for the genesis block as one that is stored. -/
structure OnGenesis (hash : Bytes → Bytes) (blocks : Blocks) (b : Block) : Prop where
  absent : blocks.lookup (b.blockHash hash) = none
  hard : ¬ getTarget < b.blockHash hash
  high : 1 < b.height
  root : b.prevHash = genesisHash hash
  unstored : blocks.lookup (genesisHash hash) = none

theorem exists_predecessor {hash : Bytes → Bytes} {blocks : Blocks}
    {b : Block} (stored : ¬ OnGenesis hash blocks b)
    (unseen : ¬ (blocks.lookup (b.blockHash hash)).isSome = true)
    (hard : ¬ getTarget < b.blockHash hash)
    (orphan : ¬ (b.prevHash ≠ genesisHash hash ∧ blocks.lookup b.prevHash = none))
    (above : b.height > 1) : ∃ prev, blocks.lookup b.prevHash = some prev := by
  rw [← Option.ne_none_iff_exists']
  intro missing
  have root : b.prevHash = genesisHash hash := by
    by_contra ne
    exact orphan ⟨ne, missing⟩
  exact stored ⟨by simpa using unseen, hard, above, root, root ▸ missing⟩

theorem OnGenesis.validateBlock_blocks {hash : Bytes → Bytes}
    {blocks : Blocks} {b : Block} (onGenesis : OnGenesis hash blocks b) :
    (validateBlock hash blocks b).1 = blocks.insert (genesisHash hash) {} := by
  obtain ⟨absent, hard, high, root, unstored⟩ := onGenesis
  have accessed : blocks.access (genesisHash hash) = (blocks.insert (genesisHash hash) {}, {}) := by
    simp only [Blocks.access, unstored]
  have mismatch : 0 ≠ b.height - 1 := by omega
  have ground : ¬ b.height < 1 := by omega
  simp [validateBlock, absent, hard, root, accessed, ground, high, mismatch]

theorem validateBlock_unchanged {hash : Bytes → Bytes} {blocks : Blocks}
    {b : Block} (stored : ¬ OnGenesis hash blocks b) :
    (validateBlock hash blocks b).1 = blocks := by
  have tested {condition : Prop} [Decidable condition]
      {yes no : Blocks × BlockValidity} (first : yes.1 = blocks)
      (second : ¬ condition → no.1 = blocks) : (if condition then yes else no).1 = blocks := by
    split
    · exact first
    · exact second ‹_›
  unfold validateBlock
  refine tested rfl fun unseen => tested rfl fun hard => tested rfl fun _ =>
    tested rfl fun orphan => tested rfl fun _ => ?_
  split
  · obtain ⟨prev, found⟩ := exists_predecessor stored unseen hard orphan ‹_›
    have accessed : (blocks.access b.prevHash).1 = blocks := by simp only [Blocks.access, found]
    exact tested accessed fun _ => accessed
  · rfl

theorem validateBlock_blocks (hash : Bytes → Bytes) (blocks : Blocks) (b : Block) :
    (validateBlock hash blocks b).1 = blocks ∨ blocks.lookup (genesisHash hash) = none ∧
      (validateBlock hash blocks b).1 = blocks.insert (genesisHash hash) {} := by
  by_cases onGenesis : OnGenesis hash blocks b
  · exact .inr ⟨onGenesis.unstored, onGenesis.validateBlock_blocks⟩
  · exact .inl (validateBlock_unchanged onGenesis)

/-- The loop ends where the chain has the path already. -/
theorem rewriteChain_eq {hash : Bytes → Bytes} {blocks : Blocks}
    (rootless : blocks.parent (genesisHash hash) = none) {k : Bytes}
    {path : List Bytes} (leads : blocks.Leads hash k path)
    {chain : List Bytes} (room : path.length ≤ chain.length) {tip : Bytes}
    (main : blocks.Leads hash tip (chain.take path.length)) :
    ∃ kept ≤ path.length, rewriteChain blocks chain k path.length =
          ⟨blocks, path ++ chain.drop path.length, kept⟩ ∧
        path.take kept = chain.take kept := by
  induction leads generalizing chain tip with
  | root => exact ⟨0, le_rfl, rfl, rfl⟩
  | @child k prev path link rest ih =>
    simp only [length_append, length_singleton] at room main ⊢
    have split : chain.take (path.length + 1) = chain.take path.length ++ [chain[path.length]] :=
      take_succ_eq_append_getElem room
    unfold rewriteChain
    split_ifs with met
    · -- both are paths of the key at which they meet
      have met : chain[path.length] = k := by simpa [getElem?_eq_getElem room] using met
      rw [split, met] at main
      obtain ⟨_, link', main⟩ := main.middle
      cases link'.symm.trans link
      have same := main.unique rootless rest
      rw [same, met] at split
      refine ⟨path.length + 1, le_rfl, ?_, ?_⟩
      · rw [← split, take_append_drop]
      · rw [split, take_of_length_le (by simp)]
    · obtain ⟨same, next⟩ := Blocks.access_of_parent link
      simp only [same, next]
      have unchanged : ∀ count ≤ path.length,
          (chain.set path.length k).take count = chain.take count :=
        fun count small => take_set_of_le small
      have replaced : (chain.set path.length k).drop path.length =
          k :: chain.drop (path.length + 1) := by
        rw [drop_set, if_neg (lt_irrefl _), Nat.sub_self,
          drop_eq_getElem_cons room, set_cons_zero]
      rw [split] at main
      obtain ⟨_, main⟩ := main.append_inv
      rw [← unchanged _ (le_rfl)] at main
      have room : path.length ≤ (chain.set path.length k).length := by
        rw [length_set]
        omega
      obtain ⟨kept, small, result, agree⟩ := ih room main
      refine ⟨kept, by omega, ?_, ?_⟩
      · rw [result, replaced, append_cons]
      · rw [take_append_of_le_length small, agree, unchanged _ small]

namespace BlockchainCppNode

/-- The main chain is the path to one of the highest blocks. -/
structure LongestChain (hash : Bytes → Bytes) (node : BlockchainCppNode) : Prop where
  consistent : node.blocks.Consistent hash
  main : ∃ tip, node.blocks.Leads hash tip node.blockchain
  highest : ∀ key b, node.blocks.lookup key = some b → b.height ≤ node.blockchain.length

variable {hash : Bytes → Bytes} {messageSize : Message → Nat}
  {node : BlockchainCppNode} {peer : Nat} {b : Block}

/-- The outcomes of `on_block`. -/
inductive BlockStep (hash : Bytes → Bytes) (messageSize : Message → Nat)
    (node : BlockchainCppNode) (peer : Nat) (b : Block) : BlockchainCppNode × Outbox → Prop
  | rejected (judged : (validateBlock hash node.blocks b).2 ≠ .valid) :
      BlockStep hash messageSize node peer b
        ({ node with blocks := (validateBlock hash node.blocks b).1 }, [])
  | stored (acceptable : Acceptable hash node.blocks b) (low : b.height ≤ node.blockchain.length) :
      BlockStep hash messageSize node peer b
        ({ node with blocks := node.blocks.insert (b.blockHash hash) b }, [])
  | extended (acceptable : Acceptable hash node.blocks b)
      {after : BlockchainCppNode} {path : List Bytes} {kept : Nat}
      (leads : node.blocks.Leads hash b.prevHash path)
      (longest : path.length = node.blockchain.length)
      (height : b.height = path.length + 1)
      (small : kept ≤ path.length)
      (agree : path.take kept = node.blockchain.take kept)
      (result : after =
        { node with
          blocks := node.blocks.insert (b.blockHash hash) b,
          blockchain := path ++ [b.blockHash hash] }) :
      BlockStep hash messageSize node peer b
        (after, after.gossip messageSize peer (gossipStart kept))

theorem LongestChain.rewriteChain_eq (sound : node.LongestChain hash)
    (notGenesis : b.blockHash hash ≠ genesisHash hash) (acceptable : Acceptable hash node.blocks b)
    (height : b.height = node.blockchain.length + 1) :
    ∃ path, node.blocks.Leads hash b.prevHash path ∧ path.length = node.blockchain.length ∧
      ∃ kept ≤ path.length, rewriteChain (node.blocks.insert (b.blockHash hash) b)
            (node.blockchain ++ [b.blockHash hash]) b.prevHash node.blockchain.length =
          ⟨node.blocks.insert (b.blockHash hash) b, path ++ [b.blockHash hash], kept⟩ ∧
        path.take kept = node.blockchain.take kept := by
  obtain ⟨path, leads, counted⟩ := acceptable.counted sound.consistent
  have longest : path.length = node.blockchain.length := by omega
  have grows := Blocks.grows_insert b acceptable.absent
  have consistent := sound.consistent.insert acceptable.absent
    (acceptable.proper sound.consistent notGenesis)
  obtain ⟨tip, main⟩ := sound.main
  have room : path.length ≤ (node.blockchain ++ [b.blockHash hash]).length := by
    rw [length_append, longest]
    exact Nat.le_add_right _ _
  have main : Blocks.Leads hash (node.blocks.insert (b.blockHash hash) b) tip
      ((node.blockchain ++ [b.blockHash hash]).take path.length) := by
    rw [take_left' longest.symm]
    exact main.mono grows.parent
  obtain ⟨kept, small, result, agree⟩ :=
    Blockchain.rewriteChain_eq consistent.rootless (leads.mono grows.parent) room main
  rw [longest, drop_left] at result
  rw [take_append_of_le_length (longest ▸ small)] at agree
  exact ⟨path, leads, longest, kept, small, result, agree⟩

theorem LongestChain.blockStep (sound : node.LongestChain hash)
    (notGenesis : b.blockHash hash ≠ genesisHash hash) (messageSize : Message → Nat) (peer : Nat) :
    BlockStep hash messageSize node peer b (node.onBlock hash messageSize peer b) := by
  unfold onBlock
  by_cases judged : (validateBlock hash node.blocks b).2 = .valid
  · have acceptable := acceptable_of_valid judged
    simp only [acceptable.validateBlock]
    by_cases height : b.height = node.blockchain.length + 1
    · obtain ⟨path, leads, longest, kept, small, result, agree⟩ :=
        sound.rewriteChain_eq notGenesis acceptable height
      simp only [if_pos height, result]
      exact .extended acceptable leads longest (by omega) small agree rfl
    · simp only [if_neg height]
      refine .stored acceptable ?_
      rcases acceptable.parent with
        ⟨first, -⟩ | ⟨prev, found, -, counted⟩
      · omega
      · have := sound.highest _ _ found
        omega
  · simp only [if_neg judged]
    exact .rejected judged

variable {result : BlockchainCppNode × Outbox}

theorem BlockStep.grows (step : BlockStep hash messageSize node peer b result) :
    node.blocks.Grows result.1.blocks := by
  cases step with
  | rejected judged =>
    rcases validateBlock_blocks hash node.blocks b with
      same | ⟨absent, inserted⟩
    · simp only [same]
      exact .refl _
    · simp only [inserted]
      exact Blocks.grows_insert {} absent
  | stored acceptable low => exact Blocks.grows_insert b acceptable.absent
  | extended acceptable leads longest height small agree result =>
    subst result
    exact Blocks.grows_insert b acceptable.absent

theorem BlockStep.lookup_self (step : BlockStep hash messageSize node peer b result)
    (acceptable : Acceptable hash node.blocks b) :
    result.1.blocks.lookup (b.blockHash hash) = some b := by
  cases step with
  | rejected judged =>
    rw [acceptable.validateBlock] at judged
    contradiction
  | stored acceptable low => exact AList.lookup_insert _
  | extended acceptable leads longest height small agree result =>
    subst result
    exact AList.lookup_insert _

variable {k : Bytes} {calls : List (Nat × Block)}

theorem BlockStep.lookup (step : BlockStep hash messageSize node peer b result)
    {c : Block} (found : result.1.blocks.lookup k = some c) (high : c.height ≠ 0) :
    node.blocks.lookup k = some c ∨ c = b ∧ Acceptable hash node.blocks b := by
  cases step with
  | rejected judged =>
    rcases validateBlock_blocks hash node.blocks b with
      same | ⟨-, default⟩
    · simp only [same] at found
      exact .inl found
    · simp only [default] at found
      refine .inl ((Blocks.lookup_insert_cases found).resolve_left ?_)
      rintro rfl
      exact high rfl
  | stored acceptable low =>
    exact (Blocks.lookup_insert_cases found).symm.imp_right fun same => ⟨same, acceptable⟩
  | extended acceptable leads longest height small agree result =>
    subst result
    exact (Blocks.lookup_insert_cases found).symm.imp_right fun same => ⟨same, acceptable⟩

theorem BlockStep.length_eq (step : BlockStep hash messageSize node peer b result) :
    result.1.blockchain.length =
      if (validateBlock hash node.blocks b).2 = .valid then max node.blockchain.length b.height
      else node.blockchain.length := by
  cases step with
  | rejected judged => rw [if_neg judged]
  | stored acceptable low => rw [acceptable.validateBlock, if_pos rfl, max_eq_left low]
  | extended acceptable leads longest height small agree result =>
    subst result
    rw [acceptable.validateBlock, max_eq_right (by omega)]
    simp [height]

/-- Whatever block arrives, the main chain stays the longest one. -/
theorem BlockStep.longestChain (sound : node.LongestChain hash)
    (notGenesis : b.blockHash hash ≠ genesisHash hash)
    (step : BlockStep hash messageSize node peer b result) : result.1.LongestChain hash := by
  have grows := step.grows
  have longer : node.blockchain.length ≤ result.1.blockchain.length := by
    rw [step.length_eq]
    split
    · exact le_max_left _ _
    · exact le_rfl
  obtain ⟨tip, main⟩ := sound.main
  -- blocks other than the new one are as high as before
  have inserted : ∀ k c height, height ≤ result.1.blockchain.length → c.height ≤ height →
      ∀ other d, (node.blocks.insert k c).lookup other = some d →
        d.height ≤ result.1.blockchain.length := by
    intro k c height low below other d found
    rcases Blocks.lookup_insert_cases found with rfl | before
    · omega
    · exact (sound.highest other d before).trans longer
  cases step with
  | rejected judged =>
    rcases validateBlock_blocks hash node.blocks b with
      same | ⟨absent, default⟩
    · simpa only [same] using sound
    · refine ⟨?_, ⟨tip, main.mono grows.parent⟩, ?_⟩
      · simp only [default]
        exact sound.consistent.insert_default absent
      · simp only [default]
        exact inserted _ _ _ (Nat.zero_le _) (le_rfl)
  | stored acceptable low =>
    exact ⟨sound.consistent.insert acceptable.absent
        (acceptable.proper sound.consistent notGenesis),
      ⟨tip, main.mono grows.parent⟩, inserted _ _ _ low (le_rfl)⟩
  | extended acceptable leads longest height small agree result =>
    subst result
    refine ⟨sound.consistent.insert acceptable.absent
        (acceptable.proper sound.consistent notGenesis),
      ⟨b.blockHash hash, .child ?_ (leads.mono grows.parent)⟩,
      inserted _ _ _ (le_of_eq ?_) (le_rfl)⟩
    · exact Blocks.parent_eq_some.mpr ⟨b, AList.lookup_insert _, by omega, rfl⟩
    · simp [height]

/-! ## Any number of blocks -/

def onBlocks (hash : Bytes → Bytes) (messageSize : Message → Nat)
    (node : BlockchainCppNode) (calls : List (Nat × Block)) : BlockchainCppNode :=
  calls.foldl (fun node call => (node.onBlock hash messageSize call.1 call.2).1) node

/-- The blocks that are judged valid in their turn. -/
def validBlocks (hash : Bytes → Bytes) (messageSize : Message → Nat) :
    BlockchainCppNode → List (Nat × Block) → List Block
  | _, [] => []
  | node, call :: calls =>
    let rest := validBlocks hash messageSize (node.onBlock hash messageSize call.1 call.2).1 calls
    if (validateBlock hash node.blocks call.2).2 = .valid then call.2 :: rest
    else rest

theorem LongestChain.onBlocks (sound : node.LongestChain hash)
    (notGenesis : ∀ call ∈ calls, call.2.blockHash hash ≠ genesisHash hash) :
    (node.onBlocks hash messageSize calls).LongestChain hash := by
  induction calls generalizing node with
  | nil => exact sound
  | cons call calls ih =>
    obtain ⟨head, tail⟩ := forall_mem_cons.mp notGenesis
    have step := sound.blockStep head messageSize call.1
    exact ih (step.longestChain sound head) tail

theorem LongestChain.fresh (empty : node.blocks = ∅)
    (short : node.blockchain = []) : node.LongestChain hash := by
  refine ⟨?_, ⟨genesisHash hash, ?_⟩, ?_⟩
  · rw [empty]
    exact .empty
  · rw [short]
    exact .root
  · intro k b found
    rw [empty] at found
    simp at found

theorem LongestChain.entry (sound : node.LongestChain hash) {i : Nat}
    (listed : node.blockchain[i]? = some k) :
    ∃ b, node.blocks.lookup k = some b ∧ b.blockHash hash = k ∧ b.height = i + 1 ∧ ¬ getTarget < k ∧
      (genesisHash hash :: node.blockchain)[i]? = some b.prevHash := by
  obtain ⟨inside, rfl⟩ := List.getElem?_eq_some_iff.mp listed
  have count : (node.blockchain.take i).length = i := length_take_of_le (le_of_lt inside)
  obtain ⟨tip, main⟩ := sound.main
  rw [← take_append_drop i node.blockchain, drop_eq_getElem_cons inside] at main
  obtain ⟨prev, link, leads⟩ := main.middle
  obtain ⟨b, found, high, rfl⟩ := Blocks.parent_eq_some.mp link
  have proper := sound.consistent.proper found high
  have height := sound.consistent.height_eq found high (.child link leads)
  rw [length_append, count] at height
  have before := leads.getElem?_length
  rw [count] at before
  refine ⟨b, found, proper.keyed, height, proper.hard, ?_⟩
  rw [← before, ← take_succ_cons, getElem?_take_of_succ]

theorem LongestChain.length_onBlocks (sound : node.LongestChain hash)
    (notGenesis : ∀ call ∈ calls, call.2.blockHash hash ≠ genesisHash hash) :
    (node.onBlocks hash messageSize calls).blockchain.length =
      ((node.validBlocks hash messageSize calls).map Block.height).foldl max
        node.blockchain.length := by
  induction calls generalizing node with
  | nil => rfl
  | cons call calls ih =>
    obtain ⟨head, tail⟩ := forall_mem_cons.mp notGenesis
    have step := sound.blockStep head messageSize call.1
    have rest := ih (step.longestChain sound head) tail
    rw [step.length_eq] at rest
    unfold validBlocks
    refine rest.trans ?_
    split
    · rfl
    · rfl

/-- Whatever blocks a fresh node handles, in whatever order: the main chain
links stored blocks of the heights one, two, and so on, it is as long as the
highest block that was judged valid, and the loop of `on_block` finds every
block that it looks up. -/
theorem onBlocks_longest (hash : Bytes → Bytes)
    (messageSize : Message → Nat) (node : BlockchainCppNode)
    (empty : node.blocks = ∅) (short : node.blockchain = []) (calls : List (Nat × Block))
    (notGenesis : ∀ call ∈ calls, call.2.blockHash hash ≠ genesisHash hash) :
    (∀ i k, (node.onBlocks hash messageSize calls).blockchain[i]? = some k →
      ∃ b, (node.onBlocks hash messageSize calls).blocks.lookup k = some b ∧
        b.blockHash hash = k ∧ b.height = i + 1 ∧ ¬ getTarget < k ∧
        (genesisHash hash ::
          (node.onBlocks hash messageSize calls).blockchain)[i]? = some b.prevHash) ∧
      (node.onBlocks hash messageSize calls).blockchain.length =
        ((node.validBlocks hash messageSize calls).map Block.height).foldl max 0 ∧
      ∀ earlier call later, calls = earlier ++ call :: later →
        let before := node.onBlocks hash messageSize earlier
        let judged := validateBlock hash before.blocks call.2
        let blocks := judged.1.insert (call.2.blockHash hash) call.2
        judged.2 = .valid →
        call.2.height = before.blockchain.length + 1 →
          (rewriteChain blocks (before.blockchain ++ [call.2.blockHash hash]) call.2.prevHash
            before.blockchain.length).blocks = blocks := by
  have sound : node.LongestChain hash := .fresh empty short
  refine ⟨?_, ?_, ?_⟩
  · intro i k listed
    exact (sound.onBlocks notGenesis).entry listed
  · rw [sound.length_onBlocks notGenesis, short, length_nil]
  · rintro earlier call later rfl before judged blocks valid height
    have reached : before.LongestChain hash := by
      refine sound.onBlocks fun call mem => ?_
      exact notGenesis call (mem_append_left _ mem)
    have head : call.2.blockHash hash ≠ genesisHash hash := notGenesis call (by simp)
    have acceptable := acceptable_of_valid valid
    obtain ⟨path, -, -, kept, -, result, -⟩ := reached.rewriteChain_eq head acceptable height
    simp only [blocks, judged, acceptable.validateBlock, result]

def lowHash (data : Bytes) : Bytes :=
  0 :: 0 :: 0 :: data

def forkCalls : List (Nat × Block) :=
  let main : Block :=
    { miner := text "A", prevHash := genesisHash lowHash, height := 1 }
  let other : Block :=
    { miner := text "B", prevHash := genesisHash lowHash, height := 1 }
  let longer : Block :=
    { miner := text "B", prevHash := other.blockHash lowHash, height := 2 }
  let wrong : Block :=
    { miner := text "C", prevHash := genesisHash lowHash, height := 5 }
  [(1, longer), (2, main), (1, wrong), (1, other), (2, main), (1, longer)]

theorem onBlocks_longest_fork :
    let node : BlockchainCppNode := { nodeid := text "A" }
    let final := node.onBlocks lowHash (fun _ => 0) forkCalls
    final.blockchain =
        (node.validBlocks lowHash (fun _ => 0) forkCalls).tail.map (Block.blockHash lowHash) ∧
      final.blockchain.length =
        ((node.validBlocks lowHash (fun _ => 0) forkCalls).map Block.height).foldl max 0 :=
  ⟨by decide +kernel, (onBlocks_longest lowHash (fun _ => 0) { nodeid := text "A" } rfl rfl
      forkCalls (by decide +kernel)).2.1⟩

end BlockchainCppNode

end AutomatonCore.Blockchain
