import AutomatonCore.Library.GuardedRun
import AutomatonCore.Blockchain.BlockHash
import AutomatonCore.Blockchain.Gossip

/-!
# What a rejected block leaves behind

Nothing is assumed of the hash function here.
-/

namespace AutomatonCore.Blockchain

open Io Library List

namespace Blocks

def Linked (blocks : Blocks) : Prop :=
  ∀ key b, blocks.lookup key = some b → b.height = 1 ∨
    ∃ previous, blocks.lookup b.prevHash = some previous ∧ b.height = previous.height + 1

theorem Linked.below {blocks : Blocks} (linked : blocks.Linked) {k : Bytes} {c : Block}
    (stored : blocks.lookup k = some c) {height : Nat} (high : c.height = height + 1) :
    height ≠ 0 → ∃ d, blocks.lookup c.prevHash = some d ∧ d.height = height := by
  intro pos
  rcases linked k c stored with first | ⟨d, below, above⟩
  · omega
  · exact ⟨d, below, by omega⟩

theorem Linked.insert {hash : Bytes → Bytes} {blocks : Blocks} {b : Block}
    (linked : blocks.Linked) (acceptable : Acceptable hash blocks b) :
    Linked (blocks.insert (b.blockHash hash) b) := by
  have grows := grows_insert b acceptable.absent
  intro k c found
  rcases lookup_insert_cases found with rfl | before
  · rcases acceptable.parent with
      ⟨first, _⟩ | ⟨prev, below, _, above⟩
    · exact .inl first
    · exact .inr ⟨prev, grows _ _ below, above⟩
  · rcases linked k c before with first | ⟨prev, below, above⟩
    · exact .inl first
    · exact .inr ⟨prev, grows _ _ below, above⟩

end Blocks

namespace BlockchainCppNode

/-- `static_cast<size_t>(b.height) - 1` in `s_debug_html`. -/
def heightIndex (height : Nat) : Nat :=
  (height + 2 ^ 64 - 1) % 2 ^ 64

/-- What `s_debug_html` finds out about every stored block: whether it belongs
to the main chain.  `none` where the vector is read outside its bounds. -/
def debugBlocks (node : BlockchainCppNode) : Option (List (Bytes × Bool)) :=
  node.blocks.entries.mapM fun entry =>
    (node.blockchain[heightIndex entry.2.height]?).map fun key => (entry.1, entry.1 == key)

inductive Event where
  | received (peer : Nat) (message : Message)
  | connected (peer : Nat)
  | update

variable (hash : Bytes → Bytes) (messageSize : Message → Nat)

def handle (node : BlockchainCppNode) : Event → Except Unit BlockchainCppNode
  | .received peer message => .ok (node.onBlobReceived hash messageSize peer message).1
  | .connected peer => .ok (node.onConnected messageSize peer).1
  | .update =>
    match node.update hash messageSize with
    | some result => .ok result.1
    | none => .error ()

/-- No block asks for the genesis block as one that is stored. -/
def Harmless (node : BlockchainCppNode) : Event → Prop
  | .received _ (.block b) => ¬ OnGenesis hash node.blocks b
  | _ => True

/-! ## Heights -/

/-- The debug view trusts the heights of all entries. -/
structure Stacked (node : BlockchainCppNode) : Prop where
  heights :
    ∀ key b, node.blocks.lookup key = some b → 1 ≤ b.height ∧ b.height ≤ node.blockchain.length
  linked : node.blocks.Linked
  listed : ∀ key ∈ node.blockchain, (node.blocks.lookup key).isSome

variable {hash messageSize} {node : BlockchainCppNode} {peer : Nat}
  {b : Block}

theorem rewriteChain_stacked {blocks : Blocks} (linked : blocks.Linked) (height : Nat) {k : Bytes}
    (found : height ≠ 0 → ∃ c, blocks.lookup k = some c ∧ c.height = height)
    {chain : List Bytes} (listed : ∀ k ∈ chain, (blocks.lookup k).isSome) :
    (rewriteChain blocks chain k height).blocks = blocks ∧
      (rewriteChain blocks chain k height).blockchain.length = chain.length ∧
      ∀ other ∈ (rewriteChain blocks chain k height).blockchain, (blocks.lookup other).isSome := by
  induction height generalizing k chain with
  | zero => exact ⟨rfl, rfl, listed⟩
  | succ height ih =>
    obtain ⟨c, stored, high⟩ := found (by omega)
    have accessed : blocks.access k = (blocks, c) := by rw [Blocks.access, stored]
    unfold rewriteChain
    split
    · exact ⟨rfl, rfl, listed⟩
    · simp only [accessed]
      have kept : ∀ other ∈ chain.set height k, (blocks.lookup other).isSome := by
        intro other mem
        rcases mem_or_eq_of_mem_set mem with old | rfl
        · exact listed other old
        · rw [stored]
          rfl
      obtain ⟨same, length, all⟩ := ih (linked.below stored high) kept
      exact ⟨same, length.trans length_set, all⟩

theorem Stacked.height_bounds (stacked : node.Stacked)
    (acceptable : Acceptable hash node.blocks b) :
    1 ≤ b.height ∧ b.height ≤ node.blockchain.length + 1 := by
  rcases acceptable.parent with ⟨first, _⟩ | ⟨prev, found, _, above⟩
  · omega
  · have := stacked.heights _ _ found
    omega

theorem Stacked.onBlock_valid (stacked : node.Stacked)
    (acceptable : Acceptable hash node.blocks b) :
    (node.onBlock hash messageSize peer b).1.Stacked := by
  have grows := Blocks.grows_insert b acceptable.absent
  have linked := stacked.linked.insert acceptable
  have bounds := stacked.height_bounds acceptable
  have stored :
      ∀ k ∈ node.blockchain, ((node.blocks.insert (b.blockHash hash) b).lookup k).isSome := by
    intro k mem
    obtain ⟨c, found⟩ := Option.isSome_iff_exists.mp (stacked.listed k mem)
    rw [grows k c found]
    rfl
  unfold BlockchainCppNode.onBlock
  simp only [acceptable.validateBlock, if_true]
  by_cases height : b.height = node.blockchain.length + 1
  · have below := linked.below (AList.lookup_insert _) height
    have listed : ∀ k ∈ node.blockchain ++ [b.blockHash hash],
          ((node.blocks.insert (b.blockHash hash) b).lookup k).isSome := by
      intro k mem
      rcases mem_append.mp mem with old | new
      · exact stored k old
      · rw [mem_singleton.mp new, AList.lookup_insert]
        rfl
    obtain ⟨same, length, all⟩ := rewriteChain_stacked linked node.blockchain.length below listed
    rw [length_append] at length
    simp only [if_pos height]
    refine ⟨?_, ?_, ?_⟩
    · intro k c found
      rw [same] at found
      rw [length]
      rcases Blocks.lookup_insert_cases found with rfl | before
      · exact bounds
      · have := stacked.heights k c before
        omega
    · rw [same]
      exact linked
    · rw [same]
      exact all
  · simp only [if_neg height]
    refine ⟨?_, linked, stored⟩
    intro k c found
    rcases Blocks.lookup_insert_cases found with rfl | before
    · dsimp only
      omega
    · exact stacked.heights k c before

theorem Stacked.onBlock (stacked : node.Stacked) (harmless : ¬ OnGenesis hash node.blocks b) :
    (node.onBlock hash messageSize peer b).1.Stacked := by
  by_cases judged : (validateBlock hash node.blocks b).2 = .valid
  · exact stacked.onBlock_valid (acceptable_of_valid judged)
  · unfold BlockchainCppNode.onBlock
    simp only [if_neg judged, validateBlock_unchanged harmless]
    exact ⟨stacked.heights, stacked.linked, stacked.listed⟩

theorem Stacked.fresh (empty : node.blocks = ∅) (short : node.blockchain = []) : node.Stacked := by
  refine ⟨?_, ?_, ?_⟩
  · intro k b found
    rw [empty] at found
    cases found
  · intro k b found
    rw [empty] at found
    cases found
  · rw [short]
    simp

theorem mineLoop_keeps {attempts : Nat} {c : Block} {nonce : Bytes}
    {mined : Bytes × Block} (mines : mineLoop hash c nonce attempts = some mined) :
    mined.2.prevHash = c.prevHash ∧ (mined.2.height ≠ 0 → mined.2.height = c.height) := by
  induction attempts generalizing c nonce with
  | zero =>
    cases mines
    exact ⟨rfl, fun high => absurd rfl high⟩
  | succ attempts ih =>
    unfold mineLoop at mines
    simp only at mines
    split at mines
    · obtain ⟨next, _, mines⟩ := Option.bind_eq_some_iff.mp mines
      have kept := ih mines
      exact kept
    · cases mines
      exact ⟨rfl, fun _ => rfl⟩

theorem Stacked.mined_harmless (stacked : node.Stacked)
    {mined : BlockchainCppNode × Block} (mines : node.mine hash = some mined)
    (high : mined.2.height ≠ 0) : ¬ OnGenesis hash node.blocks mined.2 := by
  obtain ⟨result, loop, returned⟩ := Option.bind_eq_some_iff.mp mines
  cases returned
  obtain ⟨prev, height⟩ := mineLoop_keeps loop
  intro onGenesis
  have above := onGenesis.high
  rw [height high] at above
  have ne : node.blockchain ≠ [] := ne_nil_of_length_pos (by simpa using above)
  have root : node.blockchain.getLast ne = genesisHash hash := by
    rw [← onGenesis.root, prev]
    rw [getCurrentHash, getLastD_eq_getLast?, getLast?_eq_some_getLast ne, Option.getD_some]
  have stored := stacked.listed _ (getLast_mem ne)
  rw [root, onGenesis.unstored] at stored
  cases stored

theorem Stacked.of_nonce (stacked : node.Stacked) (nonce : Bytes) :
    Stacked { node with nonce := nonce } :=
  ⟨stacked.heights, stacked.linked, stacked.listed⟩

theorem Stacked.handle (stacked : node.Stacked) {event : Event}
    (harmless : node.Harmless hash event) {next : BlockchainCppNode}
    (handled : node.handle hash messageSize event = .ok next) : next.Stacked := by
  cases event with
  | received peer msg =>
    cases handled
    cases msg with
    | hello name => exact stacked
    | block b => exact stacked.onBlock harmless
  | connected peer =>
    cases handled
    exact ⟨stacked.heights, stacked.linked, stacked.listed⟩
  | update =>
    unfold BlockchainCppNode.handle at handled
    cases mines : node.mine hash with
    | none => simp [BlockchainCppNode.update, mines] at handled
    | some mined =>
      obtain ⟨nonce, same⟩ := Network.mine_eq_some mines
      rw [Network.update_of_mine mines] at handled
      cases handled
      rw [same]
      split
      next high =>
        exact (stacked.of_nonce nonce).onBlock (stacked.mined_harmless mines high)
      · exact stacked.of_nonce nonce

theorem Stacked.debugBlocks (stacked : node.Stacked) :
    ∃ report, node.debugBlocks = some report := by
  have inside : ∀ e ∈ node.blocks.entries, heightIndex e.2.height < node.blockchain.length := by
    intro e mem
    have found : node.blocks.lookup e.1 = some e.2 := AList.mem_lookup_iff.mpr mem
    have bounds := stacked.heights _ _ found
    unfold heightIndex
    omega
  unfold BlockchainCppNode.debugBlocks
  generalize node.blocks.entries = entries at inside ⊢
  induction entries with
  | nil => exact ⟨[], rfl⟩
  | cons e entries ih =>
    rw [forall_mem_cons] at inside
    obtain ⟨report, later⟩ := ih inside.2
    rw [mapM_cons, getElem?_eq_getElem inside.1, later]
    exact ⟨_, rfl⟩

/-! ## Rejected blocks -/

theorem onBlock_rejected (judged : (validateBlock hash node.blocks b).2 ≠ .valid) :
    (node.onBlock hash messageSize peer b).1.blocks = (validateBlock hash node.blocks b).1 ∧
      (node.onBlock hash messageSize peer b).1.blockchain = node.blockchain := by
  unfold BlockchainCppNode.onBlock
  simp only [if_neg judged, and_self]

/-- `validate_block` reads the predecessor with the subscript operator of the
map, which makes an entry for the genesis hash. -/
theorem rejected_unchanged_iff (judged : (validateBlock hash node.blocks b).2 ≠ .valid) :
    (node.onBlock hash messageSize peer b).1.blocks = node.blocks ∧
        (node.onBlock hash messageSize peer b).1.blockchain = node.blockchain ↔
      ¬ OnGenesis hash node.blocks b := by
  rw [(onBlock_rejected judged).1, (onBlock_rejected judged).2, and_iff_left rfl]
  constructor
  · intro same onGenesis
    have stored := onGenesis.validateBlock_blocks
    rw [same] at stored
    have absent := onGenesis.unstored
    rw [stored, AList.lookup_insert] at absent
    cases absent
  · exact validateBlock_unchanged

/-- A rejected block leaves no trace if and only if it does not ask for the
genesis block.  As long as no block does, all stored heights fit the main
chain, and the debug view reads it inside its bounds. -/
theorem rejected_traceless_iff (hash : Bytes → Bytes) (messageSize : Message → Nat) :
    (∀ (node : BlockchainCppNode) (peer : Nat) (b : Block),
      (validateBlock hash node.blocks b).2 ≠ .valid →
        ((node.onBlock hash messageSize peer b).1.blocks = node.blocks ∧
            (node.onBlock hash messageSize peer b).1.blockchain = node.blockchain ↔
          ¬ OnGenesis hash node.blocks b)) ∧
    (∀ (node reached : BlockchainCppNode) (events : List Event),
      node.blocks = ∅ → node.blockchain = [] →
        Guarded (handle hash messageSize) (Harmless hash) node events →
        events.foldlM (handle hash messageSize) node = .ok reached →
        (∀ k b, reached.blocks.lookup k = some b →
          1 ≤ b.height ∧ b.height ≤ reached.blockchain.length) ∧
        ∃ report, reached.debugBlocks = some report) := by
  constructor
  · intro node peer b judged
    exact rejected_unchanged_iff judged
  · intro node reached events empty short guarded ran
    have stacked : reached.Stacked :=
      Guarded.reached
        (fun _ _ _ stacked harmless handled => Stacked.handle stacked harmless handled)
        (Stacked.fresh empty short) guarded ran
    exact ⟨stacked.heights, stacked.debugBlocks⟩

def highBlock : Block :=
  { prevHash := genesisHash paddedHash, height := 2 }

def minedNode : BlockchainCppNode :=
  (BlockchainCppNode.onBlock paddedHash (fun _ => 0)
    { nodeid := text "A", distinctPeers := nodup_nil } 1 (minedBlock paddedHash)).1

/-- Its predecessor is stored, two heights below it. -/
def skippingBlock : Block :=
  { prevHash := (minedBlock paddedHash).blockHash paddedHash, height := 3 }

def skippedNode : BlockchainCppNode :=
  (minedNode.onBlock paddedHash (fun _ => 0) 2 skippingBlock).1

theorem rejected_traceless_skipping :
    (validateBlock paddedHash minedNode.blocks skippingBlock).2 = .invalid ∧
      (skippedNode.blocks = minedNode.blocks ∧ skippedNode.blockchain = minedNode.blockchain) ∧
      ∃ report, skippedNode.debugBlocks = some report := by
  have first : ¬ OnGenesis paddedHash ∅ (minedBlock paddedHash) :=
    fun onGenesis => absurd onGenesis.high (by decide)
  have second : ¬ OnGenesis paddedHash minedNode.blocks skippingBlock :=
    fun onGenesis => absurd onGenesis.root (by decide +kernel)
  have judged : (validateBlock paddedHash minedNode.blocks skippingBlock).2 = .invalid := by
    decide +kernel
  obtain ⟨traceless, safe⟩ := rejected_traceless_iff paddedHash fun _ => 0
  refine ⟨judged, (traceless minedNode 2 skippingBlock (by simp [judged])).mpr second, ?_⟩
  exact (safe { nodeid := text "A" } _
      [.received 1 (.block (minedBlock paddedHash)), .received 2 (.block skippingBlock)] rfl rfl
      ⟨first, fun _ handled => ⟨Except.ok.inj handled ▸ second, fun _ _ => trivial⟩⟩ rfl).2

theorem rejected_leaves_default :
    (validateBlock paddedHash ∅ highBlock).2 = .invalid ∧
      (BlockchainCppNode.onBlock paddedHash (fun _ => 0)
          { nodeid := text "A" } 1 highBlock).1.blocks ≠ ∅ ∧
      (BlockchainCppNode.onBlock paddedHash (fun _ => 0)
          { nodeid := text "A" } 1 highBlock).1.debugBlocks = none := by
  refine ⟨?_, ?_, ?_⟩
  · decide +kernel
  · intro same
    have keys := congrArg (fun blocks : Blocks => blocks.entries.length) same
    exact absurd keys (by decide +kernel)
  · decide +kernel

end BlockchainCppNode

end AutomatonCore.Blockchain
