import AutomatonCore.Blockchain.LuaValidate
import AutomatonCore.Blockchain.RejectedBlocks

/-!
# The blockchain script

`on_Block` of `examples/smartproto/blockchain` with all that it calls, next to
`on_block` of the C++ node.  Log lines other than those of `validate` cannot
fail and are left out, and so are the names of peers, which occur only there.
-/

namespace AutomatonCore.Blockchain

open Io Library List Script
open BlockchainCppNode (forkCalls lowHash)

/-- The tables of the script.  `conn` has the keys of its table in the order in
which `pairs` gives them; the key zero is the node itself. -/
structure LuaNode where
  blocks : LuaBlocks := fun _ => none
  blockchain : List Bytes := []
  conn : List Nat := [0]
  dBlocks : List (Nat × LuaBlock) := []

namespace LuaNode

def getBlock (hash : Bytes → Bytes) (node : LuaNode) (key : Bytes) : Option LuaBlock :=
  match node.blocks key with
  | some block => some block
  | none => if key = genesisHash hash then some ⟨[], [], .integer 0, []⟩ else none

/-- What `send_block` adds to `d_blocks`. -/
def sendBlock (hash : Bytes → Bytes) (node : LuaNode) (peer : Nat) (key : Bytes) :
    List (Nat × LuaBlock) :=
  match node.getBlock hash key with
  | none => []
  | some block => [(peer, block)]

def sendBlocks (hash : Bytes → Bytes) (node : LuaNode) (peer startBlock : Nat) :
    List (Nat × LuaBlock) :=
  (node.blockchain.drop (startBlock - 1)).flatMap (node.sendBlock hash peer)

def gossip (hash : Bytes → Bytes) (node : LuaNode) (peerFrom startBlock : Nat) :
    List (Nat × LuaBlock) :=
  node.conn.flatMap fun peer =>
    if peer ≠ peerFrom ∧ peer ≠ 0 then node.sendBlocks hash peer startBlock
    else []

/-- The loop of `on_Block`: the main chain and `block_index` after it. -/
def rewriteChain (blocks : LuaBlocks) (blockchain : List Bytes) (longestChainHash : Bytes) :
    Nat → Except LuaError (List Bytes × Nat)
  | 0 => .ok (blockchain, 0)
  | blockIndex + 1 =>
    if blockchain[blockIndex]? = some longestChainHash then .ok (blockchain, blockIndex + 1)
    else
      match blocks longestChainHash with
      | none => .error .indexNil
      | some block =>
        rewriteChain blocks (blockchain.set blockIndex longestChainHash) block.prevHash blockIndex

/-- `blocks[...]` is read without a test where the C++ node uses the subscript
operator of a map. -/
def onBlock (hash : Bytes → Bytes) (node : LuaNode) (peer : Nat) (block : LuaBlock) :
    Except LuaError LuaNode := do
  let (_, validity) ← validate hash node.blocks (some block)
  let bhash := block.blockHash hash
  if validity = .valid then
    let blocks := Function.update node.blocks bhash (some block)
    if block.height.value = node.blockchain.length + 1 then
      let (blockchain, blockIndex) ←
        rewriteChain blocks (node.blockchain ++ [bhash]) block.prevHash node.blockchain.length
      let node := { node with blocks, blockchain }
      return { node with dBlocks := node.dBlocks ++ node.gossip hash peer (blockIndex + 1) }
    else return { node with blocks }
  else return node

end LuaNode

/-! ## The loop and the gossip of the two nodes -/

variable {hash : Bytes → Bytes} {messageSize : Message → Nat} {b : Block} {lua : LuaNode}
  {cpp : BlockchainCppNode}

theorem Blocks.toLua_insert (blocks : Blocks) (k : Bytes) (b : Block) :
    Blocks.toLua (blocks.insert k b) = Function.update blocks.toLua k (some b.toLua) := by
  funext other
  by_cases same : other = k
  · subst same
    simp [Blocks.toLua]
  · simp [Blocks.toLua, same]

/-- While every block on the way is stored, the script does not stop in its
loop. -/
theorem LuaNode.rewriteChain_eq {blocks : Blocks} (linked : blocks.Linked) (height : Nat)
    {k : Bytes} (found : height ≠ 0 → ∃ c, blocks.lookup k = some c ∧ c.height = height)
    (chain : List Bytes) :
    ∃ rewritten, ∃ index ≤ height,
      Blockchain.rewriteChain blocks chain k height = ⟨blocks, rewritten, index⟩ ∧
        LuaNode.rewriteChain blocks.toLua chain k height = .ok (rewritten, index) := by
  induction height generalizing k chain with
  | zero => exact ⟨chain, 0, le_rfl, rfl, rfl⟩
  | succ height ih =>
    obtain ⟨c, stored, high⟩ := found (by omega)
    have accessed : blocks.access k = (blocks, c) := by rw [Blocks.access, stored]
    have shown : blocks.toLua k = some c.toLua := by rw [Blocks.toLua, stored, Option.map_some]
    unfold LuaNode.rewriteChain Blockchain.rewriteChain
    split
    · exact ⟨chain, height + 1, le_rfl, rfl, rfl⟩
    · simp only [accessed, shown]
      obtain ⟨rewritten, index, small, same⟩ := ih (linked.below stored high) (chain.set height k)
      exact ⟨rewritten, index, by omega, same⟩

/-- What the C++ node sends of blocks for its peers: those that are not too
long. -/
def sendable (messageSize : Message → Nat) (queued : List (Nat × Block)) : Outbox :=
  queued.flatMap fun entry =>
    if messageSize (.block entry.2) > Node.maxMessageSize then [] else [(entry.1, .block entry.2)]

/-- The script has the blocks, the main chain and the peers of the C++ node. -/
structure Mirrors (lua : LuaNode) (cpp : BlockchainCppNode) : Prop where
  blocks : lua.blocks = cpp.blocks.toLua
  blockchain : lua.blockchain = cpp.blockchain
  peers : lua.conn.filter (· ≠ 0) = cpp.connectedPeers

theorem flatMap_peers {α : Type} (peerFrom : Nat) (sent : Nat → List α) (conn : List Nat) :
    conn.flatMap (fun peer => if peer ≠ peerFrom ∧ peer ≠ 0 then sent peer else []) =
      (conn.filter (· ≠ 0)).flatMap fun peer => if peer = peerFrom then [] else sent peer := by
  induction conn with
  | nil => rfl
  | cons peer conn ih =>
    rw [flatMap_cons, ih]
    by_cases zero : peer = 0
    · simp [zero]
    · rw [filter_cons_of_pos (by simpa using zero)]
      by_cases own : peer = peerFrom <;> simp [zero, own]

theorem Mirrors.gossip (mirrors : Mirrors lua cpp) (stacked : cpp.Stacked) (peerFrom : Nat)
    {index : Nat} (small : index < 2 ^ 32) :
    ∃ queued : List (Nat × Block),
      lua.gossip hash peerFrom (index + 1) = queued.map (fun entry => (entry.1, entry.2.toLua)) ∧
        cpp.gossip messageSize peerFrom (gossipStart index) = sendable messageSize queued := by
  have stored (k : Bytes) (mem : k ∈ cpp.blockchain.drop index) :
      cpp.blocks.lookup k = some (cpp.blocks.getBlock k) ∧ (cpp.blocks.getBlock k).height ≠ 0 := by
    obtain ⟨c, found⟩ := Option.isSome_iff_exists.mp (stacked.listed k (mem_of_mem_drop mem))
    have := (stacked.heights k c found).1
    simp only [Blocks.getBlock, found, Option.getD_some, true_and]
    omega
  refine ⟨cpp.connectedPeers.flatMap fun peer => if peer = peerFrom then []
    else (cpp.blockchain.drop index).map fun k => (peer, cpp.blocks.getBlock k), ?_, ?_⟩
  · rw [LuaNode.gossip, flatMap_peers, mirrors.peers, map_flatMap]
    refine flatMap_congr fun peer _ => ?_
    split
    · rfl
    · rw [LuaNode.sendBlocks, mirrors.blockchain, map_map, map_eq_flatMap]
      refine flatMap_congr fun k mem => ?_
      simp [LuaNode.sendBlock, LuaNode.getBlock, mirrors.blocks, Blocks.toLua, (stored k mem).1]
  · rw [sendable, flatMap_assoc]
    refine flatMap_congr fun peer connected => ?_
    split
    · rfl
    · rw [BlockchainCppNode.sendBlocks, firstIndex_gossipStart small, flatMap_map]
      refine flatMap_congr fun k mem => ?_
      simp [BlockchainCppNode.sendBlock, BlockchainCppNode.sendMessage, (stored k mem).2, connected]

/-- One block: the script does not stop, and it does what the C++ node does.
From `2 ^ 32` blocks on, the C++ node computes the first block to send with too
few bits. -/
theorem Mirrors.onBlock (mirrors : Mirrors lua cpp) (stacked : cpp.Stacked)
    (printable : b.Printable) (stored : ¬ OnGenesis hash cpp.blocks b)
    (few : cpp.blockchain.length < 2 ^ 32) (messageSize : Message → Nat) (peer : Nat) :
    ∃ next, ∃ queued : List (Nat × Block), lua.onBlock hash peer b.toLua = .ok next ∧
      Mirrors next (cpp.onBlock hash messageSize peer b).1 ∧
      next.dBlocks = lua.dBlocks ++ queued.map (fun entry => (entry.1, entry.2.toLua)) ∧
      (cpp.onBlock hash messageSize peer b).2 = sendable messageSize queued := by
  obtain ⟨line, judged⟩ := validate_printable printable stored
  have bhash := b.blockHash_toLua printable.height hash
  have height : b.toLua.height.value = cpp.blockchain.length + 1 ↔
      b.height = cpp.blockchain.length + 1 := by
    rw [Block.toLua, LuaNumber.ofUInt64_of_lt printable.height, LuaNumber.value_integer]
    omega
  have after : (cpp.onBlock hash messageSize peer b).1.Stacked := stacked.onBlock stored
  simp only [BlockchainCppNode.onBlock, validateBlock_unchanged stored] at after ⊢
  simp only [LuaNode.onBlock, mirrors.blocks, mirrors.blockchain, judged, bhash, height, bind,
    Except.bind, pure, Except.pure]
  by_cases valid : (validateBlock hash cpp.blocks b).2 = .valid
  · have inserted := cpp.blocks.toLua_insert (b.blockHash hash) b
    simp only [if_pos valid, ← inserted] at after ⊢
    by_cases longest : b.height = cpp.blockchain.length + 1
    · have linked := stacked.linked.insert (acceptable_of_valid valid)
      obtain ⟨chain, index, small, rewritten, same⟩ := LuaNode.rewriteChain_eq linked
        cpp.blockchain.length (linked.below (AList.lookup_insert _) longest)
        (cpp.blockchain ++ [b.blockHash hash])
      have unchanged : b.toLua.prevHash = b.prevHash := rfl
      simp only [if_pos longest, rewritten, unchanged, same] at after ⊢
      have mirrorsNext : Mirrors
          { lua with
            blocks := Blocks.toLua (cpp.blocks.insert (b.blockHash hash) b)
            blockchain := chain }
          { cpp with
            blocks := cpp.blocks.insert (b.blockHash hash) b
            blockchain := chain } :=
        ⟨rfl, rfl, mirrors.peers⟩
      obtain ⟨queued, inQueue, sent⟩ := mirrorsNext.gossip after peer (small.trans_lt few)
      exact ⟨_, queued, rfl, ⟨rfl, rfl, mirrors.peers⟩, congrArg _ inQueue, sent⟩
    · simp only [if_neg longest] at after ⊢
      exact ⟨_, [], rfl, ⟨rfl, rfl, mirrors.peers⟩, (append_nil _).symm, rfl⟩
  · simp only [if_neg valid]
    exact ⟨lua, [], rfl, mirrors, (append_nil _).symm, rfl⟩

/-! ## Runs -/

/-- A node of either kind, and what the C++ node has sent. -/
structure Nodes where
  lua : LuaNode
  cpp : BlockchainCppNode
  sent : Outbox := []

def Nodes.onBlock (hash : Bytes → Bytes) (messageSize : Message → Nat) (nodes : Nodes)
    (call : Nat × Block) : Except LuaError Nodes := do
  let lua ← nodes.lua.onBlock hash call.1 call.2.toLua
  let (cpp, sent) := nodes.cpp.onBlock hash messageSize call.1 call.2
  return ⟨lua, cpp, nodes.sent ++ sent⟩

/-- Both nodes have the same blocks, main chain and peers, and the script has
queued what the C++ node has sent, or not sent because it was too long. -/
structure Nodes.Agree (messageSize : Message → Nat) (nodes : Nodes) : Prop where
  mirrors : Mirrors nodes.lua nodes.cpp
  queued : ∃ queued : List (Nat × Block),
      nodes.lua.dBlocks = queued.map (fun entry => (entry.1, entry.2.toLua)) ∧
        nodes.sent = sendable messageSize queued

/-- The condition on a block that both nodes receive. -/
structure Nodes.Handles (hash : Bytes → Bytes) (nodes : Nodes) (call : Nat × Block) : Prop where
  printable : call.2.Printable
  stored : ¬ OnGenesis hash nodes.cpp.blocks call.2
  few : nodes.cpp.blockchain.length < 2 ^ 32

instance (hash : Bytes → Bytes) (nodes : Nodes) (call : Nat × Block) :
    Decidable (nodes.Handles hash call) :=
  let b := call.2
  let blocks := nodes.cpp.blocks
  decidable_of_iff ((b.height < 2 ^ 63 ∧ 0 ∉ b.miner) ∧
      ¬ (blocks.lookup (b.blockHash hash) = none ∧ ¬ getTarget < b.blockHash hash ∧
        1 < b.height ∧ b.prevHash = genesisHash hash ∧ blocks.lookup (genesisHash hash) = none) ∧
      nodes.cpp.blockchain.length < 2 ^ 32)
    ⟨fun given => ⟨⟨given.1.1, given.1.2⟩, fun on =>
        given.2.1 ⟨on.absent, on.hard, on.high, on.root, on.unstored⟩, given.2.2⟩,
      fun given => ⟨⟨given.printable.height, given.printable.miner⟩, fun on =>
        given.stored ⟨on.1, on.2.1, on.2.2.1, on.2.2.2.1, on.2.2.2.2⟩, given.few⟩⟩

/-- The step lemma. -/
theorem Nodes.Agree.onBlock {nodes : Nodes} (agree : nodes.Agree messageSize)
    (stacked : nodes.cpp.Stacked) {call : Nat × Block} (handles : nodes.Handles hash call) :
    ∃ next, nodes.onBlock hash messageSize call = .ok next ∧ next.Agree messageSize ∧
      next.cpp.Stacked := by
  obtain ⟨mirrors, queued, inQueue, sent⟩ := agree
  obtain ⟨next, more, stepped, mirrorsNext, inQueueNext, sentNext⟩ :=
    mirrors.onBlock stacked handles.printable handles.stored handles.few messageSize call.1
  refine ⟨⟨next, (nodes.cpp.onBlock hash messageSize call.1 call.2).1,
    nodes.sent ++ (nodes.cpp.onBlock hash messageSize call.1 call.2).2⟩, ?_,
    ⟨mirrorsNext, queued ++ more, ?_, ?_⟩, stacked.onBlock handles.stored⟩
  · unfold Nodes.onBlock
    rw [stepped]
    rfl
  · rw [inQueueNext, inQueue, map_append]
  · rw [sent, sentNext, sendable, sendable, sendable, flatMap_append]

/-- Two nodes, one of either kind, that start without blocks and with the same
peers and receive the same blocks: while every block can be printed and none
stands on the genesis block above the first height, the script does not stop
and both go on in the same way. -/
theorem onBlock_run (hash : Bytes → Bytes) (messageSize : Message → Nat) (nodes : Nodes)
    (calls : List (Nat × Block)) (empty : nodes.cpp.blocks = ∅) (short : nodes.cpp.blockchain = [])
    (agree : nodes.Agree messageSize)
    (guarded : Guarded (Nodes.onBlock hash messageSize) (Nodes.Handles hash) nodes calls) :
    ∃ final, calls.foldlM (Nodes.onBlock hash messageSize) nodes = .ok final ∧
      final.Agree messageSize := by
  have run : ∃ final, calls.foldlM (Nodes.onBlock hash messageSize) nodes = .ok final ∧
      final.Agree messageSize ∧ final.cpp.Stacked := by
    refine guarded.run ?_ ⟨agree, .fresh empty short⟩
    rintro nodes ⟨peer, b⟩ ⟨agree, stacked⟩ handles
    exact agree.onBlock stacked handles
  obtain ⟨final, ran, agree, -⟩ := run
  exact ⟨final, ran, agree⟩

def twoNodes : Nodes where
  lua := { conn := [2, 0, 1, 3] }
  cpp := { nodeid := text "A", connectedPeers := [2, 1, 3] }

/-- The blocks of a fork, without the one that the script cannot handle. -/
def forkBlocks : List (Nat × Block) :=
  forkCalls.filter fun call => call.2.height ≤ 2

/-- The second block of the fork replaces the first one, and both blocks of the
longer branch go to the two other peers. -/
theorem onBlock_run_fork :
    ∃ final, forkBlocks.foldlM (Nodes.onBlock lowHash fun _ => 0) twoNodes = .ok final ∧
      final.Agree (fun _ => 0) ∧ final.cpp.blockchain.length = 2 ∧
      final.lua.dBlocks.length = 6 := by
  obtain ⟨final, ran, agree⟩ := onBlock_run lowHash (fun _ => 0) twoNodes forkBlocks rfl rfl
    ⟨⟨rfl, rfl, by decide⟩, [], rfl, rfl⟩ (by decide +kernel)
  have computed : (forkBlocks.foldlM (Nodes.onBlock lowHash fun _ => 0) twoNodes).map
      (fun final => (final.cpp.blockchain.length, final.lua.dBlocks.length)) = .ok (2, 6) := by
    decide +kernel
  rw [ran] at computed
  obtain ⟨length, queue⟩ := Prod.mk.inj (Except.ok.inj computed)
  exact ⟨final, ran, agree, length, queue⟩

end AutomatonCore.Blockchain
