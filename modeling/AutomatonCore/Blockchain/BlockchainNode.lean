import Mathlib.Data.List.AList
import AutomatonCore.Io.Decimal
import AutomatonCore.Node.Node

/-!
# The blockchain node

The node of `examples/node/blockchain_cpp_node`.  The hash function and the
size of a serialized message are parameters; logging, the names of peers and
the HTML report are left out.
-/

namespace AutomatonCore.Blockchain

open Io Node

structure Block where
  miner : Bytes := []
  prevHash : Bytes := []
  height : Nat := 0
  nonce : Bytes := []
  deriving DecidableEq, Repr

namespace Block

/-- The fields follow each other without separators. -/
def data (b : Block) : Bytes :=
  b.miner ++ b.prevHash ++ decimal b.height ++ b.nonce

def blockHash (hash : Bytes → Bytes) (b : Block) : Bytes :=
  hash b.data

end Block

inductive BlockValidity where
  | valid
  | invalid
  | duplicate
  | noParent
  deriving DecidableEq, Repr

inductive Message where
  | hello (name : Bytes)
  | block (b : Block)
  deriving DecidableEq, Repr

/-- The messages that a function sends, in the order in which they are sent. -/
abbrev Outbox :=
  List (Nat × Message)

abbrev Blocks :=
  AList fun _ : Bytes => Block

def genesisHash (hash : Bytes → Bytes) : Bytes :=
  hash (text "automaton")

def difficultyLeadingZeros : Nat :=
  1

def difficultyPrefix : Bytes :=
  text "00FFFF"

def mineAttempts : Nat :=
  10000

/-- All digits are hexadecimal, so `hex2bin` does not throw. -/
def getTarget : Bytes :=
  (hex2bin (List.replicate (difficultyLeadingZeros * 2) 48 ++ difficultyPrefix ++
    List.replicate ((32 - difficultyLeadingZeros - 3) * 2) 48)).getD []

example : getTarget = [0, 0, 255, 255] ++ List.replicate 28 0 := by decide +kernel

namespace Blocks

/-- The subscript operator of the map: an absent key gets a default block. -/
def access (blocks : Blocks) (key : Bytes) : Blocks × Block :=
  match blocks.lookup key with
  | some b => (blocks, b)
  | none => (blocks.insert key {}, {})

def getBlock (blocks : Blocks) (key : Bytes) : Block :=
  (blocks.lookup key).getD {}

end Blocks

/-- The judgement of a block, and the map after it: the last test looks up the
predecessor with the subscript operator.  Strings are compared
lexicographically. -/
def validateBlock (hash : Bytes → Bytes) (blocks : Blocks) (b : Block) : Blocks × BlockValidity :=
  let bhash := b.blockHash hash
  if (blocks.lookup bhash).isSome then (blocks, .duplicate)
  else if getTarget < bhash then (blocks, .invalid)
  else if b.height < 1 then (blocks, .invalid)
  else if b.prevHash ≠ genesisHash hash ∧ blocks.lookup b.prevHash = none then (blocks, .noParent)
  else if b.height = 1 ∧ b.prevHash ≠ genesisHash hash then (blocks, .invalid)
  else if b.height > 1 then
    let looked := blocks.access b.prevHash
    if looked.2.height ≠ b.height - 1 then (looked.1, .invalid)
    else (looked.1, .valid)
  else (blocks, .valid)

structure Rewriting where
  blocks : Blocks
  blockchain : List Bytes
  blockHeight : Nat

/-- The loop of `on_block` that makes the main chain the ancestors of its new
last block.  The number is `block_height`. -/
def rewriteChain (blocks : Blocks) (blockchain : List Bytes)
    (longestChainHash : Bytes) : Nat → Rewriting
  | 0 => ⟨blocks, blockchain, 0⟩
  | blockHeight + 1 =>
    if blockchain[blockHeight]? = some longestChainHash then ⟨blocks, blockchain, blockHeight + 1⟩
    else
      let looked := blocks.access longestChainHash
      rewriteChain looked.1 (blockchain.set blockHeight longestChainHash)
        looked.2.prevHash blockHeight

/-- `starting_block - 1` with 32 bits. -/
def firstIndex (startingBlock : Nat) : Nat :=
  (startingBlock + 2 ^ 32 - 1) % 2 ^ 32

/-- `static_cast<uint32_t>(block_height) + 1` in `on_block`. -/
def gossipStart (blockHeight : Nat) : Nat :=
  (blockHeight % 2 ^ 32 + 1) % 2 ^ 32

theorem firstIndex_gossipStart {blockHeight : Nat} (small : blockHeight < 2 ^ 32) :
    firstIndex (gossipStart blockHeight) = blockHeight := by
  unfold firstIndex gossipStart
  omega

/-- Every block that was judged valid is in `blocks`, under its hash;
`blockchain` has the hashes of the main chain. -/
structure BlockchainCppNode where
  nodeid : Bytes
  blocks : Blocks := ∅
  blockchain : List Bytes := []
  nonce : Bytes := List.replicate 16 0
  /-- A `std::set` in the source; its order matters to no single peer. -/
  connectedPeers : List Nat := []
  distinctPeers : connectedPeers.Nodup := by simp

namespace BlockchainCppNode

variable (hash : Bytes → Bytes) (messageSize : Message → Nat)

/-- `send_blob` drops a message that is too long or for a peer that is not
connected. -/
def sendMessage (node : BlockchainCppNode) (peer : Nat) (message : Message) : Outbox :=
  if messageSize message > maxMessageSize then []
  else if peer ∈ node.connectedPeers then [(peer, message)]
  else []

/-- A default block stands for the genesis block or an absent one. -/
def sendBlock (node : BlockchainCppNode) (peer : Nat) (key : Bytes) : Outbox :=
  let b := node.blocks.getBlock key
  if b.height = 0 then []
  else node.sendMessage messageSize peer (.block b)

/-- The loop variable has 64 bits, but its first value is computed as a
`uint32_t`. -/
def sendBlocks (node : BlockchainCppNode) (peer startingBlock : Nat) : Outbox :=
  (node.blockchain.drop (firstIndex startingBlock)).flatMap (node.sendBlock messageSize peer)

def gossip (node : BlockchainCppNode) (peerFrom startingBlock : Nat) : Outbox :=
  node.connectedPeers.flatMap fun peer =>
    if peer = peerFrom then []
    else node.sendBlocks messageSize peer startingBlock

/-- A valid block is stored.  One that is higher than the main chain becomes
its end, and the change is gossiped. -/
def onBlock (node : BlockchainCppNode) (peer : Nat) (b : Block) : BlockchainCppNode × Outbox :=
  let validated := validateBlock hash node.blocks b
  let bhash := b.blockHash hash
  if validated.2 = .valid then
    let blocks := validated.1.insert bhash b
    if b.height = node.blockchain.length + 1 then
      let rewritten :=
        rewriteChain blocks (node.blockchain ++ [bhash]) b.prevHash node.blockchain.length
      let node :=
        { node with blocks := rewritten.blocks, blockchain := rewritten.blockchain }
      (node, node.gossip messageSize peer (gossipStart rewritten.blockHeight))
    else ({ node with blocks := blocks }, [])
  else ({ node with blocks := validated.1 }, [])

def onHello (node : BlockchainCppNode) (peer : Nat) : Outbox :=
  node.sendBlocks messageSize peer 1

def onBlobReceived (node : BlockchainCppNode) (peer : Nat) : Message → BlockchainCppNode × Outbox
  | .hello _ => (node, node.onHello messageSize peer)
  | .block b => node.onBlock hash messageSize peer b

def onConnected (node : BlockchainCppNode) (peer : Nat) : BlockchainCppNode × Outbox :=
  let node :=
    { node with
      connectedPeers := node.connectedPeers.insert peer,
      distinctPeers := node.distinctPeers.insert }
  (node, node.sendMessage messageSize peer (.hello node.nodeid))

def getCurrentHash (node : BlockchainCppNode) : Bytes :=
  node.blockchain.getLastD (genesisHash hash)

/-- The loop of `increment_nonce` over the bytes from the last one on; `none`
if it runs out of the array, since the index is unsigned. -/
def incrementBytes : List UInt8 → Option (List UInt8)
  | [] => none
  | byte :: rest =>
    if byte < 255 then some ((byte + 1) :: rest)
    else (incrementBytes rest).map (0 :: ·)

def incrementNonce (nonce : Bytes) : Option Bytes :=
  (incrementBytes nonce.reverse).map List.reverse

/-- The loop of `mine`: the last nonce and the block, which has height zero
if no attempt was successful. -/
def mineLoop (b : Block) (nonce : Bytes) : Nat → Option (Bytes × Block)
  | 0 => some (nonce, { b with height := 0 })
  | attempts + 1 =>
    let b := { b with nonce := nonce }
    if getTarget < b.blockHash hash then do
      let next ← incrementNonce nonce
      mineLoop b next attempts
    else some (nonce, b)

def mine (node : BlockchainCppNode) : Option (BlockchainCppNode × Block) := do
  let result ← mineLoop hash
    { miner := node.nodeid, prevHash := node.getCurrentHash hash,
      height := node.blockchain.length + 1 }
    node.nonce mineAttempts
  return ({ node with nonce := result.1 }, result.2)

/-- `s_update`: a block that the node has mined is handled like one from a
peer with the number zero, which no peer has. -/
def update (node : BlockchainCppNode) : Option (BlockchainCppNode × Outbox) := do
  let mined ← node.mine hash
  if mined.2.height ≠ 0 then return mined.1.onBlock hash messageSize 0 mined.2
  else return (mined.1, [])

end BlockchainCppNode

end AutomatonCore.Blockchain
