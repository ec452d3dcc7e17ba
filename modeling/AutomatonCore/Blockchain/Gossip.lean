import AutomatonCore.Library.OrderedDelivery
import AutomatonCore.Blockchain.LongestChain
import AutomatonCore.Blockchain.Network

/-!
# Gossip makes chains equally long
-/

namespace AutomatonCore.Blockchain

open Io Library Node List

variable {hash : Bytes → Bytes} {messageSize : Message → Nat}

/-! ## The messages of a handler -/

def blocksOf (messages : List Message) : List Block :=
  messages.filterMap fun message =>
    match message with
    | .hello _ => none
    | .block b => some b

theorem mem_blocksOf {messages : List Message} {b : Block} :
    b ∈ blocksOf messages ↔ .block b ∈ messages := by
  simp only [blocksOf, mem_filterMap]
  constructor
  · rintro ⟨msg, mem, same⟩
    cases msg with
    | hello name => contradiction
    | block c =>
      cases same
      exact mem
  · intro mem
    exact ⟨_, mem, rfl⟩

theorem blocksOf_map_block (blocks : List Block) : blocksOf (blocks.map .block) = blocks := by
  simp [blocksOf]

theorem messagesTo_flatMap {α : Type} (peer : Nat) (items : List α) (send : α → Outbox) :
    messagesTo peer (items.flatMap send) =
      items.flatMap fun item => messagesTo peer (send item) := by
  simp only [messagesTo, filterMap_flatMap]

theorem messagesTo_map (peer other : Nat) (messages : List Message) :
    messagesTo peer (messages.map fun msg => (other, msg)) =
      if other = peer then messages else [] := by
  simp only [messagesTo]
  split <;> rename_i same
  · simp [same]
  · simp [same]

theorem flatMap_eq_of_nodup {α β : Type} [DecidableEq α] {items : List α}
    (distinct : items.Nodup) (chosen : α) {f : α → List β}
    (others : ∀ item ∈ items, item ≠ chosen → f item = []) :
    items.flatMap f = if chosen ∈ items then f chosen else [] := by
  induction items with
  | nil => rfl
  | cons item items ih =>
    obtain ⟨fresh, distinct⟩ := nodup_cons.mp distinct
    obtain ⟨head, others⟩ := forall_mem_cons.mp others
    rw [flatMap_cons, ih distinct others]
    by_cases same : item = chosen
    · subst same
      simp [fresh]
    · simp [head same, Ne.symm same]

namespace BlockchainCppNode

variable {node : BlockchainCppNode}

/-- The blocks of the main chain from an index on. -/
def chainBlocks (node : BlockchainCppNode) (start : Nat) : List Block :=
  (node.blockchain.drop start).map node.blocks.getBlock

/-- No block of the main chain is too long for a message. -/
def ChainFits (messageSize : Message → Nat) (node : BlockchainCppNode) : Prop :=
  ∀ b ∈ node.chainBlocks 0, messageSize (.block b) ≤ maxMessageSize

theorem LongestChain.getBlock (sound : node.LongestChain hash) {k : Bytes}
    (mem : k ∈ node.blockchain) :
    node.blocks.lookup k = some (node.blocks.getBlock k) ∧
      (node.blocks.getBlock k).height ≠ 0 ∧ (node.blocks.getBlock k).blockHash hash = k := by
  obtain ⟨i, listed⟩ := mem_iff_getElem?.mp mem
  obtain ⟨b, found, keyed, height, -⟩ := sound.entry listed
  simp only [Blocks.getBlock, found, Option.getD_some]
  exact ⟨trivial, by omega, keyed⟩

theorem LongestChain.chainBlocks_keys (sound : node.LongestChain hash) (start : Nat) :
    (node.chainBlocks start).map (Block.blockHash hash) = node.blockchain.drop start := by
  rw [chainBlocks, map_map]
  conv_rhs => rw [← map_id (node.blockchain.drop start)]
  refine map_congr_left fun k mem => ?_
  exact (sound.getBlock (mem_of_mem_drop mem)).2.2

theorem LongestChain.chainBlocks_stored (sound : node.LongestChain hash)
    {start : Nat} {b : Block} (mem : b ∈ node.chainBlocks start) :
    node.blocks.lookup (b.blockHash hash) = some b ∧ b.height ≠ 0 := by
  obtain ⟨k, listed, rfl⟩ := mem_map.mp mem
  obtain ⟨found, high, keyed⟩ := sound.getBlock (mem_of_mem_drop listed)
  rw [keyed]
  exact ⟨found, high⟩

theorem LongestChain.sendBlocks_eq (sound : node.LongestChain hash)
    (fits : node.ChainFits messageSize) {peer : Nat}
    (connected : peer ∈ node.connectedPeers) (startingBlock : Nat) :
    node.sendBlocks messageSize peer startingBlock =
      ((node.chainBlocks (firstIndex startingBlock)).map
        Message.block).map fun msg => (peer, msg) := by
  have each : ∀ k ∈ node.blockchain,
      node.sendBlock messageSize peer k = [(peer, .block (node.blocks.getBlock k))] := by
    intro k mem
    have high := (sound.getBlock mem).2.1
    have small : ¬ messageSize (.block (node.blocks.getBlock k)) > maxMessageSize :=
      not_lt.mpr (fits _ (mem_map_of_mem mem))
    simp only [sendBlock, if_neg high, sendMessage, if_neg small, if_pos connected]
  unfold sendBlocks chainBlocks
  rw [map_map, map_map, map_eq_flatMap]
  refine flatMap_congr fun k mem => ?_
  exact each k (mem_of_mem_drop mem)

/-- Gossip sends the end of the chain to every peer but the one that it came
from. -/
theorem LongestChain.messagesTo_gossip (sound : node.LongestChain hash)
    (fits : node.ChainFits messageSize) (peer peerFrom startingBlock : Nat) :
    messagesTo peer (node.gossip messageSize peerFrom startingBlock) =
      if peer ∈ node.connectedPeers ∧ peer ≠ peerFrom then
        (node.chainBlocks (firstIndex startingBlock)).map .block
      else [] := by
  have each : ∀ other ∈ node.connectedPeers, messagesTo peer
          (if other = peerFrom then []
            else node.sendBlocks messageSize other startingBlock) =
        if other = peer ∧ other ≠ peerFrom then
          (node.chainBlocks (firstIndex startingBlock)).map .block
        else [] := by
    intro other connected
    by_cases src : other = peerFrom
    · simp [src, messagesTo]
    · rw [if_neg src, sound.sendBlocks_eq fits connected, messagesTo_map]
      simp [src]
  unfold gossip
  rw [messagesTo_flatMap, flatMap_eq_of_nodup node.distinctPeers peer]
  · by_cases connected : peer ∈ node.connectedPeers
    · rw [each peer connected]
      simp [connected]
    · simp [connected]
  · intro other connected ne
    rw [each other connected, if_neg (by simp [ne])]

end BlockchainCppNode

/-! ## One link -/

/-- A key on which a receiver can build. -/
def Known (hash : Bytes → Bytes) (blocks : Blocks) (key : Bytes) : Prop :=
  key = genesisHash hash ∨ (blocks.lookup key).isSome

theorem Known.of_lookup {blocks : Blocks} {k : Bytes} {b : Block}
    (found : blocks.lookup k = some b) : Known hash blocks k :=
  .inr (Option.isSome_of_eq_some found)

theorem Known.mono {before after : Blocks} (grows : before.Grows after)
    (k : Bytes) (known : Known hash before k) : Known hash after k := by
  refine known.imp_right fun stored => ?_
  obtain ⟨b, found⟩ := Option.isSome_iff_exists.mp stored
  exact Option.isSome_of_eq_some (grows k b found)

/-- The blocks that were sent after the greeting. -/
def answeredBlocks (queue : List Packet) : List Block :=
  blocksOf ((queue.filter Packet.answered).map Packet.message)

theorem answeredBlocks_cons (pkt : Packet) (rest : List Packet) :
    answeredBlocks (pkt :: rest) = answeredBlocks rest ∨ ∃ b, pkt = ⟨.block b, true⟩ ∧
      answeredBlocks (pkt :: rest) = b :: answeredBlocks rest := by
  obtain ⟨msg, answered⟩ := pkt
  cases answered with
  | false => exact .inl rfl
  | true =>
    cases msg with
    | hello name => exact .inl rfl
    | block b => exact .inr ⟨b, rfl, rfl⟩

theorem answeredBlocks_send (queue : List Packet) (messages : List Message) (greeted : Bool) :
    answeredBlocks (queue ++ messages.map fun msg => ⟨msg, greeted⟩) =
      answeredBlocks queue ++ if greeted then blocksOf messages else [] := by
  cases greeted with
  | false => simp [answeredBlocks, filter_map, Function.comp_def]
  | true => simp [answeredBlocks, blocksOf, filter_map, Function.comp_def]

/-- The sender has the blocks that are under way, and those that were sent
after the greeting come behind their parents. -/
structure Underway (hash : Bytes → Bytes) (sender receiver : Blocks)
    (queue : List Packet) : Prop where
  stored : ∀ packet ∈ queue, ∀ b, packet.message = .block b →
    sender.lookup (b.blockHash hash) = some b ∧ b.height ≠ 0
  ordered : InOrder (Block.blockHash hash) Block.prevHash
    (Known hash receiver) (answeredBlocks queue)

/-- Every block of the chain is in the store of the receiver or under way to
it. -/
def Served (hash : Bytes → Bytes) (chain : List Bytes) (receiver : Blocks)
    (queue : List Packet) : Prop :=
  ∀ key ∈ chain, Supplied (Block.blockHash hash) (Known hash receiver) (answeredBlocks queue) key

section Link

variable {sender receiver after : Blocks} {queue rest : List Packet}
  {pkt : Packet} {chain : List Bytes}

theorem Underway.mono (underway : Underway hash sender receiver queue)
    (grows : receiver.Grows after) : Underway hash sender after queue :=
  ⟨underway.stored, underway.ordered.mono (Known.mono grows)⟩

theorem Underway.mono_sender {more : Blocks} (underway : Underway hash sender receiver queue)
    (grows : sender.Grows more) : Underway hash more receiver queue := by
  refine ⟨fun pkt mem b shape => ?_, underway.ordered⟩
  obtain ⟨found, high⟩ := underway.stored pkt mem b shape
  exact ⟨grows _ _ found, high⟩

theorem Served.mono (served : Served hash chain receiver queue)
    (grows : receiver.Grows after) : Served hash chain after queue :=
  fun k mem => (served k mem).mono (Known.mono grows)

theorem Underway.deliver (underway : Underway hash sender receiver (pkt :: rest))
    (grows : receiver.Grows after)
    (arrived : ∀ b, pkt = ⟨.block b, true⟩ → Known hash after (b.blockHash hash)) :
    Underway hash sender after rest := by
  refine ⟨(forall_mem_cons.mp underway.stored).2, ?_⟩
  have ordered := underway.ordered
  rcases answeredBlocks_cons pkt rest with same | ⟨b, front, same⟩
  · rw [same] at ordered
    exact ordered.mono (Known.mono grows)
  · rw [same] at ordered
    exact ordered.deliver (Known.mono grows) (arrived b front)

theorem Served.deliver (served : Served hash chain receiver (pkt :: rest))
    (grows : receiver.Grows after)
    (arrived : ∀ b, pkt = ⟨.block b, true⟩ → Known hash after (b.blockHash hash)) :
    Served hash chain after rest := by
  intro k mem
  have supplied := served k mem
  rcases answeredBlocks_cons pkt rest with same | ⟨b, front, same⟩
  · rw [same] at supplied
    exact supplied.mono (Known.mono grows)
  · rw [same] at supplied
    exact supplied.deliver (Known.mono grows) (arrived b front)

end Link

/-- The messages suffice for a greeted receiver: what it does not get of the
chain is a beginning that it has or is about to get. -/
structure Suffices (hash : Bytes → Bytes) (node : BlockchainCppNode)
    (receiver : Blocks) (queue : List Packet) (greeted : Bool)
    (messages : List Message) : Prop where
  stored : ∀ b ∈ blocksOf messages, node.blocks.lookup (b.blockHash hash) = some b ∧ b.height ≠ 0
  complete : greeted = true → ∃ kept, node.blockchain =
        kept ++ (blocksOf messages).map (Block.blockHash hash) ∧
      Served hash kept receiver queue

section Sending

variable {sender receiver : Blocks} {queue : List Packet} {greeted : Bool}
  {node : BlockchainCppNode} {messages : List Message}

theorem Suffices.underway (enough : Suffices hash node receiver queue greeted messages)
    (sound : node.LongestChain hash) (grows : sender.Grows node.blocks)
    (underway : Underway hash sender receiver queue) :
    Underway hash node.blocks receiver (queue ++ messages.map fun msg => ⟨msg, greeted⟩) := by
  have underway := underway.mono_sender grows
  constructor
  · intro pkt mem b shape
    rcases mem_append.mp mem with old | new
    · exact underway.stored pkt old b shape
    · obtain ⟨msg, sent, rfl⟩ := mem_map.mp new
      obtain rfl : msg = .block b := shape
      exact enough.stored b (mem_blocksOf.mpr sent)
  · rw [answeredBlocks_send]
    cases greeted with
    | false => simpa using underway.ordered
    | true =>
      obtain ⟨kept, shape, served⟩ := enough.complete rfl
      obtain ⟨tip, main⟩ := sound.main
      rw [shape] at main
      refine underway.ordered.append (.of_path main ?_ ?_)
      · intro b sent
        obtain ⟨found, high⟩ := enough.stored b sent
        exact Blocks.parent_eq_some.mpr ⟨b, found, high, rfl⟩
      · intro k mem
        rcases mem_cons.mp mem with rfl | mem
        · exact .inl (.inl rfl)
        · exact served k mem

theorem Suffices.served (enough : Suffices hash node receiver queue true messages) :
    Served hash node.blockchain receiver (queue ++ messages.map fun msg => ⟨msg, true⟩) := by
  obtain ⟨kept, shape, served⟩ := enough.complete rfl
  intro k mem
  rw [answeredBlocks_send]
  rw [shape] at mem
  rcases mem_append.mp mem with old | new
  · exact (served k old).append
  · obtain ⟨b, sent, rfl⟩ := mem_map.mp new
    exact .inr ⟨b, mem_append_right _ sent, rfl⟩

theorem Suffices.of_served (silent : blocksOf messages = [])
    (served : greeted = true → Served hash node.blockchain receiver queue) :
    Suffices hash node receiver queue greeted messages := by
  constructor
  · simp [silent]
  · intro greeted
    exact ⟨node.blockchain, by simp [silent], served greeted⟩

theorem Suffices.of_chainBlocks (sound : node.LongestChain hash) (start : Nat)
    (served : greeted = true → Served hash (node.blockchain.take start) receiver queue) :
    Suffices hash node receiver queue greeted ((node.chainBlocks start).map .block) := by
  constructor
  · rw [blocksOf_map_block]
    exact fun b mem => sound.chainBlocks_stored mem
  · intro greeted
    refine ⟨node.blockchain.take start, ?_, served greeted⟩
    rw [blocksOf_map_block, sound.chainBlocks_keys, take_append_drop]

end Sending

/-! ## One block on a link -/

/-- Under one key there is one block; blocks of height zero come from the
subscript operator. -/
def Agree (first second : Blocks) : Prop :=
  ∀ key b c, first.lookup key = some b → second.lookup key = some c →
    b.height ≠ 0 → c.height ≠ 0 → b = c

section Block

variable {sender receiver : Blocks} {b : Block}

theorem validateBlock_ne_noParent (known : Known hash receiver b.prevHash) :
    (validateBlock hash receiver b).2 ≠ .noParent := by
  have found : ¬ (b.prevHash ≠ genesisHash hash ∧ receiver.lookup b.prevHash = none) := by
    rintro ⟨ne, absent⟩
    have stored := known.resolve_left ne
    simp [absent] at stored
  simp only [validateBlock]
  split_ifs <;> simp

/-- A receiver that knows the parent of a block accepts it. -/
theorem acceptable_of_known (consistent : sender.Consistent hash)
    (consistent' : receiver.Consistent hash) (agree : Agree sender receiver)
    (found : sender.lookup (b.blockHash hash) = some b)
    (high : b.height ≠ 0) (known : Known hash receiver b.prevHash)
    (absent : receiver.lookup (b.blockHash hash) = none) : Acceptable hash receiver b := by
  have proper := consistent.proper found high
  obtain ⟨path, leads, height⟩ := proper.counted
  refine ⟨absent, proper.hard, ?_⟩
  generalize start : b.prevHash = prev at leads known ⊢
  cases leads with
  | root => exact .inl ⟨height, rfl⟩
  | @child _ _ path link rest =>
    obtain ⟨c, stored, pos, -⟩ := Blocks.parent_eq_some.mp link
    have notGenesis := (consistent.proper stored pos).notGenesis
    obtain ⟨d, stored'⟩ := Option.isSome_iff_exists.mp (known.resolve_left notGenesis)
    rcases consistent' _ d stored' with ⟨genesis, -⟩ | proper'
    · exact absurd genesis notGenesis
    · obtain rfl := agree _ c d stored stored' pos proper'.height_ne_zero
      have counted := consistent.height_eq stored pos (.child link rest)
      exact .inr ⟨c, stored', pos, by omega⟩

theorem known_of_leads (consistent : sender.Consistent hash)
    (consistent' : receiver.Consistent hash) (agree : Agree sender receiver)
    (found : sender.lookup (b.blockHash hash) = some b) (high : b.height ≠ 0) {path : List Bytes}
    (leads : receiver.Leads hash b.prevHash path) :
    ∀ k ∈ path ++ [b.blockHash hash], Known hash sender k := by
  obtain ⟨other, leads', -⟩ := (consistent.proper found high).counted
  have same : other = path := by
    refine leads'.unique_of_agree consistent.rootless consistent'.rootless ?_ leads
    intro k first second link link'
    obtain ⟨c, stored, pos, rfl⟩ := Blocks.parent_eq_some.mp link
    obtain ⟨d, stored', pos', rfl⟩ := Blocks.parent_eq_some.mp link'
    rw [agree k c d stored stored' pos pos']
  subst same
  intro k mem
  rcases mem_append.mp mem with before | last
  · obtain ⟨prev, link⟩ := leads'.exists_parent before
    obtain ⟨c, stored, -⟩ := Blocks.parent_eq_some.mp link
    exact .of_lookup stored
  · obtain rfl := mem_singleton.mp last
    exact .of_lookup found

end Block

namespace BlockchainCppNode.BlockStep

variable {node after : BlockchainCppNode} {peer : Nat} {b : Block}
  {outbox : Outbox}

theorem known (step : BlockStep hash messageSize node peer b (after, outbox))
    (judged : node.blocks.lookup (b.blockHash hash) = none → Acceptable hash node.blocks b) :
    Known hash after.blocks (b.blockHash hash) := by
  cases stored : node.blocks.lookup (b.blockHash hash) with
  | some c => exact .of_lookup (step.grows _ c stored)
  | none => exact .of_lookup (step.lookup_self (judged stored))

theorem connectedPeers (step : BlockStep hash messageSize node peer b (after, outbox)) :
    after.connectedPeers = node.connectedPeers := by
  cases step with
  | rejected judged => rfl
  | stored acceptable low => rfl
  | extended acceptable leads longest height small agree result => rw [result]

theorem messages_suffice (sound : node.LongestChain hash)
    (notGenesis : b.blockHash hash ≠ genesisHash hash)
    (step : BlockStep hash messageSize node peer b (after, outbox))
    (fits : after.ChainFits messageSize) (low : after.blockchain.length < 2 ^ 32) {target : Nat}
    {receiver : Blocks} {queue : List Packet} {greeted : Bool}
    (served : greeted = true → Served hash node.blockchain receiver queue)
    (connected : greeted = true → target ∈ node.connectedPeers)
    (src : target = peer → ∀ path, node.blocks.Leads hash b.prevHash path →
      ∀ k ∈ path ++ [b.blockHash hash], Known hash receiver k) :
    Suffices hash after receiver queue greeted (messagesTo target outbox) := by
  have sound' := step.longestChain sound notGenesis
  cases step with
  | rejected judged => exact .of_served rfl served
  | stored acceptable low => exact .of_served rfl served
  | @extended acceptable _ path kept leads longest height small agree result =>
    have length : after.blockchain.length = path.length + 1 := by simp [result]
    rw [sound'.messagesTo_gossip fits, firstIndex_gossipStart (by omega)]
    split_ifs with reached
    · refine .of_chainBlocks sound' kept fun greeted => ?_
      have beginning : after.blockchain.take kept = node.blockchain.take kept := by
        rw [result, take_append_of_le_length small, agree]
      intro k mem
      rw [beginning] at mem
      exact served greeted k (mem_of_mem_take mem)
    · refine .of_served rfl fun greeted k mem => ?_
      have same : target = peer := by
        by_contra ne
        have connected := connected greeted
        exact reached ⟨by simpa [result] using connected, ne⟩
      rw [result] at mem
      exact .inl (src same path leads k mem)

end BlockchainCppNode.BlockStep

/-! ## The whole network -/

namespace Network

variable {ι : Type} [DecidableEq ι] {links : Links ι} {net : Network ι}

/-- The hashes of the mined blocks differ, also from the genesis hash, and
neither their heights nor their messages are too large. -/
structure Admissible (hash : Bytes → Bytes) (messageSize : Message → Nat)
    (mined : List Block) : Prop where
  distinct : ∀ b ∈ mined, ∀ c ∈ mined, b.blockHash hash = c.blockHash hash → b = c
  notGenesis : ∀ b ∈ mined, b.blockHash hash ≠ genesisHash hash
  low : ∀ b ∈ mined, b.height < 2 ^ 32
  fits : ∀ b ∈ mined, messageSize (.block b) ≤ maxMessageSize

def AllMined (mined : List Block) (blocks : Blocks) : Prop :=
  ∀ key b, blocks.lookup key = some b → b.height ≠ 0 → b ∈ mined

/-- The invariant of the network. -/
structure Sound (hash : Bytes → Bytes) (links : Links ι) (net : Network ι) : Prop where
  longest : ∀ i, (net.nodes i).LongestChain hash
  mined : ∀ i, AllMined net.mined (net.nodes i).blocks
  underway : ∀ i j, Underway hash (net.nodes i).blocks
    (net.nodes j).blocks (net.queue i j)
  served : ∀ i j, net.greeted i j = true →
    Served hash (net.nodes i).blockchain (net.nodes j).blocks (net.queue i j)
  connected : ∀ i j, net.greeted i j = true → links.linked i j ∧
    links.peerId i j ∈ (net.nodes i).connectedPeers
  linked : ∀ i j, net.queue i j ≠ [] → links.linked i j

section Admissible

variable {mined : List Block} {node : BlockchainCppNode}

theorem Admissible.agree (admissible : Admissible hash messageSize mined)
    {first second : Blocks} (consistent : first.Consistent hash)
    (consistent' : second.Consistent hash) (all : AllMined mined first)
    (all' : AllMined mined second) : Agree first second := by
  intro k b c found found' high high'
  refine admissible.distinct b (all k b found high) c (all' k c found' high') ?_
  rw [(consistent.proper found high).keyed, (consistent'.proper found' high').keyed]

theorem Admissible.chainFits (admissible : Admissible hash messageSize mined)
    (longest : node.LongestChain hash) (all : AllMined mined node.blocks) :
    node.ChainFits messageSize := by
  intro b mem
  obtain ⟨found, high⟩ := longest.chainBlocks_stored mem
  exact admissible.fits b (all _ b found high)

theorem Admissible.length_lt (admissible : Admissible hash messageSize mined)
    (longest : node.LongestChain hash) (all : AllMined mined node.blocks) :
    node.blockchain.length < 2 ^ 32 := by
  rcases Nat.eq_zero_or_pos node.blockchain.length with zero | pos
  · omega
  · obtain ⟨b, found, -, height, -⟩ := longest.entry
      (getElem?_eq_getElem (Nat.sub_lt pos Nat.one_pos))
    have low := admissible.low b (all _ b found (by omega))
    omega

end Admissible

def blocksAfter (net : Network ι) (i : ι) (after : BlockchainCppNode) (j : ι) : Blocks :=
  (Function.update net.nodes i after j).blocks

theorem grows_blocksAfter {i : ι} {after : BlockchainCppNode}
    (grows : (net.nodes i).blocks.Grows after.blocks) (j : ι) :
    (net.nodes j).blocks.Grows (net.blocksAfter i after j) := by
  rw [blocksAfter, Function.update_apply]
  split
  · subst j
    exact grows
  · exact .refl _

/-- What has to be shown of a handler that takes the node to the state `after`
and sends the messages of `outbox`. -/
structure Ready (hash : Bytes → Bytes) (links : Links ι)
    (net : Network ι) (i : ι) (after : BlockchainCppNode) (outbox : Outbox) : Prop where
  longest : ∀ j, (net.nodes j).LongestChain hash
  mined : ∀ j, AllMined net.mined (net.nodes j).blocks
  longestAfter : after.LongestChain hash
  minedAfter : AllMined net.mined after.blocks
  grows : (net.nodes i).blocks.Grows after.blocks
  peers : (net.nodes i).connectedPeers ⊆ after.connectedPeers
  underway : ∀ s t, Underway hash (net.nodes s).blocks
    (net.blocksAfter i after t) (net.queue s t)
  served : ∀ s t, s ≠ i → net.greeted s t = true →
    Served hash (net.nodes s).blockchain (net.blocksAfter i after t) (net.queue s t)
  enough : ∀ t, links.linked i t →
    Suffices hash after (net.blocksAfter i after t) (net.queue i t) (net.greeted i t)
      (messagesTo (links.peerId i t) outbox)
  connected : ∀ s t, net.greeted s t = true → links.linked s t ∧
    links.peerId s t ∈ (net.nodes s).connectedPeers
  linked : ∀ s t, net.queue s t ≠ [] → links.linked s t

theorem Ready.sound {i : ι} {after : BlockchainCppNode} {outbox : Outbox}
    (ready : Ready hash links net i after outbox) :
    Sound hash links (net.handled links i (after, outbox)) := by
  have queue : ∀ s t, (net.handled links i (after, outbox)).queue s t =
      if s = i ∧ links.linked i t then
        net.queue s t ++
          (messagesTo (links.peerId i t) outbox).map fun msg => ⟨msg, net.greeted i t⟩
      else net.queue s t := fun _ _ => rfl
  have nodes : (net.handled links i (after, outbox)).nodes =
      Function.update net.nodes i after := rfl
  refine ⟨?_, ?_, ?_, ?_, ?_, ?_⟩
  · intro j
    rw [nodes, Function.update_apply]
    split
    · exact ready.longestAfter
    · exact ready.longest j
  · intro j
    rw [nodes, Function.update_apply]
    split
    · exact ready.minedAfter
    · exact ready.mined j
  · intro s t
    change Underway hash (Function.update net.nodes i after s).blocks
      (net.blocksAfter i after t) _
    rw [queue, Function.update_apply]
    by_cases same : s = i
    · subst same
      rw [if_pos rfl]
      by_cases linked : links.linked s t
      · rw [if_pos ⟨rfl, linked⟩]
        exact (ready.enough t linked).underway ready.longestAfter ready.grows (ready.underway s t)
      · rw [if_neg fun both => linked both.2]
        exact (ready.underway s t).mono_sender ready.grows
    · rw [if_neg same, if_neg fun both => same both.1]
      exact ready.underway s t
  · intro s t greeted
    change Served hash (Function.update net.nodes i after s).blockchain
      (net.blocksAfter i after t) _
    rw [queue, Function.update_apply]
    by_cases same : s = i
    · subst same
      obtain ⟨linked, -⟩ := ready.connected s t greeted
      have enough := ready.enough t linked
      rw [show net.greeted s t = true from greeted] at enough ⊢
      rw [if_pos rfl, if_pos ⟨rfl, linked⟩]
      exact enough.served
    · rw [if_neg same, if_neg fun both => same both.1]
      exact ready.served s t same greeted
  · intro s t greeted
    obtain ⟨linked, mem⟩ := ready.connected s t greeted
    refine ⟨linked, ?_⟩
    rw [nodes, Function.update_apply]
    split
    · subst s
      exact ready.peers mem
    · exact mem
  · intro s t busy
    rw [queue] at busy
    split at busy
    next both =>
      exact both.1 ▸ both.2
    · exact ready.linked s t busy

section Handlers

variable {i : ι} {after : BlockchainCppNode} {outbox : Outbox}

theorem Sound.ready (sound : Sound hash links net) (longestAfter : after.LongestChain hash)
    (minedAfter : AllMined net.mined after.blocks)
    (grows : (net.nodes i).blocks.Grows after.blocks)
    (peers : (net.nodes i).connectedPeers ⊆ after.connectedPeers)
    (enough : ∀ t, links.linked i t →
      (net.greeted i t = true → Served hash (net.nodes i).blockchain
        (net.blocksAfter i after t) (net.queue i t)) →
      Suffices hash after (net.blocksAfter i after t) (net.queue i t) (net.greeted i t)
        (messagesTo (links.peerId i t) outbox)) :
    Ready hash links net i after outbox where
  longest := sound.longest
  mined := sound.mined
  longestAfter := longestAfter
  minedAfter := minedAfter
  grows := grows
  peers := peers
  underway s t := (sound.underway s t).mono (grows_blocksAfter grows t)
  served s t _ greeted := (sound.served s t greeted).mono (grows_blocksAfter grows t)
  enough t linked := enough t linked fun greeted =>
    (sound.served i t greeted).mono (grows_blocksAfter grows t)
  connected := sound.connected
  linked := sound.linked

theorem blocksOf_hello (node : BlockchainCppNode) (peer other : Nat) (name : Bytes) :
    blocksOf (messagesTo other (node.sendMessage messageSize peer (.hello name))) = [] := by
  unfold BlockchainCppNode.sendMessage
  split_ifs
  · rfl
  · by_cases same : peer = other
    · simp [messagesTo, blocksOf]
    · simp [messagesTo, blocksOf]
  · rfl

theorem Sound.handled_silent (sound : Sound hash links net)
    (blocks : after.blocks = (net.nodes i).blocks)
    (chain : after.blockchain = (net.nodes i).blockchain)
    (peers : (net.nodes i).connectedPeers ⊆ after.connectedPeers)
    (silent : ∀ peer, blocksOf (messagesTo peer outbox) = []) :
    Sound hash links (net.handled links i (after, outbox)) := by
  have longest := sound.longest i
  have longestAfter : after.LongestChain hash := by
    refine ⟨?_, ?_, ?_⟩
    · rw [blocks]
      exact longest.consistent
    · rw [blocks, chain]
      exact longest.main
    · rw [blocks, chain]
      exact longest.highest
  refine (sound.ready longestAfter (blocks ▸ sound.mined i) (blocks ▸ .refl _) peers ?_).sound
  intro t linked served
  exact .of_served (silent _) (chain ▸ served)

theorem Sound.connect (sound : Sound hash links net) (peer : Nat) :
    Sound hash links (net.handled links i ((net.nodes i).onConnected messageSize peer)) :=
  sound.handled_silent rfl rfl (subset_insert _ _) fun other => blocksOf_hello _ peer other _

/-! A packet is taken. -/

section Taken

variable {src target : ι} {pkt : Packet} {rest : List Packet}

theorem Sound.underway_taken (sound : Sound hash links net)
    (front : net.queue src target = pkt :: rest)
    {receiver : ι → Blocks} (grows : ∀ t, (net.nodes t).blocks.Grows (receiver t))
    (arrived : ∀ b, pkt = ⟨.block b, true⟩ →
      Known hash (receiver target) (b.blockHash hash)) (s t : ι) :
    Underway hash (net.nodes s).blocks (receiver t)
      ((net.taken src target pkt rest).queue s t) := by
  simp only [taken]
  split
  next same =>
    obtain ⟨rfl, rfl⟩ := same
    have underway := sound.underway s t
    rw [front] at underway
    exact underway.deliver (grows t) arrived
  · exact (sound.underway s t).mono (grows t)

theorem Sound.served_taken (sound : Sound hash links net)
    (front : net.queue src target = pkt :: rest)
    {receiver : ι → Blocks} (grows : ∀ t, (net.nodes t).blocks.Grows (receiver t))
    (arrived : ∀ b, pkt = ⟨.block b, true⟩ →
      Known hash (receiver target) (b.blockHash hash)) {s t : ι}
    (greeted : net.greeted s t = true) :
    Served hash (net.nodes s).blockchain (receiver t)
      ((net.taken src target pkt rest).queue s t) := by
  have served := sound.served s t greeted
  simp only [taken]
  split
  next same =>
    obtain ⟨rfl, rfl⟩ := same
    rw [front] at served
    exact served.deliver (grows t) arrived
  · exact served.mono (grows t)

theorem Sound.linked_taken (sound : Sound hash links net)
    (front : net.queue src target = pkt :: rest) {s t : ι}
    (busy : (net.taken src target pkt rest).queue s t ≠ []) : links.linked s t := by
  simp only [taken] at busy
  split at busy
  next same =>
    obtain ⟨rfl, rfl⟩ := same
    exact sound.linked s t (by simp [front])
  · exact sound.linked s t busy

theorem Sound.deliver_hello (sound : Sound hash links net) {name : Bytes} {answered : Bool}
    (front : net.queue src target = ⟨.hello name, answered⟩ :: rest)
    (fits : (net.nodes target).ChainFits messageSize)
    (connected : links.peerId target src ∈ (net.nodes target).connectedPeers) :
    Sound hash links ((net.taken src target ⟨.hello name, answered⟩ rest).handled
        links target (net.nodes target,
          (net.nodes target).onHello messageSize (links.peerId target src))) := by
  have backwards : links.linked target src :=
    links.symmetric (sound.linked src target (by simp [front]))
  have longest := sound.longest target
  have grows : ∀ t, (net.nodes t).blocks.Grows
      (net.blocksAfter target (net.nodes target) t) :=
    grows_blocksAfter (.refl _)
  have greeted : ∀ s t, (net.taken src target ⟨.hello name, answered⟩ rest).greeted s t = true →
      s = target ∧ t = src ∨ net.greeted s t = true := by
    intro s t greeted
    simpa [taken] using greeted
  have ready : Ready hash links (net.taken src target ⟨.hello name, answered⟩ rest) target
      (net.nodes target)
      ((net.nodes target).onHello messageSize (links.peerId target src)) := by
    refine ⟨sound.longest, sound.mined, longest, sound.mined target, .refl _,
      fun _ mem => mem, ?_, ?_, ?_, ?_, ?_⟩
    · exact sound.underway_taken front grows (by simp)
    · intro s t other greets
      refine sound.served_taken front grows (by simp) ?_
      exact (greeted s t greets).resolve_left fun same => other same.1
    · intro t linked
      rw [BlockchainCppNode.onHello, longest.sendBlocks_eq fits connected, messagesTo_map]
      by_cases same : t = src
      · subst same
        rw [if_pos rfl]
        exact .of_chainBlocks longest _ fun _ k mem => absurd mem (by simp [firstIndex])
      · have ne : links.peerId target src ≠ links.peerId target t :=
          fun equal => same (links.injective backwards linked equal).symm
        rw [if_neg ne]
        refine .of_served rfl fun greets => ?_
        refine sound.served_taken front grows (by simp) ?_
        exact (greeted target t greets).resolve_left fun both => same both.2
    · intro s t greets
      rcases greeted s t greets with ⟨rfl, rfl⟩ | before
      · exact ⟨backwards, connected⟩
      · exact sound.connected s t before
    · exact fun s t busy => sound.linked_taken front busy
  exact ready.sound

omit [DecidableEq ι] in
theorem Sound.known_front (sound : Sound hash links net) {b : Block}
    (front : net.queue src target = ⟨.block b, true⟩ :: rest) :
    Known hash (net.nodes target).blocks b.prevHash := by
  have ordered := (sound.underway src target).ordered
  rw [front] at ordered
  exact ordered.1

theorem Sound.deliver_block (sound : Sound hash links net)
    (admissible : Admissible hash messageSize net.mined) {b : Block}
    {answered : Bool} (front : net.queue src target = ⟨.block b, answered⟩ :: rest) :
    Sound hash links ((net.taken src target ⟨.block b, answered⟩ rest).handled links target
        ((net.nodes target).onBlock hash messageSize (links.peerId target src) b)) := by
  have longest := sound.longest target
  have backwards : links.linked target src :=
    links.symmetric (sound.linked src target (by simp [front]))
  obtain ⟨found, high⟩ := (sound.underway src target).stored
    ⟨.block b, answered⟩ (by simp [front]) b rfl
  have consistent := (sound.longest src).consistent
  have agree : Agree (net.nodes src).blocks (net.nodes target).blocks :=
    admissible.agree consistent longest.consistent (sound.mined src) (sound.mined target)
  have mem := sound.mined src _ b found high
  have notGenesis := admissible.notGenesis b mem
  have step := longest.blockStep notGenesis messageSize (links.peerId target src)
  generalize (net.nodes target).onBlock hash messageSize
    (links.peerId target src) b = result at step ⊢
  obtain ⟨after, outbox⟩ := result
  have longestAfter := step.longestChain longest notGenesis
  have minedAfter : AllMined net.mined after.blocks := by
    intro k c stored pos
    rcases step.lookup stored pos with before | ⟨rfl, -⟩
    · exact sound.mined target k c before pos
    · exact mem
  have grows : ∀ t, (net.nodes t).blocks.Grows (net.blocksAfter target after t) :=
    grows_blocksAfter step.grows
  have arrived : ∀ c, Packet.mk (.block b) answered = ⟨.block c, true⟩ →
      Known hash (net.blocksAfter target after target) (c.blockHash hash) := by
    intro c shape
    obtain ⟨same, rfl⟩ := Packet.mk.inj shape
    cases same
    rw [blocksAfter, Function.update_self]
    exact step.known (acceptable_of_known consistent longest.consistent
      agree found high (sound.known_front front))
  have ready : Ready hash links (net.taken src target ⟨.block b, answered⟩ rest) target after
      outbox := by
    refine ⟨sound.longest, sound.mined, longestAfter, minedAfter, step.grows,
      ?_, sound.underway_taken front grows arrived, ?_, ?_,
      sound.connected, fun s t busy => sound.linked_taken front busy⟩
    · rw [step.connectedPeers]
      exact fun _ mem => mem
    · exact fun s t _ greeted => sound.served_taken front grows arrived greeted
    · intro t linked
      refine step.messages_suffice longest notGenesis (admissible.chainFits longestAfter minedAfter)
        (admissible.length_lt longestAfter minedAfter) (sound.served_taken front grows arrived)
        (fun greeted => (sound.connected target t greeted).2) ?_
      intro same path leads k inside
      obtain rfl := links.injective linked backwards same
      exact .mono (grows t) k (known_of_leads consistent
        longest.consistent agree found high leads k inside)
  exact ready.sound

end Taken

omit [DecidableEq ι] in
theorem Sound.mined_mono (sound : Sound hash links net)
    {more : List Block} (subset : net.mined ⊆ more) :
    Sound hash links { net with mined := more } where
  longest := sound.longest
  mined i k b found high := subset (sound.mined i k b found high)
  underway := sound.underway
  served := sound.served
  connected := sound.connected
  linked := sound.linked

theorem mine_eq_some {node : BlockchainCppNode}
    {mined : BlockchainCppNode × Block} (mines : node.mine hash = some mined) :
    ∃ nonce, mined.1 = { node with nonce := nonce } := by
  obtain ⟨result, -, returned⟩ := Option.bind_eq_some_iff.mp mines
  cases returned
  exact ⟨result.1, rfl⟩

theorem update_of_mine {node : BlockchainCppNode}
    {mined : BlockchainCppNode × Block} (mines : node.mine hash = some mined) :
    node.update hash messageSize = some (if mined.2.height ≠ 0 then
          mined.1.onBlock hash messageSize 0 mined.2
        else (mined.1, [])) := by
  simp only [BlockchainCppNode.update, mines, Option.bind_eq_bind, Option.bind_some]
  split <;> rfl

theorem Sound.update_block (sound : Sound hash links net)
    (admissible : Admissible hash messageSize net.mined) {b : Block}
    (mem : b ∈ net.mined) (nonce : Bytes) :
    Sound hash links (net.handled links i (BlockchainCppNode.onBlock hash messageSize
        { net.nodes i with nonce := nonce } 0 b)) := by
  have longest := sound.longest i
  have notGenesis := admissible.notGenesis b mem
  generalize shape : ({ net.nodes i with nonce := nonce } : BlockchainCppNode) = node
  have blocks : node.blocks = (net.nodes i).blocks := by rw [← shape]
  have chain : node.blockchain = (net.nodes i).blockchain := by rw [← shape]
  have peers : node.connectedPeers = (net.nodes i).connectedPeers := by rw [← shape]
  have longest : node.LongestChain hash := by
    subst shape
    exact ⟨longest.consistent, longest.main, longest.highest⟩
  have step := longest.blockStep notGenesis messageSize 0
  generalize node.onBlock hash messageSize 0 b = result at step ⊢
  obtain ⟨after, outbox⟩ := result
  have longestAfter := step.longestChain longest notGenesis
  have minedAfter : AllMined net.mined after.blocks := by
    intro k c stored pos
    rcases step.lookup stored pos with before | ⟨rfl, -⟩
    · rw [blocks] at before
      exact sound.mined i k c before pos
    · exact mem
  refine (sound.ready longestAfter minedAfter (blocks ▸ step.grows) ?_ ?_).sound
  · rw [step.connectedPeers, peers]
    exact fun _ mem => mem
  · intro t linked served
    rw [← chain] at served
    refine step.messages_suffice longest notGenesis (admissible.chainFits longestAfter minedAfter)
      (admissible.length_lt longestAfter minedAfter) served ?_ ?_
    · intro greeted
      rw [peers]
      exact (sound.connected i t greeted).2
    · intro zero
      exact absurd zero (links.positive linked)

end Handlers

/-! ## Runs -/

theorem mined_subset_perform {after : Network ι} {action : Action ι}
    (performed : net.perform hash messageSize links action = some after) :
    net.mined ⊆ after.mined := by
  cases action with
  | connect i j =>
    simp only [perform, Option.ite_none_right_eq_some, Option.some.injEq] at performed
    obtain ⟨-, rfl⟩ := performed
    exact fun _ mem => mem
  | deliver src target =>
    simp only [perform] at performed
    split at performed
    · contradiction
    · simp only [Option.ite_none_right_eq_some, Option.some.injEq] at performed
      obtain ⟨-, rfl⟩ := performed
      exact fun _ mem => mem
  | update i =>
    obtain ⟨mined, -, performed⟩ := Option.bind_eq_some_iff.mp performed
    obtain ⟨result, -, performed⟩ := Option.bind_eq_some_iff.mp performed
    cases performed
    intro b mem
    split
    · exact mem
    · exact mem_append_left _ mem

theorem Admissible.mono {mined more : List Block} (admissible : Admissible hash messageSize more)
    (subset : mined ⊆ more) : Admissible hash messageSize mined where
  distinct b mem c mem' := admissible.distinct b (subset mem) c (subset mem')
  notGenesis b mem := admissible.notGenesis b (subset mem)
  low b mem := admissible.low b (subset mem)
  fits b mem := admissible.fits b (subset mem)

/-- Every event keeps the invariant. -/
theorem Sound.perform {after : Network ι} {action : Action ι} (sound : Sound hash links net)
    (performed : net.perform hash messageSize links action = some after)
    (admissible : Admissible hash messageSize after.mined) : Sound hash links after := by
  have admissible' := admissible.mono (mined_subset_perform performed)
  cases action with
  | connect i j =>
    simp only [Network.perform, Option.ite_none_right_eq_some, Option.some.injEq] at performed
    obtain ⟨-, rfl⟩ := performed
    exact sound.connect _
  | deliver src target =>
    simp only [Network.perform] at performed
    split at performed
    · contradiction
    next pkt rest front =>
      simp only [Option.ite_none_right_eq_some, Option.some.injEq] at performed
      obtain ⟨connected, rfl⟩ := performed
      obtain ⟨msg, answered⟩ := pkt
      cases msg with
      | hello name =>
        exact sound.deliver_hello front (admissible'.chainFits
          (sound.longest target) (sound.mined target)) connected
      | block b => exact sound.deliver_block admissible' front
  | update i =>
    obtain ⟨mined, mines, performed⟩ := Option.bind_eq_some_iff.mp performed
    rw [update_of_mine mines] at performed
    cases performed
    obtain ⟨nonce, same⟩ := mine_eq_some mines
    by_cases failed : mined.2.height = 0
    · simp only [failed, ne_eq, not_true_eq_false, if_true, if_false, same]
      exact sound.handled_silent rfl rfl (fun _ mem => mem) fun _ => rfl
    · simp only [failed, ne_eq, not_false_eq_true, if_true, if_false, same] at admissible ⊢
      have sound := sound.mined_mono (subset_append_left net.mined [mined.2])
      exact sound.update_block admissible (by simp) nonce

omit [DecidableEq ι] in
theorem Sound.fresh (names : ι → Bytes) :
    Sound hash links (Network.fresh names) where
  longest _ := .fresh rfl rfl
  mined i k b found := by simp [Network.fresh] at found
  underway i j := ⟨by simp [Network.fresh], trivial⟩
  served i j greeted := by simp [Network.fresh] at greeted
  connected i j greeted := by simp [Network.fresh] at greeted
  linked i j busy := by simp [Network.fresh] at busy

theorem sound_of_performAll {names : ι → Bytes} {actions : List (Action ι)}
    (performed : (Network.fresh names).performAll hash messageSize links actions = some net)
    (admissible : Admissible hash messageSize net.mined) : Sound hash links net := by
  induction actions using reverseRecOn generalizing net with
  | nil =>
    cases performed
    exact .fresh names
  | append_singleton actions action ih =>
    rw [performAll, foldlM_append] at performed
    obtain ⟨before, earlier, last⟩ := Option.bind_eq_some_iff.mp performed
    rw [foldlM_cons] at last
    simp only [foldlM_nil, bind_pure] at last
    have admissible' := admissible.mono (mined_subset_perform last)
    exact (ih earlier admissible').perform last admissible

omit [DecidableEq ι] in
/-- A node to which nothing is under way has the highest block of the other
node. -/
theorem Sound.length_le (sound : Sound hash links net)
    (admissible : Admissible hash messageSize net.mined) {i j : ι}
    (empty : net.queue i j = []) (greeted : net.greeted i j = true) :
    (net.nodes i).blockchain.length ≤ (net.nodes j).blockchain.length := by
  have longest := sound.longest i
  have longest' := sound.longest j
  rcases Nat.eq_zero_or_pos (net.nodes i).blockchain.length with
    zero | pos
  · omega
  · have inside := Nat.sub_lt pos Nat.one_pos
    obtain ⟨b, found, -, height, -⟩ := longest.entry (getElem?_eq_getElem inside)
    have notGenesis := (longest.consistent.proper found (by omega)).notGenesis
    have supplied := sound.served i j greeted _ (getElem_mem inside)
    rw [empty] at supplied
    rcases supplied with known | ⟨c, mem, -⟩
    · obtain ⟨c, found'⟩ := Option.isSome_iff_exists.mp (known.resolve_left notGenesis)
      rcases longest'.consistent _ c found' with ⟨genesis, -⟩ | proper
      · exact absurd genesis notGenesis
      · have agree := admissible.agree longest.consistent
          longest'.consistent (sound.mined i) (sound.mined j)
        obtain rfl := agree _ b c found found' (by omega) proper.height_ne_zero
        have highest := longest'.highest _ b found'
        omega
    · contradiction

/-- In any network of fresh nodes, after any interleaving of events: a block
that was sent after the greeting is never an orphan for its receiver, and when
nothing is under way and every `Hello` has been handled, nodes that are joined
by a path have main chains of the same length. -/
theorem performAll_converges (hash : Bytes → Bytes)
    (messageSize : Message → Nat) (links : Links ι) (names : ι → Bytes)
    (actions : List (Action ι)) (net : Network ι)
    (performed : (Network.fresh names).performAll hash messageSize links actions = some net)
    (distinct : ∀ b ∈ net.mined, ∀ c ∈ net.mined,
      b.blockHash hash = c.blockHash hash → b = c)
    (notGenesis : ∀ b ∈ net.mined, b.blockHash hash ≠ genesisHash hash)
    (low : ∀ b ∈ net.mined, b.height < 2 ^ 32)
    (fits : ∀ b ∈ net.mined, messageSize (.block b) ≤ maxMessageSize) :
    (∀ src target b rest, net.queue src target = ⟨.block b, true⟩ :: rest →
        (validateBlock hash (net.nodes target).blocks b).2 ≠ .noParent) ∧
      ((∀ i j, links.linked i j → net.queue i j = [] ∧ net.greeted i j = true) →
        ∀ i j, Relation.ReflTransGen links.linked i j →
          (net.nodes i).blockchain.length = (net.nodes j).blockchain.length) := by
  have admissible : Admissible hash messageSize net.mined := ⟨distinct, notGenesis, low, fits⟩
  have sound := sound_of_performAll performed admissible
  constructor
  · intro src target b rest front
    exact validateBlock_ne_noParent (sound.known_front front)
  · intro quiet i j path
    have neighbours : ∀ {k l}, links.linked k l →
        (net.nodes k).blockchain.length ≤ (net.nodes l).blockchain.length := by
      intro k l linked
      obtain ⟨empty, greeted⟩ := quiet k l linked
      exact sound.length_le admissible empty greeted
    induction path with
    | refl => rfl
    | tail _ linked ih =>
      rw [ih]
      exact le_antisymm (neighbours linked) (neighbours (links.symmetric linked))

def pairLinks : Links Bool where
  linked i j := i ≠ j
  decideLinked _ _ := inferInstance
  symmetric := Ne.symm
  peerId _ _ := 1
  injective := by decide
  positive := by decide

def pairActions : List (Action Bool) :=
  [.connect false true, .connect true false, .update false, .update false,
    .deliver false true, .deliver false true, .deliver false true,
    .deliver true false, .deliver false true, .deliver false true]

def pairRun : Option (Network Bool) :=
  (Network.fresh fun i => text (if i then "B" else "A")).performAll
    BlockchainCppNode.lowHash (fun _ => 0) pairLinks pairActions

theorem pairRun_isSome : pairRun.isSome := by decide +kernel

def pairNetwork : Network Bool :=
  pairRun.get pairRun_isSome

theorem performAll_converges_pair :
    (∀ i j, pairLinks.linked i j → pairNetwork.queue i j = [] ∧ pairNetwork.greeted i j = true) ∧
      (pairNetwork.nodes false).blockchain.length = 2 ∧
      (pairNetwork.nodes true).blockchain.length = 2 := by
  have quiet : ∀ i j, pairLinks.linked i j →
      pairNetwork.queue i j = [] ∧ pairNetwork.greeted i j = true := by
    decide +kernel
  have long : (pairNetwork.nodes false).blockchain.length = 2 := by decide +kernel
  have result := performAll_converges BlockchainCppNode.lowHash (fun _ => 0)
    pairLinks _ pairActions pairNetwork (Option.some_get pairRun_isSome).symm
    (by decide +kernel) (by decide +kernel) (by decide +kernel) (by decide +kernel)
  have equal := result.2 quiet false true (.single (by decide))
  exact ⟨quiet, long, equal ▸ long⟩

end Network

end AutomatonCore.Blockchain
