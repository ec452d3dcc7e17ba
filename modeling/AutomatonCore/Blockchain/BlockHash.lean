import AutomatonCore.Blockchain.LongestChain

/-!
# What a block hash identifies
-/

namespace AutomatonCore.Blockchain

open Io List

namespace Block

theorem eq_iff_of_data {b c : Block} (same : b.data = c.data)
    (prevHash : b.prevHash.length = c.prevHash.length) :
    b = c ↔ b.miner.length = c.miner.length ∧ b.nonce.length = c.nonce.length := by
  constructor
  · rintro rfl
    exact ⟨rfl, rfl⟩
  · rintro ⟨miner, nonce⟩
    unfold data at same
    obtain ⟨same, nonces⟩ := append_inj' same nonce
    rw [append_assoc, append_assoc] at same
    obtain ⟨miners, same⟩ := append_inj same miner
    obtain ⟨prevHashes, heights⟩ := append_inj same prevHash
    have heights := decimal_injective heights
    cases b
    cases c
    simp_all

theorem exists_digit (b : Block) : ∃ c ∈ b.data, isDigit c = true := by
  obtain ⟨c, rest, shape⟩ := exists_cons_of_ne_nil (decimal_ne_nil b.height)
  have mem : c ∈ decimal b.height := by simp [shape]
  exact ⟨c, by simp [data, mem], isDigit_of_mem_decimal mem⟩

theorem data_ne_automaton (b : Block) : b.data ≠ text "automaton" := by
  intro same
  obtain ⟨c, mem, digit⟩ := b.exists_digit
  rw [same] at mem
  have letters : ∀ c ∈ text "automaton", isDigit c = false := by decide +kernel
  rw [letters c mem] at digit
  contradiction

end Block

/-- The data that a node hashes in the calls. -/
def hashedData (calls : List (Nat × Block)) : Set Bytes :=
  {data | data = text "automaton" ∨ ∃ call ∈ calls, data = call.2.data}

theorem notGenesis_of_injOn {hash : Bytes → Bytes}
    {calls : List (Nat × Block)} (injective : Set.InjOn hash (hashedData calls)) :
    ∀ call ∈ calls, call.2.blockHash hash ≠ genesisHash hash := by
  intro call mem same
  exact call.2.data_ne_automaton (injective (.inr ⟨call, mem, rfl⟩) (.inl rfl) same)

theorem Blocks.Consistent.prevHash_eq {hash : Bytes → Bytes}
    {blocks : Blocks} (consistent : blocks.Consistent hash) {k : Bytes}
    {b : Block} (proper : blocks.Proper hash k b) : ∃ data, b.prevHash = hash data := by
  obtain ⟨path, leads, -⟩ := proper.counted
  generalize b.prevHash = prev at leads
  cases leads with
  | root => exact ⟨_, rfl⟩
  | child link rest =>
    obtain ⟨c, found, high, -⟩ := Blocks.parent_eq_some.mp link
    exact ⟨c.data, (consistent.proper found high).keyed.symm⟩

namespace BlockchainCppNode

variable {hash : Bytes → Bytes} {messageSize : Message → Nat}
  {node : BlockchainCppNode} {calls : List (Nat × Block)} {b : Block}

theorem mem_validBlocks (mem : b ∈ node.validBlocks hash messageSize calls) :
    b.height ≠ 0 ∧ ∃ call ∈ calls, call.2 = b := by
  induction calls generalizing node with
  | nil => contradiction
  | cons call calls ih =>
    have later : ∀ {after : BlockchainCppNode}, b ∈ after.validBlocks hash messageSize calls →
          b.height ≠ 0 ∧ ∃ other ∈ call :: calls, other.2 = b := by
      intro after mem
      obtain ⟨high, other, inside, same⟩ := ih mem
      exact ⟨high, other, mem_cons_of_mem _ inside, same⟩
    unfold validBlocks at mem
    split at mem
    next judged =>
      rcases mem_cons.mp mem with rfl | mem
      · refine ⟨?_, call, mem_cons_self, rfl⟩
        rcases (acceptable_of_valid judged).parent with
          ⟨first, -⟩ | ⟨prev, -, -, height⟩
        · omega
        · omega
      · exact later mem
    · exact later mem

theorem LongestChain.mem_validBlocks_of_lookup (sound : node.LongestChain hash)
    (notGenesis : ∀ call ∈ calls, call.2.blockHash hash ≠ genesisHash hash)
    {k : Bytes}
    (found : (node.onBlocks hash messageSize calls).blocks.lookup k =
      some b) (high : b.height ≠ 0) :
    b ∈ node.validBlocks hash messageSize calls ∨ node.blocks.lookup k = some b := by
  induction calls generalizing node with
  | nil => exact .inr found
  | cons call calls ih =>
    obtain ⟨head, tail⟩ := forall_mem_cons.mp notGenesis
    have step := sound.blockStep head messageSize call.1
    have later := ih (step.longestChain sound head) tail found
    unfold validBlocks
    rcases later with mem | found
    · refine .inl ?_
      split
      · exact mem_cons_of_mem _ mem
      · exact mem
    · rcases step.lookup found high with before | ⟨rfl, acceptable⟩
      · exact .inr before
      · refine .inl ?_
        rw [acceptable.validateBlock]
        exact mem_cons_self

theorem LongestChain.grows_onBlocks (sound : node.LongestChain hash)
    (notGenesis : ∀ call ∈ calls, call.2.blockHash hash ≠ genesisHash hash) :
    node.blocks.Grows (node.onBlocks hash messageSize calls).blocks := by
  induction calls generalizing node with
  | nil => exact .refl _
  | cons call calls ih =>
    obtain ⟨head, tail⟩ := forall_mem_cons.mp notGenesis
    have step := sound.blockStep head messageSize call.1
    intro k b found
    exact ih (step.longestChain sound head) tail k b (step.grows k b found)

theorem LongestChain.lookup_of_mem_validBlocks (sound : node.LongestChain hash)
    (notGenesis : ∀ call ∈ calls, call.2.blockHash hash ≠ genesisHash hash)
    (mem : b ∈ node.validBlocks hash messageSize calls) :
    (node.onBlocks hash messageSize calls).blocks.lookup (b.blockHash hash) = some b := by
  induction calls generalizing node with
  | nil => contradiction
  | cons call calls ih =>
    obtain ⟨head, tail⟩ := forall_mem_cons.mp notGenesis
    have step := sound.blockStep head messageSize call.1
    have sound' := step.longestChain sound head
    unfold validBlocks at mem
    split at mem
    next judged =>
      rcases mem_cons.mp mem with rfl | mem
      · exact sound'.grows_onBlocks tail _ _ (step.lookup_self (acceptable_of_valid judged))
      · exact ih sound' tail mem
    · exact ih sound' tail mem

/-- The hash identifies the data of a block, but the borders between the fields
only if the lengths of the miner and of the nonce are known. -/
theorem LongestChain.eq_iff {other : BlockchainCppNode}
    (sound : node.LongestChain hash) (sound' : other.LongestChain hash)
    (hashLength : ∀ data, (hash data).length = 32) {k : Bytes}
    {c : Block} (found : node.blocks.lookup k = some b)
    (high : b.height ≠ 0) (found' : other.blocks.lookup k = some c) (high' : c.height ≠ 0)
    (injective : hash b.data = hash c.data → b.data = c.data) :
    b.data = c.data ∧ (b = c ↔ b.miner.length = c.miner.length ∧
      b.nonce.length = c.nonce.length) := by
  have proper := sound.consistent.proper found high
  have proper' := sound'.consistent.proper found' high'
  have same := injective (proper.keyed.trans proper'.keyed.symm)
  obtain ⟨prev, shape⟩ := sound.consistent.prevHash_eq proper
  obtain ⟨prev', shape'⟩ := sound'.consistent.prevHash_eq proper'
  refine ⟨same, Block.eq_iff_of_data same ?_⟩
  rw [shape, shape', hashLength, hashLength]

theorem lookup_of_duplicate (judged : (validateBlock hash node.blocks b).2 = .duplicate) :
    ∃ c, node.blocks.lookup (b.blockHash hash) = some c := by
  unfold validateBlock at judged
  simp only at judged
  split_ifs at judged with stored
  exact Option.isSome_iff_exists.mp stored

/-- Two fresh nodes have handled any blocks.  Blocks that both have judged
valid and hold under the same hash have the same data, and so has a block that
makes the first node reject a valid block of the second as a duplicate; they
are equal exactly if their miners are equally long, and their nonces. -/
theorem sameHash_iff (hash : Bytes → Bytes) (messageSize : Message → Nat)
    (first second : BlockchainCppNode) (empty : first.blocks = ∅) (short : first.blockchain = [])
    (empty' : second.blocks = ∅) (short' : second.blockchain = [])
    (calls calls' : List (Nat × Block)) (hashLength : ∀ data, (hash data).length = 32)
    (injective : Set.InjOn hash (hashedData (calls ++ calls'))) :
    (∀ k, ∀ b ∈ first.validBlocks hash messageSize calls,
      ∀ c ∈ second.validBlocks hash messageSize calls',
        (first.onBlocks hash messageSize calls).blocks.lookup k = some b →
        (second.onBlocks hash messageSize calls').blocks.lookup k = some c →
          b.data = c.data ∧ (b = c ↔ b.miner.length = c.miner.length ∧
            b.nonce.length = c.nonce.length)) ∧
      ∀ c ∈ second.validBlocks hash messageSize calls',
        (validateBlock hash (first.onBlocks hash messageSize calls).blocks c).2 = .duplicate →
          ∃ b ∈ first.validBlocks hash messageSize calls, b.data = c.data ∧
            (b = c ↔ b.miner.length = c.miner.length ∧ b.nonce.length = c.nonce.length) := by
  have notGenesis := notGenesis_of_injOn injective
  have earlier : ∀ call ∈ calls, call.2.blockHash hash ≠ genesisHash hash :=
    fun call mem => notGenesis call (mem_append_left _ mem)
  have later : ∀ call ∈ calls', call.2.blockHash hash ≠ genesisHash hash :=
    fun call mem => notGenesis call (mem_append_right _ mem)
  have fresh : first.LongestChain hash := .fresh empty short
  have fresh' : second.LongestChain hash := .fresh empty' short'
  have compare : ∀ {k b c}, b ∈ first.validBlocks hash messageSize calls →
      c ∈ second.validBlocks hash messageSize calls' →
      (first.onBlocks hash messageSize calls).blocks.lookup k = some b →
      (second.onBlocks hash messageSize calls').blocks.lookup k = some c → b.data = c.data ∧
        (b = c ↔ b.miner.length = c.miner.length ∧ b.nonce.length = c.nonce.length) := by
    intro k b c mem mem' found found'
    obtain ⟨high, call, inside, rfl⟩ := mem_validBlocks mem
    obtain ⟨high', call', inside', rfl⟩ := mem_validBlocks mem'
    refine (fresh.onBlocks earlier).eq_iff (fresh'.onBlocks later)
      hashLength found high found' high' (injective ?_ ?_)
    · exact .inr ⟨call, mem_append_left _ inside, rfl⟩
    · exact .inr ⟨call', mem_append_right _ inside', rfl⟩
  refine ⟨fun k b mem c mem' => compare mem mem', ?_⟩
  intro c mem' judged
  have found' := fresh'.lookup_of_mem_validBlocks later mem'
  obtain ⟨b, found⟩ := lookup_of_duplicate judged
  obtain ⟨-, call, inside, rfl⟩ := mem_validBlocks mem'
  have high : b.height ≠ 0 := by
    rcases (fresh.onBlocks earlier).consistent _ b found with
      ⟨genesis, -⟩ | proper
    · exact absurd genesis (later call inside)
    · exact proper.height_ne_zero
  rcases fresh.mem_validBlocks_of_lookup earlier found high with
    mem | before
  · exact ⟨b, mem, compare mem mem' found found'⟩
  · rw [empty] at before
    simp at before

def minedBlock (hash : Bytes → Bytes) : Block :=
  { miner := genesisHash hash ++ text "1", prevHash := genesisHash hash,
    height := 1, nonce := List.replicate 16 0 }

/-- The data of `minedBlock` with other borders between the fields. -/
def shiftedBlock (hash : Bytes → Bytes) : Block :=
  { miner := [], prevHash := genesisHash hash, height := 1,
    nonce := genesisHash hash ++ text "1" ++ List.replicate 16 0 }

def paddedHash (data : Bytes) : Bytes :=
  (0 :: 0 :: 0 :: (data ++ List.replicate 32 0)).take 32

theorem length_paddedHash (data : Bytes) : (paddedHash data).length = 32 := by
  rw [paddedHash, length_take]
  simp only [length_cons, length_append, length_replicate]
  omega

theorem sameHash_iff_shifted :
    (shiftedBlock paddedHash).data = (minedBlock paddedHash).data ∧
      (shiftedBlock paddedHash = minedBlock paddedHash ↔ (shiftedBlock paddedHash).miner.length =
            (minedBlock paddedHash).miner.length ∧
          (shiftedBlock paddedHash).nonce.length = (minedBlock paddedHash).nonce.length) := by
  have injective : Set.InjOn paddedHash (hashedData
      ([(1, shiftedBlock paddedHash)] ++ [(1, minedBlock paddedHash)])) := by
    have same : (shiftedBlock paddedHash).data = (minedBlock paddedHash).data := by decide +kernel
    have ne : paddedHash (text "automaton") ≠ paddedHash (minedBlock paddedHash).data := by
      decide +kernel
    have values : ∀ data ∈ hashedData ([(1, shiftedBlock paddedHash)] ++
          [(1, minedBlock paddedHash)]),
        data = text "automaton" ∨ data = (minedBlock paddedHash).data := by
      rintro data (rfl | ⟨call, mem, rfl⟩)
      · exact .inl rfl
      · rcases mem_pair.mp mem with rfl | rfl
        · exact .inr same
        · exact .inr rfl
    intro data mem data' mem' equal
    rcases values data mem with rfl | rfl <;>
      rcases values data' mem' with rfl | rfl
    · rfl
    · exact absurd equal ne
    · exact absurd equal.symm ne
    · rfl
  exact (sameHash_iff paddedHash (fun _ => 0) { nodeid := text "A" }
    { nodeid := text "B" } rfl rfl rfl rfl [(1, shiftedBlock paddedHash)]
    [(1, minedBlock paddedHash)] length_paddedHash injective).1
    ((minedBlock paddedHash).blockHash paddedHash) _ (by decide +kernel) _
    (by decide +kernel) (by decide +kernel) (by decide +kernel)

/-- Of two different valid blocks with the same hash, the one that arrives
first makes a node reject the other one, which an honest node has mined. -/
theorem sameHash_differs :
    Function.Injective lowHash ∧
      let first := BlockchainCppNode.onBlocks lowHash (fun _ => 0)
        { nodeid := text "A" } [(1, shiftedBlock lowHash)]
      let second := BlockchainCppNode.onBlocks lowHash (fun _ => 0)
        { nodeid := text "B" } [(1, minedBlock lowHash)]
      let k := (minedBlock lowHash).blockHash lowHash
      first.blocks.lookup k = some (shiftedBlock lowHash) ∧
        second.blocks.lookup k = some (minedBlock lowHash) ∧
        (validateBlock lowHash ∅ (shiftedBlock lowHash)).2 = .valid ∧
        (validateBlock lowHash ∅ (minedBlock lowHash)).2 = .valid ∧
        shiftedBlock lowHash ≠ minedBlock lowHash ∧
        (validateBlock lowHash first.blocks (minedBlock lowHash)).2 = .duplicate ∧
        (BlockchainCppNode.mine lowHash
          { nodeid := genesisHash lowHash ++ text "1" }).map Prod.snd =
          some (minedBlock lowHash) := by
  refine ⟨?_, ?_⟩
  · intro data data' same
    simpa [lowHash] using same
  · decide +kernel

end BlockchainCppNode

end AutomatonCore.Blockchain
