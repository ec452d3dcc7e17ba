import AutomatonCore.Testnet.Testnet

/-!
# Launching and removing the nodes of a testnet
-/

namespace AutomatonCore.Testnet

open Io Network List

/-! ## Ids and addresses -/

theorem nodeId_injective {id other : Bytes} {i j : Nat}
    (same : nodeId id i = nodeId other j) : id = other ∧ i = j := by
  have noUnderscore (num : Nat) : (95 : UInt8) ∉ decimal num :=
    fun mem => absurd (isDigit_of_mem_decimal mem) (by decide)
  have shorter {first second between : Bytes} {m n : Nat} (whole : second = first ++ between)
      (rest : 95 :: decimal m = between ++ 95 :: decimal n) : first = second ∧ m = n := by
    cases between with
    | nil =>
      injection rest with _ rest
      exact ⟨by simpa using whole.symm, decimal_injective rest⟩
    | cons c between =>
      injection rest with _ rest
      refine absurd ?_ (noUnderscore m)
      rw [rest]
      exact mem_append_right _ mem_cons_self
  have split : id ++ 95 :: decimal i = other ++ 95 :: decimal j := by
    rw [nodeId, nodeId, append_assoc, append_assoc] at same
    exact same
  rcases append_eq_append_iff.mp split with
    ⟨between, whole, rest⟩ | ⟨between, whole, rest⟩
  · exact shorter whole rest
  · obtain ⟨sameId, sameNumber⟩ := shorter whole rest
    exact ⟨sameId.symm, sameNumber.symm⟩

theorem peerAddress_injective {k l : Nat} (same : peerAddress k = peerAddress l) : k = l :=
  decimal_injective (append_cancel_left same)

theorem acceptorAddress_eq (i : Nat) :
    acceptorAddress i = text "sim://" ++ intercalate [58] ([100, 10000, i].map decimal) := by
  have hundred : decimal 100 = text "100" := by decide +kernel
  have bandwidth : decimal 10000 = text "10000" := by decide +kernel
  simp only [map_cons, map_nil, intercalate_cons_cons, intercalate_singleton, hundred, bandwidth]
  rfl

theorem peerAddress_eq (k : Nat) :
    peerAddress k = text "sim://" ++ intercalate [58] ([1, 20, 10000, k].map decimal) := by
  have one : decimal 1 = text "1" := by decide +kernel
  have twenty : decimal 20 = text "20" := by decide +kernel
  have bandwidth : decimal 10000 = text "10000" := by decide +kernel
  simp only [map_cons, map_nil, intercalate_cons_cons,
    intercalate_singleton, one, twenty, bandwidth]
  rfl

theorem setAcceptor_acceptorAddress (sim : Simulator) (object : Nat) {i : Nat} (fits : i < 2 ^ 32) :
    setAcceptor sim (acceptorAddress i) object =
      if i = 0 then none
      else some (i, addAcceptor sim i ⟨10000, true⟩ object) := by
  have read : numbers (intercalate [58] ([100, 10000, i].map decimal)) = some [100, 10000, i] := by
    apply numbers_intercalate (cons_ne_nil _ _)
    have : i < 2 ^ 64 := by omega
    simpa using this
  have parsed :
      parseAcceptorAddress (intercalate [58] ([100, 10000, i].map decimal)) = some (10000, i) := by
    rw [parseAcceptorAddress, read]
    dsimp only
    rw [Nat.mod_eq_of_lt fits]
    rfl
  rw [setAcceptor, acceptorAddress_eq, addressParser_numbers]
  dsimp only
  rw [if_pos rfl, parsed]

theorem createConnection_peerAddress (sim : Simulator) {k : Nat} (fits : k < 2 ^ 32) :
    createConnection sim (peerAddress k) =
      ({ sim with network := sim.network.create ⟨1, 20, 10000⟩ k }, some sim.network.created) := by
  have read :
      numbers (intercalate [58] ([1, 20, 10000, k].map decimal)) = some [1, 20, 10000, k] := by
    apply numbers_intercalate (cons_ne_nil _ _)
    have : k < 2 ^ 64 := by omega
    simpa using this
  have parsed : parseConnectionAddress
          (intercalate [58] ([1, 20, 10000, k].map decimal)) = some (⟨1, 20, 10000⟩, k) := by
    rw [parseConnectionAddress, read]
    dsimp only
    rw [Nat.mod_eq_of_lt fits]
    rfl
  rw [createConnection, peerAddress_eq, addressParser_numbers]
  dsimp only
  rw [parsed]
  rfl

/-! ## Launching -/

structure SameConnections (before after : Simulator) : Prop where
  tasks : after.tasks = before.tasks
  objects : after.network.objects = before.network.objects
  created : after.network.created = before.network.created

theorem SameConnections.refl (sim : Simulator) : SameConnections sim sim := ⟨rfl, rfl, rfl⟩

theorem SameConnections.trans {before middle after : Simulator}
    (first : SameConnections before middle) (second : SameConnections middle after) :
    SameConnections before after where
  tasks := second.tasks.trans first.tasks
  objects := second.objects.trans first.objects
  created := second.created.trans first.created

namespace Testnets

/-- A node puts its acceptor into the table. -/
def launch (state : Testnets) (id : Bytes) (i : Nat) : Testnets :=
  { state with
    simulator := addAcceptor state.simulator i ⟨10000, true⟩ state.launched
    nodes :=
      state.nodes.insert (nodeId id i) { object := state.launched, acceptor := i }
    launched := state.launched + 1 }

@[simp]
theorem launch_launched (s : Testnets) (id : Bytes) (i : Nat) :
    (s.launch id i).launched = s.launched + 1 :=
  rfl

theorem sameConnections_launch (s : Testnets) (id : Bytes) (i : Nat) :
    SameConnections s.simulator (s.launch id i).simulator :=
  ⟨rfl, rfl, rfl⟩

variable {s : Testnets} {id : Bytes} {call : TestnetCall}

theorem launchNode_launch {i : Nat}
    (unknown : s.nodes.lookup (nodeId id i) = none) (pos : i ≠ 0) (fits : i < 2 ^ 32) :
    s.launchNode true (nodeId id i) (acceptorAddress i) = (s.launch id i, true) := by
  rw [launchNode, unknown]
  rw [setAcceptor_acceptorAddress _ _ fits, if_neg pos]
  rfl

theorem launchNode_zero (unknown : s.nodes.lookup (nodeId id 0) = none) :
    s.launchNode true (nodeId id 0) (acceptorAddress 0) = (s, false) := by
  rw [launchNode, unknown]
  rw [if_pos rfl, setAcceptor_acceptorAddress _ _ (by decide), if_pos rfl]

def launchFrom (id : Bytes) : Nat → Nat → Testnets → Testnets
  | 0, _, state => state
  | count + 1, i, state => launchFrom id count (i + 1) (state.launch id i)

/-- The nodes of a testnet have been launched from `first` on: they have new
numbers, and their acceptors are at their addresses. -/
structure Launched (id : Bytes) (first count : Nat) (before after : Testnets) : Prop where
  launched : after.launched = before.launched + count
  testnets : after.testnets = before.testnets
  connections : SameConnections before.simulator after.simulator
  node : ∀ j, first ≤ j → j < first + count → after.nodes.lookup (nodeId id j) =
        some { object := before.launched + (j - first), acceptor := j }
  otherNode : ∀ nid, (∀ j, first ≤ j → j < first + count → nid ≠ nodeId id j) →
      after.nodes.lookup nid = before.nodes.lookup nid
  acceptor :
    ∀ j, first ≤ j → j < first + count → after.simulator.network.acceptors j = some ⟨10000, true⟩ ∧
      after.simulator.handlers j = before.launched + (j - first)
  otherAcceptor : ∀ j, j < first ∨ first + count ≤ j → after.simulator.network.acceptors j =
          before.simulator.network.acceptors j ∧
        after.simulator.handlers j = before.simulator.handlers j

theorem launched_launchFrom (id : Bytes) (first count : Nat) (s : Testnets) :
    Launched id first count s (launchFrom id count first s) := by
  induction count generalizing first s with
  | zero => exact ⟨rfl, rfl, .refl _, by omega, fun _ _ => rfl, by omega, fun _ _ => ⟨rfl, rfl⟩⟩
  | succ count ih =>
    have rest := ih (first + 1) (s.launch id first)
    refine ⟨?_, rest.testnets, ?_, ?_, ?_, ?_, ?_⟩
    · rw [launchFrom, rest.launched, launch_launched]
      omega
    · exact (sameConnections_launch s id first).trans rest.connections
    · intro j above below
      rcases Nat.eq_or_lt_of_le above with rfl | above
      · rw [launchFrom, rest.otherNode]
        · rw [launch, AList.lookup_insert, Nat.sub_self]
          rfl
        · intro j above _ same
          have := (nodeId_injective same).2
          omega
      · rw [launchFrom, rest.node j above (by omega), launch_launched]
        congr 2
        omega
    · intro nid others
      rw [launchFrom, rest.otherNode nid fun j above below => others j (by omega) (by omega)]
      exact AList.lookup_insert_ne (others first (le_rfl) (by omega))
    · intro j above below
      rcases Nat.eq_or_lt_of_le above with rfl | above
      · obtain ⟨acceptor, handler⟩ := rest.otherAcceptor first (.inl (Nat.lt_succ_self _))
        rw [launchFrom, acceptor, handler, Nat.sub_self]
        exact ⟨Function.update_self .., Function.update_self ..⟩
      · obtain ⟨acceptor, handler⟩ := rest.acceptor j above (by omega)
        refine ⟨acceptor, handler.trans ?_⟩
        rw [launch_launched]
        omega
    · intro j outside
      obtain ⟨acceptor, handler⟩ := rest.otherAcceptor j (by omega)
      have other : j ≠ first := by omega
      rw [launchFrom, acceptor, handler]
      exact ⟨Function.update_of_ne other .., Function.update_of_ne other ..⟩

/-- With `n = 2 ^ 32 - 1` nodes the counter of the loop wraps around; the node
`0` cannot have an acceptor. -/
theorem initLoop_registered (registered : call.registered = true) {count fuel i : Nat}
    (pos : 1 ≤ i) (whole : i + count = call.numberNodes.toNat + 1) (enough : count < fuel)
    (unknown : ∀ j, j = 0 ∨ i ≤ j → s.nodes.lookup (nodeId call.id j) = none) :
    initLoop call fuel (i % 2 ^ 32) s =
      (launchFrom call.id count i s, (List.range' i count).map (nodeId call.id),
        decide (call.numberNodes.toNat + 1 < 2 ^ 32)) := by
  have small := call.numberNodes.toNat_lt
  induction count generalizing fuel i s with
  | zero =>
    obtain ⟨fuel, rfl⟩ := Nat.exists_eq_succ_of_ne_zero (ne_of_gt enough)
    obtain rfl : i = call.numberNodes.toNat + 1 := whole
    by_cases last : call.numberNodes.toNat + 1 < 2 ^ 32
    · rw [initLoop, if_neg (by omega), decide_eq_true last]
      rfl
    · have wrapped : (call.numberNodes.toNat + 1) % 2 ^ 32 = 0 := by omega
      rw [wrapped, initLoop, if_pos (Nat.zero_le _), registered,
        launchNode_zero (unknown 0 (.inl rfl)), decide_eq_false last]
      rfl
  | succ count ih =>
    obtain ⟨fuel, rfl⟩ := Nat.exists_eq_succ_of_ne_zero
      (ne_of_gt (lt_of_le_of_lt (Nat.zero_le _) enough))
    have fits : i < 2 ^ 32 := by omega
    rw [Nat.mod_eq_of_lt fits, initLoop, if_pos (by omega), registered,
      launchNode_launch (unknown i (.inr (le_rfl))) (by omega) fits]
    dsimp only
    rw [ih (by omega) (by omega) (by omega)]
    · rfl
    · intro j outside
      have other : nodeId call.id j ≠ nodeId call.id i := by
        intro same
        have := (nodeId_injective same).2
        omega
      rw [launch, AList.lookup_insert_ne other]
      exact unknown j (by omega)

theorem init_registered (registered : call.registered = true)
    (unknown : ∀ j, s.nodes.lookup (nodeId call.id j) = none) :
    s.init call = (launchFrom call.id call.numberNodes.toNat 1 s,
        (List.range' 1 call.numberNodes.toNat).map (nodeId call.id),
        decide (call.numberNodes.toNat + 1 < 2 ^ 32)) :=
  initLoop_registered registered (le_rfl) (add_comm _ _)
    (Nat.lt_succ_self _) fun j _ => unknown j

theorem init_unregistered (unregistered : call.registered = false) (s : Testnets) :
    s.init call = (s, [], decide (call.numberNodes.toNat = 0)) := by
  rw [init, initLoop]
  split
  · rw [unregistered, decide_eq_false (by omega), launchNode]
    cases s.nodes.lookup (nodeId call.id 1) <;> rfl
  · rw [decide_eq_true (by omega)]

/-! ## Removing -/

/-- The acceptors of removed nodes stay in the table. -/
structure Removed (ids : List Bytes) (before after : Testnets) : Prop where
  launched : after.launched = before.launched
  testnets : after.testnets = before.testnets
  connections : SameConnections before.simulator after.simulator
  acceptors : ∀ k,
      (after.simulator.network.acceptors k).isSome = (before.simulator.network.acceptors k).isSome
  handlers : after.simulator.handlers = before.simulator.handlers
  nodes : ∀ nid, after.nodes.lookup nid =
        if nid ∈ ids then none else before.nodes.lookup nid

theorem stopAccepting_acceptors (sim : Simulator) (node : SimulatedNode) (k : Nat) :
    ((stopAccepting sim node).network.acceptors k).isSome = (sim.network.acceptors k).isSome := by
  unfold stopAccepting
  split
  · rfl
  next acceptor found =>
      split
      · simp only [addAcceptor, Function.update_apply]
        split
        next here => rw [here, found]; rfl
        · rfl
      · rfl

theorem stopAccepting_handlers (sim : Simulator) (node : SimulatedNode) :
    (stopAccepting sim node).handlers = sim.handlers := by
  unfold stopAccepting
  split
  · rfl
  · split
    next own => exact Function.update_eq_self_iff.mpr own.symm
    · rfl

theorem sameConnections_stopAccepting (sim : Simulator) (node : SimulatedNode) :
    SameConnections sim (stopAccepting sim node) := by
  unfold stopAccepting
  split
  · exact .refl _
  · split
    · exact ⟨rfl, rfl, rfl⟩
    · exact .refl _

theorem removed_removeNode (rand : Nat → Nat)
    (alone : ∀ node ∈ s.nodes.lookup id, node.knownPeers = []) :
    Removed [id] s (s.removeNode rand id) := by
  unfold removeNode
  cases found : s.nodes.lookup id with
  | none =>
    refine ⟨rfl, rfl, .refl _, fun _ => rfl, rfl, fun nid => ?_⟩
    dsimp only
    split
    next mem => rw [mem_singleton.mp mem, found]
    · rfl
  | some node =>
    dsimp only
    rw [alone node found]
    refine ⟨rfl, rfl, sameConnections_stopAccepting _ _,
        stopAccepting_acceptors _ _, stopAccepting_handlers _ _, fun nid => ?_⟩
    split
    next mem =>
        rw [mem_singleton.mp mem]
        exact AList.lookup_erase _ _
    next other =>
        exact AList.lookup_erase_ne fun same => other (mem_singleton.mpr same)

theorem Removed.cons {ids : List Bytes}
    {before middle after : Testnets} (first : Removed [id] before middle)
    (rest : Removed ids middle after) :
    Removed (id :: ids) before after where
  launched := rest.launched.trans first.launched
  testnets := rest.testnets.trans first.testnets
  connections := first.connections.trans rest.connections
  acceptors k := (rest.acceptors k).trans (first.acceptors k)
  handlers := rest.handlers.trans first.handlers
  nodes nid := by
    rw [rest.nodes, first.nodes]
    by_cases here : nid = id
    · simp [here]
    · simp [here]

theorem removed_all (rand : Nat → Nat)
    {ids : List Bytes} (alone : ∀ id ∈ ids, ∀ node ∈ s.nodes.lookup id, node.knownPeers = []) :
    Removed ids s (ids.foldl (removeNode rand) s) := by
  induction ids generalizing s with
  | nil =>
    refine ⟨rfl, rfl, .refl _, fun _ => rfl, rfl, fun nid => ?_⟩
    rfl
  | cons id ids ih =>
    have first := removed_removeNode rand (alone id mem_cons_self)
    refine first.cons (ih ?_)
    intro other mem node found
    rw [first.nodes] at found
    split at found
    · cases found
    · exact alone other (mem_cons_of_mem _ mem) node found

end Testnets

end AutomatonCore.Testnet
