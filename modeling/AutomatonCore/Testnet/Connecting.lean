import AutomatonCore.Network.Routing
import AutomatonCore.Testnet.Launching

/-!
# Connecting the nodes of a testnet
-/

namespace AutomatonCore.Network.Simulator

variable {sim : Simulator} {conn other : Nat}

theorem remote_put {net : SimulatedNetwork}
    {object : ConnectionObject} (same : object.remoteAddress = (net.objects conn).remoteAddress) :
    ((net.put conn object).objects other).remoteAddress = (net.objects other).remoteAddress := by
  change (Function.update net.objects conn object other).remoteAddress = _
  rw [Function.update_apply]
  split
  next equal => rw [equal, same]
  · rfl

theorem remote_connect (random : Nat) :
    ((sim.connect conn random).object other).remoteAddress =
      (sim.object other).remoteAddress := by
  unfold connect
  split
  · rfl
  · refine (remote_put (by rfl)).trans ?_
    exact (remote_put (by rfl)).trans (remote_put (by rfl))

theorem created_connect (random : Nat) :
    (sim.connect conn random).network.created = sim.network.created := by
  unfold connect
  split <;> rfl

theorem tasks_connect (random : Nat) (leads : (sim.object conn).remoteAddress ≠ 0) :
    ∃ start src time, (sim.connect conn random).tasks = sim.tasks ++
          [{ time := start, task := .handleRequest src (sim.object conn).remoteAddress,
             issued := some (conn, time) }] := by
  have here : sim.connect conn random = _ := if_neg leads
  have remote : (((sim.network.setState conn .connecting).addConnection
        conn).objects conn).remoteAddress = (sim.object conn).remoteAddress :=
    (remote_put (by rfl)).trans (remote_put (by rfl))
  rw [here, ← remote]
  exact ⟨_, _, _, rfl⟩

end AutomatonCore.Network.Simulator

namespace AutomatonCore.Testnet

open Io Network List

/-! ## The simulation while nodes connect -/

/-- No task is lost, and no connection gets another address. -/
structure Grows (before after : Simulator) : Prop where
  tasks : before.tasks ⊆ after.tasks
  created : before.network.created ≤ after.network.created
  remote :
    ∀ c < before.network.created, (after.object c).remoteAddress = (before.object c).remoteAddress

theorem Grows.refl (sim : Simulator) : Grows sim sim :=
  ⟨List.Subset.refl _, le_rfl, fun _ _ => rfl⟩

theorem Grows.trans {before middle after : Simulator}
    (first : Grows before middle) (second : Grows middle after) :
    Grows before after where
  tasks := List.Subset.trans first.tasks second.tasks
  created := le_trans first.created second.created
  remote c created :=
    (second.remote c (lt_of_lt_of_le created first.created)).trans (first.remote c created)

theorem SameConnections.grows {before after : Simulator}
    (same : SameConnections before after) : Grows before after where
  tasks := by rw [same.tasks]; exact List.Subset.refl _
  created := le_of_eq same.created.symm
  remote c _ := by rw [Simulator.object, same.objects]; rfl

def RequestOf (connection : Nat) (entry : Scheduled) : Prop :=
  entry.task.isRequest = true ∧ entry.issued.map Prod.fst = some connection

/-- A request goes to the remote address of its connection. -/
def RequestsSound (sim : Simulator) : Prop :=
  ∀ entry ∈ sim.tasks, ∀ c, RequestOf c entry → c < sim.network.created ∧
    (sim.object c).remoteAddress ≠ 0 ∧
    ∃ source, entry.task = .handleRequest source (sim.object c).remoteAddress

theorem RequestsSound.same {before after : Simulator}
    (sound : RequestsSound before) (same : SameConnections before after) : RequestsSound after := by
  unfold RequestsSound Simulator.object
  rw [same.tasks, same.created, same.objects]
  exact sound

theorem grows_create (sim : Simulator) (params : ConnectionParams) (remote : Nat) :
    Grows sim { sim with network := sim.network.create params remote } where
  tasks := List.Subset.refl _
  created := Nat.le_succ _
  remote _ created :=
    congrArg ConnectionObject.remoteAddress (Function.update_of_ne (ne_of_lt created) ..)

theorem RequestsSound.create {sim : Simulator}
    (sound : RequestsSound sim) (params : ConnectionParams) (remote : Nat) :
    RequestsSound { sim with network := sim.network.create params remote } := by
  intro e mem c requestOf
  obtain ⟨created, leads, src, task⟩ := sound e mem c requestOf
  have same := (grows_create sim params remote).remote c created
  refine ⟨Nat.lt_succ_of_lt created, ?_, src, ?_⟩
  · rw [same]
    exact leads
  · rw [same]
    exact task

theorem grows_connect (sim : Simulator) (conn random : Nat) :
    Grows sim (sim.connect conn random) where
  tasks := by
    by_cases nowhere : (sim.object conn).remoteAddress = 0
    · have here : sim.connect conn random = _ := if_pos nowhere
      rw [here]
      exact List.Subset.refl _
    · obtain ⟨_, _, _, tasks⟩ := Simulator.tasks_connect random nowhere
      rw [tasks]
      exact subset_append_left _ _
  created := le_of_eq (Simulator.created_connect random).symm
  remote _ _ := Simulator.remote_connect random

theorem RequestsSound.connect {sim : Simulator} (sound : RequestsSound sim) {conn : Nat}
    (created : conn < sim.network.created) (random : Nat) :
    RequestsSound (sim.connect conn random) := by
  by_cases nowhere : (sim.object conn).remoteAddress = 0
  · have here : sim.connect conn random = _ := if_pos nowhere
    rw [here]
    exact sound
  · obtain ⟨start, src, time, tasks⟩ := Simulator.tasks_connect random nowhere
    intro e mem c requestOf
    rw [Simulator.created_connect, Simulator.remote_connect]
    rw [tasks, mem_append] at mem
    rcases mem with mem | mem
    · exact sound e mem c requestOf
    · obtain rfl := mem_singleton.mp mem
      obtain rfl : conn = c := Option.some.inj requestOf.2
      exact ⟨created, nowhere, src, rfl⟩

theorem requested_connect {sim : Simulator} {conn : Nat} (random : Nat)
    (leads : (sim.object conn).remoteAddress ≠ 0) :
    ∃ e ∈ (sim.connect conn random).tasks, RequestOf conn e := by
  obtain ⟨start, src, time, tasks⟩ := Simulator.tasks_connect random leads
  rw [tasks]
  exact ⟨_, mem_append_right _ (mem_singleton_self _), rfl, rfl⟩

/-! ## Nodes -/

/-- A peer has a connection to its address, and its request is scheduled until
it is processed. -/
def Known (sim : Simulator) (peer : Peer) : Prop :=
  ∃ k < 2 ^ 32, ∃ c < sim.network.created, peer.address = peerAddress k ∧
    peer.connection = some c ∧ (sim.object c).remoteAddress = k ∧
    (k ≠ 0 → ∃ entry ∈ sim.tasks, RequestOf c entry)

theorem Known.grows {before after : Simulator} {peer : Peer}
    (known : Known before peer) (grows : Grows before after) : Known after peer := by
  obtain ⟨k, fits, c, created, addr, conn, remote, requested⟩ := known
  refine ⟨k, fits, c, lt_of_lt_of_le created grows.created, addr,
      conn, (grows.remote c created).trans remote, ?_⟩
  intro leads
  obtain ⟨e, mem, requestOf⟩ := requested leads
  exact ⟨e, grows.tasks mem, requestOf⟩

structure NodeSound (sim : Simulator) (launched : Nat) (node : SimulatedNode) : Prop where
  object : node.object < launched
  unconnected : node.connectedPeers = []
  ids : ∀ peer ∈ node.knownPeers, peer.id ≤ node.peerIds
  known : ∀ peer ∈ node.knownPeers, Known sim peer

theorem NodeSound.grows {before after : Simulator} {launched further : Nat} {node : SimulatedNode}
    (sound : NodeSound before launched node) (grows : Grows before after)
    (later : launched ≤ further) : NodeSound after further node where
  object := lt_of_lt_of_le sound.object later
  unconnected := sound.unconnected
  ids := sound.ids
  known peer mem := (sound.known peer mem).grows grows

structure SameAcceptors (before after : Simulator) : Prop where
  acceptors : after.network.acceptors = before.network.acceptors
  handlers : after.handlers = before.handlers

theorem SameAcceptors.trans {before middle after : Simulator} (first : SameAcceptors before middle)
    (second : SameAcceptors middle after) : SameAcceptors before after where
  acceptors := second.acceptors.trans first.acceptors
  handlers := second.handlers.trans first.handlers

theorem sameAcceptors_connect (sim : Simulator) (conn random : Nat) :
    SameAcceptors sim (sim.connect conn random) := by
  unfold Simulator.connect
  split <;> exact ⟨rfl, rfl⟩

theorem node_connect_cases {node : SimulatedNode} {sim : Simulator}
    {launched : Nat} (sound : NodeSound sim launched node) (rand : Nat → Nat) (id : Nat) :
    node.connect sim rand id = sim ∨ ∃ c < sim.network.created,
      node.connect sim rand id = sim.connect c (rand c) := by
  unfold SimulatedNode.connect Node.connect
  split
  · exact .inl rfl
  · split
    next c known =>
        obtain ⟨peer, found, info⟩ := Option.map_eq_some_iff.mp known
        obtain ⟨_, _, d, created, _, conn, _⟩ := sound.known peer (mem_of_find?_eq_some found)
        obtain rfl : d = c := by simpa [conn] using congrArg Node.PeerInfo.connection info
        split
        · exact .inr ⟨d, created, rfl⟩
        · exact .inl rfl
    · exact .inl rfl

def SimulatedNode.withPeer (node : SimulatedNode) (address : Bytes) (c : Nat) : SimulatedNode :=
  { node with
    knownPeers := node.knownPeers ++ [⟨⟨some c⟩, node.peerIds + 1, address⟩]
    peerIds := node.peerIds + 1 }

theorem node_connect_new {node : SimulatedNode} {sim : Simulator}
    (unconnected : node.connectedPeers = [])
    (ids : ∀ peer ∈ node.knownPeers, peer.id ≤ node.peerIds)
    {addr : Bytes} {c : Nat}
    (disconnected : (sim.object c).connectionState = .disconnected) (rand : Nat → Nat) :
    (node.withPeer addr c).connect sim rand (node.peerIds + 1) =
      sim.connect c (rand c) := by
  have notBefore : node.knownPeers.find? (fun peer => peer.id = node.peerIds + 1) = none := by
    rw [List.find?_eq_none]
    intro peer mem
    have := ids peer mem
    simp only [decide_eq_true_eq]
    omega
  have info : (node.withPeer addr c).toNode.knownPeers (node.peerIds + 1) = some ⟨some c⟩ := by
    simp [SimulatedNode.toNode, SimulatedNode.withPeer, notBefore]
  rw [SimulatedNode.connect, Node.connect, info, if_neg]
  · exact if_pos disconnected
  · simp [SimulatedNode.toNode, SimulatedNode.withPeer, unconnected]

/-! ## Testnets -/

/-- The invariant of the testnets. -/
structure Consistent (state : Testnets) : Prop where
  nodes : ∀ nid, ∀ node ∈ state.nodes.lookup nid, NodeSound state.simulator state.launched node
  requests : RequestsSound state.simulator

/-- What `testnet::connect` changes if the pairs `asked` are connected. -/
structure Wired (asked : Bytes → Bytes → Prop) (before after : Testnets) : Prop where
  launched : after.launched = before.launched
  testnets : after.testnets = before.testnets
  acceptors : SameAcceptors before.simulator after.simulator
  grows : Grows before.simulator after.simulator
  others : ∀ nid, (∀ address, ¬asked nid address) → after.nodes.lookup nid = before.nodes.lookup nid
  kept : ∀ nid, ∀ node ∈ before.nodes.lookup nid, ∃ later ∈ after.nodes.lookup nid,
      later.object = node.object ∧ node.knownPeers ⊆ later.knownPeers
  origin : ∀ nid, ∀ later ∈ after.nodes.lookup nid, ∃ node ∈ before.nodes.lookup nid,
      ∀ peer ∈ later.knownPeers, peer ∈ node.knownPeers ∨ asked nid peer.address

def Knows (state : Testnets) (nid address : Bytes) : Prop :=
  ∃ node ∈ state.nodes.lookup nid, ∃ peer ∈ node.knownPeers, peer.address = address

namespace Wired

variable {asked : Bytes → Bytes → Prop} {before middle after : Testnets}

theorem refl (s : Testnets) : Wired asked s s where
  launched := rfl
  testnets := rfl
  acceptors := ⟨rfl, rfl⟩
  grows := .refl _
  others _ _ := rfl
  kept _ node found := ⟨node, found, rfl, List.Subset.refl _⟩
  origin _ node found := ⟨node, found, fun _ mem => .inl mem⟩

theorem trans (first : Wired asked before middle)
    (second : Wired asked middle after) : Wired asked before after where
  launched := second.launched.trans first.launched
  testnets := second.testnets.trans first.testnets
  acceptors := first.acceptors.trans second.acceptors
  grows := first.grows.trans second.grows
  others nid unasked := (second.others nid unasked).trans (first.others nid unasked)
  kept nid node found := by
    obtain ⟨later, foundLater, object, peers⟩ := first.kept nid node found
    obtain ⟨last, foundLast, sameObject, morePeers⟩ := second.kept nid later foundLater
    exact ⟨last, foundLast, sameObject.trans object, List.Subset.trans peers morePeers⟩
  origin nid last found := by
    obtain ⟨later, foundLater, fromLater⟩ := second.origin nid last found
    obtain ⟨node, foundNode, fromNode⟩ := first.origin nid later foundLater
    refine ⟨node, foundNode, fun peer mem => ?_⟩
    rcases fromLater peer mem with mem | wasAsked
    · exact fromNode peer mem
    · exact .inr wasAsked

theorem knows (wired : Wired asked before after) {nid addr : Bytes}
    (known : Knows before nid addr) : Knows after nid addr := by
  obtain ⟨node, found, peer, mem, same⟩ := known
  obtain ⟨later, foundLater, _, peers⟩ := wired.kept nid node found
  exact ⟨later, foundLater, peer, peers mem, same⟩

end Wired

namespace Testnets

variable {s : Testnets} {asked : Bytes → Bytes → Prop}

variable {id : Bytes} {node known : SimulatedNode} {sim : Simulator} {k : UInt32}

def withNode (state : Testnets) (id : Bytes) (node : SimulatedNode)
    (sim : Simulator) : Testnets :=
  { state with
    nodes := state.nodes.insert id node
    simulator := sim }

theorem mem_lookup_withNode {nid : Bytes} {later : SimulatedNode} :
    later ∈ (s.withNode id known sim).nodes.lookup nid ↔
      nid = id ∧ later = known ∨ nid ≠ id ∧ later ∈ s.nodes.lookup nid := by
  by_cases here : nid = id
  · subst here
    simp [withNode, eq_comm]
  · simp [withNode, here]

theorem wired_withNode (found : node ∈ s.nodes.lookup id)
    (object : known.object = node.object) (peers : node.knownPeers ⊆ known.knownPeers)
    (origin : ∀ peer ∈ known.knownPeers, peer ∈ node.knownPeers ∨ asked id peer.address)
    (isAsked : ∃ addr, asked id addr) (acceptors : SameAcceptors s.simulator sim)
    (grows : Grows s.simulator sim) : Wired asked s (s.withNode id known sim) where
  launched := rfl
  testnets := rfl
  acceptors := acceptors
  grows := grows
  others nid unasked := by
    apply AList.lookup_insert_ne
    rintro rfl
    obtain ⟨addr, wasAsked⟩ := isAsked
    exact unasked addr wasAsked
  kept nid earlier foundEarlier := by
    by_cases here : nid = id
    · subst here
      obtain rfl := Option.mem_unique foundEarlier found
      exact ⟨known, mem_lookup_withNode.mpr (.inl ⟨rfl, rfl⟩), object, peers⟩
    · exact ⟨earlier, mem_lookup_withNode.mpr (.inr ⟨here, foundEarlier⟩), rfl,
        List.Subset.refl _⟩
  origin nid later foundLater := by
    rcases mem_lookup_withNode.mp foundLater with ⟨rfl, rfl⟩ | ⟨_, before⟩
    · exact ⟨node, found, origin⟩
    · exact ⟨later, before, fun _ mem => .inl mem⟩

theorem consistent_withNode (consistent : Consistent s)
    (sound : NodeSound sim s.launched known) (grows : Grows s.simulator sim)
    (requests : RequestsSound sim) : Consistent (s.withNode id known sim) where
  nodes nid later found := by
    rcases mem_lookup_withNode.mp found with ⟨rfl, rfl⟩ | ⟨_, before⟩
    · exact sound
    · exact (consistent.nodes nid later before).grows grows (le_rfl)
  requests := requests

theorem wired_connect_known (consistent : Consistent s) (rand : Nat → Nat) {addr : Bytes}
    (found : s.nodes.lookup id = some node) (isAsked : asked id addr) (peer : Nat) :
    Wired asked s (s.withNode id node (node.connect s.simulator rand peer)) ∧
      Consistent (s.withNode id node (node.connect s.simulator rand peer)) := by
  have sound := consistent.nodes id node found
  have connected : SameAcceptors s.simulator (node.connect s.simulator rand peer) ∧
        Grows s.simulator (node.connect s.simulator rand peer) ∧
          RequestsSound (node.connect s.simulator rand peer) := by
    rcases node_connect_cases sound rand peer with same | ⟨c, created, same⟩
    · rw [same]
      exact ⟨⟨rfl, rfl⟩, .refl _, consistent.requests⟩
    · rw [same]
      exact ⟨sameAcceptors_connect .., grows_connect .., consistent.requests.connect created _⟩
  obtain ⟨acceptors, grows, requests⟩ := connected
  constructor
  · exact wired_withNode found rfl (List.Subset.refl _)
        (fun _ mem => .inl mem) ⟨addr, isAsked⟩ acceptors grows
  · exact consistent_withNode consistent (sound.grows grows (le_rfl)) grows requests

def withConnection (state : Testnets) (k : Nat) : Simulator :=
  { state.simulator with network := state.simulator.network.create ⟨1, 20, 10000⟩ k }

theorem wired_connect_new (consistent : Consistent s) (rand : Nat → Nat) {k : Nat}
    (found : s.nodes.lookup id = some node) (fits : k < 2 ^ 32)
    (isAsked : asked id (peerAddress k))
    (added : known = node.withPeer (peerAddress k) s.simulator.network.created)
    (connected : sim = known.connect (s.withConnection k) rand (node.peerIds + 1)) :
    Wired asked s (s.withNode id known sim) ∧
      Consistent (s.withNode id known sim) := by
  have sound := consistent.nodes id node found
  have new : (s.withConnection k).object s.simulator.network.created = .create ⟨1, 20, 10000⟩ k :=
    Function.update_self ..
  rw [added, node_connect_new sound.unconnected sound.ids (by rw [new]; rfl)] at connected
  have remote : ((s.withConnection k).object s.simulator.network.created).remoteAddress = k := by
    rw [new]
    rfl
  have inside : s.simulator.network.created < (s.withConnection k).network.created :=
    Nat.lt_succ_self _
  have grows : Grows s.simulator sim := by
    rw [connected]
    exact (grows_create s.simulator ⟨1, 20, 10000⟩ k).trans (grows_connect (s.withConnection k) ..)
  constructor
  · apply wired_withNode found
    · rw [added]
      rfl
    · rw [added]
      exact subset_append_left _ _
    · rw [added]
      intro peer mem
      rcases mem_append.mp mem with mem | mem
      · exact .inl mem
      · obtain rfl := mem_singleton.mp mem
        exact .inr isAsked
    · exact ⟨_, isAsked⟩
    · have same : SameAcceptors s.simulator (s.withConnection k) := ⟨rfl, rfl⟩
      rw [connected]
      exact same.trans (sameAcceptors_connect ..)
    · exact grows
  · have requests : RequestsSound (s.withConnection k) := consistent.requests.create _ _
    have earlier := sound.grows grows (le_rfl)
    refine consistent_withNode consistent ?_ grows (connected ▸ requests.connect inside _)
    rw [added]
    refine ⟨earlier.object, earlier.unconnected, ?_, ?_⟩
    · intro peer mem
      rcases mem_append.mp mem with mem | mem
      · exact Nat.le_succ_of_le (earlier.ids peer mem)
      · obtain rfl := mem_singleton.mp mem
        exact le_rfl
    · intro peer mem
      rcases mem_append.mp mem with mem | mem
      · exact earlier.known peer mem
      · obtain rfl := mem_singleton.mp mem
        rw [connected]
        refine ⟨k, fits, _, ?_, rfl, rfl, ?_, ?_⟩
        · rw [Simulator.created_connect]
          exact inside
        · rw [Simulator.remote_connect]
          exact remote
        · intro leads
          apply requested_connect
          rw [remote]
          exact leads

theorem connectPeer_known (rand : Nat → Nat) {peer : Peer} (found : s.nodes.lookup id = some node)
    (already : node.knownPeers.find? (fun peer => peer.address = peerAddress k.toNat) = some peer) :
    connectPeer rand id s k = s.withNode id node (node.connect s.simulator rand peer.id) := by
  simp only [connectPeer, found, SimulatedNode.addPeer, already, withNode]

theorem connectPeer_new (rand : Nat → Nat) (found : s.nodes.lookup id = some node)
    (new : node.knownPeers.find? (fun peer => peer.address = peerAddress k.toNat) = none) :
    connectPeer rand id s k =
      let known := node.withPeer (peerAddress k.toNat) s.simulator.network.created
      s.withNode id known (known.connect (s.withConnection k.toNat) rand (node.peerIds + 1)) := by
  simp only [connectPeer, found, SimulatedNode.addPeer, new,
    createConnection_peerAddress _ k.toNat_lt]
  rfl

theorem wired_connectPeer (consistent : Consistent s)
    (rand : Nat → Nat) (isAsked : asked id (peerAddress k.toNat)) :
    Wired asked s (connectPeer rand id s k) ∧ Consistent (connectPeer rand id s k) ∧
      ((s.nodes.lookup id).isSome → Knows (connectPeer rand id s k) id (peerAddress k.toNat)) := by
  cases found : s.nodes.lookup id with
  | none =>
    rw [connectPeer, found]
    exact ⟨.refl s, consistent, fun absurd => nomatch absurd⟩
  | some node =>
    cases already : node.knownPeers.find? fun peer => peer.address = peerAddress k.toNat with
    | some peer =>
      rw [connectPeer_known rand found already]
      obtain ⟨wired, kept⟩ := wired_connect_known consistent rand found isAsked peer.id
      refine ⟨wired, kept, fun _ => ?_⟩
      have addr := List.find?_some already
      exact ⟨node, AList.lookup_insert _, peer, mem_of_find?_eq_some already,
          of_decide_eq_true addr⟩
    | none =>
      rw [connectPeer_new rand found already]
      obtain ⟨wired, kept⟩ := wired_connect_new consistent rand found k.toNat_lt isAsked rfl rfl
      refine ⟨wired, kept, fun _ => ?_⟩
      refine ⟨_, AList.lookup_insert _, ?_⟩
      exact ⟨⟨_, node.peerIds + 1, peerAddress k.toNat⟩,
          mem_append_right _ (mem_singleton_self _), rfl⟩

end Testnets

/-- The calls of `add_peer` and `connect` that a testnet makes, in order. -/
def TestnetCall.requests (call : TestnetCall) : List (Bytes × UInt32) :=
  call.peerList.flatMap fun entry => entry.2.map fun k => (nodeId call.id entry.1.toNat, k)

def TestnetCall.Asks (call : TestnetCall) (nid address : Bytes) : Prop :=
  ∃ entry ∈ call.peerList, nid = nodeId call.id entry.1.toNat ∧
    ∃ k ∈ entry.2, address = peerAddress k.toNat

theorem TestnetCall.mem_requests {call : TestnetCall} {request : Bytes × UInt32} :
    request ∈ call.requests ↔ ∃ e ∈ call.peerList, ∃ k ∈ e.2,
      (nodeId call.id e.1.toNat, k) = request := by
  simp [TestnetCall.requests]

namespace Testnets

theorem wired_requests {s : Testnets} {asked : Bytes → Bytes → Prop} (consistent : Consistent s)
    (rand : Nat → Nat) {requests : List (Bytes × UInt32)}
    (areAsked : ∀ request ∈ requests, asked request.1 (peerAddress request.2.toNat)) :
    let after := requests.foldl (fun s request => connectPeer rand request.1 s request.2) s
    Wired asked s after ∧ Consistent after ∧ ∀ request ∈ requests,
      (s.nodes.lookup request.1).isSome → Knows after request.1 (peerAddress request.2.toNat) := by
  induction requests generalizing s with
  | nil => exact ⟨.refl s, consistent, by simp⟩
  | cons request requests ih =>
    rw [forall_mem_cons] at areAsked
    obtain ⟨first, kept, known⟩ := wired_connectPeer consistent rand areAsked.1
    obtain ⟨rest, keptLater, knownLater⟩ := ih kept areAsked.2
    refine ⟨first.trans rest, keptLater, ?_⟩
    intro other mem launched
    rcases mem_cons.mp mem with rfl | mem
    · exact rest.knows (known launched)
    · refine knownLater other mem ?_
      obtain ⟨node, found⟩ := Option.isSome_iff_exists.mp launched
      obtain ⟨later, foundLater, _⟩ := first.kept _ node found
      exact Option.isSome_iff_exists.mpr ⟨later, foundLater⟩

/-- The nodes know the peers they were asked to connect to. -/
theorem wired_connect {s : Testnets} (consistent : Consistent s)
    (rand : Nat → Nat) (call : TestnetCall) :
    Wired call.Asks s (s.connect rand call) ∧ Consistent (s.connect rand call) ∧
      ∀ e ∈ call.peerList, (s.nodes.lookup (nodeId call.id e.1.toNat)).isSome → ∀ k ∈ e.2,
      Knows (s.connect rand call) (nodeId call.id e.1.toNat) (peerAddress k.toNat) := by
  have flat : s.connect rand call =
      call.requests.foldl (fun s request => connectPeer rand request.1 s request.2) s := by
    simp only [connect, TestnetCall.requests, foldl_flatMap, foldl_map]
  have areAsked : ∀ request ∈ call.requests, call.Asks request.1 (peerAddress request.2.toNat) := by
    intro request mem
    obtain ⟨e, inList, k, asked, rfl⟩ := TestnetCall.mem_requests.mp mem
    exact ⟨e, inList, rfl, k, asked, rfl⟩
  rw [flat]
  obtain ⟨wired, kept, known⟩ := wired_requests consistent rand areAsked
  exact ⟨wired, kept, fun e inList launched k asked =>
    known _ (TestnetCall.mem_requests.mpr ⟨e, inList, k, asked, rfl⟩) launched⟩

end Testnets

end AutomatonCore.Testnet
