import AutomatonCore.Network.Address
import AutomatonCore.Network.Simulator
import AutomatonCore.Node.Node

/-!
# Testnets over the simulation

Nodes are objects, numbered in the order in which they are launched; the
handler of an acceptor is the number of its node.  What a node does when its
handlers are called is not part of this module.
-/

namespace AutomatonCore.Node

open Network

def connect (node : Node) (sim : Simulator) (rand : Nat → Nat) (id : Nat) : Simulator :=
  if id ∈ node.connectedPeers then sim
  else
    match node.knownPeers id with
    | some ⟨some conn⟩ =>
      if (sim.object conn).connectionState = .disconnected then
        sim.connect conn (rand conn)
      else sim
    | _ => sim

end AutomatonCore.Node

namespace AutomatonCore.Testnet

open Io Network

structure Peer extends Node.PeerInfo where
  id : Nat
  address : Bytes
  deriving DecidableEq, Repr

structure SimulatedNode where
  /-- The number of the node. -/
  object : Nat
  /-- The address of `acceptor_`. -/
  acceptor : Nat
  knownPeers : List Peer := []
  connectedPeers : List Nat := []
  /-- The last id that was given to a peer. -/
  peerIds : Nat := 0
  deriving DecidableEq, Repr

/-- The arguments of `create_testnet` for the simulation.  Of the type of the
nodes it matters whether nodes of it can be created; the peers are in the
order in which the map is traversed. -/
structure TestnetCall where
  id : Bytes
  registered : Bool
  numberNodes : UInt32
  peerList : List (UInt32 × List UInt32)
  deriving DecidableEq, Repr

/-- The nodes of all testnets are in one map, under ids made of the id of the
testnet and a number.  Their acceptors are in the one table of the simulation,
under the number alone. -/
structure Testnets where
  simulator : Simulator := .fresh
  nodes : AList fun _ : Bytes => SimulatedNode := ∅
  testnets : List Bytes := []
  /-- The nodes below this number have been launched. -/
  launched : Nat := 0

def nodeId (id : Bytes) (i : Nat) : Bytes :=
  id ++ text "_" ++ decimal i

def acceptorAddress (i : Nat) : Bytes :=
  text "sim://100:10000:" ++ decimal i

def peerAddress (k : Nat) : Bytes :=
  text "sim://1:20:10000:" ++ decimal k

/-! ## Connections and acceptors of a node -/

/-- `connection::create` and `init`: a connection with an address that cannot
be parsed exists, but cannot connect. -/
def createConnection (sim : Simulator) (address : Bytes) : Simulator × Option Nat :=
  match addressParser address with
  | none => (sim, none)
  | some (protocol, rest) =>
    if protocol = text "sim" then
      let (parameters, remote) := (parseConnectionAddress rest).getD (⟨0, 0, 0⟩, 0)
      ({ sim with network := sim.network.create parameters remote },
        some sim.network.created)
    else (sim, none)

def addAcceptor (sim : Simulator) (address : Nat)
    (acceptor : SimulatedAcceptor) (handler : Nat) : Simulator :=
  { sim with
    network :=
      { sim.network with
        acceptors := Function.update sim.network.acceptors address (some acceptor) }
    handlers := Function.update sim.handlers address handler }

/-- `set_acceptor` of the node with the given number: the address of the new
acceptor, which accepts from now on; `none` if it is not created. -/
def setAcceptor (sim : Simulator) (address : Bytes)
    (object : Nat) : Option (Nat × Simulator) :=
  match addressParser address with
  | none => none
  | some (protocol, rest) =>
    if protocol = text "sim" then
      match parseAcceptorAddress rest with
      | none => none
      | some (bandwidth, place) =>
        if place = 0 then none
        else some (place, addAcceptor sim place ⟨bandwidth, true⟩ object)
    else none

namespace SimulatedNode

def addPeer (node : SimulatedNode) (sim : Simulator)
    (address : Bytes) : SimulatedNode × Simulator × Nat :=
  match node.knownPeers.find? fun peer => peer.address = address with
  | some peer => (node, sim, peer.id)
  | none =>
    let id := node.peerIds + 1
    let (created, conn) := createConnection sim address
    ({ node with
        knownPeers := node.knownPeers ++ [⟨⟨conn⟩, id, address⟩]
        peerIds := id },
      created, id)

def toNode (node : SimulatedNode) : Node where
  knownPeers id := (node.knownPeers.find? fun peer => peer.id = id).map Peer.toPeerInfo
  connectedPeers := node.connectedPeers

def connect (node : SimulatedNode) : Simulator → (Nat → Nat) → Nat → Simulator :=
  node.toNode.connect

end SimulatedNode

/-! ## Nodes and testnets -/

namespace Testnets

def launchNode (state : Testnets) (registered : Bool) (id address : Bytes) : Testnets × Bool :=
  match state.nodes.lookup id with
  | some _ => (state, false)
  | none =>
    if registered then
      match setAcceptor state.simulator address state.launched with
      | none => (state, false)
      | some (place, sim) =>
        ({ state with
            simulator := sim
            nodes :=
              state.nodes.insert id { object := state.launched, acceptor := place }
            launched := state.launched + 1 },
          true)
    else (state, false)

/-- `stop_accepting` of the acceptor of a node.  In the table there may be
another acceptor by now. -/
def stopAccepting (sim : Simulator) (node : SimulatedNode) : Simulator :=
  match sim.network.acceptors node.acceptor with
  | none => sim
  | some acceptor =>
    if sim.handlers node.acceptor = node.object then
      addAcceptor sim node.acceptor { acceptor with accepting := false } node.object
    else sim

def removeNode (rand : Nat → Nat) (state : Testnets) (id : Bytes) : Testnets :=
  match state.nodes.lookup id with
  | none => state
  | some node =>
    { state with
      simulator :=
        node.knownPeers.foldl (fun sim peer =>
            match peer.connection with
            | none => sim
            | some conn => sim.disconnect conn (rand conn))
          (stopAccepting state.simulator node)
      nodes := state.nodes.erase id }

/-- The loop of `init` from `i` on, with the ids of the nodes that it
launches.  The counter has 32 bits. -/
def initLoop (call : TestnetCall) : Nat → Nat → Testnets → Testnets × List Bytes × Bool
  | 0, _, state => (state, [], true)
  | fuel + 1, i, state =>
    if i ≤ call.numberNodes.toNat then
      match state.launchNode call.registered (nodeId call.id i) (acceptorAddress i) with
      | (after, false) => (after, [], false)
      | (after, true) =>
        let (final, ids, initialised) := initLoop call fuel ((i + 1) % 2 ^ 32) after
        (final, nodeId call.id i :: ids, initialised)
    else (state, [], true)

/-- `init`; the loop never runs more often than this. -/
def init (state : Testnets) (call : TestnetCall) : Testnets × List Bytes × Bool :=
  initLoop call (call.numberNodes.toNat + 1) 1 state

def connectPeer (rand : Nat → Nat) (id : Bytes) (state : Testnets) (k : UInt32) : Testnets :=
  match state.nodes.lookup id with
  | none => state
  | some node =>
    let (known, sim, peer) := node.addPeer state.simulator (peerAddress k.toNat)
    { state with
      nodes := state.nodes.insert id known
      simulator := known.connect sim rand peer }

def connect (rand : Nat → Nat) (state : Testnets) (call : TestnetCall) : Testnets :=
  call.peerList.foldl
    (fun state entry => entry.2.foldl (connectPeer rand (nodeId call.id entry.1.toNat)) state) state

/-- `create_testnet`.  A testnet that is not initialised is destroyed with its
nodes. -/
def createTestnet (rand : Nat → Nat) (state : Testnets) (call : TestnetCall) : Testnets × Bool :=
  if state.testnets.contains call.id then (state, false)
  else
    match state.init call with
    | (after, ids, false) => (ids.foldl (removeNode rand) after, false)
    | (after, _, true) =>
      let connected := after.connect rand call
      ({ connected with testnets := connected.testnets ++ [call.id] }, true)

def createAll (rand : Nat → Nat) (state : Testnets) (calls : List TestnetCall) : Testnets :=
  calls.foldl (fun state call => (state.createTestnet rand call).1) state

theorem createAll_append (rand : Nat → Nat) (s : Testnets) (earlier later : List TestnetCall) :
    s.createAll rand (earlier ++ later) = (s.createAll rand earlier).createAll rand later :=
  List.foldl_append

end Testnets

end AutomatonCore.Testnet
