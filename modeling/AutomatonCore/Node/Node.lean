import AutomatonCore.Library.Splice
import AutomatonCore.Network.SimulatedConnection

/-!
# Nodes and their peers

The handler of a connection runs in a thread of its own.  A handler task is
therefore not one step here: between the two critical sections of `async_read`,
and before the functions of the script are called, anything else can happen.
-/

namespace AutomatonCore.Network.Simulation

/-- The first critical section of `async_read`: the request is pushed. -/
def pushRead (sim : Simulation) (id bufferSize numBytes readId : Nat) : Simulation :=
  match sim.connections id with
  | none => sim
  | some conn =>
    if numBytes > bufferSize then sim
    else
      sim.put id
        { conn with reading := conn.reading ++ [⟨[], bufferSize, numBytes, readId⟩] }

/-- The second critical section of `async_read`: if there are bytes to read, a
`handle_read` is scheduled. -/
def wakeReader (sim : Simulation) (id : Nat) : Simulation :=
  match sim.connections id with
  | none => sim
  | some conn =>
    if conn.receiveBuffer.length ≠ 0 then
      sim.addTask (sim.time + 1) (.handleRead id)
    else sim

def stateOf (sim : Simulation) (id : Nat) : Option ConnectionState :=
  (sim.connections id).map SimulatedConnection.connectionState

def ReadPending (sim : Simulation) (id : Nat) : Prop :=
  ∃ entry ∈ sim.tasks, entry.2 = .handleRead id

instance (sim : Simulation) (id : Nat) : Decidable (sim.ReadPending id) :=
  inferInstanceAs (Decidable (∃ entry ∈ sim.tasks, _))

/-- Where `handle_read` writes into the buffer of the first request, and
what. -/
def readBytes (sim : Simulation) (id : Nat) : Nat × Io.Bytes :=
  match sim.connections id with
  | none => (0, [])
  | some conn =>
    match conn.reading with
    | [] => (0, [])
    | packet :: _ =>
      if conn.connectionState ≠ .connected then (0, [])
      else
        let maxToRead :=
          if packet.expectToRead = 0 then packet.bufferSize
          else packet.expectToRead
        let (buffer, _) := readLoop maxToRead packet.buffer conn.receiveBuffer
        (packet.buffer.length, buffer.drop packet.buffer.length)

end AutomatonCore.Network.Simulation

namespace AutomatonCore

open Io Library Network

namespace Node

def maxMessageSize : Nat := 256

def headerSize : Nat := 3

def waitingHeader : Nat := 1

def waitingMessage : Nat := 2

/-- The values of `common::status` with which `send_blob` refuses. -/
inductive Refusal where
  | failedPrecondition (message : Bytes)
  | canceled (message : Bytes)
  | notFound (message : Bytes)
  deriving DecidableEq, Repr

/-- What a node shows: the functions of the script that it calls, and that it
closes a connection. -/
inductive Output where
  | messageSent (peer id : Nat) (refusal : Refusal)
  | connected (peer : Nat)
  | blobReceived (peer : Nat) (blob : Bytes)
  | error (peer : Nat) (message : Bytes)
  | disconnect (peer : Nat)
  deriving DecidableEq, Repr

/-- `peer_info`; the connection is named by a number, its key in a
`Simulation` or its object in a `Simulator`. -/
structure PeerInfo where
  connection : Option Nat
  deriving DecidableEq, Repr

end Node

structure Node where
  knownPeers : Nat → Option Node.PeerInfo
  connectedPeers : List Nat

namespace Node

def connectionOf (node : Node) (sim : Simulation) (peer : Nat) : Option Nat :=
  match node.knownPeers peer with
  | some ⟨some conn⟩ =>
    if sim.stateOf conn = some .connected then some conn
    else none
  | _ => none

def blobHeader (size : Nat) : Bytes :=
  [UInt8.ofNat (size / 2 ^ 16), UInt8.ofNat (size / 2 ^ 8), UInt8.ofNat size]

/-- A blob is sent behind a header of three bytes with its length. -/
def sendBlob (node : Node) (sim : Simulation) (peer : Nat) (blob : Bytes) (messageId : Nat) :
    Simulation × List Event × List Output :=
  let blobSize := blob.length % 2 ^ 32
  let refuse (refusal : Refusal) : Simulation × List Event × List Output :=
    (sim, [], [.messageSent peer messageId refusal])
  if blobSize > maxMessageSize then refuse (.failedPrecondition (text "Message size is too big!"))
  else if peer ∉ node.connectedPeers then refuse (.canceled (text "Peer is not connected!"))
  else
    match node.knownPeers peer with
    | none => refuse (.failedPrecondition (text "Unknown peer!"))
    | some ⟨none⟩ => refuse (.notFound (text "Not connected!"))
    | some ⟨some conn⟩ =>
      if sim.stateOf conn = some .connected then
        let (sent, events) :=
          sim.asyncSend conn (blobHeader blobSize ++ blob) messageId
        (sent, events, [])
      else (sim, [], [])

def disconnect (node : Node) (peer : Nat) : List Output :=
  if peer ∈ node.connectedPeers ∧ (node.knownPeers peer).isSome then [.disconnect peer]
  else []

def fail (node : Node) (peer : Nat) (message : Bytes) : List Output :=
  .error peer message :: node.disconnect peer

inductive Callback where
  | connected
  | messageReceived (bytesRead mid : Nat)
  deriving DecidableEq, Repr

/-- Where the thread of the handlers is: it has pushed a read request and has
still to look at the receive buffer, or it is about to call the script. -/
inductive Thread where
  | idle
  | asyncRead (outputs : List Output)
  | calling (outputs : List Output)
  deriving DecidableEq, Repr

/-- A node with its connection to one peer: the simulation, the memory behind
the buffer of the peer, the handler tasks of the connection that wait, and the
thread that runs them. -/
structure Endpoint where
  simulation : Simulation
  node : Node
  buffer : Bytes
  handlersTasks : List Callback
  thread : Thread

namespace Endpoint

def messageSize (buffer : Bytes) : Nat :=
  (buffer.getD 2 0).toNat + (buffer.getD 1 0).toNat * 2 ^ 8 + (buffer.getD 0 0).toNat * 2 ^ 16

variable (endpoint : Endpoint) (peer conn : Nat)

/-- `async_read` up to its second critical section; `outputs` follow it. -/
def startRead (target numBytes readId : Nat) (outputs : List Output) : Endpoint :=
  { endpoint with
    simulation := endpoint.simulation.pushRead target maxMessageSize numBytes readId
    thread := .asyncRead outputs }

def onMessageReceived (bytesRead mid : Nat) : Endpoint × List Output :=
  let connected := endpoint.node.connectionOf endpoint.simulation peer
  let fail (message : Bytes) : Endpoint × List Output := (endpoint, endpoint.node.fail peer message)
  if mid = waitingHeader then
    if bytesRead ≠ headerSize then fail (text "Wrong header size received")
    else
      let size := messageSize endpoint.buffer
      if size = 0 ∨ size > maxMessageSize then fail (text "Invalid message size!")
      else
        match connected with
        | some target => (endpoint.startRead target size waitingMessage [], [])
        | none => fail (text "No such peer or peer disconnected!")
  else if mid = waitingMessage then
    let blob := slice endpoint.buffer 0 bytesRead
    match connected with
    | some target =>
      (endpoint.startRead target headerSize waitingHeader [.blobReceived peer blob], [])
    | none => fail (text "No such peer or peer disconnected!")
  else (endpoint, [])

def onConnected : Endpoint × List Output :=
  match endpoint.node.knownPeers peer with
  | some ⟨some target⟩ =>
    let inserted : Node :=
      { endpoint.node with connectedPeers := peer :: endpoint.node.connectedPeers }
    ({ endpoint with node := inserted }.startRead target headerSize
      waitingHeader [.connected peer], [])
  | _ => (endpoint, [])

def callbackOf : Event → Option Callback
  | .messageReceived id buffer mid =>
    if id = conn then some (.messageReceived buffer.length mid)
    else none
  | _ => none

/-- What can happen next: a chunk arrives, a scheduled `handle_read` is run,
the thread of the handlers takes a task or goes on with it, or something
happens elsewhere. -/
inductive Action where
  | arrive (random source : Nat) (chunk : Bytes)
  | read (time : Nat)
  | callback
  | proceed
  | elsewhere (sim : Simulation) (node : Node)

def receivingSide (sim : Simulation) :
    Option (List IncomingPacket × List Bytes × ConnectionState) :=
  (sim.connections conn).map fun found =>
    (found.reading, found.receiveBuffer, found.connectionState)

/-- Nothing happens to the receiving side of the connection, scheduled reads
stay scheduled, and the node keeps the peer. -/
def Undisturbed (sim : Simulation) (node : Node) : Prop :=
  receivingSide conn sim = receivingSide conn endpoint.simulation ∧
    (endpoint.simulation.ReadPending conn → sim.ReadPending conn) ∧
      node.knownPeers peer = endpoint.node.knownPeers peer

instance (sim : Simulation) (node : Node) :
    Decidable (endpoint.Undisturbed peer conn sim node) :=
  inferInstanceAs (Decidable (_ ∧ _ ∧ _))

def read (entry : Nat × Task) : Endpoint :=
  let (position, bytes) := endpoint.simulation.readBytes conn
  let (sim, events) := (endpoint.simulation.pop entry).handleRead conn
  { endpoint with
    simulation := sim
    buffer := splice endpoint.buffer position bytes
    handlersTasks := endpoint.handlersTasks ++ events.filterMap (callbackOf conn) }

/-- `none` if the action is not possible. -/
def step : Action → Option (Endpoint × List Output)
  | .arrive random source chunk =>
    let (sim, _) := endpoint.simulation.handleMessage random source conn chunk
    some ({ endpoint with simulation := sim }, [])
  | .read time =>
    let entry := (time, Task.handleRead conn)
    if entry ∈ endpoint.simulation.tasks then some (endpoint.read conn entry, [])
    else none
  | .callback =>
    match endpoint.thread, endpoint.handlersTasks with
    | .idle, task :: waiting =>
      let popped := { endpoint with handlersTasks := waiting }
      match task with
      | .connected => some (popped.onConnected peer)
      | .messageReceived bytesRead mid => some (popped.onMessageReceived peer bytesRead mid)
    | _, _ => none
  | .proceed =>
    match endpoint.thread with
    | .idle => none
    | .asyncRead outputs =>
      some
        ({ endpoint with
          simulation := endpoint.simulation.wakeReader conn
          thread := .calling outputs }, [])
    | .calling outputs => some ({ endpoint with thread := .idle }, outputs)
  | .elsewhere sim node =>
    if endpoint.Undisturbed peer conn sim node then
      some ({ endpoint with simulation := sim, node }, [])
    else none

def run (endpoint : Endpoint) (peer conn : Nat) :
    List Action → Option (Endpoint × List Output)
  | [] => some (endpoint, [])
  | action :: actions =>
    match endpoint.step peer conn action with
    | none => none
    | some (next, outputs) =>
      (next.run peer conn actions).map fun (final, later) => (final, outputs ++ later)

end Endpoint

end Node

end AutomatonCore
