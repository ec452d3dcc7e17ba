import AutomatonCore.Blockchain.BlockchainNode

/-!
# A network of blockchain nodes
-/

namespace AutomatonCore.Blockchain

open Io

/-- Which nodes are linked, and under which id a node knows another one.  The
ids of peers are counted from one. -/
structure Links (ι : Type) where
  linked : ι → ι → Prop
  decideLinked : DecidableRel linked
  symmetric : ∀ {i j}, linked i j → linked j i
  peerId : ι → ι → Nat
  injective : ∀ {i j k}, linked i j → linked i k → peerId i j = peerId i k → j = k
  positive : ∀ {i j}, linked i j → peerId i j ≠ 0

instance {ι : Type} (links : Links ι) : DecidableRel links.linked :=
  links.decideLinked

structure Packet where
  message : Message
  /-- The sender had handled the `Hello` of the receiver. -/
  answered : Bool
  deriving DecidableEq, Repr

/-- Links are lossless, keep the order of messages and stay up.  That a message
was sent after the greeting, and the mined blocks, are history only. -/
structure Network (ι : Type) where
  nodes : ι → BlockchainCppNode
  /-- What is under way from the first node to the second. -/
  queue : ι → ι → List Packet
  /-- The first node has handled the `Hello` of the second. -/
  greeted : ι → ι → Bool
  mined : List Block

/-- A link comes up at one end, a message arrives, or a node is updated and
mines. -/
inductive Action (ι : Type) where
  | connect (node peer : ι)
  | deliver (source target : ι)
  | update (node : ι)

def messagesTo (peer : Nat) (outbox : Outbox) : List Message :=
  outbox.filterMap fun entry =>
    if entry.1 = peer then some entry.2 else none

namespace Network

variable {ι : Type} [DecidableEq ι]

def fresh (names : ι → Bytes) : Network ι where
  nodes i := { nodeid := names i }
  queue _ _ := []
  greeted _ _ := false
  mined := []

def handled (links : Links ι) (net : Network ι) (i : ι)
    (result : BlockchainCppNode × Outbox) : Network ι :=
  { net with
    nodes := Function.update net.nodes i result.1
    queue := fun source target =>
      if source = i ∧ links.linked i target then
        net.queue source target ++
          (messagesTo (links.peerId i target) result.2).map fun message =>
            ⟨message, net.greeted i target⟩
      else net.queue source target }

/-- The packet leaves the link, and if it is a `Hello` it counts as handled
from now on. -/
def taken (net : Network ι) (source target : ι) (packet : Packet)
    (rest : List Packet) : Network ι :=
  { net with
    queue := fun i j =>
      if i = source ∧ j = target then rest else net.queue i j
    greeted := fun i j =>
      match packet.message with
      | .hello _ => (i = target ∧ j = source) || net.greeted i j
      | .block _ => net.greeted i j }

/-- The connection handler of a peer starts with `on_connected`, which begins
to read; so nothing is delivered before. -/
def perform (hash : Bytes → Bytes) (messageSize : Message → Nat)
    (links : Links ι) (net : Network ι) : Action ι → Option (Network ι)
  | .connect i j =>
    if links.linked i j ∧ links.peerId i j ∉ (net.nodes i).connectedPeers then
      some (net.handled links i ((net.nodes i).onConnected messageSize (links.peerId i j)))
    else none
  | .deliver source target =>
    match net.queue source target with
    | [] => none
    | packet :: rest =>
      if links.peerId target source ∈ (net.nodes target).connectedPeers then
        some ((net.taken source target packet rest).handled links target
          ((net.nodes target).onBlobReceived hash messageSize
            (links.peerId target source) packet.message))
      else none
  | .update i => do
    let mined ← (net.nodes i).mine hash
    let result ← (net.nodes i).update hash messageSize
    let net :=
      if mined.2.height = 0 then net
      else { net with mined := net.mined ++ [mined.2] }
    return net.handled links i result

/-- The events of all nodes interleave in any way. -/
def performAll (hash : Bytes → Bytes) (messageSize : Message → Nat)
    (links : Links ι) (net : Network ι) (actions : List (Action ι)) : Option (Network ι) :=
  actions.foldlM (perform hash messageSize links) net

end Network

end AutomatonCore.Blockchain
