import Mathlib.Data.List.AList
import AutomatonCore.Network.SimulatedConnection

/-!
# Setting up simulated connections

A connection is an object; `connections` maps ids to objects.  Numbers of an
address are natural numbers where the source has 32 bits.  A call or a task
runs as a whole.  The tasks of established connections, which change neither
ids nor the table, and the calls of handlers are left out.
-/

namespace AutomatonCore.Network

/-- `simulated_connection` as an object of its own. -/
structure ConnectionObject extends SimulatedConnection where
  localConnectionId : Nat
  remoteAddress : Nat
  deriving DecidableEq, Repr

structure SimulatedAcceptor where
  bandwidth : Nat
  accepting : Bool
  deriving DecidableEq, Repr

/-- The scheduled events carry ids, which may be out of date when they are
handled. -/
inductive SetupTask where
  | handleRequest (source dest : Nat)
  | handleAccept (dest : Nat)
  | handleRefuse (dest : Nat)
  | handleDisconnect (dest : Nat)
  /-- `cancel_operations` and `clear_queues` of an object. -/
  | clearQueues (conn : Nat)
  /-- The handler of an object is told that there is no route. -/
  | noRoute (conn : Nat)
  deriving DecidableEq, Repr

/-- The `static` variable `uid` of `add_connection` is kept with the table. -/
structure SimulatedNetwork where
  time : Nat := 0
  tasks : List (Nat × SetupTask) := []
  objects : Nat → ConnectionObject
  /-- The objects below this number have been created. -/
  created : Nat := 0
  connections : AList fun _ : Nat => Nat := ∅
  uid : Nat := 0
  acceptors : Nat → Option SimulatedAcceptor := fun _ => none

inductive NetworkFault where
  | nullDereference
  deriving DecidableEq, Repr

def ConnectionObject.create (parameters : ConnectionParams)
    (remoteAddress : Nat) : ConnectionObject where
  remoteConnectionId := 0
  parameters := parameters
  sending := []
  reading := []
  receiveBuffer := []
  timeStamp := 0
  connectionState := .disconnected
  localConnectionId := 0
  remoteAddress :=
    if parameters.minLag ≤ parameters.maxLag then remoteAddress else 0

namespace SimulatedNetwork

def fresh : SimulatedNetwork where
  objects _ := .create ⟨0, 0, 0⟩ 0

def put (net : SimulatedNetwork) (conn : Nat)
    (object : ConnectionObject) : SimulatedNetwork :=
  { net with objects := Function.update net.objects conn object }

def addTask (net : SimulatedNetwork) (time : Nat) (task : SetupTask) : SimulatedNetwork :=
  let tm := if time ≤ net.time then net.time + 1 else time
  { net with tasks := net.tasks ++ [(tm, task)] }

def create (net : SimulatedNetwork) (parameters : ConnectionParams)
    (remoteAddress : Nat) : SimulatedNetwork :=
  { net.put net.created (.create parameters remoteAddress) with
    created := net.created + 1 }

def nextId (net : SimulatedNetwork) : Nat :=
  (net.uid + 1) % 2 ^ 32

/-- The entry under the old id is erased if it is that of another
connection. -/
def eraseOther (net : SimulatedNetwork) (conn : Nat) : AList fun _ : Nat => Nat :=
  let lid := (net.objects conn).localConnectionId
  if lid ≠ 0 then
    match net.connections.lookup lid with
    | none => net.connections
    | some listed =>
      if listed ≠ conn then net.connections.erase lid
      else net.connections
  else net.connections

def addConnection (net : SimulatedNetwork) (conn : Nat) : SimulatedNetwork :=
  { net.put conn
      { net.objects conn with localConnectionId := net.nextId } with
    connections := (net.eraseOther conn).insert net.nextId conn
    uid := net.nextId }

def removeConnection (net : SimulatedNetwork) (id : Nat) : SimulatedNetwork :=
  { net with connections := net.connections.erase id }

def setState (net : SimulatedNetwork) (conn : Nat)
    (state : ConnectionState) : SimulatedNetwork :=
  net.put conn { net.objects conn with connectionState := state }

def setTimeStamp (net : SimulatedNetwork) (conn time : Nat) : SimulatedNetwork :=
  let object := net.objects conn
  net.put conn
    { object with toSimulatedConnection := object.toSimulatedConnection.setTimeStamp time }

def setRemote (net : SimulatedNetwork) (conn remote : Nat) : SimulatedNetwork :=
  net.put conn { net.objects conn with remoteConnectionId := remote }

def setBandwidth (net : SimulatedNetwork) (conn bandwidth : Nat) : SimulatedNetwork :=
  let object := net.objects conn
  net.put conn
    { object with parameters := { object.parameters with bandwidth := bandwidth } }

/-- `remove_connection(local_connection_id); local_connection_id = 0;` -/
def forget (net : SimulatedNetwork) (conn : Nat) : SimulatedNetwork :=
  let object := net.objects conn
  (net.removeConnection object.localConnectionId).put conn
    { object with localConnectionId := 0 }

def timeOfHandling (net : SimulatedNetwork) (conn random : Nat) : Nat :=
  let object := net.objects conn
  object.toSimulatedConnection.timeOfHandling net.time (object.parameters.getLag random)

/-- The connection is listed under a new id, and a request is scheduled. -/
def connect (net : SimulatedNetwork) (conn random : Nat) : SimulatedNetwork :=
  if (net.objects conn).remoteAddress = 0 then net
  else
    let added := (net.setState conn .connecting).addConnection conn
    let time := added.timeOfHandling conn random
    let object := added.objects conn
    (added.setTimeStamp conn time).addTask time
      (.handleRequest object.localConnectionId object.remoteAddress)

/-- The disconnect of one side is an event of the other side. -/
def disconnect (net : SimulatedNetwork) (conn random : Nat) : SimulatedNetwork :=
  let object := net.objects conn
  if object.connectionState ≠ .connected then net
  else
    let closed := net.setState conn .disconnected
    let time := closed.timeOfHandling conn random
    let removed := (closed.setTimeStamp conn time).forget conn
    ((removed.addTask (removed.time + 1) (.clearQueues conn)).addTask
      time (.handleDisconnect object.remoteConnectionId)).setRemote conn 0

/-- A request is accepted: the acceptor's side of the connection is a new
object.  If its address cannot be parsed, nothing more happens. -/
def accept (net : SimulatedNetwork) (source conn time : Nat)
    (acceptor : SimulatedAcceptor) : SimulatedNetwork :=
  let parameters := (net.objects conn).parameters
  let bandwidth :=
    if acceptor.bandwidth < parameters.bandwidth then acceptor.bandwidth
    else parameters.bandwidth
  let new := net.created
  let made := net.create { parameters with bandwidth := bandwidth } 0
  if parameters.minLag ≤ parameters.maxLag then
    let added := (made.addConnection new).setBandwidth conn bandwidth
    let linked := added.setRemote conn (added.objects new).localConnectionId
    let opened := linked.setState new .connected
    let back := opened.setRemote new (opened.objects conn).localConnectionId
    (back.setTimeStamp new (time % 2 ^ 32)).addTask time (.handleAccept source)
  else made

/-- `requested` is the answer of `on_requested`.  The source goes on after the
warnings about a missing connection or acceptor. -/
def handleRequest (net : SimulatedNetwork) (random : Nat)
    (requested : Bool) (source dest : Nat) : Except NetworkFault SimulatedNetwork :=
  match net.connections.lookup source with
  | none => .error .nullDereference
  | some conn =>
    let time := net.time + (net.objects conn).parameters.getLag random + 1
    match net.acceptors dest with
    | none => .error .nullDereference
    | some acceptor =>
      let reported :=
        if acceptor.accepting then net
        else net.addTask time (.noRoute conn)
      if requested then .ok (reported.accept source conn time acceptor)
      else .ok (reported.addTask time (.handleRefuse source))

def handleAccept (net : SimulatedNetwork) (dest : Nat) : SimulatedNetwork :=
  match net.connections.lookup dest with
  | none => net
  | some conn => net.setState conn .connected

def handleRefuse (net : SimulatedNetwork) (dest : Nat) : SimulatedNetwork :=
  match net.connections.lookup dest with
  | none => net
  | some conn =>
    (net.setState conn .disconnected).addTask (net.time + 1) (.clearQueues conn)

def handleDisconnect (net : SimulatedNetwork) (dest : Nat) : SimulatedNetwork :=
  match net.connections.lookup dest with
  | none => net
  | some conn =>
    if (net.objects conn).connectionState = .connecting then net
    else
      (((net.setState conn .disconnected).setRemote conn
        0).addTask (net.time + 1) (.clearQueues conn)).forget conn

def clearQueues (net : SimulatedNetwork) (conn : Nat) : SimulatedNetwork :=
  net.put conn
    { net.objects conn with
      sending := []
      reading := []
      receiveBuffer := [] }

def runTask (net : SimulatedNetwork) (random : Nat) (requested : Bool) :
    SetupTask → Except NetworkFault SimulatedNetwork
  | .handleRequest source dest => net.handleRequest random requested source dest
  | .handleAccept dest => .ok (net.handleAccept dest)
  | .handleRefuse dest => .ok (net.handleRefuse dest)
  | .handleDisconnect dest => .ok (net.handleDisconnect dest)
  | .clearQueues conn => .ok (net.clearQueues conn)
  | .noRoute _ => .ok net

def due (net : SimulatedNetwork) : Option (Nat × SetupTask) :=
  net.tasks.find? fun entry => entry.1 = net.time

end SimulatedNetwork

/-- What can happen next: calls from outside, the next task of the current
time, and the step to the next time. -/
inductive NetworkAction where
  | create (parameters : ConnectionParams) (remoteAddress : Nat)
  | connect (conn random : Nat)
  | disconnect (conn random : Nat)
  | setAcceptor (address : Nat) (acceptor : Option SimulatedAcceptor)
  | task (random : Nat) (requested : Bool)
  | tick
  deriving DecidableEq, Repr

namespace SimulatedNetwork

/-- Calls are made on objects that have been created.  An action that is not
possible changes nothing. -/
def step (net : SimulatedNetwork) : NetworkAction → Except NetworkFault SimulatedNetwork
  | .create parameters remoteAddress => .ok (net.create parameters remoteAddress)
  | .connect conn random =>
    if conn < net.created then .ok (net.connect conn random)
    else .ok net
  | .disconnect conn random =>
    if conn < net.created then .ok (net.disconnect conn random)
    else .ok net
  | .setAcceptor address acceptor =>
    .ok { net with acceptors := Function.update net.acceptors address acceptor }
  | .task random requested =>
    match net.due with
    | none => .ok net
    | some entry =>
      { net with tasks := net.tasks.erase entry }.runTask random requested entry.2
  | .tick =>
    match net.due with
    | none => .ok { net with time := net.time + 1 }
    | some _ => .ok net

end SimulatedNetwork

end AutomatonCore.Network
