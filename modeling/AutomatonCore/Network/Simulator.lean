import AutomatonCore.Network.ConnectionTable

/-!
# The whole simulation

Set-up of connections and their streams in one model.  A task of a connection
is bound to the object, an event carries ids.  Two things are recorded that the
source does not keep and that no function reads: the queues of a connection
when the cancellation of its operations is scheduled, and the time that was
computed for an event.
-/

namespace AutomatonCore.Network

open Io

structure Queues where
  sending : List OutgoingPacket
  reading : List IncomingPacket
  deriving DecidableEq, Repr

def ConnectionObject.queues (object : ConnectionObject) : Queues :=
  ⟨object.sending, object.reading⟩

inductive SimulatorTask where
  | handleRequest (source dest : Nat)
  | handleAccept (dest : Nat)
  | handleRefuse (dest : Nat)
  | handleDisconnect (dest : Nat)
  /-- The handler of an object is told that there is no route. -/
  | noRoute (conn : Nat)
  /-- `cancel_operations` and `clear_queues` of an object, with the queues
  that it had when the task was added. -/
  | cancelOperations (conn : Nat) (queued : Queues)
  | handleSend (conn : Nat)
  | handleRead (conn : Nat)
  | handleMessage (source dest : Nat) (message : Bytes)
  | handleAck (dest : Nat) (status : Status)
  deriving DecidableEq, Repr

/-- A task of the queue.  For an event of an endpoint, `issued` is the
connection and the time computed for the event. -/
structure Scheduled where
  time : Nat
  task : SimulatorTask
  issued : Option (Nat × Nat) := none
  deriving DecidableEq, Repr

/-- The calls of handlers, and the handling times of the events of an endpoint
when they are issued and when they are processed. -/
inductive SimulatorEvent where
  /-- `on_requested` of the handler of an acceptor -/
  | requested (handler conn : Nat)
  /-- `on_connected` of the handler of an acceptor -/
  | accepted (handler conn : Nat)
  | connected (conn : Nat)
  | disconnected (conn : Nat)
  | messageSent (conn id : Nat) (status : Status)
  | messageReceived (conn : Nat) (buffer : Bytes) (id : Nat)
  | connectionError (conn : Nat) (status : Status)
  | issued (conn time : Nat)
  | processed (conn time : Nat)
  deriving DecidableEq, Repr

/-- The tasks are all in `tasks`; the network's own list is not used. -/
structure Simulator where
  network : SimulatedNetwork
  tasks : List Scheduled := []
  /-- The handler of the acceptor at an address. -/
  handlers : Nat → Nat := fun _ => 0
  trace : List SimulatorEvent := []

/-- The part of `accept` that changes objects and tables: the new object and
the connection that asked for it are linked. -/
def SimulatedNetwork.establish (net : SimulatedNetwork)
    (conn time bandwidth : Nat) : SimulatedNetwork :=
  let new := net.created
  let made :=
    net.create { (net.objects conn).parameters with bandwidth := bandwidth } 0
  let added := (made.addConnection new).setBandwidth conn bandwidth
  let linked := added.setRemote conn (added.objects new).localConnectionId
  let opened := linked.setState new .connected
  let back := opened.setRemote new (opened.objects conn).localConnectionId
  back.setTimeStamp new (time % 2 ^ 32)

namespace Simulator

def fresh : Simulator where
  network := .fresh

def time (sim : Simulator) : Nat :=
  sim.network.time

def object (sim : Simulator) (conn : Nat) : ConnectionObject :=
  sim.network.objects conn

def getConnection (sim : Simulator) (id : Nat) : Option Nat :=
  sim.network.connections.lookup id

def put (sim : Simulator) (conn : Nat) (object : ConnectionObject) : Simulator :=
  { sim with network := sim.network.put conn object }

def setState (sim : Simulator) (conn : Nat) (state : ConnectionState) : Simulator :=
  { sim with network := sim.network.setState conn state }

def setTimeStamp (sim : Simulator) (conn time : Nat) : Simulator :=
  { sim with network := sim.network.setTimeStamp conn time }

def clamp (sim : Simulator) (time : Nat) : Nat :=
  if time ≤ sim.time then sim.time + 1 else time

def addTask (sim : Simulator) (time : Nat) (task : SimulatorTask) : Simulator :=
  { sim with tasks := sim.tasks ++ [{ time := sim.clamp time, task }] }

/-- An event of an endpoint, recorded with the time that was computed for
it. -/
def addEvent (sim : Simulator) (conn time : Nat) (task : SimulatorTask) : Simulator :=
  { sim with
    tasks :=
      sim.tasks ++
        [{ time := sim.clamp time, task,
           issued := some (conn, time) }]
    trace := sim.trace ++ [.issued conn time] }

/-- A call that is added with `add_handlers_task`. -/
def call (sim : Simulator) (event : SimulatorEvent) : Simulator :=
  { sim with trace := sim.trace ++ [event] }

def timeOfHandling (sim : Simulator) (conn random : Nat) : Nat :=
  sim.network.timeOfHandling conn random

/-! ## Calls on a connection -/

/-- A connection without a remote address stays as it is. -/
def connect (sim : Simulator) (conn random : Nat) : Simulator :=
  if (sim.object conn).remoteAddress = 0 then sim
  else
    let connecting := sim.network.setState conn .connecting
    let added :=
      { sim with network := connecting.addConnection conn }
    let time := added.timeOfHandling conn random
    let object := added.object conn
    (added.setTimeStamp conn time).addEvent conn time
      (.handleRequest object.localConnectionId object.remoteAddress)

/-- The operations of a connection are aborted by a task of the next time step,
which aborts what it finds in the queues. -/
def scheduleCancellation (sim : Simulator) (conn : Nat) : Simulator :=
  sim.addTask (sim.time + 1)
    (.cancelOperations conn (sim.object conn).queues)

/-- The connection is closed at once, the other side by an event. -/
def disconnect (sim : Simulator) (conn random : Nat) : Simulator :=
  let object := sim.object conn
  if object.connectionState ≠ .connected then sim
  else
    let closed := sim.setState conn .disconnected
    let time := closed.timeOfHandling conn random
    let stamped := closed.setTimeStamp conn time
    let removed :=
      { stamped with network := stamped.network.forget conn }
    let added :=
      ((removed.scheduleCancellation conn).call
        (.disconnected conn)).addEvent conn time
          (.handleDisconnect object.remoteConnectionId)
    { added with network := added.network.setRemote conn 0 }

def asyncSend (sim : Simulator) (conn : Nat) (message : Bytes)
    (messageId : Nat) : Simulator :=
  let object := sim.object conn
  if message.length < 1 then sim
  else if object.connectionState = .disconnected then sim
  else
    let pushed :=
      sim.put conn
        { object with sending := object.sending ++ [⟨message, 0, messageId⟩] }
    if object.connectionState = .connected then
      pushed.addTask (pushed.time + 1) (.handleSend conn)
    else pushed

def asyncRead (sim : Simulator) (conn bufferSize numBytes readId : Nat) : Simulator :=
  let object := sim.object conn
  if numBytes > bufferSize then sim
  else
    let pushed :=
      sim.put conn
        { object with reading := object.reading ++ [⟨[], bufferSize, numBytes, readId⟩] }
    if object.receiveBuffer.length ≠ 0 then
      pushed.addTask (pushed.time + 1) (.handleRead conn)
    else pushed

/-! ## Tasks -/

/-- The next fragment of the first message is on its way. -/
def handleSend (sim : Simulator) (random conn : Nat) : Simulator :=
  let object := sim.object conn
  if object.connectionState ≠ .connected then sim
  else
    match object.sending with
    | [] => sim
    | packet :: waiting =>
      if packet.message.length = packet.bytesSend then sim
      else
        let message := Simulation.nextFragment object.parameters.bandwidth packet
        let sent :=
          sim.put conn
            { object with
              sending :=
                { packet with bytesSend := packet.bytesSend + message.length } ::
                  waiting }
        let time := sent.timeOfHandling conn random
        (sent.setTimeStamp conn time).addEvent conn time
          (.handleMessage object.localConnectionId object.remoteConnectionId message)

/-- The first reader gets what has arrived; one that asked for a number of
bytes waits until it has all of them. -/
def handleRead (sim : Simulator) (conn : Nat) : Simulator :=
  let object := sim.object conn
  if object.connectionState ≠ .connected then sim
  else
    match object.receiveBuffer, object.reading with
    | first :: others, packet :: waiting =>
      let readSome := packet.expectToRead = 0
      let maxToRead :=
        if readSome then packet.bufferSize else packet.expectToRead
      let (buffer, left) := Simulation.readLoop maxToRead packet.buffer (first :: others)
      if readSome ∨ buffer.length = packet.expectToRead then
        let popped :=
          sim.put conn { object with receiveBuffer := left, reading := waiting }
        (popped.addTask (popped.time + 1) (.handleRead conn)).call
          (.messageReceived conn buffer packet.id)
      else
        sim.put conn
          { object with
            receiveBuffer := left
            reading := { packet with buffer := buffer } :: waiting }
    | _, _ => sim

/-- The sender of a message that cannot be delivered gets an
acknowledgement with an error. -/
def brokenPipe (sim : Simulator) (random source : Nat) : Simulator :=
  match sim.getConnection source with
  | none => sim
  | some sender =>
    sim.addTask (sim.timeOfHandling sender random)
      (.handleAck source (.internal (text "Broken pipe")))

/-- The next `handle_send`, or an acknowledgement if the message has been
sent. -/
def answer (sim : Simulator) (random source receiver : Nat) : Simulator :=
  match sim.getConnection source with
  | none => sim
  | some sender =>
    if Simulation.SentWhole (sim.object sender).toSimulatedConnection then
      let time := sim.timeOfHandling receiver random
      (sim.setTimeStamp receiver time).addTask time (.handleAck source .ok)
    else if (sim.object sender).connectionState = .connected then
      sim.addTask (sim.time + 1) (.handleSend sender)
    else sim

/-- The fragment is pushed into the receive buffer of the other side. -/
def handleMessage (sim : Simulator)
    (random source dest : Nat) (message : Bytes) : Simulator :=
  match sim.getConnection dest with
  | none => sim.brokenPipe random source
  | some receiver =>
    let object := sim.object receiver
    if object.connectionState ≠ .connected then sim.brokenPipe random source
    else
      let pushed :=
        sim.put receiver { object with receiveBuffer := object.receiveBuffer ++ [message] }
      let reading :=
        if object.reading.length ≠ 0 then pushed.addTask (pushed.time + 1) (.handleRead receiver)
        else pushed
      reading.answer random source receiver

/-- The first message leaves the queue, and its sender is told. -/
def handleAck (sim : Simulator) (dest : Nat) (status : Status) : Simulator :=
  match sim.getConnection dest with
  | none => sim
  | some conn =>
    let object := sim.object conn
    match object.sending with
    | [] => sim
    | packet :: waiting =>
      let popped :=
        (sim.put conn { object with sending := waiting }).call
          (.messageSent conn packet.id status)
      popped.addTask (popped.time + 1) (.handleSend conn)

/-- The connection that asked is connected; reading and sending start. -/
def handleAccept (sim : Simulator) (dest : Nat) : Simulator :=
  match sim.getConnection dest with
  | none => sim
  | some conn =>
    let opened := (sim.setState conn .connected).call (.connected conn)
    (opened.addTask (opened.time + 1) (.handleRead conn)).addTask
      (opened.time + 1) (.handleSend conn)

/-- The connection that asked is closed and told of the refusal. -/
def handleRefuse (sim : Simulator) (dest : Nat) : Simulator :=
  match sim.getConnection dest with
  | none => sim
  | some conn =>
    ((sim.setState conn .disconnected).scheduleCancellation conn).call
        (.connectionError conn (.internal (text "Connection refused!")))

/-- The other side has closed the connection. -/
def handleDisconnect (sim : Simulator) (dest : Nat) : Simulator :=
  match sim.getConnection dest with
  | none => sim
  | some conn =>
    if (sim.object conn).connectionState = .connecting then sim
    else
      let closed := (sim.setState conn .disconnected).call (.disconnected conn)
      let cut :=
        { closed with network := closed.network.setRemote conn 0 }
      let scheduled := cut.scheduleCancellation conn
      { scheduled with network := scheduled.network.forget conn }

/-- All reads and messages that are queued are aborted. -/
def cancelOperations (sim : Simulator) (conn : Nat) : Simulator :=
  let object := sim.object conn
  { sim with
    network := sim.network.clearQueues conn
    trace :=
      sim.trace ++ (object.sending.map fun packet =>
          .messageSent conn packet.id (.aborted (text "Operation cancelled!"))) ++
        (object.reading.map fun _ =>
          .connectionError conn
            (.aborted (text "Operation read cancelled!"))) }

def accept (sim : Simulator)
    (source conn time handler : Nat) (acceptor : SimulatedAcceptor) : Simulator :=
  let parameters := (sim.object conn).parameters
  let bandwidth :=
    if acceptor.bandwidth < parameters.bandwidth then acceptor.bandwidth
    else parameters.bandwidth
  let new := sim.network.created
  if parameters.minLag ≤ parameters.maxLag then
    let established :=
      { sim with network := sim.network.establish conn time bandwidth }
    let called := (established.call (.accepted handler new)).call (.connected new)
    ((called.addTask (called.time + 1) (.handleRead new)).addTask
      (called.time + 1) (.handleSend new)).addTask time (.handleAccept source)
  else
    -- the address of the new connection cannot be parsed
    { sim with
      network :=
        sim.network.create
          { parameters with bandwidth := bandwidth } 0 }

/-- The call of `on_requested`; a destination that does not accept is reported
before, and called nevertheless. -/
def ask (sim : Simulator) (conn dest time : Nat)
    (acceptor : SimulatedAcceptor) : Simulator :=
  let reported :=
    if acceptor.accepting then sim
    else sim.addTask time (.noRoute conn)
  reported.call (.requested (sim.handlers dest) conn)

/-- `requested` is the answer of `on_requested`. -/
def handleRequest (sim : Simulator) (random : Nat)
    (requested : Bool) (source dest : Nat) : Except NetworkFault Simulator :=
  match sim.getConnection source with
  | none => .error .nullDereference
  | some conn =>
    let time := sim.time + (sim.object conn).parameters.getLag random + 1
    match sim.network.acceptors dest with
    | none => .error .nullDereference
    | some acceptor =>
      let asked := sim.ask conn dest time acceptor
      if requested then
        .ok (asked.accept source conn time (sim.handlers dest) acceptor)
      else .ok (asked.addTask time (.handleRefuse source))

def runTask (sim : Simulator) (random : Nat) (requested : Bool) :
    SimulatorTask → Except NetworkFault Simulator
  | .handleRequest source dest => sim.handleRequest random requested source dest
  | .handleAccept dest => .ok (sim.handleAccept dest)
  | .handleRefuse dest => .ok (sim.handleRefuse dest)
  | .handleDisconnect dest => .ok (sim.handleDisconnect dest)
  | .noRoute conn =>
    .ok (sim.call (.connectionError conn (.internal (text "No route to host"))))
  | .cancelOperations conn _ => .ok (sim.cancelOperations conn)
  | .handleSend conn => .ok (sim.handleSend random conn)
  | .handleRead conn => .ok (sim.handleRead conn)
  | .handleMessage source dest message =>
    .ok (sim.handleMessage random source dest message)
  | .handleAck dest status => .ok (sim.handleAck dest status)

def due (sim : Simulator) : Option Scheduled :=
  sim.tasks.find? fun entry => entry.time = sim.time

/-- A task that is run leaves the queue; an event that is processed is noted
in the trace. -/
def pop (sim : Simulator) (entry : Scheduled) : Simulator :=
  { sim with
    tasks := sim.tasks.erase entry
    trace :=
      match entry.issued with
      | none => sim.trace
      | some (conn, time) => sim.trace ++ [.processed conn time] }

end Simulator

/-- What can happen next: calls from outside, the next task of the current
time, and the step of `process` to the next time. -/
inductive SimulatorAction where
  | create (parameters : ConnectionParams) (remoteAddress : Nat)
  | connect (conn random : Nat)
  | disconnect (conn random : Nat)
  | asyncSend (conn : Nat) (message : Bytes) (messageId : Nat)
  | asyncRead (conn bufferSize numBytes readId : Nat)
  | setAcceptor (address : Nat) (acceptor : Option SimulatedAcceptor) (handler : Nat)
  | task (random : Nat) (requested : Bool)
  | tick
  deriving DecidableEq, Repr

namespace Simulator

def onCreated (sim : Simulator) (conn : Nat)
    (after : Simulator) : Except NetworkFault Simulator :=
  if conn < sim.network.created then .ok after
  else .ok sim

/-- An action that is not possible changes nothing. -/
def step (sim : Simulator) : SimulatorAction → Except NetworkFault Simulator
  | .create parameters remoteAddress =>
    .ok { sim with network := sim.network.create parameters remoteAddress }
  | .connect conn random =>
    sim.onCreated conn (sim.connect conn random)
  | .disconnect conn random =>
    sim.onCreated conn (sim.disconnect conn random)
  | .asyncSend conn message messageId =>
    sim.onCreated conn (sim.asyncSend conn message messageId)
  | .asyncRead conn bufferSize numBytes readId =>
    sim.onCreated conn (sim.asyncRead conn bufferSize numBytes readId)
  | .setAcceptor address acceptor handler =>
    .ok { sim with
      network :=
        { sim.network with
          acceptors := Function.update sim.network.acceptors address acceptor }
      handlers := Function.update sim.handlers address handler }
  | .task random requested =>
    match sim.due with
    | none => .ok sim
    | some entry => (sim.pop entry).runTask random requested entry.task
  | .tick =>
    match sim.due with
    | none =>
      .ok { sim with network := { sim.network with time := sim.time + 1 } }
    | some _ => .ok sim

def run (sim : Simulator) (actions : List SimulatorAction) : Except NetworkFault Simulator :=
  actions.foldlM step sim

end Simulator

end AutomatonCore.Network
