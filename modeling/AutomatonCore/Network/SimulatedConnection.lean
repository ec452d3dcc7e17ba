import AutomatonCore.Io.Hex

/-!
# Established simulated connections

A task or a call runs as a whole.  The functions return the new simulation and
the events that show outside.  The value that `std::rand` returns is an
argument.  Times are natural numbers where the source has 64 bits.
-/

namespace AutomatonCore.Network

open Io

inductive Status where
  | ok
  | internal (message : Bytes)
  | aborted (message : Bytes)
  deriving DecidableEq, Repr

inductive ConnectionState where
  | invalidState
  | connecting
  | connected
  | disconnected
  deriving DecidableEq, Repr

structure ConnectionParams where
  minLag : Nat
  maxLag : Nat
  bandwidth : Nat
  deriving DecidableEq, Repr

/-- `bytes_send` has 32 bits in the source: the messages here are those of
fewer than `2 ^ 32` bytes. -/
structure OutgoingPacket where
  message : Bytes
  bytesSend : Nat
  id : Nat
  deriving DecidableEq, Repr

/-- `buffer` is what has been copied to the buffer of the reader, so its
length is `bytes_read`. -/
structure IncomingPacket where
  buffer : Bytes
  bufferSize : Nat
  expectToRead : Nat
  id : Nat
  deriving DecidableEq, Repr

/-- `simulated_connection`; the `local_connection_id` is the key of the
connection in the simulation. -/
structure SimulatedConnection where
  remoteConnectionId : Nat
  parameters : ConnectionParams
  sending : List OutgoingPacket
  reading : List IncomingPacket
  receiveBuffer : List Bytes
  timeStamp : Nat
  connectionState : ConnectionState
  deriving DecidableEq, Repr

inductive Task where
  | handleSend (conn : Nat)
  | handleRead (conn : Nat)
  | handleMessage (source dest : Nat) (message : Bytes)
  | handleAck (dest : Nat) (status : Status)
  deriving DecidableEq, Repr

/-- The calls of the connection handler, the messages accepted by `async_send`,
and the strings pushed into a receive buffer. -/
inductive Event where
  | queued (conn id : Nat) (message : Bytes)
  | arrived (conn : Nat) (message : Bytes)
  | messageSent (conn id : Nat) (status : Status)
  | messageReceived (conn : Nat) (buffer : Bytes) (id : Nat)
  deriving DecidableEq, Repr

/-- The tasks are listed in the order in which they were added. -/
structure Simulation where
  time : Nat
  tasks : List (Nat × Task)
  connections : Nat → Option SimulatedConnection

namespace ConnectionParams

def getLag (parameters : ConnectionParams) (random : Nat) : Nat :=
  if parameters.minLag = parameters.maxLag then parameters.minLag
  else random % (parameters.maxLag - parameters.minLag) + parameters.minLag

end ConnectionParams

namespace SimulatedConnection

def setTimeStamp (conn : SimulatedConnection) (time : Nat) : SimulatedConnection :=
  { conn with
    timeStamp :=
      if time > conn.timeStamp then time else conn.timeStamp }

/-- A time stamp has 32 bits, and the time of handling is computed with 32 bits
before it is widened. -/
def timeOfHandling (conn : SimulatedConnection) (time lag : Nat) : Nat :=
  let t := time % 2 ^ 32
  let ts := conn.timeStamp
  ((if t > ts then t else ts) + 1 + lag) % 2 ^ 32

end SimulatedConnection

namespace Simulation

/-- Tasks of one time run in the order in which they were added. -/
def addTask (sim : Simulation) (time : Nat) (task : Task) : Simulation :=
  let tm := if time ≤ sim.time then sim.time + 1 else time
  { sim with tasks := sim.tasks ++ [(tm, task)] }

def put (sim : Simulation) (id : Nat) (conn : SimulatedConnection) : Simulation :=
  { sim with
    connections := fun other =>
      if other = id then some conn else sim.connections other }

/-- `async_send`; an empty message and a disconnected connection are refused
with a warning. -/
def asyncSend (sim : Simulation) (id : Nat) (message : Bytes)
    (messageId : Nat) : Simulation × List Event :=
  match sim.connections id with
  | none => (sim, [])
  | some conn =>
    if message.length < 1 then (sim, [])
    else if conn.connectionState = .disconnected then (sim, [])
    else
      let pushed :=
        sim.put id
          { conn with sending := conn.sending ++ [⟨message, 0, messageId⟩] }
      if conn.connectionState = .connected then
        (pushed.addTask (pushed.time + 1) (.handleSend id), [.queued id messageId message])
      else (pushed, [.queued id messageId message])

def nextFragment (bandwidth : Nat) (packet : OutgoingPacket) : Bytes :=
  if bandwidth ≥ packet.message.length - packet.bytesSend then
    if packet.bytesSend = 0 then packet.message
    else packet.message.drop packet.bytesSend
  else (packet.message.drop packet.bytesSend).take bandwidth

/-- The first message of the queue is sent in fragments of at most `bandwidth`
bytes. -/
def handleSend (sim : Simulation) (random id : Nat) : Simulation :=
  match sim.connections id with
  | none => sim
  | some conn =>
    if conn.connectionState ≠ .connected then sim
    else
      match conn.sending with
      | [] => sim
      | packet :: waiting =>
        if packet.message.length = packet.bytesSend then
          -- waiting for the acknowledgement
          sim
        else
          let message := nextFragment conn.parameters.bandwidth packet
          let time :=
            conn.timeOfHandling sim.time (conn.parameters.getLag random)
          let sent : SimulatedConnection :=
            { conn with
              sending :=
                { packet with bytesSend := packet.bytesSend + message.length } ::
                  waiting }
          (sim.put id (sent.setTimeStamp time)).addTask time
            (.handleMessage id conn.remoteConnectionId message)

/-- The copying loop of `handle_read`: the bytes at the reader, and what is
left in the receive buffer. -/
def readLoop (maxToRead : Nat) : Bytes → List Bytes → Bytes × List Bytes
  | buffer, [] => (buffer, [])
  | buffer, message :: rest =>
    if buffer.length < maxToRead then
      let leftToRead := maxToRead - buffer.length
      if message.length ≤ leftToRead then readLoop maxToRead (buffer ++ message) rest
      else
        -- the reader is full after a part of the message
        (buffer ++ message.take leftToRead, message.drop leftToRead :: rest)
    else (buffer, message :: rest)

section ReadLoop

open List

variable {maxToRead : Nat} {buffer result : Bytes} {chunks left : List Bytes}

/-- The loop moves bytes to the reader until it is full or nothing is left. -/
theorem readLoop_reads (room : buffer.length ≤ maxToRead)
    (looped : readLoop maxToRead buffer chunks = (result, left)) :
    ∃ bytes, result = buffer ++ bytes ∧ bytes ++ left.flatten = chunks.flatten ∧
      result.length ≤ maxToRead ∧ (result.length = maxToRead ∨ left = []) := by
  induction chunks generalizing buffer with
  | nil =>
    cases looped
    exact ⟨[], by simp, rfl, room, .inr rfl⟩
  | cons chunk chunks ih =>
    rw [readLoop] at looped
    split at looped
    · dsimp only at looped
      split at looped
      · -- the whole chunk is copied
        obtain ⟨bytes, rfl, moved, bound, full⟩ := ih (by rw [length_append]; omega) looped
        exact ⟨chunk ++ bytes, by simp, by rw [append_assoc, moved, flatten_cons], bound, full⟩
      · -- the reader is full after a part of the chunk
        cases looped
        refine ⟨chunk.take (maxToRead - buffer.length), rfl, ?_, ?_⟩
        · rw [flatten_cons, flatten_cons, ← append_assoc, take_append_drop]
        · simp only [length_append, length_take]
          omega
    · cases looped
      exact ⟨[], by simp, rfl, room, .inl (by omega)⟩

theorem readLoop_nonempty (given : ∀ chunk ∈ chunks, chunk ≠ [])
    (looped : readLoop maxToRead buffer chunks = (result, left)) : ∀ chunk ∈ left, chunk ≠ [] := by
  induction chunks generalizing buffer with
  | nil =>
    cases looped
    exact given
  | cons chunk chunks ih =>
    rw [readLoop] at looped
    split at looped
    · dsimp only at looped
      split at looped
      · exact ih (forall_mem_cons.mp given).2 looped
      · cases looped
        rw [forall_mem_cons] at given ⊢
        exact ⟨by rw [Ne, drop_eq_nil_iff]; omega, given.2⟩
    · cases looped
      exact given

end ReadLoop

def handleRead (sim : Simulation) (id : Nat) : Simulation × List Event :=
  match sim.connections id with
  | none => (sim, [])
  | some conn =>
    if conn.connectionState ≠ .connected then (sim, [])
    else
      match conn.receiveBuffer, conn.reading with
      | first :: others, packet :: waiting =>
        let readSome := packet.expectToRead = 0
        let maxToRead :=
          if readSome then packet.bufferSize else packet.expectToRead
        let (buffer, left) := readLoop maxToRead packet.buffer (first :: others)
        if readSome ∨ buffer.length = packet.expectToRead then
          let popped :=
            sim.put id
              { conn with
                receiveBuffer := left
                reading := waiting }
          (popped.addTask (popped.time + 1) (.handleRead id),
            [.messageReceived id buffer packet.id])
        else
          (sim.put id
            { conn with
              receiveBuffer := left
              reading := { packet with buffer := buffer } :: waiting },
            [])
      | _, _ => (sim, [])

def asyncRead (sim : Simulation) (id bufferSize numBytes readId : Nat) : Simulation :=
  match sim.connections id with
  | none => sim
  | some conn =>
    if numBytes > bufferSize then sim
    else
      let pushed :=
        sim.put id
          { conn with reading := conn.reading ++ [⟨[], bufferSize, numBytes, readId⟩] }
      if conn.receiveBuffer.length ≠ 0 then pushed.addTask (pushed.time + 1) (.handleRead id)
      else pushed

def SentWhole (conn : SimulatedConnection) : Prop :=
  ∃ packet waiting, conn.sending = packet :: waiting ∧
    packet.message.length = packet.bytesSend

instance (conn : SimulatedConnection) : Decidable (SentWhole conn) :=
  match shape : conn.sending with
  | [] => isFalse (by rintro ⟨_, _, other, _⟩; simp [shape] at other)
  | packet :: waiting =>
    decidable_of_iff (packet.message.length = packet.bytesSend) (by simp [SentWhole, shape])

/-- The next `handle_send`, or an acknowledgement if the message has been
sent. -/
def answer (sim : Simulation) (random source dest : Nat) : Simulation :=
  match sim.connections source, sim.connections dest with
  | some sender, some receiver =>
    if SentWhole sender then
      let time := receiver.timeOfHandling sim.time (receiver.parameters.getLag random)
      (sim.put dest (receiver.setTimeStamp time)).addTask time (.handleAck source .ok)
    else if sender.connectionState = .connected then
      sim.addTask (sim.time + 1) (.handleSend source)
    else sim
  | _, _ => sim

/-- The fragment is pushed into the receive buffer of the other side. -/
def handleMessage (sim : Simulation) (random source dest : Nat) (message : Bytes) :
    Simulation × List Event :=
  let brokenPipe :=
    match sim.connections source with
    | none => (sim, [])
    | some sender =>
      let time := sender.timeOfHandling sim.time (sender.parameters.getLag random)
      (sim.addTask time (.handleAck source (.internal (text "Broken pipe"))), [])
  match sim.connections dest with
  | none => brokenPipe
  | some receiver =>
    if receiver.connectionState ≠ .connected then brokenPipe
    else
      let pushed :=
        sim.put dest
          { receiver with receiveBuffer := receiver.receiveBuffer ++ [message] }
      let reading :=
        if receiver.reading.length ≠ 0 then
          pushed.addTask (pushed.time + 1) (.handleRead dest)
        else pushed
      (reading.answer random source dest, [.arrived dest message])

def handleAck (sim : Simulation) (id : Nat) (status : Status) : Simulation × List Event :=
  match sim.connections id with
  | none => (sim, [])
  | some conn =>
    match conn.sending with
    | [] => (sim, [])
    | packet :: waiting =>
      let popped := sim.put id { conn with sending := waiting }
      (popped.addTask (popped.time + 1) (.handleSend id), [.messageSent id packet.id status])

def runTask (sim : Simulation) (random : Nat) : Task → Simulation × List Event
  | .handleSend id => (sim.handleSend random id, [])
  | .handleRead id => sim.handleRead id
  | .handleMessage source dest message =>
    sim.handleMessage random source dest message
  | .handleAck id status => sim.handleAck id status

def due (sim : Simulation) : Option (Nat × Task) :=
  sim.tasks.find? fun entry => entry.1 = sim.time

def pop (sim : Simulation) (entry : Nat × Task) : Simulation :=
  { sim with tasks := sim.tasks.erase entry }

/-- What can happen next: a call from outside, the next task of the current
time, or the step of `process` to the next time. -/
inductive Action where
  | asyncSend (conn : Nat) (message : Bytes) (id : Nat)
  | asyncRead (conn bufferSize numBytes id : Nat)
  | task (random : Nat)
  | tick
  deriving DecidableEq, Repr

/-- `none` if the action is not possible: there is no task at the current
time, or there still is one. -/
def step (sim : Simulation) : Action → Option (Simulation × List Event)
  | .asyncSend id message messageId => some (sim.asyncSend id message messageId)
  | .asyncRead id bufferSize numBytes readId =>
    some (sim.asyncRead id bufferSize numBytes readId, [])
  | .task random =>
    match sim.due with
    | none => none
    | some entry => some ((sim.pop entry).runTask random entry.2)
  | .tick =>
    match sim.due with
    | none => some ({ sim with time := sim.time + 1 }, [])
    | some _ => none

def run (sim : Simulation) : List Action → Option (Simulation × List Event)
  | [] => some (sim, [])
  | action :: actions =>
    match sim.step action with
    | none => none
    | some (next, events) => (next.run actions).map fun (final, later) => (final, events ++ later)

end Simulation

end AutomatonCore.Network
