import Mathlib.Data.List.GetD
import AutomatonCore.Library.GuardedRun
import AutomatonCore.Network.SimulatedConnection

/-!
# Reassembling a stream from its chunks

The receiving side of a connected `simulated_connection`.  A reader may take
several chunks, and a chunk may serve several readers.
-/

namespace AutomatonCore.Network

open Io Library List

section Memory

def memcpy (memory : Nat → UInt8) (target : Nat) (data : Bytes) : Nat → UInt8 :=
  fun address =>
    if target ≤ address then data.getD (address - target) (memory address)
    else memory address

def bytesAt (memory : Nat → UInt8) (buffer count : Nat) : Bytes :=
  (List.range count).map fun index => memory (buffer + index)

@[simp]
theorem length_bytesAt (memory : Nat → UInt8) (buf count : Nat) :
    (bytesAt memory buf count).length = count := by
  simp [bytesAt]

@[simp]
theorem bytesAt_zero (memory : Nat → UInt8) (buf : Nat) : bytesAt memory buf 0 = [] :=
  rfl

theorem bytesAt_memcpy (memory : Nat → UInt8) (buf count : Nat) (data : Bytes) :
    bytesAt (memcpy memory (buf + count) data) buf
        (count + data.length) = bytesAt memory buf count ++ data := by
  apply ext_getElem
  · simp
  · intro i inside _
    rw [length_bytesAt] at inside
    by_cases before : i < count
    · rw [getElem_append_left (by simpa using before)]
      simp only [bytesAt, getElem_map, getElem_range, memcpy]
      rw [if_neg (by omega)]
    · rw [getElem_append_right (by simpa using before)]
      simp only [bytesAt, getElem_map, getElem_range, memcpy]
      rw [if_pos (by omega)]
      have shifted : buf + i - (buf + count) = i - count := by omega
      rw [shifted, getD_eq_getElem _ _ (by omega)]
      simp

theorem memcpy_outside {memory : Nat → UInt8} {target address : Nat} {data : Bytes}
    (outside : address < target ∨ target + data.length ≤ address) :
    memcpy memory target data address = memory address := by
  unfold memcpy
  split
  · rw [getD_eq_default _ _ (by omega)]
  · rfl

theorem bytesAt_congr {memory other : Nat → UInt8} {buf count : Nat}
    (same : ∀ i < count, memory (buf + i) = other (buf + i)) :
    bytesAt memory buf count = bytesAt other buf count :=
  map_congr_left fun i mem => same i (mem_range.mp mem)

end Memory

structure BufferedPacket where
  buffer : Nat
  bufferSize : Nat
  expectToRead : Nat
  id : Nat
  bytesRead : Nat
  deriving DecidableEq, Repr

def BufferedPacket.maxToRead (packet : BufferedPacket) : Nat :=
  if packet.expectToRead = 0 then packet.bufferSize
  else packet.expectToRead

/-- The bytes that the buffer of a read holds for it. -/
def BufferedPacket.content (memory : Nat → UInt8) (packet : BufferedPacket) : Bytes :=
  bytesAt memory packet.buffer packet.bytesRead

/-- The receiving side of a connection, with the memory that holds the
buffers of its readers and the callbacks of the connection that wait. -/
structure ReceivingSide where
  memory : Nat → UInt8
  connectionState : ConnectionState
  reading : List BufferedPacket
  receiveBuffer : List Bytes
  handlersTasks : List BufferedPacket

/-- A call of `on_message_received`, with the bytes that the buffer holds
when it is made. -/
structure Received where
  packet : BufferedPacket
  content : Bytes
  deriving DecidableEq, Repr

namespace ReceivingSide

/-- The copying loop of `handle_read`: the memory, `bytes_read`, and what is
left in the receive buffer. -/
def copyLoop (buffer maxToRead : Nat) :
    (Nat → UInt8) → Nat → List Bytes → (Nat → UInt8) × Nat × List Bytes
  | memory, bytesRead, [] => (memory, bytesRead, [])
  | memory, bytesRead, message :: rest =>
    if bytesRead < maxToRead then
      let leftToRead := maxToRead - bytesRead
      if leftToRead ≥ message.length then
        copyLoop buffer maxToRead (memcpy memory (buffer + bytesRead) message)
          (bytesRead + message.length) rest
      else
        -- the reader is full, so the loop ends here
        (memcpy memory (buffer + bytesRead) (message.take leftToRead),
          bytesRead + leftToRead, message.drop leftToRead :: rest)
    else (memory, bytesRead, message :: rest)

/-- `handle_read`; the callback of a completed read is queued with the pointer
to the buffer and the number of bytes. -/
def handleRead (side : ReceivingSide) : ReceivingSide :=
  if side.connectionState ≠ .connected then side
  else
    match side.receiveBuffer, side.reading with
    | first :: others, packet :: waiting =>
      let readSome := packet.expectToRead = 0
      let (memory, bytesRead, left) :=
        copyLoop packet.buffer packet.maxToRead side.memory packet.bytesRead (first :: others)
      let read := { packet with bytesRead := bytesRead }
      if readSome ∨ bytesRead = packet.expectToRead then
        { side with
          memory := memory
          receiveBuffer := left
          reading := waiting
          handlersTasks := side.handlersTasks ++ [read] }
      else
        { side with
          memory := memory
          receiveBuffer := left
          reading := read :: waiting }
    | _, _ => side

/-- One round of `process_handlers`: the first callback that waits is made. -/
def processHandler (side : ReceivingSide) : ReceivingSide × List Received :=
  match side.handlersTasks with
  | [] => (side, [])
  | packet :: waiting =>
    ({ side with handlersTasks := waiting }, [⟨packet, packet.content side.memory⟩])

def asyncRead (side : ReceivingSide) (buffer bufferSize numBytes id : Nat) : ReceivingSide :=
  if numBytes > bufferSize then side
  else { side with reading := side.reading ++ [⟨buffer, bufferSize, numBytes, id, 0⟩] }

def arrive (side : ReceivingSide) (message : Bytes) : ReceivingSide :=
  if side.connectionState ≠ .connected then side
  else { side with receiveBuffer := side.receiveBuffer ++ [message] }

inductive Action where
  | arrive (message : Bytes)
  | asyncRead (buffer bufferSize numBytes id : Nat)
  | handleRead
  | processHandler
  deriving DecidableEq, Repr

def step (side : ReceivingSide) : Action → ReceivingSide × List Received
  | .arrive message => (side.arrive message, [])
  | .asyncRead buffer bufferSize numBytes id => (side.asyncRead buffer bufferSize numBytes id, [])
  | .handleRead => (side.handleRead, [])
  | .processHandler => side.processHandler

def run (side : ReceivingSide) : List Action → ReceivingSide × List Received
  | [] => (side, [])
  | action :: actions =>
    let (next, received) := side.step action
    let (final, later) := next.run actions
    (final, received ++ later)

def new (memory : Nat → UInt8) : ReceivingSide where
  memory := memory
  connectionState := .connected
  reading := []
  receiveBuffer := []
  handlersTasks := []

end ReceivingSide

section CopyingLoop

open Simulation

theorem copyLoop_readLoop (buf maxToRead : Nat)
    (memory : Nat → UInt8) (bytesRead : Nat) (chunks : List Bytes) :
    readLoop maxToRead (bytesAt memory buf bytesRead) chunks =
      (bytesAt (ReceivingSide.copyLoop buf maxToRead memory bytesRead chunks).1 buf
          (ReceivingSide.copyLoop buf maxToRead memory bytesRead chunks).2.1,
        (ReceivingSide.copyLoop buf maxToRead memory bytesRead chunks).2.2) := by
  induction chunks generalizing memory bytesRead with
  | nil => rfl
  | cons msg rest ih =>
    rw [readLoop, ReceivingSide.copyLoop, length_bytesAt]
    split
    · dsimp only
      split
      · rw [← bytesAt_memcpy, ih]
      next part =>
          have taken : (msg.take (maxToRead - bytesRead)).length = maxToRead - bytesRead :=
            length_take_of_le (by omega)
          rw [← bytesAt_memcpy, taken]
    · rfl

theorem copyLoop_outside {buf address maxToRead bytesRead : Nat} (inside : bytesRead ≤ maxToRead)
    (outside : address < buf ∨ buf + maxToRead ≤ address)
    (memory : Nat → UInt8) (chunks : List Bytes) :
    (ReceivingSide.copyLoop buf maxToRead memory bytesRead chunks).1 address = memory address := by
  induction chunks generalizing memory bytesRead with
  | nil => rfl
  | cons msg rest ih =>
    rw [ReceivingSide.copyLoop]
    split
    · dsimp only
      split
      · rw [ih (by omega), memcpy_outside (by omega)]
      · exact memcpy_outside (by rw [length_take]; omega)
    · rfl

end CopyingLoop

namespace ReceivingSide

def FirstOnly (side : ReceivingSide) : Prop :=
  ∀ packet ∈ side.reading.tail, packet.bytesRead = 0

def copied (side : ReceivingSide) : Bytes :=
  match side.reading with
  | [] => []
  | packet :: _ => packet.content side.memory

end ReceivingSide

def BufferedPacket.request (packet : BufferedPacket) : BufferedPacket :=
  { packet with bytesRead := 0 }

/-- What holds of a queued packet: a read for some bytes has got none yet,
and a read for a number of bytes less than that. -/
structure BufferedPacket.Pending (packet : BufferedPacket) : Prop where
  space : 1 ≤ packet.bufferSize
  bounded : packet.expectToRead ≤ packet.bufferSize
  partly : packet.expectToRead = 0 ∧ packet.bytesRead = 0 ∨ packet.bytesRead < packet.expectToRead

theorem BufferedPacket.Pending.room {packet : BufferedPacket} (pending : packet.Pending) :
    packet.bytesRead < packet.maxToRead ∧ packet.maxToRead ≤ packet.bufferSize := by
  obtain ⟨space, bounded, partly⟩ := pending
  unfold BufferedPacket.maxToRead
  split <;> omega

/-- What holds of a completed read: it got the number of bytes that it asked
for, or some bytes if it asked for any. -/
structure BufferedPacket.Complete (packet : BufferedPacket) : Prop where
  exact : 0 < packet.expectToRead → packet.bytesRead = packet.expectToRead
  some : packet.expectToRead = 0 → 1 ≤ packet.bytesRead
  inside : packet.bytesRead ≤ packet.bufferSize

/-- The buffers of two reads have no byte in common. -/
def BufferedPacket.Apart (packet other : BufferedPacket) : Prop :=
  packet.buffer + packet.bufferSize ≤ other.buffer ∨ other.buffer + other.bufferSize ≤ packet.buffer

instance (packet other : BufferedPacket) : Decidable (packet.Apart other) :=
  inferInstanceAs (Decidable (_ ∨ _))

namespace ReceivingSide

def Action.arrived : Action → Bytes
  | .arrive message => message
  | _ => []

/-- The read that an action adds; one that asks for more bytes than its
buffer has is refused. -/
def Action.requested : Action → List BufferedPacket
  | .asyncRead buffer bufferSize numBytes id =>
    if numBytes > bufferSize then []
    else [⟨buffer, bufferSize, numBytes, id, 0⟩]
  | _ => []

/-- The reads whose callbacks have not been made. -/
def outstanding (side : ReceivingSide) : List BufferedPacket :=
  side.handlersTasks ++ side.reading

/-- The condition on an action: chunks are not empty, neither are the buffers
of readers, and a read is not made with a buffer that another one still
uses. -/
def Proper (side : ReceivingSide) : Action → Prop
  | .arrive message => message ≠ []
  | .asyncRead buffer bufferSize numBytes id =>
    1 ≤ bufferSize ∧ ∀ packet ∈ (Action.asyncRead buffer bufferSize numBytes id).requested,
        ∀ other ∈ side.outstanding, other.Apart packet
  | .handleRead => True
  | .processHandler => True

instance (side : ReceivingSide) : DecidablePred side.Proper := fun action =>
  match action with
  | .arrive message => inferInstanceAs (Decidable (message ≠ []))
  | .asyncRead .. => inferInstanceAs (Decidable (_ ∧ ∀ packet ∈ _, ∀ other ∈ _, _))
  | .handleRead => inferInstanceAs (Decidable True)
  | .processHandler => inferInstanceAs (Decidable True)

/-- The state after an action; no action fails. -/
def next (side : ReceivingSide) (action : Action) : Except Empty ReceivingSide :=
  .ok (side.step action).1

/-- The invariant: `arrived` are the bytes of all chunks so far, `requested`
the accepted reads, and `received` the callbacks that were made. -/
structure Reassembles (arrived : Bytes) (requested : List BufferedPacket)
    (received : List Received) (side : ReceivingSide) : Prop where
  connected : side.connectionState = .connected
  conserved : (received.map Received.content).flatten ++
        (side.handlersTasks.map (BufferedPacket.content side.memory)).flatten ++
      side.copied ++ side.receiveBuffer.flatten = arrived
  ordered :
    received.map (·.packet.request) ++ side.outstanding.map BufferedPacket.request = requested
  contents : ∀ call ∈ received, call.content.length = call.packet.bytesRead
  complete : ∀ packet ∈ received.map Received.packet ++ side.handlersTasks, packet.Complete
  pending : ∀ packet ∈ side.reading, packet.Pending
  firstOnly : side.FirstOnly
  nonempty : ∀ chunk ∈ side.receiveBuffer, chunk ≠ []
  apart : side.outstanding.Pairwise BufferedPacket.Apart

variable {side : ReceivingSide} {arrived : Bytes}
  {requested : List BufferedPacket} {received : List Received}

theorem Reassembles.arrive (reassembles : Reassembles arrived requested received side)
    {msg : Bytes} (given : msg ≠ []) :
    Reassembles (arrived ++ msg) requested received (side.arrive msg) := by
  have pushed : side.arrive msg = { side with receiveBuffer := side.receiveBuffer ++ [msg] } :=
    if_neg (not_not.mpr reassembles.connected)
  rw [pushed]
  refine { reassembles with conserved := ?_, nonempty := ?_ }
  · rw [← reassembles.conserved]
    simp [copied]
  · rw [forall_mem_append]
    exact ⟨reassembles.nonempty, forall_mem_singleton.mpr given⟩

theorem Reassembles.asyncRead (reassembles : Reassembles arrived requested received side)
    {buf bufferSize numBytes readId : Nat}
    (proper : side.Proper (.asyncRead buf bufferSize numBytes readId)) :
    Reassembles arrived (requested ++ (Action.asyncRead buf bufferSize numBytes readId).requested)
      received (side.asyncRead buf bufferSize numBytes readId) := by
  obtain ⟨space, apart⟩ := proper
  unfold ReceivingSide.asyncRead
  unfold Action.requested at apart ⊢
  dsimp only at apart ⊢
  split
  · rw [append_nil]
    exact reassembles
  next bounded =>
      rw [if_neg bounded, forall_mem_singleton] at apart
      refine
        { reassembles with
          conserved := ?_
          ordered := ?_
          pending := ?_
          firstOnly := ?_
          apart := ?_ }
      · rw [← reassembles.conserved]
        cases packets : side.reading <;> simp [copied, packets, BufferedPacket.content]
      · rw [← reassembles.ordered]
        simp [outstanding, BufferedPacket.request]
      · rw [forall_mem_append]
        refine ⟨reassembles.pending, forall_mem_singleton.mpr ?_⟩
        exact
          { space := space
            bounded := Nat.le_of_not_gt bounded
            partly := by dsimp only; omega }
      · have waiting := reassembles.firstOnly
        unfold FirstOnly at waiting ⊢
        cases packets : side.reading with
        | nil => simp
        | cons pkt others =>
          rw [packets] at waiting
          simpa [or_imp, forall_and] using waiting
      · unfold outstanding
        rw [← append_assoc, pairwise_append]
        refine ⟨reassembles.apart, pairwise_singleton _ _, fun other mem pkt last => ?_⟩
        obtain rfl := mem_singleton.mp last
        exact apart other mem

theorem copied_waiting (waiting : ∀ pkt ∈ side.reading, pkt.bytesRead = 0) : side.copied = [] := by
  unfold copied
  cases packets : side.reading with
  | nil => rfl
  | cons pkt others =>
    rw [packets, forall_mem_cons] at waiting
    simp [BufferedPacket.content, waiting.1]

/-- What `handle_read` does for the first reader: it writes to the buffer of
this reader only, and at least one byte. -/
theorem handleRead_cons (connected : side.connectionState = .connected)
    {first : Bytes} {others : List Bytes} (chunks : side.receiveBuffer = first :: others)
    (nonempty : ∀ chunk ∈ side.receiveBuffer, chunk ≠ [])
    {packet : BufferedPacket} {waiting : List BufferedPacket}
    (packets : side.reading = packet :: waiting) (room : packet.bytesRead < packet.maxToRead) :
    ∃ memory bytesRead left, bytesAt memory packet.buffer bytesRead ++ left.flatten =
          packet.content side.memory ++ side.receiveBuffer.flatten ∧
        packet.bytesRead < bytesRead ∧ bytesRead ≤ packet.maxToRead ∧
        (∀ chunk ∈ left, chunk ≠ []) ∧
        (∀ address, address < packet.buffer ∨ packet.buffer + packet.maxToRead ≤ address →
          memory address = side.memory address) ∧
        side.handleRead =
          if packet.expectToRead = 0 ∨ bytesRead = packet.expectToRead then
            { side with
              memory := memory
              receiveBuffer := left
              reading := waiting
              handlersTasks := side.handlersTasks ++ [{ packet with bytesRead := bytesRead }] }
          else
            { side with
              memory := memory
              receiveBuffer := left
              reading := { packet with bytesRead := bytesRead } :: waiting } := by
  rw [chunks] at nonempty
  have looped := copyLoop_readLoop packet.buffer packet.maxToRead side.memory packet.bytesRead
    (first :: others)
  obtain ⟨bytes, result, moved, bound, full⟩ :=
    Simulation.readLoop_reads (by rw [length_bytesAt]; omega) looped
  have length := congrArg List.length result
  simp only [length_append, length_bytesAt] at length bound full
  refine ⟨_, _, _, ?_, ?_, bound, Simulation.readLoop_nonempty nonempty looped,
    fun _ outside => copyLoop_outside (Nat.le_of_lt room) outside side.memory (first :: others), ?_⟩
  · rw [result, append_assoc, moved, chunks]
    rfl
  · rcases full with full | empty
    · omega
    · have some := length_pos_of_ne_nil (nonempty first mem_cons_self)
      have counted := congrArg List.length moved
      rw [empty, flatten_nil, append_nil, flatten_cons, length_append] at counted
      omega
  · rw [ReceivingSide.handleRead, if_neg (not_not.mpr connected), chunks, packets]

/-- Outside of the buffer of a read, the contents of the others stay. -/
theorem content_apart {memory : Nat → UInt8} {packet other : BufferedPacket}
    (apart : other.Apart packet) (inside : other.bytesRead ≤ other.bufferSize)
    (small : packet.maxToRead ≤ packet.bufferSize)
    (kept : ∀ address, address < packet.buffer ∨ packet.buffer + packet.maxToRead ≤ address →
      memory address = side.memory address) :
    other.content memory = other.content side.memory := by
  refine bytesAt_congr fun i bound => kept _ ?_
  unfold BufferedPacket.Apart at apart
  omega

/-- The callbacks that wait still find their bytes after `handle_read`. -/
theorem Reassembles.handleRead_kept (reassembles : Reassembles arrived requested received side) :
    side.handlersTasks.map (BufferedPacket.content side.handleRead.memory) =
      side.handlersTasks.map (BufferedPacket.content side.memory) := by
  cases chunks : side.receiveBuffer with
  | nil => simp [ReceivingSide.handleRead, chunks]
  | cons first others =>
    cases packets : side.reading with
    | nil => simp [ReceivingSide.handleRead, chunks, packets]
    | cons pkt waiting =>
      have room := (reassembles.pending pkt (packets ▸ mem_cons_self)).room
      obtain ⟨memory, bytesRead, left, -, -, -, -, outside, read⟩ :=
        handleRead_cons reassembles.connected chunks reassembles.nonempty packets room.1
      have written : side.handleRead.memory = memory := by
        rw [read]
        split <;> rfl
      have apart := reassembles.apart
      rw [outstanding, packets] at apart
      rw [written]
      refine map_congr_left fun other mem => ?_
      have done := (reassembles.complete other (mem_append_right _ mem)).inside
      exact content_apart ((pairwise_append.mp apart).2.2 other mem pkt mem_cons_self) done
        room.2 outside

theorem Reassembles.handleRead (reassembles : Reassembles arrived requested received side) :
    Reassembles arrived requested received side.handleRead := by
  cases chunks : side.receiveBuffer with
  | nil => simpa [ReceivingSide.handleRead, chunks] using reassembles
  | cons first others =>
    cases packets : side.reading with
    | nil => simpa [ReceivingSide.handleRead, chunks, packets] using reassembles
    | cons pkt waiting =>
      have kept := reassembles.handleRead_kept
      have pendingFirst := reassembles.pending pkt (packets ▸ mem_cons_self)
      have room := pendingFirst.room
      obtain ⟨memory, bytesRead, left, moved, longer, inside, left_ne, -, read⟩ :=
        handleRead_cons reassembles.connected chunks reassembles.nonempty packets room.1
      obtain ⟨connected, conserved, ordered, contents, complete, pending, firstOnly, ne, apart⟩ :=
        reassembles
      have written : side.handleRead.memory = memory := by
        rw [read]
        split <;> rfl
      simp only [copied, FirstOnly, outstanding, packets, tail_cons, forall_mem_cons]
        at conserved ordered pending firstOnly apart
      rw [append_assoc, ← moved, ← kept, written] at conserved
      have stillApart :
          (side.handlersTasks ++ { pkt with bytesRead := bytesRead } :: waiting).Pairwise
            BufferedPacket.Apart := by
        simpa [pairwise_append, BufferedPacket.Apart] using apart
      rw [read]
      split
      next finished =>
          refine ⟨connected, ?_, ?_, contents, ?_, pending.2, ?_, left_ne, ?_⟩
          · rw [copied_waiting firstOnly, ← conserved]
            simp [BufferedPacket.content]
          · rw [← ordered]
            simp [outstanding, BufferedPacket.request]
          · rw [← append_assoc, forall_mem_append]
            refine ⟨complete, forall_mem_singleton.mpr ⟨?_, ?_, Nat.le_trans inside room.2⟩⟩
            · intro counted
              dsimp only at counted ⊢
              omega
            · intro any
              exact Nat.lt_of_le_of_lt (Nat.zero_le _) longer
          · intro other mem
            exact firstOnly other (mem_of_mem_tail mem)
          · unfold outstanding
            rw [append_assoc]
            exact stillApart
      next unfinished =>
          refine ⟨connected, ?_, ?_, contents, complete, ?_, firstOnly, left_ne, stillApart⟩
          · rw [← conserved, append_assoc]
            rfl
          · rw [← ordered]
            simp [outstanding, BufferedPacket.request]
          · rw [forall_mem_cons]
            refine ⟨⟨pendingFirst.space, pendingFirst.bounded, .inr ?_⟩, pending.2⟩
            unfold BufferedPacket.maxToRead at inside
            split at inside <;> dsimp only <;> omega

theorem Reassembles.processHandler (reassembles : Reassembles arrived requested received side) :
    Reassembles arrived requested (received ++ side.processHandler.2) side.processHandler.1 := by
  unfold ReceivingSide.processHandler
  cases tasks : side.handlersTasks with
  | nil =>
    rw [append_nil]
    exact reassembles
  | cons pkt waiting =>
    obtain ⟨connected, conserved, ordered, contents, complete, pending, firstOnly, ne, apart⟩ :=
      reassembles
    rw [tasks] at conserved complete
    rw [outstanding, tasks] at ordered apart
    refine ⟨connected, ?_, ?_, ?_, ?_, pending, firstOnly, ne, (pairwise_cons.mp apart).2⟩
    · rw [← conserved]
      simp [copied]
    · rw [← ordered]
      simp [outstanding]
    · rw [forall_mem_append]
      exact ⟨contents, forall_mem_singleton.mpr (length_bytesAt ..)⟩
    · simpa using complete

/-- The step lemma. -/
theorem Reassembles.step (reassembles : Reassembles arrived requested received side)
    {action : Action} (proper : side.Proper action) :
    Reassembles (arrived ++ action.arrived) (requested ++ action.requested)
      (received ++ (side.step action).2) (side.step action).1 := by
  cases action with
  | arrive msg =>
    simpa [ReceivingSide.step, Action.arrived, Action.requested] using reassembles.arrive proper
  | asyncRead buf bufferSize numBytes readId =>
    simpa [ReceivingSide.step, Action.arrived] using reassembles.asyncRead proper
  | handleRead =>
    simpa [ReceivingSide.step, Action.arrived, Action.requested] using reassembles.handleRead
  | processHandler =>
    simpa [ReceivingSide.step, Action.arrived, Action.requested] using reassembles.processHandler

/-- The run lemma, by induction on the actions. -/
theorem Reassembles.run (reassembles : Reassembles arrived requested received side)
    {actions : List Action} (proper : Guarded next Proper side actions) :
    Reassembles (arrived ++ (actions.map Action.arrived).flatten)
      (requested ++ (actions.map Action.requested).flatten)
      (received ++ (side.run actions).2) (side.run actions).1 := by
  induction actions generalizing arrived requested received side with
  | nil => simpa [ReceivingSide.run] using reassembles
  | cons action actions ih =>
    obtain ⟨here, rest⟩ := (Guarded.cons_ok rfl).mp proper
    simpa [ReceivingSide.run] using ih (reassembles.step here) rest

/-- The read as the simulation sees it. -/
def packetSeen (memory : Nat → UInt8) (packet : BufferedPacket) : IncomingPacket where
  buffer := packet.content memory
  bufferSize := packet.bufferSize
  expectToRead := packet.expectToRead
  id := packet.id

def seen (side : ReceivingSide) (conn : SimulatedConnection) : SimulatedConnection :=
  { conn with
    connectionState := side.connectionState
    reading := side.reading.map (packetSeen side.memory)
    receiveBuffer := side.receiveBuffer }

/-- The bytes of the calls of `on_message_received` for a connection. -/
def handedTo (id : Nat) (events : List Event) : List Bytes :=
  events.filterMap fun
    | .messageReceived conn buffer _ => if conn = id then some buffer else none
    | _ => none

/-- An action of the receiving side in the simulation. -/
def Action.perform (sim : Simulation) (random source id : Nat) :
    Action → Simulation × List Event
  | .arrive message => sim.handleMessage random source id message
  | .asyncRead _ bufferSize numBytes readId =>
    (sim.asyncRead id bufferSize numBytes readId, [])
  | .handleRead => sim.handleRead id
  | .processHandler => (sim, [])

variable {sim : Simulation} {id : Nat} {c : SimulatedConnection}

theorem map_packetSeen_waiting {packets : List BufferedPacket}
    (waiting : ∀ pkt ∈ packets, pkt.bytesRead = 0) (memory other : Nat → UInt8) :
    packets.map (packetSeen memory) = packets.map (packetSeen other) := by
  refine map_congr_left fun pkt mem => ?_
  simp [packetSeen, BufferedPacket.content, waiting pkt mem]

theorem answer_seen (found : sim.connections id = some (side.seen c)) (random source : Nat) :
    ∃ c, (sim.answer random source id).connections id = some (side.seen c) := by
  unfold Simulation.answer
  rw [found]
  split
  next sender receiver _ same =>
      cases same
      split
      · exact ⟨c.setTimeStamp _, if_pos rfl⟩
      · split <;> exact ⟨c, found⟩
  · exact ⟨c, found⟩

theorem handleMessage_seen (connected : side.connectionState = .connected)
    (found : sim.connections id = some (side.seen c)) (random source : Nat) (msg : Bytes) :
    (∃ c, (sim.handleMessage random source id msg).1.connections id =
        some ((side.arrive msg).seen c)) ∧
      handedTo id (sim.handleMessage random source id msg).2 = [] := by
  have same : (side.seen c).connectionState = .connected := connected
  unfold Simulation.handleMessage
  simp only [found, same]
  have pushed : some ({ side.seen c with
      receiveBuffer := (side.seen c).receiveBuffer ++ [msg]
      connectionState := .connected }) = some ((side.arrive msg).seen c) := by
    rw [ReceivingSide.arrive]
    simp [seen, connected]
  refine ⟨answer_seen (c := c) ?_ random source, rfl⟩
  split <;> exact (if_pos rfl).trans pushed

theorem asyncRead_seen (found : sim.connections id = some (side.seen c))
    (buf bufferSize numBytes readId : Nat) :
    (sim.asyncRead id bufferSize numBytes readId).connections id =
      some ((side.asyncRead buf bufferSize numBytes readId).seen c) := by
  unfold Simulation.asyncRead ReceivingSide.asyncRead
  rw [found]
  dsimp only
  split
  · exact found
  · have pushed : (sim.put id { side.seen c with
        reading := (side.seen c).reading ++ [⟨[], bufferSize, numBytes, readId⟩] }).connections id =
        some (seen { side with
          reading := side.reading ++ [⟨buf, bufferSize, numBytes, readId, 0⟩] } c) := by
      simp [Simulation.put, seen, packetSeen, BufferedPacket.content]
    split <;> exact pushed

theorem handleRead_seen (firstOnly : side.FirstOnly)
    (found : sim.connections id = some (side.seen c)) :
    (sim.handleRead id).1.connections id = some (side.handleRead.seen c) ∧
      side.handlersTasks.map (BufferedPacket.content side.handleRead.memory) ++
          handedTo id (sim.handleRead id).2 =
        side.handleRead.handlersTasks.map (BufferedPacket.content side.handleRead.memory) := by
  unfold Simulation.handleRead ReceivingSide.handleRead
  rw [found]
  have state : (side.seen c).connectionState = side.connectionState := rfl
  have chunks : (side.seen c).receiveBuffer = side.receiveBuffer := rfl
  have packets : (side.seen c).reading = side.reading.map (packetSeen side.memory) := rfl
  dsimp only
  rw [state, chunks, packets]
  split
  · exact ⟨found, append_nil _⟩
  · cases side.receiveBuffer with
    | nil => exact ⟨found, append_nil _⟩
    | cons first others =>
      cases readers : side.reading with
      | nil => exact ⟨found, append_nil _⟩
      | cons pkt waiting =>
        have rest := firstOnly
        rw [FirstOnly, readers, tail_cons] at rest
        have loop := copyLoop_readLoop pkt.buffer pkt.maxToRead side.memory pkt.bytesRead
          (first :: others)
        rw [BufferedPacket.maxToRead] at loop
        -- the readers behind the first one have no bytes that could have changed
        have others_seen := map_packetSeen_waiting rest side.memory
        rw [map_cons]
        dsimp only [packetSeen, BufferedPacket.content]
        rw [loop]
        rw [length_bytesAt, ← BufferedPacket.maxToRead]
        by_cases finished : pkt.expectToRead = 0 ∨
            (copyLoop pkt.buffer pkt.maxToRead side.memory pkt.bytesRead
              (first :: others)).2.1 = pkt.expectToRead
        · simp only [if_pos finished]
          rw [others_seen]
          exact ⟨if_pos rfl, by simp [handedTo, BufferedPacket.content]⟩
        · simp only [if_neg finished]
          rw [others_seen]
          exact ⟨if_pos rfl, append_nil _⟩

/-- A run of the receiving side in the simulation, with the random number and
the source of every message that arrives. -/
def performAll (id : Nat) : Simulation → List (Nat × Nat × Action) → Simulation × List Event
  | sim, [] => (sim, [])
  | sim, (random, source, action) :: rest =>
    let (next, events) := action.perform sim random source id
    let (final, later) := performAll id next rest
    (final, events ++ later)

theorem handedTo_append (first second : List Event) :
    handedTo id (first ++ second) = handedTo id first ++ handedTo id second :=
  filterMap_append

theorem step_seen (reassembles : Reassembles arrived requested received side)
    (found : sim.connections id = some (side.seen c)) (random source : Nat) (action : Action) :
    (∃ c, (action.perform sim random source id).1.connections id =
        some ((side.step action).1.seen c)) ∧
      side.handlersTasks.map (BufferedPacket.content side.memory) ++
          handedTo id (action.perform sim random source id).2 =
        (side.step action).2.map Received.content ++ (side.step action).1.handlersTasks.map
            (BufferedPacket.content (side.step action).1.memory) := by
  cases action with
  | arrive msg =>
    obtain ⟨after, nothing⟩ := handleMessage_seen reassembles.connected found random source msg
    have pushed : side.arrive msg = { side with receiveBuffer := side.receiveBuffer ++ [msg] } :=
      if_neg (not_not.mpr reassembles.connected)
    refine ⟨after, ?_⟩
    simp only [Action.perform, nothing, ReceivingSide.step, pushed, append_nil, map_nil, nil_append]
  | asyncRead buf bufferSize numBytes readId =>
    refine ⟨⟨c, asyncRead_seen found buf bufferSize numBytes readId⟩, ?_⟩
    simp only [ReceivingSide.step, ReceivingSide.asyncRead]
    split <;> exact append_nil _
  | handleRead =>
    obtain ⟨after, handed⟩ := handleRead_seen reassembles.firstOnly found
    rw [reassembles.handleRead_kept] at handed
    exact ⟨⟨c, after⟩, handed⟩
  | processHandler =>
    simp only [Action.perform, ReceivingSide.step, ReceivingSide.processHandler]
    cases tasks : side.handlersTasks with
    | nil => exact ⟨⟨c, found⟩, by simp [tasks, handedTo]⟩
    | cons pkt waiting => exact ⟨⟨c, found⟩, append_nil _⟩

/-- If no read is made with a buffer that another one still uses, the simulation
whose readers own their bytes shows the callbacks that are made or wait, with
the bytes that they find. -/
theorem run_seen {steps : List (Nat × Nat × Action)}
    (reassembles : Reassembles arrived requested received side)
    (proper : Guarded next Proper side (steps.map (·.2.2)))
    (found : sim.connections id = some (side.seen c)) :
    (∃ c, (performAll id sim steps).1.connections id =
        some ((side.run (steps.map (·.2.2))).1.seen c)) ∧
      side.handlersTasks.map (BufferedPacket.content side.memory) ++
          handedTo id (performAll id sim steps).2 =
        (side.run (steps.map (·.2.2))).2.map Received.content ++
          (side.run (steps.map (·.2.2))).1.handlersTasks.map
            (BufferedPacket.content (side.run (steps.map (·.2.2))).1.memory) := by
  induction steps generalizing arrived requested received side sim c with
  | nil => exact ⟨⟨c, found⟩, append_nil _⟩
  | cons entry steps ih =>
    obtain ⟨random, source, action⟩ := entry
    obtain ⟨here, rest⟩ := (Guarded.cons_ok rfl).mp proper
    obtain ⟨⟨next, foundNext⟩, handed⟩ := step_seen reassembles found random source action
    obtain ⟨after, later⟩ := ih (reassembles.step here) rest foundNext
    refine ⟨after, ?_⟩
    simp only [performAll, handedTo_append, map_cons, ReceivingSide.run, map_append]
    rw [← append_assoc, handed, append_assoc, later, append_assoc]

end ReceivingSide

end AutomatonCore.Network
