import AutomatonCore.Library.Framing
import AutomatonCore.Node.Node

/-!
# Blobs arrive whole and in order
-/

namespace AutomatonCore

open Io Library Network List
open Simulation (put readLoop addTask handleRead wakeReader readBytes)

namespace Node

/-! ## The receiving side of a connection -/

section Side

open Endpoint

variable {sim : Simulation} {id : Nat}

variable {s : ConnectionState}

theorem receivingSide_eq_some {reading : List IncomingPacket} {receiveBuffer : List Bytes} :
    receivingSide id sim = some (reading, receiveBuffer, s) ↔ ∃ found,
      sim.connections id = some found ∧ found.reading = reading ∧
      found.receiveBuffer = receiveBuffer ∧ found.connectionState = s := by
  simp [receivingSide]

theorem ReadPending.addTask (time : Nat) (task : Task) (pending : sim.ReadPending id) :
    (sim.addTask time task).ReadPending id := by
  obtain ⟨e, mem, shape⟩ := pending
  exact ⟨e, mem_append_left _ mem, shape⟩

theorem readPending_addTask (time : Nat) :
    (sim.addTask time (.handleRead id)).ReadPending id :=
  ⟨_, mem_append_right _ (mem_singleton_self _), rfl⟩

variable {reading : List IncomingPacket} {receiveBuffer : List Bytes}

theorem receivingSide_pushRead {size numBytes : Nat} (readId : Nat) (fits : numBytes ≤ size)
    (side : receivingSide id sim = some (reading, receiveBuffer, .connected)) :
    receivingSide id (sim.pushRead id size numBytes readId) =
      some (reading ++ [⟨[], size, numBytes, readId⟩], receiveBuffer, .connected) := by
  obtain ⟨found, present, rfl, rfl, connected⟩ := receivingSide_eq_some.mp side
  have wide : ¬ numBytes > size := Nat.not_lt.mpr fits
  simp [receivingSide, Simulation.pushRead, present, wide, put, connected]

theorem receivingSide_wakeReader :
    receivingSide id (sim.wakeReader id) = receivingSide id sim := by
  rw [wakeReader]
  split
  · rfl
  · split <;> rfl

theorem readPending_wakeReader
    (side : receivingSide id sim = some (reading, receiveBuffer, s))
    (bytes : receiveBuffer ≠ []) : (sim.wakeReader id).ReadPending id := by
  obtain ⟨found, present, _, rfl, _⟩ := receivingSide_eq_some.mp side
  simp only [wakeReader, present]
  rw [if_pos (by simpa using bytes)]
  exact readPending_addTask _

theorem receivingSide_answer (random src : Nat) :
    receivingSide id (sim.answer random src id) = receivingSide id sim := by
  rw [Simulation.answer]
  split
  next sender receiver _ found =>
    split
    · simp [receivingSide, addTask, put, found,
        SimulatedConnection.setTimeStamp]
    · split <;> rfl
  · rfl

theorem ReadPending.answer (random src dest : Nat) (pending : sim.ReadPending id) :
    (sim.answer random src dest).ReadPending id := by
  rw [Simulation.answer]
  split
  · split
    · exact ReadPending.addTask _ _ pending
    · split
      · exact ReadPending.addTask _ _ pending
      · exact pending
  · exact pending

theorem handleMessage_arrives (random src : Nat) (chunk : Bytes)
    (side : receivingSide id sim = some (reading, receiveBuffer, .connected)) :
    receivingSide id (sim.handleMessage random src id chunk).1 =
        some (reading, receiveBuffer ++ [chunk], .connected) ∧
      (reading ≠ [] ∨ sim.ReadPending id →
        (sim.handleMessage random src id chunk).1.ReadPending id) := by
  obtain ⟨found, present, rfl, rfl, connected⟩ := receivingSide_eq_some.mp side
  simp only [Simulation.handleMessage, present, connected, ne_eq, not_true_eq_false, if_false]
  constructor
  · rw [receivingSide_answer]
    split <;>
      simp [receivingSide, addTask, put]
  · intro served
    apply ReadPending.answer
    split
    · exact readPending_addTask _
    next idle =>
      have empty : found.reading = [] := by simpa using idle
      exact served.resolve_left (not_not.mpr empty)

theorem handleRead_idle (side : receivingSide id sim = some (reading, receiveBuffer, s))
    (idle : reading = [] ∨ receiveBuffer = []) : sim.handleRead id = (sim, []) := by
  obtain ⟨found, present, rfl, rfl, _⟩ := receivingSide_eq_some.mp side
  simp only [handleRead, present]
  split
  · rfl
  · rcases idle with empty | empty
    · rw [empty]
      cases found.receiveBuffer <;> rfl
    · rw [empty]

variable {packet : IncomingPacket} {waiting : List IncomingPacket}
  {buffer : Bytes} {left : List Bytes}

theorem handleRead_completes
    (side : receivingSide id sim = some (packet :: waiting, receiveBuffer, .connected))
    (bytes : receiveBuffer ≠ []) (counted : packet.expectToRead ≠ 0)
    (looped : readLoop packet.expectToRead packet.buffer receiveBuffer = (buffer, left))
    (full : buffer.length = packet.expectToRead) :
    receivingSide id (sim.handleRead id).1 = some (waiting, left, .connected) ∧
      (sim.handleRead id).2 = [.messageReceived id buffer packet.id] := by
  obtain ⟨found, present, req, chunks, connected⟩ := receivingSide_eq_some.mp side
  obtain ⟨first, others, rfl⟩ := exists_cons_of_ne_nil bytes
  simp [handleRead, present, connected, req, chunks, counted,
    looped, full, receivingSide, addTask, put]

theorem handleRead_continues
    (side : receivingSide id sim = some (packet :: waiting, receiveBuffer, .connected))
    (bytes : receiveBuffer ≠ []) (counted : packet.expectToRead ≠ 0)
    (looped : readLoop packet.expectToRead packet.buffer receiveBuffer = (buffer, left))
    (short : buffer.length ≠ packet.expectToRead) :
    receivingSide id (sim.handleRead id).1 =
        some ({ packet with buffer := buffer } :: waiting, left, .connected) ∧
      (sim.handleRead id).2 = [] := by
  obtain ⟨found, present, req, chunks, connected⟩ := receivingSide_eq_some.mp side
  obtain ⟨first, others, rfl⟩ := exists_cons_of_ne_nil bytes
  simp [handleRead, present, connected, req, chunks, counted,
    looped, short, receivingSide, put]

theorem readBytes_eq
    (side : receivingSide id sim = some (packet :: waiting, receiveBuffer, .connected))
    (counted : packet.expectToRead ≠ 0)
    (looped :
      readLoop packet.expectToRead packet.buffer receiveBuffer = (buffer, left)) :
    sim.readBytes id = (packet.buffer.length, buffer.drop packet.buffer.length) := by
  obtain ⟨found, present, req, chunks, connected⟩ := receivingSide_eq_some.mp side
  simp [readBytes, present, connected, req, chunks, counted, looped]

theorem readBytes_idle (side : receivingSide id sim = some (reading, receiveBuffer, s))
    (idle : reading = [] ∨ receiveBuffer = []) : (sim.readBytes id).2 = [] := by
  obtain ⟨found, present, rfl, rfl, _⟩ := receivingSide_eq_some.mp side
  simp only [readBytes, present]
  split
  · rfl
  next packet waiting req =>
    rcases idle with empty | empty
    · rw [empty] at req
      cases req
    · split
      · rfl
      · simp [empty, readLoop]

end Side

/-! ## The frames -/

def blobFraming : Framing UInt8 where
  headerLength := headerSize
  limit := maxMessageSize
  header := blobHeader
  announced := Endpoint.messageSize
  length_header _ := rfl
  announced_header {size} small := by
    simp only [maxMessageSize] at small
    simp only [blobHeader, Endpoint.messageSize, List.getD_cons_succ,
      List.getD_cons_zero, UInt8.toNat_ofNat']
    omega

theorem messageSize_slice (buffer : Bytes) :
    Endpoint.messageSize (slice buffer 0 headerSize) = Endpoint.messageSize buffer := by
  simp [Endpoint.messageSize, slice_getElem?, headerSize]

namespace Output

def isFailure : Output → Bool
  | .messageSent _ _ _ | .error _ _ | .disconnect _ => true
  | .connected _ | .blobReceived _ _ => false

def blob : Output → Option Bytes
  | .blobReceived _ blob => some blob
  | _ => none

end Output

def receivedBlobs (outputs : List Output) : List Bytes :=
  outputs.filterMap Output.blob

@[simp]
theorem receivedBlobs_nil : receivedBlobs [] = [] := rfl

theorem receivedBlobs_append (first second : List Output) :
    receivedBlobs (first ++ second) = receivedBlobs first ++ receivedBlobs second :=
  filterMap_append

def Thread.outputs : Thread → List Output
  | .idle => []
  | .asyncRead outputs | .calling outputs => outputs

namespace Endpoint

/-- How far the reader is in a frame.  A request is open or has been answered;
`head` is the header that was read before, and empty while the header itself
is read. -/
inductive Progress where
  | starting
  | reading (head got : Bytes)
  | read (head got : Bytes)

namespace Progress

def expected (head : Bytes) : Nat :=
  if head = [] then headerSize else messageSize head

def requestId (head : Bytes) : Nat :=
  if head = [] then waitingHeader else waitingMessage

def bytes : Progress → Bytes
  | starting => []
  | reading head got | read head got => head ++ got

def requests : Progress → List IncomingPacket
  | reading head got => [⟨got, maxMessageSize, expected head, requestId head⟩]
  | _ => []

def callbacks : Progress → List Callback
  | starting => [.connected]
  | reading _ _ => []
  | read head got => [.messageReceived got.length (requestId head)]

structure Request (buffer head got : Bytes) : Prop where
  header : head = [] ∨ head.length = headerSize
  positive : 0 < expected head
  fits : expected head ≤ maxMessageSize
  stored : slice buffer 0 got.length = got

def Valid (buffer : Bytes) : Progress → Prop
  | starting => True
  | reading head got => Request buffer head got ∧ got.length < expected head
  | read head got => Request buffer head got ∧ got.length = expected head

end Progress

open Progress

variable {peer c : Nat} {blobs : List Bytes}

/-- The invariant of the receiving side: `arrived` are all bytes so far,
`reported` all blobs handed to the script, `waiting` the receive buffer. -/
structure Receives (peer conn : Nat) (blobs : List Bytes)
    (arrived : Bytes) (reported : List Bytes) (endpoint : Endpoint)
    (progress : Progress) (waiting : List Bytes) : Prop where
  known : endpoint.node.knownPeers peer = some ⟨some conn⟩
  side :
    receivingSide conn endpoint.simulation = some (progress.requests, waiting, .connected)
  tasks : endpoint.handlersTasks = progress.callbacks
  room : endpoint.buffer.length = maxMessageSize
  valid : progress.Valid endpoint.buffer
  awake : waiting ≠ [] → progress.requests ≠ [] → endpoint.simulation.ReadPending conn ∨
      ∃ outputs, endpoint.thread = .asyncRead outputs
  harmless : ∀ output ∈ endpoint.thread.outputs, output.isFailure = false
  stream : arrived = blobFraming.stream (reported ++ receivedBlobs endpoint.thread.outputs) ++
        progress.bytes ++ waiting.flatten
  reported : reported ++ receivedBlobs endpoint.thread.outputs <+: blobs

variable {endpoint : Endpoint} {progress : Progress} {waiting : List Bytes}
  {arrived : Bytes} {reported : List Bytes}

theorem Receives.remaining
    (receives : Receives peer c blobs arrived reported endpoint progress waiting)
    (inOrder : arrived <+: blobFraming.stream blobs) :
    ∃ later rest, blobs = reported ++ receivedBlobs endpoint.thread.outputs ++ later ∧
        progress.bytes ++ (waiting.flatten ++ rest) = blobFraming.stream later := by
  obtain ⟨later, rfl⟩ := receives.reported
  obtain ⟨rest, inOrder⟩ := inOrder
  refine ⟨later, rest, rfl, ?_⟩
  rw [receives.stream, blobFraming.stream_append _ later, append_assoc, append_assoc] at inOrder
  exact append_cancel_left inOrder

theorem Receives.connectionOf
    (receives : Receives peer c blobs arrived reported endpoint progress waiting) :
    endpoint.node.connectionOf endpoint.simulation peer = some c := by
  obtain ⟨found, present, _, _, connected⟩ := receivingSide_eq_some.mp receives.side
  simp [Node.connectionOf, receives.known, Simulation.stateOf, present, connected]

/-! ## The steps -/

theorem Receives.arrive
    (receives : Receives peer c blobs arrived reported endpoint progress waiting)
    (random src : Nat) (chunk : Bytes) :
    Receives peer c blobs (arrived ++ chunk) reported
      { endpoint with simulation := (endpoint.simulation.handleMessage random src c chunk).1 }
      progress (waiting ++ [chunk]) := by
  obtain ⟨side, pending⟩ := handleMessage_arrives random src chunk receives.side
  exact
    { receives with
      side
      awake := fun _ requests => .inl (pending (.inl requests))
      stream := by simp [receives.stream] }

theorem Receives.read_idle
    (receives : Receives peer c blobs arrived reported endpoint progress waiting)
    (e : Nat × Task) (idle : progress.requests = [] ∨ waiting = []) :
    Receives peer c blobs arrived reported (endpoint.read c e) progress waiting := by
  have nothing := readBytes_idle receives.side idle
  have same : (endpoint.simulation.pop e).handleRead c = (endpoint.simulation.pop e, []) :=
    handleRead_idle receives.side idle
  have shape : endpoint.read c e = { endpoint with simulation := endpoint.simulation.pop e } := by
    simp [Endpoint.read, same, nothing, splice]
  rw [shape]
  exact
    { receives with
      awake := fun bytes requests => by
        rcases idle with empty | empty
        · exact absurd empty requests
        · exact absurd empty bytes }

variable {head got : Bytes} {next : Endpoint} {outputs : List Output}

theorem Progress.Request.extend {buffer : Bytes}
    (req : Request buffer head got) (bytes : Bytes) (inside : got.length ≤ buffer.length) :
    Request (splice buffer got.length bytes) head (got ++ bytes) where
  header := req.header
  positive := req.positive
  fits := req.fits
  stored := by
    have kept : slice (splice buffer got.length bytes) 0 got.length = got := by
      rw [slice_splice_apart inside (.inl (by omega)), req.stored]
    rw [length_append, slice_add, kept, Nat.zero_add, slice_splice inside]

theorem Receives.read_request
    (receives : Receives peer c blobs arrived reported endpoint (.reading head got) waiting)
    (e : Nat × Task) (chunks : waiting ≠ []) :
    ∃ progress left, Receives peer c blobs arrived reported (endpoint.read c e) progress left := by
  obtain ⟨req, short⟩ := receives.valid
  have counted : expected head ≠ 0 := Nat.ne_of_gt req.positive
  have side : receivingSide c (endpoint.simulation.pop e) =
        some (requests (.reading head got), waiting, .connected) :=
    receives.side
  have fits := req.fits
  have room := receives.room
  obtain ⟨buffer, left, looped⟩ :
      ∃ buffer left, readLoop (expected head) got waiting = (buffer, left) :=
    ⟨_, _, rfl⟩
  obtain ⟨bytes, rfl, moved, bound, full⟩ := Simulation.readLoop_reads (Nat.le_of_lt short) looped
  have written := readBytes_eq receives.side counted looped
  have extended := req.extend bytes (by omega)
  have length : (splice endpoint.buffer got.length bytes).length = endpoint.buffer.length :=
    length_splice (by rw [← length_append]; omega)
  have stream : head ++ got ++ waiting.flatten = head ++ (got ++ bytes) ++ left.flatten := by
    rw [← moved]
    simp only [append_assoc]
  by_cases answered : (got ++ bytes).length = expected head
  · obtain ⟨after, events⟩ := handleRead_completes side chunks counted looped answered
    refine ⟨.read head (got ++ bytes), left, ?_⟩
    exact
      { known := receives.known
        side := after
        tasks := by simp [Endpoint.read, events, receives.tasks, callbacks, callbackOf]
        room := by simpa [Endpoint.read, written, length] using room
        valid := by simpa [Endpoint.read, written] using ⟨extended, answered⟩
        awake := fun _ requests => absurd rfl requests
        harmless := receives.harmless
        stream := by
          rw [receives.stream]
          simpa [Progress.bytes, Endpoint.read] using stream
        reported := receives.reported }
  · obtain ⟨after, events⟩ := handleRead_continues side chunks counted looped answered
    obtain rfl : left = [] := full.resolve_left answered
    refine ⟨.reading head (got ++ bytes), [], ?_⟩
    exact
      { known := receives.known
        side := after
        tasks := by simp [Endpoint.read, events, receives.tasks, callbacks]
        room := by simpa [Endpoint.read, written, length] using room
        valid := by
          simpa [Endpoint.read, written] using ⟨extended, Nat.lt_of_le_of_ne bound answered⟩
        awake := fun bytes _ => absurd rfl bytes
        harmless := receives.harmless
        stream := by
          rw [receives.stream]
          simpa [Progress.bytes, Endpoint.read] using stream
        reported := receives.reported }

theorem Receives.read (receives : Receives peer c blobs arrived reported endpoint progress waiting)
    (e : Nat × Task) :
    ∃ progress left, Receives peer c blobs arrived reported (endpoint.read c e) progress left := by
  by_cases chunks : waiting = []
  · exact ⟨_, _, receives.read_idle e (.inr chunks)⟩
  · cases progress with
    | starting => exact ⟨_, _, receives.read_idle e (.inl rfl)⟩
    | reading head got => exact receives.read_request e chunks
    | read head got => exact ⟨_, _, receives.read_idle e (.inl rfl)⟩

theorem Receives.startRead {waitingTasks : List Callback}
    (receives : Receives peer c blobs arrived reported endpoint progress waiting)
    (head : Bytes) (outputs : List Output)
    (noRequest : progress.requests = []) (noTask : waitingTasks = [])
    {node : Node} (known : node.knownPeers peer = some ⟨some c⟩)
    (req : Request endpoint.buffer head [])
    (harmless : ∀ output ∈ outputs, output.isFailure = false)
    (stream : blobFraming.stream (reported ++ receivedBlobs outputs) ++ head =
        blobFraming.stream (reported ++ receivedBlobs endpoint.thread.outputs) ++ progress.bytes)
    (prefixed : reported ++ receivedBlobs outputs <+: blobs) :
    Receives peer c blobs arrived reported
      ({ endpoint with handlersTasks := waitingTasks, node := node }.startRead
        c (expected head) (requestId head) outputs) (.reading head []) waiting where
  known := known
  side := by
    have side := receives.side
    rw [noRequest] at side
    exact receivingSide_pushRead (requestId head) req.fits side
  tasks := noTask
  room := receives.room
  valid := ⟨req, req.positive⟩
  awake _ _ := .inr ⟨outputs, rfl⟩
  harmless := harmless
  stream := by
    rw [receives.stream, ← stream, Progress.bytes, append_nil]
    rfl
  reported := prefixed

theorem request_header (buffer : Bytes) : Request buffer [] [] where
  header := .inl rfl
  positive := by decide
  fits := by decide
  stored := rfl

theorem onConnected_known (known : endpoint.node.knownPeers peer = some ⟨some c⟩) :
    endpoint.onConnected peer =
      ({ endpoint with
          node :=
            { endpoint.node with
              connectedPeers := peer :: endpoint.node.connectedPeers } }.startRead c
        headerSize waitingHeader [.connected peer], []) := by
  simp only [Endpoint.onConnected, known]

theorem onMessageReceived_header (pos : 0 < messageSize endpoint.buffer)
    (fits : messageSize endpoint.buffer ≤ maxMessageSize)
    (connected : endpoint.node.connectionOf endpoint.simulation peer = some c) :
    endpoint.onMessageReceived peer headerSize waitingHeader =
      (endpoint.startRead c (messageSize endpoint.buffer) waitingMessage [], []) := by
  have accepted :
      ¬ (messageSize endpoint.buffer = 0 ∨ messageSize endpoint.buffer > maxMessageSize) := by
    omega
  simp [Endpoint.onMessageReceived, accepted, connected]

theorem onMessageReceived_message (bytesRead : Nat)
    (connected : endpoint.node.connectionOf endpoint.simulation peer = some c) :
    endpoint.onMessageReceived peer bytesRead waitingMessage =
      (endpoint.startRead c headerSize waitingHeader
        [.blobReceived peer (slice endpoint.buffer 0 bytesRead)], []) := by
  simp [Endpoint.onMessageReceived, connected, waitingMessage, waitingHeader]

theorem Receives.onConnected
    (receives : Receives peer c blobs arrived reported endpoint .starting waiting)
    (idle : endpoint.thread = .idle) :
    ∃ next,
      { endpoint with handlersTasks := [] }.onConnected peer = (next, []) ∧
        Receives peer c blobs arrived reported next (.reading [] []) waiting := by
  refine ⟨_, onConnected_known receives.known, ?_⟩
  have reported := receives.reported
  rw [idle] at reported
  exact receives.startRead [] [.connected peer] rfl rfl receives.known
      (request_header endpoint.buffer) (by simp [Output.isFailure]) (by rw [idle]; rfl) reported

theorem Receives.headerReceived
    (receives : Receives peer c blobs arrived reported endpoint (.read [] got) waiting)
    (idle : endpoint.thread = .idle) (inOrder : arrived <+: blobFraming.stream blobs)
    (sizes : ∀ blob ∈ blobs, 0 < blob.length ∧ blob.length ≤ maxMessageSize) :
    ∃ next,
      { endpoint with handlersTasks := [] }.onMessageReceived peer got.length waitingHeader =
          (next, []) ∧
        Receives peer c blobs arrived reported next (.reading got []) waiting := by
  obtain ⟨req, length⟩ := receives.valid
  have three : got.length = headerSize := length
  have ne : got ≠ [] := by
    rintro rfl
    cases three
  have announced : messageSize endpoint.buffer = messageSize got := by
    rw [← messageSize_slice, ← three, req.stored]
  -- the stream tells that the announced size is that of a blob
  obtain ⟨later, rest, shape, stream⟩ := receives.remaining inOrder
  obtain ⟨msg, others, rfl, _, size, _⟩ :=
    Framing.message_of_header (fun msg mem => (sizes msg (by simp [shape, mem])).2)
      three (by decide) stream
  have bounds := sizes msg (by simp [shape])
  have expectedSize : expected got = msg.length := by
    rw [expected, if_neg ne]
    exact size
  have next : Request endpoint.buffer got [] :=
    { header := .inr three
      positive := by rw [expectedSize]; exact bounds.1
      fits := by rw [expectedSize]; exact bounds.2
      stored := rfl }
  have reported := receives.reported
  rw [idle] at reported
  have started :=
    receives.startRead got [] rfl rfl receives.known next (by simp) (by rw [idle]; rfl) reported
  rw [requestId, if_neg ne, expected, if_neg ne, ← announced] at started
  rw [three]
  have positive := next.positive
  have fits := next.fits
  rw [expected, if_neg ne, ← announced] at positive fits
  exact ⟨_, onMessageReceived_header positive fits receives.connectionOf, started⟩

theorem Receives.messageReceived
    (receives : Receives peer c blobs arrived reported endpoint (.read head got) waiting)
    (headed : head ≠ []) (idle : endpoint.thread = .idle)
    (inOrder : arrived <+: blobFraming.stream blobs)
    (sizes : ∀ blob ∈ blobs, blob.length ≤ maxMessageSize) :
    ∃ next,
      { endpoint with handlersTasks := [] }.onMessageReceived peer got.length waitingMessage =
          (next, []) ∧
        Receives peer c blobs arrived reported next (.reading [] []) waiting := by
  obtain ⟨req, length⟩ := receives.valid
  rw [expected, if_neg headed] at length
  have three := req.header.resolve_left headed
  -- the message is the next blob
  obtain ⟨later, rest, shape, stream⟩ := receives.remaining inOrder
  rw [Progress.bytes, append_assoc] at stream
  obtain ⟨msg, others, rfl, header, size, body⟩ :=
    Framing.message_of_header (fun msg mem => sizes msg (by simp [shape, mem]))
      three (by decide) stream
  obtain ⟨rfl, _⟩ := append_inj body (length.trans size)
  refine ⟨_, onMessageReceived_message got.length receives.connectionOf, ?_⟩
  rw [req.stored]
  rw [idle] at shape
  refine receives.startRead [] [.blobReceived peer got] rfl rfl receives.known
      (request_header endpoint.buffer) (by simp [Output.isFailure]) ?_ ⟨others, ?_⟩
  · rw [idle]
    simp [receivedBlobs, Output.blob, Thread.outputs, Progress.bytes, Framing.stream_cons, header]
  · simp [shape, receivedBlobs, Output.blob, Thread.outputs]

theorem Receives.callback
    (receives : Receives peer c blobs arrived reported endpoint progress waiting)
    (inOrder : arrived <+: blobFraming.stream blobs)
    (sizes : ∀ blob ∈ blobs, 0 < blob.length ∧ blob.length ≤ maxMessageSize)
    (stepped : endpoint.step peer c .callback = some (next, outputs)) :
    outputs = [] ∧ ∃ progress, Receives peer c blobs arrived reported next progress waiting := by
  cases thread : endpoint.thread with
  | asyncRead outputs => simp [step, thread] at stepped
  | calling outputs => simp [step, thread] at stepped
  | idle =>
    have tasks := receives.tasks
    simp only [step, thread] at stepped
    cases progress with
    | starting =>
      obtain ⟨_, called, after⟩ := receives.onConnected thread
      rw [thread] at called
      simp only [tasks, callbacks, called] at stepped
      cases stepped
      exact ⟨rfl, _, after⟩
    | reading head got => simp [tasks, callbacks] at stepped
    | read head got =>
      by_cases headed : head = []
      · subst headed
        obtain ⟨_, called, after⟩ := receives.headerReceived thread inOrder sizes
        rw [thread] at called
        simp only [tasks, callbacks, requestId, if_true, called] at stepped
        cases stepped
        exact ⟨rfl, _, after⟩
      · obtain ⟨_, called, after⟩ :=
          receives.messageReceived headed thread inOrder fun blob mem => (sizes blob mem).2
        rw [thread] at called
        simp only [tasks, callbacks, requestId, if_neg headed, called] at stepped
        cases stepped
        exact ⟨rfl, _, after⟩

theorem Receives.proceed
    (receives : Receives peer c blobs arrived reported endpoint progress waiting)
    (stepped : endpoint.step peer c .proceed = some (next, outputs)) :
    (∀ output ∈ outputs, output.isFailure = false) ∧
      Receives peer c blobs arrived (reported ++ receivedBlobs outputs) next progress waiting := by
  have harmless := receives.harmless
  have stream := receives.stream
  have prefixed := receives.reported
  cases thread : endpoint.thread with
  | idle => simp [step, thread] at stepped
  | asyncRead later =>
    simp only [step, thread] at stepped
    cases stepped
    rw [thread] at harmless stream prefixed
    refine ⟨by simp, ?_⟩
    exact
      { receives with
        side := receivingSide_wakeReader.trans receives.side
        awake := fun chunks _ => .inl (readPending_wakeReader receives.side chunks)
        harmless
        stream := by
          rw [receivedBlobs_nil, append_nil]
          exact stream
        reported := by
          rw [receivedBlobs_nil, append_nil]
          exact prefixed }
  | calling later =>
    simp only [step, thread] at stepped
    cases stepped
    rw [thread] at harmless stream prefixed
    refine ⟨harmless, ?_⟩
    exact
      { receives with
        awake := fun chunks requests => by
          have awake := receives.awake chunks requests
          rw [thread] at awake
          exact .inl (awake.resolve_right (by simp))
        harmless := by simp [Thread.outputs]
        stream := by simpa [Thread.outputs] using stream
        reported := by simpa [Thread.outputs] using prefixed }

theorem Receives.elsewhere {sim : Simulation} {node : Node}
    (receives : Receives peer c blobs arrived reported endpoint progress waiting)
    (undisturbed : endpoint.Undisturbed peer c sim node) :
    Receives peer c blobs arrived reported { endpoint with simulation := sim, node } progress
      waiting := by
  obtain ⟨side, pending, known⟩ := undisturbed
  exact
    { receives with
      known := known.trans receives.known
      side := side.trans receives.side
      awake := fun chunks requests => (receives.awake chunks requests).imp_left pending }

def Action.chunk : Action → Bytes
  | .arrive _ _ chunk => chunk
  | _ => []

theorem Receives.step {action : Action}
    (receives : Receives peer c blobs arrived reported endpoint progress waiting)
    (inOrder : arrived ++ action.chunk <+: blobFraming.stream blobs)
    (sizes : ∀ blob ∈ blobs, 0 < blob.length ∧ blob.length ≤ maxMessageSize)
    (stepped : endpoint.step peer c action = some (next, outputs)) :
    (∀ output ∈ outputs, output.isFailure = false) ∧
      ∃ progress waiting, Receives peer c blobs (arrived ++ action.chunk)
          (reported ++ receivedBlobs outputs) next progress waiting := by
  cases action with
  | arrive random src chunk =>
    cases stepped
    rw [receivedBlobs_nil, append_nil]
    exact ⟨by simp, _, _, receives.arrive random src chunk⟩
  | read time =>
    simp only [Endpoint.step] at stepped
    split at stepped
    · cases stepped
      have chunk : (Action.read time).chunk = [] := rfl
      rw [receivedBlobs_nil, append_nil, chunk, append_nil]
      exact ⟨by simp, receives.read (time, .handleRead c)⟩
    · cases stepped
  | callback =>
    have chunk : Action.callback.chunk = [] := rfl
    rw [chunk, append_nil] at inOrder ⊢
    obtain ⟨rfl, _, after⟩ := receives.callback inOrder sizes stepped
    rw [receivedBlobs_nil, append_nil]
    exact ⟨by simp, _, _, after⟩
  | proceed =>
    rw [show Action.proceed.chunk = [] from rfl, append_nil]
    obtain ⟨harmless, after⟩ := receives.proceed stepped
    exact ⟨harmless, _, _, after⟩
  | elsewhere sim node =>
    simp only [Endpoint.step] at stepped
    split at stepped
    next undisturbed =>
      cases stepped
      have chunk : (Action.elsewhere sim node).chunk = [] := rfl
      rw [receivedBlobs_nil, append_nil, chunk, append_nil]
      exact ⟨by simp, _, _, receives.elsewhere undisturbed⟩
    · cases stepped

def arrivals (actions : List Action) : Bytes :=
  actions.flatMap Action.chunk

theorem Receives.run {actions : List Action} {final : Endpoint}
    (receives : Receives peer c blobs arrived reported endpoint progress waiting)
    (inOrder : arrived ++ arrivals actions <+: blobFraming.stream blobs)
    (sizes : ∀ blob ∈ blobs, 0 < blob.length ∧ blob.length ≤ maxMessageSize)
    (ran : endpoint.run peer c actions = some (final, outputs)) :
    (∀ output ∈ outputs, output.isFailure = false) ∧
      ∃ progress waiting, Receives peer c blobs (arrived ++ arrivals actions)
          (reported ++ receivedBlobs outputs) final progress waiting := by
  induction actions generalizing endpoint progress waiting arrived reported outputs with
  | nil =>
    cases ran
    exact ⟨by simp, _, _, by simpa [arrivals] using receives⟩
  | cons action actions ih =>
    have split :
        arrived ++ arrivals (action :: actions) = arrived ++ action.chunk ++ arrivals actions := by
      simp [arrivals]
    rw [split] at inOrder ⊢
    simp only [Endpoint.run] at ran
    split at ran
    · cases ran
    next next first stepped =>
      obtain ⟨⟨_, later⟩, ranLater, shape⟩ := Option.map_eq_some_iff.mp ran
      cases shape
      obtain ⟨harmless, _, _, after⟩ :=
        receives.step ((prefix_append _ _).trans inOrder) sizes stepped
      obtain ⟨harmlessLater, _, _, final⟩ := ih after inOrder ranLater
      refine ⟨?_, _, _, by
        rwa [receivedBlobs_append, ← append_assoc]⟩
      intro output mem
      rcases mem_append.mp mem with early | late
      · exact harmless output early
      · exact harmlessLater output late

/-- A connection that is established, before `on_connected` has run. -/
structure Fresh (peer conn : Nat) (endpoint : Endpoint) : Prop where
  known : endpoint.node.knownPeers peer = some ⟨some conn⟩
  side : receivingSide conn endpoint.simulation = some ([], [], .connected)
  tasks : endpoint.handlersTasks = [.connected]
  thread : endpoint.thread = .idle
  room : endpoint.buffer.length = maxMessageSize

theorem Fresh.receives (fresh : endpoint.Fresh peer c) :
    Receives peer c blobs [] [] endpoint .starting [] where
  known := fresh.known
  side := fresh.side
  tasks := fresh.tasks
  room := fresh.room
  valid := trivial
  awake chunks := absurd rfl chunks
  harmless := by simp [fresh.thread, Thread.outputs]
  stream := by simp [fresh.thread, Thread.outputs, Progress.bytes]
  reported := by simp [fresh.thread, Thread.outputs]

/-- No `handle_read` is scheduled, and no handler task waits or runs. -/
def Settled (endpoint : Endpoint) (conn : Nat) : Prop :=
  ¬ endpoint.simulation.ReadPending conn ∧
    endpoint.handlersTasks = [] ∧ endpoint.thread = .idle

instance (endpoint : Endpoint) (conn : Nat) : Decidable (endpoint.Settled conn) :=
  inferInstanceAs (Decidable (_ ∧ _ ∧ _))

theorem Receives.complete
    (receives : Receives peer c blobs arrived reported endpoint progress waiting)
    (everything : arrived = blobFraming.stream blobs) (settled : endpoint.Settled c)
    (sizes : ∀ blob ∈ blobs, blob.length ≤ maxMessageSize) : reported = blobs := by
  obtain ⟨noRead, noTask, idle⟩ := settled
  obtain ⟨later, rest, shape, stream⟩ := receives.remaining (everything ▸ prefix_rfl)
  have nothing : rest = [] := by
    have total := receives.stream
    have lengths := congrArg List.length stream
    rw [everything, shape, Framing.stream_append] at total
    have totals := congrArg List.length total
    simp only [length_append] at lengths totals
    exact length_eq_zero_iff.mp (by omega)
  rw [idle, Thread.outputs, receivedBlobs_nil, append_nil] at shape
  suffices done : later = [] by rw [shape, done, append_nil]
  have tasks := receives.tasks
  have awake := receives.awake
  have valid := receives.valid
  rw [noTask] at tasks
  cases progress with
  | starting => cases tasks
  | read head got => cases tasks
  | reading head got =>
    -- the receive buffer is empty, since nobody reads it any more
    have empty : waiting = [] := by
      by_contra chunks
      rcases awake chunks (by simp [requests]) with pending | ⟨_, busy⟩
      · exact noRead pending
      · rw [idle] at busy
        cases busy
    obtain ⟨req, short⟩ := valid
    subst empty nothing
    simp only [Progress.bytes, flatten_nil, append_nil] at stream
    by_cases headed : head = []
    · subst headed
      apply Framing.stream_eq_nil
      rw [← stream]
      exact short
    · obtain ⟨msg, others, rfl, _, size, body⟩ :=
        Framing.message_of_header (fun msg mem => sizes msg (by simp [shape, mem]))
          (req.header.resolve_left headed) (by decide) stream
      have lengths := congrArg List.length body
      rw [length_append] at lengths
      rw [expected, if_neg headed] at short
      have same : messageSize head = msg.length := size
      omega

end Endpoint

/-- A call of `send_blob` with a blob of an admissible size, while the peer is
connected. -/
structure Send where
  node : Node
  simulation : Simulation
  peer : Nat
  blob : Bytes
  messageId : Nat
  positive : 0 < blob.length
  fits : blob.length ≤ maxMessageSize
  member : peer ∈ node.connectedPeers
  connected : (node.connectionOf simulation peer).isSome

namespace Send

def queued (send : Send) : Bytes :=
  let (_, events, _) := send.node.sendBlob send.simulation send.peer send.blob send.messageId
  events.flatMap fun
    | .queued _ _ message => message
    | _ => []

theorem queued_eq (send : Send) : send.queued = blobFraming.frame send.blob := by
  obtain ⟨node, sim, peer, blob, messageId, pos, fits, mem, connected⟩ := send
  have size : blob.length % 2 ^ 32 = blob.length := by
    simp only [maxMessageSize] at fits
    omega
  have small : ¬ blob.length > maxMessageSize := Nat.not_lt.mpr fits
  obtain ⟨target, found⟩ := Option.isSome_iff_exists.mp connected
  rw [Node.connectionOf] at found
  split at found
  next c known =>
    split at found
    next s =>
      obtain ⟨side, present, open_⟩ := Option.map_eq_some_iff.mp s
      unfold queued sendBlob
      rw [size]
      simp [small, mem, known, s, Simulation.asyncSend, present,
        open_, blobHeader, Framing.frame, blobFraming]
    · cases found
  · cases found

end Send

/-- What the connection receives in order is handed to the script blob by
blob: at every moment the blobs are the first ones that were sent, nothing
fails, and in the end none is missing. -/
theorem blobs_received (sends : List Send) {peer c : Nat}
    {start final : Endpoint} (fresh : start.Fresh peer c)
    {actions : List Endpoint.Action} {outputs : List Output}
    (ran : start.run peer c actions = some (final, outputs))
    (inOrder : Endpoint.arrivals actions <+: sends.flatMap Send.queued) :
    receivedBlobs outputs <+: sends.map Send.blob ∧ (∀ output ∈ outputs, output.isFailure = false) ∧
      (Endpoint.arrivals actions = sends.flatMap Send.queued → final.Settled c →
      receivedBlobs outputs = sends.map Send.blob) := by
  have sizes : ∀ blob ∈ sends.map Send.blob, 0 < blob.length ∧ blob.length ≤ maxMessageSize := by
    intro blob mem
    obtain ⟨send, _, rfl⟩ := mem_map.mp mem
    exact ⟨send.positive, send.fits⟩
  have stream : sends.flatMap Send.queued = blobFraming.stream (sends.map Send.blob) := by
    rw [Framing.stream, flatMap_map]
    exact flatMap_congr fun send _ => send.queued_eq
  rw [stream] at inOrder ⊢
  obtain ⟨harmless, progress, waiting, receives⟩ :=
    fresh.receives.run (by simpa using inOrder) sizes ran
  refine ⟨?_, harmless, ?_⟩
  · exact (prefix_append _ _).trans receives.reported
  · intro everything settled
    exact receives.complete everything settled fun blob mem => (sizes blob mem).2

def exampleNode : Node where
  knownPeers peer := if peer = 7 then some ⟨some 2⟩ else none
  connectedPeers := [7]

def exampleSimulation : Simulation where
  time := 0
  tasks := []
  connections id :=
    if id = 2 then some ⟨1, ⟨0, 0, 4⟩, [], [], [], 0, .connected⟩ else none

def exampleSend (blob : Bytes) (positive : 0 < blob.length)
    (fits : blob.length ≤ maxMessageSize) : Send :=
  ⟨exampleNode, exampleSimulation, 7, blob, 0, positive, fits, by decide, by decide⟩

def exampleSends : List Send :=
  [exampleSend [1] (by decide) (by decide), exampleSend [2, 3] (by decide) (by decide)]

def exampleEndpoint : Endpoint :=
  ⟨exampleSimulation, exampleNode, List.replicate maxMessageSize 0, [.connected], .idle⟩

def exampleActions : List Endpoint.Action :=
  [.arrive 0 1 [0, 0], .callback, .proceed, .read 1, .proceed,
    .arrive 0 1 [1, 1, 0, 0, 2], .read 1, .read 1, .callback, .proceed,
    .read 1, .read 1, .proceed, .callback, .proceed, .read 1, .proceed,
    .callback, .proceed, .read 1, .proceed, .arrive 0 1 [2, 3], .read 1,
    .callback, .proceed, .proceed, .read 1]

theorem blobs_received_example :
    ∃ final outputs, exampleEndpoint.run 7 2 exampleActions = some (final, outputs) ∧
      final.Settled 2 ∧ receivedBlobs outputs = exampleSends.map Send.blob := by
  have settled : (exampleEndpoint.run 7 2 exampleActions).any fun result => result.1.Settled 2 := by
    decide +kernel
  obtain ⟨⟨final, outputs⟩, ran, settled⟩ := (Option.any_eq_true _ _).mp settled
  have fresh : exampleEndpoint.Fresh 7 2 := ⟨rfl, rfl, rfl, rfl, length_replicate⟩
  have everything : Endpoint.arrivals exampleActions = exampleSends.flatMap Send.queued := by
    decide +kernel
  have settled : final.Settled 2 := of_decide_eq_true settled
  obtain ⟨_, _, complete⟩ := blobs_received exampleSends fresh ran (everything ▸ prefix_rfl)
  exact ⟨final, outputs, ran, settled, complete everything settled⟩

end Node

end AutomatonCore
