import AutomatonCore.Library.GuardedRun
import AutomatonCore.Library.Transfer
import AutomatonCore.Network.SimulatedConnection

/-!
# When a simulated connection is a reliable byte stream
-/

namespace AutomatonCore.Network

open Io Library List

namespace Task

def isMessageFrom (source : Nat) : Task → Bool
  | .handleMessage sender _ _ => sender = source
  | _ => false

def isAckTo (dest : Nat) : Task → Bool
  | .handleAck receiver _ => receiver = dest
  | _ => false

def fragment : Task → Bytes
  | .handleMessage _ _ message => message
  | _ => []

end Task

namespace Event

def queuedBy (connection : Nat) (events : List Event) : List (Nat × Bytes) :=
  events.filterMap fun
    | .queued sender id message =>
      if sender = connection then some (id, message) else none
    | _ => none

def arrivedAt (connection : Nat) (events : List Event) : Bytes :=
  events.flatMap fun
    | .arrived receiver message =>
      if receiver = connection then message else []
    | _ => []

def reportsTo (connection : Nat) (events : List Event) : List (Nat × Status) :=
  events.filterMap fun
    | .messageSent sender id status =>
      if sender = connection then some (id, status) else none
    | _ => none

variable (conn : Nat) (first second : List Event)

theorem queuedBy_append :
    queuedBy conn (first ++ second) = queuedBy conn first ++ queuedBy conn second :=
  filterMap_append

theorem arrivedAt_append :
    arrivedAt conn (first ++ second) = arrivedAt conn first ++ arrivedAt conn second :=
  flatMap_append

theorem reportsTo_append :
    reportsTo conn (first ++ second) = reportsTo conn first ++ reportsTo conn second :=
  filterMap_append

end Event

namespace Simulation

def inFlight (sim : Simulation) (source : Nat) : List (Nat × Task) :=
  sim.tasks.filter fun entry => entry.2.isMessageFrom source

def pendingAcks (sim : Simulation) (dest : Nat) : List (Nat × Task) :=
  sim.tasks.filter fun entry => entry.2.isAckTo dest

/-- If the next task is a fragment of the connection, then it is the oldest
one on the way, and the only one if its message has been sent as a whole. -/
def DeliversInTurn (sim : Simulation) (source : Nat) : Prop :=
  ∀ entry ∈ sim.due, entry.2.isMessageFrom source →
    (sim.inFlight source).head? = some entry ∧
    ((∃ sender ∈ sim.connections source, SentWhole sender) →
    (sim.inFlight source).length = 1)

instance (sim : Simulation) (source : Nat) : Decidable (sim.DeliversInTurn source) :=
  inferInstanceAs (Decidable (∀ entry ∈ sim.due, _))

/-- The condition on the state before an action: a task that is run delivers
in turn. -/
def InTurn (sim : Simulation) (source : Nat) : Action → Prop
  | .task _ => sim.DeliversInTurn source
  | _ => True

instance (sim : Simulation) (source : Nat) :
    (action : Action) → Decidable (sim.InTurn source action)
  | .task _ => inferInstanceAs (Decidable (sim.DeliversInTurn _))
  | .asyncSend .. | .asyncRead .. | .tick => inferInstanceAs (Decidable True)

def advance (sim : Simulation) (action : Action) : Except Unit Simulation :=
  match sim.step action with
  | none => .error ()
  | some (next, _) => .ok next

def RunsInTurn (source : Nat) : Simulation → List Action → Prop :=
  Guarded advance fun sim action => sim.InTurn source action

instance (source : Nat) (sim : Simulation) (actions : List Action) :
    Decidable (RunsInTurn source sim actions) :=
  inferInstanceAs (Decidable (Guarded advance _ _ _))

def packets (transfer : Transfer Nat UInt8) : List OutgoingPacket :=
  match transfer.waiting with
  | [] => []
  | front :: rest =>
    ⟨front.2, transfer.sent, front.1⟩ :: rest.map fun packet => ⟨packet.2, 0, packet.1⟩

/-- Two connected connections; `source` is the only one that sends to
`dest`, and it has the given sending queue. -/
structure Endpoints (sim : Simulation) (source dest : Nat)
    (sending : List OutgoingPacket) : Prop where
  different : source ≠ dest
  sender : ∃ connection, sim.connections source = some connection ∧
      connection.connectionState = .connected ∧ connection.remoteConnectionId = dest ∧
      connection.sending = sending
  receiver : ∃ connection, sim.connections dest = some connection ∧
      connection.connectionState = .connected
  alone : ∀ {other connection}, sim.connections other = some connection →
      connection.remoteConnectionId = dest → other = source

/-- The fragments on the way from `source` to `dest`, and whether an
acknowledgement is on the way back. -/
structure Traffic (sim : Simulation) (source dest : Nat)
    (wire : List Bytes) (acknowledging : Bool) : Prop where
  between : ∀ {time sender receiver message}, (time, Task.handleMessage sender receiver message) ∈
          sim.tasks → (sender = source ↔ receiver = dest)
  wire : (sim.inFlight source).map (fun entry => entry.2.fragment) = wire
  acks : (sim.pendingAcks source).map Prod.snd =
      if acknowledging then [.handleAck source .ok] else []

/-- The connection runs the fragmented transfer of the library. -/
structure Carries (sim : Simulation) (source dest : Nat)
    (transfer : Transfer Nat UInt8) : Prop where
  endpoints : sim.Endpoints source dest (packets transfer)
  traffic : sim.Traffic source dest transfer.onWire transfer.acknowledging
  sound : transfer.Sound

variable {sim : Simulation} {source dest : Nat}
  {transfer : Transfer Nat UInt8} {sending : List OutgoingPacket}
  {wire : List Bytes} {acknowledging : Bool}

/-! ## Single changes of the simulation -/

variable {id receiver time : Nat} {old : SimulatedConnection} {next : Simulation} {task : Task}
  {e : Nat × Task} {events : List Event}

theorem Endpoints.put (endpoints : sim.Endpoints source dest sending)
    (found : sim.connections id = some old)
    (new : SimulatedConnection) (s : new.connectionState = old.connectionState)
    (remote : new.remoteConnectionId = old.remoteConnectionId) :
    (sim.put id new).Endpoints source dest
      (if id = source then new.sending else sending) := by
  obtain ⟨sender, senderFound, senderState, senderRemote, senderSending⟩ := endpoints.sender
  obtain ⟨receiver, receiverFound, receiverState⟩ := endpoints.receiver
  refine ⟨endpoints.different, ?_, ?_, ?_⟩
  · by_cases same : id = source
    · subst same
      rw [senderFound, Option.some.injEq] at found
      subst found
      exact ⟨new, by simp [Simulation.put], s.trans senderState, remote.trans senderRemote, by simp⟩
    · refine ⟨sender, ?_, senderState, senderRemote, ?_⟩
      · simp [Simulation.put, Ne.symm same, senderFound]
      · simp [same, senderSending]
  · by_cases same : id = dest
    · subst same
      rw [receiverFound, Option.some.injEq] at found
      subst found
      exact ⟨new, by simp [Simulation.put], s.trans receiverState⟩
    · refine ⟨receiver, ?_, receiverState⟩
      simp [Simulation.put, Ne.symm same, receiverFound]
  · intro other conn present toDestination
    by_cases same : other = id
    · subst same
      simp only [Simulation.put, if_true, Option.some.injEq] at present
      subst present
      exact endpoints.alone found (remote.symm.trans toDestination)
    · simp only [Simulation.put, same] at present
      exact endpoints.alone present toDestination

theorem Endpoints.put_same (endpoints : sim.Endpoints source dest sending)
    (found : sim.connections id = some old)
    (new : SimulatedConnection) (s : new.connectionState = old.connectionState)
    (remote : new.remoteConnectionId = old.remoteConnectionId)
    (queue : id = source → new.sending = old.sending) :
    (sim.put id new).Endpoints source dest sending := by
  have replaced := endpoints.put found new s remote
  by_cases same : id = source
  · obtain ⟨sender, senderFound, _, _, senderSending⟩ := endpoints.sender
    rw [if_pos same, queue same] at replaced
    rw [same, senderFound, Option.some.injEq] at found
    rw [← found, senderSending] at replaced
    exact replaced
  · rw [if_neg same] at replaced
    exact replaced

theorem Endpoints.congr (endpoints : sim.Endpoints source dest sending)
    (same : next.connections = sim.connections) :
    next.Endpoints source dest sending where
  different := endpoints.different
  sender := by rw [same]; exact endpoints.sender
  receiver := by rw [same]; exact endpoints.receiver
  alone := by rw [same]; exact endpoints.alone

theorem Traffic.congr (traffic : sim.Traffic source dest wire acknowledging)
    (same : next.tasks = sim.tasks) :
    next.Traffic source dest wire acknowledging where
  between := by rw [same]; exact traffic.between
  wire := by rw [inFlight, same]; exact traffic.wire
  acks := by rw [pendingAcks, same]; exact traffic.acks

theorem inFlight_addTask (time : Nat) (task : Task) :
    ((sim.addTask time task).inFlight source).map (fun e => e.2.fragment) =
      (sim.inFlight source).map (fun e => e.2.fragment) ++
        if task.isMessageFrom source then [task.fragment] else [] := by
  cases sends : task.isMessageFrom source <;>
    simp [addTask, inFlight, sends]

theorem pendingAcks_addTask (time : Nat) (task : Task) :
    ((sim.addTask time task).pendingAcks source).map Prod.snd =
      (sim.pendingAcks source).map Prod.snd ++
        if task.isAckTo source then [task] else [] := by
  cases answers : task.isAckTo source <;>
    simp [addTask, pendingAcks, answers]

variable {newWire : List Bytes} {newAck : Bool} {pkt : OutgoingPacket} {sender : Nat}
  {msg : Bytes} {rest : List (Nat × Task)} {status : Status}

theorem Traffic.addTask (traffic : sim.Traffic source dest wire acknowledging) (time : Nat)
    (between : ∀ {sender receiver msg}, task = .handleMessage sender receiver msg →
        (sender = source ↔ receiver = dest))
    (wires : newWire = wire ++ if task.isMessageFrom source then [task.fragment] else [])
    (acks : ((if acknowledging then [Task.handleAck source .ok] else []) ++
          if task.isAckTo source then [task] else []) =
        if newAck then [.handleAck source .ok] else []) :
    (sim.addTask time task).Traffic source dest newWire newAck where
  between := by
    intro other sender receiver msg mem
    simp only [Simulation.addTask, mem_append, mem_singleton, Prod.mk.injEq] at mem
    rcases mem with old | ⟨_, new⟩
    · exact traffic.between old
    · exact between new.symm
  wire := by rw [inFlight_addTask, traffic.wire, wires]
  acks := by rw [pendingAcks_addTask, traffic.acks, acks]

theorem Traffic.pop (traffic : sim.Traffic source dest wire acknowledging)
    (wires : ((sim.inFlight source).erase e).map (fun e => e.2.fragment) = newWire)
    (acks : ((sim.pendingAcks source).erase e).map Prod.snd =
        if newAck then [.handleAck source .ok] else []) :
    (sim.pop e).Traffic source dest newWire newAck where
  between mem := traffic.between (mem_of_mem_erase mem)
  wire := by simpa only [inFlight, Simulation.pop, ← erase_filter] using wires
  acks := by simpa only [pendingAcks, Simulation.pop, ← erase_filter] using acks

theorem inFlight_erase (other : e.2.isMessageFrom source = false) :
    (sim.inFlight source).erase e = sim.inFlight source := by
  apply erase_of_not_mem
  simp [inFlight, other]

theorem pendingAcks_erase (other : e.2.isAckTo source = false) :
    (sim.pendingAcks source).erase e = sim.pendingAcks source := by
  apply erase_of_not_mem
  simp [pendingAcks, other]

/-! ## The functions of the connection -/

structure Shows (events : List Event) (source dest : Nat)
    (transfer after : Transfer Nat UInt8) : Prop where
  messages : after.messages = transfer.messages ++ Event.queuedBy source events
  arrived : after.arrived = transfer.arrived ++ Event.arrivedAt dest events
  acknowledged : after.acknowledged.map (fun message => (message.1, Status.ok)) =
      transfer.acknowledged.map (fun message => (message.1, Status.ok)) ++
        Event.reportsTo source events

theorem Shows.append {first second : List Event}
    {middle last : Transfer Nat UInt8} (shows : Shows first source dest transfer middle)
    (later : Shows second source dest middle last) :
    Shows (first ++ second) source dest transfer last where
  messages := by rw [later.messages, shows.messages, Event.queuedBy_append, append_assoc]
  arrived := by rw [later.arrived, shows.arrived, Event.arrivedAt_append, append_assoc]
  acknowledged := by
    rw [later.acknowledged, shows.acknowledged, Event.reportsTo_append, append_assoc]

def Advances (next : Simulation) (events : List Event)
    (source dest : Nat) (transfer : Transfer Nat UInt8) : Prop :=
  ∃ after, next.Carries source dest after ∧ Shows events source dest transfer after

theorem Carries.silent (carries : sim.Carries source dest transfer)
    (queued : Event.queuedBy source events = []) (arrived : Event.arrivedAt dest events = [])
    (reports : Event.reportsTo source events = []) :
    sim.Advances events source dest transfer :=
  ⟨transfer, carries, by simp [queued], by simp [arrived], by simp [reports]⟩

theorem Carries.unchanged (carries : sim.Carries source dest transfer) :
    sim.Advances [] source dest transfer :=
  carries.silent rfl rfl rfl

theorem Carries.put (carries : sim.Carries source dest transfer)
    (found : sim.connections id = some old)
    (new : SimulatedConnection) (s : new.connectionState = old.connectionState)
    (remote : new.remoteConnectionId = old.remoteConnectionId)
    (queue : id = source → new.sending = old.sending) :
    (sim.put id new).Carries source dest transfer where
  endpoints := carries.endpoints.put_same found new s remote queue
  traffic := carries.traffic.congr rfl
  sound := carries.sound

theorem Carries.addTask (carries : sim.Carries source dest transfer)
    (time : Nat) (noMessage : task.isMessageFrom source = false)
    (noAck : task.isAckTo source = false)
    (between :
      ∀ {sender receiver msg}, task = .handleMessage sender receiver msg → receiver ≠ dest) :
    (sim.addTask time task).Carries source dest transfer := by
  refine ⟨carries.endpoints.congr rfl, ?_, carries.sound⟩
  apply carries.traffic.addTask
  · intro sender receiver msg shape
    have notFrom : sender ≠ source := by
      intro same
      simp [shape, Task.isMessageFrom, same] at noMessage
    exact ⟨fun same => absurd same notFrom, fun same => absurd same (between shape)⟩
  · simp [noMessage]
  · simp [noAck]

theorem Carries.addRead (carries : sim.Carries source dest transfer) (time id : Nat) :
    (sim.addTask time (.handleRead id)).Carries source dest transfer :=
  carries.addTask time rfl rfl nofun

theorem Advances.put (advances : next.Advances events source dest transfer)
    (found : next.connections id = some old) (new : SimulatedConnection)
    (s : new.connectionState = old.connectionState)
    (remote : new.remoteConnectionId = old.remoteConnectionId)
    (queue : id = source → new.sending = old.sending) :
    (next.put id new).Advances events source dest transfer := by
  obtain ⟨after, carries, shows⟩ := advances
  exact ⟨after, carries.put found new s remote queue, shows⟩

theorem Advances.addTask (advances : next.Advances events source dest transfer) (time : Nat)
    (noMessage : task.isMessageFrom source = false) (noAck : task.isAckTo source = false)
    (between :
      ∀ {sender receiver msg}, task = .handleMessage sender receiver msg → receiver ≠ dest) :
    (next.addTask time task).Advances events source dest transfer := by
  obtain ⟨after, carries, shows⟩ := advances
  exact ⟨after, carries.addTask time noMessage noAck between, shows⟩

theorem Advances.addSend
    (advances : next.Advances events source dest transfer) (time id : Nat) :
    (next.addTask time (.handleSend id)).Advances events source dest transfer :=
  advances.addTask time rfl rfl nofun

theorem Advances.addRead
    (advances : next.Advances events source dest transfer) (time id : Nat) :
    (next.addTask time (.handleRead id)).Advances events source dest transfer :=
  advances.addTask time rfl rfl nofun

theorem packets_queue (sound : transfer.Sound) (msg : Nat × Bytes) :
    packets { transfer with waiting := transfer.waiting ++ [msg] } =
      packets transfer ++ [⟨msg.2, 0, msg.1⟩] := by
  unfold packets
  cases waiting : transfer.waiting with
  | nil => simp [sound.idle waiting]
  | cons front rest => simp

theorem Endpoints.sending_eq (endpoints : sim.Endpoints source dest sending)
    {conn : SimulatedConnection} (found : sim.connections source = some conn) :
    conn.sending = sending := by
  obtain ⟨sender, senderFound, _, _, senderSending⟩ := endpoints.sender
  rw [senderFound, Option.some.injEq] at found
  rw [← found, senderSending]

theorem pushPacket_advances (carries : sim.Carries source dest transfer)
    {conn : SimulatedConnection}
    (found : sim.connections id = some conn) (msg : Bytes) (messageId : Nat) :
    (sim.put id { conn with sending := conn.sending ++ [⟨msg, 0, messageId⟩] }).Advances
      [.queued id messageId msg] source dest transfer := by
  have pushed :=
    carries.endpoints.put found { conn with sending := conn.sending ++ [⟨msg, 0, messageId⟩] }
      rfl rfl
  by_cases same : id = source
  · subst same
    rw [if_pos rfl] at pushed
    refine
      ⟨{ transfer with waiting := transfer.waiting ++ [(messageId, msg)] },
        ⟨?_, carries.traffic.congr rfl, (Transfer.Step.queue transfer _).sound carries.sound⟩,
        by simp [Transfer.messages, Event.queuedBy],
        by simp [Event.arrivedAt], by simp [Event.reportsTo]⟩
    rw [packets_queue carries.sound, ← carries.endpoints.sending_eq found]
    exact pushed
  · rw [if_neg same] at pushed
    apply Carries.silent
    · exact ⟨pushed, carries.traffic.congr rfl, carries.sound⟩
    · simp [Event.queuedBy, same]
    · simp [Event.arrivedAt]
    · simp [Event.reportsTo]

theorem asyncSend_advances (carries : sim.Carries source dest transfer)
    (id : Nat) (msg : Bytes) (messageId : Nat) :
    (sim.asyncSend id msg messageId).1.Advances
      (sim.asyncSend id msg messageId).2 source dest transfer := by
  unfold asyncSend
  cases found : sim.connections id with
  | none => exact carries.unchanged
  | some conn =>
    have pushed := pushPacket_advances carries found msg messageId
    dsimp only
    split
    · exact carries.unchanged
    · split
      · exact carries.unchanged
      · split
        · exact pushed.addSend _ id
        · exact pushed

theorem nextFragment_eq (bandwidth : Nat) (pkt : OutgoingPacket) :
    nextFragment bandwidth pkt = (pkt.message.drop pkt.bytesSend).take bandwidth := by
  unfold nextFragment
  split
  next enough =>
    rw [take_of_length_le (by simpa using enough)]
    split
    next nothing =>
      rw [nothing, drop_zero]
    · rfl
  · rfl

theorem packets_cons {rest : List OutgoingPacket} (shape : packets transfer = pkt :: rest) :
    ∃ waiting, transfer.waiting = (pkt.id, pkt.message) :: waiting ∧
      pkt.bytesSend = transfer.sent ∧ rest = waiting.map fun other => ⟨other.2, 0, other.1⟩ := by
  unfold packets at shape
  cases waiting : transfer.waiting with
  | nil => simp [waiting] at shape
  | cons front others =>
    simp only [waiting] at shape
    obtain ⟨rfl, rfl⟩ := shape
    exact ⟨others, rfl, rfl, rfl⟩

theorem packets_fresh (nothing : transfer.sent = 0) :
    packets transfer = transfer.waiting.map fun pkt => ⟨pkt.2, 0, pkt.1⟩ := by
  unfold packets
  cases transfer.waiting <;> simp [nothing]

theorem map_packets :
    (packets transfer).map (fun pkt => (pkt.id, pkt.message)) = transfer.waiting := by
  unfold packets
  cases transfer.waiting with
  | nil => rfl
  | cons front rest =>
    rw [map_cons, map_map]
    exact congrArg (front :: ·) (map_id rest)

theorem transmit_advances (carries : sim.Carries source dest transfer)
    {conn : SimulatedConnection} (found : sim.connections id = some conn)
    {waiting : List OutgoingPacket} (queue : conn.sending = pkt :: waiting)
    (notWhole : pkt.message.length ≠ pkt.bytesSend) (new : SimulatedConnection)
    (s : new.connectionState = conn.connectionState)
    (remote : new.remoteConnectionId = conn.remoteConnectionId)
    {fragment : Bytes} {size : Nat} (part : fragment = (pkt.message.drop pkt.bytesSend).take size)
    (sending : new.sending = { pkt with bytesSend := pkt.bytesSend + fragment.length } :: waiting)
    (time : Nat) :
    ((sim.put id new).addTask time (.handleMessage id conn.remoteConnectionId
          fragment)).Advances [] source dest transfer := by
  have pushed := carries.endpoints.put found new s remote
  have traffic : (sim.put id new).Traffic _ _ _ _ := carries.traffic.congr rfl
  by_cases same : id = source
  · subst same
    obtain ⟨sender, senderFound, _, senderRemote, senderSending⟩ := carries.endpoints.sender
    rw [senderFound, Option.some.injEq] at found
    subst found
    rw [queue] at senderSending
    obtain ⟨others, waits, sent, rest⟩ := packets_cons senderSending.symm
    rw [sent] at part notWhole sending
    have step := Transfer.Step.transmit transfer size waits (Ne.symm notWhole)
    refine ⟨_, ⟨?_, ?_, step.sound carries.sound⟩, ?_, ?_, ?_⟩
    · rw [if_pos rfl, sending, rest, part] at pushed
      simp only [waits]
      exact pushed.congr rfl
    · apply traffic.addTask
      · intro sender receiver msg shape
        cases shape
        simp [senderRemote]
      · simp [Task.isMessageFrom, Task.fragment, part]
      · simp [Task.isAckTo]
    · simp [Transfer.messages, Event.queuedBy]
    · simp [Event.arrivedAt]
    · simp [Event.reportsTo]
  · rw [if_neg same] at pushed
    apply Carries.unchanged
    refine ⟨pushed.congr rfl, ?_, carries.sound⟩
    apply traffic.addTask
    · intro sender receiver msg shape
      cases shape
      constructor
      · exact fun equal => absurd equal same
      · exact fun toPeer => absurd (carries.endpoints.alone found toPeer) same
    · simp [Task.isMessageFrom, same]
    · simp [Task.isAckTo]

theorem handleSend_advances (carries : sim.Carries source dest transfer) (random id : Nat) :
    (sim.handleSend random id).Advances [] source dest transfer := by
  unfold handleSend
  cases found : sim.connections id with
  | none => exact carries.unchanged
  | some conn =>
    dsimp only
    split
    · exact carries.unchanged
    · cases queue : conn.sending with
      | nil => exact carries.unchanged
      | cons pkt waiting =>
        dsimp only
        split
        · exact carries.unchanged
        next notWhole =>
          apply transmit_advances carries found queue notWhole _ _ _ (nextFragment_eq _ pkt) <;>
          rfl

theorem handleRead_advances (carries : sim.Carries source dest transfer) (id : Nat) :
    (sim.handleRead id).1.Advances (sim.handleRead id).2 source dest transfer := by
  unfold handleRead
  cases found : sim.connections id with
  | none => exact carries.unchanged
  | some conn =>
    have received (buf : Bytes) (readId : Nat) :
        sim.Advances [.messageReceived id buf readId] source dest transfer :=
      carries.silent rfl rfl rfl
    dsimp only
    split
    · exact carries.unchanged
    · split
      · generalize readLoop _ _ _ = copied
        split
        · refine Advances.addRead ?_ _ id
          exact (received _ _).put found _ (by rfl) (by rfl) (by simp)
        · exact carries.unchanged.put found _ (by rfl) (by rfl) (by simp)
      · exact carries.unchanged

theorem asyncRead_advances (carries : sim.Carries source dest transfer)
    (id bufferSize numBytes readId : Nat) :
    (sim.asyncRead id bufferSize numBytes readId).Advances [] source dest transfer := by
  unfold asyncRead
  cases found : sim.connections id with
  | none => exact carries.unchanged
  | some conn =>
    dsimp only
    split
    · exact carries.unchanged
    · split
      · refine Advances.addRead ?_ _ id
        exact carries.unchanged.put found _ (by rfl) (by rfl) (by simp)
      · exact carries.unchanged.put found _ (by rfl) (by rfl) (by simp)

theorem Advances.answer (advances : sim.Advances events source dest transfer)
    (random : Nat) (receiver : Nat) (other : sender ≠ source) :
    (sim.answer random sender receiver).Advances events source dest transfer := by
  unfold Simulation.answer
  split
  next first second _ found =>
    split
    · refine (advances.put found _ (by rfl) (by rfl) fun _ => by rfl).addTask _ ?_ ?_ ?_
      · rfl
      · simp [Task.isAckTo, other]
      · exact nofun
    · split
      · exact advances.addSend _ sender
      · exact advances
  · exact advances

theorem handleMessage_advances (carries : sim.Carries source dest transfer)
    (random : Nat) (msg : Bytes) (otherSender : sender ≠ source)
    (otherReceiver : receiver ≠ dest) :
    (sim.handleMessage random sender receiver msg).1.Advances
      (sim.handleMessage random sender receiver msg).2 source dest transfer := by
  have broken (time : Nat) (status : Status) :
      (sim.addTask time (.handleAck sender status)).Advances [] source dest transfer := by
    apply carries.unchanged.addTask
    · rfl
    · simp [Task.isAckTo, otherSender]
    · exact nofun
  have arrives : sim.Advances [.arrived receiver msg] source dest transfer := by
    apply carries.silent
    · rfl
    · simp [Event.arrivedAt, otherReceiver]
    · rfl
  unfold handleMessage
  cases found : sim.connections receiver with
  | none =>
    cases sim.connections sender with
    | none => exact carries.unchanged
    | some conn => exact broken _ _
  | some conn =>
    dsimp only
    split
    · cases sim.connections sender with
      | none => exact carries.unchanged
      | some conn => exact broken _ _
    · have pushed := arrives.put found
        { conn with receiveBuffer := conn.receiveBuffer ++ [msg] }
        rfl rfl fun _ => rfl
      split
      · exact (pushed.addRead _ receiver).answer random receiver otherSender
      · exact pushed.answer random receiver otherSender

theorem handleAck_advances (carries : sim.Carries source dest transfer)
    (status : Status) (other : id ≠ source) :
    (sim.handleAck id status).1.Advances
      (sim.handleAck id status).2 source dest transfer := by
  unfold handleAck
  cases found : sim.connections id with
  | none => exact carries.unchanged
  | some conn =>
    dsimp only
    split
    · exact carries.unchanged
    next pkt waiting _ =>
      have reports : sim.Advances [.messageSent id pkt.id status] source dest transfer := by
        apply carries.silent
        · rfl
        · rfl
        · simp [Event.reportsTo, other]
      exact (reports.put found _ (by rfl) (by rfl) fun same => absurd same other).addSend _ id

/-! ## The tasks of the stream itself -/

theorem Carries.pop (carries : sim.Carries source dest transfer)
    (noMessage : e.2.isMessageFrom source = false) (noAck : e.2.isAckTo source = false) :
    (sim.pop e).Carries source dest transfer where
  endpoints := carries.endpoints.congr rfl
  traffic := by
    apply carries.traffic.pop
    · rw [inFlight_erase noMessage, carries.traffic.wire]
    · rw [pendingAcks_erase noAck, carries.traffic.acks]
  sound := carries.sound

theorem Carries.deliver (carries : sim.Carries source dest transfer)
    (turn : sim.inFlight source = (time, .handleMessage source receiver msg) :: rest) :
    (sim.pop (time, .handleMessage source receiver msg)).Carries source dest
      { transfer with
        onWire := rest.map fun e => e.2.fragment
        arrived := transfer.arrived ++ msg } where
  endpoints := carries.endpoints.congr rfl
  traffic := by
    apply carries.traffic.pop
    · rw [turn, erase_cons_head]
    · rw [pendingAcks_erase rfl, carries.traffic.acks]
  sound := by
    have wire := carries.traffic.wire
    rw [turn] at wire
    exact (Transfer.Step.deliver transfer wire.symm).sound carries.sound

/-- `handle_message` acknowledges a message whenever its last byte has been
sent, also if the fragment at hand is not its last one; with several fragments
on the way this is too early and too often. -/
theorem answer_advances (carries : sim.Carries source dest transfer)
    (random : Nat) (quiet : transfer.acknowledging = false)
    (last : (∃ sender ∈ sim.connections source, SentWhole sender) → transfer.onWire = []) :
    (sim.answer random source dest).Advances [] source dest transfer := by
  unfold Simulation.answer
  split
  next sender receiver senderFound receiverFound =>
    split
    next whole =>
      have empty := last ⟨sender, senderFound, whole⟩
      obtain ⟨pkt, waiting, queue, sent⟩ := whole
      rw [carries.endpoints.sending_eq senderFound] at queue
      obtain ⟨others, waits, begun, _⟩ := packets_cons queue
      have step := Transfer.Step.reply transfer empty waits (begun.symm.trans sent.symm)
      generalize receiver.timeOfHandling _ _ = time
      have stamped := carries.put receiverFound (receiver.setTimeStamp time) rfl rfl fun _ => rfl
      refine ⟨{ transfer with acknowledging := true },
          ⟨stamped.endpoints.congr rfl, ?_, step.sound carries.sound⟩,
          by simp [Transfer.messages, Event.queuedBy],
          by simp [Event.arrivedAt], by simp [Event.reportsTo]⟩
      apply stamped.traffic.addTask
      · intro _ _ _ same
        contradiction
      · simp [Task.isMessageFrom]
      · simp [quiet, Task.isAckTo]
    · split
      · exact carries.unchanged.addSend _ source
      · exact carries.unchanged
  · exact carries.unchanged

theorem handleMessage_answers (carries : sim.Carries source dest transfer)
    (random : Nat) (msg : Bytes) (quiet : transfer.acknowledging = false)
    (last : (∃ sender ∈ sim.connections source, SentWhole sender) → transfer.onWire = []) :
    (sim.handleMessage random source dest msg).2 = [.arrived dest msg] ∧
      (sim.handleMessage random source dest
          msg).1.Advances [] source dest transfer := by
  obtain ⟨conn, found, connected⟩ := carries.endpoints.receiver
  have pushed :=
    carries.put found { conn with receiveBuffer := conn.receiveBuffer ++ [msg] }
      rfl rfl fun _ => rfl
  have answered {next : Simulation} (carriesNext : next.Carries source dest transfer)
      (same : next.connections source = sim.connections source) :
      (next.answer random source dest).Advances [] source dest transfer := by
    apply answer_advances carriesNext random quiet
    rw [same]
    exact last
  have same (new : SimulatedConnection) :
      (sim.put dest new).connections source = sim.connections source := by
    simp [Simulation.put, carries.endpoints.different]
  unfold handleMessage
  rw [found]
  dsimp only
  rw [if_neg (not_not.mpr connected)]
  refine ⟨rfl, ?_⟩
  split
  · exact answered (pushed.addRead _ _) (same _)
  · exact answered pushed (same _)

theorem handleMessage_delivers (carries : sim.Carries source dest transfer) (random : Nat)
    (turn : sim.inFlight source = (time, .handleMessage source receiver msg) :: rest)
    (last : (∃ sender ∈ sim.connections source, SentWhole sender) → rest = []) :
    let after :=
      (sim.pop (time, .handleMessage source receiver msg)).handleMessage random source receiver msg
    after.1.Advances after.2 source dest transfer := by
  have mem : (time, Task.handleMessage source receiver msg) ∈ sim.inFlight source := by simp [turn]
  obtain rfl : receiver = dest := (carries.traffic.between (mem_of_mem_filter mem)).mp rfl
  have quiet : transfer.acknowledging = false := by
    by_contra acknowledging
    have empty := (carries.sound.whole (by simpa using acknowledging)).1
    rw [← carries.traffic.wire, turn] at empty
    simp at empty
  have arrives : Shows [.arrived receiver msg] source receiver transfer
        { transfer with
          onWire := rest.map fun e => e.2.fragment
          arrived := transfer.arrived ++ msg } :=
    ⟨by simp [Transfer.messages, Event.queuedBy],
      by simp [Event.arrivedAt], by simp [Event.reportsTo]⟩
  obtain ⟨events, after, carriesAfter, shows⟩ :=
    handleMessage_answers (carries.deliver turn) random msg quiet
      (fun whole => by simp [last whole])
  dsimp only
  rw [events]
  exact ⟨after, carriesAfter, arrives.append shows⟩

theorem Traffic.acknowledging_of_mem (traffic : sim.Traffic source dest wire acknowledging)
    (mem : (time, Task.handleAck source status) ∈ sim.tasks) :
    acknowledging = true ∧
      status = .ok ∧ sim.pendingAcks source = [(time, .handleAck source status)] := by
  have pending : (time, Task.handleAck source status) ∈ sim.pendingAcks source := by
    simp [pendingAcks, Task.isAckTo, mem]
  have acks := traffic.acks
  cases acknowledging with
  | false =>
    have empty : sim.pendingAcks source = [] := by simpa using acks
    simp [empty] at pending
  | true =>
    obtain ⟨e, shape, isAck⟩ := map_eq_singleton_iff.mp acks
    rw [shape, mem_singleton] at pending
    subst pending
    refine ⟨rfl, ?_, shape⟩
    simpa using isAck

theorem handleAck_acknowledges (carries : sim.Carries source dest transfer)
    (mem : (time, Task.handleAck source status) ∈ sim.tasks) :
    let after := (sim.pop (time, .handleAck source status)).handleAck source status
    after.1.Advances after.2 source dest transfer := by
  obtain ⟨acknowledging, rfl, pending⟩ := carries.traffic.acknowledging_of_mem mem
  obtain ⟨conn, found, s, remote, sending⟩ := carries.endpoints.sender
  obtain ⟨_, front, rest, waits, _⟩ := carries.sound.whole acknowledging
  have traffic :
      (sim.pop (time, .handleAck source .ok)).Traffic source dest transfer.onWire false := by
    apply carries.traffic.pop
    · rw [inFlight_erase rfl, carries.traffic.wire]
    · simp [pending]
  have step := Transfer.Step.acknowledge transfer acknowledging waits
  have endpoints :=
    carries.endpoints.put found { conn with sending := rest.map fun pkt => ⟨pkt.2, 0, pkt.1⟩ }
      rfl rfl
  rw [if_pos rfl] at endpoints
  have popped : ((sim.pop (time, .handleAck source .ok)).put source
          { conn with sending := rest.map fun pkt => ⟨pkt.2, 0, pkt.1⟩ }).Advances
        [.messageSent source front.1 .ok] source dest transfer := by
    refine ⟨_, ⟨?_, ?_, step.sound carries.sound⟩,
        by simp [Transfer.messages, waits, Event.queuedBy],
        by simp [Event.arrivedAt], by simp [Event.reportsTo]⟩
    · rw [packets_fresh rfl]
      exact endpoints.congr rfl
    · exact traffic.congr rfl
  have queue : conn.sending =
        ⟨front.2, transfer.sent, front.1⟩ :: rest.map fun pkt => ⟨pkt.2, 0, pkt.1⟩ := by
    rw [sending, packets, waits]
  have shape : (sim.pop (time, .handleAck source .ok)).connections source = some conn := found
  unfold handleAck
  simp only [shape, queue]
  exact popped.addSend _ source

/-! ## Whole runs -/

theorem runTask_advances (carries : sim.Carries source dest transfer)
    (random : Nat) (next : sim.due = some (time, task)) (turn : sim.DeliversInTurn source) :
    ((sim.pop (time, task)).runTask random task).1.Advances
      ((sim.pop (time, task)).runTask random task).2 source dest transfer := by
  have mem := mem_of_find?_eq_some next
  cases task with
  | handleSend id => exact handleSend_advances (carries.pop rfl rfl) random id
  | handleRead id => exact handleRead_advances (carries.pop rfl rfl) id
  | handleMessage sender receiver msg =>
    by_cases same : sender = source
    · subst same
      obtain ⟨oldest, only⟩ := turn _ next (by simp [Task.isMessageFrom])
      obtain ⟨rest, shape⟩ := head?_eq_some_iff.mp oldest
      apply handleMessage_delivers carries random shape
      intro whole
      simpa [shape] using only whole
    · -- nobody but `source` sends to `dest`
      apply handleMessage_advances
      · exact carries.pop (by simp [Task.isMessageFrom, same]) rfl
      · exact same
      · exact fun toDestination => same ((carries.traffic.between mem).mpr toDestination)
  | handleAck id status =>
    by_cases same : id = source
    · subst same
      exact handleAck_acknowledges carries mem
    · apply handleAck_advances
      · exact carries.pop rfl (by simp [Task.isAckTo, same])
      · exact same

/-- The step lemma. -/
theorem step_advances (carries : sim.Carries source dest transfer)
    {action : Action} (turn : sim.InTurn source action)
    {after : Simulation × List Event} (stepped : sim.step action = some after) :
    after.1.Advances after.2 source dest transfer := by
  cases action with
  | asyncSend id msg messageId =>
    cases stepped
    exact asyncSend_advances carries id msg messageId
  | asyncRead id bufferSize numBytes readId =>
    cases stepped
    exact asyncRead_advances carries id bufferSize numBytes readId
  | tick =>
    simp only [step] at stepped
    cases next : sim.due with
    | none =>
      simp only [next, Option.some.injEq] at stepped
      subst stepped
      apply Carries.unchanged
      exact ⟨carries.endpoints.congr rfl, carries.traffic.congr rfl, carries.sound⟩
    | some e => simp [next] at stepped
  | task random =>
    simp only [step] at stepped
    cases next : sim.due with
    | none => simp [next] at stepped
    | some e =>
      simp only [next, Option.some.injEq] at stepped
      subst stepped
      exact runTask_advances carries random next turn

/-- The run lemma: the stream goes on through every run in turn. -/
theorem run_advances {actions : List Action} (carries : sim.Carries source dest transfer)
    (turn : RunsInTurn source sim actions)
    {final : Simulation} (ran : sim.run actions = some (final, events)) :
    final.Advances events source dest transfer := by
  induction actions generalizing sim transfer final events with
  | nil =>
    cases ran
    exact carries.unchanged
  | cons action actions ih =>
    obtain ⟨inTurn, laterInTurn⟩ := turn
    simp only [run] at ran
    cases stepped : sim.step action with
    | none => simp [stepped] at ran
    | some next =>
      simp only [stepped, Option.map_eq_some_iff, Prod.exists] at ran
      obtain ⟨last, later, ranLater, rfl, rfl⟩ := ran
      obtain ⟨middle, carriesMiddle, shows⟩ := step_advances carries inTurn stepped
      obtain ⟨after, carriesAfter, showsLater⟩ :=
        ih carriesMiddle (laterInTurn _ (by simp [advance, stepped])) ranLater
      exact ⟨after, carriesAfter, shows.append showsLater⟩

/-- A connected pair before anything is on the way: messages may wait in the
queue, but none has been sent in part. -/
structure Fresh (sim : Simulation) (source dest : Nat)
    (waiting : List (Nat × Bytes)) : Prop where
  endpoints :
    sim.Endpoints source dest (waiting.map fun message => ⟨message.2, 0, message.1⟩)
  traffic : sim.Traffic source dest [] false

theorem Fresh.carries {waiting : List (Nat × Bytes)}
    (fresh : sim.Fresh source dest waiting) :
    sim.Carries source dest
      { acknowledged := []
        waiting := waiting
        sent := 0
        onWire := []
        arrived := []
        acknowledging := false } where
  endpoints := by
    rw [packets_fresh rfl]
    exact fresh.endpoints
  traffic := fresh.traffic
  sound := Transfer.sound_start waiting

/-- In a run in which every fragment is handled in its turn, the bytes that
are pushed into the receive buffer are a prefix of the messages of the sender
in the order of the calls, and all of them once the sending queue is empty.
The messages that have left the queue were reported once each, with status
ok and in their order, and every byte of them has arrived. -/
theorem stream_of_turns {waiting : List (Nat × Bytes)}
    (fresh : sim.Fresh source dest waiting)
    {actions : List Action} (turn : RunsInTurn source sim actions)
    {final : Simulation} {events : List Event} (ran : sim.run actions = some (final, events)) :
    let sent := waiting ++ Event.queuedBy source events
    let arrived := Event.arrivedAt dest events
    ∃ acknowledged left conn, acknowledged ++ left = sent ∧ final.connections source = some conn ∧
        conn.sending.map (fun pkt => (pkt.id, pkt.message)) =
          left ∧
        Event.reportsTo source events = acknowledged.map (fun msg => (msg.1, Status.ok)) ∧
        acknowledged.flatMap Prod.snd <+: arrived ∧
        arrived <+: sent.flatMap Prod.snd ∧
        (left = [] → arrived = sent.flatMap Prod.snd) := by
  obtain ⟨after, carries, shows⟩ := run_advances fresh.carries turn ran
  have messages : after.messages = waiting ++ Event.queuedBy source events := shows.messages
  have arrived : after.arrived = Event.arrivedAt dest events := shows.arrived
  obtain ⟨conn, found, _, _, sending⟩ := carries.endpoints.sender
  rw [← arrived, ← messages]
  refine ⟨after.acknowledged, after.waiting, conn, rfl, found, ?_⟩
  refine ⟨?_, ?_, ?_, ?_, ?_⟩
  · rw [sending, map_packets]
  · exact shows.acknowledged.symm
  · exact carries.sound.acknowledged_prefix
  · exact carries.sound.arrived_prefix
  · exact carries.sound.arrived_all

/-- What a run has shown of the stream between two connections, and the tasks
it has left. -/
structure Outcome where
  queued : List (Nat × Bytes)
  sending : Option (List OutgoingPacket)
  pending : List (Nat × Task)
  arrived : Bytes
  reports : List (Nat × Status)
  deriving DecidableEq

def Outcome.of (source dest : Nat) (after : Simulation × List Event) : Outcome where
  queued := Event.queuedBy source after.2
  sending := (after.1.connections source).map SimulatedConnection.sending
  pending := after.1.tasks
  arrived := Event.arrivedAt dest after.2
  reports := Event.reportsTo source after.2

def connectedPair (bandwidth : Nat) : Simulation where
  time := 0
  tasks := []
  connections := fun id =>
    let parameters : ConnectionParams := ⟨0, 0, bandwidth⟩
    if id = 1 then some ⟨2, parameters, [], [], [], 0, .connected⟩
    else if id = 2 then some ⟨1, parameters, [], [], [], 0, .connected⟩
    else none

theorem connectedPair_fresh (bandwidth : Nat) :
    (connectedPair bandwidth).Fresh 1 2 [] where
  endpoints := by
    refine ⟨by decide, ⟨_, rfl, rfl, rfl, rfl⟩, ⟨_, rfl, rfl⟩, ?_⟩
    intro other conn found toPeer
    simp only [connectedPair] at found
    split at found
    · assumption
    · split at found
      · simp only [Option.some.injEq] at found
        subst found
        simp at toPeer
      · cases found
  traffic := by
    refine ⟨?_, rfl, rfl⟩
    simp [connectedPair]

/-- The second message is sent when the first one has been acknowledged. -/
def messagesInTurn : List Action :=
  let wait count := (List.replicate count [Action.tick, .task 0]).flatten
  .asyncSend 1 (text "ab") 7 :: wait 6 ++ .asyncSend 1 (text "c") 8 :: wait 4

theorem stream_of_turns_messagesInTurn :
    ∃ final events, (connectedPair 1).run messagesInTurn = some (final, events) ∧
      Event.arrivedAt 2 events = text "abc" := by
  have outcome : ((connectedPair 1).run messagesInTurn).map (fun after =>
        (Event.queuedBy 1 after.2, (after.1.connections 1).map SimulatedConnection.sending)) =
        some ([(7, text "ab"), (8, text "c")], some []) := by
    decide +kernel
  obtain ⟨⟨final, events⟩, ran, same⟩ := Option.map_eq_some_iff.mp outcome
  obtain ⟨queued, sending⟩ := Prod.mk.inj same
  obtain ⟨_, left, conn, _, found, waiting, _, _, _, all⟩ :=
    stream_of_turns (connectedPair_fresh 1) (by decide +kernel) ran
  have empty : conn.sending = [] := by simpa [found] using sending
  have nothing : left = [] := by rw [← waiting, empty, map_nil]
  refine ⟨final, events, ran, ?_⟩
  rw [all nothing, queued]
  rfl

/-- The second message is queued while the first one is sent: the fragments
of the first message are acknowledged twice, and the second acknowledgement
takes the second message off the queue. -/
def twoMessages : List Action :=
  [.asyncSend 1 (text "ab") 1, .asyncSend 1 (text "c") 2, .tick, .task 0,
    .task 0, .tick, .task 0, .tick, .task 0, .task 0, .tick, .task 0, .task 0, .tick, .task 0]

theorem twoMessages_lost :
    ((connectedPair 1).run twoMessages).map (Outcome.of 1 2) = some
        { queued := [(1, text "ab"), (2, text "c")]
          sending := some []
          pending := []
          arrived := text "ab"
          reports := [(1, .ok), (2, .ok)] } := by
  decide +kernel

end Simulation

end AutomatonCore.Network
