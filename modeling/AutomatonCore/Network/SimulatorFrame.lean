import AutomatonCore.Network.Simulator

/-!
# What the functions of the simulation leave alone
-/

namespace AutomatonCore.Network

open List

/-- Most changes of an object concern ids, addresses and parameters; this is
what they leave alone. -/
structure Core where
  queues : Queues
  state : ConnectionState
  stamp : Nat
  deriving DecidableEq, Repr

def ConnectionObject.core (object : ConnectionObject) : Core :=
  ⟨object.queues, object.connectionState, object.timeStamp⟩

namespace SimulatedNetwork

variable {net : SimulatedNetwork} {c other : Nat}

def core (network : SimulatedNetwork) (conn : Nat) : Core :=
  (network.objects conn).core

theorem core_put (object : ConnectionObject) :
    (net.put c object).core other =
      if other = c then object.core else net.core other := by
  change ((Function.update net.objects c object) other).core = _
  rw [Function.update_apply]
  split <;> rfl

theorem core_put_same {object : ConnectionObject} (same : object.core = net.core c) :
    (net.put c object).core other = net.core other := by
  rw [core_put]
  split
  next equal => rw [equal, same]
  · rfl

@[simp]
theorem core_addConnection : (net.addConnection c).core other = net.core other := core_put_same rfl

@[simp]
theorem core_setRemote (remote : Nat) : (net.setRemote c remote).core other = net.core other :=
  core_put_same rfl

@[simp]
theorem core_setBandwidth (bandwidth : Nat) :
    (net.setBandwidth c bandwidth).core other = net.core other :=
  core_put_same rfl

@[simp]
theorem core_forget : (net.forget c).core other = net.core other := core_put_same rfl

@[simp]
theorem core_setState (state : ConnectionState) :
    (net.setState c state).core other =
      if other = c then { net.core c with state := state }
      else net.core other :=
  core_put _

@[simp]
theorem core_setTimeStamp (time : Nat) :
    (net.setTimeStamp c time).core other =
      if other = c then
        { net.core c with
          stamp :=
            if time > (net.core c).stamp then time
            else (net.core c).stamp }
      else net.core other :=
  core_put _

theorem core_create (params : ConnectionParams) (remoteAddress : Nat)
    (created : other < net.created) :
    (net.create params remoteAddress).core other = net.core other := by
  change (net.put net.created _).core other = _
  rw [core_put, if_neg (ne_of_lt created)]

theorem establish_time (time bandwidth : Nat) :
    (net.establish c time bandwidth).time = net.time := by
  simp only [establish, setTimeStamp, setRemote, setState, setBandwidth, addConnection, create, put]

theorem establish_created (time bandwidth : Nat) :
    (net.establish c time bandwidth).created = net.created + 1 := by
  simp only [establish, setTimeStamp, setRemote, setState, setBandwidth, addConnection, create, put]

theorem core_establish (time bandwidth : Nat) (created : other < net.created) :
    (net.establish c time bandwidth).core other = net.core other := by
  simp only [establish, core_setTimeStamp, core_setRemote, core_setState,
    core_setBandwidth, core_addConnection, if_neg (ne_of_lt created), core_create _ _ created]

end SimulatedNetwork

namespace Simulator

variable {sim : Simulator} {c other : Nat}

def core (sim : Simulator) (conn : Nat) : Core :=
  (sim.object conn).core

theorem due_split {e : Scheduled} (due : sim.due = some e) :
    e.time = sim.time ∧ ∃ earlier later, sim.tasks = earlier ++ e :: later ∧
      sim.tasks.erase e = earlier ++ later ∧ ∀ other ∈ earlier, other.time ≠ sim.time := by
  obtain ⟨now, earlier, later, split, others⟩ := find?_eq_some_iff_append.mp due
  have now : e.time = sim.time := of_decide_eq_true now
  have ne : ∀ other ∈ earlier, other.time ≠ sim.time := by
    intro other mem same
    have other := others other mem
    simp [same] at other
  refine ⟨now, earlier, later, split, ?_, ne⟩
  rw [split, erase_append_right, erase_cons_head]
  intro mem
  exact ne e mem now

theorem reached_of_map {α : Type} {result : Except NetworkFault Simulator}
    {view : Simulator → α} {v : α} (viewed : result.map view = .ok v) :
    ∃ final, result = .ok final ∧ view final = v := by
  cases result with
  | error fault => cases viewed
  | ok final => exact ⟨final, rfl, Except.ok.inj viewed⟩

theorem onCreated_ok {called after : Simulator} (stepped : sim.onCreated c called = .ok after) :
    c < sim.network.created ∧ after = called ∨ after = sim := by
  unfold onCreated at stepped
  split at stepped
  next created => exact .inl ⟨created, (Except.ok.inj stepped).symm⟩
  · exact .inr (Except.ok.inj stepped).symm

theorem handleRequest_ok {after : Simulator} {random : Nat} {requested : Bool} {src dest : Nat}
    (handled : sim.handleRequest random requested src dest = .ok after) :
    ∃ c time acceptor, sim.getConnection src = some c ∧ sim.network.acceptors dest = some acceptor ∧
          after =
            if requested then
              (sim.ask c dest time acceptor).accept src c time (sim.handlers dest) acceptor
            else (sim.ask c dest time acceptor).addTask time (.handleRefuse src) := by
  unfold handleRequest at handled
  split at handled
  · cases handled
  next c listed =>
    split at handled
    · cases handled
    next acceptor found =>
      refine ⟨c, sim.time + (sim.object c).parameters.getLag random + 1, acceptor, listed,
        found, ?_⟩
      dsimp only at handled
      split at handled
      next accepted =>
        rw [if_pos accepted]
        exact (Except.ok.inj handled).symm
      next refused =>
        rw [if_neg refused]
        exact (Except.ok.inj handled).symm

end Simulator

/-! ## Moves -/

def SimulatorTask.isRequest : SimulatorTask → Bool
  | .handleRequest .. => true
  | _ => false

def SimulatorTask.isCancellation : SimulatorTask → Bool
  | .cancelOperations .. => true
  | _ => false

def SimulatorTask.isPlain (task : SimulatorTask) : Prop :=
  task.isRequest = false ∧ task.isCancellation = false

def SimulatorEvent.isCall : SimulatorEvent → Bool
  | .issued .. => false
  | .processed .. => false
  | _ => true

namespace Simulator

/-- The changes of which the functions of the simulation consist.  Only the
connection `acted` may be opened or get other queues, events are issued only
if `issues`, and cancellations are scheduled only if `cancels`. -/
inductive Move (acted : Option Nat) (issues cancels : Prop)
    (sim : Simulator) : Simulator → Prop
  | addTask (time : Nat) {task : SimulatorTask} (plain : task.isPlain) :
    Move acted issues cancels sim (sim.addTask time task)
  | addEvent (allowed : issues) (conn time : Nat)
    {task : SimulatorTask} (plain : task.isPlain) :
    Move acted issues cancels sim (sim.addEvent conn time task)
  | scheduleCancellation (allowed : cancels) (conn : Nat) :
    Move acted issues cancels sim (sim.scheduleCancellation conn)
  | calls {events : List SimulatorEvent} (handlers : ∀ event ∈ events, event.isCall) :
    Move acted issues cancels sim { sim with trace := sim.trace ++ events }
  | put {conn : Nat} {object : ConnectionObject}
    (stamp : object.timeStamp = (sim.object conn).timeStamp)
    (allowed : acted = some conn ∨ object.queues = (sim.object conn).queues ∧
          (object.connectionState = .connected →
            (sim.object conn).connectionState = .connected)) :
    Move acted issues cancels sim (sim.put conn object)
  | setTimeStamp (conn time : Nat) :
    Move acted issues cancels sim (sim.setTimeStamp conn time)
  | forget (conn : Nat) : Move acted issues cancels sim
      { sim with network := sim.network.forget conn }
  | addConnection {conn : Nat} (created : conn < sim.network.created) :
    Move acted issues cancels sim
      { sim with network := sim.network.addConnection conn }
  | establish (conn time bandwidth : Nat) : Move acted issues cancels sim
      { sim with network := sim.network.establish conn time bandwidth }
  | create (parameters : ConnectionParams) (remoteAddress : Nat) :
    Move acted issues cancels sim
      { sim with network := sim.network.create parameters remoteAddress }

abbrev Moves (acted : Option Nat) (issues cancels : Prop) : Simulator → Simulator → Prop :=
  Relation.ReflTransGen (Move acted issues cancels)

variable {sim after : Simulator} {acted : Option Nat} {issues cancels : Prop}

theorem Move.call {event : SimulatorEvent} (handler : event.isCall) :
    Move acted issues cancels sim (sim.call event) :=
  .calls (forall_mem_singleton.mpr handler)

theorem Move.close (c : Nat) : Move acted issues cancels sim (sim.setState c .disconnected) :=
  .put rfl (.inr ⟨rfl, ConnectionState.noConfusion⟩)

theorem Move.setRemote (c remote : Nat) :
    Move acted issues cancels sim { sim with network := sim.network.setRemote c remote } :=
  .put rfl (.inr ⟨rfl, id⟩)

theorem moves_asyncSend (c : Nat) (msg : Io.Bytes) (messageId : Nat) :
    Moves (some c) issues cancels sim (sim.asyncSend c msg messageId) := by
  unfold asyncSend
  dsimp only
  split
  · exact .refl
  · split
    · exact .refl
    · split
      · refine .tail (.single ?_) (.addTask _ ⟨rfl, rfl⟩)
        exact .put rfl (.inl rfl)
      · exact .single (.put rfl (.inl rfl))

theorem moves_asyncRead (c bufferSize numBytes readId : Nat) :
    Moves (some c) issues cancels sim (sim.asyncRead c bufferSize numBytes readId) := by
  unfold asyncRead
  dsimp only
  split
  · exact .refl
  · split
    · refine .tail (.single ?_) (.addTask _ ⟨rfl, rfl⟩)
      exact .put rfl (.inl rfl)
    · exact .single (.put rfl (.inl rfl))

theorem moves_disconnect (issue : issues) (cancel : cancels) (c random : Nat) :
    Moves acted issues cancels sim (sim.disconnect c random) := by
  unfold disconnect
  dsimp only
  split
  · exact .refl
  · refine .tail (.tail ?_ (.addEvent issue _ _ ⟨rfl, rfl⟩)) (.setRemote c 0)
    refine .tail (.tail ?_ (.scheduleCancellation cancel c)) (.call rfl)
    exact .tail (.tail (.single (.close c)) (.setTimeStamp c _)) (.forget c)

theorem moves_handleSend (issue : issues) (random c : Nat) :
    Moves (some c) issues cancels sim (sim.handleSend random c) := by
  unfold handleSend
  dsimp only
  split
  · exact .refl
  · split
    · exact .refl
    · split
      · exact .refl
      · refine .tail (.tail (.single ?_) (.setTimeStamp c _)) (.addEvent issue _ _ ⟨rfl, rfl⟩)
        exact .put rfl (.inl rfl)

theorem moves_handleRead (c : Nat) : Moves (some c) issues cancels sim (sim.handleRead c) := by
  unfold handleRead
  dsimp only
  split
  · exact .refl
  · split
    · generalize Simulation.readLoop _ _ _ = copied
      split
      · refine .tail (.tail (.single ?_) (.addTask _ ⟨rfl, rfl⟩)) (.call rfl)
        exact .put rfl (.inl rfl)
      · exact .single (.put rfl (.inl rfl))
    · exact .refl

theorem moves_brokenPipe (random src : Nat) :
    Moves acted issues cancels sim (sim.brokenPipe random src) := by
  unfold brokenPipe
  split
  · exact .refl
  · exact .single (.addTask _ ⟨rfl, rfl⟩)

theorem moves_answer (random src receiver : Nat) :
    Moves acted issues cancels sim (sim.answer random src receiver) := by
  unfold answer
  split
  · exact .refl
  · split
    · exact .tail (.single (.setTimeStamp _ _)) (.addTask _ ⟨rfl, rfl⟩)
    · split
      · exact .single (.addTask _ ⟨rfl, rfl⟩)
      · exact .refl

theorem moves_handleMessage (random src dest : Nat) (msg : Io.Bytes) :
    Moves acted issues cancels sim (sim.handleMessage random src dest msg) := by
  unfold handleMessage
  split
  · exact moves_brokenPipe random src
  · dsimp only
    split
    · exact moves_brokenPipe random src
    · refine .trans ?_ (moves_answer random src _)
      split
      · refine .tail (.single ?_) (.addTask _ ⟨rfl, rfl⟩)
        exact .put rfl (.inr ⟨rfl, id⟩)
      · exact .single (.put rfl (.inr ⟨rfl, id⟩))

theorem moves_handleAck (dest : Nat) (status : Status) :
    Moves (sim.getConnection dest) issues cancels sim (sim.handleAck dest status) := by
  unfold handleAck
  cases sim.getConnection dest with
  | none => exact .refl
  | some c =>
    dsimp only
    split
    · exact .refl
    · refine .tail (.tail (.single ?_) (.call rfl)) (.addTask _ ⟨rfl, rfl⟩)
      exact .put rfl (.inl rfl)

theorem moves_handleAccept (dest : Nat) :
    Moves (sim.getConnection dest) issues cancels sim (sim.handleAccept dest) := by
  unfold handleAccept
  cases sim.getConnection dest with
  | none => exact .refl
  | some c =>
    have opened : Move (some c) issues cancels sim (sim.setState c .connected) :=
      .put rfl (.inl rfl)
    exact .tail (.tail (.tail (.single opened) (.call rfl))
      (.addTask _ ⟨rfl, rfl⟩)) (.addTask _ ⟨rfl, rfl⟩)

theorem moves_handleRefuse (cancel : cancels) (dest : Nat) :
    Moves acted issues cancels sim (sim.handleRefuse dest) := by
  unfold handleRefuse
  split
  · exact .refl
  · exact .tail (.tail (.single (.close _)) (.scheduleCancellation cancel _)) (.call rfl)

theorem moves_handleDisconnect (cancel : cancels) (dest : Nat) :
    Moves acted issues cancels sim (sim.handleDisconnect dest) := by
  unfold handleDisconnect
  split
  · exact .refl
  · split
    · exact .refl
    · refine .tail (.tail ?_ (.scheduleCancellation cancel _)) (.forget _)
      exact .tail (.tail (.single (.close _)) (.call rfl)) (.setRemote _ 0)

theorem moves_cancelOperations (c : Nat) :
    Moves (some c) issues cancels sim (sim.cancelOperations c) := by
  have cleared : Move (some c) issues cancels sim
        { sim with network := sim.network.clearQueues c } :=
    .put rfl (.inl rfl)
  unfold cancelOperations
  dsimp only
  rw [append_assoc]
  refine .tail (.single cleared) (.calls ?_)
  intro event mem
  rw [mem_append, mem_map, mem_map] at mem
  rcases mem with ⟨_, _, rfl⟩ | ⟨_, _, rfl⟩ <;> rfl

theorem moves_accept (src c time handler : Nat) (acceptor : SimulatedAcceptor) :
    Moves acted issues cancels sim (sim.accept src c time handler acceptor) := by
  unfold accept
  dsimp only
  split
  · refine .tail (.tail (.tail ?_ (.addTask _ ⟨rfl, rfl⟩)) (.addTask _ ⟨rfl, rfl⟩))
      (.addTask _ ⟨rfl, rfl⟩)
    exact .tail (.tail (.single (.establish c time _)) (.call rfl)) (.call rfl)
  · exact .single (.create _ 0)

variable {random : Nat} {requested : Bool}

theorem moves_handleRequest {src dest : Nat}
    (handled : sim.handleRequest random requested src dest = .ok after) :
    Moves acted issues cancels sim after := by
  obtain ⟨c, time, acceptor, _, _, rfl⟩ := handleRequest_ok handled
  have asked : Moves acted issues cancels sim (sim.ask c dest time acceptor) := by
    unfold ask
    split
    · exact .single (.call rfl)
    · exact .tail (.single (.addTask _ ⟨rfl, rfl⟩)) (.call rfl)
  split
  · exact asked.trans (moves_accept ..)
  · exact asked.tail (.addTask _ ⟨rfl, rfl⟩)

def actedOn (sim : Simulator) : SimulatorTask → Option Nat
  | .handleAccept dest | .handleAck dest _ => sim.getConnection dest
  | .cancelOperations conn _ | .handleSend conn | .handleRead conn =>
    some conn
  | _ => none

theorem moves_runTask {task : SimulatorTask} (ran : sim.runTask random requested task = .ok after) :
    Moves (sim.actedOn task) (∃ c, task = .handleSend c)
      (∃ dest, task = .handleRefuse dest ∨ task = .handleDisconnect dest) sim after := by
  cases task with
  | handleRequest src dest => exact moves_handleRequest ran
  | handleAccept dest =>
    cases ran
    exact moves_handleAccept dest
  | handleRefuse dest =>
    cases ran
    exact moves_handleRefuse ⟨dest, .inl rfl⟩ dest
  | handleDisconnect dest =>
    cases ran
    exact moves_handleDisconnect ⟨dest, .inr rfl⟩ dest
  | noRoute c =>
    cases ran
    exact .single (.call rfl)
  | cancelOperations c queued =>
    cases ran
    exact moves_cancelOperations c
  | handleSend c =>
    cases ran
    exact moves_handleSend ⟨c, rfl⟩ random c
  | handleRead c =>
    cases ran
    exact moves_handleRead c
  | handleMessage src dest msg =>
    cases ran
    exact moves_handleMessage random src dest msg
  | handleAck dest status =>
    cases ran
    exact moves_handleAck dest status

theorem step_task_ok (stepped : sim.step (.task random requested) = .ok after) :
    after = sim ∨ ∃ e, sim.due = some e ∧
      (sim.pop e).runTask random requested e.task = .ok after := by
  cases due : sim.due with
  | none =>
    simp only [step, due] at stepped
    exact .inl (Except.ok.inj stepped).symm
  | some e =>
    simp only [step, due] at stepped
    exact .inr ⟨e, rfl, stepped⟩

theorem step_tick_ok (stepped : sim.step .tick = .ok after) :
    after = sim ∨ sim.due = none ∧
      after = { sim with network := { sim.network with time := sim.time + 1 } } := by
  cases due : sim.due with
  | none =>
    simp only [step, due] at stepped
    exact .inr ⟨rfl, (Except.ok.inj stepped).symm⟩
  | some e =>
    simp only [step, due] at stepped
    exact .inl (Except.ok.inj stepped).symm

end Simulator

/-! ## The set-up of connections in the whole simulation -/

/-- The task of the network for which a task of the simulation stands. -/
def SimulatorTask.setup : SimulatorTask → Option SetupTask
  | .handleRequest source dest => some (.handleRequest source dest)
  | .handleAccept dest => some (.handleAccept dest)
  | .handleRefuse dest => some (.handleRefuse dest)
  | .handleDisconnect dest => some (.handleDisconnect dest)
  | .noRoute conn => some (.noRoute conn)
  | .cancelOperations conn _ => some (.clearQueues conn)
  | _ => none

namespace Simulator

variable {sim : Simulator} {c time : Nat} {task : SimulatorTask} {setupTask : SetupTask}

/-- The network of the simulation, with the tasks that set up connections. -/
def setup (sim : Simulator) : SimulatedNetwork :=
  { sim.network with
    tasks := sim.tasks.filterMap fun entry => entry.task.setup.map (entry.time, ·) }

theorem setup_addTask (stands : task.setup = some setupTask) :
    (sim.addTask time task).setup = sim.setup.addTask time setupTask := by
  simp only [setup, addTask, filterMap_append, filterMap_cons, stands, Option.map_some]
  rfl

theorem setup_addEvent (stands : task.setup = some setupTask) :
    (sim.addEvent c time task).setup = sim.setup.addTask time setupTask := by
  simp only [setup, addEvent, filterMap_append, filterMap_cons, stands, Option.map_some]
  rfl

theorem setup_addTask_none (other : task.setup = none) :
    (sim.addTask time task).setup = sim.setup := by
  simp [setup, addTask, other]

theorem setup_cancel : (sim.scheduleCancellation c).setup =
    sim.setup.addTask (sim.time + 1) (.clearQueues c) :=
  setup_addTask rfl

theorem setup_call (event : SimulatorEvent) : (sim.call event).setup = sim.setup := rfl

theorem setup_setRemote (remote : Nat) :
    { sim with network := sim.network.setRemote c remote }.setup = sim.setup.setRemote c remote :=
  rfl

theorem setup_forget :
    { sim with network := sim.network.forget c }.setup = sim.setup.forget c :=
  rfl

theorem setup_connections : sim.setup.connections = sim.network.connections := rfl

theorem setup_connect (c random : Nat) :
    (sim.connect c random).setup = sim.setup.connect c random := by
  unfold connect
  split
  next nowhere => exact (if_pos nowhere).symm
  next leads => exact (setup_addEvent rfl).trans (if_neg leads).symm

theorem setup_disconnect (c random : Nat) :
    (sim.disconnect c random).setup = sim.setup.disconnect c random := by
  unfold disconnect
  dsimp only
  split
  next closed => exact (if_pos closed).symm
  next opened =>
    rw [setup_setRemote, setup_addEvent rfl, setup_call, setup_cancel]
    exact (if_neg opened).symm

theorem setup_accept (src time handler : Nat) (acceptor : SimulatedAcceptor) :
    (sim.accept src c time handler acceptor).setup = sim.setup.accept src c time acceptor := by
  unfold accept
  dsimp only
  split
  next parsed =>
    rw [setup_addTask rfl, setup_addTask_none rfl, setup_addTask_none rfl, setup_call, setup_call]
    exact (if_pos parsed).symm
  next parsed => exact (if_neg parsed).symm

theorem setup_ask (dest time : Nat) (acceptor : SimulatedAcceptor) :
    (sim.ask c dest time acceptor).setup =
      if acceptor.accepting then sim.setup else sim.setup.addTask time (.noRoute c) := by
  unfold ask
  dsimp only
  rw [setup_call]
  split
  · rfl
  · exact setup_addTask rfl

theorem setup_handleRequest (random : Nat) (requested : Bool) (src dest : Nat) :
    (sim.handleRequest random requested src dest).map setup =
      sim.setup.handleRequest random requested src dest := by
  unfold handleRequest SimulatedNetwork.handleRequest
  rw [getConnection, setup_connections]
  cases sim.network.connections.lookup src with
  | none => rfl
  | some c =>
    dsimp only
    rw [show sim.setup.acceptors = sim.network.acceptors from rfl]
    cases sim.network.acceptors dest with
    | none => rfl
    | some acceptor =>
      cases requested with
      | false =>
        refine congrArg Except.ok ((setup_addTask rfl).trans ?_)
        rw [setup_ask]
        rfl
      | true =>
        refine congrArg Except.ok ((setup_accept ..).trans ?_)
        rw [setup_ask]
        rfl

/-- The functions that set up connections do in the whole simulation what they
do in the network alone. -/
theorem setup_runTask (random : Nat) (requested : Bool) (stands : task.setup = some setupTask) :
    (sim.runTask random requested task).map setup =
      sim.setup.runTask random requested setupTask := by
  cases task with
  | handleSend | handleRead | handleMessage | handleAck => cases stands
  | noRoute | cancelOperations =>
    cases stands
    rfl
  | handleAccept dest =>
    cases stands
    refine congrArg Except.ok ?_
    unfold handleAccept SimulatedNetwork.handleAccept
    rw [getConnection, setup_connections]
    cases sim.network.connections.lookup dest with
    | none => rfl
    | some c => exact (setup_addTask_none rfl).trans (setup_addTask_none rfl)
  | handleRefuse dest =>
    cases stands
    refine congrArg Except.ok ?_
    unfold handleRefuse SimulatedNetwork.handleRefuse
    rw [getConnection, setup_connections]
    cases sim.network.connections.lookup dest with
    | none => rfl
    | some c =>
      dsimp only
      rw [setup_call, setup_cancel]
      rfl
  | handleDisconnect dest =>
    cases stands
    refine congrArg Except.ok ?_
    unfold handleDisconnect SimulatedNetwork.handleDisconnect
    rw [getConnection, setup_connections]
    cases sim.network.connections.lookup dest with
    | none => rfl
    | some c =>
      dsimp only
      split
      next connecting => exact (if_pos connecting).symm
      next opened =>
        rw [setup_forget, setup_cancel]
        exact (if_neg opened).symm
  | handleRequest src dest =>
    cases stands
    exact setup_handleRequest ..

end Simulator

end AutomatonCore.Network
