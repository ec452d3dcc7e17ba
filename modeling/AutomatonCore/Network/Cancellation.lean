import AutomatonCore.Network.SimulatorFrame
import AutomatonCore.Network.TableConsistency

/-!
# Cancelling the operations of a connection
-/

namespace AutomatonCore.Network

open Io Library List

/-- The queues recorded with the cancellations of a connection that are
scheduled. -/
def cancellationsOf (conn : Nat) (tasks : List Scheduled) : List Queues :=
  tasks.filterMap fun entry =>
    match entry.task with
    | .cancelOperations other queued =>
      if other = conn then some queued else none
    | _ => none

def Queues.aborted (conn : Nat) (queued : Queues) : List SimulatorEvent :=
  (queued.sending.map fun packet =>
    .messageSent conn packet.id (.aborted (text "Operation cancelled!"))) ++
    queued.reading.map fun _ =>
      .connectionError conn (.aborted (text "Operation read cancelled!"))

theorem cancellationsOf_append (c : Nat) (first second : List Scheduled) :
    cancellationsOf c (first ++ second) = cancellationsOf c first ++ cancellationsOf c second :=
  filterMap_append

theorem cancellationsOf_other {e : Scheduled} (other : e.task.isCancellation = false) (c : Nat) :
    cancellationsOf c [e] = [] := by
  unfold cancellationsOf
  rw [filterMap_eq_nil_iff, forall_mem_singleton]
  cases shape : e.task with
  | cancelOperations _ _ =>
    rw [shape] at other
    cases other
  | _ => rfl

namespace SimulatedNetwork

variable {net : SimulatedNetwork} {c : Nat}

def Allocated (net : SimulatedNetwork) : Prop :=
  ∀ id conn, net.listing id = some conn → conn < net.created

theorem Allocated.addConnection (allocated : net.Allocated) (created : c < net.created) :
    (net.addConnection c).Allocated := by
  intro id other listed
  rw [listing_addConnection] at listed
  by_cases same : id = net.nextId
  · rw [same, Function.update_self] at listed
    cases listed
    exact created
  · rw [Function.update_of_ne same] at listed
    exact allocated id other (listing_of_lookup_eraseOther listed)

theorem Allocated.forget (allocated : net.Allocated) (c : Nat) : (net.forget c).Allocated :=
  fun id other listed => allocated id other (listing_of_lookup_erase listed).2

theorem Allocated.create (allocated : net.Allocated)
    (params : ConnectionParams) (remoteAddress : Nat) :
    (net.create params remoteAddress).Allocated :=
  fun id other listed => Nat.lt_succ_of_lt (allocated id other listed)

theorem SameTable.allocated {before after : SimulatedNetwork}
    (same : SameTable before after) (allocated : before.Allocated) : after.Allocated := by
  intro id other listed
  rw [SimulatedNetwork.listing, same.connections] at listed
  rw [same.created]
  exact allocated id other listed

theorem Allocated.establish (allocated : net.Allocated) (c time bandwidth : Nat) :
    (net.establish c time bandwidth).Allocated := by
  unfold SimulatedNetwork.establish
  refine SameTable.allocated
    ((((sameTable_setBandwidth c _).trans (sameTable_setRemote c _)).trans
      (sameTable_setState net.created _)).trans
      ((sameTable_setRemote net.created _).trans (sameTable_setTimeStamp net.created _))) ?_
  exact (allocated.create _ 0).addConnection (Nat.lt_succ_self _)

end SimulatedNetwork

namespace Simulator

variable {sim before middle after : Simulator} {acted : Option Nat} {issues : Prop}

/-- The operations of all connections but one are left alone, no connection
but that one is opened, and no cancellation is scheduled. -/
structure ActsOn (acted : Option Nat) (before after : Simulator) : Prop where
  cancellations :
    ∀ conn, cancellationsOf conn after.tasks = cancellationsOf conn before.tasks
  others : ∀ conn, acted ≠ some conn → conn < before.network.created →
      (after.core conn).queues = (before.core conn).queues ∧
      ((after.core conn).state = .connected → (before.core conn).state = .connected)
  created : before.network.created ≤ after.network.created
  allocated : before.network.Allocated → after.network.Allocated

namespace ActsOn

theorem refl (acted : Option Nat) (sim : Simulator) : ActsOn acted sim sim :=
  ⟨fun _ => rfl, fun _ _ _ => ⟨rfl, id⟩, le_rfl, id⟩

theorem trans (first : ActsOn acted before middle)
    (second : ActsOn acted middle after) : ActsOn acted before after where
  cancellations c := (second.cancellations c).trans (first.cancellations c)
  others c other created := by
    obtain ⟨queues, s⟩ := first.others c other created
    obtain ⟨laterQueues, laterState⟩ :=
      second.others c other (lt_of_lt_of_le created first.created)
    exact ⟨laterQueues.trans queues, s ∘ laterState⟩
  created := le_trans first.created second.created
  allocated := second.allocated ∘ first.allocated

end ActsOn

variable {e : Scheduled} {dest : Nat}

theorem actsOn_schedule (other : e.task.isCancellation = false) (trace : List SimulatorEvent) :
    ActsOn acted sim { sim with tasks := sim.tasks ++ [e], trace := trace } := by
  refine { ActsOn.refl acted sim with cancellations := fun c => ?_ }
  rw [cancellationsOf_append, cancellationsOf_other other, append_nil]

theorem actsOn_sameCores {net : SimulatedNetwork}
    (same : ∀ c, c < sim.network.created → net.core c = sim.network.core c)
    (created : sim.network.created ≤ net.created)
    (allocated : sim.network.Allocated → net.Allocated) :
    ActsOn acted sim { sim with network := net } := by
  refine ⟨fun _ => rfl, ?_, created, allocated⟩
  intro c _ existing
  have same : Simulator.core { sim with network := net } c = sim.core c := same c existing
  rw [same]
  exact ⟨rfl, id⟩

theorem actsOn_put {c : Nat} {object : ConnectionObject} (allowed :
      acted = some c ∨ object.queues = (sim.object c).queues ∧
        (object.connectionState = .connected → (sim.object c).connectionState = .connected)) :
    ActsOn acted sim (sim.put c object) := by
  refine ⟨fun _ => rfl, ?_, le_rfl, id⟩
  intro other notActed _
  change ((sim.network.put c object).core other).queues = _ ∧
    (((sim.network.put c object).core other).state = _ → _)
  rw [SimulatedNetwork.core_put]
  split
  next same =>
      subst same
      rcases allowed with own | kept
      · exact absurd own notActed
      · exact kept
  · exact ⟨rfl, id⟩

theorem Move.actsOn (move : Move acted issues False sim after) : ActsOn acted sim after := by
  cases move with
  | addTask time plain => exact actsOn_schedule plain.2 _
  | addEvent _ c time plain => exact actsOn_schedule plain.2 _
  | scheduleCancellation allowed => exact allowed.elim
  | calls => exact ⟨fun _ => rfl, fun _ _ _ => ⟨rfl, id⟩, le_rfl, id⟩
  | put _ allowed => exact actsOn_put allowed
  | setTimeStamp c time => exact actsOn_put (.inr ⟨rfl, id⟩)
  | forget c =>
    exact actsOn_sameCores (fun _ _ => SimulatedNetwork.core_forget) (le_rfl) (·.forget c)
  | addConnection created =>
    exact actsOn_sameCores (fun _ _ => SimulatedNetwork.core_addConnection)
      (le_rfl) (·.addConnection created)
  | establish c time bandwidth =>
    refine actsOn_sameCores ?_ ?_ (·.establish c time _)
    · exact fun _ existing => SimulatedNetwork.core_establish _ _ existing
    · exact Nat.le_succ _
  | create params remoteAddress =>
    exact actsOn_sameCores (fun _ existing => SimulatedNetwork.core_create _ _ existing)
      (Nat.le_succ _) (·.create _ _)

theorem actsOn_of_moves (moves : Moves acted issues False sim after) : ActsOn acted sim after := by
  induction moves with
  | refl => exact .refl acted sim
  | tail _ move ih => exact ih.trans move.actsOn

theorem actsOn_connect {c : Nat} (created : c < sim.network.created) (random : Nat) :
    ActsOn none sim (sim.connect c random) := by
  unfold connect
  split
  · exact .refl none sim
  · have connecting : Move none False False sim (sim.setState c .connecting) :=
      .put rfl (.inr ⟨rfl, ConnectionState.noConfusion⟩)
    refine ActsOn.trans ?_ (actsOn_schedule rfl _)
    exact actsOn_of_moves
      (.tail (.tail (.single connecting) (.addConnection created)) (.setTimeStamp c _))

/-! ## The invariant -/

/-- The one scheduled cancellation of a connection will find the queues that
were recorded with it, and the connection is closed until then. -/
structure Awaits (conn : Nat) (sim : Simulator) : Prop where
  recorded : cancellationsOf conn sim.tasks = [(sim.core conn).queues]
  closed : (sim.core conn).state ≠ .connected
  created : conn < sim.network.created

/-- Whatever is to be aborted is what was queued at the disconnect. -/
structure CancelsExactly (sim : Simulator) : Prop where
  allocated : sim.network.Allocated
  awaits :
    ∀ conn, cancellationsOf conn sim.tasks = [] ∨ Awaits conn sim

theorem CancelsExactly.actsOn (exact : CancelsExactly before) (acts : ActsOn acted before after)
    (calm : ∀ c, acted = some c → cancellationsOf c before.tasks = []) : CancelsExactly after := by
  refine ⟨acts.allocated exact.allocated, fun c => ?_⟩
  rcases exact.awaits c with none | ⟨recorded, closed, created⟩
  · exact .inl ((acts.cancellations c).trans none)
  · have other : acted ≠ some c := by
      intro own
      rw [calm c own] at recorded
      cases recorded
    obtain ⟨queues, s⟩ := acts.others c other created
    refine .inr ⟨?_, closed ∘ s, lt_of_lt_of_le created acts.created⟩
    rw [acts.cancellations, queues, recorded]

theorem CancelsExactly.frame (exact : CancelsExactly before)
    (acts : ActsOn none before after) : CancelsExactly after :=
  exact.actsOn acts fun _ own => nomatch own

theorem CancelsExactly.moves (exact : CancelsExactly before)
    (moves : Moves none issues False before after) : CancelsExactly after :=
  exact.frame (actsOn_of_moves moves)

theorem CancelsExactly.schedule (exact : CancelsExactly sim)
    {c : Nat} (none : cancellationsOf c sim.tasks = []) (closed : (sim.core c).state ≠ .connected)
    (created : c < sim.network.created) : CancelsExactly (sim.scheduleCancellation c) := by
  refine ⟨exact.allocated, fun other => ?_⟩
  have added : cancellationsOf other (sim.scheduleCancellation c).tasks =
        cancellationsOf other sim.tasks ++
          if c = other then [(sim.core c).queues]
          else [] := by
    refine (cancellationsOf_append other sim.tasks _).trans ?_
    congr 1
    unfold cancellationsOf
    by_cases same : c = other
    · simp [same]
      rfl
    · simp [same]
  by_cases same : c = other
  · subst same
    rw [none, if_pos rfl] at added
    exact .inr ⟨added, closed, created⟩
  · rw [if_neg same, append_nil] at added
    rcases exact.awaits other with absent | ⟨recorded, shut, existing⟩
    · exact .inl (added.trans absent)
    · exact .inr ⟨added.trans recorded, shut, existing⟩

theorem CancelsExactly.none_of_connected (exact : CancelsExactly sim)
    {c : Nat} (connected : (sim.object c).connectionState = .connected) :
    cancellationsOf c sim.tasks = [] :=
  (exact.awaits c).resolve_right fun awaits => awaits.closed connected

theorem CancelsExactly.close (exact : CancelsExactly sim) {c : Nat}
    (unscheduled : cancellationsOf c sim.tasks = []) (created : c < sim.network.created)
    (moves : Moves none False False (sim.setState c .disconnected) after)
    (later : Moves none issues False (after.scheduleCancellation c) middle) :
    CancelsExactly middle := by
  have closing : Move none False False sim (sim.setState c .disconnected) := .close c
  have closed := (actsOn_of_moves moves).others c (by simp) created
  have acts := closing.actsOn.trans (actsOn_of_moves moves)
  refine ((exact.frame acts).schedule ?_ ?_ ?_).moves later
  · exact (acts.cancellations c).trans unscheduled
  · intro connected
    have before := closed.2 connected
    change ((sim.network.setState c .disconnected).core c).state = .connected at before
    simp at before
  · exact lt_of_lt_of_le created acts.created

theorem CancelsExactly.disconnect (exact : CancelsExactly sim)
    {c : Nat} (created : c < sim.network.created) (random : Nat) :
    CancelsExactly (sim.disconnect c random) := by
  unfold Simulator.disconnect
  dsimp only
  split
  · exact exact
  next connected =>
      have unscheduled := exact.none_of_connected (not_not.mp connected)
      exact exact.close unscheduled created (.tail (.single (.setTimeStamp c _)) (.forget c))
        (.tail (.tail (.single (.call rfl)) (.addEvent trivial _ _ ⟨rfl, rfl⟩)) (.setRemote c 0))

theorem CancelsExactly.handleRefuse (exact : CancelsExactly sim)
    (calm : ∀ c, sim.getConnection dest = some c → cancellationsOf c sim.tasks = []) :
    CancelsExactly (sim.handleRefuse dest) := by
  unfold Simulator.handleRefuse
  cases listed : sim.getConnection dest with
  | none => exact exact
  | some c =>
    exact exact.close (calm _ listed) (exact.allocated dest c listed) .refl
      (.single (@Move.call _ none False False _ rfl))

theorem CancelsExactly.handleDisconnect (exact : CancelsExactly sim)
    (calm : ∀ c, sim.getConnection dest = some c → cancellationsOf c sim.tasks = []) :
    CancelsExactly (sim.handleDisconnect dest) := by
  unfold Simulator.handleDisconnect
  cases listed : sim.getConnection dest with
  | none => exact exact
  | some c =>
    dsimp only
    split
    · exact exact
    · exact exact.close (calm _ listed) (exact.allocated dest c listed)
        (.tail (.single (.call rfl)) (.setRemote c 0)) (.single (@Move.forget none False False _ c))

theorem mem_cancellationsOf {tasks : List Scheduled}
    (mem : e ∈ tasks) {c : Nat} {queued : Queues} (cancels : e.task = .cancelOperations c queued) :
    queued ∈ cancellationsOf c tasks := by
  refine mem_filterMap.mpr ⟨e, mem, ?_⟩
  rw [cancels]
  exact if_pos rfl

theorem CancelsExactly.pop (exact : CancelsExactly sim) (due : sim.due = some e) :
    CancelsExactly (sim.pop e) ∧ (∀ c,
      cancellationsOf c sim.tasks = [] → cancellationsOf c (sim.pop e).tasks = []) ∧
      ∀ c queued, e.task = .cancelOperations c queued →
      cancellationsOf c (sim.pop e).tasks = [] := by
  obtain ⟨_, earlier, later, split, erased, _⟩ := due_split due
  have whole (c : Nat) : cancellationsOf c sim.tasks =
        cancellationsOf c earlier ++ (cancellationsOf c [e] ++ cancellationsOf c later) := by
    rw [split, ← singleton_append, cancellationsOf_append, cancellationsOf_append]
  have rest (c : Nat) : cancellationsOf c (sim.pop e).tasks =
        cancellationsOf c earlier ++ cancellationsOf c later := by
    change cancellationsOf c (sim.tasks.erase e) = _
    rw [erased, cancellationsOf_append]
  -- a connection has one cancellation, which is this one or stays
  have either (c : Nat) :
      cancellationsOf c (sim.pop e).tasks = [] ∨ cancellationsOf c [e] = [] := by
    have shape := whole c
    rw [rest]
    rcases exact.awaits c with none | ⟨recorded, _, _⟩
    · rw [none] at shape
      simp at shape
      exact .inr shape.2.1
    · rw [recorded] at shape
      cases single : cancellationsOf c [e] with
      | nil => exact .inr rfl
      | cons queued others =>
        rw [single] at shape
        have lengths := congrArg List.length shape
        simp only [length_append, length_cons, length_nil] at lengths
        refine .inl (append_eq_nil_iff.mpr ⟨?_, ?_⟩)
        · exact length_eq_zero_iff.mp (by omega)
        · exact length_eq_zero_iff.mp (by omega)
  refine ⟨⟨exact.allocated, fun c => ?_⟩, ?_, ?_⟩
  · rcases either c with gone | other
    · exact .inl gone
    · have same : cancellationsOf c (sim.pop e).tasks = cancellationsOf c sim.tasks := by
        rw [rest, whole, other]
        rfl
      rcases exact.awaits c with none | ⟨recorded, shut, known⟩
      · exact .inl (same.trans none)
      · exact .inr ⟨same.trans recorded, shut, known⟩
  · intro c none
    rw [whole] at none
    rw [rest]
    simp at none ⊢
    exact ⟨none.1, none.2.2⟩
  · intro c queued cancels
    refine (either c).resolve_right fun none => ?_
    have mem := mem_cancellationsOf (mem_singleton_self e) cancels
    rw [none] at mem
    cases mem

def target (sim : Simulator) : SimulatorTask → Option Nat
  | .handleAccept destination | .handleRefuse destination
  | .handleDisconnect destination | .handleAck destination _ => sim.getConnection destination
  | _ => none

/-- The connection that an action gives an operation to, opens, closes or
takes an operation from. -/
def disturbed (sim : Simulator) : SimulatorAction → Option Nat
  | .asyncSend conn message _ =>
    if message.length < 1 ∨ (sim.object conn).connectionState = .disconnected then none
    else some conn
  | .asyncRead conn bufferSize numBytes _ =>
    if numBytes > bufferSize then none else some conn
  | .task _ _ => sim.due.bind fun entry => sim.target entry.task
  | _ => none

/-- No action disturbs a connection whose operations are going to be
cancelled. -/
def Calm (sim : Simulator) (action : SimulatorAction) : Prop :=
  ∀ conn, sim.disturbed action = some conn →
    cancellationsOf conn sim.tasks = []

instance (sim : Simulator) (action : SimulatorAction) : Decidable (sim.Calm action) :=
  match disturbed : sim.disturbed action with
  | none => isTrue fun _ other => nomatch disturbed.symm.trans other
  | some conn =>
    decidable_of_iff (cancellationsOf conn sim.tasks = []) (by simp [Calm, disturbed])

theorem CancelsExactly.runTask (exact : CancelsExactly sim)
    {random : Nat} {requested : Bool} {task : SimulatorTask}
    (calm : ∀ c, sim.target task = some c → cancellationsOf c sim.tasks = [])
    (cancelled : ∀ c queued, task = .cancelOperations c queued → cancellationsOf c sim.tasks = [])
    (ran : sim.runTask random requested task = .ok after) : CancelsExactly after := by
  have moves := moves_runTask ran
  have acts (other : ¬ ∃ dest, task = .handleRefuse dest ∨ task = .handleDisconnect dest) :
      ActsOn (sim.actedOn task) sim after := by
    rw [eq_false other] at moves
    exact actsOn_of_moves moves
  cases task with
  | handleRefuse dest =>
    cases ran
    exact exact.handleRefuse calm
  | handleDisconnect dest =>
    cases ran
    exact exact.handleDisconnect calm
  | handleRequest | handleAccept | noRoute | handleMessage | handleAck =>
    exact exact.actsOn (acts (by simp)) calm
  | cancelOperations c queued =>
    refine exact.actsOn (acts (by simp)) ?_
    rintro _ ⟨rfl⟩
    exact cancelled c queued rfl
  | handleSend c | handleRead c =>
    by_cases connected : (sim.object c).connectionState = .connected
    · refine exact.actsOn (acts (by simp)) ?_
      rintro _ ⟨rfl⟩
      exact exact.none_of_connected connected
    · cases ran
      first | rw [Simulator.handleSend] | rw [Simulator.handleRead]
      rw [if_pos connected]
      exact exact

theorem asyncSend_refused {c : Nat} {msg : Bytes}
    (refused : msg.length < 1 ∨ (sim.object c).connectionState = .disconnected) (messageId : Nat) :
    sim.asyncSend c msg messageId = sim := by
  unfold asyncSend
  dsimp only
  rcases refused with empty | closed
  · rw [if_pos empty]
  · rw [if_pos closed, ite_self]

/-- The step lemma. -/
theorem CancelsExactly.step (exact : CancelsExactly sim)
    {action : SimulatorAction} (calm : sim.Calm action) (stepped : sim.step action = .ok after) :
    CancelsExactly after := by
  cases action with
  | create params remoteAddress =>
    cases stepped
    exact exact.moves (.single (@Move.create none False False _ params remoteAddress))
  | connect c random =>
    rcases onCreated_ok stepped with ⟨created, rfl⟩ | rfl
    · exact exact.frame (actsOn_connect created random)
    · exact exact
  | disconnect c random =>
    rcases onCreated_ok stepped with ⟨created, rfl⟩ | rfl
    · exact exact.disconnect created random
    · exact exact
  | asyncSend c msg messageId =>
    rcases onCreated_ok stepped with ⟨_, rfl⟩ | rfl
    · by_cases refused : msg.length < 1 ∨ (sim.object c).connectionState = .disconnected
      · rw [asyncSend_refused refused]
        exact exact
      · have moves := @moves_asyncSend sim False False c msg messageId
        refine exact.actsOn (actsOn_of_moves moves) fun other own => calm other ?_
        rw [disturbed, if_neg refused]
        exact own
    · exact exact
  | asyncRead c bufferSize numBytes readId =>
    rcases onCreated_ok stepped with ⟨_, rfl⟩ | rfl
    · by_cases refused : numBytes > bufferSize
      · rw [Simulator.asyncRead]
        rw [if_pos refused]
        exact exact
      · have moves := @moves_asyncRead sim False False c bufferSize numBytes readId
        refine exact.actsOn (actsOn_of_moves moves) fun other own => calm other ?_
        rw [disturbed, if_neg refused]
        exact own
    · exact exact
  | setAcceptor addr acceptor handler =>
    cases stepped
    exact exact.frame ⟨fun _ => rfl, fun _ _ _ => ⟨rfl, id⟩, le_rfl, id⟩
  | task random requested =>
    rcases step_task_ok stepped with rfl | ⟨e, due, ran⟩
    · exact exact
    · obtain ⟨popped, kept, gone⟩ := exact.pop due
      refine popped.runTask ?_ gone ran
      intro c own
      refine kept c (calm c ?_)
      rw [disturbed, due]
      exact own
  | tick =>
    rcases step_tick_ok stepped with rfl | ⟨_, rfl⟩
    · exact exact
    · exact exact.frame ⟨fun _ => rfl, fun _ _ _ => ⟨rfl, id⟩, le_rfl, id⟩

theorem fresh_cancelsExactly : CancelsExactly fresh where
  allocated := by
    intro id c listed
    cases listed
  awaits _ := .inl rfl

/-- In every run that leaves a connection alone while its cancellation is
scheduled, the cancellation aborts the operations that were queued when the
disconnect took effect, and no others. -/
theorem cancellation_exact (actions : List SimulatorAction)
    (calm : Guarded step Calm fresh actions) (final : Simulator)
    (ran : fresh.run actions = .ok final) (e : Scheduled)
    (due : final.due = some e) (c : Nat) (queued : Queues)
    (cancels : e.task = .cancelOperations c queued) (random : Nat) (requested : Bool) :
    (final.object c).queues = queued ∧ (final.step (.task random requested)).map Simulator.trace =
        .ok ((final.pop e).trace ++ queued.aborted c) := by
  have exact := calm.reached (fun _ _ _ held => held.step) fresh_cancelsExactly ran
  have mem := mem_cancellationsOf (mem_of_find?_eq_some due) cancels
  have found : (final.object c).queues = queued := by
    rcases exact.awaits c with none | ⟨recorded, _, _⟩
    · rw [none] at mem
      cases mem
    · rw [recorded] at mem
      exact (mem_singleton.mp mem).symm
  refine ⟨found, ?_⟩
  rw [Simulator.step, due]
  dsimp only
  rw [cancels]
  refine congrArg Except.ok ?_
  rw [← found]
  exact append_assoc ..

theorem cancellation_exact_pending_read :
    ∃ final e, fresh.run [.create ⟨1, 1, 10⟩ 1, .setAcceptor 1 (some ⟨10, true⟩) 0,
            .connect 0 0, .tick, .tick, .task 0 true, .tick, .task 0 true,
            .task 0 true, .tick, .task 0 true, .asyncRead 0 8 0 7,
            .disconnect 0 0, .connect 0 0, .tick, .task 0 true, .task 0 true] = .ok final ∧
        final.due = some e ∧ e.task = .cancelOperations 0 ⟨[], [⟨[], 8, 0, 7⟩]⟩ ∧
          (final.object 0).queues = ⟨[], [⟨[], 8, 0, 7⟩]⟩ := by
  have shown : (fresh.run
          [.create ⟨1, 1, 10⟩ 1, .setAcceptor 1 (some ⟨10, true⟩) 0,
            .connect 0 0, .tick, .tick, .task 0 true, .tick, .task 0 true,
            .task 0 true, .tick, .task 0 true, .asyncRead 0 8 0 7,
            .disconnect 0 0, .connect 0 0, .tick, .task 0 true, .task 0 true]).map
        (fun final => final.due.map Scheduled.task) =
        .ok (some (.cancelOperations 0 ⟨[], [⟨[], 8, 0, 7⟩]⟩)) := by
    decide +kernel
  obtain ⟨final, ran, task⟩ := reached_of_map shown
  obtain ⟨e, due, cancels⟩ := Option.map_eq_some_iff.mp task
  refine ⟨final, e, ran, due, cancels, ?_⟩
  exact (cancellation_exact _ (by decide +kernel) final ran e due 0 _ cancels 0 true).1

/-- The test of the simulation: a connection is closed and opened again, and
reads at once.  The read is aborted because of the disconnect before it. -/
theorem cancellation_after_reconnect :
    (fresh.run [.create ⟨1, 1, 10⟩ 1, .setAcceptor 1 (some ⟨10, true⟩) 0,
          .connect 0 0, .tick, .tick, .task 0 true, .tick, .task 0 true,
          .task 0 true, .tick, .task 0 true, .disconnect 0 0,
          .connect 0 0, .asyncRead 0 8 0 7, .tick, .task 0 true, .task 0 true, .task 0 true]).map
      (fun final =>
        ((final.object 0).connectionState, (final.object 0).reading, final.trace.getLast?)) =
      .ok (.connecting, [], some
            (.connectionError 0 (.aborted (text "Operation read cancelled!")))) := by
  decide +kernel

end Simulator

end AutomatonCore.Network
