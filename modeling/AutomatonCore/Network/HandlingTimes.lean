import AutomatonCore.Library.GuardedRun
import AutomatonCore.Network.SimulatorFrame

/-!
# The order of the events of one endpoint

A connection keeps a time stamp so that an event with a smaller lag does not
overtake an earlier one.  The handling time is computed in 32 bits.
-/

namespace AutomatonCore.Network

open Library List

def issuedBy (conn : Nat) (trace : List SimulatorEvent) : List Nat :=
  trace.filterMap fun
    | .issued other time => if other = conn then some time else none
    | _ => none

def processedBy (conn : Nat) (trace : List SimulatorEvent) : List Nat :=
  trace.filterMap fun
    | .processed other time => if other = conn then some time else none
    | _ => none

/-- The events of a connection that are in the queue: the time at which they
are run, and the one that was computed. -/
def pendingOf (conn : Nat) (tasks : List Scheduled) : List (Nat × Nat) :=
  tasks.filterMap fun entry =>
    match entry.issued with
    | none => none
    | some (other, time) =>
      if other = conn then some (entry.time, time) else none

theorem mem_pendingOf {c : Nat} {tasks : List Scheduled} {event : Nat × Nat} :
    event ∈ pendingOf c tasks ↔ ∃ e ∈ tasks, e.issued = some (c, event.2) ∧ e.time = event.1 := by
  unfold pendingOf
  rw [mem_filterMap]
  refine exists_congr fun e => and_congr_right fun _ => ?_
  obtain ⟨time, computed⟩ := event
  cases issued : e.issued with
  | none => simp
  | some issue =>
    obtain ⟨other, stamp⟩ := issue
    by_cases same : other = c
    · simp [same, and_comm]
    · simp [same]

namespace Simulator

variable {c : Nat} {sim before middle after : Simulator}

/-- The events of the connection are left alone. -/
structure Quiet (conn : Nat) (before after : Simulator) : Prop where
  issued : issuedBy conn after.trace = issuedBy conn before.trace
  processed : processedBy conn after.trace = processedBy conn before.trace
  pending : pendingOf conn after.tasks = pendingOf conn before.tasks
  stamp : (before.core conn).stamp ≤ (after.core conn).stamp
  time : after.time = before.time
  created : before.network.created ≤ after.network.created

namespace Quiet

theorem refl (c : Nat) (sim : Simulator) : Quiet c sim sim :=
  ⟨rfl, rfl, rfl, le_rfl, rfl, le_rfl⟩

theorem trans (first : Quiet c before middle) (second : Quiet c middle after) :
    Quiet c before after where
  issued := second.issued.trans first.issued
  processed := second.processed.trans first.processed
  pending := second.pending.trans first.pending
  stamp := le_trans first.stamp second.stamp
  time := second.time.trans first.time
  created := le_trans first.created second.created

end Quiet

variable {random : Nat} {acted : Option Nat} {cancels : Prop}

theorem silent_calls {events : List SimulatorEvent} (handlers : ∀ event ∈ events, event.isCall) :
    issuedBy c events = [] ∧ processedBy c events = [] := by
  unfold issuedBy processedBy
  rw [filterMap_eq_nil_iff, filterMap_eq_nil_iff]
  constructor
  · intro event mem
    have isCall := handlers event mem
    cases event <;> first | rfl | cases isCall
  · intro event mem
    have isCall := handlers event mem
    cases event <;> first | rfl | cases isCall

theorem Quiet.network {net : SimulatedNetwork}
    (stamp : (sim.core c).stamp ≤ (net.core c).stamp) (time : net.time = sim.time)
    (created : sim.network.created ≤ net.created) :
    Quiet c sim { sim with network := net } :=
  ⟨rfl, rfl, rfl, stamp, time, created⟩

theorem Move.quiet (move : Move acted False cancels sim after)
    (created : c < sim.network.created) : Quiet c sim after := by
  cases move with
  | addTask time plain =>
    refine { Quiet.refl c sim with pending := ?_ }
    simp [Simulator.addTask, pendingOf]
  | addEvent allowed => exact allowed.elim
  | scheduleCancellation _ other =>
    refine { Quiet.refl c sim with pending := ?_ }
    simp [Simulator.scheduleCancellation, Simulator.addTask, pendingOf]
  | calls handlers =>
    obtain ⟨issued, processed⟩ := silent_calls (c := c) handlers
    refine { Quiet.refl c sim with issued := ?_, processed := ?_ }
    · rw [← append_nil (issuedBy c sim.trace), ← issued]
      exact filterMap_append
    · rw [← append_nil (processedBy c sim.trace), ← processed]
      exact filterMap_append
  | @put other object stamp allowed =>
    refine Quiet.network ?_ rfl (le_rfl)
    rw [SimulatedNetwork.core_put]
    split
    next equal =>
        subst equal
        exact le_of_eq stamp.symm
    · exact le_rfl
  | setTimeStamp other time =>
    refine Quiet.network ?_ rfl (le_rfl)
    rw [SimulatedNetwork.core_setTimeStamp]
    split
    next equal =>
        subst equal
        change (sim.core c).stamp ≤
          if time > (sim.core c).stamp then time else (sim.core c).stamp
        split <;> omega
    · exact le_rfl
  | forget other =>
    have same := congrArg Core.stamp (@SimulatedNetwork.core_forget sim.network other c)
    exact Quiet.network (le_of_eq same.symm) rfl (le_rfl)
  | @addConnection other _ =>
    have same := congrArg Core.stamp (@SimulatedNetwork.core_addConnection sim.network other c)
    exact Quiet.network (le_of_eq same.symm) rfl (le_rfl)
  | establish other time bandwidth =>
    refine Quiet.network ?_ (SimulatedNetwork.establish_time ..) ?_
    · rw [SimulatedNetwork.core_establish _ _ created]
      exact le_rfl
    · exact Nat.le_succ _
  | create params remoteAddress =>
    refine Quiet.network ?_ rfl (Nat.le_succ _)
    rw [SimulatedNetwork.core_create _ _ created]
    exact le_rfl

theorem quiet_of_moves (created : c < sim.network.created)
    (moves : Moves acted False cancels sim after) : Quiet c sim after := by
  induction moves with
  | refl => exact .refl c sim
  | tail _ move ih => exact ih.trans (move.quiet (lt_of_lt_of_le created ih.created))

/-! ## The invariant -/

/-- The handling times of the events increase, the processed ones are the
first of them, and the others are in the queue in their order. -/
structure Ordered (conn : Nat) (sim : Simulator) : Prop where
  created : conn < sim.network.created
  increasing : (issuedBy conn sim.trace).Pairwise (· < ·)
  stamped : ∀ time ∈ issuedBy conn sim.trace, time ≤ (sim.core conn).stamp
  account : processedBy conn sim.trace ++
        (pendingOf conn sim.tasks).map Prod.snd = issuedBy conn sim.trace
  sorted : (pendingOf conn sim.tasks).Pairwise fun earlier later => earlier.1 ≤ later.1
  latest : ∀ event ∈ pendingOf conn sim.tasks,
      event.1 ≤ max (sim.core conn).stamp (sim.time + 1)
  future : ∀ event ∈ pendingOf conn sim.tasks, sim.time ≤ event.1

theorem Ordered.quiet (ordered : Ordered c before)
    (quiet : Quiet c before after) : Ordered c after := by
  obtain ⟨created, increasing, stamped, account, sorted, latest, future⟩ := ordered
  refine ⟨lt_of_lt_of_le created quiet.created, ?_, ?_, ?_, ?_, ?_, ?_⟩
  · rwa [quiet.issued]
  · rw [quiet.issued]
    exact fun time mem => le_trans (stamped time mem) quiet.stamp
  · rwa [quiet.issued, quiet.processed, quiet.pending]
  · rwa [quiet.pending]
  · rw [quiet.pending, quiet.time]
    intro event mem
    have bound := latest event mem
    have raised := quiet.stamp
    omega
  · rwa [quiet.pending, quiet.time]

theorem Ordered.moves (ordered : Ordered c before)
    (moves : Moves acted False cancels before after) : Ordered c after :=
  ordered.quiet (quiet_of_moves ordered.created moves)

theorem Ordered.addEvent (ordered : Ordered c before) (quiet : Quiet c before after) {time : Nat}
    (later : (before.core c).stamp < time) (raised : time ≤ (after.core c).stamp)
    (task : SimulatorTask) : Ordered c (after.addEvent c time task) := by
  have kept := ordered.quiet quiet
  have earlier : ∀ issued ∈ issuedBy c after.trace, issued < time := by
    rw [quiet.issued]
    intro issued mem
    exact lt_of_le_of_lt (ordered.stamped issued mem) later
  have clamped : time ≤ after.clamp time ∧ after.time < after.clamp time ∧
      after.clamp time ≤ max time (after.time + 1) := by
    unfold clamp
    split <;> omega
  have issued :
      issuedBy c (after.addEvent c time task).trace = issuedBy c after.trace ++ [time] := by
    simp [Simulator.addEvent, issuedBy]
  have processed :
      processedBy c (after.addEvent c time task).trace = processedBy c after.trace := by
    simp [Simulator.addEvent, processedBy]
  have pending : pendingOf c (after.addEvent c time task).tasks =
        pendingOf c after.tasks ++ [(after.clamp time, time)] := by
    simp [Simulator.addEvent, pendingOf]
  have before_latest := ordered.latest
  rw [← quiet.pending, ← quiet.time] at before_latest
  refine ⟨kept.created, ?_, ?_, ?_, ?_, ?_, ?_⟩
  · rw [issued, pairwise_append]
    refine ⟨kept.increasing, pairwise_singleton .., ?_⟩
    intro first mem second single
    rw [mem_singleton.mp single]
    exact earlier first mem
  · rw [issued, forall_mem_append, forall_mem_singleton]
    exact ⟨kept.stamped, raised⟩
  · rw [issued, processed, pending, map_append, ← append_assoc, kept.account]
    rfl
  · rw [pending, pairwise_append]
    refine ⟨kept.sorted, pairwise_singleton .., ?_⟩
    intro first mem second single
    rw [mem_singleton.mp single]
    have bound := before_latest first mem
    omega
  · rw [pending, forall_mem_append, forall_mem_singleton]
    refine ⟨kept.latest, ?_⟩
    change after.clamp time ≤ max (after.core c).stamp (after.time + 1)
    omega
  · rw [pending, forall_mem_append, forall_mem_singleton]
    exact ⟨kept.future, le_of_lt clamped.2.1⟩

theorem pendingOf_append (c : Nat) (first second : List Scheduled) :
    pendingOf c (first ++ second) = pendingOf c first ++ pendingOf c second :=
  filterMap_append

theorem Ordered.pop (ordered : Ordered c sim)
    {e : Scheduled} (due : sim.due = some e) : Ordered c (sim.pop e) := by
  obtain ⟨now, earlier, later, split, erased, ne⟩ := due_split due
  have tasks : (sim.pop e).tasks = earlier ++ later := erased
  by_cases own : ∃ time, e.issued = some (c, time)
  · obtain ⟨created, increasing, stamped, account, sorted, latest, future⟩ := ordered
    obtain ⟨time, own⟩ := own
    have single : pendingOf c [e] = [(sim.time, time)] := by simp [pendingOf, own, now]
    have trace : (sim.pop e).trace = sim.trace ++ [.processed c time] := by
      simp [Simulator.pop, own]
    have whole :
        pendingOf c sim.tasks = pendingOf c earlier ++ (sim.time, time) :: pendingOf c later := by
      rw [split, pendingOf_append, ← singleton_append, pendingOf_append, single]
      rfl
    rw [whole] at sorted future account latest
    -- an earlier one would be due at the same time
    have first : pendingOf c earlier = [] := by
      rw [eq_nil_iff_forall_not_mem]
      intro event mem
      have late := future event (mem_append_left _ mem)
      have early := (pairwise_append.mp sorted).2.2 event mem _ (mem_cons_self ..)
      obtain ⟨other, inside, _, time⟩ := mem_pendingOf.mp mem
      refine ne other inside ?_
      rw [time]
      exact le_antisymm early late
    rw [first] at sorted future account latest
    have pending : pendingOf c (sim.pop e).tasks = pendingOf c later := by
      rw [tasks, pendingOf_append, first]
      rfl
    have issued : issuedBy c (sim.pop e).trace = issuedBy c sim.trace := by simp [trace, issuedBy]
    have processed : processedBy c (sim.pop e).trace = processedBy c sim.trace ++ [time] := by
      simp [trace, processedBy]
    refine ⟨created, ?_, ?_, ?_, ?_, ?_, ?_⟩
    · rwa [issued]
    · rwa [issued]
    · rw [issued, processed, pending, ← account, append_assoc]
      rfl
    · rw [pending]
      exact (pairwise_cons.mp sorted).2
    · rw [pending]
      exact fun event mem => latest event (mem_cons_of_mem _ mem)
    · rw [pending]
      exact fun event mem => future event (mem_cons_of_mem _ mem)
  · have none : pendingOf c [e] = [] := by
      rw [eq_nil_iff_forall_not_mem]
      intro event mem
      obtain ⟨other, single, issued, _⟩ := mem_pendingOf.mp mem
      rw [mem_singleton.mp single] at issued
      exact own ⟨event.2, issued⟩
    refine ordered.quiet ⟨?_, ?_, ?_, le_rfl, rfl, le_rfl⟩
    · unfold Simulator.pop
      cases issued : e.issued with
      | none => rfl
      | some issue => simp [issuedBy]
    · unfold Simulator.pop
      cases issued : e.issued with
      | none => rfl
      | some issue =>
        have other : issue.1 ≠ c := by
          rintro rfl
          exact own ⟨issue.2, issued⟩
        simp [processedBy, other]
    · rw [tasks, split, pendingOf_append, ← singleton_append,
        pendingOf_append, pendingOf_append, none]
      rfl

theorem Ordered.tick (ordered : Ordered c sim) (idle : sim.due = none) :
    Ordered c { sim with network := { sim.network with time := sim.time + 1 } } := by
  obtain ⟨created, increasing, stamped, account, sorted, latest, future⟩ := ordered
  refine ⟨created, increasing, stamped, account, sorted, ?_, ?_⟩
  · intro event mem
    have bound := latest event mem
    change event.1 ≤ max (sim.core c).stamp (sim.time + 1 + 1)
    omega
  · intro event mem
    obtain ⟨e, inside, _, time⟩ := mem_pendingOf.mp mem
    have notNow := List.find?_eq_none.mp idle e inside
    have late := future event mem
    rw [decide_eq_true_eq] at notNow
    change sim.time + 1 ≤ event.1
    omega

/-! ## The functions that issue events -/

/-- The handling time of the next event does not overflow. -/
def InRange (sim : Simulator) (conn random : Nat) : Prop :=
  max (sim.time % 2 ^ 32) (sim.object conn).timeStamp + 1 +
      (sim.object conn).parameters.getLag random < 2 ^ 32

instance (sim : Simulator) (conn random : Nat) :
    Decidable (sim.InRange conn random) :=
  inferInstanceAs (Decidable (_ < _))

theorem InRange.later (inRange : before.InRange c random) (time : after.time = before.time)
    (stamp : (after.object c).timeStamp = (before.object c).timeStamp)
    (params : (after.object c).parameters = (before.object c).parameters) :
    (before.core c).stamp < after.timeOfHandling c random := by
  have v : after.timeOfHandling c random =
        ((if after.time % 2 ^ 32 > (after.object c).timeStamp then
            after.time % 2 ^ 32
          else (after.object c).timeStamp) + 1 +
          (after.object c).parameters.getLag random) % 2 ^ 32 :=
    rfl
  change (before.object c).timeStamp < _
  unfold InRange at inRange
  rw [v, params]
  split <;> omega

theorem raised_setTimeStamp (time : Nat) : time ≤ ((sim.setTimeStamp c time).core c).stamp := by
  change time ≤ ((sim.network.setTimeStamp c time).core c).stamp
  rw [SimulatedNetwork.core_setTimeStamp, if_pos rfl]
  dsimp only
  split <;> omega


theorem Ordered.issue (ordered : Ordered c before) {other : Nat}
    (quiet : Quiet c before after) {time : Nat}
    (own : other = c → (before.core c).stamp < time ∧ time ≤ (after.core c).stamp)
    (task : SimulatorTask) : Ordered c (after.addEvent other time task) := by
  by_cases same : other = c
  · subst same
    exact ordered.addEvent quiet (own rfl).1 (own rfl).2 task
  · refine (ordered.quiet quiet).quiet ⟨?_, ?_, ?_, le_rfl, rfl, le_rfl⟩
    · simp [Simulator.addEvent, issuedBy, same]
    · simp [Simulator.addEvent, processedBy]
    · simp [Simulator.addEvent, pendingOf, same]

theorem object_put (object : ConnectionObject) : (sim.put c object).object c = object :=
  Function.update_self ..

theorem Ordered.handleSend (ordered : Ordered c sim) (other : Nat)
    (inRange : other = c → sim.InRange c random) : Ordered c (sim.handleSend random other) := by
  unfold Simulator.handleSend
  dsimp only
  split
  · exact ordered
  · split
    · exact ordered
    · split
      · exact ordered
      · have sent (sending : List OutgoingPacket) : Moves (some other) False False sim
              (sim.put other { sim.object other with sending := sending }) :=
          .single (.put rfl (.inl rfl))
        refine ordered.issue
          (quiet_of_moves ordered.created ((sent _).tail (.setTimeStamp other _))) ?_ _
        rintro rfl
        refine ⟨(inRange rfl).later rfl ?_ ?_, raised_setTimeStamp _⟩
        · rw [object_put]
        · rw [object_put]

theorem Ordered.connect (ordered : Ordered c sim) {other : Nat}
    (created : other < sim.network.created)
    (inRange : other = c → sim.InRange c random) : Ordered c (sim.connect other random) := by
  unfold Simulator.connect
  split
  · exact ordered
  · have connecting : Move none False False sim (sim.setState other .connecting) :=
      .put rfl (.inr ⟨rfl, ConnectionState.noConfusion⟩)
    refine ordered.issue (quiet_of_moves ordered.created
      (.tail (.tail (.single connecting) (.addConnection created)) (.setTimeStamp _ _))) ?_ _
    rintro rfl
    refine ⟨(inRange rfl).later rfl ?_ ?_, raised_setTimeStamp _⟩
    · simp [object, SimulatedNetwork.addConnection, SimulatedNetwork.setState, SimulatedNetwork.put]
    · simp [object, SimulatedNetwork.addConnection, SimulatedNetwork.setState, SimulatedNetwork.put]

theorem Ordered.disconnect (ordered : Ordered c sim) (other : Nat)
    (inRange : other = c → sim.InRange c random) : Ordered c (sim.disconnect other random) := by
  unfold Simulator.disconnect
  dsimp only
  split
  · exact ordered
  · refine Ordered.moves ?_ (.single (@Move.setRemote _ none False False other 0))
    have removed (time : Nat) : Moves none False True sim
          { (sim.setState other .disconnected).setTimeStamp other time with
            network :=
              ((sim.setState other .disconnected).setTimeStamp other time).network.forget other } :=
      .tail (.tail (.single (.close other)) (.setTimeStamp other time)) (.forget other)
    refine ordered.issue (quiet_of_moves ordered.created
      (((removed _).tail (.scheduleCancellation trivial other)).tail (.call rfl))) ?_ _
    rintro rfl
    refine ⟨(inRange rfl).later rfl ?_ ?_, ?_⟩
    · simp [object, Simulator.setState, SimulatedNetwork.setState, SimulatedNetwork.put]
    · simp [object, Simulator.setState, SimulatedNetwork.setState, SimulatedNetwork.put]
    · change _ ≤ ((SimulatedNetwork.forget _ other).core other).stamp
      rw [SimulatedNetwork.core_forget]
      exact raised_setTimeStamp _

def EventInRange (conn : Nat) (sim : Simulator) : SimulatorAction → Prop
  | .connect other random => other = conn → sim.InRange conn random
  | .disconnect other random => other = conn → sim.InRange conn random
  | .task random _ =>
    sim.due.map Scheduled.task = some (.handleSend conn) →
      sim.InRange conn random
  | _ => True

instance (conn : Nat) (sim : Simulator) (action : SimulatorAction) :
    Decidable (EventInRange conn sim action) :=
  match action with
  | .connect other random | .disconnect other random =>
    inferInstanceAs (Decidable (other = conn → sim.InRange conn random))
  | .task random _ =>
    inferInstanceAs (Decidable (sim.due.map Scheduled.task =
            some (.handleSend conn) → sim.InRange conn random))
  | .create .. | .asyncSend .. | .asyncRead .. | .setAcceptor .. | .tick =>
    inferInstanceAs (Decidable True)

theorem Ordered.runTask (ordered : Ordered c sim) {requested : Bool} {task : SimulatorTask}
    (inRange : task = .handleSend c → sim.InRange c random)
    (ran : sim.runTask random requested task = .ok after) : Ordered c after := by
  have moves := moves_runTask ran
  by_cases sends : ∃ other, task = .handleSend other
  · obtain ⟨other, rfl⟩ := sends
    cases ran
    exact ordered.handleSend other fun same => inRange (by rw [same])
  · rw [eq_false sends] at moves
    exact ordered.moves moves

/-- The step lemma. -/
theorem Ordered.step (ordered : Ordered c sim)
    {action : SimulatorAction} (inRange : EventInRange c sim action)
    (stepped : sim.step action = .ok after) : Ordered c after := by
  cases action with
  | create params remoteAddress =>
    cases stepped
    exact ordered.moves (.single (@Move.create none False False _ params remoteAddress))
  | connect other random =>
    rcases onCreated_ok stepped with ⟨created, rfl⟩ | rfl
    · exact ordered.connect created inRange
    · exact ordered
  | disconnect other random =>
    rcases onCreated_ok stepped with ⟨_, rfl⟩ | rfl
    · exact ordered.disconnect other inRange
    · exact ordered
  | asyncSend other msg messageId =>
    rcases onCreated_ok stepped with ⟨_, rfl⟩ | rfl
    · exact ordered.moves (@moves_asyncSend _ False False other msg messageId)
    · exact ordered
  | asyncRead other bufferSize numBytes readId =>
    rcases onCreated_ok stepped with ⟨_, rfl⟩ | rfl
    · exact ordered.moves (@moves_asyncRead _ False False other bufferSize numBytes readId)
    · exact ordered
  | setAcceptor addr acceptor handler =>
    cases stepped
    exact ordered.quiet ⟨rfl, rfl, rfl, le_rfl, rfl, le_rfl⟩
  | task random requested =>
    rcases step_task_ok stepped with rfl | ⟨e, due, ran⟩
    · exact ordered
    · refine (ordered.pop due).runTask ?_ ran
      intro sends
      refine inRange ?_
      rw [due, Option.map_some, sends]
  | tick =>
    rcases step_tick_ok stepped with rfl | ⟨due, rfl⟩
    · exact ordered
    · exact ordered.tick due

structure Unrecorded (conn : Nat) (sim : Simulator) : Prop where
  issued : issuedBy conn sim.trace = []
  processed : processedBy conn sim.trace = []
  pending : pendingOf conn sim.tasks = []

/-- From any state at any time: as long as the handling times do not overflow,
those of the events of one connection increase, and the events are processed
in the order in which they were issued. -/
theorem events_in_order (c : Nat) (sim : Simulator) (created : c < sim.network.created)
    (unrecorded : Unrecorded c sim) (actions : List SimulatorAction)
    (inRange : Guarded step (EventInRange c) sim actions)
    (final : Simulator) (ran : sim.run actions = .ok final) :
    (issuedBy c final.trace).Pairwise (· < ·) ∧
      processedBy c final.trace <+: issuedBy c final.trace := by
  have start : Ordered c sim := by
    obtain ⟨issued, processed, pending⟩ := unrecorded
    refine ⟨created, ?_, ?_, ?_, ?_, ?_, ?_⟩
    · rw [issued]
      exact List.Pairwise.nil
    · simp [issued]
    · rw [issued, processed, pending]
      rfl
    · rw [pending]
      exact List.Pairwise.nil
    · simp [pending]
    · simp [pending]
  have ordered := inRange.reached (fun _ _ _ held => held.step) start ran
  exact ⟨ordered.increasing, _, ordered.account⟩

theorem events_in_order_two_requests :
    ∃ final, run { fresh with network := fresh.network.create ⟨3, 3, 1⟩ 1 }
          [.setAcceptor 1 (some ⟨1, true⟩) 0, .connect 0 0, .connect 0 0,
            .tick, .tick, .tick, .tick, .task 0 false] =
        .ok final ∧
      processedBy 0 final.trace <+: issuedBy 0 final.trace ∧
        (processedBy 0 final.trace, issuedBy 0 final.trace) = ([4], [4, 8]) := by
  have shown : (run { fresh with network := fresh.network.create ⟨3, 3, 1⟩ 1 }
          [.setAcceptor 1 (some ⟨1, true⟩) 0, .connect 0 0, .connect 0 0,
            .tick, .tick, .tick, .tick, .task 0 false]).map
        (fun final => (processedBy 0 final.trace, issuedBy 0 final.trace)) = .ok ([4], [4, 8]) := by
    decide +kernel
  obtain ⟨final, ran, events⟩ := reached_of_map shown
  refine ⟨final, ran, ?_, events⟩
  exact (events_in_order 0 _ (by decide) ⟨by decide +kernel, by decide +kernel, by decide +kernel⟩ _
      (by decide +kernel) final ran).2

/-- With a lag of 2 ^ 31 the handling time of a second request overflows, and
it is processed while the first one still waits. -/
theorem overflow_reverses_requests :
    (fresh.run [.create ⟨2 ^ 31, 2 ^ 31, 1⟩ 1,
          .setAcceptor 1 (some ⟨1, true⟩) 0, .connect 0 0, .connect 0 0,
          .tick, .tick, .task 0 false]).map
      (fun final => (issuedBy 0 final.trace, processedBy 0 final.trace, pendingOf 0 final.tasks)) =
      .ok ([2147483649, 2], [2], [(2147483649, 2147483649)]) := by
  decide +kernel

end Simulator

end AutomatonCore.Network
