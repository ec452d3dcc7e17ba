import AutomatonCore.Network.SimulatorFrame

/-!
# Connecting to an address where nobody accepts
-/

namespace AutomatonCore.Network

open Io List

def SimulatorAction.isProcessing : SimulatorAction → Bool
  | .task .. | .tick => true
  | _ => false

namespace Simulator

def errorsOf (conn : Nat) (trace : List SimulatorEvent) : List Status :=
  trace.filterMap fun event =>
    match event with
    | .connectionError told status =>
      if told = conn then some status else none
    | _ => none

def NobodyAccepts (sim : Simulator) (destination : Nat) : Prop :=
  ∀ acceptor, sim.network.acceptors destination = some acceptor → acceptor.accepting = false

/-- What is to be seen of a request without effect while it is processed:
`on_requested` is not called, no connection is created and the source does not
become connected. -/
structure NoEffect (before : Simulator) (conn : Nat) (after : Simulator) : Prop where
  notRequested : ∀ handler other, .requested handler other ∉ after.trace
  created : after.network.created = before.network.created
  notConnected : (after.object conn).connectionState = .connected →
      (before.object conn).connectionState = .connected

def alone (sim : Simulator) : Simulator :=
  { sim with tasks := [], trace := [] }

/-- A request of a connection is handled on its own, with all that it
schedules: no run of the processing fails or has an effect, and at the end of
every one the handler of the source has been told one error. -/
def FailsCleanly (sim : Simulator) (random : Nat)
    (requested : Bool) (source destination conn : Nat) : Prop :=
  ∃ handled, sim.alone.handleRequest random requested source destination = .ok handled ∧
    (∀ actions : List SimulatorAction, (∀ action ∈ actions, action.isProcessing) → ∃ final,
      handled.run actions = .ok final ∧ NoEffect sim conn final ∧ (final.tasks = [] →
      (errorsOf conn final.trace).length = 1)) ∧
    ∃ actions : List SimulatorAction, (∀ action ∈ actions, action.isProcessing) ∧
      ∃ final, handled.run actions = .ok final ∧ final.tasks = []

variable {acceptor : SimulatedAcceptor} {dest : Nat}

theorem ask_tasks (sim : Simulator) (c dest time : Nat) (idle : acceptor.accepting = false) :
    (sim.ask c dest time acceptor).tasks =
      sim.tasks ++ [{ time := sim.clamp time, task := .noRoute c }] := by
  unfold ask
  rw [idle]
  rfl

variable {sim : Simulator}

theorem accept_trace_mem {event : SimulatorEvent}
    (src c time handler : Nat) (acceptor : SimulatedAcceptor) (mem : event ∈ sim.trace) :
    event ∈ (sim.accept src c time handler acceptor).trace := by
  unfold accept
  dsimp only
  split
  · exact mem_append_left _ (mem_append_left _ mem)
  · exact mem

theorem accept_created (sim : Simulator) (src c time handler : Nat) (acceptor : SimulatedAcceptor) :
    (sim.accept src c time handler acceptor).network.created = sim.network.created + 1 := by
  unfold accept
  dsimp only
  split
  · exact SimulatedNetwork.establish_created ..
  · rfl

theorem tasks_subset_addTask (sim : Simulator) (time : Nat) (task : SimulatorTask) :
    sim.tasks ⊆ (sim.addTask time task).tasks :=
  subset_append_left _ _

theorem accept_tasks_mem {e : Scheduled} (src c time handler : Nat) (acceptor : SimulatedAcceptor)
    (mem : e ∈ sim.tasks) : e ∈ (sim.accept src c time handler acceptor).tasks := by
  unfold accept
  dsimp only
  split
  · apply tasks_subset_addTask
    apply tasks_subset_addTask
    apply tasks_subset_addTask
    simpa only [call] using mem
  · exact mem

theorem handleRequest_absent (absent : sim.network.acceptors dest = none)
    (random : Nat) (requested : Bool) (src : Nat) :
    sim.handleRequest random requested src dest = .error .nullDereference := by
  unfold handleRequest
  rw [absent]
  cases sim.getConnection src <;> rfl

/-- A request to an acceptor that is not accepting: the acceptor is asked, the
report is scheduled, and the answer is carried out. -/
structure AskedNevertheless (before : Simulator)
    (requested : Bool) (source destination conn : Nat) (after : Simulator) : Prop where
  asked : .requested (before.handlers destination) conn ∈ after.trace
  reported : ∃ entry ∈ after.tasks, entry.task = .noRoute conn
  accepted : requested = true → after.network.created = before.network.created + 1
  refused : requested = false → ∃ entry ∈ after.tasks, entry.task = .handleRefuse source

theorem handleRequest_idle {src c : Nat} (registered : sim.getConnection src = some c)
    (found : sim.network.acceptors dest = some acceptor)
    (idle : acceptor.accepting = false) (random : Nat) (requested : Bool) :
    ∃ handled, sim.handleRequest random requested src dest = .ok handled ∧
      AskedNevertheless sim requested src dest c handled := by
  unfold handleRequest
  rw [registered, found]
  dsimp only
  generalize sim.time + (sim.object c).parameters.getLag random + 1 = time
  have asked : .requested (sim.handlers dest) c ∈ (sim.ask c dest time acceptor).trace := by
    exact mem_append_right _ (mem_singleton_self _)
  obtain ⟨report, reported, isReport⟩ :
      ∃ e ∈ (sim.ask c dest time acceptor).tasks, e.task = .noRoute c := by
    rw [ask_tasks sim c dest time idle]
    exact ⟨_, mem_append_right _ (mem_singleton_self _), rfl⟩
  cases requested with
  | true =>
    refine ⟨_, if_pos rfl, ?_, ⟨report, ?_, isReport⟩, ?_, ?_⟩
    · exact accept_trace_mem _ _ _ _ _ asked
    · exact accept_tasks_mem _ _ _ _ _ reported
    · intro _
      rw [accept_created, ask, idle]
      rfl
    · exact fun no => nomatch no
  | false =>
    refine ⟨_, if_neg Bool.false_ne_true, asked, ⟨report, ?_, isReport⟩, ?_, ?_⟩
    · exact mem_append_left _ reported
    · exact fun no => nomatch no
    · intro _
      exact ⟨_, mem_append_right _ (mem_singleton_self _), rfl⟩

/-- A request to an address where nobody accepts never fails cleanly.  Without
an acceptor the handling faults; an acceptor that does not accept is asked,
and whatever it answers comes in addition to the report. -/
theorem connect_to_nobody (sim : Simulator) (random : Nat) (requested : Bool) (src dest c : Nat)
    (registered : sim.getConnection src = some c) (nobody : sim.NobodyAccepts dest) :
    ¬sim.FailsCleanly random requested src dest c ∧
      match sim.network.acceptors dest with
      | none => sim.handleRequest random requested src dest = .error .nullDereference
      | some _ =>
        ∃ handled, sim.handleRequest random requested src dest = .ok handled ∧
          AskedNevertheless sim requested src dest c handled := by
  constructor
  · rintro ⟨handled, handling, clean, _⟩
    -- before anything that was scheduled is run
    obtain ⟨final, unrun, noEffect, _⟩ := clean [] (by simp)
    obtain rfl : handled = final := Except.ok.inj unrun
    cases found : sim.network.acceptors dest with
    | none =>
      have absent : sim.alone.network.acceptors dest = none := found
      rw [handleRequest_absent absent] at handling
      cases handling
    | some acceptor =>
      have registered : sim.alone.getConnection src = _ := registered
      obtain ⟨asked, here, nevertheless⟩ :=
        handleRequest_idle registered found (nobody acceptor found) random requested
      obtain rfl : handled = asked := Except.ok.inj (handling.symm.trans here)
      exact noEffect.notRequested _ _ nevertheless.asked
  · cases found : sim.network.acceptors dest with
    | none => exact handleRequest_absent found random requested src
    | some acceptor =>
      exact handleRequest_idle registered found (nobody acceptor found) random requested

theorem connect_to_nobody_closed_acceptor :
    ∃ sim : Simulator, sim.getConnection 1 = some 0 ∧ sim.NobodyAccepts 1 ∧
      ¬sim.FailsCleanly 0 true 1 1 0 := by
  have shown :
      (fresh.run [.create ⟨1, 1, 10⟩ 1, .setAcceptor 1 (some ⟨10, false⟩) 0, .connect 0 0]).map
        (fun sim => (sim.getConnection 1, sim.network.acceptors 1)) =
        .ok (some 0, some ⟨10, false⟩) := by
    decide +kernel
  obtain ⟨sim, _, seen⟩ := reached_of_map shown
  have registered : sim.getConnection 1 = some 0 := congrArg Prod.fst seen
  have closed : sim.network.acceptors 1 = some ⟨10, false⟩ := congrArg Prod.snd seen
  have nobody : sim.NobodyAccepts 1 := by
    intro acceptor found
    cases closed.symm.trans found
    rfl
  exact ⟨sim, registered, nobody, (connect_to_nobody sim 0 true 1 1 0 registered nobody).1⟩

/-- A request to a closed acceptor whose handler answers yes connects the
source, and the source is told that there is no route; a request to an address
without acceptor ends in a fault. -/
theorem connected_without_route :
    (fresh.run [.create ⟨1, 1, 10⟩ 1, .setAcceptor 1 (some ⟨10, false⟩) 7,
          .connect 0 0, .tick, .tick, .task 0 true, .tick, .task 0 true,
          .task 0 true, .tick, .task 0 true, .task 0 true]).map
      (fun final =>
        ((final.object 0).connectionState, final.network.created, errorsOf 0 final.trace,
          final.trace.contains (.requested 7 0))) =
      .ok (.connected, 2, [.internal (text "No route to host")], true) ∧
    (fresh.run [.create ⟨1, 1, 10⟩ 1, .connect 0 0, .tick, .tick,
          .task 0 true]).map (fun final => final.network.created) = .error .nullDereference := by
  decide +kernel

end Simulator

end AutomatonCore.Network
