import AutomatonCore.Library.GuardedRun
import AutomatonCore.Network.SimulatorFrame

/-!
# Which acceptor handles a request
-/

namespace AutomatonCore.Network

open Library

/-- Processing of the simulation, with what is called by handlers meanwhile:
no new connection is made, no request and no acceptor. -/
def SimulatorAction.opensNothing : SimulatorAction → Bool
  | .create .. | .connect .. | .setAcceptor .. => false
  | _ => true

/-- The acceptors and the requests that wait; the acceptor of a request is
looked up when the request is handled. -/
structure Routes where
  acceptors : Nat → Option SimulatedAcceptor
  handlers : Nat → Nat
  requests : List Scheduled

def Routes.handlerOf (routes : Routes) : SimulatorTask → Option Nat
  | .handleRequest _ destination =>
    (routes.acceptors destination).map fun _ => routes.handlers destination
  | _ => none

theorem SimulatedNetwork.establish_acceptors (net : SimulatedNetwork) (c time bandwidth : Nat) :
    (net.establish c time bandwidth).acceptors = net.acceptors := by
  simp only [establish, setTimeStamp, setRemote, setState, setBandwidth, addConnection, create, put]

namespace Simulator

variable {sim : Simulator}

def routes (sim : Simulator) : Routes where
  acceptors := sim.network.acceptors
  handlers := sim.handlers
  requests := sim.tasks.filter fun entry => entry.task.isRequest

variable {after : Simulator} {acted : Option Nat} {issues cancels : Prop} {before : Routes}

theorem Move.routes (move : Move acted issues cancels sim after) :
    after.routes = sim.routes := by
  cases move with
  | addTask time plain => simp [Simulator.routes, Simulator.addTask, plain.1]
  | addEvent _ c time plain => simp [Simulator.routes, Simulator.addEvent, plain.1]
  | scheduleCancellation _ c =>
    simp [Simulator.routes, Simulator.scheduleCancellation, Simulator.addTask,
      SimulatorTask.isRequest]
  | establish c time bandwidth => simp only [Simulator.routes, SimulatedNetwork.establish_acceptors]
  | _ => rfl

theorem routes_of_moves (moves : Moves acted issues cancels sim after) :
    after.routes = sim.routes := by
  induction moves with
  | refl => rfl
  | tail _ move ih => rw [move.routes, ih]

/-! ## Processing -/

structure Processed (before after : Routes) : Prop where
  acceptors : after.acceptors = before.acceptors
  handlers : after.handlers = before.handlers
  requests : after.requests ⊆ before.requests

theorem Processed.of_eq {after : Routes} (same : after = before) : Processed before after := by
  rw [same]
  exact ⟨rfl, rfl, List.Subset.refl _⟩

theorem Processed.trans {middle after : Routes}
    (first : Processed before middle) (second : Processed middle after) :
    Processed before after where
  acceptors := second.acceptors.trans first.acceptors
  handlers := second.handlers.trans first.handlers
  requests := List.Subset.trans second.requests first.requests

theorem Processed.handlerOf {after : Routes}
    (processed : Processed before after) (task : SimulatorTask) :
    after.handlerOf task = before.handlerOf task := by
  cases task with
  | handleRequest src dest => simp only [Routes.handlerOf, processed.acceptors, processed.handlers]
  | _ => rfl

theorem processed_pop (e : Scheduled) : Processed sim.routes (sim.pop e).routes := by
  refine ⟨rfl, rfl, ?_⟩
  exact ((List.erase_sublist).filter _).subset

/-- The step lemma. -/
theorem processed_step {action : SimulatorAction} (opens : action.opensNothing)
    (stepped : sim.step action = .ok after) : Processed sim.routes after.routes := by
  have unchanged : Processed sim.routes sim.routes := .of_eq rfl
  cases action with
  | create | connect | setAcceptor => cases opens
  | disconnect c random =>
    rcases onCreated_ok stepped with ⟨_, rfl⟩ | rfl
    · exact .of_eq (routes_of_moves (@moves_disconnect _ none True True trivial trivial c random))
    · exact unchanged
  | asyncSend c msg messageId =>
    rcases onCreated_ok stepped with ⟨_, rfl⟩ | rfl
    · exact .of_eq (routes_of_moves (@moves_asyncSend _ True True c msg messageId))
    · exact unchanged
  | asyncRead c bufferSize numBytes readId =>
    rcases onCreated_ok stepped with ⟨_, rfl⟩ | rfl
    · exact .of_eq (routes_of_moves (@moves_asyncRead _ True True c bufferSize numBytes readId))
    · exact unchanged
  | task random requested =>
    rcases step_task_ok stepped with rfl | ⟨e, _, ran⟩
    · exact unchanged
    · exact (processed_pop e).trans (.of_eq (routes_of_moves (moves_runTask ran)))
  | tick =>
    rcases step_tick_ok stepped with rfl | ⟨_, rfl⟩
    · exact unchanged
    · exact .of_eq rfl

/-- The run lemma. -/
theorem processed_run {final : Simulator} {actions : List SimulatorAction}
    (opens : ∀ action ∈ actions, action.opensNothing) (ran : sim.run actions = .ok final) :
    Processed sim.routes final.routes := by
  have guarded : Guarded step (fun _ action => action.opensNothing = true) sim actions :=
    .of_forall fun action mem _ => opens action mem
  have each (s : Simulator) (action : SimulatorAction) (next : Simulator)
      (processed : Processed sim.routes s.routes) (opens : action.opensNothing = true)
      (stepped : s.step action = .ok next) : Processed sim.routes next.routes :=
    processed.trans (processed_step opens stepped)
  exact guarded.reached each (.of_eq rfl) ran

end Simulator

end AutomatonCore.Network
