import AutomatonCore.Library.Buckets

/-!
# The event scheduler of the simulation

Times are natural numbers where the source has 64 bits; with all times below `2
^ 64 - 1` no addition wraps around.
-/

namespace AutomatonCore.Network

open Library List

/-- The members of `simulation` that schedule tasks; a time that is not a key
of the map has no tasks. -/
structure Scheduler (τ : Type*) where
  simulationTime : Nat
  tasks : Nat → List τ

namespace Scheduler

variable {τ σ : Type*}

def fresh : Scheduler τ :=
  ⟨0, fun _ => []⟩

/-- A task for the present or the past is run at the next time. -/
def addTask (scheduler : Scheduler τ) (tm : Nat) (task : τ) : Scheduler τ :=
  let tm :=
    if tm ≤ scheduler.simulationTime then scheduler.simulationTime + 1
    else tm
  { scheduler with
    tasks := fun time =>
      if time = tm then scheduler.tasks time ++ [task]
      else
        scheduler.tasks time }

/-- `set_time`; an earlier time is refused with a warning. -/
def setTime (scheduler : Scheduler τ) (time : Nat) : Scheduler τ :=
  if time < scheduler.simulationTime then scheduler
  else { scheduler with simulationTime := time }

def eraseTime (scheduler : Scheduler τ) (time : Nat) : Scheduler τ :=
  { scheduler with tasks := fun other => if other = time then [] else scheduler.tasks other }

/-- What happens in a run, with the time of the simulation at that moment: a
task is added for the time `tm`, or it is executed. -/
inductive Event (τ : Type*) where
  | added (tm time : Nat) (task : τ)
  | executed (time : Nat) (task : τ)
  deriving DecidableEq, Repr

structure State (τ σ : Type*) where
  scheduler : Scheduler τ
  client : σ

/-- What a task does at a time: the new state of the rest, and the tasks that
it adds with their times. -/
abbrev Behaviour (τ σ : Type*) :=
  τ → Nat → σ → σ × List (Nat × τ)

def addTasks (scheduler : Scheduler τ) : List (Nat × τ) → Scheduler τ × List (Event τ)
  | [] => (scheduler, [])
  | (tm, task) :: rest =>
    let (final, events) := (scheduler.addTask tm task).addTasks rest
    (final, .added tm scheduler.simulationTime task :: events)

variable (behaviour : Behaviour τ σ)

def runTask (state : State τ σ) (task : τ) : State τ σ × List (Event τ) :=
  let time := state.scheduler.simulationTime
  let (client, additions) := behaviour task time state.client
  let (scheduler, events) := state.scheduler.addTasks additions
  (⟨scheduler, client⟩, .executed time task :: events)

/-- The loop over the vector of a time, from an index on.  The end of the loop
is fixed at its beginning, the elements are read from the map when it is their
turn. -/
def runVector (time : Nat) : Nat → Nat → State τ σ → State τ σ × List (Event τ)
  | _, 0, state => (state, [])
  | index, rounds + 1, state =>
    match (state.scheduler.tasks time)[index]? with
    | none => (state, [])
    | some task =>
      let (next, events) := runTask behaviour state task
      let (final, later) := runVector time (index + 1) rounds next
      (final, events ++ later)

def processTime (state : State τ σ) (currentTime : Nat) : State τ σ × List (Event τ) :=
  let state := { state with scheduler := state.scheduler.setTime currentTime }
  let count := (state.scheduler.tasks currentTime).length
  if count = 0 then (state, [])
  else
    let (final, events) := runVector behaviour currentTime 0 count state
    ({ final with scheduler := final.scheduler.eraseTime currentTime }, events)

def processLoop : Nat → Nat → State τ σ → State τ σ × List (Event τ)
  | 0, _, state => (state, [])
  | rounds + 1, currentTime, state =>
    let (next, events) := processTime behaviour state currentTime
    let (final, later) := processLoop rounds (currentTime + 1) next
    (final, events ++ later)

/-- The time advances step by step, and the tasks of each time run in the order
in which they were added. -/
def process (state : State τ σ) (time : Nat) : State τ σ × List (Event τ) :=
  let currentTime := state.scheduler.simulationTime
  processLoop behaviour (time + 1 - currentTime) currentTime state

inductive Call (τ : Type*) where
  | addTask (tm : Nat) (task : τ)
  | process (time : Nat)
  deriving DecidableEq, Repr

def call (state : State τ σ) : Call τ → State τ σ × List (Event τ)
  | .addTask tm task =>
    let (scheduler, events) := state.scheduler.addTasks [(tm, task)]
    ({ state with scheduler }, events)
  | .process time => process behaviour state time

def run : State τ σ → List (Call τ) → State τ σ × List (Event τ)
  | state, [] => (state, [])
  | state, first :: calls =>
    let (next, events) := call behaviour state first
    let (final, later) := run next calls
    (final, events ++ later)

namespace Event

def time : Event τ → Nat
  | .added _ time _ => time
  | .executed time _ => time

def addition : Event τ → Option (Nat × τ)
  | .added tm time task => some (max tm (time + 1), task)
  | .executed _ _ => none

def execution : Event τ → Option (Nat × τ)
  | .added _ _ _ => none
  | .executed time task => some (time, task)

end Event

/-- The tasks that were added, with their effective times, in order of
adding. -/
def added (events : List (Event τ)) : List (Nat × τ) :=
  events.filterMap Event.addition

/-- The tasks that were executed, with the time of the simulation, in order of
execution. -/
def executed (events : List (Event τ)) : List (Nat × τ) :=
  events.filterMap Event.execution

/-- What `process` returns. -/
def eventsProcessed (events : List (Event τ)) : Nat :=
  (executed events).length

def Call.advance (largest : Nat) : Call τ → Nat
  | .addTask _ _ => largest
  | .process time => max largest time

def horizon (calls : List (Call τ)) : Nat :=
  calls.foldl Call.advance 0

/-! ## The invariant -/

/-- What is in the map and what has been executed, after the events so far.
The tasks of the current time are executed up to `index`, and the map has
dropped the times below `first`. -/
structure Agenda (scheduler : Scheduler τ) (events : List (Event τ))
    (index first : Nat) : Prop where
  executed : executed events = buckets Prod.fst (added events) scheduler.simulationTime ++
        (bucket Prod.fst (added events) scheduler.simulationTime).take index
  tasks : ∀ time, scheduler.tasks time =
        if time < first then []
        else (bucket Prod.fst (added events) time).map Prod.snd
  current :
    first = scheduler.simulationTime ∨
      first = scheduler.simulationTime + 1 ∧
        index = (bucket Prod.fst (added events) scheduler.simulationTime).length
  past : ∀ event ∈ events, event.time ≤ scheduler.simulationTime
  ordered : (events.map Event.time).Pairwise (· ≤ ·)

variable {scheduler : Scheduler τ} {events : List (Event τ)}
  {i first : Nat}

theorem added_append (events more : List (Event τ)) :
    added (events ++ more) = added events ++ added more :=
  filterMap_append

theorem executed_append (events more : List (Event τ)) :
    executed (events ++ more) = executed events ++ executed more :=
  filterMap_append

theorem Agenda.ordered_append (agenda : Agenda scheduler events i first) (event : Event τ)
    (now : event.time = scheduler.simulationTime) :
    (∀ other ∈ events ++ [event], other.time ≤ scheduler.simulationTime) ∧
      ((events ++ [event]).map Event.time).Pairwise (· ≤ ·) := by
  constructor
  · intro other mem
    rcases mem_append.mp mem with early | late
    · exact agenda.past other early
    · exact Nat.le_of_eq ((mem_singleton.mp late) ▸ now)
  · rw [map_append, pairwise_append]
    refine ⟨agenda.ordered, by simp, ?_⟩
    intro early earlyMember late lateMember
    obtain ⟨other, mem, rfl⟩ := mem_map.mp earlyMember
    simp only [map_cons, map_nil, mem_singleton] at lateMember
    rw [lateMember, now]
    exact agenda.past other mem

theorem Agenda.addTask (agenda : Agenda scheduler events i first) (tm : Nat) (task : τ) :
    Agenda (scheduler.addTask tm task)
      (events ++ [.added tm scheduler.simulationTime task]) i first := by
  obtain ⟨past, ordered⟩ := agenda.ordered_append (.added tm scheduler.simulationTime task) rfl
  have effective : (if tm ≤ scheduler.simulationTime then
          scheduler.simulationTime + 1
        else
          tm) = max tm (scheduler.simulationTime + 1) := by
    split <;> omega
  have additions : added (events ++ [.added tm scheduler.simulationTime task]) =
        added events ++ [(max tm (scheduler.simulationTime + 1), task)] :=
    added_append _ _
  have same : bucket Prod.fst (added events ++ [(max tm (scheduler.simulationTime + 1), task)])
          scheduler.simulationTime = bucket Prod.fst (added events) scheduler.simulationTime := by
    rw [bucket_append, bucket_singleton_of_ne (by dsimp only; omega), append_nil]
  refine
    { executed := ?_
      tasks := ?_
      current := by
        rw [additions, Scheduler.addTask, same]
        exact agenda.current
      past
      ordered }
  · rw [executed_append, additions, Scheduler.addTask, same,
      buckets_append_of_le (by dsimp only; omega), ← agenda.executed]
    simp [Scheduler.executed, Event.execution]
  · intro time
    have current := agenda.current
    rw [additions, Scheduler.addTask, effective]
    dsimp only
    split
    next same =>
      subst same
      rw [agenda.tasks, if_neg (by omega), if_neg (by omega), bucket_append,
        bucket_singleton (max tm (scheduler.simulationTime + 1), task)]
      simp
    next ne =>
      rw [agenda.tasks, bucket_append, bucket_singleton_of_ne (by simpa using Ne.symm ne),
        append_nil]

theorem Agenda.addTasks (agenda : Agenda scheduler events i first) (additions : List (Nat × τ)) :
    Agenda (scheduler.addTasks additions).1 (events ++ (scheduler.addTasks additions).2) i first ∧
      (scheduler.addTasks additions).1.simulationTime = scheduler.simulationTime := by
  induction additions generalizing scheduler events with
  | nil =>
    rw [Scheduler.addTasks, append_nil]
    exact ⟨agenda, rfl⟩
  | cons addition additions ih =>
    obtain ⟨tm, task⟩ := addition
    obtain ⟨after, time⟩ := ih (agenda.addTask tm task)
    rw [append_assoc] at after
    exact ⟨after, time⟩

variable {s : State τ σ}

theorem Agenda.runTask {task : τ} (agenda : Agenda s.scheduler events i s.scheduler.simulationTime)
    (turn : (s.scheduler.tasks s.scheduler.simulationTime)[i]? = some task) :
    Agenda (runTask behaviour s task).1.scheduler (events ++ (runTask behaviour s task).2) (i + 1)
        s.scheduler.simulationTime ∧
      (Scheduler.runTask behaviour s task).1.scheduler.simulationTime =
        s.scheduler.simulationTime := by
  obtain ⟨past, ordered⟩ := agenda.ordered_append (.executed s.scheduler.simulationTime task) rfl
  rw [agenda.tasks, if_neg (Nat.lt_irrefl _), getElem?_map, Option.map_eq_some_iff] at turn
  obtain ⟨e, turn, rfl⟩ := turn
  have time : e.1 = s.scheduler.simulationTime := key_of_mem_bucket (mem_of_getElem? turn)
  have additions : added (events ++ [.executed s.scheduler.simulationTime e.2]) = added events := by
    simp [added, Event.addition]
  have executed : Agenda s.scheduler (events ++ [.executed s.scheduler.simulationTime e.2])
        (i + 1) s.scheduler.simulationTime :=
    { executed := by
        rw [executed_append, additions, agenda.executed, append_assoc, take_add_one, turn, ← time]
        rfl
      tasks := by rw [additions]; exact agenda.tasks
      current := .inl rfl
      past
      ordered }
  have after := executed.addTasks (behaviour e.2 s.scheduler.simulationTime s.client).2
  rw [append_assoc] at after
  exact after

theorem tasks_addTasks (scheduler : Scheduler τ) (additions : List (Nat × τ)) :
    (scheduler.addTasks additions).1.tasks scheduler.simulationTime =
      scheduler.tasks scheduler.simulationTime := by
  induction additions generalizing scheduler with
  | nil => rfl
  | cons addition additions ih =>
    obtain ⟨tm, task⟩ := addition
    refine (ih (scheduler.addTask tm task)).trans ?_
    rw [Scheduler.addTask]
    dsimp only
    rw [if_neg]
    split <;> omega

theorem tasks_runTask (s : State τ σ) (task : τ) :
    (Scheduler.runTask behaviour s task).1.scheduler.tasks
        s.scheduler.simulationTime = s.scheduler.tasks s.scheduler.simulationTime :=
  tasks_addTasks s.scheduler _

theorem Agenda.runVector {now rounds : Nat} (agenda : Agenda s.scheduler events i now)
    (current : s.scheduler.simulationTime = now)
    (bound : i + rounds = (s.scheduler.tasks now).length) :
    let result := runVector behaviour now i rounds s
    Agenda result.1.scheduler (events ++ result.2) (i + rounds) now ∧
      result.1.scheduler.simulationTime = now ∧
      result.1.scheduler.tasks now = s.scheduler.tasks now := by
  induction rounds generalizing s events i with
  | zero =>
    dsimp only [Scheduler.runVector]
    rw [Nat.add_zero, append_nil]
    exact ⟨agenda, current, rfl⟩
  | succ rounds ih =>
    have inside : i < (s.scheduler.tasks now).length := by omega
    have turn := getElem?_eq_getElem inside
    subst current
    obtain ⟨after, time⟩ := agenda.runTask behaviour turn
    have same := tasks_runTask behaviour s (s.scheduler.tasks s.scheduler.simulationTime)[i]
    obtain ⟨final, finalTime, finalSame⟩ := ih after time (by rw [same]; omega)
    rw [Scheduler.runVector, turn]
    dsimp only
    rw [← append_assoc, show i + (rounds + 1) = i + 1 + rounds
      by omega]
    exact ⟨final, finalTime, finalSame.trans same⟩

/-! ## Between the calls -/

def Settled (scheduler : Scheduler τ) (events : List (Event τ)) : Prop :=
  Agenda scheduler events (bucket Prod.fst (added events) scheduler.simulationTime).length
    (scheduler.simulationTime + 1)

theorem Agenda.settled (agenda : Agenda scheduler events i (scheduler.simulationTime + 1)) :
    Settled scheduler events := by
  rcases agenda.current with before | ⟨_, all⟩
  · omega
  · rwa [all] at agenda

theorem settled_fresh : Settled (fresh : Scheduler τ) [] where
  executed := rfl
  tasks _ := by simp [fresh, added, bucket]
  current := .inr ⟨rfl, rfl⟩
  past := by simp
  ordered := List.Pairwise.nil

theorem Settled.setTime (settled : Settled scheduler events) :
    Agenda (scheduler.setTime (scheduler.simulationTime + 1)) events 0
        (scheduler.simulationTime + 1) ∧
      (scheduler.setTime (scheduler.simulationTime + 1)).simulationTime =
        scheduler.simulationTime + 1 := by
  rw [Scheduler.setTime, if_neg (by omega)]
  have executed := settled.executed
  rw [take_length, ← buckets_succ] at executed
  exact
    ⟨{ executed := by simpa using executed
       tasks := settled.tasks
       current := .inl rfl
       past := fun event mem => Nat.le_succ_of_le (settled.past event mem)
       ordered := settled.ordered }, rfl⟩

theorem Agenda.eraseTime {now : Nat} (agenda : Agenda scheduler events i now)
    (current : scheduler.simulationTime = now) (all : i = (scheduler.tasks now).length) :
    Settled (scheduler.eraseTime now) events := by
  subst current
  have length : i = (bucket Prod.fst (added events) scheduler.simulationTime).length := by
    rw [all, agenda.tasks, if_neg (Nat.lt_irrefl _), length_map]
  exact
    { executed := by
        refine agenda.executed.trans ?_
        rw [length]
        rfl
      tasks := fun time => by
        change (if time = scheduler.simulationTime then []
          else scheduler.tasks time) =
            if time < scheduler.simulationTime + 1 then [] else _
        by_cases below : time < scheduler.simulationTime + 1
        · split
          · rfl
          · rw [agenda.tasks, if_pos (by omega)]
        · rw [if_neg below, if_neg (by omega), agenda.tasks, if_neg (by omega)]
      current := .inr ⟨rfl, rfl⟩
      past := agenda.past
      ordered := agenda.ordered }

theorem eraseTime_of_empty {time : Nat} (empty : scheduler.tasks time = []) :
    scheduler.eraseTime time = scheduler := by
  have same :
      (fun other => if other = time then [] else scheduler.tasks other) = scheduler.tasks := by
    funext other
    split
    next equal =>
      rw [equal, empty]
    · rfl
  rw [eraseTime, same]

theorem Settled.processTime_now (settled : Settled s.scheduler events) :
    processTime behaviour s s.scheduler.simulationTime = (s, []) := by
  have empty : s.scheduler.tasks s.scheduler.simulationTime = [] := by
    rw [settled.tasks, if_pos (Nat.lt_succ_self _)]
  simp [processTime, Scheduler.setTime, empty]

theorem Settled.processTime (settled : Settled s.scheduler events) :
    let result := processTime behaviour s (s.scheduler.simulationTime + 1)
    Settled result.1.scheduler (events ++ result.2) ∧
      result.1.scheduler.simulationTime = s.scheduler.simulationTime + 1 := by
  obtain ⟨agenda, time⟩ := settled.setTime
  simp only [Scheduler.processTime]
  split
  next empty =>
    rw [append_nil]
    have erased := agenda.eraseTime time empty.symm
    rw [eraseTime_of_empty (length_eq_zero_iff.mp empty)] at erased
    exact ⟨erased, time⟩
  · let next : State τ σ :=
      { s with scheduler := s.scheduler.setTime (s.scheduler.simulationTime + 1) }
    have start : Agenda next.scheduler events 0 (s.scheduler.simulationTime + 1) := agenda
    obtain ⟨final, finalTime, same⟩ := start.runVector behaviour time (Nat.zero_add _)
    exact ⟨final.eraseTime finalTime (by rw [same, Nat.zero_add]), finalTime⟩

theorem Settled.processLoop (rounds : Nat) (settled : Settled s.scheduler events) :
    let result := processLoop behaviour rounds (s.scheduler.simulationTime + 1) s
    Settled result.1.scheduler (events ++ result.2) ∧
      result.1.scheduler.simulationTime = s.scheduler.simulationTime + rounds := by
  induction rounds generalizing s events with
  | zero =>
    dsimp only [Scheduler.processLoop]
    rw [append_nil]
    exact ⟨settled, rfl⟩
  | succ rounds ih =>
    obtain ⟨after, time⟩ := settled.processTime behaviour
    obtain ⟨final, finalTime⟩ := ih after
    dsimp only [Scheduler.processLoop]
    rw [time] at final finalTime
    rw [← append_assoc]
    exact ⟨final, finalTime.trans (by omega)⟩

theorem Settled.process (settled : Settled s.scheduler events) (time : Nat) :
    let result := process behaviour s time
    Settled result.1.scheduler (events ++ result.2) ∧
      result.1.scheduler.simulationTime = max s.scheduler.simulationTime time := by
  by_cases late : time < s.scheduler.simulationTime
  · -- the loop does not run
    have rounds : time + 1 - s.scheduler.simulationTime = 0 := by omega
    simp only [Scheduler.process, rounds, Scheduler.processLoop, append_nil]
    exact ⟨settled, (Nat.max_eq_left (Nat.le_of_lt late)).symm⟩
  · obtain ⟨rounds, shape⟩ : ∃ rounds, time + 1 - s.scheduler.simulationTime = rounds + 1 :=
      ⟨time - s.scheduler.simulationTime, by omega⟩
    obtain ⟨final, finalTime⟩ := settled.processLoop behaviour rounds
    simp only [Scheduler.process, shape, Scheduler.processLoop, settled.processTime_now, nil_append]
    exact ⟨final, finalTime.trans (by omega)⟩

theorem Settled.call (settled : Settled s.scheduler events) (call : Call τ) :
    let result := Scheduler.call behaviour s call
    Settled result.1.scheduler (events ++ result.2) ∧
      result.1.scheduler.simulationTime = call.advance s.scheduler.simulationTime := by
  cases call with
  | process time => exact settled.process behaviour time
  | addTask tm task => exact ⟨(settled.addTask tm task).settled, rfl⟩

theorem Settled.run (settled : Settled s.scheduler events) (calls : List (Call τ)) :
    let result := Scheduler.run behaviour s calls
    Settled result.1.scheduler (events ++ result.2) ∧
      result.1.scheduler.simulationTime = calls.foldl Call.advance s.scheduler.simulationTime := by
  induction calls generalizing s events with
  | nil =>
    dsimp only [Scheduler.run]
    rw [append_nil]
    exact ⟨settled, rfl⟩
  | cons first calls ih =>
    obtain ⟨after, time⟩ := settled.call behaviour first
    obtain ⟨final, finalTime⟩ := ih after
    dsimp only [Scheduler.run]
    rw [← append_assoc]
    rw [time] at finalTime
    exact ⟨final, finalTime⟩

/-- The scheduler after any calls, for tasks of any behaviour: the time is the
largest one processed so far; exactly the tasks that are due have been
executed, each once, by time and within one time in order of adding, while the
simulation had their time; the time never ran backwards; and the map holds the
tasks that are still to come. -/
theorem scheduler_executes (client : σ) (calls : List (Call τ)) :
    let (final, events) := Scheduler.run behaviour ⟨fresh, client⟩ calls
    final.scheduler.simulationTime = horizon calls ∧
      (executed events).Perm ((added events).filter fun e => e.1 ≤ horizon calls) ∧
        (executed events).Pairwise (fun first second =>
            first.1 ≤ second.1) ∧
          (∀ time ≤ horizon calls,
              bucket Prod.fst (executed events) time = bucket Prod.fst (added events) time) ∧
            (events.map Event.time).Pairwise (· ≤ ·) ∧ ∀ time, final.scheduler.tasks time =
                  if time ≤ horizon calls then []
                  else (bucket Prod.fst (added events) time).map Prod.snd := by
  have start : Settled (State.mk fresh client).scheduler ([] : List (Event τ)) := settled_fresh
  obtain ⟨settled, time⟩ := start.run behaviour calls
  rw [nil_append] at settled
  have time : (Scheduler.run behaviour ⟨fresh, client⟩
        calls).1.scheduler.simulationTime = horizon calls := time
  have sorted := settled.executed
  rw [take_length, ← buckets_succ, time] at sorted
  refine ⟨time, ?_, ?_, ?_, settled.ordered, ?_⟩
  · rw [sorted]
    simpa only [Nat.lt_succ_iff] using buckets_perm (added _) (horizon calls + 1)
  · rw [sorted]
    exact buckets_pairwise _ _
  · intro moment due
    rw [sorted, bucket_buckets, if_pos (Nat.lt_succ_of_le due)]
  · intro moment
    rw [settled.tasks, time]
    simp only [Nat.lt_succ_iff]

end Scheduler

end AutomatonCore.Network
