import AutomatonCore.Io.Hex
import AutomatonCore.Library.GuardedRun

/-!
# Sending over TCP

`tcp_connection::async_send` and `disconnect`.  The operations of a socket are
performed in the order in which they were started, and their handlers are
called later.  The calls of `async_send` are numbered, so that messages with
the same id can be told apart; the numbers and the list of performed operations
are history.
-/

namespace AutomatonCore.Network.Tcp

open Io Library List

inductive StatusCode where
  | ok
  | aborted
  | unknown
  | internal
  | invalidArgument
  deriving DecidableEq, Repr

structure Status where
  code : StatusCode
  message : Bytes := []
  deriving DecidableEq, Repr

inductive WriteError where
  | brokenPipe (message : Bytes)
  | operationAborted
  | other (message : Bytes)
  deriving DecidableEq, Repr

inductive Outcome where
  | wrote (count : Nat)
  | failed (error : WriteError)
  deriving DecidableEq, Repr

/-- One `async_write_some` with the variables that its handler captures. -/
structure Operation where
  ticket : Nat
  id : Nat
  message : Bytes
  deriving DecidableEq, Repr

structure Performed where
  operation : Operation
  outcome : Outcome
  deriving DecidableEq, Repr

namespace Performed

def sent (done : Performed) : Bytes :=
  match done.outcome with
  | .wrote count => done.operation.message.take count
  | .failed _ => []

/-- What an operation that was successful should have put there. -/
def intended (done : Performed) : Bytes :=
  match done.outcome with
  | .wrote _ => done.operation.message
  | .failed _ => []

/-- A successful operation writes at least one byte of its buffer. -/
def Possible (done : Performed) : Prop :=
  match done.outcome with
  | .wrote count => 1 ≤ count ∧ count ≤ done.operation.message.length
  | .failed _ => True

instance : (done : Performed) → Decidable done.Possible
  | ⟨_, .wrote _⟩ => inferInstanceAs (Decidable (_ ∧ _))
  | ⟨_, .failed _⟩ => .isTrue trivial

def Whole (done : Performed) : Prop :=
  match done.outcome with
  | .wrote count => count = done.operation.message.length
  | .failed _ => True

end Performed

structure Report where
  ticket : Nat
  id : Nat
  status : Status
  deriving DecidableEq, Repr

structure TcpConnection where
  tcpInitialized : Bool := true
  isOpen : Bool := true
  /-- The operations that wait for the socket. -/
  started : List Operation := []
  /-- The operations whose handlers have not been called. -/
  finished : List Performed := []
  /-- The bytes that the socket has taken. -/
  written : Bytes := []
  reports : List Report := []
  /-- All calls of `async_send`: the message and its id. -/
  sends : List (Bytes × Nat) := []
  performed : List Performed := []
  deriving Repr

namespace TcpConnection

def report (conn : TcpConnection) (ticket id : Nat) (status : Status) : TcpConnection :=
  { conn with reports := conn.reports ++ [⟨ticket, id, status⟩] }

/-- Every message is given to one `async_write_some` of the socket. -/
def asyncSend (conn : TcpConnection) (msg : Bytes) (id : Nat) : TcpConnection :=
  let ticket := conn.sends.length
  let called := { conn with sends := conn.sends ++ [(msg, id)] }
  if conn.tcpInitialized ∧ conn.isOpen ∧ msg.length > 0 then
    { called with started := conn.started ++ [⟨ticket, id, msg⟩] }
  else if ¬ conn.tcpInitialized then
    called.report ticket id ⟨.internal, text "Not initialized"⟩
  else if msg.length ≤ 0 then called.report ticket id ⟨.invalidArgument, text "Message too short"⟩
  else called.report ticket id ⟨.internal, text "Socket closed or not yet connected"⟩

/-- Closing the socket cancels the operations that have not been performed. -/
def disconnect (conn : TcpConnection) : TcpConnection :=
  if conn.isOpen then
    let cancelled : List Performed :=
      conn.started.map fun operation => ⟨operation, .failed .operationAborted⟩
    { conn with
      isOpen := false
      started := []
      finished := conn.finished ++ cancelled
      performed := conn.performed ++ cancelled }
  else conn

/-- The handler of `async_write_some`; it does not look at the number of
bytes. -/
def onWritten (conn : TcpConnection) (done : Performed) : TcpConnection :=
  let sent := conn.report done.operation.ticket done.operation.id
  match done.outcome with
  | .wrote _ => sent ⟨.ok, []⟩
  | .failed (.brokenPipe message) => (sent ⟨.aborted, message⟩).disconnect
  | .failed .operationAborted => sent ⟨.aborted, text "Operation cancelled!"⟩
  | .failed (.other message) => sent ⟨.unknown, message⟩

/-- An operation that is performed writes a beginning of its buffer or
fails. -/
def write (conn : TcpConnection) (outcome : Outcome) : Except Unit TcpConnection :=
  match conn.started with
  | [] => .error ()
  | operation :: rest =>
    let done : Performed := ⟨operation, outcome⟩
    if done.Possible then
      .ok { conn with
        started := rest
        finished := conn.finished ++ [done]
        written := conn.written ++ done.sent
        performed := conn.performed ++ [done] }
    else .error ()

def callback (conn : TcpConnection) : Except Unit TcpConnection :=
  match conn.finished with
  | [] => .error ()
  | done :: rest => .ok ({ conn with finished := rest }.onWritten done)

end TcpConnection

inductive Event where
  | asyncSend (msg : Bytes) (id : Nat)
  | disconnect
  | write (outcome : Outcome)
  | callback

/-- An event that cannot happen is an error. -/
def step (conn : TcpConnection) : Event → Except Unit TcpConnection
  | .asyncSend msg id => .ok (conn.asyncSend msg id)
  | .disconnect => .ok conn.disconnect
  | .write outcome => conn.write outcome
  | .callback => conn.callback

/-- A successful write takes the whole buffer of its operation. -/
def WritesAll (conn : TcpConnection) : Event → Prop
  | .write outcome => ∀ operation ∈ conn.started.head?, Performed.Whole ⟨operation, outcome⟩
  | _ => True

namespace TcpConnection

/-- A message that is reported as sent was written whole, and the socket has
taken the messages of the successful operations in the order of the calls. -/
structure SentWhole (conn : TcpConnection) : Prop where
  reported : ∀ report ∈ conn.reports, report.status.code = .ok → ∃ msg,
      conn.sends[report.ticket]? = some (msg, report.id) ∧
      ⟨⟨report.ticket, report.id, msg⟩, .wrote msg.length⟩ ∈ conn.performed
  inOrder : conn.written = (conn.performed.map Performed.intended).flatten
  increasing : (conn.performed.map (·.operation.ticket)).Pairwise (· < ·)

def operations (conn : TcpConnection) : List Operation :=
  conn.performed.map Performed.operation ++ conn.started

theorem write_eq_ok {conn next : TcpConnection} {outcome : Outcome}
    (written : conn.write outcome = .ok next) :
    ∃ operation rest, conn.started = operation :: rest ∧
        Performed.Possible ⟨operation, outcome⟩ ∧
        next =
          { conn with
            started := rest
            finished := conn.finished ++ [⟨operation, outcome⟩]
            written := conn.written ++ Performed.sent ⟨operation, outcome⟩
            performed := conn.performed ++ [⟨operation, outcome⟩] } := by
  unfold write at written
  split at written
  · cases written
  next operation rest first =>
    dsimp only at written
    split at written
    next possible =>
      exact ⟨operation, rest, first, possible, (Except.ok.inj written).symm⟩
    · cases written

theorem callback_eq_ok {conn next : TcpConnection} (called : conn.callback = .ok next) :
    ∃ done rest, conn.finished = done :: rest ∧
        next = { conn with finished := rest }.onWritten done := by
  unfold callback at called
  split at called
  · cases called
  next done rest finished =>
    exact ⟨done, rest, finished, (Except.ok.inj called).symm⟩

structure Ledger (conn : TcpConnection) : Prop where
  written : conn.written = (conn.performed.map Performed.sent).flatten
  possible : ∀ done ∈ conn.performed, done.Possible
  finished : conn.finished ⊆ conn.performed
  reported :
    ∀ report ∈ conn.reports, report.status.code = .ok → ∃ done ∈ conn.performed,
      done.operation.ticket = report.ticket ∧
      done.operation.id = report.id ∧ ∃ count, done.outcome = .wrote count
  called : ∀ operation ∈ conn.operations,
      conn.sends[operation.ticket]? = some (operation.message, operation.id)
  increasing : (conn.operations.map Operation.ticket).Pairwise (· < ·)

namespace Ledger

variable {conn next : TcpConnection}

theorem report (ledger : conn.Ledger) {ticket id : Nat} {status : Status} (justified :
      status.code = .ok → ∃ done ∈ conn.performed,
        done.operation.ticket = ticket ∧ done.operation.id = id ∧
        ∃ count, done.outcome = .wrote count) :
    (conn.report ticket id status).Ledger where
  written := ledger.written
  possible := ledger.possible
  finished := ledger.finished
  reported := by
    intro other mem success
    rcases mem_append.mp mem with before | new
    · exact ledger.reported other before success
    · obtain rfl := mem_singleton.mp new
      exact justified success
  called := ledger.called
  increasing := ledger.increasing

theorem call (ledger : conn.Ledger) (msg : Bytes) (id : Nat) :
    Ledger { conn with sends := conn.sends ++ [(msg, id)] } where
  written := ledger.written
  possible := ledger.possible
  finished := ledger.finished
  reported := ledger.reported
  called := by
    intro operation mem
    have found := ledger.called operation mem
    rw [List.getElem?_append_left (List.getElem?_eq_some_iff.mp found).1]
    exact found
  increasing := ledger.increasing

theorem ticket_lt (ledger : conn.Ledger) {operation : Operation}
    (mem : operation ∈ conn.operations) : operation.ticket < conn.sends.length :=
  (List.getElem?_eq_some_iff.mp (ledger.called operation mem)).1

theorem asyncSend (ledger : conn.Ledger) (msg : Bytes) (id : Nat) :
    (conn.asyncSend msg id).Ledger := by
  have called := ledger.call msg id
  unfold TcpConnection.asyncSend
  split
  · have operations : operations
            { conn with
              sends := conn.sends ++ [(msg, id)],
              started := conn.started ++ [⟨conn.sends.length, id, msg⟩] } =
          conn.operations ++ [⟨conn.sends.length, id, msg⟩] :=
      (append_assoc _ _ _).symm
    refine ⟨called.written, called.possible, called.finished, called.reported, ?_, ?_⟩
    · rw [operations]
      intro operation mem
      rcases mem_append.mp mem with before | new
      · exact called.called operation before
      · obtain rfl := mem_singleton.mp new
        simp
    · rw [operations, map_append, pairwise_append]
      refine ⟨ledger.increasing, pairwise_singleton _ _, ?_⟩
      intro ticket before other new
      obtain ⟨operation, mem, rfl⟩ := mem_map.mp before
      obtain rfl := mem_singleton.mp new
      exact ledger.ticket_lt mem
  · split
    · exact called.report (fun success => by cases success)
    · split
      · exact called.report (fun success => by cases success)
      · exact called.report (fun success => by cases success)

theorem perform (ledger : conn.Ledger) {done : List Performed}
    {rest : List Operation} (first : conn.started = done.map Performed.operation ++ rest)
    (possible : ∀ e ∈ done, e.Possible) (isOpen : Bool) :
    Ledger
      { conn with
        isOpen := isOpen
        started := rest
        finished := conn.finished ++ done
        written := conn.written ++ (done.map Performed.sent).flatten
        performed := conn.performed ++ done } := by
  have operations : operations
          { conn with
            isOpen := isOpen
            started := rest
            finished := conn.finished ++ done
            written := conn.written ++ (done.map Performed.sent).flatten
            performed := conn.performed ++ done } = conn.operations := by
    simp only [TcpConnection.operations, first, map_append, append_assoc]
  refine ⟨?_, ?_, ?_, ?_, ?_, ?_⟩
  · rw [ledger.written, map_append, flatten_append]
  · intro e mem
    rcases mem_append.mp mem with before | new
    · exact ledger.possible e before
    · exact possible e new
  · intro e mem
    rcases mem_append.mp mem with before | new
    · exact mem_append_left _ (ledger.finished before)
    · exact mem_append_right _ new
  · intro report mem success
    obtain ⟨e, inside, same⟩ := ledger.reported report mem success
    exact ⟨e, mem_append_left _ inside, same⟩
  · rw [operations]
    exact ledger.called
  · rw [operations]
    exact ledger.increasing

theorem disconnect (ledger : conn.Ledger) : conn.disconnect.Ledger := by
  unfold TcpConnection.disconnect
  split
  · have first : conn.started = (conn.started.map fun operation =>
            (⟨operation, .failed .operationAborted⟩ : Performed)).map
              Performed.operation ++ [] := by
      rw [map_map, append_nil]
      exact (map_id _).symm
    have nothing : ((conn.started.map fun operation =>
          (⟨operation, .failed .operationAborted⟩ : Performed)).map
            Performed.sent).flatten = [] := by
      rw [flatten_eq_nil_iff]
      intro bytes mem
      rw [map_map] at mem
      obtain ⟨_, _, rfl⟩ := mem_map.mp mem
      rfl
    have performed :=
      ledger.perform first (fun e mem => by
          obtain ⟨_, _, rfl⟩ := mem_map.mp mem
          trivial)
        false
    rwa [nothing, append_nil] at performed
  · exact ledger

theorem write (ledger : conn.Ledger) {outcome : Outcome}
    (written : conn.write outcome = .ok next) : next.Ledger := by
  obtain ⟨operation, rest, first, possible, rfl⟩ := write_eq_ok written
  have taken : conn.started = [⟨operation, outcome⟩].map Performed.operation ++ rest := first
  have performed := ledger.perform taken (by simpa using possible) conn.isOpen
  simpa using performed

theorem onWritten (ledger : conn.Ledger) {done : Performed}
    (mem : done ∈ conn.performed) : (conn.onWritten done).Ledger := by
  unfold TcpConnection.onWritten
  split
  next count outcome =>
    exact ledger.report fun _ => ⟨done, mem, rfl, rfl, count, outcome⟩
  · exact (ledger.report fun success => by cases success).disconnect
  · exact ledger.report fun success => by cases success
  · exact ledger.report fun success => by cases success

theorem callback (ledger : conn.Ledger)
    (called : conn.callback = .ok next) : next.Ledger := by
  obtain ⟨done, rest, finished, rfl⟩ := callback_eq_ok called
  have inside := ledger.finished
  rw [finished, cons_subset] at inside
  have taken : Ledger { conn with finished := rest } :=
    ⟨ledger.written, ledger.possible, inside.2, ledger.reported, ledger.called, ledger.increasing⟩
  exact taken.onWritten inside.1

theorem step (ledger : conn.Ledger) {event : Event}
    (stepped : step conn event = .ok next) : next.Ledger := by
  cases event with
  | asyncSend msg id =>
    cases stepped
    exact ledger.asyncSend msg id
  | disconnect =>
    cases stepped
    exact ledger.disconnect
  | write outcome => exact ledger.write stepped
  | callback => exact ledger.callback stepped

end Ledger

theorem ledger_fresh : Ledger {} where
  written := rfl
  possible := by simp
  finished := List.Subset.refl _
  reported := by simp
  called := by simp [operations]
  increasing := List.Pairwise.nil

/-! ## Whole messages -/

def AllWhole (conn : TcpConnection) : Prop :=
  ∀ done ∈ conn.performed, done.Whole

variable {conn next reached : TcpConnection}

theorem allWhole_disconnect : conn.disconnect.AllWhole ↔ conn.AllWhole := by
  unfold disconnect
  split
  · constructor
    · intro whole done mem
      exact whole done (mem_append_left _ mem)
    · intro whole done mem
      rcases mem_append.mp mem with before | cancelled
      · exact whole done before
      · obtain ⟨_, _, rfl⟩ := mem_map.mp cancelled
        trivial
  · rfl

theorem allWhole_asyncSend (msg : Bytes) (id : Nat) :
    (conn.asyncSend msg id).AllWhole ↔ conn.AllWhole := by
  unfold asyncSend
  split_ifs <;> rfl

theorem allWhole_onWritten (done : Performed) :
    (conn.onWritten done).AllWhole ↔ conn.AllWhole := by
  unfold onWritten
  split
  · rfl
  · exact allWhole_disconnect
  · rfl
  · rfl

theorem allWhole_step {event : Event} (stepped : step conn event = .ok next) :
    next.AllWhole ↔ conn.AllWhole ∧ WritesAll conn event := by
  cases event with
  | asyncSend msg id =>
    cases stepped
    rw [allWhole_asyncSend]
    exact (and_iff_left trivial).symm
  | disconnect =>
    cases stepped
    rw [allWhole_disconnect]
    exact (and_iff_left trivial).symm
  | write outcome =>
    obtain ⟨operation, rest, first, _, rfl⟩ := write_eq_ok stepped
    simp only [AllWhole, mem_append, mem_singleton, or_imp,
      forall_and, forall_eq, WritesAll, first, head?_cons, Option.mem_some_iff, forall_eq']
  | callback =>
    obtain ⟨done, rest, _, rfl⟩ := callback_eq_ok stepped
    rw [allWhole_onWritten]
    exact (and_iff_left trivial).symm

theorem allWhole_run {events : List Event} (ran : events.foldlM step conn = .ok reached) :
    reached.AllWhole ↔ conn.AllWhole ∧ Guarded step WritesAll conn events := by
  induction events generalizing conn with
  | nil =>
    cases ran
    exact (and_iff_left trivial).symm
  | cons event rest ih =>
    rw [foldlM_cons] at ran
    obtain ⟨next, stepped, ran⟩ := bind_eq_ok_iff.mp ran
    rw [ih ran, allWhole_step stepped, and_assoc]
    simp only [Guarded, stepped, Except.ok.injEq, forall_eq']

theorem length_sent_le (done : Performed) : done.sent.length ≤ done.intended.length := by
  unfold Performed.sent Performed.intended
  split
  · exact length_take_le' _ _
  · exact Nat.le_refl _

theorem lengths_eq {entries : List Performed} (same :
      (entries.map Performed.intended).flatten.length ≤
        (entries.map Performed.sent).flatten.length) :
    ∀ done ∈ entries, done.intended.length = done.sent.length := by
  have shorter (entries : List Performed) : (entries.map Performed.sent).flatten.length ≤
        (entries.map Performed.intended).flatten.length := by
    induction entries with
    | nil => exact Nat.le_refl 0
    | cons done entries ih =>
      have first := length_sent_le done
      simp only [map_cons, flatten_cons, length_append]
      omega
  induction entries with
  | nil => simp
  | cons done entries ih =>
    have first := length_sent_le done
    have others := shorter entries
    simp only [map_cons, flatten_cons, length_append] at same
    rw [forall_mem_cons]
    exact ⟨by omega, ih (by omega)⟩

theorem sent_of_whole {done : Performed} (whole : done.Whole) : done.sent = done.intended := by
  unfold Performed.Whole at whole
  unfold Performed.sent Performed.intended
  split
  next count outcome =>
    rw [outcome] at whole
    rw [whole, take_length]
  · rfl

theorem whole_of_length {done : Performed} (possible : done.Possible)
    (same : done.intended.length = done.sent.length) : done.Whole := by
  unfold Performed.Possible at possible
  unfold Performed.sent Performed.intended at same
  unfold Performed.Whole
  split
  next count outcome =>
    rw [outcome] at possible same
    dsimp only at possible same
    rw [length_take] at same
    omega
  · trivial

theorem Ledger.sentWhole_iff (ledger : conn.Ledger) :
    conn.SentWhole ↔ conn.AllWhole := by
  constructor
  · intro sentWhole done mem
    have lengths : ∀ done ∈ conn.performed, done.intended.length = done.sent.length := by
      apply lengths_eq
      exact Nat.le_of_eq (by rw [← sentWhole.inOrder, ledger.written])
    exact whole_of_length (ledger.possible done mem) (lengths done mem)
  · intro whole
    refine ⟨?_, ?_, ?_⟩
    · intro report mem success
      obtain ⟨⟨operation, outcome⟩, inside, ticket, id, count, rfl⟩ :=
        ledger.reported report mem success
      obtain rfl : count = operation.message.length := whole _ inside
      have found := ledger.called operation (mem_append_left _ (mem_map_of_mem inside))
      rw [← ticket, ← id]
      exact ⟨operation.message, found, inside⟩
    · rw [ledger.written]
      congr 1
      exact map_congr_left fun done mem => sent_of_whole (whole done mem)
    · have increasing := ledger.increasing
      rw [operations, map_append, map_map] at increasing
      exact (pairwise_append.mp increasing).1

/-- In every run from an open connection: what is reported as sent was sent
whole and in order if and only if every successful write took its whole
buffer. -/
theorem sentWhole_iff_writesAll {events : List Event} (ran : events.foldlM step {} = .ok reached) :
    reached.SentWhole ↔ Guarded step WritesAll {} events := by
  have ledger : reached.Ledger := by
    have always : Guarded step (fun _ _ => True) {} events := Guarded.of_forall fun _ _ _ => trivial
    exact Guarded.reached (fun _ _ _ ledger _ stepped => ledger.step stepped)
      ledger_fresh always ran
  rw [ledger.sentWhole_iff, allWhole_run ran]
  exact and_iff_right (by simp [AllWhole])

def twoSends (count : Nat) : List Event :=
  [.asyncSend (text "ab") 1, .asyncSend (text "cd") 2,
    .write (.wrote count), .callback, .write (.wrote 2), .callback]

def afterTwoSends (count : Nat) : TcpConnection :=
  { written := (text "ab").take count ++ text "cd"
    reports := [⟨0, 1, ⟨.ok, []⟩⟩, ⟨1, 2, ⟨.ok, []⟩⟩]
    sends := [(text "ab", 1), (text "cd", 2)]
    performed :=
      [⟨⟨0, 1, text "ab"⟩, .wrote count⟩, ⟨⟨1, 2, text "cd"⟩, .wrote 2⟩] }

theorem twoSends_whole :
    (twoSends 2).foldlM step {} = .ok (afterTwoSends 2) ∧ (afterTwoSends 2).SentWhole := by
  have ran : (twoSends 2).foldlM step {} = .ok (afterTwoSends 2) := rfl
  have whole : (afterTwoSends 2).AllWhole := by
    unfold AllWhole afterTwoSends Performed.Whole
    simp [text]
  exact ⟨ran, (sentWhole_iff_writesAll ran).mpr ((allWhole_run ran).mp whole).2⟩

theorem twoSends_partial :
    (twoSends 1).foldlM step {} = .ok (afterTwoSends 1) ∧
      (⟨0, 1, ⟨.ok, []⟩⟩ : Report) ∈ (afterTwoSends 1).reports ∧
      (afterTwoSends 1).written = text "acd" ∧
      ¬ (afterTwoSends 1).SentWhole := by
  refine ⟨rfl, mem_cons_self, rfl, ?_⟩
  intro sentWhole
  exact absurd sentWhole.inOrder (by decide)

end TcpConnection

end AutomatonCore.Network.Tcp
