import AutomatonCore.Library.GuardedRun
import AutomatonCore.Network.HttpSession

/-!
# Requests on one HTTP session
-/

namespace AutomatonCore.Network

open Io List
open AutomatonCore.Interop.Ethereum (ok_bind pure_eq_ok)
open Library
open HttpRequest

/-! ## One header, one body -/

namespace HttpSession

theorem readBody_whole {body : Bytes} {bodySize : Nat}
    (long : bodySize ≤ body.length) (pending : Pending) (handled : List Bytes) :
    readBody ⟨[], body, pending, handled⟩ bodySize =
      ⟨body.drop bodySize, [], .response, handled ++ [body.take bodySize]⟩ := by
  unfold readBody
  rw [if_neg (not_lt.mpr long)]
  rcases Nat.eq_or_lt_of_le long with same | more
  · simp [same]
  · simp [more]

theorem readHeader_header (req : HttpRequest) (surplus : Bytes)
    (pending : Pending) (handled : List Bytes) :
    readHeader ⟨req.header ++ surplus, [], pending, handled⟩ = .ok (if req.body ≠ [] then
        readBody ⟨[], surplus, pending, handled⟩ req.body.length
      else ⟨[], surplus, .header, handled⟩) := by
  have long := req.four_le_length_header
  have found : firstOccurrence separator (req.header ++ surplus) = some (req.header.length - 4) :=
    firstOccurrence_headerBytes req.lines_ne_nil req.plain surplus
  have pos : req.header.length - 4 + 4 = req.header.length := Nat.sub_add_cancel long
  have cut : (if req.header.length < (req.header ++ surplus).length then
        (⟨(req.header ++ surplus).take req.header.length,
          (req.header ++ surplus).drop req.header.length, pending, handled⟩ : HttpSession)
      else ⟨req.header ++ surplus, [], pending, handled⟩) =
        ⟨req.header, surplus, pending, handled⟩ := by
    rw [take_left, drop_left]
    split
    · rfl
    next equal =>
      obtain rfl : surplus = [] := by
        rw [length_append] at equal
        exact length_eq_zero_iff.mp (by omega)
      rw [append_nil]
  unfold readHeader
  simp only [found, pos, cut, parseHeader_header, ok_bind, pure_eq_ok, ne_eq, length_eq_zero_iff]
  exact (apply_ite Except.ok _ _ _).symm

end HttpSession

/-! ## What holds between two events -/

open HttpSession

/-- The requests `done` have been handled; what the session keeps and what is
unread are together the rest of the stream. -/
inductive Serving (requests : List HttpRequest) : HttpConnection → Prop
  | header {done rest : List HttpRequest} {header unread : Bytes} (split : requests = done ++ rest)
      (whole : header ++ unread = stream rest) (opened : firstOccurrence separator header = none) :
      Serving requests ⟨⟨header, [], .header, bodies done⟩, unread⟩
  | body {done later : List HttpRequest} {request : HttpRequest}
      {body unread : Bytes}
      (split : requests = done ++ request :: later)
      (whole : body ++ unread = request.body ++ stream later)
      (short : body.length < request.body.length) :
      Serving requests ⟨⟨[], body, .body request.body.length, bodies done⟩, unread⟩
  | response {done rest : List HttpRequest} {header unread : Bytes}
      (split : requests = done ++ rest) (whole : header ++ unread = stream rest)
      (ahead : ∀ finish ∈ bodylessEnds (stream done).length rest,
        (stream done).length + header.length ≤ finish) :
      Serving requests ⟨⟨header, [], .response, bodies done⟩, unread⟩

theorem stream_append_singleton (done : List HttpRequest) (req : HttpRequest) :
    (stream (done ++ [req])).length = (stream done).length + req.bytes.length := by
  simp [stream]

variable {req : HttpRequest} {later requests done rest : List HttpRequest}
  {header unread : Bytes} {c : HttpConnection}

theorem bodies_append_singleton (done : List HttpRequest) (ne : req.body ≠ []) :
    bodies (done ++ [req]) = bodies done ++ [req.body] := by
  simp [bodies, ne]

theorem bodies_append_bodyless (done : List HttpRequest) (empty : req.body = []) :
    bodies (done ++ [req]) = bodies done := by
  simp [bodies, empty]

variable {finish count : Nat} {body : Bytes}

theorem bodylessEnds_cons_append (start : Nat) (rest : List HttpRequest)
    (mem : finish ∈ bodylessEnds (start + req.bytes.length) rest) :
    finish ∈ bodylessEnds start (req :: rest) := by
  rw [bodylessEnds]
  split
  · exact mem_cons_of_mem _ mem
  · exact mem

theorem length_lt_of_opened (whole : header ++ unread = stream (req :: later))
    (opened : firstOccurrence separator header = none) : header.length < req.header.length := by
  by_contra long
  rw [stream_cons] at whole
  rw [eq_take_of_append whole, firstOccurrence_take_stream, if_pos (not_lt.mp long)] at opened
  cases opened

theorem readBody_serving (split : requests = done ++ req :: later)
    (ne : req.body ≠ []) (whole : body ++ unread = req.body ++ stream later)
    (ahead : ∀ finish ∈ bodylessEnds ((stream done).length + req.bytes.length) later,
      (stream done).length + req.header.length + body.length ≤ finish) (pending : Pending) :
    Serving requests ⟨readBody ⟨[], body, pending, bodies done⟩ req.body.length, unread⟩ := by
  rcases lt_or_ge body.length req.body.length with short | long
  · have waits : readBody ⟨[], body, pending, bodies done⟩
          req.body.length = ⟨[], body, .body req.body.length, bodies done⟩ :=
      if_pos short
    rw [waits]
    exact .body split whole short
  · obtain ⟨surplus, rfl, left⟩ := exists_append_of_le whole long
    rw [readBody_whole long, take_left, drop_left, ← bodies_append_singleton done ne]
    refine .response (by simp [split]) left ?_
    intro finish mem
    rw [stream_append_singleton] at mem ⊢
    have bound := ahead finish mem
    rw [length_append] at bound
    rw [length_bytes]
    omega

theorem readHeader_serving (split : requests = done ++ rest)
    (whole : header ++ unread = stream rest)
    (ahead : ∀ finish ∈ bodylessEnds (stream done).length rest,
      (stream done).length + header.length ≤ finish) (pending : Pending) :
    ∃ session, readHeader ⟨header, [], pending, bodies done⟩ = .ok session ∧
      Serving requests ⟨session, unread⟩ := by
  cases opened : firstOccurrence separator header with
  | none =>
    refine ⟨⟨header, [], .header, bodies done⟩, ?_, .header split whole opened⟩
    unfold readHeader
    rw [opened]
  | some pos =>
    cases rest with
    | nil =>
      obtain ⟨rfl, -⟩ := append_eq_nil_iff.mp whole
      cases opened
    | cons req later =>
      rw [stream_cons] at whole
      have long : req.header.length ≤ header.length := by
        by_contra short
        rw [eq_take_of_append whole, firstOccurrence_take_stream, if_neg short] at opened
        cases opened
      obtain ⟨surplus, rfl, left⟩ := exists_append_of_le whole long
      rw [readHeader_header]
      refine ⟨_, rfl, ?_⟩
      split_ifs with ne
      · refine readBody_serving split ne left ?_ pending
        intro finish mem
        have bound := ahead finish (bodylessEnds_cons_append _ later mem)
        rw [length_append] at bound
        omega
      · -- the bound on the end of this request leaves no surplus
        have empty : req.body = [] := not_not.mp ne
        have own : (stream done).length + req.bytes.length ∈
            bodylessEnds (stream done).length (req :: later) := by
          rw [bodylessEnds, if_pos empty]
          exact mem_cons_self
        have bound := ahead _ own
        rw [length_bytes, empty, length_append, length_nil] at bound
        obtain rfl : surplus = [] := length_eq_zero_iff.mp (by omega)
        have split : requests = (done ++ [req]) ++ later := by simp [split]
        rw [empty] at left
        rw [← bodies_append_bodyless done empty]
        exact .header split left rfl

/-! ## Runs -/

/-- The condition on a read: no request without a body ends inside of it,
before its last byte. -/
def KeepsEnds (requests : List HttpRequest) (conn : HttpConnection) : HttpEvent → Prop
  | .written => True
  | .read size =>
    let received := (stream requests).length - conn.unread.length
    ∀ finish ∈ bodylessEnds 0 requests,
      ¬ (received < finish ∧ finish < received + conn.readSize size)

instance (requests : List HttpRequest) (conn : HttpConnection)
    (event : HttpEvent) : Decidable (KeepsEnds requests conn event) :=
  match event with
  | .written => inferInstanceAs (Decidable True)
  | .read size =>
    inferInstanceAs (Decidable (∀ finish ∈ bodylessEnds 0 requests,
      ¬ ((stream requests).length - conn.unread.length < finish ∧
      finish < (stream requests).length - conn.unread.length + conn.readSize size)))

/-- The handler has got the bodies of the requests that have been received,
once each and in order; only while a response is being written, it may be
behind.  The pending read is one that the stream can satisfy. -/
structure Served (requests : List HttpRequest) (conn : HttpConnection) : Prop where
  inOrder : conn.session.handled <+: bodies requests
  upToDate : conn.session.pending ≠ .response → conn.session.handled =
      bodies (complete ((stream requests).length - conn.unread.length) requests)
  finished : conn.session.pending ≠ .response →
    conn.unread = [] → conn.session.handled = bodies requests
  proceeds : conn.session.pending ≠ .response →
    conn.unread ≠ [] → 0 < conn.readSize 1

theorem mem_bodylessEnds (split : requests = done ++ rest)
    (mem : finish ∈ bodylessEnds (stream done).length rest) : finish ∈ bodylessEnds 0 requests := by
  rw [split, bodylessEnds_append, zero_add]
  exact mem_append_right _ mem

theorem received_eq
    {kept : Bytes} (split : requests = done ++ rest) (whole : kept ++ unread = stream rest) :
    (stream requests).length - unread.length = (stream done).length + kept.length := by
  rw [split, stream_append, ← whole]
  simp only [length_append]
  omega

theorem Serving.read_header (split : requests = done ++ rest)
    (whole : header ++ unread = stream rest) (opened : firstOccurrence separator header = none)
    (kept : ∀ finish ∈ bodylessEnds 0 requests, ¬ ((stream done).length + header.length < finish ∧
      finish < (stream done).length + header.length + count)) :
    ∃ session, readHeader ⟨header ++ unread.take count, [], .header, bodies done⟩ = .ok session ∧
      Serving requests ⟨session, unread.drop count⟩ := by
  have piece : header ++ unread.take count ++ unread.drop count = stream rest := by
    rw [append_assoc, take_append_drop, whole]
  refine readHeader_serving split piece ?_ .header
  intro finish mem
  have strict : (stream done).length + header.length < finish := by
    cases rest with
    | nil => cases mem
    | cons req later =>
      have short := length_lt_of_opened whole opened
      have reaches := le_of_mem_bodylessEnds mem
      rw [length_bytes] at reaches
      omega
  have stops : ¬ finish < (stream done).length + header.length + count :=
    fun passed => kept finish (mem_bodylessEnds split mem) ⟨strict, passed⟩
  rw [length_append, length_take]
  omega

theorem Serving.read_body (split : requests = done ++ req :: later)
    (whole : body ++ unread = req.body ++ stream later) (short : body.length < req.body.length)
    (inside : count ≤ req.body.length - body.length) (pending : Pending) :
    Serving requests ⟨readBody ⟨[], body ++ unread.take count, pending, bodies done⟩
        req.body.length, unread.drop count⟩ := by
  have ne : req.body ≠ [] := ne_nil_of_length_pos (Nat.zero_lt_of_lt short)
  have piece : body ++ unread.take count ++ unread.drop count = req.body ++ stream later := by
    rw [append_assoc, take_append_drop, whole]
  refine readBody_serving split ne piece ?_ pending
  intro finish mem
  have beyond := lt_of_mem_bodylessEnds mem
  rw [length_bytes] at beyond
  rw [length_append, length_take]
  omega

theorem Serving.step (serving : Serving requests c)
    {event : HttpEvent} (kept : KeepsEnds requests c event) :
    ∃ next, c.step event = .ok next ∧ Serving requests next := by
  cases event with
  | written =>
    cases serving with
    | header split whole opened => exact ⟨_, rfl, .header split whole opened⟩
    | body split whole short => exact ⟨_, rfl, .body split whole short⟩
    | response split whole ahead =>
      obtain ⟨session, read, serving⟩ := readHeader_serving split whole ahead .response
      refine ⟨⟨session, _⟩, ?_, serving⟩
      simp only [HttpConnection.step, respond, read, ok_bind, pure_eq_ok]
  | read size =>
    by_cases idle : c.readSize size = 0
    · refine ⟨c, ?_, serving⟩
      simp only [HttpConnection.step, idle, if_true, pure_eq_ok]
    simp only [HttpConnection.step, idle, if_false]
    cases serving with
    | header split whole opened =>
      simp only [KeepsEnds, received_eq split whole] at kept
      obtain ⟨session, read, serving⟩ := Serving.read_header split whole opened kept
      refine ⟨⟨session, _⟩, ?_, serving⟩
      simp only [receive, read, ok_bind, pure_eq_ok]
    | @body done later req body unread split whole short =>
      have length := congrArg List.length whole
      rw [length_append, length_append] at length
      refine ⟨_, rfl, Serving.read_body split whole short ?_ _⟩
      rw [HttpConnection.readSize_body (by omega)]
      exact min_le_right _ _
    | response split whole ahead => exact absurd rfl idle

/-! ## The main theorem -/

theorem complete_rest
    (whole : header ++ unread = stream rest) (opened : firstOccurrence separator header = none) :
    complete header.length rest = [] := by
  cases rest with
  | nil => rfl
  | cons req later =>
    have short := length_lt_of_opened whole opened
    refine complete_cons ?_ later
    rw [length_bytes]
    omega

theorem complete_stream (requests : List HttpRequest) :
    complete (stream requests).length requests = requests := by
  simpa [complete] using complete_append requests 0 []

theorem served_of_upToDate (inOrder : c.session.handled <+: bodies requests)
    (upToDate : c.session.handled =
      bodies (complete ((stream requests).length - c.unread.length) requests))
    (proceeds : c.unread ≠ [] → 0 < c.readSize 1) :
    Served requests c where
  inOrder := inOrder
  upToDate _ := upToDate
  finished _ nothing := by rw [upToDate, nothing, length_nil, Nat.sub_zero, complete_stream]
  proceeds _ := proceeds

theorem Serving.served (serving : Serving requests c) : Served requests c := by
  cases serving with
  | @header done rest header unread split whole opened =>
    refine served_of_upToDate ?_ ?_ ?_
    · simp [split]
    · simp only [received_eq split whole]
      rw [split, complete_append, complete_rest whole opened, append_nil]
    · intro more
      have : 0 < unread.length := length_pos_iff.mpr more
      rw [HttpConnection.readSize_header, bufferSize]
      omega
  | @body done later req body unread split whole short =>
    have length := congrArg List.length whole
    rw [length_append, length_append] at length
    refine served_of_upToDate ?_ ?_ ?_
    · simp [split]
    · have whole : (req.header ++ body) ++ unread = stream (req :: later) := by
        rw [stream_cons, append_assoc, whole]
      simp only [received_eq split whole]
      rw [split, complete_append, complete_cons, append_nil]
      rw [length_bytes, length_append]
      omega
    · intro _
      rw [HttpConnection.readSize_body (by omega), bufferSize]
      omega
  | response split whole ahead =>
    exact ⟨by simp [split], fun writing => absurd rfl writing,
      fun writing => absurd rfl writing, fun writing => absurd rfl writing⟩

/-- Whatever requests are sent and however the stream is cut into reads: as
long as no read goes beyond the end of a request without a body, the session
does not stop, and the handler gets every body of a request once and in
order. -/
theorem session_serves (requests : List HttpRequest) {events : List HttpEvent}
    (guarded : Guarded HttpConnection.step (KeepsEnds requests) ⟨{}, stream requests⟩ events) :
    ∃ final, events.foldlM HttpConnection.step ⟨{}, stream requests⟩ = .ok final ∧
      Served requests final := by
  have start : Serving requests ⟨{}, stream requests⟩ :=
    Serving.header (nil_append requests).symm rfl rfl
  obtain ⟨final, ran, serving⟩ :=
    guarded.run (fun _ _ serving kept => Serving.step serving kept) start
  exact ⟨final, ran, serving.served⟩

def getRequest : HttpRequest where
  lines := [text "GET / HTTP/1.1"]
  body := []
  lines_ne_nil := by decide
  plain := by decide +kernel
  announced := .inl (by decide +kernel)
  small := by decide

def postRequest : HttpRequest where
  lines := [text "POST / HTTP/1.1", text "Content-Length: 2"]
  body := text "hi"
  lines_ne_nil := by decide
  plain := by decide +kernel
  announced := .inr ⟨text "2", by decide +kernel⟩
  small := by decide

theorem session_serves_three :
    let requests := [postRequest, getRequest, postRequest]
    let events : List HttpEvent := [.read 37, .read 21, .written, .read 1000, .written]
    (∃ final,
      events.foldlM HttpConnection.step ⟨{}, stream requests⟩ = .ok final ∧ Served requests final) ∧
      (events.foldlM HttpConnection.step ⟨{}, stream requests⟩).map
        (·.session.handled) = .ok [text "hi", text "hi"] :=
  ⟨session_serves [postRequest, getRequest, postRequest] (by decide +kernel), by decide +kernel⟩

/-- A request without a body and one with a body.  In one read, the second
request is lost.  If the first read takes two bytes of it and the second one
the rest of its header, these two bytes are handled as its body. -/
theorem bodyless_surplus_misplaced :
    let start : HttpConnection := ⟨{}, stream [getRequest, postRequest]⟩
    [HttpEvent.read 1024].foldlM HttpConnection.step start =
        .ok ⟨{ body := stream [postRequest] }, []⟩ ∧
      ([HttpEvent.read 20, .read 36].foldlM HttpConnection.step start).map
        (·.session.handled) = .ok [text "PO"] := by
  decide +kernel

end AutomatonCore.Network
