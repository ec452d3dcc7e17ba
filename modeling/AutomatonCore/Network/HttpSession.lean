import AutomatonCore.Interop.AbiTypes
import AutomatonCore.Library.Occurrence

/-!
# HTTP sessions

The session of `http_server.cc`.  The model keeps the bodies that were handed
to the handler and leaves out the responses.  A connection that fails or is
closed gives no further event.
-/

namespace AutomatonCore.Network

open Io List
open AutomatonCore.Interop.Ethereum (Result stoi)
open Library

def bufferSize : Nat :=
  1024

def separator : Bytes :=
  [13, 10, 13, 10]

def contentLength : Bytes :=
  text "Content-Length: "

/-- The operation that is pending between two calls of the session. -/
inductive Pending where
  /-- `async_read_some` of `read_header` -/
  | header
  /-- `async_read` of `read_body` -/
  | body (bodySize : Nat)
  /-- `async_write` of the response -/
  | response
  deriving DecidableEq, Repr

/-- `header` is what was read up to the empty line that ends a header, `body`
what was read behind it. -/
structure HttpSession where
  header : Bytes := []
  body : Bytes := []
  pending : Pending := .header
  /-- The arguments of `handler->handle` so far. -/
  handled : List Bytes := []
  deriving DecidableEq, Repr

/-- The lines that `std::getline` returns until it fails; the first argument
is the beginning of the current one. -/
def getlines (line : Bytes) : Bytes → List Bytes
  | [] => if line = [] then [] else [line]
  | c :: rest =>
    if c = 10 then line :: getlines [] rest else getlines (line ++ [c]) rest

/-- The loop that looks for the size of the body; the `int` is assigned to a
`uint32_t`. -/
def parseHeader (header : Bytes) : Result Nat :=
  match (getlines [] header).find? (fun line => line.take 16 = contentLength)
  with
  | none => .ok 0
  | some line => do
    let value ← stoi (line.drop 16)
    return (value % 2 ^ 32).toNat

namespace HttpSession

def readBody (session : HttpSession) (bodySize : Nat) : HttpSession :=
  if session.body.length < bodySize then { session with pending := .body bodySize }
  else
    let cut :=
      if session.body.length > bodySize then
        { session with
          header := session.body.drop bodySize
          body := session.body.take bodySize }
      else session
    { cut with
      body := []
      pending := .response
      handled := cut.handled ++ [cut.body] }

/-- A header that is too long is cut first; the recursive call of the source
finds the same position again.  After a header without a body the source calls
`read_header` with the empty string, which has to read. -/
def readHeader (session : HttpSession) : Result HttpSession :=
  match firstOccurrence separator session.header with
  | none => .ok { session with pending := .header }
  | some pos => do
    let cut :=
      if pos + 4 < session.header.length then
        { session with
          body := session.header.drop (pos + 4)
          header := session.header.take (pos + 4) }
      else session
    let bodySize ← parseHeader cut.header
    if bodySize ≠ 0 then return readBody { cut with header := [] } bodySize
    else return { cut with header := [], pending := .header }

def receive (session : HttpSession) (bytes : Bytes) : Result HttpSession :=
  match session.pending with
  | .header => readHeader { session with header := session.header ++ bytes }
  | .body bodySize => .ok (readBody { session with body := session.body ++ bytes } bodySize)
  | .response => .ok session

def respond (session : HttpSession) : Result HttpSession :=
  match session.pending with
  | .response => readHeader session
  | _ => .ok session

end HttpSession

/-! ## The stream -/

/-- A session, and what of the stream it has not read. -/
structure HttpConnection where
  session : HttpSession := {}
  unread : Bytes
  deriving DecidableEq, Repr

inductive HttpEvent where
  /-- A read finds so many bytes. -/
  | read (size : Nat)
  | written
  deriving DecidableEq, Repr

namespace HttpConnection

/-- How many bytes the pending read takes.  The read of a body waits until the
buffer is full or the body complete. -/
def readSize (conn : HttpConnection) (size : Nat) : Nat :=
  match conn.session.pending with
  | .header => min (min size bufferSize) conn.unread.length
  | .body bodySize =>
    let wanted := min bufferSize (bodySize - conn.session.body.length)
    if conn.unread.length < wanted then 0 else wanted
  | .response => 0

theorem readSize_header (header body : Bytes) (handled : List Bytes) (unread : Bytes) (size : Nat) :
    readSize ⟨⟨header, body, .header, handled⟩, unread⟩ size =
      min (min size bufferSize) unread.length :=
  rfl

theorem readSize_body {body unread : Bytes} {bodySize : Nat}
    (enough : min bufferSize (bodySize - body.length) ≤ unread.length)
    (header : Bytes) (handled : List Bytes) (size : Nat) :
    readSize ⟨⟨header, body, .body bodySize, handled⟩, unread⟩ size =
      min bufferSize (bodySize - body.length) :=
  if_neg (not_lt.mpr enough)

/-- A read of no bytes has not completed. -/
def step (conn : HttpConnection) : HttpEvent → Result HttpConnection
  | .read size => do
    let count := conn.readSize size
    if count = 0 then return conn
    else
      let session ← conn.session.receive (conn.unread.take count)
      return ⟨session, conn.unread.drop count⟩
  | .written => do
    let session ← conn.session.respond
    return { conn with session := session }

end HttpConnection

/-! ## Requests -/

/-- A request: header lines, of which at most one announces the length of the
body.  The first line is the request line. -/
structure HttpRequest where
  lines : List Bytes
  body : Bytes
  lines_ne_nil : lines ≠ []
  plain : ∀ line ∈ lines, line ≠ [] ∧ 13 ∉ line ∧ 10 ∉ line
  announced : lines.filter contentLength.isPrefixOf = [] ∧ body = [] ∨
      ∃ digits, digits ≠ [] ∧ (∀ c ∈ digits, isDigit c = true) ∧
      lines.filter contentLength.isPrefixOf = [contentLength ++ digits] ∧
      digitsValue digits = body.length
  small : body.length < 2 ^ 31

namespace HttpRequest

def headerBytes (lines : List Bytes) : Bytes :=
  lines.flatMap (· ++ [13, 10]) ++ [13, 10]

def header (request : HttpRequest) : Bytes :=
  headerBytes request.lines

def bytes (request : HttpRequest) : Bytes :=
  request.header ++ request.body

def stream (requests : List HttpRequest) : Bytes :=
  requests.flatMap bytes

def bodies (requests : List HttpRequest) : List Bytes :=
  (requests.map body).filter (· ≠ [])

def complete : Nat → List HttpRequest → List HttpRequest
  | _, [] => []
  | size, request :: rest =>
    if request.bytes.length ≤ size then request :: complete (size - request.bytes.length) rest
    else []

/-- Where the requests without a body end in a stream that starts at a
position. -/
def bodylessEnds : Nat → List HttpRequest → List Nat
  | _, [] => []
  | start, request :: rest =>
    let finish := start + request.bytes.length
    if request.body = [] then finish :: bodylessEnds finish rest
    else bodylessEnds finish rest

@[simp]
theorem headerBytes_cons (line : Bytes) (lines : List Bytes) :
    headerBytes (line :: lines) = line ++ 13 :: 10 :: headerBytes lines := by
  simp [headerBytes]

theorem headerBytes_nil : headerBytes [] = [13, 10] :=
  rfl

theorem stream_cons (req : HttpRequest) (rest : List HttpRequest) :
    stream (req :: rest) = req.header ++ (req.body ++ stream rest) := by
  simp [stream, bytes]

@[simp]
theorem stream_append (first second : List HttpRequest) :
    stream (first ++ second) = stream first ++ stream second := by
  simp [stream]

@[simp]
theorem bodies_append (first second : List HttpRequest) :
    bodies (first ++ second) = bodies first ++ bodies second := by
  simp [bodies]

@[simp]
theorem length_bytes (req : HttpRequest) :
    req.bytes.length = req.header.length + req.body.length := by
  simp [bytes]

/-! ### Where a header ends -/

variable {line : Bytes} {lines : List Bytes} {req : HttpRequest} {start finish : Nat}

theorem firstOccurrence_line (noReturn : 13 ∉ line) {more : Bytes} (next : more.head? ≠ some 13) :
    firstOccurrence separator (line ++ 13 :: 10 :: more) =
      (firstOccurrence separator more).map (· + (line.length + 2)) := by
  have lineEnd : firstOccurrence separator (13 :: 10 :: more) =
      (firstOccurrence separator more).map (· + 2) := by
    cases more with
    | nil => rfl
    | cons c more =>
      have ne : (13 : UInt8) ≠ c := fun same => next (same ▸ rfl)
      simp [firstOccurrence, separator, ne]
  rw [separator, firstOccurrence_append noReturn, ← separator, lineEnd, Option.map_map]
  congr 1
  funext pos
  simp only [Function.comp_apply]
  omega

theorem firstOccurrence_headerBytes (ne : lines ≠ [])
    (plain : ∀ line ∈ lines, line ≠ [] ∧ 13 ∉ line ∧ 10 ∉ line) (more : Bytes) :
    firstOccurrence separator (headerBytes lines ++ more) =
      some ((headerBytes lines).length - 4) := by
  induction lines with
  | nil => contradiction
  | cons line rest ih =>
    obtain ⟨⟨-, noReturn, -⟩, plain⟩ := forall_mem_cons.mp plain
    cases rest with
    | nil =>
      have here : firstOccurrence separator (13 :: 10 :: 13 :: 10 :: more) = some 0 := by
        simp [firstOccurrence, separator]
      have shape : headerBytes [line] ++ more = line ++ 13 :: 10 :: 13 :: 10 :: more := by
        simp [headerBytes_nil]
      rw [shape, separator, firstOccurrence_append noReturn, ← separator, here]
      simp [headerBytes_nil]
    | cons next rest =>
      obtain ⟨nextNonempty, noReturnNext, -⟩ := plain next (by simp)
      have next13 : (headerBytes (next :: rest) ++ more).head? ≠ some 13 := by
        obtain ⟨c, others, rfl⟩ := exists_cons_of_ne_nil nextNonempty
        intro same
        simp at same
        exact noReturnNext (same ▸ mem_cons_self)
      have long : 4 ≤ (headerBytes (next :: rest)).length := by
        simp [headerBytes]
        omega
      rw [headerBytes_cons, append_assoc, cons_append,
        cons_append, firstOccurrence_line noReturn next13, ih (by simp) plain, Option.map_some]
      congr 1
      simp only [length_append, length_cons]
      omega

theorem four_le_length_header (req : HttpRequest) : 4 ≤ req.header.length := by
  obtain ⟨line, rest, shape⟩ := exists_cons_of_ne_nil req.lines_ne_nil
  simp [header, shape, headerBytes]
  omega

theorem firstOccurrence_take_stream (req : HttpRequest) (more : Bytes) (size : Nat) :
    firstOccurrence separator ((req.header ++ more).take size) =
      if req.header.length ≤ size then some (req.header.length - 4)
      else none := by
  have long := req.four_le_length_header
  have found := firstOccurrence_headerBytes req.lines_ne_nil req.plain more
  have seen := firstOccurrence_take (by decide) found size
  have reach : (headerBytes req.lines).length - 4 + separator.length = req.header.length :=
    Nat.sub_add_cancel long
  rw [reach] at seen
  exact seen

/-! ### What a header announces -/

theorem getlines_line (noNewline : 10 ∉ line) (start rest : Bytes) :
    getlines start (line ++ 10 :: rest) = (start ++ line) :: getlines [] rest := by
  induction line generalizing start with
  | nil => simp [getlines]
  | cons c line ih =>
    obtain ⟨ne, noNewline⟩ := not_or.mp (mt mem_cons.mpr noNewline)
    rw [cons_append, getlines, if_neg (Ne.symm ne), ih noNewline, append_assoc]
    rfl

theorem getlines_headerBytes (plain : ∀ line ∈ lines, line ≠ [] ∧ 13 ∉ line ∧ 10 ∉ line) :
    getlines [] (headerBytes lines) = lines.map (· ++ [13]) ++ [[13]] := by
  induction lines with
  | nil => rfl
  | cons line lines ih =>
    obtain ⟨⟨-, -, noNewline⟩, plain⟩ := forall_mem_cons.mp plain
    have shape : headerBytes (line :: lines) = (line ++ [13]) ++ 10 :: headerBytes lines := by simp
    have noNewline : 10 ∉ line ++ [13] := by simp [noNewline]
    rw [shape, getlines_line noNewline, ih plain]
    rfl

theorem take_line_iff (line : Bytes) :
    (line ++ [13]).take 16 = contentLength ↔ contentLength.isPrefixOf line = true := by
  rw [List.isPrefixOf_iff_prefix]
  constructor
  · intro same
    have long : 16 ≤ line.length := by
      by_contra short
      rw [take_of_length_le (by simp; omega)] at same
      have absent : (13 : UInt8) ∉ contentLength := by decide
      exact absent (same ▸ mem_append_right _ (mem_singleton_self _))
    rw [take_append_of_le_length long] at same
    exact same ▸ take_prefix 16 line
  · rintro ⟨rest, rfl⟩
    rw [append_assoc]
    exact take_left' rfl

theorem stoi_digits {digits : Bytes} (ne : digits ≠ []) (all : ∀ c ∈ digits, isDigit c = true)
    (small : digitsValue digits < 2 ^ 31) :
    stoi (digits ++ [13]) = .ok (digitsValue digits : Int) := by
  have stops : ∀ c ∈ ([13] : Bytes).head?, isDigit c = false := by
    intro c mem
    cases mem
    rfl
  have fits : -2 ^ 31 ≤ (digitsValue digits : Int) ∧ (digitsValue digits : Int) < 2 ^ 31 := by omega
  simp only [stoi, strtol_digits_append ne all stops]
  rw [if_pos fits]

theorem parseHeader_header (req : HttpRequest) : parseHeader req.header = .ok req.body.length := by
  have searched : (getlines [] req.header).find? (fun line => line.take 16 = contentLength) =
      ((req.lines.filter contentLength.isPrefixOf).head?).map (· ++ [13]) := by
    have test : (fun line : Bytes =>
        decide (line.take 16 = contentLength)) ∘ (· ++ [13]) = contentLength.isPrefixOf := by
      funext line
      rw [Function.comp_apply, Bool.eq_iff_iff, decide_eq_true_iff, take_line_iff]
    have last : ([[13]] : List Bytes).find? (fun line => line.take 16 = contentLength) = none := by
      decide
    rw [header, getlines_headerBytes req.plain, List.find?_append, last,
      Option.or_none, List.find?_map, test, head?_filter]
  have small := req.small
  unfold parseHeader
  rw [searched]
  rcases req.announced with
    ⟨silent, empty⟩ | ⟨digits, ne, all, announced, v⟩
  · rw [silent, empty]
    rfl
  · have sixteen : contentLength.length = 16 := rfl
    have read : stoi ((contentLength ++ digits ++ [13]).drop 16) = .ok (req.body.length : Int) := by
      rw [append_assoc, drop_left' sixteen, stoi_digits ne all (v ▸ small), v]
    have kept : ((req.body.length : Int) % 2 ^ 32).toNat = req.body.length := by omega
    simp only [announced, head?_cons, Option.map_some, read]
    exact congrArg Except.ok kept

/-! ### Positions in the stream -/

theorem complete_append (done : List HttpRequest) (size : Nat) (rest : List HttpRequest) :
    complete ((stream done).length + size) (done ++ rest) = done ++ complete size rest := by
  induction done with
  | nil => simp [stream]
  | cons req done ih =>
    have length : (stream (req :: done)).length + size =
        req.bytes.length + ((stream done).length + size) := by
      simp [stream]
      omega
    rw [cons_append, complete, length,
      if_pos (Nat.le_add_right _ _), Nat.add_sub_cancel_left, ih, cons_append]

theorem complete_cons {size : Nat} (short : size < req.bytes.length) (rest : List HttpRequest) :
    complete size (req :: rest) = [] :=
  if_neg (not_le.mpr short)

theorem bodylessEnds_append (start : Nat) (done rest : List HttpRequest) :
    bodylessEnds start (done ++ rest) =
      bodylessEnds start done ++ bodylessEnds (start + (stream done).length) rest := by
  induction done generalizing start with
  | nil => simp [stream, bodylessEnds]
  | cons req done ih =>
    have length : start + (stream (req :: done)).length =
        start + req.bytes.length + (stream done).length := by
      simp [stream]
      omega
    rw [cons_append, bodylessEnds, bodylessEnds, length]
    split
    · rw [ih, cons_append]
    · rw [ih]

theorem le_of_mem_bodylessEnds
    {rest : List HttpRequest} (mem : finish ∈ bodylessEnds start (req :: rest)) :
    start + req.bytes.length ≤ finish := by
  induction rest generalizing start req with
  | nil =>
    simp only [bodylessEnds] at mem
    split at mem
    · exact (mem_singleton.mp mem).ge
    · simp at mem
  | cons next rest ih =>
    rw [bodylessEnds] at mem
    have later : finish ∈ bodylessEnds (start + req.bytes.length)
        (next :: rest) → start + req.bytes.length ≤ finish :=
      fun mem => (Nat.le_add_right _ _).trans (ih mem)
    split at mem
    · rcases mem_cons.mp mem with same | mem
      · exact same.ge
      · exact later mem
    · exact later mem

theorem lt_of_mem_bodylessEnds {requests : List HttpRequest}
    (mem : finish ∈ bodylessEnds start requests) : start < finish := by
  cases requests with
  | nil => simp [bodylessEnds] at mem
  | cons req rest =>
    have reaches := le_of_mem_bodylessEnds mem
    have long := req.four_le_length_header
    rw [length_bytes] at reaches
    omega

end HttpRequest

end AutomatonCore.Network
