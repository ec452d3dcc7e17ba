import AutomatonCore.Interop.EthContractRaw

/-!
# Chunked responses
-/

namespace AutomatonCore.Interop

open Io Interop.Ethereum Library List
open AutomatonCore.Network (separator)
open AutomatonCore.Network.HttpRequest (headerBytes
  firstOccurrence_line firstOccurrence_headerBytes)

/-! ## Responses -/

/-- The length of the data in hexadecimal, and the data. -/
structure Chunk where
  digits : Bytes
  data : Bytes
  hex : ∀ c ∈ digits, isHexDigit c = true
  sized : hexValue digits = data.length
  nonempty : data ≠ []

namespace Chunk

def bytes (chunk : Chunk) : Bytes :=
  chunk.digits ++ (crlf ++ (chunk.data ++ crlf))

/-- The end of the chunk is where `read_body` looks for it. -/
def Clean (chunk : Chunk) : Prop :=
  firstOccurrence crlf chunk.data = none

instance (chunk : Chunk) : Decidable chunk.Clean :=
  inferInstanceAs (Decidable (firstOccurrence crlf chunk.data = none))

end Chunk

/-- A response with the status 200: further header lines, the chunks of the
body, and the number of additional zeros in the size of the last chunk. -/
structure HttpResponse where
  fields : List Bytes
  plain : ∀ line ∈ fields, line ≠ [] ∧ 13 ∉ line ∧ 10 ∉ line
  chunks : List Chunk
  zeros : Nat

namespace HttpResponse

def statusLine : Bytes :=
  text "HTTP/1.1 200 OK"

def header (resp : HttpResponse) : Bytes :=
  headerBytes (statusLine :: resp.fields)

def zeroDigits (zeros : Nat) : Bytes :=
  List.replicate (zeros + 1) 48

def chunked (chunks : List Chunk) (zeros : Nat) : Bytes :=
  chunks.flatMap Chunk.bytes ++ (zeroDigits zeros ++ (crlf ++ crlf))

def body (resp : HttpResponse) : Bytes :=
  chunked resp.chunks resp.zeros

def bytes (resp : HttpResponse) : Bytes :=
  resp.header ++ resp.body

def stream (responses : List HttpResponse) : Bytes :=
  responses.flatMap bytes

/-- What `handle_message` should get: the data of the chunks. -/
def content (resp : HttpResponse) : Bytes :=
  resp.chunks.flatMap Chunk.data

def Clean (resp : HttpResponse) : Prop :=
  ∀ chunk ∈ resp.chunks, chunk.Clean

instance (resp : HttpResponse) : Decidable resp.Clean :=
  inferInstanceAs (Decidable (∀ chunk ∈ resp.chunks, chunk.Clean))

/-- How much of the stream is behind the headers. -/
def following : List HttpResponse → List Nat
  | [] => []
  | resp :: rest => (resp.body.length + (stream rest).length) :: following rest

end HttpResponse

/-! ## The exchange -/

/-- A contract object, the responses that the node has sent, and what of them
has not been read. -/
structure Exchange where
  contract : EthContract := {}
  sent : List HttpResponse := []
  unread : Bytes := []

inductive ExchangeEvent where
  | call
  | reply (resp : HttpResponse)
  /-- A read finds so many bytes. -/
  | read (size : Nat)

/-- The call that a message answers, if `handle_message` can read it: it names
a call and has an error with a message, or a result that is a string with a
prefix `0x`. -/
def answeredCall (parse : Bytes → Option Json) (message : Bytes) : Option UInt32 :=
  match parse message with
  | none => none
  | some j =>
    match j.find (text "id"), replyOf j with
    | some value, .ok _ => value.getUInt32.toOption
    | _, _ => none

/-- The responses answer different calls that are pending. -/
def Answerable (parse : Bytes → Option Json) : Finset UInt32 → List HttpResponse → Prop
  | _, [] => True
  | callbacks, resp :: rest =>
    match answeredCall parse resp.content with
    | none => False
    | some id => id ∈ callbacks ∧ Answerable parse (callbacks.erase id) rest

namespace Exchange

open HttpResponse

def readSize (exchange : Exchange) (size : Nat) : Nat :=
  if exchange.contract.waiting = none then 0
  else min (min size readBufferSize) exchange.unread.length

/-- A read of no bytes has not completed. -/
def step (parse : Bytes → Option Json) (exchange : Exchange) : ExchangeEvent → Result Exchange
  | .call => .ok { exchange with contract := exchange.contract.call }
  | .reply resp =>
    .ok
      { exchange with
        sent := exchange.sent ++ [resp]
        unread := exchange.unread ++ resp.bytes }
  | .read size => do
    let count := exchange.readSize size
    if count = 0 then return exchange
    else
      let contract ← exchange.contract.onMessageReceived parse (exchange.unread.take count)
      return ⟨contract, exchange.sent, exchange.unread.drop count⟩

/-- The node answers calls that are pending, each of them once. -/
def Lawful (parse : Bytes → Option Json) (exchange : Exchange) : ExchangeEvent → Prop
  | .reply resp =>
    Answerable parse exchange.contract.callbacks
      (exchange.sent.drop exchange.contract.handled.length ++ [resp])
  | _ => True

/-- The two conditions: no chunk contains CR LF, and no read ends with the
header of a response that is not the first one. -/
def Unbroken (exchange : Exchange) : ExchangeEvent → Prop
  | .call => True
  | .reply resp => resp.Clean
  | .read size =>
    exchange.readSize size = 0 ∨
      exchange.unread.length - exchange.readSize size ∉ following exchange.sent.tail

/-- What `handle_message` got is the data of the chunks, once for each response
and in order; when all is read, it got all; and there is always a pending
read. -/
structure Delivered (exchange : Exchange) : Prop where
  inOrder : exchange.contract.handled <+: exchange.sent.map content
  finished : exchange.unread = [] → exchange.contract.handled = exchange.sent.map content
  proceeds : exchange.unread ≠ [] → 0 < exchange.readSize 1

end Exchange

/-! ## Where chunks and headers end -/

theorem firstOccurrence_crlf_line {line : Bytes} (noReturn : 13 ∉ line) (more : Bytes) :
    firstOccurrence crlf (line ++ (crlf ++ more)) = some line.length := by
  rw [crlf, firstOccurrence_append noReturn]
  simp [firstOccurrence]

namespace Chunk

theorem noReturn (chunk : Chunk) : 13 ∉ chunk.digits := by
  intro mem
  exact absurd (chunk.hex 13 mem) (by decide)

theorem digits_ne_nil (chunk : Chunk) : chunk.digits ≠ [] := by
  intro empty
  have sized := chunk.sized
  have pos := length_pos_iff.mpr chunk.nonempty
  rw [empty] at sized
  simp [hexValue] at sized
  omega

theorem hex2dec_digits (chunk : Chunk) :
    ∃ expected, hex2dec chunk.digits = some expected ∧ expected ≠ 0 := by
  refine ⟨_, hex2dec_of_digits chunk.digits_ne_nil chunk.hex, ?_⟩
  have pos := length_pos_iff.mpr chunk.nonempty
  intro zero
  have v := congrArg UInt32.toNat zero
  rw [UInt32.toNat_ofNat', chunk.sized, UInt32.toNat_zero] at v
  omega

theorem Clean.firstOccurrence {chunk : Chunk} (clean : chunk.Clean) (more : Bytes) :
    firstOccurrence crlf (chunk.data ++ (crlf ++ more)) = some chunk.data.length :=
  firstOccurrence_append_pattern (by decide) clean more

theorem length_bytes (chunk : Chunk) :
    chunk.bytes.length = chunk.digits.length + 2 + chunk.data.length + 2 := by
  simp [bytes, crlf]
  omega

end Chunk

namespace HttpResponse

theorem noReturn_zeroDigits (zeros : Nat) : 13 ∉ zeroDigits zeros := by simp [zeroDigits]

theorem hex2dec_zeroDigits (zeros : Nat) : hex2dec (zeroDigits zeros) = some 0 := by
  have v : hexValue (zeroDigits zeros) = 0 := by
    unfold zeroDigits
    induction zeros with
    | zero => rfl
    | succ zeros ih =>
      rw [replicate_succ', hexValue, foldl_append, ← hexValue, ih]
      rfl
  rw [hex2dec_of_digits, v]
  · rfl
  · simp [zeroDigits]
  · intro c mem
    obtain rfl := eq_of_mem_replicate mem
    decide

theorem chunked_cons (chunk : Chunk) (chunks : List Chunk) (zeros : Nat) :
    chunked (chunk :: chunks) zeros = chunk.bytes ++ chunked chunks zeros := by
  simp [chunked]

theorem chunked_nil (zeros : Nat) : chunked [] zeros = zeroDigits zeros ++ (crlf ++ crlf) :=
  rfl

theorem stream_cons (resp : HttpResponse) (rest : List HttpResponse) :
    stream (resp :: rest) = resp.header ++ (resp.body ++ stream rest) := by
  simp [stream, bytes]

theorem stream_concat (responses : List HttpResponse) (resp : HttpResponse) :
    stream (responses ++ [resp]) = stream responses ++ resp.bytes := by
  simp [stream]

theorem four_le_length_header (resp : HttpResponse) : 4 ≤ resp.header.length := by
  simp [header, headerBytes]
  omega

def lead : List HttpResponse → Bytes
  | [] => []
  | _ :: _ => crlf

theorem lead_concat (done : List HttpResponse) (resp : HttpResponse) :
    lead (done ++ [resp]) = crlf := by
  cases done <;> rfl

theorem head_header (resp : HttpResponse) (more : Bytes) :
    (resp.header ++ more).head? = some 72 := by
  rfl

theorem firstOccurrence_header (done : List HttpResponse) (resp : HttpResponse) (more : Bytes) :
    firstOccurrence crlf2 (lead done ++ (resp.header ++ more)) =
      some ((lead done).length + resp.header.length - 4) := by
  have long := resp.four_le_length_header
  have plain : ∀ line ∈ statusLine :: resp.fields, line ≠ [] ∧ 13 ∉ line ∧ 10 ∉ line := by
    refine forall_mem_cons.mpr ⟨by decide, resp.plain⟩
  have found : firstOccurrence separator (resp.header ++ more) =
      some (resp.header.length - 4) :=
    firstOccurrence_headerBytes (cons_ne_nil _ _) plain more
  cases done with
  | nil =>
    rw [lead, length_nil, zero_add]
    exact found
  | cons first done =>
    have next : (resp.header ++ more).head? ≠ some 13 := by
      rw [head_header]
      decide
    have after := firstOccurrence_line not_mem_nil next
    rw [found] at after
    have same : (lead (first :: done)).length + resp.header.length - 4 =
        resp.header.length - 4 + 2 := by
      simp only [lead, crlf, length_cons, length_nil]
      omega
    rw [same]
    exact after

theorem firstLine_header (done : List HttpResponse) (resp : HttpResponse) :
    EthContract.firstLine (lead done ++ resp.header) = text "HTTP/1.1 200 OK\r" := by
  have blanks : (lead done ++ resp.header).dropWhile isSpace = resp.header := by
    have a : resp.header.dropWhile isSpace = resp.header := by rfl
    cases done with
    | nil => exact a
    | cons first done => exact a
  have line : resp.header = text "HTTP/1.1 200 OK\r" ++ 10 :: headerBytes resp.fields := by
    rfl
  have plain : ∀ c ∈ text "HTTP/1.1 200 OK\r", decide (c ≠ 10) = true :=
    all_eq_true.mp (by decide +kernel)
  rw [EthContract.firstLine, blanks, line,
    takeWhile_append_of_pos plain, takeWhile_cons_of_neg (by simp), append_nil]

end HttpResponse

/-! ## Single calls -/

namespace EthContract

open HttpResponse

variable {parse : Bytes → Option Json} {contract : EthContract}

theorem run_readHeader_opened (opened : firstOccurrence crlf2 contract.header = none) :
    contract.run parse .readHeader = .ok { contract with waiting := some .header } := by
  apply TailCalls.result_of_return
  simp only [machine, perform, readHeader, opened]

theorem run_readHeader_header {done : List HttpResponse} {resp : HttpResponse} {surplus : Bytes}
    (shape : contract.header = lead done ++ (resp.header ++ surplus)) :
    contract.run parse .readHeader =
      { contract with
        header := []
        body := if surplus = [] then contract.body else surplus }.run parse .readBody := by
  have long := resp.four_le_length_header
  have found := firstOccurrence_header done resp surplus
  have pos : (lead done).length + resp.header.length - 4 + 4 =
      (lead done ++ resp.header).length := by
    rw [length_append]
    omega
  have cut : contract.cutHeader ((lead done).length + resp.header.length - 4) =
      { contract with
        header := lead done ++ resp.header
        body := if surplus = [] then contract.body else surplus } := by
    rw [cutHeader, pos, shape, ← append_assoc, take_left, drop_left]
    cases surplus with
    | nil =>
      rw [if_neg (by simp), if_pos rfl]
      rw [append_nil] at shape
      rw [← shape]
    | cons c surplus => rw [if_pos (by simp), if_neg (cons_ne_nil _ _)]
  apply TailCalls.result_of_call
  simp only [machine, perform, readHeader, shape, found, cut,
    firstLine_header, ne_eq, not_true_eq_false, if_false]

variable {chunk : Chunk} {more unread : Bytes} {zeros : Nat}

theorem run_readBody_chunk (clean : chunk.Clean) (shape : contract.body = chunk.bytes ++ more) :
    contract.run parse .readBody =
      { contract with
        message := contract.message ++ chunk.data
        body := more }.run parse .readBody := by
  have whole : contract.body = chunk.digits ++ (crlf ++ (chunk.data ++ (crlf ++ more))) := by
    simp [shape, Chunk.bytes]
  have found : firstOccurrence crlf contract.body = some chunk.digits.length := by
    rw [whole, firstOccurrence_crlf_line chunk.noReturn]
  have rest : contract.body.drop (chunk.digits.length + 2) = chunk.data ++ (crlf ++ more) := by
    rw [whole, ← append_assoc]
    exact drop_left' (length_append ..)
  have digits : contract.body.take chunk.digits.length = chunk.digits := by rw [whole, take_left]
  have ends := clean.firstOccurrence more
  have left : (chunk.data ++ (crlf ++ more)).drop (chunk.data.length + 2) = more := by
    rw [← append_assoc]
    exact drop_left' (length_append ..)
  obtain ⟨expected, read, pos⟩ := chunk.hex2dec_digits
  apply TailCalls.result_of_call
  simp only [machine, perform, readBody, found, digits, read, pos,
    if_false, rest, ends, take_left, left, pure_eq_ok]

theorem run_readBody_last (shape : contract.body = zeroDigits zeros ++ (crlf ++ more)) :
    contract.run parse .readBody = { contract with header := more }.run parse .handleMessage := by
  have found : firstOccurrence crlf contract.body = some (zeroDigits zeros).length := by
    rw [shape, firstOccurrence_crlf_line (noReturn_zeroDigits zeros)]
  have digits : contract.body.take (zeroDigits zeros).length = zeroDigits zeros := by
    rw [shape, take_left]
  have left : contract.body.drop ((zeroDigits zeros).length + 2) = more := by
    rw [shape, ← append_assoc]
    exact drop_left' (length_append ..)
  apply TailCalls.result_of_call
  simp only [machine, perform, readBody, found, digits, hex2dec_zeroDigits,
    if_true, left, pure_eq_ok]

theorem run_readBody_short_chunk (clean : chunk.Clean)
    (whole : contract.body ++ unread = chunk.bytes ++ more)
    (short : contract.body.length < chunk.bytes.length) :
    contract.run parse .readBody = .ok { contract with waiting := some .body } := by
  apply TailCalls.result_of_return
  have piece := eq_take_of_append whole
  have shape : chunk.bytes ++ more = chunk.digits ++ (crlf ++ (chunk.data ++ (crlf ++ more))) := by
    simp [Chunk.bytes]
  have found := firstOccurrence_take (by decide)
    (firstOccurrence_crlf_line chunk.noReturn (chunk.data ++ (crlf ++ more))) contract.body.length
  rw [← shape, ← piece] at found
  split at found
  · have two : crlf.length = 2 := rfl
    obtain ⟨part, body⟩ : ∃ part, contract.body = chunk.digits ++ (crlf ++ part) := by
      rw [piece, shape, ← append_assoc, take_append,
        take_of_length_le (by rw [length_append]; omega), append_assoc]
      exact ⟨_, rfl⟩
    have rest : contract.body.drop (chunk.digits.length + 2) = part := by
      rw [body, ← append_assoc]
      exact drop_left' (length_append ..)
    have digits : contract.body.take chunk.digits.length = chunk.digits := by rw [body, take_left]
    have split : part ++ unread = chunk.data ++ (crlf ++ more) := by
      rw [body, shape] at whole
      simpa using whole
    have ends := firstOccurrence_take (by decide) (clean.firstOccurrence more) part.length
    have opened : ¬ chunk.data.length + crlf.length ≤ part.length := by
      rw [body, chunk.length_bytes] at short
      simp only [length_append] at short
      omega
    rw [← eq_take_of_append split, if_neg opened] at ends
    obtain ⟨expected, read, pos⟩ := chunk.hex2dec_digits
    simp only [machine, perform, readBody, found, digits, read, pos,
      if_false, rest, ends, pure_eq_ok]
  · simp only [machine, perform, readBody, found, pure_eq_ok]

theorem run_readBody_short_last
    (whole : contract.body ++ unread = zeroDigits zeros ++ (crlf ++ more))
    (short : contract.body.length < (zeroDigits zeros).length + 2) :
    contract.run parse .readBody = .ok { contract with waiting := some .body } := by
  apply TailCalls.result_of_return
  have piece := eq_take_of_append whole
  have found := firstOccurrence_take (by decide)
    (firstOccurrence_crlf_line (noReturn_zeroDigits zeros) more) contract.body.length
  have two : crlf.length = 2 := rfl
  rw [← piece, if_neg (by omega)] at found
  simp only [machine, perform, readBody, found, pure_eq_ok]

theorem run_handleMessage {id : UInt32} (answered : answeredCall parse contract.message = some id)
    (pending : id ∈ contract.callbacks) :
    ∃ replies, contract.run parse .handleMessage =
        { contract with
          handled := contract.handled ++ [contract.message]
          replies := replies
          callbacks := contract.callbacks.erase id
          message := [] }.run parse .readHeader := by
  unfold answeredCall at answered
  split at answered
  · cases answered
  next j parsed =>
    split at answered
    next v reply found replied =>
      cases n : v.getUInt32 with
      | error fault =>
        rw [n] at answered
        cases answered
      | ok read =>
        rw [n] at answered
        obtain rfl := Option.some.inj answered
        refine ⟨contract.replies ++ (reply.map (read, ·)).toList, ?_⟩
        apply TailCalls.result_of_call
        simp only [machine, perform, handleMessage, parsed, found, n,
          ok_bind, if_pos pending, replied, pure_eq_ok]
    · cases answered

theorem run_handleMessage_empty (unreadable : parse [] = none) (empty : contract.message = []) :
    contract.run parse .handleMessage = .error .invalidArgument := by
  apply TailCalls.result_of_error
  simp only [machine, perform, handleMessage, empty, unreadable]

end EthContract

end AutomatonCore.Interop
