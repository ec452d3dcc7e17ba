import AutomatonCore.Interop.ChunkedResponses
import AutomatonCore.Library.GuardedRun

/-!
# Delivery of chunked responses
-/

namespace AutomatonCore.Interop

open Io Interop.Ethereum Library List

/-! ## What holds between two events -/

open HttpResponse

variable {parse : Bytes → Option Json}

structure Progress (parse : Bytes → Option Json) (contract : EthContract)
    (done rest : List HttpResponse) : Prop where
  connected : contract.connected = true
  handled : contract.handled = done.map content
  answerable : Answerable parse contract.callbacks rest
  clean : ∀ resp ∈ rest, resp.Clean

variable {contract : EthContract} {done rest later : List HttpResponse} {unread header : Bytes}
  {count : Nat} {resp : HttpResponse} {before after : List Chunk} {exchange : Exchange}

theorem Progress.of_eq {next : EthContract} (progress : Progress parse contract done rest)
    (connected : next.connected = contract.connected) (handled : next.handled = contract.handled)
    (callbacks : next.callbacks = contract.callbacks) : Progress parse next done rest := by
  refine ⟨connected.trans progress.connected, handled.trans progress.handled, ?_, progress.clean⟩
  rw [callbacks]
  exact progress.answerable

/-- The last line of the response before is still in `body` when a header is
read. -/
def Stale : List HttpResponse → Bytes → Prop
  | [], body => body = []
  | _ :: _, body => ∃ zeros more, body = zeroDigits zeros ++ (crlf ++ more)

def nextPiece : List Chunk → Nat → Nat
  | [], zeros => (zeroDigits zeros).length + 2
  | chunk :: _, _ => chunk.bytes.length

/-- Where the contract is in the stream of responses. -/
inductive Reading (parse : Bytes → Option Json) : Exchange → Prop
  | idle : Reading parse {}
  | header {contract : EthContract} {done rest : List HttpResponse}
      {unread : Bytes} (progress : Progress parse contract done rest)
      (waits : contract.waiting = some .header)
      (message : contract.message = [])
      (whole : contract.header ++ unread = lead done ++ stream rest)
      (opened : firstOccurrence crlf2 contract.header = none)
      (stale : Stale done contract.body) : Reading parse ⟨contract, done ++ rest, unread⟩
  | body {contract : EthContract} {done later : List HttpResponse}
      {resp : HttpResponse} {before after : List Chunk} {unread : Bytes}
      (progress : Progress parse contract done (resp :: later))
      (waits : contract.waiting = some .body)
      (chunks : resp.chunks = before ++ after)
      (message : contract.message = before.flatMap Chunk.data)
      (whole : contract.body ++ unread = chunked after resp.zeros ++ stream later)
      (short : contract.body.length < nextPiece after resp.zeros) :
      Reading parse ⟨contract, done ++ resp :: later, unread⟩

/-- The calls of one read return, unless the read ends with a later header. -/
structure Settles (parse : Bytes → Option Json) (sent : List HttpResponse)
    (unread : Bytes) (broken : Prop) (result : Result EthContract) : Prop where
  goesOn : ¬ broken → ∃ next, result = .ok next ∧ Reading parse ⟨next, sent, unread⟩
  fails : broken → parse [] = none → ∃ fault, result = .error fault

theorem Settles.of_reading {sent : List HttpResponse}
    {broken : Prop} {result : Result EthContract} {next : EthContract}
    (returned : result = .ok next) (whole : ¬ broken)
    (reading : Reading parse ⟨next, sent, unread⟩) : Settles parse sent unread broken result :=
  ⟨fun _ => ⟨next, returned, reading⟩, fun broken => absurd broken whole⟩

def laterHeads : List HttpResponse → List HttpResponse → List Nat
  | [], rest => following rest.tail
  | _ :: _, rest => following rest

theorem lt_of_mem_following {responses : List HttpResponse} (mem : count ∈ following responses) :
    count < (stream responses).length := by
  induction responses with
  | nil => cases mem
  | cons resp rest ih =>
    have long := resp.four_le_length_header
    rw [stream_cons, length_append, length_append]
    rcases mem_cons.mp mem with same | later
    · omega
    · have bound := ih later
      omega

theorem nextPiece_le (chunks : List Chunk) (zeros : Nat) :
    nextPiece chunks zeros ≤ (chunked chunks zeros).length := by
  cases chunks with
  | nil => simp [nextPiece, chunked_nil, crlf]
  | cons chunk chunks =>
    rw [chunked_cons, length_append]
    exact Nat.le_add_right _ _

theorem not_mem_following_of_short {chunks : List Chunk} {zeros : Nat} {body : Bytes}
    (whole : body ++ unread = chunked chunks zeros ++ stream later)
    (short : body.length < nextPiece chunks zeros) : unread.length ∉ following later := by
  intro mem
  have bound := lt_of_mem_following mem
  have piece := nextPiece_le chunks zeros
  have length := congrArg List.length whole
  rw [length_append, length_append] at length
  omega

def HeaderSettles (parse : Bytes → Option Json) (unread : Bytes)
    (rest : List HttpResponse) : Prop :=
  ∀ (done : List HttpResponse) (contract : EthContract),
    Progress parse contract done rest → contract.message = [] →
    contract.header ++ unread = lead done ++ stream rest →
    Stale done contract.body →
    Settles parse (done ++ rest) unread (unread.length ∈ laterHeads done rest)
      (contract.run parse .readHeader)

theorem HeaderSettles.next (settles : HeaderSettles parse unread later)
    (progress : Progress parse contract (done ++ [resp]) later)
    (msg : contract.message = []) (whole : contract.header ++ unread = crlf ++ stream later)
    (stale : Stale (done ++ [resp]) contract.body) :
    Settles parse (done ++ resp :: later) unread (unread.length ∈ following later)
      (contract.run parse .readHeader) := by
  have heads : laterHeads (done ++ [resp]) later = following later := by cases done <;> rfl
  rw [append_cons, ← heads]
  refine settles _ _ progress msg ?_ stale
  rw [lead_concat]
  exact whole

/-- Induction on the chunks that are left. -/
theorem settles_readBody (header : HeaderSettles parse unread later)
    (progress : Progress parse contract done (resp :: later))
    (chunks : resp.chunks = before ++ after)
    (msg : contract.message = before.flatMap Chunk.data)
    (whole : contract.body ++ unread = chunked after resp.zeros ++ stream later) :
    Settles parse (done ++ resp :: later) unread
      (unread.length ∈ following later) (contract.run parse .readBody) := by
  induction after generalizing before contract with
  | nil =>
    rcases lt_or_ge contract.body.length (nextPiece [] resp.zeros) with short | long
    · have split := whole
      rw [chunked_nil, append_assoc] at split
      exact .of_reading (EthContract.run_readBody_short_last split short)
        (not_mem_following_of_short whole short)
        (.body (progress.of_eq rfl rfl rfl) rfl chunks msg whole short)
    · have ends : (zeroDigits resp.zeros ++ crlf).length ≤ contract.body.length := by
        rw [length_append]
        exact long
      rw [chunked_nil, append_assoc, append_assoc, ← append_assoc] at whole
      obtain ⟨left, shape, rest⟩ := exists_append_of_le whole ends
      rw [append_assoc] at shape
      have content : resp.content = contract.message := by
        rw [msg, HttpResponse.content, chunks, append_nil]
      have answerable := progress.answerable
      rw [Answerable, content] at answerable
      split at answerable
      · exact answerable.elim
      next id answered =>
        obtain ⟨replies, handles⟩ := @EthContract.run_handleMessage parse
          { contract with header := left } id answered answerable.1
        rw [EthContract.run_readBody_last shape, handles]
        refine header.next ⟨progress.connected, ?_, answerable.2, ?_⟩ rfl rest ?_
        · rw [map_append, ← progress.handled, ← content]
          rfl
        · intro other mem
          exact progress.clean other (mem_cons_of_mem _ mem)
        · cases done with
          | nil => exact ⟨_, _, shape⟩
          | cons first done => exact ⟨_, _, shape⟩
  | cons chunk after ih =>
    have clean : chunk.Clean := progress.clean resp mem_cons_self chunk (by simp [chunks])
    have split := whole
    rw [chunked_cons, append_assoc] at split
    rcases lt_or_ge contract.body.length chunk.bytes.length with
      short | long
    · exact .of_reading (EthContract.run_readBody_short_chunk clean split short)
        (not_mem_following_of_short whole short)
        (.body (progress.of_eq rfl rfl rfl) rfl chunks msg whole short)
    · obtain ⟨body, shape, rest⟩ := exists_append_of_le split long
      rw [EthContract.run_readBody_chunk clean shape]
      have consumed : resp.chunks = (before ++ [chunk]) ++ after := by rw [chunks, append_cons]
      refine ih (progress.of_eq rfl rfl rfl) consumed ?_ rest
      simp [msg]

theorem length_lt_of_opened (whole : header ++ unread = lead done ++ stream (resp :: later))
    (opened : firstOccurrence crlf2 header = none) :
    header.length < (lead done ++ resp.header).length := by
  by_contra long
  rw [stream_cons, ← append_assoc] at whole
  obtain ⟨rest, shape, -⟩ := exists_append_of_le whole (not_lt.mp long)
  rw [shape, append_assoc, firstOccurrence_header] at opened
  cases opened

theorem opened_of_short (whole : header ++ unread = lead done ++ stream (resp :: later))
    (short : header.length < (lead done ++ resp.header).length) :
    firstOccurrence crlf2 header = none := by
  rw [stream_cons] at whole
  have seen := firstOccurrence_take (by decide)
    (firstOccurrence_header done resp (resp.body ++ stream later)) header.length
  have four : crlf2.length = 4 := rfl
  rw [length_append] at short
  rw [← eq_take_of_append whole, if_neg (by omega)] at seen
  exact seen

theorem opened_of_nil (whole : header ++ unread = lead done ++ stream []) :
    firstOccurrence crlf2 header = none := by
  apply firstOccurrence_short
  have length := congrArg List.length whole
  have four : crlf2.length = 4 := rfl
  have two : (lead done).length ≤ 2 := by
    cases done with
    | nil => exact Nat.zero_le 2
    | cons first done => exact le_rfl
  simp only [length_append, stream, flatMap_nil, length_nil] at length
  omega

theorem mem_laterHeads_cons :
    count ∈ laterHeads done (resp :: later) ↔
      (done ≠ [] ∧ count = resp.body.length + (stream later).length) ∨
      count ∈ following later := by
  cases done with
  | nil => simp [laterHeads]
  | cons first done => simp [laterHeads, following]

theorem not_mem_laterHeads_of_opened (whole : header ++ unread = lead done ++ stream rest)
    (opened : firstOccurrence crlf2 header = none) : unread.length ∉ laterHeads done rest := by
  cases rest with
  | nil =>
    cases done with
    | nil => exact not_mem_nil
    | cons first done => exact not_mem_nil
  | cons resp later =>
    have short := length_lt_of_opened whole opened
    have length := congrArg List.length whole
    rw [stream_cons] at length
    simp only [length_append] at short length
    rw [mem_laterHeads_cons]
    rintro (⟨-, same⟩ | mem)
    · omega
    · have bound := lt_of_mem_following mem
      omega

theorem settles_header {surplus : Bytes} (header : HeaderSettles parse unread later)
    (progress : Progress parse contract done (resp :: later)) (msg : contract.message = [])
    (shape : contract.header = lead done ++ (resp.header ++ surplus))
    (whole : surplus ++ unread = resp.body ++ stream later) (stale : Stale done contract.body) :
    Settles parse (done ++ resp :: later) unread
      (unread.length ∈ laterHeads done (resp :: later)) (contract.run parse .readHeader) := by
  have length := congrArg List.length whole
  rw [length_append, length_append] at length
  rw [EthContract.run_readHeader_header shape, mem_laterHeads_cons]
  by_cases broken : surplus = [] ∧ done ≠ []
  · -- the old body is read once more, and its last chunk ends no message
    obtain ⟨rfl, continued⟩ := broken
    rw [length_nil, zero_add] at length
    refine ⟨fun whole => absurd (.inl ⟨continued, length⟩) whole, ?_⟩
    intro _ unreadable
    obtain ⟨first, rest, rfl⟩ := exists_cons_of_ne_nil continued
    obtain ⟨zeros, more, old⟩ := stale
    have again := @EthContract.run_readBody_last parse
      { contract with header := [] } more zeros old
    exact ⟨_, again.trans (EthContract.run_handleMessage_empty unreadable msg)⟩
  · have body : (if surplus = [] then contract.body else surplus) = surplus := by
      split
      next empty =>
        have first : done = [] := not_not.mp fun later => broken ⟨empty, later⟩
        rw [first] at stale
        rw [empty]
        exact stale
      · rfl
    have same : (done ≠ [] ∧ unread.length = resp.body.length + (stream later).length) ∨
          unread.length ∈ following later ↔ unread.length ∈ following later := by
      refine or_iff_right ?_
      rintro ⟨continued, all⟩
      exact broken ⟨length_eq_zero_iff.mp (by omega), continued⟩
    rw [body, same]
    exact settles_readBody header (progress.of_eq rfl rfl rfl) (nil_append _).symm msg whole

theorem settles_opened (progress : Progress parse contract done rest)
    (msg : contract.message = []) (whole : contract.header ++ unread = lead done ++ stream rest)
    (stale : Stale done contract.body) (opened : firstOccurrence crlf2 contract.header = none) :
    Settles parse (done ++ rest) unread (unread.length ∈ laterHeads done rest)
      (contract.run parse .readHeader) :=
  .of_reading (EthContract.run_readHeader_opened opened) (not_mem_laterHeads_of_opened whole opened)
    (.header (progress.of_eq rfl rfl rfl) rfl msg whole opened stale)

theorem settles_readHeader (parse : Bytes → Option Json) (unread : Bytes)
    (rest : List HttpResponse) : HeaderSettles parse unread rest := by
  induction rest with
  | nil =>
    intro done contract progress msg whole stale
    exact settles_opened progress msg whole stale (opened_of_nil whole)
  | cons resp later ih =>
    intro done contract progress msg whole stale
    rcases lt_or_ge contract.header.length
      (lead done ++ resp.header).length with short | long
    · exact settles_opened progress msg whole stale (opened_of_short whole short)
    · rw [stream_cons, ← append_assoc] at whole
      obtain ⟨surplus, shape, rest⟩ := exists_append_of_le whole long
      rw [append_assoc] at shape
      exact settles_header ih progress msg shape rest stale

/-! ## Where reads end -/

theorem five_le_length_body (resp : HttpResponse) : 5 ≤ resp.body.length := by
  simp [body, chunked, zeroDigits, crlf]
  omega

theorem mem_following_append (near : count < (stream rest).length + 5) :
    count ∈ following (done ++ rest) ↔ count ∈ following rest := by
  induction done with
  | nil => rfl
  | cons resp done ih =>
    have far : count ≠ resp.body.length + (stream (done ++ rest)).length := by
      have five := five_le_length_body resp
      rw [stream, flatMap_append, length_append]
      rw [stream] at near
      omega
    rw [cons_append, following, mem_cons, or_iff_right far, ih]

theorem mem_following_tail_header (whole : header ++ unread = lead done ++ stream rest)
    (less : count < unread.length) :
    count ∈ following (done ++ rest).tail ↔ count ∈ laterHeads done rest := by
  cases done with
  | nil => rfl
  | cons first done =>
    refine mem_following_append ?_
    have length := congrArg List.length whole
    simp only [length_append, lead, crlf, length_cons, length_nil] at length
    omega

theorem length_chunked_le (chunks : resp.chunks = before ++ after) :
    (chunked after resp.zeros).length ≤ resp.body.length := by
  rw [body, chunked, chunked, chunks, flatMap_append]
  simp only [length_append]
  omega

theorem mem_following_tail_body (chunks : resp.chunks = before ++ after) {body : Bytes}
    (whole : body ++ unread = chunked after resp.zeros ++ stream later)
    (less : count < unread.length) :
    count ∈ following (done ++ resp :: later).tail ↔ count ∈ following later := by
  have long := length_chunked_le chunks
  have length := congrArg List.length whole
  rw [length_append, length_append] at length
  cases done with
  | nil => rfl
  | cons first done =>
    rw [cons_append, tail_cons, mem_following_append, following, mem_cons, or_iff_right (by omega)]
    rw [stream_cons, length_append, length_append]
    omega

/-! ## Events -/

theorem Answerable.mono {callbacks more : Finset UInt32}
    (subset : callbacks ⊆ more) {responses : List HttpResponse}
    (answerable : Answerable parse callbacks responses) : Answerable parse more responses := by
  induction responses generalizing callbacks more with
  | nil => trivial
  | cons resp rest ih =>
    rw [Answerable] at answerable ⊢
    split at answerable
    · exact answerable.elim
    · exact ⟨subset answerable.1, ih (Finset.erase_subset_erase _ subset) answerable.2⟩

theorem Progress.call (progress : Progress parse contract done rest) :
    Progress parse contract.call done rest :=
  ⟨rfl, progress.handled, progress.answerable.mono (Finset.subset_insert _ _), progress.clean⟩

theorem Progress.waiting_call (progress : Progress parse contract done rest) :
    contract.call.waiting = contract.waiting :=
  if_pos progress.connected

theorem Progress.reply (progress : Progress parse contract done rest)
    (lawful : Exchange.Lawful parse ⟨contract, done ++ rest, unread⟩ (.reply resp))
    (clean : resp.Clean) : Progress parse contract done (rest ++ [resp]) := by
  refine ⟨progress.connected, progress.handled, ?_, ?_⟩
  · have inFlight : (done ++ rest).drop contract.handled.length = rest := by
      rw [progress.handled, length_map, drop_left]
    rw [Exchange.Lawful, inFlight] at lawful
    exact lawful
  · intro other mem
    rcases mem_append.mp mem with sent | new
    · exact progress.clean other sent
    · rw [mem_singleton.mp new]
      exact clean

namespace Exchange

theorem reading_call {exchange : Exchange} (reading : Reading parse exchange) :
    Reading parse { exchange with contract := exchange.contract.call } := by
  cases reading with
  | idle =>
    exact @Reading.header parse (EthContract.call {}) [] [] []
      ⟨rfl, rfl, trivial, fun _ mem => absurd mem not_mem_nil⟩ rfl rfl rfl rfl rfl
  | header progress waits msg whole opened stale =>
    exact .header progress.call (progress.waiting_call.trans waits) msg whole opened stale
  | body progress waits chunks msg whole short =>
    exact .body progress.call (progress.waiting_call.trans waits) chunks msg whole short

theorem reading_reply {exchange : Exchange} {resp : HttpResponse}
    (reading : Reading parse exchange) (lawful : Lawful parse exchange (.reply resp))
    (clean : resp.Clean) :
    Reading parse
      { exchange with
        sent := exchange.sent ++ [resp]
        unread := exchange.unread ++ resp.bytes } := by
  cases reading with
  | idle =>
    rw [Lawful, drop_nil, nil_append, Answerable] at lawful
    split at lawful
    · exact lawful.elim
    · exact absurd lawful.1 (Finset.notMem_empty _)
  | header progress waits msg whole opened stale =>
    simp only [append_assoc]
    refine .header (progress.reply lawful clean) waits msg ?_ opened stale
    rw [← append_assoc, whole, stream_concat, append_assoc]
  | body progress waits chunks msg whole short =>
    simp only [append_assoc, cons_append]
    refine .body (progress.reply lawful clean) waits chunks msg ?_ short
    rw [← append_assoc, whole, stream_concat, append_assoc]

theorem settles_read {exchange : Exchange}
    (reading : Reading parse exchange) {count : Nat} (pos : 0 < count)
    (inside : count ≤ exchange.unread.length) :
    Settles parse exchange.sent (exchange.unread.drop count)
      (exchange.unread.length - count ∈ following exchange.sent.tail)
      (exchange.contract.onMessageReceived parse (exchange.unread.take count)) := by
  cases reading with
  | idle => exact absurd (pos.trans_le inside) (lt_irrefl 0)
  | @header contract done rest unread progress waits msg whole opened stale =>
    have split : (contract.header ++ unread.take count) ++
        unread.drop count = lead done ++ stream rest := by
      rw [append_assoc, take_append_drop, whole]
    simp only at inside
    simp only [EthContract.onMessageReceived, waits]
    rw [mem_following_tail_header whole (by omega), ← length_drop]
    exact settles_readHeader parse _ rest done _ (progress.of_eq rfl rfl rfl) msg split stale
  | @body contract done later resp before after unread progress waits chunks msg whole short =>
    have split : (contract.body ++ unread.take count) ++
        unread.drop count = chunked after resp.zeros ++ stream later := by
      rw [append_assoc, take_append_drop, whole]
    simp only at inside
    simp only [EthContract.onMessageReceived, waits]
    rw [mem_following_tail_body chunks whole (by omega), ← length_drop]
    exact settles_readBody (settles_readHeader parse _ later)
      (progress.of_eq rfl rfl rfl) chunks msg split

theorem readSize_le (exchange : Exchange) (size : Nat) :
    exchange.readSize size ≤ exchange.unread.length := by
  unfold readSize
  split
  · exact Nat.zero_le _
  · exact min_le_right _ _

theorem step_read {exchange : Exchange} {size : Nat} (pos : exchange.readSize size ≠ 0) :
    exchange.step parse (.read size) = (exchange.contract.onMessageReceived parse
        (exchange.unread.take (exchange.readSize size))).map fun contract =>
          ⟨contract, exchange.sent, exchange.unread.drop (exchange.readSize size)⟩ := by
  simp only [step, if_neg pos]
  cases exchange.contract.onMessageReceived parse
    (exchange.unread.take (exchange.readSize size)) <;> rfl

end Exchange

open Exchange

theorem Reading.step {event : ExchangeEvent}
    (reading : Reading parse exchange) (lawful : Lawful parse exchange event)
    (unbroken : Unbroken exchange event) :
    ∃ next, exchange.step parse event = .ok next ∧ Reading parse next := by
  cases event with
  | call => exact ⟨_, rfl, reading_call reading⟩
  | reply resp => exact ⟨_, rfl, reading_reply reading lawful unbroken⟩
  | read size =>
    by_cases idle : exchange.readSize size = 0
    · refine ⟨exchange, ?_, reading⟩
      simp only [Exchange.step, if_pos idle, pure_eq_ok]
    · have settles := settles_read reading (pos_of_ne_zero idle) (exchange.readSize_le size)
      obtain ⟨contract, received, kept⟩ := settles.goesOn (unbroken.resolve_left idle)
      refine ⟨_, ?_, kept⟩
      rw [step_read idle, received]
      rfl

theorem Reading.fails {size : Nat} (reading : Reading parse exchange) (unreadable : parse [] = none)
    (broken : ¬ Unbroken exchange (.read size)) :
    ∃ fault, exchange.step parse (.read size) = .error fault := by
  obtain ⟨taken, ends⟩ := not_or.mp broken
  have settles := settles_read reading (pos_of_ne_zero taken) (exchange.readSize_le size)
  obtain ⟨fault, received⟩ := settles.fails (not_not.mp ends) unreadable
  refine ⟨fault, ?_⟩
  rw [step_read taken, received]
  rfl

/-! ## The main theorem -/

theorem readSize_one (waits : exchange.contract.waiting ≠ none)
    (more : exchange.unread ≠ []) : 0 < exchange.readSize 1 := by
  have pos := length_pos_iff.mpr more
  rw [readSize, if_neg waits, readBufferSize]
  omega

theorem Reading.delivered (reading : Reading parse exchange) : Delivered exchange := by
  cases reading with
  | idle => exact ⟨List.nil_prefix, fun _ => rfl, fun more => absurd rfl more⟩
  | @header contract done rest unread progress waits msg whole opened stale =>
    refine ⟨?_, ?_, readSize_one (by simp [waits])⟩
    · simp [progress.handled]
    · rintro rfl
      cases rest with
      | nil => rw [progress.handled, append_nil]
      | cons resp later =>
        have short := length_lt_of_opened whole opened
        have length := congrArg List.length whole
        rw [stream_cons] at length
        simp only [length_append, length_nil] at short length
        omega
  | @body contract done later resp before after unread progress waits chunks msg whole short =>
    refine ⟨?_, ?_, readSize_one (by simp [waits])⟩
    · simp [progress.handled]
    · rintro rfl
      have piece := nextPiece_le after resp.zeros
      have length := congrArg List.length whole
      simp only [length_append, length_nil] at length
      omega

/-- The node answers pending calls, the stream is cut into reads in any way,
and calls come in between.  As long as no chunk contains CR LF and no read ends
with the header of a later response, `handle_message` gets the data of the
chunks of each response, once and in order.  A read that ends so fails: the
empty text is no JSON. -/
theorem chunks_delivered {events : List ExchangeEvent}
    (lawful : Guarded (Exchange.step parse) (Lawful parse) {} events)
    (unbroken : Guarded (Exchange.step parse) Unbroken {} events) :
    ∃ final, events.foldlM (Exchange.step parse) {} = .ok final ∧ Delivered final ∧
      (parse [] = none → ∀ size, ¬ Unbroken final (.read size) →
      ∃ fault, final.step parse (.read size) = .error fault) := by
  obtain ⟨final, ran, reading⟩ := (lawful.and unbroken).run
    (fun _ _ reading both => Reading.step reading both.1 both.2) Reading.idle
  exact ⟨final, ran, reading.delivered, fun unreadable _ broken => reading.fails unreadable broken⟩

instance decidableAnswerable (parse : Bytes → Option Json) :
    ∀ callbacks responses, Decidable (Answerable parse callbacks responses)
  | _, [] => isTrue trivial
  | callbacks, resp :: rest =>
    match answered : answeredCall parse resp.content with
    | none => isFalse (by rw [Answerable, answered]; exact not_false)
    | some id =>
      have := decidableAnswerable parse (callbacks.erase id) rest
      decidable_of_iff (id ∈ callbacks ∧ Answerable parse (callbacks.erase id) rest)
        (by rw [Answerable, answered])

instance (parse : Bytes → Option Json) (exchange : Exchange)
    (event : ExchangeEvent) : Decidable (Lawful parse exchange event) :=
  match event with
  | .reply resp =>
    decidableAnswerable parse exchange.contract.callbacks
      (exchange.sent.drop exchange.contract.handled.length ++ [resp])
  | .call => isTrue trivial
  | .read _ => isTrue trivial

instance (exchange : Exchange) (event : ExchangeEvent) : Decidable (Unbroken exchange event) :=
  match event with
  | .call => isTrue trivial
  | .reply resp => inferInstanceAs (Decidable resp.Clean)
  | .read size =>
    inferInstanceAs (Decidable (exchange.readSize size = 0 ∨
      exchange.unread.length - exchange.readSize size ∉ following exchange.sent.tail))

def resultText : Bytes :=
  text "\x7b\"id\":1,\"result\":\"0x2a\"\x7d"

def brokenText : Bytes :=
  text "\x7b\"id\":1,\r\n\"result\":\"0x2a\"\x7d"

def errorText : Bytes :=
  text "\x7b\"id\":2,\"error\":\x7b\"message\":\"no\"\x7d\x7d"

def parseTexts (message : Bytes) : Option Json :=
  if message = resultText ∨ message = brokenText then
    some (.object [(text "id", .integer 1), (text "result", .string (text "0x2a"))])
  else if message = errorText then
    some (.object
      [(text "id", .integer 2), (text "error", .object [(text "message", .string (text "no"))])])
  else none

def resultResponse : HttpResponse where
  fields := [text "Transfer-Encoding: chunked"]
  plain := by decide +kernel
  chunks :=
    [⟨text "8", resultText.take 8, by decide +kernel, by decide +kernel, by decide +kernel⟩,
      ⟨text "10", resultText.drop 8, by decide +kernel, by decide +kernel, by decide +kernel⟩]
  zeros := 0

def brokenResponse : HttpResponse where
  fields := []
  plain := by decide
  chunks :=
    [⟨text "1a", brokenText, by decide +kernel, by decide +kernel, by decide +kernel⟩]
  zeros := 0

def errorResponse : HttpResponse where
  fields := []
  plain := by decide
  chunks :=
    [⟨text "21", errorText, by decide +kernel, by decide +kernel, by decide +kernel⟩]
  zeros := 0

theorem chunks_delivered_two :
    let events : List ExchangeEvent :=
      [.call, .reply resultResponse, .read 66, .call, .reply errorResponse, .read 30, .read 512]
    (∃ final, events.foldlM (Exchange.step parseTexts) {} = .ok final ∧ Delivered final ∧
      (parseTexts [] = none → ∀ size, ¬ Unbroken final (.read size) →
        ∃ fault, final.step parseTexts (.read size) = .error fault)) ∧
      (events.foldlM (Exchange.step parseTexts) {}).map
        (fun final => (final.contract.handled, final.contract.replies)) =
          .ok ([resultText, errorText], [(1, .ok (text "2a")), (2, .internal (text "no"))]) :=
  ⟨chunks_delivered (by decide +kernel) (by decide +kernel), by decide +kernel⟩

/-- Two exchanges in which the node answers pending calls.  A line break in the
JSON text ends the message.  And where a read ends with the header of the
second response, the last line of the first one is taken for its body. -/
theorem chunks_lost :
    let lineBreak : List ExchangeEvent := [.call, .reply brokenResponse, .read 512]
    let headerEnd : List ExchangeEvent :=
      [.call, .call, .reply resultResponse, .reply errorResponse,
        .read (resultResponse.bytes.length + errorResponse.header.length)]
    Guarded (Exchange.step parseTexts) (Lawful parseTexts) {} lineBreak ∧
      (lineBreak.foldlM (Exchange.step parseTexts) {}).map
        (·.contract.handled) = .error .invalidArgument ∧
      Guarded (Exchange.step parseTexts) (Lawful parseTexts) {} headerEnd ∧
      (headerEnd.foldlM (Exchange.step parseTexts) {}).map
        (·.contract.handled) = .error .invalidArgument := by
  decide +kernel

end AutomatonCore.Interop
