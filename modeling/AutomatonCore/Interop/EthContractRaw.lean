import AutomatonCore.Interop.AbiCodec
import AutomatonCore.Io.HexNumbers
import AutomatonCore.Library.Lockstep
import AutomatonCore.Library.TailCalls
import AutomatonCore.Network.HttpSession

/-!
# The contract object that reads its own HTTP

The class `eth_contract` of `eth_contract_raw.cc`.  The JSON library is an
argument; callbacks are known by the ids of their calls.
-/

namespace AutomatonCore.Interop

open Io Interop.Ethereum Library List

/-! ## Answers -/

/-- The member of an object; there is none in values of other kinds. -/
def Ethereum.Json.find (key : Bytes) : Json → Option Json
  | .object members => members.lookup key
  | _ => none

def Ethereum.Json.getUInt32 : Json → Result UInt32
  | .boolean value => .ok (if value then 1 else 0)
  | .integer value => .ok (UInt32.ofNat (value % 2 ^ 32).toNat)
  | .real integralPart =>
    if 0 ≤ integralPart ∧ integralPart < 2 ^ 32 then .ok (UInt32.ofNat integralPart.toNat)
    else .error .undefinedArithmetic
  | _ => .error .typeError

inductive Reply where
  | internal (error : Bytes)
  | ok (result : Bytes)
  deriving DecidableEq, Repr

def replyOf (j : Json) : Result (Option Reply) :=
  match j.find (text "error") with
  | some obj =>
    match obj.find (text "message") with
    | some error => do return some (.internal (← error.getString))
    | none => .error .typeError
  | none =>
    match j.find (text "result") with
    | some result => do
      let value ← result.getString
      if 2 ≤ value.length then return some (.ok (value.drop 2))
      else .error .outOfRange
    | none => return none

/-! ## The object -/

def crlf : Bytes :=
  [13, 10]

def crlf2 : Bytes :=
  [13, 10, 13, 10]

def readBufferSize : Nat :=
  512

inductive Waiting where
  | header
  | body
  deriving DecidableEq, Repr

/-- `header` is what was read up to the empty line that ends a header, `body`
what was read behind it, and `message` the data of the chunks so far. -/
structure EthContract where
  callId : UInt32 := 0
  callbacks : Finset UInt32 := ∅
  connected : Bool := false
  header : Bytes := []
  body : Bytes := []
  message : Bytes := []
  /-- The read that is pending. -/
  waiting : Option Waiting := none
  /-- The messages with which `handle_message` was called. -/
  handled : List Bytes := []
  /-- What the callbacks got. -/
  replies : List (UInt32 × Reply) := []
  deriving DecidableEq

namespace EthContract

/-- The functions that call each other, in tail position only. -/
inductive Call where
  | readHeader
  | readBody
  | handleMessage
  deriving DecidableEq, Repr

abbrev Outcome := (EthContract × Call) ⊕ EthContract

/-- `call` for a known function.  The first call connects and starts to read;
that the node can be reached is assumed. -/
def call (contract : EthContract) : EthContract :=
  { contract with
    callId := contract.callId + 1
    callbacks := insert (contract.callId + 1) contract.callbacks
    connected := true
    waiting := if contract.connected then contract.waiting else some .header }

def cutHeader (contract : EthContract) (pos : Nat) : EthContract :=
  if pos + 4 < contract.header.length then
    { contract with
      body := contract.header.drop (pos + 4)
      header := contract.header.take (pos + 4) }
  else contract

def firstLine (header : Bytes) : Bytes :=
  (header.dropWhile isSpace).takeWhile (· ≠ 10)

/-- A header that is too long is cut first; the recursive call of the source
finds the same position again.  With another status, `handle_message` only
drops the message, and nothing is read any more. -/
def readHeader (contract : EthContract) : Outcome :=
  match firstOccurrence crlf2 contract.header with
  | none => .inr { contract with waiting := some .header }
  | some pos =>
    let cut := contract.cutHeader pos
    if firstLine cut.header ≠ text "HTTP/1.1 200 OK\r" then
      .inr { cut with header := [], message := [] }
    else .inl ({ cut with header := [] }, .readBody)

/-- After the last chunk the rest belongs to the next header, but stays in
`body` too. -/
def readBody (contract : EthContract) : Result Outcome :=
  match firstOccurrence crlf contract.body with
  | none => return .inr { contract with waiting := some .body }
  | some pos =>
    match hex2dec (contract.body.take pos) with
    | none => .error .invalidAccess
    | some expected =>
      if expected = 0 then
        return .inl ({ contract with header := contract.body.drop (pos + 2) }, .handleMessage)
      else
        let rest := contract.body.drop (pos + 2)
        match firstOccurrence crlf rest with
        | none => return .inr { contract with waiting := some .body }
        | some length =>
          return .inl
            ({ contract with
                message := contract.message ++ rest.take length
                body := rest.drop (length + 2) },
              .readBody)

def handleMessage (parse : Bytes → Option Json) (contract : EthContract) : Result Outcome :=
  let passed :=
    { contract with handled := contract.handled ++ [contract.message] }
  match parse contract.message with
  | none => .error .invalidArgument
  | some j =>
    match j.find (text "id") with
    | none => return .inr { passed with message := [] }
    | some value => do
      let id ← value.getUInt32
      if id ∈ contract.callbacks then
        let reply ← replyOf j
        return .inl
          ({ passed with
              replies := contract.replies ++ (reply.map (id, ·)).toList
              callbacks := contract.callbacks.erase id
              message := [] },
            .readHeader)
      else return .inr { passed with message := [] }

def perform (parse : Bytes → Option Json) : EthContract × Call → Result Outcome
  | (contract, .readHeader) => .ok contract.readHeader
  | (contract, .readBody) => contract.readBody
  | (contract, .handleMessage) => contract.handleMessage parse

/-! ## Every call returns -/

def extent (contract : EthContract) : Nat :=
  max contract.header.length contract.body.length

def rank (contract : EthContract) : Call → Nat
  | .readHeader => contract.extent + 2
  | .readBody => contract.body.length + 1
  | .handleMessage => 0

/-- What decreases from call to call: callbacks, then what is left to be
read. -/
def callSize (called : EthContract × Call) : Nat :=
  called.1.callbacks.card * (called.1.extent + 3) + called.1.rank called.2

variable {contract next : EthContract} {called : Call}

theorem callSize_lt {nextCalled : Call}
    (callbacks : next.callbacks = contract.callbacks) (extent : next.extent ≤ contract.extent)
    (rank : next.rank nextCalled < contract.rank called) :
    callSize (next, nextCalled) < callSize (contract, called) := by
  have rounds : contract.callbacks.card * (next.extent + 3) ≤
        contract.callbacks.card * (contract.extent + 3) :=
    Nat.mul_le_mul_left _ (by omega)
  rw [callSize, callbacks]
  exact Nat.add_lt_add_of_le_of_lt rounds rank

@[simp]
theorem callbacks_cutHeader (contract : EthContract) (pos : Nat) :
    (contract.cutHeader pos).callbacks = contract.callbacks := by
  unfold cutHeader
  split <;> rfl

theorem length_body_cutHeader_le (contract : EthContract) (pos : Nat) :
    (contract.cutHeader pos).body.length ≤ contract.extent := by
  unfold cutHeader extent
  split
  · rw [length_drop]
    omega
  · exact le_max_right _ _

theorem readHeader_decreases (stepped : contract.readHeader = .inl (next, called)) :
    callSize (next, called) < callSize (contract, .readHeader) := by
  cases found : firstOccurrence crlf2 contract.header with
  | none =>
    simp only [readHeader, found] at stepped
    cases stepped
  | some pos =>
    simp only [readHeader, found] at stepped
    split at stepped
    · cases stepped
    · cases Sum.inl.inj stepped
      have body := contract.length_body_cutHeader_le pos
      refine callSize_lt (contract.callbacks_cutHeader pos) ?_ ?_
      · exact body
      · exact Nat.lt_succ_of_le (Nat.succ_le_succ body)

theorem readBody_decreases (stepped : contract.readBody = .ok (.inl (next, called))) :
    callSize (next, called) < callSize (contract, .readBody) := by
  cases found : firstOccurrence crlf contract.body with
  | none =>
    simp only [readBody, found] at stepped
    cases stepped
  | some pos =>
    simp only [readBody, found] at stepped
    split at stepped
    · cases stepped
    split at stepped
    · cases Sum.inl.inj (Except.ok.inj stepped)
      refine callSize_lt rfl ?_ (Nat.succ_pos _)
      rw [extent, extent, length_drop]
      exact max_le (by omega) (le_max_right _ _)
    · split at stepped
      · cases stepped
      · cases Sum.inl.inj (Except.ok.inj stepped)
        have reaches := le_length_of_firstOccurrence (by decide) found
        have two : crlf.length = 2 := rfl
        refine callSize_lt rfl ?_ ?_
        · rw [extent, length_drop, length_drop]
          exact max_le_max le_rfl (by omega)
        · rw [rank, rank, length_drop, length_drop]
          omega

theorem handleMessage_decreases {parse : Bytes → Option Json}
    (stepped : contract.handleMessage parse = .ok (.inl (next, called))) :
    callSize (next, called) < callSize (contract, .handleMessage) := by
  obtain ⟨id, pending, callbacks, header, body, rfl⟩ :
      ∃ id ∈ contract.callbacks, next.callbacks = contract.callbacks.erase id ∧
          next.header = contract.header ∧ next.body = contract.body ∧
          called = .readHeader := by
    cases parsed : parse contract.message with
    | none =>
      simp only [handleMessage, parsed] at stepped
      cases stepped
    | some j =>
      cases found : j.find (text "id") with
      | none =>
        simp only [handleMessage, parsed, found] at stepped
        cases stepped
      | some v =>
        cases n : v.getUInt32 with
        | error fault =>
          simp only [handleMessage, parsed, found, n] at stepped
          cases stepped
        | ok id =>
          simp only [handleMessage, parsed, found, n, ok_bind] at stepped
          split at stepped
          next pending =>
            obtain ⟨reply, replied, stepped⟩ := bind_eq_ok_iff.mp stepped
            cases Sum.inl.inj (Except.ok.inj stepped)
            exact ⟨id, pending, rfl, rfl, rfl, rfl⟩
          · cases stepped
  have extent : next.extent = contract.extent := by rw [extent, extent, header, body]
  have fewer := Finset.card_erase_add_one pending
  have smaller :
      (contract.callbacks.erase id).card * (contract.extent + 3) + (contract.extent + 2) <
        contract.callbacks.card * (contract.extent + 3) + 0 := by
    rw [← fewer, Nat.succ_mul]
    omega
  rw [callSize, callSize, callbacks, rank, rank, extent]
  exact smaller

def machine (parse : Bytes → Option Json) : TailCalls Fault (EthContract × Call) EthContract where
  step := perform parse
  size := callSize
  decreases := by
    rintro ⟨contract, called⟩ ⟨next, nextCalled⟩ stepped
    cases called with
    | readHeader => exact readHeader_decreases (Except.ok.inj stepped)
    | readBody => exact readBody_decreases stepped
    | handleMessage => exact handleMessage_decreases stepped

def run (parse : Bytes → Option Json) (contract : EthContract)
    (called : Call) : Result EthContract :=
  (machine parse).result (contract, called)

def onMessageReceived (parse : Bytes → Option Json) (contract : EthContract)
    (bytes : Bytes) : Result EthContract :=
  match contract.waiting with
  | none => .ok contract
  | some .header =>
    { contract with
      waiting := none
      header := contract.header ++ bytes }.run parse .readHeader
  | some .body =>
    { contract with
      waiting := none
      body := contract.body ++ bytes }.run parse .readBody

end EthContract

end AutomatonCore.Interop
