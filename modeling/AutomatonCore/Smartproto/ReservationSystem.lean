import AutomatonCore.Script.LuaValue

/-!
# The reservation system

The scripts of `examples/smartproto/reservationsystem`.  Signatures and the
serialization are those of other libraries.  Sent messages, the log and the
exchange of the validators are left out.
-/

namespace AutomatonCore.Smartproto.Reservation

open Io Script

inductive ScriptError where
  | indexNil
  | badArgument
  /-- `secp256k1_verify` has no result. -/
  | verification
  /-- A message is read after it was deleted. -/
  | deletedMessage
  deriving DecidableEq, Repr

def roomCount : Nat := 4

def minTransactions : Nat := 1

def totalValidators : Nat := 20

/-- A `CreateReservation` or a `CancelReservation`, which have the same
fields. -/
structure Transaction where
  roomId : List Nat
  startDay : Nat
  endDay : Nat
  clientPublicKey : Bytes
  clientSignature : Bytes
  deriving DecidableEq, Repr

/-- Validators take turns in putting the transactions of clients into
transitions. -/
structure StateTransition where
  epoch : Nat
  reservations : List Transaction
  cancellations : List Transaction
  signature : Bytes := []
  deriving DecidableEq, Repr

structure Crypto where
  /-- `secp256k1_verify(public_key, message, signature)`.  It reads 33 and 64
  bytes whatever the lengths are, and throws for a key that is no point of the
  curve; `none` where there is no result. -/
  verify : Bytes → Bytes → Bytes → Option Bool
  sign : Bytes → Bytes → Bytes
  serialize : StateTransition → Bytes

def Crypto.check (crypto : Crypto) (key message signature : Bytes) : Except ScriptError Bool :=
  match crypto.verify key message signature with
  | some valid => .ok valid
  | none => .error .verification

/-- A room and a day. -/
abbrev Cell := Nat × Nat

/-- The keys in `rooms[room][day]`; `none` is `nil`. -/
abbrev Rooms := Cell → Option Bytes

def isRoom (room : Nat) : Bool :=
  1 ≤ room ∧ room ≤ roomCount

namespace Transaction

def days (tx : Transaction) : List Nat :=
  List.range' tx.startDay (tx.endDay + 1 - tx.startDay)

/-- The cells that the loops over rooms and days visit. -/
def cells (tx : Transaction) : List Cell :=
  tx.roomId.flatMap fun room => tx.days.map fun day => (room, day)

def signedText (type : Bytes) (tx : Transaction) : Bytes :=
  type ++ tx.roomId.flatMap decimal ++ decimal tx.startDay ++ decimal tx.endDay

def isValidSignature (crypto : Crypto) (type : Bytes) (tx : Transaction) :
    Except ScriptError Bool :=
  crypto.check tx.clientPublicKey (tx.signedText type) tx.clientSignature

end Transaction

def assignCell (entry : Option Bytes) (rooms : Rooms) (cell : Cell) : Except ScriptError Rooms :=
  if isRoom cell.1 then .ok (Function.update rooms cell entry) else .error .indexNil

/-- The loops that assign to all cells of a transaction. -/
def assign (entry : Option Bytes) (tx : Transaction) (rooms : Rooms) : Except ScriptError Rooms :=
  tx.cells.foldlM (assignCell entry) rooms

/-- A day that is booked, or a room that does not exist. -/
def conflictingReservation (rooms roomsLocal : Rooms) (reservation : Transaction) : Bool :=
  reservation.roomId.any fun room =>
    !isRoom room || reservation.days.any fun day =>
      (rooms (room, day)).isSome || (roomsLocal (room, day)).isSome

def conflictingCancellation (rooms roomsLocal : Rooms) (cancellation : Transaction) : Bool :=
  let key := some cancellation.clientPublicKey
  cancellation.roomId.any fun room =>
    !isRoom room || cancellation.days.any fun day =>
      !(rooms (room, day) = key ∧ roomsLocal (room, day) = none ∨ roomsLocal (room, day) = key)

/-- A loop of `valid_transition`; `none` where it returns false. -/
def examine (crypto : Crypto) (type : Bytes) (conflicting : Rooms → Transaction → Bool)
    (entry : Transaction → Option Bytes) : List Transaction → Rooms →
      Except ScriptError (Option Rooms)
  | [], roomsLocal => .ok (some roomsLocal)
  | tx :: rest, roomsLocal => do
    let valid ← tx.isValidSignature crypto type
    if valid = false then return none
    else if conflicting roomsLocal tx then return none
    else
      let roomsLocal ← assign (entry tx) tx roomsLocal
      examine crypto type conflicting entry rest roomsLocal

/-- A loop of `update_state` over pending transactions: those that it takes. -/
def select (conflicting : Rooms → Transaction → Bool) (entry : Transaction → Bytes) :
    List Transaction → Rooms → Except ScriptError (List Transaction × Rooms)
  | [], roomsLocal => .ok ([], roomsLocal)
  | tx :: rest, roomsLocal =>
    if conflicting roomsLocal tx then select conflicting entry rest roomsLocal
    else do
      let roomsLocal ← assign (some (entry tx)) tx roomsLocal
      let (taken, roomsLocal) ← select conflicting entry rest roomsLocal
      return (tx :: taken, roomsLocal)

/-- What the nodes agree on. -/
structure Ledger where
  rooms : Rooms := fun _ => none
  epoch : Nat := 0
  validatorsSorted : List Bytes

/-- An entry of a table of pending transactions: the transaction that its
message held when it was added, and whether this message has been deleted. -/
structure Pending where
  tx : Transaction
  deleted : Bool
  deriving DecidableEq, Repr

/-- The transactions that a loop over a table reads. -/
def readEntries (pending : List Pending) : Except ScriptError (List Transaction) :=
  pending.mapM fun entry =>
    if entry.deleted then .error .deletedMessage else .ok entry.tx

/-- Pending transactions are kept in tables under their own signatures. -/
structure ReservationNode extends Ledger where
  pendingReservations : List Pending := []
  pendingCancellations : List Pending := []
  /-- `nil` until the validators are known -/
  ourSlot : Option Nat
  privateKey : Bytes

/-- What happens to a node.  A transaction is in a message of a peer, or the
node's own.  An update visits the two tables in any order. -/
inductive ReservationEvent where
  | stateTransition (st : StateTransition)
  | createReservation (tx : Transaction) (ofPeer : Bool)
  | cancelReservation (tx : Transaction) (ofPeer : Bool)
  | update (reservations cancellations : List Pending)
  deriving DecidableEq, Repr

/-- Every node checks a transition before it applies it. -/
def Ledger.validTransition (crypto : Crypto) (ledger : Ledger) (st : StateTransition) :
    Except ScriptError Bool :=
  if (LuaNumber.ofUInt64 st.epoch).value ≠ ledger.epoch + 1 then .ok false
  else do
    let some reserved ← examine crypto (text "create") (conflictingReservation ledger.rooms)
        (fun tx => some tx.clientPublicKey) st.reservations fun _ => none
      | return false
    let some _ ← examine crypto (text "cancel") (conflictingCancellation ledger.rooms)
        (fun _ => none) st.cancellations reserved
      | return false
    match ledger.validatorsSorted[ledger.epoch % totalValidators]? with
    | none => .error .badArgument
    | some leader => crypto.check leader (crypto.serialize { st with signature := [] }) st.signature

namespace ReservationNode

variable (crypto : Crypto)

/-- Applied transactions leave the table, if they have a cell. -/
def removePending (applied : List Transaction) (pending : List Pending) : List Pending :=
  pending.filter fun entry =>
    !applied.any fun other => other.cells ≠ [] ∧ other.clientSignature = entry.tx.clientSignature

def applyTransition (node : ReservationNode) (st : StateTransition) :
    Except ScriptError ReservationNode := do
  let reserved ←
    st.reservations.foldlM (fun rooms tx => assign (some tx.clientPublicKey) tx rooms) node.rooms
  let rooms ← st.cancellations.foldlM (fun rooms tx => assign none tx rooms) reserved
  return { node with
    rooms
    epoch := node.epoch + 1
    pendingReservations := removePending st.reservations node.pendingReservations
    pendingCancellations := removePending st.cancellations node.pendingCancellations }

def onStateTransition (node : ReservationNode) (st : StateTransition) :
    Except ScriptError ReservationNode := do
  if ← node.toLedger.validTransition crypto st then node.applyTransition st
  else return node

/-- `on_CreateReservation` and `on_CancelReservation` add to their tables. -/
def addPending (type : Bytes) (pending : List Pending) (tx : Transaction) (ofPeer : Bool) :
    Except ScriptError (List Pending) :=
  if pending.any (·.tx.clientSignature = tx.clientSignature) then .ok pending
  else do
    let valid ← tx.isValidSignature crypto type
    if valid = false then return pending
    else if tx.roomId.any fun room => !isRoom room then return pending
    else return pending ++ [⟨tx, ofPeer⟩]

def onCreateReservation (node : ReservationNode) (tx : Transaction) (ofPeer : Bool) :
    Except ScriptError ReservationNode := do
  let pending ← addPending crypto (text "create") node.pendingReservations tx ofPeer
  return { node with pendingReservations := pending }

def onCancelReservation (node : ReservationNode) (tx : Transaction) (ofPeer : Bool) :
    Except ScriptError ReservationNode := do
  let pending ← addPending crypto (text "cancel") node.pendingCancellations tx ofPeer
  return { node with pendingCancellations := pending }

/-- The transition that `update_state` makes, if any, when it visits the
pending transactions in the given order. -/
def proposed (node : ReservationNode) (reservations cancellations : List Pending) :
    Except ScriptError (Option StateTransition) :=
  if node.pendingReservations = [] ∧ node.pendingCancellations = [] then .ok none
  else if node.ourSlot = some (node.epoch % totalValidators + 1) then do
    let visited ← readEntries reservations
    let (reserved, roomsLocal) ←
      select (conflictingReservation node.rooms) Transaction.clientPublicKey visited fun _ => none
    let visited ← readEntries cancellations
    let (cancelled, _) ←
      select (conflictingCancellation node.rooms) (fun _ => text "cancelled") visited roomsLocal
    if reserved.length + cancelled.length ≥ minTransactions then
      let st : StateTransition := ⟨node.epoch + 1, reserved, cancelled, []⟩
      return some { st with signature := crypto.sign node.privateKey (crypto.serialize st) }
    else return none
  else .ok none

def updateState (node : ReservationNode) (reservations cancellations : List Pending) :
    Except ScriptError ReservationNode := do
  match ← node.proposed crypto reservations cancellations with
  | none => return node
  | some st =>
    onStateTransition crypto { node with pendingReservations := [], pendingCancellations := [] } st

def step (node : ReservationNode) : ReservationEvent → Except ScriptError ReservationNode
  | .stateTransition st => node.onStateTransition crypto st
  | .createReservation tx ofPeer => node.onCreateReservation crypto tx ofPeer
  | .cancelReservation tx ofPeer => node.onCancelReservation crypto tx ofPeer
  | .update reservations cancellations =>
    if reservations.Perm node.pendingReservations ∧
        cancellations.Perm node.pendingCancellations then
      node.updateState crypto reservations cancellations
    else .ok node

def run (node : ReservationNode) (events : List ReservationEvent) :
    Except ScriptError ReservationNode :=
  events.foldlM (step crypto) node

/-- The transitions that `on_StateTransition` gets in an event. -/
def handed (node : ReservationNode) : ReservationEvent → List StateTransition
  | .stateTransition st => [st]
  | .createReservation .. | .cancelReservation .. => []
  | .update reservations cancellations =>
    match node.proposed crypto reservations cancellations with
    | .ok (some st) => [st]
    | _ => []

def handedOver : ReservationNode → List ReservationEvent → List StateTransition
  | _, [] => []
  | node, event :: rest =>
    node.handed crypto event ++
      match node.step crypto event with
      | .ok next => next.handedOver rest
      | .error _ => []

end ReservationNode

end AutomatonCore.Smartproto.Reservation
