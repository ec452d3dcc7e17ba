import AutomatonCore.Library.GuardedRun
import AutomatonCore.Library.Replication
import AutomatonCore.Smartproto.ReservationSystem

/-!
# Bookings are safe and the nodes agree on them
-/

namespace AutomatonCore.Smartproto.Reservation

open Io Library Script Relation List

variable {crypto : Crypto} {rooms l : Rooms} {tx : Transaction} {cell : Cell} {key : Bytes}
  {txs : List Transaction}

/-! ## Assignments -/

def Transaction.InRooms (tx : Transaction) : Prop :=
  ∀ room ∈ tx.roomId, isRoom room

def mark (entry : Option Bytes) (tx : Transaction) (rooms : Rooms) : Rooms :=
  fun cell => if cell ∈ tx.cells then entry else rooms cell

def markAll (entry : Transaction → Option Bytes) (txs : List Transaction) (rooms : Rooms) : Rooms :=
  txs.foldl (fun rooms tx => mark (entry tx) tx rooms) rooms

theorem Transaction.mem_cells : cell ∈ tx.cells ↔ cell.1 ∈ tx.roomId ∧ cell.2 ∈ tx.days := by
  obtain ⟨room, day⟩ := cell
  simp [Transaction.cells]

theorem foldlM_assignCell {entry : Option Bytes} {cells : List Cell}
    (exist : ∀ cell ∈ cells, isRoom cell.1) :
    cells.foldlM (assignCell entry) rooms =
      .ok fun cell => if cell ∈ cells then entry else rooms cell := by
  induction cells generalizing rooms with
  | nil => simp [pure, Except.pure]
  | cons first rest ih =>
    rw [foldlM_cons, assignCell, if_pos (exist first mem_cons_self)]
    refine (ih fun cell mem => exist cell (mem_cons_of_mem _ mem)).trans ?_
    refine congrArg Except.ok (funext fun cell => ?_)
    simp only [Function.update_apply]
    split <;> simp_all

theorem assign_eq {entry : Option Bytes} (exist : tx.InRooms) :
    assign entry tx rooms = .ok (mark entry tx rooms) :=
  foldlM_assignCell fun _ mem => exist _ (Transaction.mem_cells.mp mem).1

theorem foldlM_assign (entry : Transaction → Option Bytes) (rooms : Rooms)
    (exist : ∀ tx ∈ txs, tx.InRooms) :
    txs.foldlM (fun rooms tx => assign (entry tx) tx rooms) rooms =
      .ok (markAll entry txs rooms) := by
  induction txs generalizing rooms with
  | nil => rfl
  | cons tx rest ih =>
    rw [foldlM_cons, assign_eq (exist tx mem_cons_self)]
    exact ih _ fun other mem => exist other (mem_cons_of_mem _ mem)

theorem markAll_eq_or (entry : Transaction → Option Bytes) (txs : List Transaction)
    (rooms : Rooms) :
    markAll entry txs rooms cell = rooms cell ∨
      ∃ tx ∈ txs, cell ∈ tx.cells ∧ markAll entry txs rooms cell = entry tx := by
  induction txs generalizing rooms with
  | nil => exact .inl rfl
  | cons tx rest ih =>
    rcases ih (mark (entry tx) tx rooms) with same | ⟨other, mem, covers, set⟩
    · by_cases covers : cell ∈ tx.cells
      · exact .inr ⟨tx, mem_cons_self, covers, same.trans (if_pos covers)⟩
      · exact .inl (same.trans (if_neg covers))
    · exact .inr ⟨other, mem_cons_of_mem _ mem, covers, set⟩

/-! ## Conflicts -/

theorem conflictingReservation_eq_false :
    conflictingReservation rooms l tx = false ↔
      tx.InRooms ∧ ∀ cell ∈ tx.cells, rooms cell = none ∧ l cell = none := by
  simp [conflictingReservation, Transaction.InRooms, Transaction.mem_cells]
  grind

theorem conflictingCancellation_eq_false :
    conflictingCancellation rooms l tx = false ↔
      tx.InRooms ∧ ∀ cell ∈ tx.cells, rooms cell = some tx.clientPublicKey ∧ l cell = none ∨
          l cell = some tx.clientPublicKey := by
  simp [conflictingCancellation, Transaction.InRooms, Transaction.mem_cells]
  grind

/-- The signature can be verified, whatever the result. -/
def Transaction.Checkable (crypto : Crypto) (type : Bytes) (tx : Transaction) : Prop :=
  (tx.isValidSignature crypto type).isOk

instance (crypto : Crypto) (type : Bytes) (tx : Transaction) :
    Decidable (tx.Checkable crypto type) :=
  inferInstanceAs (Decidable (_ = true))

/-- No transaction is in conflict when its turn comes. -/
def Admissible (conflicting : Rooms → Transaction → Bool) (entry : Transaction → Option Bytes) :
    List Transaction → Rooms → Prop
  | [], _ => True
  | tx :: rest, roomsLocal =>
    conflicting roomsLocal tx = false ∧
      Admissible conflicting entry rest (mark (entry tx) tx roomsLocal)

def Passes (crypto : Crypto) (type : Bytes) (conflicting : Rooms → Transaction → Bool)
    (entry : Transaction → Option Bytes) (txs : List Transaction) (roomsLocal : Rooms) : Prop :=
  (∀ tx ∈ txs, tx.isValidSignature crypto type = .ok true) ∧
    Admissible conflicting entry txs roomsLocal

def ChecksRooms (conflicting : Rooms → Transaction → Bool) : Prop :=
  ∀ roomsLocal tx, conflicting roomsLocal tx = false → tx.InRooms

theorem checksRooms_reservation (rooms : Rooms) : ChecksRooms (conflictingReservation rooms) :=
  fun _ _ free => (conflictingReservation_eq_false.mp free).1

theorem checksRooms_cancellation (rooms : Rooms) : ChecksRooms (conflictingCancellation rooms) :=
  fun _ _ free => (conflictingCancellation_eq_false.mp free).1

section Loops

variable {conflicting : Rooms → Transaction → Bool} {entry : Transaction → Option Bytes}

/-- The state of `rooms_local` when it is the turn of a transaction. -/
theorem Admissible.exists_local (admissible : Admissible conflicting entry txs l) (mem : tx ∈ txs) :
    ∃ l', conflicting l' tx = false ∧
      ∀ cell, l' cell = l cell ∨ ∃ other, l' cell = entry other := by
  induction txs generalizing l with
  | nil => cases mem
  | cons first rest ih =>
    rcases mem_cons.mp mem with rfl | mem
    · exact ⟨l, admissible.1, fun _ => .inl rfl⟩
    · obtain ⟨l', free, same⟩ := ih admissible.2 mem
      refine ⟨l', free, fun cell => (same cell).elim (fun kept => ?_) .inr⟩
      unfold mark at kept
      split at kept
      · exact .inr ⟨first, kept⟩
      · exact .inl kept

theorem Admissible.inRooms (checks : ChecksRooms conflicting)
    (admissible : Admissible conflicting entry txs l) (tx : Transaction) (mem : tx ∈ txs) :
    tx.InRooms := by
  obtain ⟨l', free, -⟩ := admissible.exists_local mem
  exact checks l' tx free

/-- A loop of `valid_transition` finds out whether the transactions pass, unless
a signature cannot be verified. -/
theorem examine_eq (type : Bytes) (checks : ChecksRooms conflicting) :
    examine crypto type conflicting entry txs l = .ok (some (markAll entry txs l)) ∧
      Passes crypto type conflicting entry txs l ∨
    examine crypto type conflicting entry txs l = .ok none ∧
      ¬Passes crypto type conflicting entry txs l ∨
    (∃ error, examine crypto type conflicting entry txs l = .error error) ∧
      ∃ tx ∈ txs, ¬tx.Checkable crypto type := by
  induction txs generalizing l with
  | nil => exact .inl ⟨rfl, by simp, trivial⟩
  | cons tx rest ih =>
    rw [examine]
    cases signed : tx.isValidSignature crypto type with
    | error error =>
      exact .inr (.inr ⟨⟨error, rfl⟩, tx, mem_cons_self, by
        simp [Transaction.Checkable, signed, Except.isOk, Except.toBool]⟩)
    | ok valid =>
      cases valid with
      | false => exact .inr (.inl ⟨rfl, by simp [Passes, signed]⟩)
      | true =>
        cases conflict : conflicting l tx with
        | true => exact .inr (.inl ⟨rfl, by simp [Passes, Admissible, conflict]⟩)
        | false =>
          have assigned : assign (entry tx) tx l = .ok (mark (entry tx) tx l) :=
            assign_eq (checks _ _ conflict)
          simp only [assigned]
          rcases @ih (mark (entry tx) tx l) with ⟨ran, passes⟩ | ⟨ran, fails⟩ | ⟨ran, other, stuck⟩
          · exact .inl ⟨ran, forall_mem_cons.mpr ⟨signed, passes.1⟩, conflict, passes.2⟩
          · exact .inr (.inl ⟨ran, fun passes =>
              fails ⟨(forall_mem_cons.mp passes.1).2, passes.2.2⟩⟩)
          · exact .inr (.inr ⟨ran, other, mem_cons_of_mem _ stuck.1, stuck.2⟩)

theorem select_eq (value : Transaction → Bytes) (txs : List Transaction) (l : Rooms)
    (checks : ChecksRooms conflicting) :
    ∃ taken ⊆ txs, Admissible conflicting (fun tx => some (value tx)) taken l ∧
      select conflicting value txs l =
        .ok (taken, markAll (fun tx => some (value tx)) taken l) := by
  induction txs generalizing l with
  | nil => exact ⟨[], Subset.refl _, trivial, rfl⟩
  | cons tx rest ih =>
    rw [select]
    cases conflict : conflicting l tx with
    | true =>
      obtain ⟨taken, sub, admissible, selected⟩ := ih l
      exact ⟨taken, subset_cons_of_subset _ sub, admissible, selected⟩
    | false =>
      obtain ⟨taken, sub, admissible, selected⟩ := ih (mark (some (value tx)) tx l)
      refine ⟨tx :: taken, cons_subset_cons _ sub, ⟨conflict, admissible⟩, ?_⟩
      rw [assign_eq (checks _ _ conflict)]
      simp only [bind, Except.bind, selected]
      rfl

end Loops

/-! ## Valid transitions -/

namespace StateTransition

/-- The number of the transition is the next one, as Lua sees it. -/
def Follows (epoch : Nat) (st : StateTransition) : Prop :=
  (LuaNumber.ofUInt64 st.epoch).value = epoch + 1

/-- What `valid_transition` finds out about the signature of the transition. -/
def isSignedBy (crypto : Crypto) (leader : Bytes) (st : StateTransition) :
    Except ScriptError Bool :=
  crypto.check leader (crypto.serialize { st with signature := [] }) st.signature

def SignedBy (crypto : Crypto) (leader : Bytes) (st : StateTransition) : Prop :=
  st.isSignedBy crypto leader = .ok true

def reserve (st : StateTransition) (rooms : Rooms) : Rooms :=
  markAll (fun tx => some tx.clientPublicKey) st.reservations rooms

end StateTransition

variable {st : StateTransition} {sts sts' : List StateTransition}

namespace Ledger

variable {ledger next : Ledger}

def leader (ledger : Ledger) : Option Bytes :=
  ledger.validatorsSorted[ledger.epoch % totalValidators]?

/-- What `valid_transition` checks. -/
structure Valid (crypto : Crypto) (ledger : Ledger) (st : StateTransition) : Prop where
  follows : st.Follows ledger.epoch
  reservations : Passes crypto (text "create") (conflictingReservation ledger.rooms)
    (fun tx => some tx.clientPublicKey) st.reservations fun _ => none
  cancellations : Passes crypto (text "cancel") (conflictingCancellation ledger.rooms)
    (fun _ => none) st.cancellations (st.reserve fun _ => none)
  signed : ∃ leader, ledger.leader = some leader ∧ st.SignedBy crypto leader

/-- The leader is known, and all signatures that `valid_transition` may look at
can be verified. -/
def Verifiable (crypto : Crypto) (ledger : Ledger) (st : StateTransition) : Prop :=
  (∀ tx ∈ st.reservations, tx.Checkable crypto (text "create")) ∧
    (∀ tx ∈ st.cancellations, tx.Checkable crypto (text "cancel")) ∧
      ∃ leader ∈ ledger.leader, (st.isSignedBy crypto leader).isOk

instance (crypto : Crypto) (ledger : Ledger) (st : StateTransition) :
    Decidable (ledger.Verifiable crypto st) :=
  inferInstanceAs (Decidable (_ ∧ _ ∧ _))

theorem Valid.verifiable (valid : ledger.Valid crypto st) : ledger.Verifiable crypto st := by
  obtain ⟨leader, known, signed⟩ := valid.signed
  refine ⟨fun tx mem => ?_, fun tx mem => ?_, leader, known, ?_⟩
  · rw [Transaction.Checkable, valid.reservations.1 tx mem]
    rfl
  · rw [Transaction.Checkable, valid.cancellations.1 tx mem]
    rfl
  · rw [signed]
    rfl

/-- The ledger that `apply_transition` makes of a valid transition. -/
def after (ledger : Ledger) (st : StateTransition) : Ledger :=
  { ledger with
    rooms := markAll (fun _ => none) st.cancellations (st.reserve ledger.rooms)
    epoch := ledger.epoch + 1 }

/-- A transition is accepted exactly if it is valid; a Lua error means that a
signature could not be checked. -/
theorem validTransition_cases :
    ledger.validTransition crypto st = .ok true ∧ ledger.Valid crypto st ∨
    ledger.validTransition crypto st = .ok false ∧ ¬ledger.Valid crypto st ∨
    (∃ error, ledger.validTransition crypto st = .error error) ∧ ¬ledger.Verifiable crypto st := by
  unfold validTransition
  by_cases follows : (LuaNumber.ofUInt64 st.epoch).value = ledger.epoch + 1
  case neg => exact .inr (.inl ⟨if_pos follows, fun valid => follows valid.follows⟩)
  rw [if_neg (not_not_intro follows)]
  rcases examine_eq (text "create") (checksRooms_reservation _) with
    ⟨ran, reservations⟩ | ⟨ran, fails⟩ | ⟨⟨error, ran⟩, tx, mem, stuck⟩
  case inr.inl =>
    rw [ran]
    exact .inr (.inl ⟨rfl, fun valid => fails valid.reservations⟩)
  case inr.inr =>
    rw [ran]
    exact .inr (.inr ⟨⟨error, rfl⟩, fun all => stuck (all.1 tx mem)⟩)
  rw [ran]
  simp only [bind, Except.bind]
  rcases examine_eq (text "cancel") (checksRooms_cancellation _) with
    ⟨ran, cancellations⟩ | ⟨ran, fails⟩ | ⟨⟨error, ran⟩, tx, mem, stuck⟩
  case inr.inl =>
    rw [ran]
    exact .inr (.inl ⟨rfl, fun valid => fails valid.cancellations⟩)
  case inr.inr =>
    rw [ran]
    exact .inr (.inr ⟨⟨error, rfl⟩, fun all => stuck (all.2.1 tx mem)⟩)
  rw [ran]
  cases known : ledger.validatorsSorted[ledger.epoch % totalValidators]? with
  | none =>
    refine .inr (.inr ⟨⟨.badArgument, rfl⟩, fun all => ?_⟩)
    obtain ⟨leader, found, -⟩ := all.2.2
    cases known.symm.trans found
  | some leader =>
    have same {other : Bytes} (found : ledger.leader = some other) : leader = other :=
      Option.some.inj (known.symm.trans found)
    cases signed : st.isSignedBy crypto leader with
    | error error =>
      refine .inr (.inr ⟨⟨error, signed⟩, fun all => ?_⟩)
      obtain ⟨other, found, returned⟩ := all.2.2
      cases same found
      rw [signed] at returned
      cases returned
    | ok valid =>
      cases valid with
      | true => exact .inl ⟨signed, ⟨follows, reservations, cancellations, leader, known, signed⟩⟩
      | false =>
        refine .inr (.inl ⟨signed, fun valid => ?_⟩)
        obtain ⟨other, found, accepted⟩ := valid.signed
        cases same found
        cases signed.symm.trans accepted

/-! ### Their effect on a day -/

namespace Valid

/-- A booked day is given up only by a cancellation that its client has
signed. -/
theorem booked_or_cancelled (valid : ledger.Valid crypto st)
    (booked : ledger.rooms cell = some key) :
    (ledger.after st).rooms cell = some key ∨ ∃ tx ∈ st.cancellations,
      tx.clientPublicKey = key ∧ cell ∈ tx.cells ∧
        tx.isValidSignature crypto (text "cancel") = .ok true := by
  have kept : ∀ rooms, st.reserve rooms cell = rooms cell := fun rooms => by
    rcases markAll_eq_or _ st.reservations rooms with same | ⟨tx, mem, covers, -⟩
    · exact same
    · obtain ⟨_, free, -⟩ := valid.reservations.2.exists_local mem
      have empty := ((conflictingReservation_eq_false.mp free).2 cell covers).1
      simp [booked] at empty
  rcases markAll_eq_or (fun _ => none) st.cancellations (st.reserve ledger.rooms) with
    same | ⟨tx, mem, covers, -⟩
  · exact .inl (same.trans ((kept _).trans booked))
  · -- the transition does not book the day, so it is the day's owner who cancels
    obtain ⟨l', own, same⟩ := valid.cancellations.2.exists_local mem
    have unbooked : l' cell = none := by
      rcases same cell with equal | ⟨_, gone⟩
      · exact equal.trans (kept _)
      · exact gone
    rcases (conflictingCancellation_eq_false.mp own).2 cell covers with ⟨owner, -⟩ | other
    · exact .inr ⟨tx, mem, Option.some.inj (owner.symm.trans booked), covers,
        valid.cancellations.1 tx mem⟩
    · simp [unbooked] at other

theorem booked_before_or_created (valid : ledger.Valid crypto st)
    (booked : (ledger.after st).rooms cell = some key) :
    ledger.rooms cell = some key ∨ ∃ tx ∈ st.reservations,
      tx.clientPublicKey = key ∧ cell ∈ tx.cells ∧
        tx.isValidSignature crypto (text "create") = .ok true := by
  rcases markAll_eq_or (fun _ => none) st.cancellations (st.reserve ledger.rooms) with
    same | ⟨_, _, _, gone⟩
  · have booked := same.symm.trans booked
    rcases markAll_eq_or _ st.reservations ledger.rooms with before | ⟨tx, mem, covers, set⟩
    · exact .inl (before.symm.trans booked)
    · exact .inr ⟨tx, mem, Option.some.inj (set.symm.trans booked), covers,
        valid.reservations.1 tx mem⟩
  · cases gone.symm.trans booked

end Valid

/-- One valid transition of those that are handed over. -/
def Accepts (crypto : Crypto) (sts : List StateTransition) (ledger next : Ledger) : Prop :=
  ∃ st ∈ sts, ledger.Valid crypto st ∧ next = ledger.after st

theorem reflTransGen_mono (sub : sts ⊆ sts')
    (reached : ReflTransGen (Accepts crypto sts) ledger next) :
    ReflTransGen (Accepts crypto sts') ledger next := by
  refine ReflTransGen.mono (fun _ _ => ?_) _ _ reached
  rintro ⟨st, mem, accepted⟩
  exact ⟨st, sub mem, accepted⟩

theorem Accepts.epoch_eq (ledger next : Ledger) (accepts : ledger.Accepts crypto sts next) :
    next.epoch = ledger.epoch + 1 := by
  obtain ⟨st, -, -, rfl⟩ := accepts
  rfl

theorem validatorsSorted_eq (reached : ReflTransGen (Accepts crypto sts) ledger next) :
    next.validatorsSorted = ledger.validatorsSorted := by
  induction reached with
  | refl => rfl
  | tail _ last ih =>
    obtain ⟨st, -, -, rfl⟩ := last
    exact ih

end Ledger

namespace ReservationNode

variable {node next final : ReservationNode} {rs cs : List Pending}
  {event : ReservationEvent} {events : List ReservationEvent}

/-! ## Steps -/

/-- All pending transactions are signed by their clients. -/
def Signed (crypto : Crypto) (node : ReservationNode) : Prop :=
  (∀ entry ∈ node.pendingReservations,
    entry.tx.isValidSignature crypto (text "create") = .ok true) ∧
  ∀ entry ∈ node.pendingCancellations, entry.tx.isValidSignature crypto (text "cancel") = .ok true

/-- What a run may change when the given transitions are handed over. -/
structure RunsTo (crypto : Crypto) (sts : List StateTransition) (node final : ReservationNode) :
    Prop where
  ledger : ReflTransGen (Ledger.Accepts crypto sts) node.toLedger final.toLedger
  signed : node.Signed crypto → final.Signed crypto
  ourSlot : final.ourSlot = node.ourSlot
  privateKey : final.privateKey = node.privateKey

theorem RunsTo.refl : RunsTo crypto sts node node :=
  ⟨.refl, id, rfl, rfl⟩

theorem RunsTo.trans (first : RunsTo crypto sts node next)
    (second : RunsTo crypto sts' next final) :
    RunsTo crypto (sts ++ sts') node final where
  ledger := (Ledger.reflTransGen_mono (subset_append_left _ _) first.ledger).trans
    (Ledger.reflTransGen_mono (subset_append_right _ _) second.ledger)
  signed := second.signed ∘ first.signed
  ourSlot := second.ourSlot.trans first.ourSlot
  privateKey := second.privateKey.trans first.privateKey

theorem applyTransition_eq (valid : node.Valid crypto st) :
    ∃ next, node.applyTransition st = .ok next ∧ RunsTo crypto [st] node next := by
  have reserved := foldlM_assign (fun tx => some tx.clientPublicKey) node.rooms
    (valid.reservations.2.inRooms (checksRooms_reservation _))
  have cancelled := foldlM_assign (fun _ => none) (st.reserve node.rooms)
    (valid.cancellations.2.inRooms (checksRooms_cancellation _))
  rw [StateTransition.reserve] at cancelled
  unfold applyTransition
  simp only [reserved, cancelled, bind, Except.bind]
  refine ⟨_, rfl, .single ⟨st, mem_singleton_self st, valid, rfl⟩, fun signed => ?_, rfl, rfl⟩
  exact ⟨fun entry mem => signed.1 entry (mem_of_mem_filter mem),
    fun entry mem => signed.2 entry (mem_of_mem_filter mem)⟩

theorem onStateTransition_spec (node : ReservationNode) (st : StateTransition) :
    (∃ next, node.onStateTransition crypto st = .ok next ∧ RunsTo crypto [st] node next) ∨
      (∃ error, node.onStateTransition crypto st = .error error) ∧ ¬node.Verifiable crypto st := by
  unfold onStateTransition
  rcases Ledger.validTransition_cases with ⟨ran, valid⟩ | ⟨ran, -⟩ | ⟨⟨error, ran⟩, stuck⟩
  · rw [ran]
    exact .inl (applyTransition_eq valid)
  · rw [ran]
    exact .inl ⟨node, rfl, .refl⟩
  · rw [ran]
    exact .inr ⟨⟨error, rfl⟩, stuck⟩

theorem addPending_spec (type : Bytes) (pending : List Pending) (tx : Transaction) (ofPeer : Bool) :
    (∃ after, addPending crypto type pending tx ofPeer = .ok after ∧
      ((∀ entry ∈ pending, entry.tx.isValidSignature crypto type = .ok true) →
        ∀ entry ∈ after, entry.tx.isValidSignature crypto type = .ok true)) ∨
      (∃ error, addPending crypto type pending tx ofPeer = .error error) ∧
        ¬tx.Checkable crypto type := by
  unfold addPending
  split
  · exact .inl ⟨pending, rfl, id⟩
  · cases verified : tx.isValidSignature crypto type with
    | error error =>
      exact .inr ⟨⟨error, rfl⟩, by
        simp [Transaction.Checkable, verified, Except.isOk, Except.toBool]⟩
    | ok valid =>
      simp only [bind, Except.bind]
      split
      · exact .inl ⟨pending, rfl, id⟩
      · split
        · exact .inl ⟨pending, rfl, id⟩
        · refine .inl ⟨_, rfl, fun signed =>
            forall_mem_append.mpr ⟨signed, forall_mem_singleton.mpr ?_⟩⟩
          simp_all

/-- A leader signs what it selects from the pending transactions. -/
structure Proposal (crypto : Crypto) (node : ReservationNode) (rs cs : List Pending)
    (st : StateTransition) : Prop where
  slot : node.ourSlot = some (node.epoch % totalValidators + 1)
  epoch : st.epoch = node.epoch + 1
  reservations : st.reservations ⊆ rs.map Pending.tx
  cancellations : st.cancellations ⊆ cs.map Pending.tx
  signature :
    st.signature = crypto.sign node.privateKey (crypto.serialize { st with signature := [] })
  free : Admissible (conflictingReservation node.rooms) (fun tx => some tx.clientPublicKey)
    st.reservations fun _ => none
  owned : Admissible (conflictingCancellation node.rooms) (fun _ => some (text "cancelled"))
    st.cancellations (st.reserve fun _ => none)

/-- A loop over a table reads all its entries or finds one that was deleted. -/
theorem readEntries_cases (pending : List Pending) :
    readEntries pending = .ok (pending.map Pending.tx) ∨
      (∃ error, readEntries pending = .error error) ∧ ∃ entry ∈ pending, entry.deleted = true := by
  induction pending with
  | nil => exact .inl rfl
  | cons entry rest ih =>
    rw [readEntries, mapM_cons, ← readEntries]
    cases gone : entry.deleted with
    | true => exact .inr ⟨⟨_, rfl⟩, entry, mem_cons_self, gone⟩
    | false =>
      rcases ih with ran | ⟨⟨error, ran⟩, other, mem, gone⟩
      · rw [ran]
        exact .inl rfl
      · rw [ran]
        exact .inr ⟨⟨error, rfl⟩, other, mem_cons_of_mem _ mem, gone⟩

/-- In the slot of the node. -/
def Leads (node : ReservationNode) : Prop :=
  node.ourSlot = some (node.epoch % totalValidators + 1)

/-- What the leader proposes; a Lua error means that an entry was deleted. -/
theorem proposed_spec (crypto : Crypto) (node : ReservationNode) (rs cs : List Pending) :
    node.proposed crypto rs cs = .ok none ∨
      (∃ st, node.proposed crypto rs cs = .ok (some st) ∧ Proposal crypto node rs cs st) ∨
      (∃ error, node.proposed crypto rs cs = .error error) ∧ node.Leads ∧
        ∃ entry ∈ rs ++ cs, entry.deleted = true := by
  unfold proposed
  split
  · exact .inl rfl
  · split
    case isFalse => exact .inl rfl
    case isTrue slot =>
      rcases readEntries_cases rs with ran | ⟨⟨error, ran⟩, entry, mem, gone⟩
      case inr =>
        rw [ran]
        exact .inr (.inr ⟨⟨error, rfl⟩, slot, entry, mem_append_left _ mem, gone⟩)
      obtain ⟨reserved, subReserved, free, selected⟩ :=
        select_eq Transaction.clientPublicKey (rs.map Pending.tx) (fun _ => none)
          (checksRooms_reservation node.rooms)
      simp only [ran, selected, bind, Except.bind]
      rcases readEntries_cases cs with ran | ⟨⟨error, ran⟩, entry, mem, gone⟩
      case inr =>
        rw [ran]
        exact .inr (.inr ⟨⟨error, rfl⟩, slot, entry, mem_append_right _ mem, gone⟩)
      obtain ⟨cancelled, subCancelled, owned, selected⟩ :=
        select_eq (fun _ => text "cancelled") (cs.map Pending.tx)
          (markAll (fun tx => some tx.clientPublicKey) reserved fun _ => none)
          (checksRooms_cancellation node.rooms)
      simp only [ran, selected]
      split
      · exact .inr (.inl ⟨_, rfl, slot, rfl, subReserved, subCancelled, rfl, free, owned⟩)
      · exact .inl rfl

/-- The condition on an event: all signatures can be verified, and in its slot
the node finds no pending transaction whose message was deleted. -/
def Handles (crypto : Crypto) (node : ReservationNode) (event : ReservationEvent) : Prop :=
  (∀ st ∈ node.handed crypto event, node.Verifiable crypto st) ∧
    match event with
    | .stateTransition _ => True
    | .createReservation tx _ => tx.Checkable crypto (text "create")
    | .cancelReservation tx _ => tx.Checkable crypto (text "cancel")
    | .update rs cs => node.Leads → ∀ entry ∈ rs ++ cs, entry.deleted = false

/-- What a step changes, and why it fails if it does. -/
theorem step_spec (crypto : Crypto) (node : ReservationNode) (event : ReservationEvent) :
    (∃ next, node.step crypto event = .ok next ∧
      RunsTo crypto (node.handed crypto event) node next) ∨
      (∃ error, node.step crypto event = .error error) ∧ ¬node.Handles crypto event := by
  cases event with
  | stateTransition st =>
    refine (onStateTransition_spec node st).imp_right fun ⟨failed, stuck⟩ => ⟨failed, ?_⟩
    exact fun handles => stuck (handles.1 st mem_cons_self)
  | createReservation tx ofPeer =>
    rw [step, onCreateReservation]
    rcases addPending_spec (text "create") node.pendingReservations tx ofPeer with
      ⟨after, ran, kept⟩ | ⟨⟨error, ran⟩, stuck⟩
    · rw [ran]
      exact .inl ⟨_, rfl, .refl, fun signed => ⟨kept signed.1, signed.2⟩, rfl, rfl⟩
    · rw [ran]
      exact .inr ⟨⟨error, rfl⟩, fun handles => stuck handles.2⟩
  | cancelReservation tx ofPeer =>
    rw [step, onCancelReservation]
    rcases addPending_spec (text "cancel") node.pendingCancellations tx ofPeer with
      ⟨after, ran, kept⟩ | ⟨⟨error, ran⟩, stuck⟩
    · rw [ran]
      exact .inl ⟨_, rfl, .refl, fun signed => ⟨signed.1, kept signed.2⟩, rfl, rfl⟩
    · rw [ran]
      exact .inr ⟨⟨error, rfl⟩, fun handles => stuck handles.2⟩
  | update rs cs =>
    rw [step]
    split
    case isFalse => exact .inl ⟨node, rfl, .refl⟩
    rcases proposed_spec crypto node rs cs with
      ran | ⟨st, ran, -⟩ | ⟨⟨error, ran⟩, slot, entry, mem, gone⟩
    · rw [updateState, ran]
      exact .inl ⟨node, rfl, .refl⟩
    · have handed : node.handed crypto (.update rs cs) = [st] := by simp only [handed, ran]
      rw [updateState, ran, handed]
      let emptied := { node with pendingReservations := [], pendingCancellations := [] }
      rcases onStateTransition_spec emptied st with ⟨next, stepped, runs⟩ | ⟨failed, stuck⟩
      · exact .inl ⟨next, stepped, runs.ledger, fun _ => runs.signed ⟨by simp [emptied],
          by simp [emptied]⟩, runs.ourSlot, runs.privateKey⟩
      · exact .inr ⟨failed, fun handles => stuck (handles.1 st (handed ▸ mem_cons_self))⟩
    · rw [updateState, ran]
      refine .inr ⟨⟨error, rfl⟩, fun handles => ?_⟩
      cases gone.symm.trans (handles.2 slot entry mem)

/-! ## Runs -/

/-- Whatever happened in a run that did not fail, it changed the node only by
transitions that were handed over. -/
theorem runsTo_of_run (ran : node.run crypto events = .ok final) :
    RunsTo crypto (node.handedOver crypto events) node final := by
  induction events generalizing node with
  | nil =>
    cases ran
    exact .refl
  | cons event rest ih =>
    rw [run, foldlM_cons] at ran
    rcases step_spec crypto node event with ⟨next, stepped, runs⟩ | ⟨⟨error, failed⟩, -⟩
    · rw [stepped] at ran
      rw [handedOver, stepped]
      exact runs.trans (ih ran)
    · rw [failed] at ran
      cases ran

/-- The scripts do not fail as long as they can handle what happens. -/
theorem run_eq_ok (guarded : Guarded (step crypto) (Handles crypto) node events) :
    ∃ final, node.run crypto events = .ok final ∧
      RunsTo crypto (node.handedOver crypto events) node final := by
  have returned : ∃ final, events.foldlM (step crypto) node = .ok final ∧ True := by
    refine guarded.run (fun node event _ handles => ?_) trivial
    rcases step_spec crypto node event with ⟨next, stepped, -⟩ | ⟨-, stuck⟩
    · exact ⟨next, stepped, trivial⟩
    · exact (stuck handles).elim
  obtain ⟨final, ran, -⟩ := returned
  exact ⟨final, ran, runsTo_of_run ran⟩

/-- A key and the message are the signature. -/
def plainCrypto : Crypto where
  verify key message signature := some (signature == key ++ message)
  sign key message := key ++ message
  serialize st := decimal st.epoch

/-- The first of twenty validators. -/
def firstNode : ReservationNode where
  validatorsSorted := (range totalValidators).map decimal
  ourSlot := some 1
  privateKey := text "0"

def booking : Transaction :=
  ⟨[2], 5, 6, text "guest", text "guestcreate256"⟩

def firstTransition : StateTransition :=
  ⟨1, [booking], [], text "01"⟩

/-- The second validator cancels the booking. -/
def secondTransition : StateTransition :=
  ⟨2, [], [⟨[2], 5, 6, text "guest", text "guestcancel256"⟩], text "12"⟩

instance (crypto : Crypto) (node : ReservationNode) (event : ReservationEvent) :
    Decidable (node.Handles crypto event) :=
  match event with
  | .stateTransition _ => inferInstanceAs (Decidable (_ ∧ True))
  | .createReservation .. | .cancelReservation .. =>
    inferInstanceAs (Decidable (_ ∧ Transaction.Checkable ..))
  | .update .. => inferInstanceAs (Decidable (_ ∧ (_ = some _ → ∀ entry ∈ _, _)))

/-- A booked day stays booked until a cancellation that its owner has signed,
and a client gets a day only by a reservation that it has signed. -/
theorem run_bookings (guarded : Guarded (step crypto) (Handles crypto) node events) :
    ∃ final, node.run crypto events = .ok final ∧ ∀ cell key,
      (node.rooms cell = some key → final.rooms cell = some key ∨
        ∃ st ∈ node.handedOver crypto events, ∃ tx ∈ st.cancellations, tx.clientPublicKey = key ∧
          cell ∈ tx.cells ∧ tx.isValidSignature crypto (text "cancel") = .ok true) ∧
      (final.rooms cell = some key → node.rooms cell = some key ∨
        ∃ st ∈ node.handedOver crypto events, ∃ tx ∈ st.reservations, tx.clientPublicKey = key ∧
          cell ∈ tx.cells ∧ tx.isValidSignature crypto (text "create") = .ok true) := by
  obtain ⟨final, ran, ledger, -⟩ := run_eq_ok guarded
  refine ⟨final, ran, fun cell key => ?_⟩
  generalize final.toLedger = reached at ledger
  induction ledger with
  | refl => exact ⟨.inl, .inl⟩
  | tail _ last ih =>
    obtain ⟨st, mem, valid, rfl⟩ := last
    constructor
    · intro booked
      rcases ih.1 booked with still | gone
      · exact (valid.booked_or_cancelled still).imp_right fun cancelled => ⟨st, mem, cancelled⟩
      · exact .inr gone
    · intro booked
      rcases valid.booked_before_or_created booked with before | created
      · exact ih.2 before
      · exact .inr ⟨st, mem, created⟩

/-- The first node after its booking. -/
def bookedNode : ReservationNode :=
  { firstNode with
    rooms := Function.update (Function.update (fun _ => none) (2, 5) (some (text "guest"))) (2, 6)
      (some (text "guest"))
    epoch := 1 }

def bookingEvents : List ReservationEvent :=
  [.createReservation booking false, .update [⟨booking, false⟩] []]

theorem firstNode_guarded :
    Guarded (step plainCrypto) (Handles plainCrypto) firstNode bookingEvents := by
  decide +kernel

/-- The node books two days as a leader, and gets their cancellation from the
next one. -/
theorem run_bookings_cancelled :
    firstNode.run plainCrypto bookingEvents = .ok bookedNode ∧
      (∃ st ∈ firstNode.handedOver plainCrypto bookingEvents, ∃ tx ∈ st.reservations,
        tx.clientPublicKey = text "guest" ∧ (2, 5) ∈ tx.cells) ∧
      ∃ final, bookedNode.run plainCrypto [.stateTransition secondTransition] = .ok final ∧
        final.rooms (2, 5) = none := by
  have booked : firstNode.run plainCrypto bookingEvents = .ok bookedNode := rfl
  refine ⟨booked, ?_, ?_⟩
  · obtain ⟨final, ran, kept⟩ := run_bookings firstNode_guarded
    cases booked.symm.trans ran
    rcases (kept (2, 5) (text "guest")).2 rfl with before | ⟨st, handed, tx, mem, key, covers, -⟩
    · cases before
    · exact ⟨st, handed, tx, mem, key, covers⟩
  · have guarded : Guarded (step plainCrypto) (Handles plainCrypto) bookedNode
        [.stateTransition secondTransition] := by
      decide +kernel
    obtain ⟨final, ran, -⟩ := run_bookings guarded
    have emptied : (bookedNode.run plainCrypto [.stateTransition secondTransition]).map
        (fun final => final.rooms (2, 5)) = .ok none := by
      decide +kernel
    rw [ran] at emptied
    exact ⟨final, ran, Except.ok.inj emptied⟩

end ReservationNode

/-! ## Agreement -/

/-- None of the given transitions has the number of another one and a signature
by the same key. -/
def SignOnce (crypto : Crypto) (sts : List StateTransition) : Prop :=
  ∀ st ∈ sts, ∀ other ∈ sts, ∀ epoch leader, st.Follows epoch → other.Follows epoch →
    st.SignedBy crypto leader → other.SignedBy crypto leader →
      st.reservations = other.reservations ∧ st.cancellations = other.cancellations

theorem SignOnce.rightUnique (once : SignOnce crypto sts) :
    Relator.RightUnique (Ledger.Accepts crypto sts) := by
  rintro ledger _ _ ⟨st, mem, valid, rfl⟩ ⟨other, mem', valid', rfl⟩
  obtain ⟨leader, known, signed⟩ := valid.signed
  obtain ⟨leader', known', signed'⟩ := valid'.signed
  cases known.symm.trans known'
  obtain ⟨reservations, cancellations⟩ :=
    once st mem other mem' _ _ valid.follows valid'.follows signed signed'
  simp only [Ledger.after, StateTransition.reserve, reservations, cancellations]

namespace ReservationNode

variable {a b a' b' : ReservationNode} {es es' : List ReservationEvent}

theorem RunsTo.agree (same : a.toLedger = b.toLedger) (runs : RunsTo crypto sts a a')
    (runs' : RunsTo crypto sts' b b') (once : SignOnce crypto (sts ++ sts'))
    (behind : a'.epoch ≤ b'.epoch) :
    ReflTransGen (Ledger.Accepts crypto (sts ++ sts')) a'.toLedger b'.toLedger := by
  have reaches := Ledger.reflTransGen_mono (subset_append_left _ sts') runs.ledger
  have reaches' := Ledger.reflTransGen_mono (subset_append_right sts _) runs'.ledger
  rw [same] at reaches
  exact Library.reflTransGen_of_count_le once.rightUnique Ledger.Accepts.epoch_eq reaches reaches'
    behind

theorem toLedger_eq (reach : ReflTransGen (Ledger.Accepts crypto sts) a.toLedger b.toLedger)
    (level : a.epoch = b.epoch) : a.toLedger = b.toLedger :=
  (Library.count_le_of_reflTransGen Ledger.Accepts.epoch_eq reach).2 level

/-- Nodes that begin with one ledger may get any messages that they can handle,
in any order.  If the leaders sign once, the ledger of the node that is behind
leads to the other one by transitions of the two runs, and in equal epochs they
are equal. -/
theorem run_agreement (same : a.toLedger = b.toLedger)
    (guarded : Guarded (step crypto) (Handles crypto) a es)
    (guarded' : Guarded (step crypto) (Handles crypto) b es')
    (once : SignOnce crypto (a.handedOver crypto es ++ b.handedOver crypto es')) :
    ∃ a' b', a.run crypto es = .ok a' ∧ b.run crypto es' = .ok b' ∧
      (a'.epoch = b'.epoch → a'.toLedger = b'.toLedger) ∧
      (a'.epoch ≤ b'.epoch → ReflTransGen
        (Ledger.Accepts crypto (a.handedOver crypto es ++ b.handedOver crypto es'))
        a'.toLedger b'.toLedger) := by
  obtain ⟨a', ran, runs⟩ := run_eq_ok guarded
  obtain ⟨b', ran', runs'⟩ := run_eq_ok guarded'
  have reach := runs.agree same runs' once
  exact ⟨a', b', ran, ran', fun level => toLedger_eq (reach level.le) level, reach⟩

theorem run_agreement_booking :
    ∃ a' b', firstNode.run plainCrypto [.stateTransition firstTransition] = .ok a' ∧
      firstNode.run plainCrypto bookingEvents = .ok b' ∧
      (a'.epoch = b'.epoch → a'.toLedger = b'.toLedger) := by
  have handed : firstNode.handedOver plainCrypto [.stateTransition firstTransition] ++
      firstNode.handedOver plainCrypto bookingEvents = [firstTransition, firstTransition] := by
    decide +kernel
  have guarded : Guarded (step plainCrypto) (Handles plainCrypto) firstNode
      [.stateTransition firstTransition] := by
    decide +kernel
  obtain ⟨a', b', ran, ran', level, -⟩ := run_agreement rfl guarded firstNode_guarded
    (by rw [handed]; simp [SignOnce])
  exact ⟨a', b', ran, ran', level⟩

/-! ## The transition of a leader -/

/-- Where the leader notes that a day is cancelled, the others empty it. -/
theorem admissible_of_noted {noted : Rooms}
    (keys : ∀ tx ∈ txs, tx.clientPublicKey ≠ text "cancelled")
    (agree : ∀ cell, noted cell = l cell ∨ noted cell = some (text "cancelled") ∧ l cell = none)
    (owned :
      Admissible (conflictingCancellation rooms) (fun _ => some (text "cancelled")) txs noted) :
    Admissible (conflictingCancellation rooms) (fun _ => none) txs l := by
  induction txs generalizing noted l with
  | nil => trivial
  | cons tx rest ih =>
    obtain ⟨exist, own⟩ := conflictingCancellation_eq_false.mp owned.1
    have key := keys tx mem_cons_self
    refine ⟨conflictingCancellation_eq_false.mpr ⟨exist, fun cell covers => ?_⟩,
      ih (fun other mem => keys other (mem_cons_of_mem _ mem)) (fun cell => ?_) owned.2⟩
    · rcases agree cell with equal | ⟨marked, empty⟩
      · rw [← equal]
        exact own cell covers
      · rcases own cell covers with ⟨_, free⟩ | booked
        · simp [marked] at free
        · exact (key (Option.some.inj (booked.symm.trans marked))).elim
    · unfold mark
      split
      · exact .inr ⟨rfl, rfl⟩
      · exact agree cell

/-- What a leader makes of its pending transactions, in any order, is valid for
every node with the same ledger. -/
theorem run_proposed_valid {publicKey : Bytes} {rs cs : List Pending}
    (signed : a.Signed crypto)
    (ran : a.run crypto es = .ok a') (same : b.toLedger = a'.toLedger)
    (small : a'.epoch + 1 < 2 ^ 63)
    (ours : ∀ slot, a.ourSlot = some (slot + 1) → a.validatorsSorted[slot]? = some publicKey)
    (verifies : ∀ message,
      crypto.verify publicKey message (crypto.sign a.privateKey message) = some true)
    (visited : rs.Perm a'.pendingReservations ∧ cs.Perm a'.pendingCancellations)
    (keys : ∀ entry ∈ cs, entry.tx.clientPublicKey ≠ text "cancelled")
    (made : a'.proposed crypto rs cs = .ok (some st)) : b.validTransition crypto st = .ok true := by
  rw [same]
  have runs := runsTo_of_run ran
  rcases proposed_spec crypto a' rs cs with nothing | ⟨other, again, proposal⟩ | ⟨⟨_, failed⟩, -⟩
  case inl => cases nothing.symm.trans made
  case inr.inr => cases failed.symm.trans made
  obtain rfl := Option.some.inj (Except.ok.inj (again.symm.trans made))
  have pending := runs.signed signed
  have leader : a'.leader = some publicKey := by
    rw [Ledger.leader, Ledger.validatorsSorted_eq runs.ledger]
    exact ours _ (runs.ourSlot.symm.trans proposal.slot)
  have valid : a'.Valid crypto other :=
    { follows := by
        rw [StateTransition.Follows, proposal.epoch, LuaNumber.ofUInt64_of_lt small]
        rfl
      reservations := by
        refine ⟨fun tx mem => ?_, proposal.free⟩
        obtain ⟨entry, listed, rfl⟩ := mem_map.mp (proposal.reservations mem)
        exact pending.1 entry (visited.1.subset listed)
      cancellations := by
        refine ⟨fun tx mem => ?_, admissible_of_noted (fun tx mem => ?_) (fun _ => .inl rfl)
          proposal.owned⟩
        · obtain ⟨entry, listed, rfl⟩ := mem_map.mp (proposal.cancellations mem)
          exact pending.2 entry (visited.2.subset listed)
        · obtain ⟨entry, listed, rfl⟩ := mem_map.mp (proposal.cancellations mem)
          exact keys entry listed
      signed := by
        refine ⟨publicKey, leader, ?_⟩
        rw [StateTransition.SignedBy, StateTransition.isSignedBy, Crypto.check,
          proposal.signature, runs.privateKey, verifies] }
  rcases Ledger.validTransition_cases with ⟨accepted, -⟩ | ⟨-, invalid⟩ | ⟨-, stuck⟩
  · exact accepted
  · exact (invalid valid).elim
  · exact (stuck valid.verifiable).elim

theorem run_proposed_valid_booking :
    firstNode.validTransition plainCrypto firstTransition = .ok true := by
  have ran : firstNode.run plainCrypto [.createReservation booking false] =
      .ok { firstNode with pendingReservations := [⟨booking, false⟩] } := rfl
  refine run_proposed_valid ⟨?_, ?_⟩ ran rfl (by decide) (fun slot same => ?_)
    (fun message => congrArg some (beq_self_eq_true (text "0" ++ message)))
    ⟨.refl _, .refl _⟩ ?_ rfl
  · exact fun tx mem => (by cases mem)
  · exact fun tx mem => (by cases mem)
  · obtain rfl : 0 = slot := Nat.succ.inj (Option.some.inj same)
    rfl
  · exact fun tx mem => (by cases mem)

end ReservationNode

end AutomatonCore.Smartproto.Reservation
