import AutomatonCore.Library.BackReference
import AutomatonCore.Library.GuardedRun
import AutomatonCore.Network.ConnectionTable

/-!
# Consistency of the connection table

Every function that changes the table keeps it consistent, except
`add_connection`: it erases an entry of another connection where it should
erase the old entry of its own.
-/

namespace AutomatonCore.Network

open Library

namespace SimulatedNetwork

def ids (net : SimulatedNetwork) : Nat → Nat :=
  fun conn => (net.objects conn).localConnectionId

def listing (net : SimulatedNetwork) : Nat → Option Nat :=
  fun id => net.connections.lookup id

/-- The table lists objects that have been created, under the id that they
have and only once. -/
structure TableConsistent (net : SimulatedNetwork) : Prop where
  own : ∀ id conn, net.connections.lookup id = some conn →
    (net.objects conn).localConnectionId = id
  once : ∀ id other conn, net.connections.lookup id = some conn →
    net.connections.lookup other = some conn → id = other
  created : ∀ id conn, net.connections.lookup id = some conn →
    conn < net.created

/-- A call of `connect` that has an effect is made on a connection which is
listed under no other id than it gets. -/
def ConnectsUnlisted (net : SimulatedNetwork) : NetworkAction → Prop
  | .connect conn _ =>
    conn < net.created → (net.objects conn).remoteAddress ≠ 0 →
      ∀ entry ∈ net.connections.entries, entry.2 = conn → entry.1 = net.nextId
  | _ => True

structure Sound (net : SimulatedNetwork) : Prop where
  consistent : BackReferenced net.listing net.ids
  allocated : ∀ id conn, net.listing id = some conn → conn < net.created

theorem tableConsistent_iff {net : SimulatedNetwork} : net.TableConsistent ↔ net.Sound := by
  constructor
  · intro table
    exact ⟨table.own, table.created⟩
  · intro sound
    exact ⟨sound.consistent, fun _ _ _ => sound.consistent.once, sound.allocated⟩

/-! ## What is left alone -/

structure SameTable (before after : SimulatedNetwork) : Prop where
  connections : after.connections = before.connections
  ids : after.ids = before.ids
  created : after.created = before.created
  nextId : after.nextId = before.nextId

variable {before after : SimulatedNetwork} {random : Nat} {requested : Bool}

theorem SameTable.trans {middle : SimulatedNetwork}
    (first : SameTable before middle) (second : SameTable middle after) :
    SameTable before after where
  connections := second.connections.trans first.connections
  ids := second.ids.trans first.ids
  created := second.created.trans first.created
  nextId := second.nextId.trans first.nextId

theorem SameTable.sound_iff (same : SameTable before after) : after.Sound ↔ before.Sound := by
  have listing : after.listing = before.listing := by
    unfold SimulatedNetwork.listing
    rw [same.connections]
  constructor
  · rintro ⟨consistent, allocated⟩
    rw [listing, same.ids] at consistent
    rw [listing, same.created] at allocated
    exact ⟨consistent, allocated⟩
  · rintro ⟨consistent, allocated⟩
    rw [← listing, ← same.ids] at consistent
    rw [← listing, ← same.created] at allocated
    exact ⟨consistent, allocated⟩

variable {net : SimulatedNetwork}

theorem ids_put (c : Nat) (object : ConnectionObject) :
    (net.put c object).ids = Function.update net.ids c object.localConnectionId := by
  funext other
  exact Function.apply_update (fun _ => ConnectionObject.localConnectionId)
    net.objects c object other

variable {c id : Nat} {next : SimulatedNetwork}

theorem sameTable_put {object : ConnectionObject} (same : object.localConnectionId = net.ids c) :
    SameTable net (net.put c object) where
  connections := rfl
  ids := by rw [ids_put, same, Function.update_eq_self]
  created := rfl
  nextId := rfl

theorem sameTable_addTask (time : Nat) (task : SetupTask) : SameTable net (net.addTask time task) :=
  ⟨rfl, rfl, rfl, rfl⟩

theorem sameTable_setState (c : Nat) (s : ConnectionState) : SameTable net (net.setState c s) :=
  sameTable_put rfl

theorem sameTable_setTimeStamp (c time : Nat) : SameTable net (net.setTimeStamp c time) :=
  sameTable_put rfl

theorem sameTable_setRemote (c remote : Nat) : SameTable net (net.setRemote c remote) :=
  sameTable_put rfl

theorem sameTable_setBandwidth (c bandwidth : Nat) : SameTable net (net.setBandwidth c bandwidth) :=
  sameTable_put rfl

theorem sameTable_clearQueues (c : Nat) : SameTable net (net.clearQueues c) := sameTable_put rfl

/-! ## What changes the table -/

theorem eraseOther_cases (net : SimulatedNetwork) (c : Nat) :
    net.eraseOther c = net.connections ∨ net.listing (net.ids c) ≠ some c ∧
      net.eraseOther c = net.connections.erase (net.ids c) := by
  unfold eraseOther
  simp only
  split
  · cases listed : net.connections.lookup (net.objects c).localConnectionId with
    | none => exact .inl rfl
    | some other =>
      by_cases ne : other ≠ c
      · refine .inr ⟨?_, if_pos ne⟩
        exact fun own => ne (Option.some.inj (listed.symm.trans own))
      · exact .inl (if_neg ne)
  · exact .inl rfl

theorem listing_of_lookup_erase {erased : Nat}
    (found : (net.connections.erase erased).lookup id = some c) :
    id ≠ erased ∧ net.listing id = some c := by
  have ne : id ≠ erased := by
    rintro rfl
    rw [AList.lookup_erase] at found
    cases found
  rw [AList.lookup_erase_ne ne] at found
  exact ⟨ne, found⟩

theorem listing_of_lookup_eraseOther {object : Nat}
    (found : (net.eraseOther c).lookup id = some object) : net.listing id = some object := by
  rcases net.eraseOther_cases c with same | ⟨-, erased⟩
  · rw [same] at found
    exact found
  · rw [erased] at found
    exact (listing_of_lookup_erase found).2

theorem lookup_eraseOther_iff :
    (net.eraseOther c).lookup id = some c ↔ net.listing id = some c := by
  refine ⟨listing_of_lookup_eraseOther, fun listed => ?_⟩
  rcases net.eraseOther_cases c with same | ⟨other, erased⟩
  · rw [same]
    exact listed
  · have ne : id ≠ net.ids c := by
      rintro rfl
      exact other listed
    rw [erased, AList.lookup_erase_ne ne]
    exact listed

theorem listing_addConnection (net : SimulatedNetwork) (c : Nat) :
    (net.addConnection c).listing =
      Function.update (fun id => (net.eraseOther c).lookup id) net.nextId (some c) := by
  funext id
  by_cases same : id = net.nextId
  · subst same
    rw [Function.update_self]
    exact AList.lookup_insert _
  · rw [Function.update_of_ne same]
    exact AList.lookup_insert_ne same

theorem ids_addConnection (net : SimulatedNetwork) (c : Nat) :
    (net.addConnection c).ids = Function.update net.ids c net.nextId :=
  ids_put c _

theorem Sound.addConnection_iff (sound : net.Sound) (created : c < net.created) :
    (net.addConnection c).Sound ↔ ∀ id, net.listing id = some c → id = net.nextId := by
  have kept : BackReferenced (fun id => (net.eraseOther c).lookup id) net.ids :=
    sound.consistent.mono fun _ _ => listing_of_lookup_eraseOther
  have inserted : BackReferenced (net.addConnection c).listing
        (net.addConnection c).ids ↔ ∀ id, net.listing id = some c → id = net.nextId := by
    rw [listing_addConnection, ids_addConnection, kept.insert_iff]
    exact forall_congr' fun id => imp_congr_left lookup_eraseOther_iff
  rw [← inserted]
  refine ⟨Sound.consistent, fun consistent => ⟨consistent, ?_⟩⟩
  intro id other listed
  rw [listing_addConnection] at listed
  by_cases same : id = net.nextId
  · rw [same, Function.update_self] at listed
    cases listed
    exact created
  · rw [Function.update_of_ne same] at listed
    exact sound.allocated id other (listing_of_lookup_eraseOther listed)

theorem Sound.forget (sound : net.Sound) (c : Nat) : (net.forget c).Sound := by
  have fewer (id object : Nat) (listed : (net.forget c).listing id = some object) :
      id ≠ net.ids c ∧ net.listing id = some object :=
    listing_of_lookup_erase listed
  constructor
  · have unlisted (id : Nat) : (net.forget c).listing id ≠ some c := by
      intro listed
      obtain ⟨ne, listed⟩ := fewer id c listed
      exact ne (sound.consistent id c listed).symm
    have kept : BackReferenced (net.forget c).listing net.ids :=
      sound.consistent.mono fun id object listed => (fewer id object listed).2
    have ids : (net.forget c).ids = Function.update net.ids c 0 := ids_put c _
    rw [ids]
    exact kept.update_unlisted unlisted 0
  · intro id object listed
    exact sound.allocated id object (fewer id object listed).2

theorem Sound.create (sound : net.Sound) (params : ConnectionParams) (remoteAddress : Nat) :
    (net.create params remoteAddress).Sound := by
  constructor
  · have unlisted (id : Nat) : net.listing id ≠ some net.created :=
      fun listed => lt_irrefl _ (sound.allocated id _ listed)
    have ids : (net.create params remoteAddress).ids = Function.update net.ids net.created 0 :=
      ids_put net.created _
    rw [ids]
    exact sound.consistent.update_unlisted unlisted 0
  · intro id object listed
    exact Nat.lt_succ_of_lt (sound.allocated id object listed)

/-! ## Calls and tasks -/

theorem Sound.connect_iff (sound : net.Sound) (created : c < net.created)
    (addr : (net.objects c).remoteAddress ≠ 0) (random : Nat) :
    (net.connect c random).Sound ↔ ∀ id, net.listing id = some c → id = net.nextId := by
  have connecting : SameTable net (net.setState c .connecting) := sameTable_setState c .connecting
  unfold connect
  rw [if_neg addr]
  rw [((sameTable_setTimeStamp c _).trans (sameTable_addTask _ _)).sound_iff]
  rw [(connecting.sound_iff.mpr sound).addConnection_iff created]
  rfl

theorem Sound.disconnect (sound : net.Sound) (c random : Nat) :
    (net.disconnect c random).Sound := by
  unfold SimulatedNetwork.disconnect
  simp only
  split
  · exact sound
  · rw [(((sameTable_addTask _ _).trans (sameTable_addTask _ _)).trans
      (sameTable_setRemote c 0)).sound_iff]
    apply Sound.forget
    rw [((sameTable_setState c _).trans (sameTable_setTimeStamp c _)).sound_iff]
    exact sound

theorem Sound.accept (sound : net.Sound) (src c time : Nat) (acceptor : SimulatedAcceptor) :
    (net.accept src c time acceptor).Sound := by
  unfold SimulatedNetwork.accept
  simp only
  have made := sound.create
  split
  · rw [(((((sameTable_setBandwidth c _).trans (sameTable_setRemote c _)).trans
      (sameTable_setState net.created _)).trans (sameTable_setRemote net.created _)).trans
      ((sameTable_setTimeStamp net.created _).trans (sameTable_addTask _ _))).sound_iff]
    rw [(made _ 0).addConnection_iff (Nat.lt_succ_self _)]
    intro id listed
    exact absurd (sound.allocated id _ listed) (lt_irrefl _)
  · exact made _ 0

theorem Sound.handleRequest (sound : net.Sound) {src dest : Nat}
    (ran : net.handleRequest random requested src dest = .ok next) : next.Sound := by
  unfold SimulatedNetwork.handleRequest at ran
  split at ran
  · cases ran
  next c listed =>
    simp only at ran
    split at ran
    · cases ran
    next acceptor found =>
      have reported (time : Nat) : (if acceptor.accepting then net
            else net.addTask time (.noRoute c)).Sound := by
        split
        · exact sound
        · exact (sameTable_addTask _ _).sound_iff.mpr sound
      split at ran
      · cases ran
        exact (reported _).accept ..
      · cases ran
        exact (sameTable_addTask _ _).sound_iff.mpr (reported _)

theorem Sound.runTask (sound : net.Sound)
    {task : SetupTask} (ran : net.runTask random requested task = .ok next) :
    next.Sound := by
  cases task with
  | handleRequest src dest => exact sound.handleRequest ran
  | handleAccept dest =>
    cases ran
    unfold handleAccept
    split
    · exact sound
    · exact (sameTable_setState _ _).sound_iff.mpr sound
  | handleRefuse dest =>
    cases ran
    unfold handleRefuse
    split
    · exact sound
    · exact ((sameTable_setState _ _).trans (sameTable_addTask _ _)).sound_iff.mpr sound
  | handleDisconnect dest =>
    cases ran
    unfold handleDisconnect
    split
    · exact sound
    · split
      · exact sound
      · apply Sound.forget
        exact (((sameTable_setState _ _).trans
          (sameTable_setRemote _ _)).trans (sameTable_addTask _ _)).sound_iff.mpr sound
  | clearQueues c =>
    cases ran
    exact (sameTable_clearQueues c).sound_iff.mpr sound
  | noRoute c =>
    cases ran
    exact sound

/-! ## Runs -/

theorem forall_entries_iff {next : Nat} :
    (∀ e ∈ net.connections.entries,
        e.2 = c → e.1 = next) ↔ ∀ id, net.listing id = some c → id = next := by
  constructor
  · intro each id listed
    exact each ⟨id, c⟩ (AList.mem_lookup_iff.mp listed) rfl
  · rintro each ⟨id, object⟩ mem rfl
    exact each id (AList.mem_lookup_iff.mpr mem)

theorem Sound.step_iff (sound : net.Sound) {action : NetworkAction}
    (stepped : net.step action = .ok next) : next.Sound ↔ net.ConnectsUnlisted action := by
  cases action with
  | create params remoteAddress =>
    cases stepped
    exact iff_of_true (sound.create params remoteAddress) trivial
  | connect c random =>
    simp only [step] at stepped
    by_cases created : c < net.created
    · rw [if_pos created] at stepped
      cases stepped
      by_cases addr : (net.objects c).remoteAddress = 0
      · have unchanged : net.connect c random = net := if_pos addr
        rw [unchanged]
        exact iff_of_true sound fun _ nonzero => absurd addr nonzero
      · rw [sound.connect_iff created addr, ← forall_entries_iff]
        exact ⟨fun each _ _ => each, fun each => each created addr⟩
    · rw [if_neg created] at stepped
      cases stepped
      exact iff_of_true sound fun earlier => absurd earlier created
  | disconnect c random =>
    refine iff_of_true ?_ trivial
    simp only [step] at stepped
    split at stepped
    · cases stepped
      exact sound.disconnect c random
    · cases stepped
      exact sound
  | setAcceptor addr acceptor =>
    cases stepped
    exact iff_of_true ⟨sound.consistent, sound.allocated⟩ trivial
  | task random requested =>
    refine iff_of_true ?_ trivial
    simp only [step] at stepped
    split at stepped
    · cases stepped
      exact sound
    · refine Sound.runTask ?_ stepped
      exact ⟨sound.consistent, sound.allocated⟩
  | tick =>
    refine iff_of_true ?_ trivial
    simp only [step] at stepped
    split at stepped
    · cases stepped
      exact ⟨sound.consistent, sound.allocated⟩
    · cases stepped
      exact sound

theorem sound_fresh : fresh.Sound where
  consistent _ _ listed := by cases listed
  allocated _ _ listed := by cases listed

/-- In every state that calls and tasks reach in any order: if `connect` has
been called on no connection that was listed under another id than the next
one, the table is consistent.  From there, a further call or task keeps it
consistent exactly if it meets the same condition. -/
theorem connectionTable_consistent {actions : List NetworkAction}
    {final : SimulatedNetwork} (guarded : Guarded step ConnectsUnlisted fresh actions)
    (ran : actions.foldlM step fresh = .ok final) :
    final.TableConsistent ∧ ∀ action next, final.step action = .ok next →
      (next.TableConsistent ↔ final.ConnectsUnlisted action) := by
  have sound : final.Sound :=
    guarded.reached (fun _ _ _ sound unlisted stepped =>
        (Sound.step_iff sound stepped).mpr unlisted) sound_fresh ran
  refine ⟨tableConsistent_iff.mpr sound, fun action next stepped => ?_⟩
  rw [tableConsistent_iff]
  exact sound.step_iff stepped

instance (net : SimulatedNetwork) (action : NetworkAction) :
    Decidable (net.ConnectsUnlisted action) :=
  match action with
  | .connect conn _ =>
    inferInstanceAs (Decidable (conn < net.created →
      (net.objects conn).remoteAddress ≠ 0 → ∀ entry ∈ net.connections.entries,
      entry.2 = conn → entry.1 = net.nextId))
  | .create _ _ | .disconnect _ _ | .setAcceptor _ _ | .task _ _ | .tick =>
    inferInstanceAs (Decidable True)

def requestActions : List NetworkAction :=
  [.setAcceptor 9 (some ⟨1, true⟩), .create ⟨0, 0, 1⟩ 9, .connect 0 0, .tick]

def reconnectActions : List NetworkAction :=
  requestActions ++ [.task 0 true, .tick, .task 0 true, .disconnect 0 0, .connect 0 0]

theorem connectionTable_consistent_reconnect :
    (∃ final, reconnectActions.foldlM step fresh = .ok final ∧ final.TableConsistent) ∧
    (reconnectActions.foldlM step fresh).map
      (fun final => final.connections.entries.map Sigma.fst) = .ok [3, 2] := by
  refine ⟨?_, by decide +kernel⟩
  obtain ⟨final, ran⟩ : ∃ final, reconnectActions.foldlM step fresh = .ok final := ⟨_, rfl⟩
  exact ⟨final, ran, (connectionTable_consistent (by decide +kernel) ran).1⟩

def refusedActions : List NetworkAction :=
  requestActions ++ [.task 0 false, .tick, .task 0 false, .connect 0 0]

theorem refused_connection_listed_twice :
    (refusedActions.foldlM step fresh).map (fun final =>
        (final.connections.lookup 1, final.connections.lookup 2,
          (final.objects 0).localConnectionId)) = .ok (some 0, some 0, 2) := by
  decide +kernel

end SimulatedNetwork

end AutomatonCore.Network
