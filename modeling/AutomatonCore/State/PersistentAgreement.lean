import AutomatonCore.State.PersistentSimulation

/-!
# The two state implementations agree
-/

namespace AutomatonCore.State

open Io Library List

def StateImpl.throws (hasher : HashTransformation) (state : StateImpl) (request : Request) : Bool :=
  match state.apply hasher request with
  | .ok _ => false
  | .error _ => true

def StatePersistent.throws (hasher : HashTransformation)
    (state : StatePersistent) (request : Request) : Bool :=
  match StatePersistent.apply hasher request state with
  | .ok _ _ => false
  | .error _ _ => true

/-- Which of the calls throw. -/
def StateImpl.outcomes (hasher : HashTransformation) : StateImpl → List Request → List Bool
  | _, [] => []
  | state, request :: requests =>
    state.throws hasher request :: StateImpl.outcomes hasher (state.step hasher request) requests

def StatePersistent.outcomes (hasher : HashTransformation) :
    StatePersistent → List Request → List Bool
  | _, [] => []
  | state, request :: requests =>
    state.throws hasher request ::
      StatePersistent.outcomes hasher (state.step hasher request) requests

/-- No getter tells the two states apart. -/
structure SameAnswers (persistent : StatePersistent) (memory : StateImpl) : Prop where
  get : ∀ key, persistent.get key = memory.get key
  getNodeHash : ∀ path, persistent.getNodeHash path = memory.getNodeHash path
  getNodeChildren : ∀ path, persistent.getNodeChildren path = memory.getNodeChildren path
  size : persistent.size = memory.size

namespace StatePersistent

variable {H : HashTransformation} {s : StatePersistent}

theorem Readable.get (readable : s.Readable) (k : Bytes) : s.get k = s.view.get k := by
  unfold StatePersistent.get StateImpl.get
  rw [← readable.getNodeIndex]
  cases s.getNodeIndex k with
  | none => rfl
  | some i => exact readable.valueAt i

theorem Readable.sameAnswers (readable : s.Readable) :
    SameAnswers s s.view where
  get := readable.get
  getNodeHash path := by
    unfold StatePersistent.getNodeHash StateImpl.getNodeHash
    rw [← readable.getNodeIndex]
    cases s.getNodeIndex path with
    | none => rfl
    | some i => exact readable.hashAt i
  getNodeChildren path := by
    unfold StatePersistent.getNodeChildren StateImpl.getNodeChildren
    rw [← readable.getNodeIndex]
    cases s.getNodeIndex path with
    | none => rfl
    | some i =>
      simp only [Option.map_some, readable.childBytesAt, readable.prefixAt, readable.childAt]
  size := by simp [StatePersistent.size, StateImpl.size, view]

theorem look_bind {α β : Type} (read : StatePersistent → α) (next : α → PersistentM β) :
    (look read >>= next) s = next (read s) s :=
  rfl

variable {req : Request} {path : Nat → Bytes}

theorem apply_absent (H : HashTransformation) (readable : s.Readable)
    (removes : req.removes) (given : ∀ k, req ≠ .set k []) (absent : s.view.get req.key = []) :
    ∃ fault, apply H req s = .error fault s := by
  rw [← readable.get, StatePersistent.get] at absent
  cases req with
  | set k v => exact absurd (congrArg _ removes) (given k)
  | erase k =>
    rw [apply, erase, look_bind]
    cases found : s.getNodeIndex k with
    | none => exact ⟨_, rfl⟩
    | some i =>
      simp only [Request.key, found] at absent
      simp only [look_bind, if_pos absent]
      exact ⟨_, rfl⟩
  | deleteNodeTree k =>
    rw [apply, deleteNodeTree, look_bind]
    cases found : s.getNodeIndex k with
    | none => exact ⟨_, rfl⟩
    | some i =>
      simp only [Request.key, found] at absent
      simp only [look_bind, if_pos absent]
      exact ⟨_, rfl⟩

theorem apply_follows (H : HashTransformation) (given : ∀ k, req ≠ .set k []) :
    Follows id (apply H req) (attempting fun s => s.apply H req) := by
  cases req with
  | set k v =>
    apply set_follows
    rintro rfl
    exact given k rfl
  | erase k => exact erase_follows k
  | deleteNodeTree k => exact deleteNodeTree_follows k

theorem step_eq_finalState (req : Request) : s.step H req = finalState (apply H req s) := by
  unfold step finalState
  cases apply H req s <;> rfl

/-- The step lemma: a call throws on both states or on neither, and the
persistent state stands for the other one afterwards. -/
theorem step_agrees (valid : s.Valid) (wf : s.view.WellFormed path)
    (keyGiven : req.key ≠ []) (given : ∀ k, req ≠ .set k []) (fits : (s.step H req).IdsFit) :
    (s.step H req).Valid ∧
      (s.step H req).view = s.view.step H req ∧ s.throws H req = s.view.throws H req := by
  rw [step_eq_finalState] at fits ⊢
  unfold throws StateImpl.throws StateImpl.step
  rcases StateImpl.apply_spec H wf (StateImpl.safe_of_key keyGiven) with
    ⟨removes, absent, thrown⟩ | ⟨_, after, _, returns, _⟩
  · obtain ⟨fault, thrownHere⟩ := apply_absent H valid.toReadable removes given absent
    rw [thrownHere, thrown]
    exact ⟨valid, rfl, rfl⟩
  · obtain ⟨_, final, ran, _, finalValid, shown⟩ :=
      (apply_follows H given).agrees valid fits
        (show attempting (fun s => s.apply H req) s.view = .ok ((), after) by
          rw [attempting, returns]
          rfl)
    rw [ran, returns]
    exact ⟨finalValid, shown, rfl⟩

theorem grows_run (H : HashTransformation) (requests : List Request)
    (given : ∀ req ∈ requests, ∀ k, req ≠ .set k []) :
    interpretation.Grows s (s.run H requests) := by
  induction requests generalizing s with
  | nil => exact interpretation.grows_refl s
  | cons req requests ih =>
    rw [forall_mem_cons] at given
    have first := (apply_follows H given.1).grows s
    rw [← step_eq_finalState] at first
    exact interpretation.grows_trans first (ih given.2)

/-- The run lemma: the same holds for a whole history. -/
theorem run_agrees (valid : s.Valid) (wf : s.view.WellFormed path) (requests : List Request)
    (keysGiven : ∀ req ∈ requests, req.key ≠ []) (given : ∀ req ∈ requests, ∀ k, req ≠ .set k [])
    (fits : (s.run H requests).IdsFit) :
    (s.run H requests).Valid ∧ (s.run H requests).view = s.view.run H requests ∧
        s.outcomes H requests = s.view.outcomes H requests := by
  induction requests generalizing s path with
  | nil => exact ⟨valid, rfl, rfl⟩
  | cons req requests ih =>
    rw [forall_mem_cons] at keysGiven given
    -- ids that fit at the end of the history fit after its first call
    have fitsHere : (s.step H req).IdsFit :=
      interpretation.bounded_of_grows (grows_run H requests given.2) fits
    obtain ⟨stepValid, shown, throws⟩ := step_agrees valid wf keysGiven.1 given.1 fitsHere
    obtain ⟨stepPath, stepFormed, _⟩ := StateImpl.step_spec H wf (StateImpl.safe_of_key keysGiven.1)
    rw [← shown] at stepFormed
    obtain ⟨runValid, runShown, runOutcomes⟩ := ih stepValid stepFormed keysGiven.2 given.2 fits
    rw [shown] at runShown runOutcomes
    refine ⟨runValid, runShown, ?_⟩
    rw [outcomes, StateImpl.outcomes, throws, runOutcomes]

theorem Readable.restore (readable : s.Readable) (entries : List (UInt32 × PersistentNode))
    (stored : ∀ e ∈ entries, e.2.Stored s.blobs) :
    (entries.foldl (fun current e => current.update e.1 fun _ => e.2) s).Readable ∧
      (entries.foldl (fun current e => current.update e.1 fun _ => e.2) s).view =
        (entries.map fun e =>
            (e.1.toNat, e.2.deref s.blobs)).foldl
          (fun current e => current.update e.1 fun _ => e.2)
          s.view := by
  induction entries generalizing s with
  | nil => exact ⟨readable, rfl⟩
  | cons e entries ih =>
    rw [forall_mem_cons] at stored
    obtain ⟨copied, shown⟩ :=
      readable.update e.1 (fun _ => e.2) (fun _ => e.2.deref s.blobs) stored.1 rfl
    obtain ⟨restored, restoredShown⟩ := ih copied stored.2
    rw [shown] at restoredShown
    exact ⟨restored, restoredShown⟩

theorem restore_frame (s : StatePersistent) (entries : List (UInt32 × PersistentNode)) :
    (entries.foldl (fun current e => current.update e.1 fun _ => e.2)
        s).nodes.length = s.nodes.length ∧
      (entries.foldl (fun current e => current.update e.1 fun _ => e.2)
          s).permanentNodesCount = s.permanentNodesCount := by
  induction entries generalizing s with
  | nil => exact ⟨rfl, rfl⟩
  | cons e entries ih =>
    obtain ⟨length, permanent⟩ := ih (s.update e.1 fun _ => e.2)
    rw [foldl_cons, length, permanent]
    exact ⟨length_set, rfl⟩

theorem Readable.discardChanges (readable : s.Readable) :
    s.discardChanges.Readable ∧ s.discardChanges.view = s.view.discardChanges := by
  obtain ⟨restored, shown⟩ := readable.restore s.backup readable.backupIds
  obtain ⟨length, permanent⟩ := restore_frame s s.backup
  have kept := readable.permanent
  unfold StatePersistent.discardChanges StateImpl.discardChanges
  simp only [view] at shown ⊢
  rw [← shown]
  constructor
  · exact
      { restored with
        nodeIds := fun node mem => restored.nodeIds node (mem_of_mem_take mem)
        freeSmall := by simp
        permanent := by
          rw [permanent, length_take]
          omega }
  · simp only [StateImpl.resizeNodes, map_take, length_map,
      length, Nat.sub_eq_zero_of_le kept, replicate_zero, append_nil]

theorem create_valid : create.Valid where
  blank := by decide
  used := by decide
  handedOut := by decide
  nodeIds := by
    intro node mem
    rw [mem_singleton.mp mem]
    exact ⟨by decide, by decide, by decide, by decide⟩
  backupIds := by simp [create]
  freeSmall := by simp [create]
  permanent := by decide
  count := ⟨(1, []), by decide, by decide⟩

theorem create_view : create.view = StateImpl.create :=
  rfl

/-- The two implementations agree: on every history of `set` with a value,
`erase` and `delete_node_tree` the same calls throw, and afterwards, as well
as after a rollback, all questions get the same answers. -/
theorem agrees_with_stateImpl (H : HashTransformation) (requests : List Request)
    (keysGiven : ∀ req ∈ requests, req.key ≠ [])
    (valuesGiven : ∀ req ∈ requests, ∀ k, req ≠ .set k []) (fits : (create.run H requests).IdsFit) :
    create.outcomes H requests = StateImpl.create.outcomes H requests ∧
      SameAnswers (create.run H requests) (StateImpl.create.run H requests) ∧
        SameAnswers (create.run H requests).discardChanges
          (StateImpl.create.run H requests).discardChanges := by
  have wf := StateImpl.create_wellFormed
  obtain ⟨valid, shown, outcomes⟩ := run_agrees create_valid wf requests keysGiven valuesGiven fits
  obtain ⟨restored, restoredShown⟩ := valid.toReadable.discardChanges
  rw [create_view] at shown outcomes
  rw [← shown, ← restoredShown]
  exact ⟨outcomes, valid.toReadable.sameAnswers, restored.sameAnswers⟩

theorem agrees_with_stateImpl_after_split :
    create.outcomes StateImpl.checksum [.set (text "ab") (text "x"), .set (text "ac") (text "y"),
          .erase (text "b"), .erase (text "ab")] = [false, false, true, false] :=
  (agrees_with_stateImpl StateImpl.checksum
    [.set (text "ab") (text "x"), .set (text "ac") (text "y"),
      .erase (text "b"), .erase (text "ab")]
    (by decide) (by simp [text]) (by unfold IdsFit; decide +kernel)).1.trans (by decide +kernel)

end StatePersistent

end AutomatonCore.State
