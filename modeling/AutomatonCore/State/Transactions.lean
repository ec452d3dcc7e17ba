import AutomatonCore.State.BackupIndependence
import AutomatonCore.State.Histories

/-!
# Runs with commits and rollbacks

`discard_changes` does not clear the backup map.  After a rollback the map
keeps the copies of nodes that are no longer in the vector, and the next
rollback writes through their indices again.
-/

namespace AutomatonCore.State

open Io Library List

/-- A call on a state: a change of the tree, or the end of a transaction. -/
inductive Call where
  | request (request : Request)
  | commitChanges
  | discardChanges
  deriving DecidableEq, Repr

namespace StateImpl

def perform (hasher : HashTransformation) (state : StateImpl) : Call → StateImpl
  | .request request => state.step hasher request
  | .commitChanges => state.commitChanges
  | .discardChanges => state.discardChanges

def performAll (hasher : HashTransformation) (state : StateImpl) (calls : List Call) : StateImpl :=
  calls.foldl (perform hasher) state

variable {H : HashTransformation} {s middle after : StateImpl}
  {path : Nat → Bytes}

/-! ## The last node of the vector is saved -/

structure Steady (before after : StateImpl) : Prop where
  length : after.nodes.length = before.nodes.length
  saved : ∀ index, before.saved index = true → after.saved index = true

theorem Steady.trans (first : Steady s middle) (second : Steady middle after) : Steady s after :=
  ⟨second.length.trans first.length, fun i => second.saved i ∘ first.saved i⟩

theorem Steady.of_backup (length : after.nodes.length = s.nodes.length)
    (backup : after.backup = s.backup) : Steady s after := by
  refine ⟨length, fun i saved => ?_⟩
  rw [StateImpl.saved, backup]
  exact saved

theorem update_steady (s : StateImpl) (i : Nat)
    (change : Node → Node) : Steady s (s.update i change) :=
  .of_backup (update_length s i change) rfl

theorem markFree_steady (s : StateImpl) (i : Nat) : Steady s (s.markFree i) := .of_backup rfl rfl

variable {cur newNode : Nat} {k : Bytes}

theorem calculateHash_steady (run : s.calculateHash H cur = .ok after) :
    Steady s after :=
  .of_backup (calculateHash_same run).length (calculateHash_same run).backup

theorem backupNodesFrom_saved (calls : Nat) (s : StateImpl) (cur : Nat) :
    (∀ i, s.saved i = true → (backupNodesFrom calls s cur).saved i = true) ∧
      (0 < calls → (backupNodesFrom calls s cur).saved cur = true) := by
  induction calls generalizing s cur with
  | zero => exact ⟨fun _ => id, fun impossible => absurd impossible (by simp)⟩
  | succ calls ih =>
    rw [backupNodesFrom_succ]
    have mine : (s.save cur).saved cur = true := (save_saved s cur cur).mpr (.inr rfl)
    have older : ∀ i, s.saved i = true → (s.save cur).saved i = true :=
      fun i saved => (save_saved s cur i).mpr (.inl saved)
    split
    next saved =>
      exact ⟨fun _ => id, fun _ => saved⟩
    · split
      · have rest := (ih (s.save cur) (s.node cur).parent).1
        exact ⟨fun i saved => rest i (older i saved), fun _ => rest cur mine⟩
      · exact ⟨older, fun _ => mine⟩

theorem backupNodes_steady (s : StateImpl) (cur : Nat) : Steady s (s.backupNodes cur) :=
  ⟨by rw [backupNodes_nodes], (backupNodesFrom_saved _ s cur).1⟩

theorem backupNodes_saved (s : StateImpl) (cur : Nat) : (s.backupNodes cur).saved cur = true :=
  (backupNodesFrom_saved _ s cur).2 (Nat.succ_pos _)

theorem mergeWithChild_steady (s : StateImpl) (cur : Nat)
    (b : UInt8) : Steady s (s.mergeWithChild cur b).1 :=
  (backupNodes_steady s _).trans ((update_steady _ _ _).trans
      ((update_steady _ _ _).trans ((update_steady _ _ _).trans (markFree_steady _ _))))

theorem unlinkNode_steady (s : StateImpl) (cur : Nat) : Steady s (s.unlinkNode cur).1 := by
  have cut : Steady s (s.cutNode cur) := (update_steady _ _ _).trans (markFree_steady _ _)
  unfold unlinkNode
  dsimp only
  split
  · exact cut.trans (mergeWithChild_steady _ _ _)
  · exact cut

theorem erase_steady (run : s.erase H k = .ok after) : Steady s after := by
  unfold StateImpl.erase at run
  cases found : s.getNodeIndex k with
  | none =>
    rw [found] at run
    cases run
  | some cur =>
    rw [found] at run
    dsimp only at run
    have saved := backupNodes_steady s cur
    split at run
    · cases run
    · split at run
      · exact saved.trans ((unlinkNode_steady _ _).trans (calculateHash_steady run))
      · exact saved.trans ((mergeWithChild_steady _ _ _).trans (calculateHash_steady run))
      · exact saved.trans ((update_steady _ _ _).trans (calculateHash_steady run))

theorem deleteNodeTree_steady (linked : s.Linked path)
    (run : s.deleteNodeTree H k = .ok after) : Steady s after := by
  unfold StateImpl.deleteNodeTree at run
  cases found : s.getNodeIndex k with
  | none =>
    rw [found] at run
    cases run
  | some cur =>
    rw [found] at run
    dsimp only at run
    have saved := backupNodes_steady s (s.node cur).parent
    have live := ((getNodeIndex_eq_some linked k cur).mp found).1
    obtain ⟨marked, marking, same⟩ :=
      subtrieMarkFree_spec ((backupNodes_sameLinks s (s.node cur).parent).linked linked)
        ((backupNodes_live s _ cur).mpr live)
    rw [marking] at run
    split at run
    · cases run
    · have markedSteady : Steady _ marked := .of_backup (congrArg _ same.nodes) same.backup
      exact saved.trans
          (markedSteady.trans ((unlinkNode_steady _ _).trans (calculateHash_steady run)))

def Grown (before after : StateImpl) (newNode : Nat) : Prop :=
  before.freeLocations ≠ ∅ ∧ Steady before after ∨
    before.freeLocations = ∅ ∧ after.freeLocations = ∅ ∧
    after.nodes.length = before.nodes.length + 1 ∧ newNode = before.nodes.length

theorem allocate_grown (s : StateImpl) : Grown s s.allocate.1 s.allocate.2 := by
  unfold allocate
  split
  next occupied =>
    refine .inl ⟨occupied.ne_empty, ?_⟩
    have saved := backupNodes_steady s (s.freeLocations.min' occupied)
    exact saved.trans (.of_backup (update_length _ _ fun _ => default) rfl)
  next vacant =>
    right
    have empty := Finset.not_nonempty_iff_eq_empty.mp vacant
    exact ⟨empty, empty, by simp, rfl⟩

theorem Grown.update (grown : Grown s after newNode)
    (i : Nat) (change : Node → Node) : Grown s (after.update i change) newNode := by
  rcases grown with ⟨free, steady⟩ | ⟨before, empty, length, place⟩
  · exact .inl ⟨free, steady.trans (update_steady _ _ _)⟩
  · exact .inr ⟨before, empty, by rw [update_length, length], place⟩

theorem addNode_grown (s : StateImpl) (src : Nat) (target : UInt8) :
    Grown s (s.addNode src target).1 (s.addNode src target).2 := by
  unfold addNode
  dsimp only
  exact ((allocate_grown s).update _ _).update _ _

theorem attachLeaf_grown (s : StateImpl) (base : Nat) (a : UInt8) (rest : Bytes) :
    Grown s (s.attachLeaf base a rest).1 (s.attachLeaf base a rest).2 := by
  unfold attachLeaf
  dsimp only
  exact (addNode_grown s base a).update _ _

theorem Grown.of_steady (steady : Steady s middle) (same : middle.freeLocations = s.freeLocations)
    (grown : Grown middle after newNode) : Grown s after newNode := by
  rw [Grown, ← same]
  rcases grown with ⟨free, later⟩ | ⟨before, empty, length, place⟩
  · exact .inl ⟨free, steady.trans later⟩
  · refine .inr ⟨before, empty, ?_, ?_⟩
    · rw [length, steady.length]
    · rw [place, steady.length]

theorem splitNode_grown {lower cpi split : Nat}
    (run : s.splitNode H lower cpi = .ok (after, split)) : Grown s after split := by
  have divided : Grown s (s.divideNode lower cpi).1 (s.divideNode lower cpi).2 := by
    unfold divideNode
    dsimp only
    refine Grown.update (Grown.update (Grown.update (Grown.update ?_ _ _)
      _ _) _ _) _ _
    exact .of_steady (backupNodes_steady s lower)
        (backupNodes_freeLocations s lower) (addNode_grown _ _ _)
  unfold splitNode at run
  dsimp only at run
  obtain ⟨hashed, hashing, run⟩ := bind_eq_ok_iff.mp run
  cases run
  have same := calculateHash_same hashing
  rcases divided with ⟨free, steady⟩ | ⟨before, empty, length, place⟩
  · exact .inl ⟨free, steady.trans (calculateHash_steady hashing)⟩
  · refine .inr ⟨before, ?_, ?_, place⟩
    · rw [same.freeLocations, empty]
    · rw [same.length, length]

theorem storeValue_steady {value : Bytes} (run : s.storeValue H cur value = .ok after) :
    Steady s after ∧ after.saved cur = true := by
  have hashed := calculateHash_steady run
  have stored :=
    (update_steady (s.backupNodes cur) cur fun node =>
      { node with value := value }).trans hashed
  exact ⟨(backupNodes_steady s cur).trans stored, stored.saved cur (backupNodes_saved s cur)⟩

/-- The last node of the vector is in the backup map. -/
def LastSaved (state : StateImpl) : Prop :=
  state.nodes.length ≤ 1 ∨ state.saved (state.nodes.length - 1) = true

theorem LastSaved.steady (last : s.LastSaved) (steady : Steady s after) : after.LastSaved := by
  rw [LastSaved, steady.length]
  exact last.imp_right (steady.saved _)

theorem LastSaved.grown (last : s.LastSaved)
    (grown : Grown s middle newNode) (steady : Steady middle after)
    (saved : after.saved newNode = true) : after.LastSaved := by
  rcases grown with ⟨_, before⟩ | ⟨_, _, length, place⟩
  · exact last.steady (before.trans steady)
  · right
    rw [steady.length, length, ← place]
    exact saved

theorem LastSaved.set (last : s.LastSaved)
    (wf : s.WellFormed path) (k : Bytes) {v : Bytes} (ne : v ≠ []) (run : s.set H k v = .ok after) :
    after.LastSaved := by
  have plan : SetPlan H s path k v (s.set H k v) := set_plan wf.linked wf.compact k ne
  rw [run] at plan
  generalize result : (Except.ok after : Except Fault StateImpl) = outcome at plan
  cases plan with
  | overwrite cur => exact last.steady (storeValue_steady result.symm).1
  | attach base a rest =>
    obtain ⟨steady, saved⟩ := storeValue_steady result.symm
    exact (last.steady (backupNodes_steady s base)).grown
        (attachLeaf_grown _ base a rest) steady saved
  | branch lower first initial a tail other rest =>
    obtain ⟨⟨divided, split⟩, splitting, result⟩ := bind_eq_ok_iff.mp result.symm
    obtain ⟨steady, saved⟩ := storeValue_steady result
    have leaf := attachLeaf_grown divided split other rest
    rcases splitNode_grown splitting with ⟨_, before⟩ | ⟨_, empty, _, _⟩
    · exact (last.steady before).grown leaf steady saved
    · -- both new nodes go behind the last one, and the leaf is second
      rcases leaf with ⟨free, _⟩ | ⟨_, _, length, place⟩
      · exact absurd empty free
      · right
        rw [steady.length, length, ← place]
        exact saved
  | inside lower first initial a tail =>
    obtain ⟨divided, splitting, result⟩ := bind_eq_ok_iff.mp result.symm
    obtain ⟨steady, saved⟩ := storeValue_steady result
    exact last.grown (splitNode_grown splitting) steady saved

theorem LastSaved.step (last : s.LastSaved) (wf : s.WellFormed path) (H : HashTransformation)
    (req : Request) : (s.step H req).LastSaved := by
  unfold StateImpl.step
  cases run : s.apply H req with
  | error fault => exact last
  | ok after =>
    cases req with
    | set k v =>
      by_cases empty : v = []
      · have erased : s.erase H k = .ok after := by
          rw [StateImpl.apply, StateImpl.set, if_pos empty] at run
          exact run
        exact last.steady (erase_steady erased)
      · exact last.set wf k empty run
    | erase k => exact last.steady (erase_steady run)
    | deleteNodeTree k => exact last.steady (deleteNodeTree_steady wf.linked run)

/-! ## Rollbacks -/

/-- Every index through which a rollback writes is inside the vector. -/
def WritesInBounds (state : StateImpl) : Prop :=
  ∀ entry ∈ state.backup, entry.1 < state.nodes.length

/-- The state is the new one again, apart from what the backup map holds. -/
structure IsNew (state : StateImpl) : Prop where
  nodes : state.nodes = create.nodes
  freeLocations : state.freeLocations = ∅
  permanentNodesCount : state.permanentNodesCount = 1

/-- Every rollback of a run stays inside the vector and brings back the new
state. -/
def RollbacksSafe (hasher : HashTransformation) : StateImpl → List Call → Prop
  | _, [] => True
  | state, .discardChanges :: calls =>
    (state.WritesInBounds ∧ state.discardChanges.IsNew) ∧
      RollbacksSafe hasher state.discardChanges calls
  | state, call :: calls => RollbacksSafe hasher (state.perform hasher call) calls

/-- The sizes of the vector at the rollbacks. -/
def rollbackSizes (hasher : HashTransformation) : StateImpl → List Call → List Nat
  | _, [] => []
  | state, .discardChanges :: calls =>
    state.nodes.length :: rollbackSizes hasher state.discardChanges calls
  | state, call :: calls => rollbackSizes hasher (state.perform hasher call) calls

/-- A run that had rollbacks at the given sizes.  It goes on beside a run
from a new state, and the stale indices are those of nodes that were in the
vector at an earlier rollback. -/
structure Ongoing (sizes : List Nat) (stale : Nat → Prop) (fresh state : StateImpl) : Prop where
  beside : Beside stale state fresh
  backed : fresh.Backed create.nodes
  wellFormed : ∃ path, fresh.WellFormed path
  last : state.LastSaved
  size_of_stale : ∀ index, stale index → ∃ size ∈ sizes, index < size
  stale_of_size : ∀ size ∈ sizes, size ≤ 1 ∨ stale (size - 1)

variable {sizes : List Nat} {stale : Nat → Prop} {fresh : StateImpl}

theorem Ongoing.writesInBounds_iff (ongoing : Ongoing sizes stale fresh s) :
    s.WritesInBounds ↔ ∀ size ∈ sizes, size ≤ s.nodes.length := by
  have beside := ongoing.beside
  have pos : 1 ≤ s.nodes.length := by
    rw [beside.nodes]
    exact ongoing.backed.within
  constructor
  · intro inBounds size mem
    rcases ongoing.stale_of_size size mem with small | isStale
    · omega
    · obtain ⟨e, saved, place⟩ := (saved_iff s _).mp ((beside.saved _).mpr (.inl isStale))
      have bound := inBounds e saved
      omega
  · intro bounds e mem
    rcases beside.copies e mem with isStale | copied
    · obtain ⟨size, earlier, below⟩ := ongoing.size_of_stale e.1 isStale
      have bound := bounds size earlier
      omega
    · rw [beside.nodes]
      exact ongoing.backed.bounded e copied

theorem discardChanges_frame (s : StateImpl) :
    s.discardChanges.backup = s.backup ∧
      s.discardChanges.permanentNodesCount = s.permanentNodesCount := by
  have loop (entries : List (Nat × Node)) (current : StateImpl) :
      (entries.foldl (fun current e => current.update e.1 fun _ => e.2)
          current).backup = current.backup ∧
        (entries.foldl (fun current e => current.update e.1 fun _ => e.2)
            current).permanentNodesCount = current.permanentNodesCount := by
    induction entries generalizing current with
    | nil => exact ⟨rfl, rfl⟩
    | cons e entries ih => exact ih (current.update e.1 fun _ => e.2)
  exact loop s.backup s

theorem Ongoing.discardChanges_isNew (ongoing : Ongoing sizes stale fresh s) :
    s.discardChanges.IsNew := by
  have beside := ongoing.beside
  have backed := ongoing.backed
  have count : fresh.permanentNodesCount = 1 := backed.count
  have countHere : s.permanentNodesCount = create.nodes.length :=
    beside.permanentNodesCount.trans count
  refine ⟨?_, rfl, (discardChanges_frame s).2.trans countHere⟩
  apply discardChanges_restored countHere
  · rw [beside.nodes]
    exact backed.within
  · intro e mem inside
    rcases beside.copies e mem with isStale | copied
    · have young := beside.young e.1 isStale
      rw [count] at young
      exact absurd young (not_le.mpr inside)
    · exact backed.stored e copied inside
  · intro i inside unsaved
    rw [beside.node]
    apply backed.kept i inside
    rintro (saved | young)
    · exact unsaved ((beside.saved i).mpr (.inr saved))
    · rw [count] at young
      exact absurd young (not_le.mpr inside)

theorem Ongoing.request (ongoing : Ongoing sizes stale fresh s)
    (H : HashTransformation) {req : Request} (ne : req.key ≠ []) :
    Ongoing sizes stale (fresh.step H req) (s.step H req) := by
  obtain ⟨path, wellFormed⟩ := ongoing.wellFormed
  obtain ⟨newPath, stepFormed, advances⟩ := step_spec H wellFormed (safe_of_key ne)
  have beside := ongoing.beside
  exact
    { beside := beside.step H req
      backed := advances.backed _ ongoing.backed
      wellFormed := ⟨newPath, stepFormed⟩
      last := ongoing.last.step (wellFormed.congr beside.nodes beside.freeLocations) H req
      size_of_stale := ongoing.size_of_stale
      stale_of_size := ongoing.stale_of_size }

theorem Ongoing.discardChanges (ongoing : Ongoing sizes stale fresh s) :
    Ongoing (sizes ++ [s.nodes.length]) (fun i => s.saved i = true ∧ 1 ≤ i)
      { create with backup := fresh.backup.filter fun e => e.1 < 1 }
      s.discardChanges := by
  have isNew := ongoing.discardChanges_isNew
  have beside := ongoing.beside
  have backed := ongoing.backed
  have count : fresh.permanentNodesCount = 1 := backed.count
  have backup := (discardChanges_frame s).1
  have old : ∀ i, i < 1 → ¬ stale i := by
    intro i inside isStale
    have young := beside.young i isStale
    omega
  have sameSaved (i : Nat) : s.discardChanges.saved i = s.saved i := by
    rw [StateImpl.saved, StateImpl.saved, backup]
  constructor
  · refine ⟨isNew.nodes, isNew.freeLocations, isNew.permanentNodesCount,
      fun i isStale => isStale.2, ?_, ?_⟩
    · intro i
      rw [sameSaved, saved_iff { create with backup := _ }]
      simp only [mem_filter, decide_eq_true_eq]
      by_cases inside : i < 1
      · rw [beside.saved, saved_iff]
        constructor
        · rintro (isStale | ⟨e, mem, place⟩)
          · exact absurd isStale (old i inside)
          · exact .inr ⟨e, ⟨mem, place ▸ inside⟩, place⟩
        · rintro (⟨_, beyond⟩ | ⟨e, ⟨mem, _⟩, place⟩)
          · omega
          · exact .inr ⟨e, mem, place⟩
      · constructor
        · exact fun saved => .inl ⟨saved, le_of_not_gt inside⟩
        · rintro (⟨saved, _⟩ | ⟨e, ⟨_, below⟩, place⟩)
          · exact saved
          · omega
    · intro e mem
      rw [backup] at mem
      by_cases inside : e.1 < 1
      · right
        rcases beside.copies e mem with isStale | copied
        · exact absurd isStale (old e.1 inside)
        · exact mem_filter.mpr ⟨copied, by simpa using inside⟩
      · left
        exact ⟨(saved_iff s e.1).mpr ⟨e, mem, rfl⟩, le_of_not_gt inside⟩
  · refine ⟨⟨rfl, le_rfl, backed.originParent, ?_, ?_, fun _ _ _ => rfl⟩, ?_⟩
    · intro e mem
      exact of_decide_eq_true (mem_filter.mp mem).2
    · intro e mem
      exact backed.stored e (mem_filter.mp mem).1
    · intro i inside notRoot
      have : i < 1 := inside
      omega
  · exact ⟨_, create_wellFormed.congr rfl rfl⟩
  · left
    rw [isNew.nodes]
    exact Nat.le_refl 1
  · rintro i ⟨saved, beyond⟩
    rcases (beside.saved i).mp saved with isStale | savedFresh
    · obtain ⟨size, mem, below⟩ := ongoing.size_of_stale i isStale
      exact ⟨size, mem_append_left _ mem, below⟩
    · obtain ⟨e, mem, rfl⟩ := (saved_iff fresh i).mp savedFresh
      refine ⟨s.nodes.length, mem_append_right _ (mem_singleton_self _), ?_⟩
      rw [beside.nodes]
      exact backed.bounded e mem
  · intro size mem
    by_cases small : size ≤ 1
    · exact .inl small
    · right
      refine ⟨?_, by omega⟩
      rcases mem_append.mp mem with earlier | now
      · rcases ongoing.stale_of_size size earlier with tiny | isStale
        · exact absurd tiny small
        · exact (beside.saved _).mpr (.inl isStale)
      · rw [mem_singleton.mp now] at small ⊢
        exact ongoing.last.resolve_left small

/-- The run lemma. -/
theorem Ongoing.sizesGrow_iff (ongoing : Ongoing sizes stale fresh s)
    (H : HashTransformation) {calls : List Call} (noCommit : ∀ call ∈ calls, call ≠ .commitChanges)
    (keysGiven : ∀ request, Call.request request ∈ calls → request.key ≠ []) :
    RollbacksSafe H s calls ↔ (∀ size ∈ sizes, ∀ later ∈ rollbackSizes H s calls, size ≤ later) ∧
        (rollbackSizes H s calls).Pairwise (· ≤ ·) := by
  induction calls generalizing sizes stale fresh s with
  | nil => simp [RollbacksSafe, rollbackSizes]
  | cons call calls ih =>
    have noCommitLater : ∀ call ∈ calls, call ≠ .commitChanges :=
      fun call mem => noCommit call (mem_cons_of_mem _ mem)
    have keysLater : ∀ request, Call.request request ∈ calls → request.key ≠ [] :=
      fun request mem => keysGiven request (mem_cons_of_mem _ mem)
    cases call with
    | commitChanges => exact absurd rfl (noCommit _ (mem_cons_self ..))
    | request request =>
      exact ih (ongoing.request H (keysGiven request (mem_cons_self ..))) noCommitLater keysLater
    | discardChanges =>
      have rest := ih ongoing.discardChanges noCommitLater keysLater
      rw [RollbacksSafe, rollbackSizes, rest, ongoing.writesInBounds_iff, pairwise_cons]
      constructor
      · rintro ⟨⟨bounds, _⟩, earlier, sorted⟩
        refine ⟨?_, ?_, sorted⟩
        · intro size mem later following
          rcases mem_cons.mp following with rfl | following
          · exact bounds size mem
          · exact earlier size (mem_append_left _ mem) later following
        · exact earlier _ (mem_append_right _ (mem_singleton_self _))
      · rintro ⟨earlier, here, sorted⟩
        refine ⟨⟨?_, ongoing.discardChanges_isNew⟩, ?_, sorted⟩
        · exact fun size mem => earlier size mem _ (mem_cons_self ..)
        · intro size mem later following
          rcases mem_append.mp mem with before | now
          · exact earlier size before later (mem_cons_of_mem _ following)
          · rw [mem_singleton.mp now]
            exact here later following

theorem ongoing_create : Ongoing [] (fun _ => False) create create where
  beside := ⟨rfl, rfl, rfl, by simp, by simp, fun _ mem => .inr mem⟩
  backed := backed_of_committed create_wellFormed.linked rfl rfl rfl
  wellFormed := ⟨_, create_wellFormed⟩
  last := .inl (Nat.le_refl 1)
  size_of_stale := by simp
  stale_of_size := by simp

/-- In a run without commits every rollback writes only inside the vector and
brings back the new state, exactly if the vector is never smaller at a
rollback than it was at an earlier one. -/
theorem rollbacksSafe_iff (H : HashTransformation) (calls : List Call)
    (noCommit : ∀ call ∈ calls, call ≠ .commitChanges)
    (keysGiven : ∀ req, Call.request req ∈ calls → req.key ≠ []) :
    RollbacksSafe H create calls ↔ (rollbackSizes H create calls).Pairwise (· ≤ ·) := by
  rw [ongoing_create.sizesGrow_iff H noCommit keysGiven]
  simp

theorem rollbacksSafe_larger :
    RollbacksSafe checksum create [.request (.set (text "a") (text "1")), .discardChanges,
        .request (.set (text "b") (text "2")),
        .request (.set (text "c") (text "3")), .discardChanges] :=
  (rollbacksSafe_iff checksum _ (by decide) (by simp [Request.key, text])).mpr (by decide +kernel)

theorem rollback_writes_outside :
    ¬ (create.performAll checksum
      [.request (.set (text "a") (text "1")), .discardChanges]).WritesInBounds := by
  unfold WritesInBounds
  decide +kernel

end StateImpl

end AutomatonCore.State
