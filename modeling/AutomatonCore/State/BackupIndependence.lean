import AutomatonCore.State.MapSemantics

/-!
# The backup map does not influence the tree

Calls write to the backup map and read it only to decide what to write to it.
-/

namespace AutomatonCore.State

open Io Library List

namespace StateImpl

/-- The two states differ only in the backup map: the first one has also
entries for the stale indices, all of them beyond the last commit. -/
structure Beside (stale : Nat → Prop) (first second : StateImpl) : Prop where
  nodes : first.nodes = second.nodes
  freeLocations : first.freeLocations = second.freeLocations
  permanentNodesCount : first.permanentNodesCount = second.permanentNodesCount
  young : ∀ index, stale index → second.permanentNodesCount ≤ index
  saved : ∀ index, first.saved index = true ↔ stale index ∨ second.saved index = true
  copies : ∀ entry ∈ first.backup, stale entry.1 ∨ entry ∈ second.backup

variable {stale : Nat → Prop} {first second : StateImpl}
  {H : HashTransformation}

theorem Beside.node (beside : Beside stale first second) (i : Nat) :
    first.node i = second.node i := by
  rw [StateImpl.node, StateImpl.node, beside.nodes]

theorem Beside.update (beside : Beside stale first second) (i : Nat) (change : Node → Node) :
    Beside stale (first.update i change) (second.update i change) where
  nodes := by rw [StateImpl.update, StateImpl.update, beside.node, beside.nodes]
  freeLocations := beside.freeLocations
  permanentNodesCount := beside.permanentNodesCount
  young := beside.young
  saved := beside.saved
  copies := beside.copies

theorem Beside.markFree (beside : Beside stale first second) (i : Nat) :
    Beside stale (first.markFree i) (second.markFree i) where
  nodes := beside.nodes
  freeLocations := by rw [markFree_freeLocations, markFree_freeLocations, beside.freeLocations]
  permanentNodesCount := beside.permanentNodesCount
  young := beside.young
  saved := beside.saved
  copies := beside.copies

theorem Beside.save (beside : Beside stale first second) (i : Nat) :
    Beside stale (first.save i) (second.save i) where
  nodes := beside.nodes
  freeLocations := beside.freeLocations
  permanentNodesCount := beside.permanentNodesCount
  young := beside.young
  saved := by
    intro other
    rw [save_saved, save_saved, beside.saved]
    tauto
  copies := by
    intro e mem
    rcases mem_append.mp mem with old | new
    · exact (beside.copies e old).imp_right (mem_append_left _)
    · rw [mem_singleton.mp new, beside.node]
      exact .inr (mem_append_right _ (mem_singleton_self _))

theorem Beside.save_second (beside : Beside stale first second) {i : Nat} (isStale : stale i) :
    Beside stale first (second.save i) where
  nodes := beside.nodes
  freeLocations := beside.freeLocations
  permanentNodesCount := beside.permanentNodesCount
  young := beside.young
  saved := by
    intro other
    rw [save_saved, beside.saved]
    constructor
    · tauto
    · rintro (old | saved | rfl)
      · exact .inl old
      · exact .inr saved
      · exact .inl isStale
  copies := fun e mem => (beside.copies e mem).imp_right (mem_append_left _)

theorem backupNodesFrom_succ (calls : Nat) (s : StateImpl) (cur : Nat) :
    backupNodesFrom (calls + 1) s cur =
      if s.saved cur then s
      else if cur ≠ 0 ∧ cur < s.permanentNodesCount then
        backupNodesFrom calls (s.save cur) (s.node cur).parent
      else s.save cur :=
  rfl

theorem Beside.backupNodesFrom (beside : Beside stale first second) (calls cur : Nat) :
    Beside stale (StateImpl.backupNodesFrom calls first cur)
      (StateImpl.backupNodesFrom calls second cur) := by
  induction calls generalizing first second cur with
  | zero => exact beside
  | succ calls ih =>
    rw [backupNodesFrom_succ, backupNodesFrom_succ, beside.permanentNodesCount, beside.node]
    have saved := beside.saved cur
    by_cases here : second.saved cur = true
    · rw [if_pos here, if_pos (saved.mpr (.inr here))]
      exact beside
    · by_cases isStale : stale cur
      · -- a stale index lies beyond the last commit, so the walk ends
        have young := beside.young cur isStale
        rw [if_neg here, if_pos (saved.mpr (.inl isStale)), if_neg (by omega)]
        exact beside.save_second isStale
      · have unsaved : ¬ first.saved cur = true := by tauto
        rw [if_neg unsaved]
        split
        · exact ih (beside.save cur) _
        · exact beside.save cur

theorem Beside.backupNodes (beside : Beside stale first second) (cur : Nat) :
    Beside stale (first.backupNodes cur) (second.backupNodes cur) := by
  rw [StateImpl.backupNodes, beside.permanentNodesCount]
  exact beside.backupNodesFrom _ cur

theorem Beside.hasChildren (beside : Beside stale first second)
    (i : Nat) : first.hasChildren i = second.hasChildren i := by
  rw [StateImpl.hasChildren, StateImpl.hasChildren, beside.node]

theorem Beside.hashInput (beside : Beside stale first second)
    (i : Nat) : first.hashInput i = second.hashInput i := by
  simp only [StateImpl.hashInput, beside.node]

theorem Beside.setHash (beside : Beside stale first second) (i : Nat) (hash : Bytes) :
    Beside stale (first.setHash i hash) (second.setHash i hash) :=
  beside.update i _

theorem Beside.calculateHashFrom (beside : Beside stale first second) (calls cur : Nat) :
    Lockstep (Beside stale) (StateImpl.calculateHashFrom H calls first cur)
      (StateImpl.calculateHashFrom H calls second cur) := by
  induction calls generalizing first second cur with
  | zero => exact .error _
  | succ calls ih =>
    unfold StateImpl.calculateHashFrom
    rw [beside.hasChildren, beside.hashInput]
    have hashed := beside.setHash cur (H.digest (second.hashInput cur))
    dsimp only
    split
    · exact .ok (beside.setHash cur [])
    · split
      · rw [hashed.node]
        exact ih hashed _
      · exact .ok hashed

theorem Beside.calculateHash (beside : Beside stale first second) (cur : Nat) :
    Lockstep (Beside stale) (first.calculateHash H cur) (second.calculateHash H cur) := by
  rw [StateImpl.calculateHash, beside.nodes]
  exact beside.calculateHashFrom _ cur

def BesideAt (stale : Nat → Prop) (first second : StateImpl × Nat) : Prop :=
  Beside stale first.1 second.1 ∧ first.2 = second.2

theorem Beside.allocate (beside : Beside stale first second) :
    BesideAt stale first.allocate second.allocate := by
  unfold StateImpl.allocate
  by_cases occupied : second.freeLocations.Nonempty
  · have same :
        ∀ (locations : Finset Nat) (ne : locations.Nonempty), locations = second.freeLocations →
          locations.min' ne = second.freeLocations.min' occupied := by
      rintro _ _ rfl
      rfl
    have occupiedFirst : first.freeLocations.Nonempty := by
      rw [beside.freeLocations]
      exact occupied
    rw [dif_pos occupied, dif_pos occupiedFirst, same _ occupiedFirst beside.freeLocations]
    have saved := beside.backupNodes (second.freeLocations.min' occupied)
    have cleared := saved.update (second.freeLocations.min' occupied) fun _ => default
    refine ⟨⟨cleared.nodes, ?_, cleared.permanentNodesCount, cleared.young,
      cleared.saved, cleared.copies⟩, rfl⟩
    dsimp only
    rw [saved.freeLocations]
  · have vacant : ¬ first.freeLocations.Nonempty := by
      rw [beside.freeLocations]
      exact occupied
    rw [dif_neg occupied, dif_neg vacant]
    refine ⟨⟨?_, beside.freeLocations, beside.permanentNodesCount,
      beside.young, beside.saved, beside.copies⟩, ?_⟩
    · rw [beside.nodes]
    · rw [beside.nodes]

theorem Beside.addNode (beside : Beside stale first second) (src : Nat) (target : UInt8) :
    BesideAt stale (first.addNode src target) (second.addNode src target) := by
  obtain ⟨allocated, same⟩ := beside.allocate
  unfold StateImpl.addNode
  dsimp only
  rw [same]
  refine ⟨?_, rfl⟩
  dsimp only
  exact (allocated.update src _).update _ _

theorem Beside.divideNode (beside : Beside stale first second) (cur cpi : Nat) :
    BesideAt stale (first.divideNode cur cpi) (second.divideNode cur cpi) := by
  unfold StateImpl.divideNode
  dsimp only
  have saved := beside.backupNodes cur
  rw [beside.node, saved.node]
  obtain ⟨added, same⟩ :=
    saved.addNode ((second.backupNodes cur).node cur).parent
      ((second.backupNodes cur).node cur).firstByte
  rw [same]
  refine ⟨?_, rfl⟩
  dsimp only
  refine Beside.update (Beside.update (Beside.update ?_ _ _) _ _) _ _
  exact added.update cur _

theorem Beside.splitNode (beside : Beside stale first second) (cur cpi : Nat) :
    Lockstep (BesideAt stale) (first.splitNode H cur cpi) (second.splitNode H cur cpi) := by
  obtain ⟨divided, same⟩ := beside.divideNode cur cpi
  unfold StateImpl.splitNode
  exact (divided.calculateHash cur).bind fun _ _ _ hashed => .ok ⟨hashed, same⟩

theorem Beside.mergeWithChild (beside : Beside stale first second) (cur : Nat) (b : UInt8) :
    BesideAt stale (first.mergeWithChild cur b) (second.mergeWithChild cur b) := by
  unfold StateImpl.mergeWithChild
  dsimp only
  rw [beside.node]
  have saved := beside.backupNodes ((second.node cur).children b)
  rw [saved.node cur]
  have prefixed :=
    saved.update ((second.node cur).children b) fun node =>
      { node with
        prefixBytes :=
          ((second.backupNodes
            ((second.node cur).children b)).node cur).prefixBytes ++ node.prefixBytes }
  rw [prefixed.node cur]
  refine ⟨Beside.markFree (Beside.update ?_ _ _) cur, rfl⟩
  exact prefixed.update _ _

theorem Beside.cutNode (beside : Beside stale first second) (cur : Nat) :
    Beside stale (first.cutNode cur) (second.cutNode cur) := by
  unfold StateImpl.cutNode
  rw [beside.node]
  exact (beside.update _ _).markFree cur

theorem Beside.unlinkNode (beside : Beside stale first second) (cur : Nat) :
    BesideAt stale (first.unlinkNode cur) (second.unlinkNode cur) := by
  have cut := beside.cutNode cur
  unfold StateImpl.unlinkNode
  dsimp only
  rw [beside.node, cut.node]
  split
  · exact cut.mergeWithChild _ _
  · exact ⟨cut, rfl⟩

theorem Beside.getNodeIndex (beside : Beside stale first second) (path : Bytes) :
    first.getNodeIndex path = second.getNodeIndex path := by
  have loop : ∀ rounds i cur keyEndedAtEdge, first.nodeIndexLoop path rounds i cur keyEndedAtEdge =
          second.nodeIndexLoop path rounds i cur keyEndedAtEdge := by
    intro rounds
    induction rounds with
    | zero =>
      intro i cur keyEndedAtEdge
      simp only [nodeIndexLoop, nodeIndexAtEnd, beside.node]
    | succ rounds ih =>
      intro i cur keyEndedAtEdge
      simp only [nodeIndexLoop, nodeIndexAtEnd, beside.node, ih]
  exact loop _ _ _ _

theorem Beside.erase (beside : Beside stale first second) (k : Bytes) :
    Lockstep (Beside stale) (first.erase H k) (second.erase H k) := by
  unfold StateImpl.erase
  rw [beside.getNodeIndex]
  cases second.getNodeIndex k with
  | none => exact .error _
  | some cur =>
    have saved := beside.backupNodes cur
    dsimp only
    rw [beside.node, saved.node]
    split
    · exact .error _
    · split
      · obtain ⟨unlinked, same⟩ := saved.unlinkNode cur
        rw [same]
        exact unlinked.calculateHash _
      next b _ =>
        obtain ⟨merged, same⟩ := saved.mergeWithChild cur b
        rw [same]
        exact merged.calculateHash _
      · exact (saved.update cur _).calculateHash cur

theorem Beside.subtrieMarkFreeFrom (beside : Beside stale first second) (calls cur : Nat) :
    Lockstep (Beside stale) (StateImpl.subtrieMarkFreeFrom calls first cur)
      (StateImpl.subtrieMarkFreeFrom calls second cur) := by
  induction calls generalizing first second cur with
  | zero => exact .error _
  | succ calls ih =>
    unfold StateImpl.subtrieMarkFreeFrom
    refine Lockstep.foldlM ?_ _ (beside.markFree cur)
    intro marked other b related
    rw [related.node]
    split
    · exact ih related _
    · exact .ok related

theorem Beside.deleteNodeTree (beside : Beside stale first second) (k : Bytes) :
    Lockstep (Beside stale) (first.deleteNodeTree H k) (second.deleteNodeTree H k) := by
  unfold StateImpl.deleteNodeTree
  rw [beside.getNodeIndex]
  cases second.getNodeIndex k with
  | none => exact .error _
  | some cur =>
    dsimp only
    rw [beside.node]
    split
    · exact .error _
    · have saved := beside.backupNodes (second.node cur).parent
      have marking :
          Lockstep (Beside stale) ((first.backupNodes (second.node cur).parent).subtrieMarkFree cur)
            ((second.backupNodes (second.node cur).parent).subtrieMarkFree cur) := by
        rw [subtrieMarkFree, saved.nodes]
        exact saved.subtrieMarkFreeFrom _ cur
      refine marking.bind fun marked other _ related => ?_
      obtain ⟨unlinked, same⟩ := related.unlinkNode cur
      rw [same]
      exact unlinked.calculateHash _

structure BesideCursor (stale : Nat → Prop) (first second : SetCursor) : Prop where
  state : Beside stale first.state second.state
  curNode : first.curNode = second.curNode
  curPrefixIndex : first.curPrefixIndex = second.curPrefixIndex
  keyEnded : first.keyEnded = second.keyEnded

theorem Beside.setLoop (beside : Beside stale first second) (rest : Bytes) (cur cpi : Nat) :
    Lockstep (BesideCursor stale) (StateImpl.setLoop H rest first cur cpi)
      (StateImpl.setLoop H rest second cur cpi) := by
  induction rest generalizing first second cur cpi with
  | nil => exact .ok ⟨beside, rfl, rfl, rfl⟩
  | cons pathElement rest ih =>
    unfold StateImpl.setLoop
    dsimp only
    rw [beside.node, beside.hasChildren]
    split
    · split
      · exact ih beside _ _
      · split
        · obtain ⟨added, same⟩ := (beside.backupNodes cur).addNode cur pathElement
          rw [same]
          exact ih added _ _
        · have extended :=
            beside.update cur fun node =>
              { node with prefixBytes := node.prefixBytes ++ pathElement :: rest }
          exact .ok ⟨extended, rfl, rfl, rfl⟩
    · split
      · refine (beside.splitNode cur cpi).bind ?_
        rintro ⟨divided, split⟩ ⟨other, _⟩ _ ⟨related, rfl⟩
        obtain ⟨added, same⟩ := related.addNode split pathElement
        rw [same]
        exact ih added _ _
      · exact ih beside _ _

theorem Beside.storeValue (beside : Beside stale first second) (cur : Nat) (v : Bytes) :
    Lockstep (Beside stale) (first.storeValue H cur v) (second.storeValue H cur v) :=
  ((beside.backupNodes cur).update cur _).calculateHash cur

theorem Beside.set (beside : Beside stale first second) (k v : Bytes) :
    Lockstep (Beside stale) (first.set H k v) (second.set H k v) := by
  unfold StateImpl.set
  split
  · exact beside.erase k
  · refine (beside.setLoop k 0 0).bind ?_
    intro cursor other _ related
    unfold finishSet
    rw [related.curNode, related.curPrefixIndex, related.keyEnded, related.state.node]
    split
    · refine (related.state.splitNode _ _).bind ?_
      rintro ⟨divided, split⟩ ⟨other, _⟩ _ ⟨halved, rfl⟩
      exact halved.storeValue split v
    · exact related.state.storeValue _ v

/-- The step lemma: a call does the same to both trees. -/
theorem Beside.step (beside : Beside stale first second) (H : HashTransformation) (req : Request) :
    Beside stale (first.step H req) (second.step H req) := by
  have applied : Lockstep (Beside stale) (first.apply H req) (second.apply H req) := by
    cases req with
    | set k v => exact beside.set k v
    | erase k => exact beside.erase k
    | deleteNodeTree k => exact beside.deleteNodeTree k
  unfold StateImpl.step
  generalize first.apply H req = result at applied
  generalize second.apply H req = other at applied
  cases applied with
  | ok related => exact related
  | error fault => exact beside

end StateImpl

end AutomatonCore.State
