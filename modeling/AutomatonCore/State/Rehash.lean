import AutomatonCore.State.Surgery

/-!
# Recalculating hashes
-/

namespace AutomatonCore.State

open Io Library.RadixGraph

namespace StateImpl

structure SameLinks (before after : StateImpl) : Prop where
  length : after.nodes.length = before.nodes.length
  freeLocations : after.freeLocations = before.freeLocations
  parent : ∀ index, (after.node index).parent = (before.node index).parent
  prefixBytes : ∀ index, (after.node index).prefixBytes = (before.node index).prefixBytes
  children : ∀ index, (after.node index).children = (before.node index).children

namespace SameLinks

variable {before after : StateImpl}

theorem live (same : SameLinks before after) (i : Nat) : after.Live i ↔ before.Live i := by
  simp [Live, same.length, same.freeLocations]

theorem graph (same : SameLinks before after) : after.graph = before.graph := by
  unfold StateImpl.graph
  congr 1
  · funext i
    exact propext (same.live i)
  · funext i
    exact same.parent i
  · funext i
    exact same.prefixBytes i
  · funext i b
    simp [childAt, same.children]

theorem linked (same : SameLinks before after) {path : Nat → Bytes}
    (before : before.Linked path) : after.Linked path where
  radix := by
    rw [same.graph]
    exact before.radix
  freeBound := by
    rw [same.freeLocations, same.length]
    exact before.freeBound
  rootPrefix := (same.prefixBytes 0).trans before.rootPrefix
  rootParent := (same.parent 0).trans before.rootParent

theorem childBytes (same : SameLinks before after) (i : Nat) :
    (after.node i).childBytes = (before.node i).childBytes := by
  simp [Node.childBytes, same.children]

theorem hasChildren (same : SameLinks before after) (i : Nat) :
    after.hasChildren i = before.hasChildren i := by
  simp [StateImpl.hasChildren, same.children]

theorem depthRank (same : SameLinks before after) (path : Nat → Bytes) (i : Nat) :
    after.depthRank path i = before.depthRank path i := by
  simp [StateImpl.depthRank, same.length]

end SameLinks

theorem backupNodes_live (s : StateImpl) (cur i : Nat) : (s.backupNodes cur).Live i ↔ s.Live i := by
  simp [Live]

theorem backupNodes_sameLinks (s : StateImpl) (cur : Nat) :
    SameLinks s (s.backupNodes cur) where
  length := by simp
  freeLocations := by simp
  parent := by simp
  prefixBytes := by simp
  children := by simp

structure SameButHash (before after : StateImpl) : Prop extends SameLinks before after where
  backup : after.backup = before.backup
  permanentNodesCount : after.permanentNodesCount = before.permanentNodesCount
  value : ∀ index, (after.node index).value = (before.node index).value

namespace SameButHash

theorem trans {first second third : StateImpl} (before : SameButHash first second)
    (after : SameButHash second third) :
    SameButHash first third where
  length := after.length.trans before.length
  backup := after.backup.trans before.backup
  freeLocations := after.freeLocations.trans before.freeLocations
  permanentNodesCount := after.permanentNodesCount.trans before.permanentNodesCount
  parent i := (after.parent i).trans (before.parent i)
  prefixBytes i := (after.prefixBytes i).trans (before.prefixBytes i)
  value i := (after.value i).trans (before.value i)
  children i := (after.children i).trans (before.children i)

theorem compact {before after : StateImpl} (same : SameButHash before after)
    (compact : before.Compact) : after.Compact := by
  intro i live notRoot
  rw [same.value, same.children]
  exact compact i ((same.live i).mp live) notRoot

end SameButHash

theorem setHash_same (s : StateImpl) (i : Nat) (hash : Bytes) :
    SameButHash s (s.setHash i hash) := by
  have fields : ∀ other, ((s.setHash i hash).node other).parent = (s.node other).parent ∧
          ((s.setHash i hash).node other).prefixBytes = (s.node other).prefixBytes ∧
            ((s.setHash i hash).node other).value = (s.node other).value ∧
              ((s.setHash i hash).node other).children = (s.node other).children := by
    intro other
    by_cases same : other = i
    · subst same
      by_cases bound : other < s.nodes.length
      · simp [setHash, node_update_self bound]
      · have unchanged : (s.setHash other hash).node other = s.node other := by
          simp [setHash, node, bound]
        simp [unchanged]
    · simp [setHash, node_update_ne same]
  exact
    { length := by simp [setHash]
      backup := rfl
      freeLocations := rfl
      permanentNodesCount := rfl
      parent := fun other => (fields other).1
      prefixBytes := fun other => (fields other).2.1
      value := fun other => (fields other).2.2.1
      children := fun other => (fields other).2.2.2 }

variable {H : HashTransformation} {s : StateImpl} {i : Nat} {path : Nat → Bytes}

theorem calculateHashFrom_same :
    ∀ (calls : Nat) (s hashed : StateImpl) (cur : Nat),
      calculateHashFrom H calls s cur = .ok hashed → SameButHash s hashed := by
  intro calls
  induction calls with
  | zero =>
    intro s hashed cur run
    cases run
  | succ calls ih =>
    intro s hashed cur run
    unfold calculateHashFrom at run
    split at run
    · cases run
      exact setHash_same s cur []
    · split at run
      · exact (setHash_same s cur _).trans (ih _ _ _ run)
      · cases run
        exact setHash_same s cur _

theorem calculateHash_same
    {hashed : StateImpl} {cur : Nat} (run : s.calculateHash H cur = .ok hashed) :
    SameButHash s hashed :=
  calculateHashFrom_same _ _ _ _ run

/-- The hash that `calculate_hash` computes; a root without children has
none. -/
def expectedHash (hasher : HashTransformation) (state : StateImpl) (index : Nat) : Bytes :=
  if index = 0 ∧ ¬ state.hasChildren index then []
  else hasher.digest (state.hashInput index)

theorem expectedHash_congr
    {before after : StateImpl} (sameInput : after.hashInput i = before.hashInput i)
    (sameChildren : after.hasChildren i = before.hasChildren i) :
    after.expectedHash H i = before.expectedHash H i := by
  unfold expectedHash
  rw [sameInput, sameChildren]

def Fresh (hasher : HashTransformation) (state : StateImpl) (index : Nat) : Prop :=
  (state.node index).hash = state.expectedHash hasher index

/-- Every stale hash lies on the walk from a node to the root. -/
def FreshBeyond (hasher : HashTransformation) (state : StateImpl) (focus : Nat) : Prop :=
  ∀ index, state.Live index → ¬ Above state.graph index focus → state.Fresh hasher index

def AllFresh (hasher : HashTransformation) (state : StateImpl) : Prop :=
  ∀ index, state.Live index → state.Fresh hasher index

theorem Fresh.congr
    {before after : StateImpl} (fresh : before.Fresh H i) (sameNode : after.node i = before.node i)
    (sameChildren : ∀ b, (before.node i).children b ≠ 0 →
        (after.node ((before.node i).children b)).hash =
          (before.node ((before.node i).children b)).hash) : after.Fresh H i := by
  have sameInput : after.hashInput i = before.hashInput i := by
    unfold hashInput
    rw [sameNode]
    congr 1
    apply List.flatMap_congr
    intro b mem
    exact sameChildren b ((Node.mem_childBytes _ _).mp mem)
  have sameFlag : after.hasChildren i = before.hasChildren i := by simp [hasChildren, sameNode]
  unfold Fresh
  rw [sameNode, expectedHash_congr sameInput sameFlag]
  exact fresh

/-- Nothing but hashes on the walk has changed. -/
structure Rehashed (before after : StateImpl) (focus : Nat) : Prop where
  same : SameButHash before after
  unchanged : ∀ index, ¬ Above before.graph index focus → after.node index = before.node index

theorem setHash_fresh (linked : s.Linked path) (live : s.Live i) :
    (s.setHash i (s.expectedHash H i)).Fresh H i := by
  have same := setHash_same s i (s.expectedHash H i)
  have sameInput : (s.setHash i (s.expectedHash H i)).hashInput i = s.hashInput i := by
    unfold hashInput
    rw [same.value, same.prefixBytes, same.childBytes, same.children]
    congr 1
    apply List.flatMap_congr
    intro b mem
    have present := (Node.mem_childBytes _ _).mp mem
    have ne : (s.node i).children b ≠ i := by
      intro cycle
      obtain ⟨childLive, parentShape, _⟩ := linked.child live present
      have notSelf := linked.parent_ne childLive present
      rw [parentShape, cycle] at notSelf
      exact notSelf rfl
    rw [setHash, node_update_ne ne]
  have stored : ((s.setHash i (s.expectedHash H i)).node i).hash = s.expectedHash H i := by
    simp [setHash, node_update_self live.1]
  unfold Fresh
  rw [stored]
  exact (expectedHash_congr sameInput (same.hasChildren i)).symm

theorem setHash_freshBeyond (linked : s.Linked path) {focus : Nat}
    (live : s.Live focus) (beyond : s.FreshBeyond H focus) :
    ∀ i, s.Live i → (focus ≠ 0 → ¬ Above s.graph i (s.node focus).parent) →
      (s.setHash focus (s.expectedHash H focus)).Fresh H i := by
  intro i indexLive notAbove
  by_cases isFocus : i = focus
  · rw [isFocus]
    exact setHash_fresh linked live
  · have outside : ¬ Above s.graph i focus := by
      intro above
      by_cases atRoot : focus = 0
      · subst atRoot
        exact isFocus (above_root_iff.mp above)
      · exact notAbove atRoot (above.parent_of_ne isFocus)
    apply (beyond i indexLive outside).congr
    · rw [setHash, node_update_ne isFocus]
    · intro b present
      have ne : (s.node i).children b ≠ focus := by
        intro isChild
        obtain ⟨_, parentShape, _⟩ := linked.child indexLive present
        rw [isChild] at parentShape present
        apply notAbove present
        rw [parentShape]
        exact Above.self i
      rw [setHash, node_update_ne ne]

theorem calculateHashFrom_spec :
    ∀ (calls : Nat) (s : StateImpl) (focus : Nat), s.Linked path → s.Live focus →
      s.depthRank path focus < calls → ∃ hashed,
      calculateHashFrom H calls s focus = .ok hashed ∧ Rehashed s hashed focus ∧
      (s.FreshBeyond H focus → hashed.AllFresh H) := by
  intro calls
  induction calls with
  | zero =>
    intro s focus _ _ enough
    exact absurd enough (Nat.not_lt_zero _)
  | succ calls ih =>
    intro s focus linked live enough
    have same := setHash_same s focus (s.expectedHash H focus)
    have unchanged :
        ∀ i, i ≠ focus → (s.setHash focus (s.expectedHash H focus)).node i = s.node i := by
      intro i ne
      rw [setHash, node_update_ne ne]
    by_cases atRoot : focus = 0
    · refine ⟨s.setHash focus (s.expectedHash H focus), ?_, ⟨same, ?_⟩, ?_⟩
      · unfold calculateHashFrom expectedHash
        split
        · rfl
        · simp [atRoot]
      · intro i outside
        apply unchanged
        rintro rfl
        exact outside (Above.self _)
      · intro beyond i indexLive
        apply setHash_freshBeyond linked live beyond i ((same.live i).mp indexLive)
        intro notRoot
        exact absurd atRoot notRoot
    · obtain ⟨parentLive, _⟩ := linked.parent live atRoot
      have parentShape := same.parent focus
      obtain ⟨hashed, run, rehashed, fresh⟩ :=
        ih (s.setHash focus (s.expectedHash H focus)) (s.node focus).parent (same.linked linked)
          ((same.live _).mpr parentLive)
          (by
            rw [same.depthRank]
            have smaller := linked.depthRank_parent live atRoot
            omega)
      refine ⟨hashed, ?_, ⟨same.trans rehashed.same, ?_⟩, ?_⟩
      · unfold calculateHashFrom
        rw [if_neg (fun both => atRoot both.1), if_pos atRoot]
        have plain : s.expectedHash H focus = H.digest (s.hashInput focus) := by
          unfold expectedHash
          rw [if_neg (fun both => atRoot both.1)]
        rw [← plain, parentShape]
        exact run
      · intro i outside
        rw [rehashed.unchanged i ?_, unchanged i ?_]
        · rintro rfl
          exact outside (Above.self _)
        · rw [same.graph]
          intro above
          exact outside (Above.up atRoot above)
      · intro beyond
        apply fresh
        intro i indexLive outside
        rw [same.graph] at outside
        exact setHash_freshBeyond linked live beyond i ((same.live i).mp indexLive) fun _ => outside

theorem calculateHash_spec (H : HashTransformation) (linked : s.Linked path) {focus : Nat}
    (live : s.Live focus) :
    ∃ hashed, s.calculateHash H focus = .ok hashed ∧ Rehashed s hashed focus ∧
      (s.FreshBeyond H focus → hashed.AllFresh H) :=
  calculateHashFrom_spec _ s focus linked live (depthRank_lt live)

end StateImpl

end AutomatonCore.State
