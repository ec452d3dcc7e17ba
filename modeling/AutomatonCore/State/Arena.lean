import AutomatonCore.State.StateImpl
import AutomatonCore.Library.RadixRewrite

/-!
# The node arena as a radix graph
-/

namespace AutomatonCore.State

open Io Library List

namespace Node

@[simp]
theorem setChild_parent (node : Node) (path : UInt8) (i : Nat) :
    (node.setChild path i).parent = node.parent :=
  rfl

@[simp]
theorem setChild_prefixBytes (node : Node) (path : UInt8) (i : Nat) :
    (node.setChild path i).prefixBytes = node.prefixBytes :=
  rfl

@[simp]
theorem setChild_value (node : Node) (path : UInt8) (i : Nat) :
    (node.setChild path i).value = node.value :=
  rfl

@[simp]
theorem setChild_children (node : Node) (path b : UInt8) (i : Nat) :
    (node.setChild path i).children b =
      if b = path then i else node.children b :=
  rfl

theorem mem_childBytes (node : Node) (b : UInt8) : b ∈ node.childBytes ↔ node.children b ≠ 0 := by
  simp [childBytes, mem_allBytes]

theorem childBytes_nodup (node : Node) : node.childBytes.Nodup := allBytes_nodup.filter _

end Node

namespace StateImpl

/-! ## Single updates -/

@[simp]
theorem update_length (s : StateImpl) (i : Nat) (change : Node → Node) :
    (s.update i change).nodes.length = s.nodes.length := by
  simp [update]

@[simp]
theorem update_freeLocations (s : StateImpl) (i : Nat) (change : Node → Node) :
    (s.update i change).freeLocations = s.freeLocations :=
  rfl

variable {i : Nat} {node : Node} {b : UInt8}

theorem node_update_self {s : StateImpl} (bound : i < s.nodes.length) (change : Node → Node) :
    (s.update i change).node i = change (s.node i) := by
  simp [update, node, bound]

theorem node_update_ne {s : StateImpl} {other : Nat} (ne : other ≠ i) (change : Node → Node) :
    (s.update i change).node other = s.node other := by
  simp [update, node, Ne.symm ne]

theorem update_update (s : StateImpl) (i : Nat) (first second : Node → Node) :
    (s.update i first).update i second = s.update i fun node => second (first node) := by
  by_cases bound : i < s.nodes.length
  · rw [update, node_update_self bound]
    simp [update]
  · have outside := le_of_not_gt bound
    simp [update, set_eq_of_length_le, outside]

@[simp]
theorem markFree_nodes (s : StateImpl) (i : Nat) : (s.markFree i).nodes = s.nodes :=
  rfl

@[simp]
theorem markFree_node (s : StateImpl) (i other : Nat) : (s.markFree i).node other = s.node other :=
  rfl

@[simp]
theorem markFree_freeLocations (s : StateImpl) (i : Nat) :
    (s.markFree i).freeLocations = insert i s.freeLocations :=
  rfl

/-! ## The backup map -/

theorem backupNodesFrom_frame (calls : Nat) (s : StateImpl) (cur : Nat) :
    (backupNodesFrom calls s cur).nodes = s.nodes ∧ (backupNodesFrom calls s cur).freeLocations =
          s.freeLocations ∧
        (backupNodesFrom calls s cur).permanentNodesCount = s.permanentNodesCount := by
  induction calls generalizing s cur with
  | zero => exact ⟨rfl, rfl, rfl⟩
  | succ calls ih =>
    unfold backupNodesFrom
    by_cases present : s.saved cur
    · simp [present]
    · simp only [present, Bool.false_eq_true, ↓reduceIte]
      split
      · exact ih _ _
      · exact ⟨rfl, rfl, rfl⟩

@[simp]
theorem backupNodes_nodes (s : StateImpl) (cur : Nat) : (s.backupNodes cur).nodes = s.nodes :=
  (backupNodesFrom_frame _ s cur).1

@[simp]
theorem backupNodes_node (s : StateImpl) (cur i : Nat) : (s.backupNodes cur).node i = s.node i := by
  simp [node]

@[simp]
theorem backupNodes_freeLocations (s : StateImpl) (cur : Nat) :
    (s.backupNodes cur).freeLocations = s.freeLocations :=
  (backupNodesFrom_frame _ s cur).2.1

/-! ## The graph of a state -/

/-- The nodes outside of the free list. -/
def Live (state : StateImpl) (index : Nat) : Prop :=
  index < state.nodes.length ∧ index ∉ state.freeLocations

instance (state : StateImpl) (index : Nat) : Decidable (state.Live index) :=
  inferInstanceAs (Decidable (_ ∧ _))

/-- The child at a byte, where the source stores zero for none. -/
def childAt (node : Node) (byte : UInt8) : Option Nat :=
  if node.children byte = 0 then none else some (node.children byte)

@[simp]
theorem childAt_eq_none :
    childAt node b = none ↔ node.children b = 0 := by
  simp [childAt]

@[simp]
theorem childAt_eq_some :
    childAt node b = some i ↔ node.children b = i ∧ i ≠ 0 := by
  unfold childAt
  split
  · constructor
    · intro impossible
      cases impossible
    · rintro ⟨rfl, nonzero⟩
      contradiction
  · constructor
    · intro same
      cases same
      exact ⟨rfl, ‹_›⟩
    · rintro ⟨rfl, _⟩
      rfl

/-- The vector of nodes together with the free list, read as a radix graph. -/
def graph (state : StateImpl) : RadixGraph Nat UInt8 where
  root := 0
  live := state.Live
  parent index := (state.node index).parent
  label index := (state.node index).prefixBytes
  child index byte := childAt (state.node index) byte

/-- The links of the arena agree, the free list stays inside the vector, and
the root has no prefix and is its own parent. -/
structure Linked (state : StateImpl) (path : Nat → Bytes) : Prop where
  radix : state.graph.IsRadix path
  freeBound : ∀ index ∈ state.freeLocations, index < state.nodes.length
  rootPrefix : (state.node 0).prefixBytes = []
  rootParent : (state.node 0).parent = 0

/-- A node that is not the root carries a value or has two children. -/
def Compact (state : StateImpl) : Prop :=
  ∀ index, state.Live index → index ≠ 0 → (state.node index).value ≠ [] ∨
      ∃ first second, first ≠ second ∧ (state.node index).children first ≠ 0 ∧
          (state.node index).children second ≠ 0

theorem hasChildren_iff (s : StateImpl) (i : Nat) :
    s.hasChildren i = true ↔ ∃ b, (s.node i).children b ≠ 0 := by
  simp [hasChildren, mem_allBytes]

namespace Linked

variable {s : StateImpl} {path : Nat → Bytes}

theorem rootLive (linked : s.Linked path) : s.Live 0 := linked.radix.rootLive

theorem rootPath (linked : s.Linked path) : path 0 = [] := linked.radix.rootPath

variable {i : Nat} {b : UInt8}

theorem child (linked : s.Linked path) (live : s.Live i) (present : (s.node i).children b ≠ 0) :
    s.Live ((s.node i).children b) ∧ (s.node ((s.node i).children b)).parent = i ∧
        ∃ rest, (s.node ((s.node i).children b)).prefixBytes = b :: rest ∧
            path ((s.node i).children b) = path i ++ b :: rest := by
  have link : s.graph.child i b = some ((s.node i).children b) := childAt_eq_some.mpr ⟨rfl, present⟩
  obtain ⟨belowLive, _, parentShape, _⟩ := linked.radix.childLink live link
  obtain ⟨rest, labelShape, pathShape⟩ := linked.radix.path_child live link
  exact ⟨belowLive, parentShape, rest, labelShape, pathShape⟩

theorem parent (linked : s.Linked path) {index : Nat} (live : s.Live index) (notRoot : index ≠ 0) :
    s.Live (s.node index).parent ∧ path index =
          path (s.node index).parent ++ (s.node index).prefixBytes ∧
        ∃ b rest, (s.node index).prefixBytes = b :: rest ∧
            (s.node (s.node index).parent).children b = index := by
  obtain ⟨parentLive, pathShape, b, rest, labelShape, link⟩ := linked.radix.parentLink live notRoot
  exact ⟨parentLive, pathShape, b, rest, labelShape, (childAt_eq_some.mp link).1⟩

theorem parent_ne (linked : s.Linked path) (live : s.Live i) (notRoot : i ≠ 0) :
    (s.node i).parent ≠ i :=
  linked.radix.parent_ne live notRoot

theorem child_parent (linked : s.Linked path) {rest : Bytes} (live : s.Live i) (notRoot : i ≠ 0)
    (label : (s.node i).prefixBytes = b :: rest) : (s.node (s.node i).parent).children b = i :=
  (childAt_eq_some.mp (linked.radix.child_parent live notRoot label)).1

theorem path_injective (linked : s.Linked path) {first second : Nat}
    (firstLive : s.Live first) (secondLive : s.Live second) (same : path first = path second) :
    first = second :=
  linked.radix.path_injective firstLive secondLive same

end Linked

/-! ## Allocation -/

/-- What `add_node` does: `fresh` was outside the tree and now hangs from
`source`, and no other node changes. -/
structure Added (before after : StateImpl) (source : Nat)
    (target : UInt8) (fresh : Nat) : Prop where
  isFresh : ¬ before.Live fresh
  notRoot : fresh ≠ 0
  freshBound : fresh < after.nodes.length
  live : ∀ index, after.Live index ↔ before.Live index ∨ index = fresh
  freeBound : ∀ index ∈ after.freeLocations, index < after.nodes.length
  lengthLe : before.nodes.length ≤ after.nodes.length
  freshNode : after.node fresh = { (default : Node) with parent := source, prefixBytes := [target] }
  sourceNode : after.node source = (before.node source).setChild target fresh
  otherNode : ∀ index, index ≠ fresh → index ≠ source → after.node index = before.node index

theorem allocate_spec (s : StateImpl) (rootLive : s.Live 0)
    (freeBound : ∀ i ∈ s.freeLocations, i < s.nodes.length) :
    let after := s.allocate.1
    let fresh := s.allocate.2
    ¬ s.Live fresh ∧ fresh ≠ 0 ∧ fresh < after.nodes.length ∧
      (∀ i, after.Live i ↔ s.Live i ∨ i = fresh) ∧
      (∀ i ∈ after.freeLocations, i < after.nodes.length) ∧
      s.nodes.length ≤ after.nodes.length ∧ after.node fresh = default ∧
      ∀ i, i ≠ fresh → after.node i = s.node i := by
  by_cases occupied : s.freeLocations.Nonempty
  · have mem : s.freeLocations.min' occupied ∈ s.freeLocations := Finset.min'_mem _ occupied
    have bound := freeBound _ mem
    simp only [allocate, occupied, ↓reduceDIte]
    generalize s.freeLocations.min' occupied = fresh at mem bound
    refine ⟨fun live => live.2 mem, ?_, by simpa using bound, ?_, ?_, by simp, ?_, ?_⟩
    · rintro rfl
      exact rootLive.2 mem
    · intro i
      by_cases same : i = fresh
      · subst same
        simp [Live, bound]
      · simp [Live, same]
    · intro i indexMember
      simp only [backupNodes_freeLocations, Finset.mem_erase] at indexMember
      simpa using freeBound i indexMember.2
    · change ((s.backupNodes fresh).update fresh fun _ => default).node fresh = default
      rw [node_update_self (by simpa using bound)]
    · intro i ne
      change ((s.backupNodes fresh).update fresh fun _ => default).node i = s.node i
      rw [node_update_ne ne, backupNodes_node]
  · simp only [allocate, occupied, ↓reduceDIte]
    have empty : s.freeLocations = ∅ := Finset.not_nonempty_iff_eq_empty.mp occupied
    refine ⟨fun live => lt_irrefl _ live.1, ?_, by simp, ?_, ?_, by simp, ?_, ?_⟩
    · exact ne_of_gt rootLive.1
    · intro i
      simp only [Live, empty]
      simp
      omega
    · simp [empty]
    · simp [node]
    · intro i ne
      simp only [node, getD_eq_getElem?_getD]
      by_cases inside : i < s.nodes.length
      · rw [getElem?_append_left inside]
      · have beyond : s.nodes.length + 1 ≤ i := by omega
        rw [getElem?_eq_none (by simpa using beyond), getElem?_eq_none (by omega)]

theorem addNode_spec {s : StateImpl} {src : Nat} (target : UInt8) (rootLive : s.Live 0)
    (freeBound : ∀ i ∈ s.freeLocations, i < s.nodes.length) (sourceLive : s.Live src) :
    Added s (s.addNode src target).1 src target (s.addNode src target).2 := by
  obtain ⟨isFresh, notRoot, freshBound, live, newFreeBound, lengthLe, freshNode, otherNode⟩ :=
    s.allocate_spec rootLive freeBound
  generalize result : s.allocate = allocated at *
  obtain ⟨after, fresh⟩ := allocated
  have sourceNe : src ≠ fresh := by
    rintro rfl
    exact isFresh sourceLive
  have sourceBound : src < after.nodes.length := lt_of_lt_of_le sourceLive.1 lengthLe
  simp only [addNode, result]
  refine
    { isFresh := isFresh
      notRoot := notRoot
      freshBound := by simpa using freshBound
      live := by simpa [Live] using live
      freeBound := by simpa using newFreeBound
      lengthLe := by simpa using lengthLe
      freshNode := ?_
      sourceNode := ?_
      otherNode := ?_ }
  · rw [node_update_self (by simpa using freshBound), node_update_ne sourceNe.symm, freshNode]
  · rw [node_update_ne sourceNe, node_update_self sourceBound, otherNode src sourceNe]
  · intro i notFresh notSource
    rw [node_update_ne notFresh, node_update_ne notSource, otherNode i notFresh]

end StateImpl

end AutomatonCore.State
