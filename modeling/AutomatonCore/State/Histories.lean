import AutomatonCore.State.MapSemantics

/-!
# What every history keeps
-/

namespace AutomatonCore.State

open Io Library.RadixGraph

namespace StateImpl

variable {H : HashTransformation} {s : StateImpl}
  {path : Nat → Bytes}

theorem run_discardChanges (H : HashTransformation) {start : StateImpl} (wf : start.WellFormed path)
    (noFree : start.freeLocations = ∅) (noBackup : start.backup = [])
    (committed : start.permanentNodesCount = start.nodes.length) (requests : List Request)
    (ne : ∀ req ∈ requests, req.key ≠ []) :
    (start.run H requests).discardChanges.nodes = start.nodes ∧
      (start.run H requests).discardChanges.freeLocations = ∅ := by
  obtain ⟨_, _, advances⟩ := run_spec H requests (safeRun_of_keys H ne) wf
  have backed :=
    advances.backed start.nodes (backed_of_committed wf.linked noFree noBackup committed)
  exact backed.toRestorable.discardChanges

/-- Whatever happens after a commit, `discard_changes` brings back every
field of every node. -/
theorem discardChanges_restores (H : HashTransformation)
    (start : StateImpl) (path : Nat → Bytes) (wf : start.WellFormed path)
    (noFree : start.freeLocations = ∅) (noBackup : start.backup = [])
    (committed : start.permanentNodesCount = start.nodes.length) (requests : List Request)
    (ne : ∀ req ∈ requests, req.key ≠ []) :
    (start.run H requests).discardChanges.nodes = start.nodes ∧
      (start.run H requests).discardChanges.freeLocations = ∅ :=
  run_discardChanges H wf noFree noBackup committed requests ne

theorem discardChanges_restores_new :
    (create.run checksum
        [.set (text "ab") (text "x"), .set (text "a") (text "y"), .erase (text "c"),
          .deleteNodeTree (text "a")]).discardChanges.nodes = create.nodes :=
  (discardChanges_restores checksum create _ create_wellFormed rfl rfl rfl _ (by decide)).1

/-! ## The representation invariant -/

/-- The indices that can be reached from the root through child links. -/
inductive Reachable (state : StateImpl) : Nat → Prop
  | root : Reachable state 0
  | child {index : Nat} (byte : UInt8) : Reachable state index →
      (state.node index).children byte ≠ 0 → Reachable state ((state.node index).children byte)

theorem Linked.live_of_reachable (linked : s.Linked path)
    {i : Nat} (reachable : s.Reachable i) : s.Live i := by
  induction reachable with
  | root => exact linked.rootLive
  | child b _ present ih => exact (linked.child ih present).1

theorem Linked.reachable_of_above (linked : s.Linked path)
    {upper i : Nat} (above : Above s.graph upper i) : upper = 0 → s.Live i → s.Reachable i := by
  induction above with
  | self =>
    rintro rfl _
    exact .root
  | @up lower notRoot _ ih =>
    intro isRoot live
    obtain ⟨parentLive, _, b, rest, _, link⟩ := linked.parent live notRoot
    have step : (s.node (s.node lower).parent).children b ≠ 0 := by
      rw [link]
      exact notRoot
    have reached : s.Reachable ((s.node (s.node lower).parent).children b) :=
      .child b (ih isRoot parentLive) step
    rw [link] at reached
    exact reached

theorem Linked.reachable_iff (linked : s.Linked path) (i : Nat) : s.Reachable i ↔ s.Live i :=
  ⟨linked.live_of_reachable, fun live =>
    linked.reachable_of_above (linked.radix.root_above live) rfl live⟩

theorem parent_walk {upper i : Nat} (above : Above s.graph upper i) :
    ∃ steps, (fun node => (s.node node).parent)^[steps] i = upper := by
  induction above with
  | self => exact ⟨0, rfl⟩
  | up _ _ ih =>
    obtain ⟨steps, ends⟩ := ih
    exact ⟨steps + 1, ends⟩

theorem WellFormed.congr {other : StateImpl} (wf : s.WellFormed path)
    (nodes : other.nodes = s.nodes) (freeLocations : other.freeLocations = s.freeLocations) :
    other.WellFormed path := by
  have sameNode : ∀ i, other.node i = s.node i := by
    intro i
    simp [node, nodes]
  have same : SameLinks s other :=
    { length := by rw [nodes]
      freeLocations := freeLocations
      parent := by simp [sameNode]
      prefixBytes := by simp [sameNode]
      children := by simp [sameNode] }
  refine ⟨same.linked wf.linked, ?_⟩
  intro i live notRoot
  rw [sameNode]
  exact wf.compact i ((same.live i).mp live) notRoot

theorem two_le_childBytes {node : Node} {first second : UInt8}
    (ne : first ≠ second) (one : node.children first ≠ 0) (two : node.children second ≠ 0) :
    2 ≤ node.childBytes.length := by
  have firstMember := (node.mem_childBytes first).mpr one
  have secondMember := (node.mem_childBytes second).mpr two
  generalize node.childBytes = bytes at firstMember secondMember
  match bytes with
  | [] => simp at firstMember
  | [_] =>
    rw [List.mem_singleton] at firstMember secondMember
    exact absurd (firstMember.trans secondMember.symm) ne
  | _ :: _ :: _ => simp

/-- The representation invariant of the arena, after every history over
nonempty keys and after a rollback at its end. -/
theorem arena_invariant (H : HashTransformation) (requests : List Request)
    (nonempty : ∀ req ∈ requests, req.key ≠ []) (s : StateImpl)
    (reached : s = create.run H requests ∨ s = (create.run H requests).discardChanges) :
    0 ∉ s.freeLocations ∧
    (∀ i, s.Reachable i ↔ i < s.nodes.length ∧ i ∉ s.freeLocations) ∧
    (∀ i b, s.Reachable i → (s.node i).children b ≠ 0 →
      (s.node ((s.node i).children b)).parent = i ∧
      (s.node ((s.node i).children b)).prefixBytes.head? = some b) ∧
    (∀ i, s.Reachable i → i ≠ 0 → (s.node i).prefixBytes ≠ [] ∧
      ((s.node i).value ≠ [] ∨ 2 ≤ (s.node i).childBytes.length)) ∧
    ∀ i, s.Reachable i → (∃ steps, (fun node => (s.node node).parent)^[steps] i = 0) ∧
      ∃ hashed, s.calculateHash H i = .ok hashed := by
  have formed : ∃ path, s.WellFormed path := by
    obtain ⟨path, wf, _⟩ := history_simulates H requests nonempty
    rcases reached with rfl | rfl
    · exact ⟨path, wf⟩
    · obtain ⟨nodes, freeLocations⟩ :=
        run_discardChanges H create_wellFormed rfl rfl rfl requests nonempty
      exact ⟨_, create_wellFormed.congr nodes freeLocations⟩
  obtain ⟨path, wf⟩ := formed
  have linked := wf.linked
  refine ⟨linked.rootLive.2, linked.reachable_iff, ?_, ?_, ?_⟩
  · intro i b reachable present
    obtain ⟨_, parentShape, rest, label, _⟩ :=
      linked.child (linked.live_of_reachable reachable) present
    exact ⟨parentShape, by simp [label]⟩
  · intro i reachable notRoot
    have live := linked.live_of_reachable reachable
    obtain ⟨_, _, b, rest, label, _⟩ := linked.parent live notRoot
    refine ⟨by simp [label], ?_⟩
    rcases wf.compact i live notRoot with
      hasValue | ⟨first, second, ne, one, two⟩
    · exact .inl hasValue
    · exact .inr (two_le_childBytes ne one two)
  · intro i reachable
    have live := linked.live_of_reachable reachable
    obtain ⟨hashed, run, _⟩ := calculateHash_spec H linked live
    exact ⟨parent_walk (linked.radix.root_above live), hashed, run⟩

theorem arena_invariant_after_split :
    let s :=
      create.run checksum [.set (text "abc") (text "x"), .set (text "abd") (text "y")]
    s.Reachable 2 ∧ (s.node 2).prefixBytes ≠ [] := by
  have invariant :=
    arena_invariant checksum [.set (text "abc") (text "x"), .set (text "abd") (text "y")]
      (by decide) _ (.inl rfl)
  have reachable := (invariant.2.1 2).mpr (by decide +kernel)
  exact ⟨reachable, (invariant.2.2.2.1 2 reachable (by decide)).1⟩

end StateImpl

end AutomatonCore.State
