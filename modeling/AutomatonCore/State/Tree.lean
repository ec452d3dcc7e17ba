import AutomatonCore.State.Rehash

/-!
# The tree in the arena
-/

namespace AutomatonCore.State

open Io

inductive RadixTree where
  | node (prefixBytes value : Bytes) (children : List RadixTree)

namespace RadixTree

mutual

/-- The hash of a tree, by recursion. -/
def hash (hasher : HashTransformation) : RadixTree → Bytes
  | .node prefixBytes value children =>
    hasher.digest (value ++ prefixBytes ++ hashAll hasher children)

def hashAll (hasher : HashTransformation) : List RadixTree → Bytes
  | [] => []
  | tree :: trees => hash hasher tree ++ hashAll hasher trees

end

/-- The hash of a whole tree, which is empty for a root without children. -/
def rootHash (hasher : HashTransformation) : RadixTree → Bytes
  | .node prefixBytes value children =>
    if children.isEmpty then []
    else hash hasher (.node prefixBytes value children)

theorem hashAll_eq_flatMap (H : HashTransformation) (trees : List RadixTree) :
    hashAll H trees = trees.flatMap (hash H) := by
  induction trees with
  | nil => rfl
  | cons tree trees ih => rw [hashAll, ih, List.flatMap_cons]

end RadixTree

namespace StateImpl

variable {H : HashTransformation} {s : StateImpl}
  {path : Nat → Bytes}

/-- The tree below a node of the arena, as a value by itself. -/
def tree (state : StateImpl) : Nat → Nat → RadixTree
  | 0, index => .node (state.node index).prefixBytes (state.node index).value []
  | depth + 1, index =>
    .node (state.node index).prefixBytes (state.node index).value
      ((state.node index).childBytes.map fun byte =>
        tree state depth ((state.node index).children byte))

def wholeTree (state : StateImpl) : RadixTree :=
  state.tree state.nodes.length 0

/-- A stored hash that is up to date is the hash of the tree. -/
theorem hash_tree (linked : s.Linked path) (fresh : s.AllFresh H) (measure : Nat → Nat) (falls :
      ∀ i b, s.Live i → (s.node i).children b ≠ 0 → measure ((s.node i).children b) < measure i) :
    ∀ (depth i : Nat), s.Live i → measure i < depth → ¬ (i = 0 ∧ ¬ s.hasChildren i) →
      (s.tree depth i).hash H = (s.node i).hash := by
  intro depth
  induction depth with
  | zero =>
    intro i _ enough
    exact absurd enough (Nat.not_lt_zero _)
  | succ depth ih =>
    intro i live enough hashed
    have below : RadixTree.hashAll H
            ((s.node i).childBytes.map fun b => s.tree depth ((s.node i).children b)) =
          (s.node i).childBytes.flatMap fun b => (s.node ((s.node i).children b)).hash := by
      rw [RadixTree.hashAll_eq_flatMap, List.flatMap_map]
      apply List.flatMap_congr
      intro b mem
      have present := (Node.mem_childBytes _ _).mp mem
      have smaller := falls i b live present
      exact ih _ (linked.child live present).1 (by omega) fun both => present both.1
    rw [tree, RadixTree.hash, below, fresh i live, expectedHash, if_neg hashed]
    rfl

theorem rootHash_tree (linked : s.Linked path) (fresh : s.AllFresh H) (measure : Nat → Nat) (falls :
      ∀ i b, s.Live i → (s.node i).children b ≠ 0 → measure ((s.node i).children b) < measure i)
    {depth : Nat} (enough : measure 0 < depth) :
    (s.tree depth 0).rootHash H = s.getNodeHash [] := by
  have stored : s.getNodeHash [] = (s.node 0).hash := rfl
  have rootLive := linked.rootLive
  rw [stored]
  cases depth with
  | zero => exact absurd enough (Nat.not_lt_zero _)
  | succ depth =>
    have leaf : ((s.node 0).childBytes.map fun b =>
            s.tree depth ((s.node 0).children b)).isEmpty =
            true ↔ ¬ s.hasChildren 0 = true := by
      rw [List.isEmpty_iff, List.map_eq_nil_iff, hasChildren_iff,
        not_exists, List.eq_nil_iff_forall_not_mem]
      simp only [Node.mem_childBytes]
    by_cases hasChildren : s.hasChildren 0 = true
    · have result :=
        hash_tree linked fresh measure falls (depth + 1) 0 rootLive
          enough fun both => both.2 hasChildren
      rw [← result, tree, RadixTree.rootHash, if_neg fun empty => leaf.mp empty hasChildren]
    · rw [tree, RadixTree.rootHash, if_pos (leaf.mpr hasChildren),
        fresh 0 rootLive, expectedHash, if_pos ⟨rfl, hasChildren⟩]

theorem tree_eq_of_measure (linked : s.Linked path) (measure : Nat → Nat) (falls :
      ∀ i b, s.Live i → (s.node i).children b ≠ 0 → measure ((s.node i).children b) < measure i) :
    ∀ (depth otherDepth i : Nat), s.Live i → measure i < depth →
      measure i < otherDepth → s.tree depth i = s.tree otherDepth i := by
  intro depth
  induction depth with
  | zero =>
    intro _ i _ enough
    exact absurd enough (Nat.not_lt_zero _)
  | succ depth ih =>
    intro otherDepth i live enough otherEnough
    cases otherDepth with
    | zero => exact absurd otherEnough (Nat.not_lt_zero _)
    | succ otherDepth =>
      rw [tree]
      congr 1
      apply List.map_congr_left
      intro b mem
      have present := (Node.mem_childBytes _ _).mp mem
      have smaller := falls i b live present
      exact ih otherDepth _ (linked.child live present).1 (by omega) (by omega)

theorem Linked.height_falls (linked : s.Linked path) (i : Nat)
    (b : UInt8) (live : s.Live i) (present : (s.node i).children b ≠ 0) :
    s.nodes.length - 1 - s.depthRank path ((s.node i).children b) <
      s.nodes.length - 1 - s.depthRank path i := by
  have deeper := linked.depthRank_child live present
  have bound : s.depthRank path ((s.node i).children b) < s.nodes.length :=
    depthRank_lt (linked.child live present).1
  omega

theorem tree_eq_wholeTree (linked : s.Linked path) {depth : Nat} (enough : s.nodes.length ≤ depth) :
    s.tree depth 0 = s.wholeTree := by
  have pos := linked.rootLive.1
  exact tree_eq_of_measure linked (fun i => s.nodes.length - 1 - s.depthRank path i)
      linked.height_falls _ _ 0 linked.rootLive (by omega) (by omega)

theorem rootHash_wholeTree (linked : s.Linked path) (fresh : s.AllFresh H) :
    s.wholeTree.rootHash H = s.getNodeHash [] := by
  have pos := linked.rootLive.1
  exact rootHash_tree linked fresh (fun i => s.nodes.length - 1 - s.depthRank path i)
      linked.height_falls (by omega)

end StateImpl

end AutomatonCore.State
