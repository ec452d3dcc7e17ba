import AutomatonCore.State.Canonical

/-!
# What the root hash commits to
-/

namespace AutomatonCore.State

open Io Library.RadixGraph List

namespace RadixTree

mutual

/-- A node is hashed as its value, its prefix and the hashes of its children,
one after the other and without lengths. -/
def inputs (hasher : HashTransformation) : RadixTree → List Bytes
  | .node prefixBytes value children =>
    (value ++ prefixBytes ++ hashAll hasher children) :: inputsAll hasher children

def inputsAll (hasher : HashTransformation) : List RadixTree → List Bytes
  | [] => []
  | tree :: trees => inputs hasher tree ++ inputsAll hasher trees

end

mutual

/-- Corresponding nodes have values of the same length and equally many
children. -/
def sameOutline : RadixTree → RadixTree → Bool
  | .node _ value children, .node _ otherValue otherChildren =>
    value.length = otherValue.length ∧ sameOutlines children otherChildren

def sameOutlines : List RadixTree → List RadixTree → Bool
  | [], [] => true
  | tree :: trees, other :: others => sameOutline tree other ∧ sameOutlines trees others
  | _, _ => false

end

mutual

theorem sameOutline_refl : ∀ tree : RadixTree, sameOutline tree tree = true
  | .node _ _ children => by
    simp [sameOutline, sameOutlines_refl children]

theorem sameOutlines_refl : ∀ trees : List RadixTree, sameOutlines trees trees = true
  | [] => rfl
  | tree :: trees => by
    simp [sameOutlines, sameOutline_refl tree, sameOutlines_refl trees]

end

variable {H : HashTransformation}

theorem hash_length (tree : RadixTree) : (tree.hash H).length = H.digestSize := by
  cases tree
  exact H.digest_length _

theorem hashAll_length_eq (H : HashTransformation)
    {trees others : List RadixTree} (outlines : sameOutlines trees others = true) :
    (hashAll H trees).length = (hashAll H others).length := by
  induction trees generalizing others with
  | nil =>
    cases others with
    | nil => rfl
    | cons other others => simp [sameOutlines] at outlines
  | cons tree trees ih =>
    cases others with
    | nil => simp [sameOutlines] at outlines
    | cons other others =>
      simp only [sameOutlines, decide_eq_true_eq] at outlines
      simp only [hashAll, length_append, hash_length, ih outlines.2]

variable {fed : Bytes → Prop}

mutual

theorem eq_of_hash (injective :
      ∀ first second, fed first → fed second → H.digest first = H.digest second → first = second) :
    ∀ tree other : RadixTree, (∀ input ∈ tree.inputs H, fed input) →
      (∀ input ∈ other.inputs H, fed input) → sameOutline tree other = true →
      tree.hash H = other.hash H → tree = other
  | .node prefixBytes v children, .node otherPrefix otherValue otherChildren => by
    intro treeFed otherFed outline sameHash
    simp only [sameOutline, decide_eq_true_eq] at outline
    simp only [inputs, forall_mem_cons] at treeFed otherFed
    have sameInput := injective _ _ treeFed.1 otherFed.1 (by simpa [hash] using sameHash)
    have belowLength := hashAll_length_eq H outline.2
    obtain ⟨sameFront, sameBelow⟩ := append_inj' sameInput belowLength
    obtain ⟨rfl, rfl⟩ := append_inj sameFront outline.1
    rw [eq_of_hashAll injective children otherChildren treeFed.2 otherFed.2 outline.2 sameBelow]

theorem eq_of_hashAll (injective :
      ∀ first second, fed first → fed second → H.digest first = H.digest second → first = second) :
    ∀ trees others : List RadixTree, (∀ input ∈ inputsAll H trees, fed input) →
      (∀ input ∈ inputsAll H others, fed input) → sameOutlines trees others = true →
      hashAll H trees = hashAll H others → trees = others
  | [], [] => by
    intros
    rfl
  | [], _ :: _ => by
    intro _ _ outlines
    simp [sameOutlines] at outlines
  | _ :: _, [] => by
    intro _ _ outlines
    simp [sameOutlines] at outlines
  | tree :: trees, other :: others => by
    intro treesFed othersFed outlines sameHashes
    simp only [sameOutlines, decide_eq_true_eq] at outlines
    simp only [inputsAll, forall_mem_append] at treesFed othersFed
    simp only [hashAll] at sameHashes
    obtain ⟨sameHash, sameRest⟩ := append_inj sameHashes (by rw [hash_length, hash_length])
    rw [eq_of_hash injective tree other treesFed.1 othersFed.1 outlines.1 sameHash,
      eq_of_hashAll injective trees others treesFed.2 othersFed.2 outlines.2 sameRest]

end

/-- Trees with the same root hash are the same if the boundaries between these
parts are at the same places. -/
theorem eq_of_rootHash (injective :
      ∀ first second, fed first → fed second → H.digest first = H.digest second → first = second)
    {prefixBytes otherPrefix v otherValue : Bytes}
    {children otherChildren : List RadixTree}
    (treeFed : ∀ input ∈ (node prefixBytes v children).inputs H, fed input)
    (otherFed : ∀ input ∈ (node otherPrefix otherValue otherChildren).inputs H, fed input)
    (outline :
      sameOutline (node prefixBytes v children) (node otherPrefix otherValue otherChildren) = true)
    (hasChild : children ≠ [])
    (sameHash : (node prefixBytes v children).rootHash H =
        (node otherPrefix otherValue otherChildren).rootHash H) :
    node prefixBytes v children = node otherPrefix otherValue otherChildren := by
  have otherChild : otherChildren ≠ [] := by
    rintro rfl
    cases children with
    | nil => exact hasChild rfl
    | cons => simp [sameOutline, sameOutlines] at outline
  apply eq_of_hash injective _ _ treeFed otherFed outline
  simpa [rootHash, hasChild, otherChild] using sameHash

end RadixTree

namespace StateImpl

variable {left right : StateImpl} {leftPath rightPath : Nat → Bytes}

theorem exists_of_tree_eq (leftLinked : left.Linked leftPath)
    (rightLinked : right.Linked rightPath) :
    ∀ (depth otherDepth i other lower : Nat), left.Live i →
      right.Live other →
      leftPath i = rightPath other →
      left.tree depth i = right.tree otherDepth other →
      left.nodes.length ≤ depth + left.depthRank leftPath i →
      left.Live lower →
      Above left.graph i lower →
      ∃ found, right.Live found ∧ rightPath found = leftPath lower ∧
          (right.node found).value = (left.node lower).value := by
  intro depth
  induction depth with
  | zero =>
    intro _ i _ _ live _ _ _ enough
    have bound : left.depthRank leftPath i < _ := depthRank_lt live
    omega
  | succ depth ih =>
    intro otherDepth i other lower live otherLive samePath sameTree enough lowerLive above
    have sameValue : (left.node i).value = (right.node other).value := by
      cases otherDepth <;> exact (RadixTree.node.inj sameTree).2.1
    by_cases here : i = lower
    · subst here
      exact ⟨other, otherLive, samePath.symm, sameValue.symm⟩
    · obtain ⟨b, next, link, nextAbove⟩ := leftLinked.radix.child_toward above lowerLive here
      obtain ⟨childShape, present⟩ := childAt_eq_some.mp link
      subst childShape
      obtain ⟨nextLive, _, rest, nextLabel, nextPath⟩ := leftLinked.child live present
      have deeper := leftLinked.depthRank_child live present
      have mem :
          left.tree depth ((left.node i).children b) ∈ (left.node i).childBytes.map fun b =>
              left.tree depth ((left.node i).children b) :=
        mem_map_of_mem ((Node.mem_childBytes _ _).mpr present)
      cases otherDepth with
      | zero =>
        rw [(RadixTree.node.inj sameTree).2.2] at mem
        cases mem
      | succ otherDepth =>
        rw [(RadixTree.node.inj sameTree).2.2, mem_map] at mem
        obtain ⟨otherByte, otherMember, otherTree⟩ := mem
        have otherPresent := (Node.mem_childBytes _ _).mp otherMember
        obtain ⟨otherNextLive, _, otherRest, otherLabel, otherNextPath⟩ :=
          rightLinked.child otherLive otherPresent
        have sameLabel : (right.node ((right.node other).children otherByte)).prefixBytes =
              (left.node ((left.node i).children b)).prefixBytes := by
          cases depth <;> cases otherDepth <;>
            exact (RadixTree.node.inj otherTree).1
        refine ih otherDepth _ _ lower nextLive otherNextLive ?_ otherTree.symm (by omega) lowerLive
            nextAbove
        rw [nextPath, otherNextPath, samePath, ← nextLabel, ← otherLabel, sameLabel]

theorem holds_of_wholeTree_eq (leftLinked : left.Linked leftPath)
    (rightLinked : right.Linked rightPath)
    (sameTree : left.wholeTree = right.wholeTree) {k v : Bytes} (held : left.Holds leftPath k v) :
    right.Holds rightPath k v := by
  obtain ⟨ne, lower, lowerLive, rfl, rfl⟩ := held
  obtain ⟨found, foundLive, samePath, sameValue⟩ :=
    exists_of_tree_eq leftLinked rightLinked _ _ 0 0 lower leftLinked.rootLive rightLinked.rootLive
      (leftLinked.rootPath.trans rightLinked.rootPath.symm) sameTree
      (Nat.le_add_right _ _) lowerLive (leftLinked.radix.root_above lowerLive)
  exact ⟨ne, found, foundLive, samePath, sameValue⟩

theorem wholeTree_eq_of_represents {contents : Contents} (leftFormed : left.WellFormed leftPath)
    (rightFormed : right.WellFormed rightPath) (leftRepresents : left.Represents leftPath contents)
    (rightRepresents : right.Represents rightPath contents) : left.wholeTree = right.wholeTree := by
  have leftLinked := leftFormed.linked
  have rightLinked := rightFormed.linked
  have leftTree :=
    tree_eq_canonicalNode leftFormed leftRepresents
      (left.nodes.length + right.nodes.length) 0 [] leftLinked.rootLive
      (by simp [leftLinked.rootPath, leftLinked.rootPrefix])
  have rightTree :=
    tree_eq_canonicalNode rightFormed rightRepresents
      (left.nodes.length + right.nodes.length) 0 [] rightLinked.rootLive
      (by simp [rightLinked.rootPath, rightLinked.rootPrefix])
  rw [← tree_eq_wholeTree leftLinked (Nat.le_add_right _ _),
    ← tree_eq_wholeTree rightLinked (Nat.le_add_left _ _), leftTree,
    rightTree, leftLinked.rootPath, rightLinked.rootPath]

theorem Linked.root_child {s : StateImpl} {path : Nat → Bytes}
    (linked : s.Linked path) {k : Bytes} (nonempty : k ≠ [])
    (present : s.get k ≠ []) : (s.node 0).childBytes ≠ [] := by
  obtain ⟨i, _, _, live, rfl⟩ := node_of_present linked present
  have ne : (0 : Nat) ≠ i := by
    rintro rfl
    exact nonempty linked.rootPath
  obtain ⟨b, next, link, _⟩ := linked.radix.child_toward (linked.radix.root_above live) live ne
  obtain ⟨childShape, nonzero⟩ := childAt_eq_some.mp link
  intro noChild
  have mem := (Node.mem_childBytes (s.node 0) b).mpr (by
    intro absent
    exact nonzero (childShape.symm.trans absent))
  rw [noChild] at mem
  cases mem

/-- Two states with the same root hash hold the same map exactly if the
boundaries between values, prefixes and child hashes are at the same places
in both trees, provided that a nonempty key is set. -/
theorem rootHash_commits (H : HashTransformation) (left right : List Request)
    (leftSafe : create.SafeRun H left) (rightSafe : create.SafeRun H right)
    (injective :
      ∀ first ∈ (create.run H left).wholeTree.inputs H ++ (create.run H right).wholeTree.inputs H,
      ∀ second ∈ (create.run H left).wholeTree.inputs H ++ (create.run H right).wholeTree.inputs H,
        H.digest first = H.digest second → first = second)
    (someKey : ∃ k, k ≠ [] ∧ (create.run H left).get k ≠ [])
    (sameHash : (create.run H left).getNodeHash [] = (create.run H right).getNodeHash []) :
    (∀ k, (create.run H left).get k = (create.run H right).get k) ↔
      (create.run H left).wholeTree.sameOutline (create.run H right).wholeTree = true := by
  obtain ⟨leftPath, leftFormed, leftRepresents⟩ :=
    run_simulates H left leftSafe create_wellFormed create_represents
  obtain ⟨rightPath, rightFormed, rightRepresents⟩ :=
    run_simulates H right rightSafe create_wellFormed create_represents
  obtain ⟨_, _, leftAdvances⟩ := run_spec H left leftSafe create_wellFormed
  obtain ⟨_, _, rightAdvances⟩ := run_spec H right rightSafe create_wellFormed
  have leftFresh := leftAdvances.fresh (create_fresh H)
  have rightFresh := rightAdvances.fresh (create_fresh H)
  have leftLinked := leftFormed.linked
  have rightLinked := rightFormed.linked
  generalize create.run H left = first at *
  generalize create.run H right = second at *
  constructor
  · intro sameMap
    have secondRepresents : second.Represents rightPath ((∅ : Contents).run left) := by
      intro k v
      rw [← leftRepresents]
      constructor
      · intro held
        have read := (get_eq_iff rightLinked k held.1).mpr held
        rw [← sameMap] at read
        exact (get_eq_iff leftLinked k held.1).mp read
      · intro held
        have read := (get_eq_iff leftLinked k held.1).mpr held
        rw [sameMap] at read
        exact (get_eq_iff rightLinked k held.1).mp read
    rw [wholeTree_eq_of_represents leftFormed rightFormed leftRepresents secondRepresents]
    exact RadixTree.sameOutline_refl _
  · intro outline
    rw [← rootHash_wholeTree leftLinked leftFresh,
      ← rootHash_wholeTree rightLinked rightFresh] at sameHash
    have sameTree : first.wholeTree = second.wholeTree := by
      obtain ⟨used, ne, present⟩ := someKey
      have hasChild := leftLinked.root_child ne present
      obtain ⟨firstDepth, firstShape⟩ := Nat.exists_eq_add_of_lt leftLinked.rootLive.1
      obtain ⟨secondDepth, secondShape⟩ := Nat.exists_eq_add_of_lt rightLinked.rootLive.1
      simp only [wholeTree, firstShape, secondShape] at *
      exact RadixTree.eq_of_rootHash (fun one two oneFed twoFed => injective one oneFed two twoFed)
          (fun input mem => mem_append_left _ mem) (fun input mem => mem_append_right _ mem)
          outline (by simpa using hasChild) sameHash
    intro k
    apply get_eq_get leftLinked rightLinked
    intro v
    exact ⟨holds_of_wholeTree_eq leftLinked rightLinked sameTree,
        holds_of_wholeTree_eq rightLinked leftLinked sameTree.symm⟩

theorem rootHash_commits_any_order :
    let left :=
      create.run checksum [.set (text "a") (text "1"), .set (text "b") (text "2")]
    let right :=
      create.run checksum [.set (text "b") (text "2"), .set (text "a") (text "1")]
    left.wholeTree.sameOutline right.wholeTree = true ∧ ∀ k, left.get k = right.get k := by
  have outline : (create.run checksum
          [.set (text "a") (text "1"), .set (text "b") (text "2")]).wholeTree.sameOutline
        (create.run checksum
          [.set (text "b") (text "2"), .set (text "a") (text "1")]).wholeTree = true := by
    decide +kernel
  exact ⟨outline,
    (rootHash_commits checksum [.set (text "a") (text "1"), .set (text "b") (text "2")]
      [.set (text "b") (text "2"), .set (text "a") (text "1")]
      (safeRun_of_keys checksum (by decide))
      (safeRun_of_keys checksum (by decide)) (by decide +kernel)
      ⟨text "a", by decide, by decide +kernel⟩ (by decide +kernel)).mpr outline⟩

def byteCount : HashTransformation where
  digestSize := 1
  digest message := [UInt8.ofNat message.length]
  digest_length _ := rfl

/-- A byte moved from the prefix to the value does not show in the hash,
although no two different strings with one digest are fed to the hasher. -/
theorem rootHash_collision :
    let left :=
      create.run byteCount [.set (text "ab") (text "x")]
    let right :=
      create.run byteCount [.set (text "b") (text "xa")]
    (∀ first ∈ left.wholeTree.inputs byteCount ++ right.wholeTree.inputs byteCount, ∀ second ∈
        left.wholeTree.inputs byteCount ++ right.wholeTree.inputs byteCount,
        byteCount.digest first = byteCount.digest second →
          first = second) ∧
      left.getNodeHash [] = right.getNodeHash [] ∧
        left.get (text "ab") ≠ right.get (text "ab") := by
  decide +kernel

end StateImpl

end AutomatonCore.State
