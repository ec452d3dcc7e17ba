import AutomatonCore.State.Histories

/-!
# The empty key

The root stands for the empty key: it has no prefix and is its own parent.
`erase` and `delete_node_tree` treat it like any other node.
-/

namespace AutomatonCore.State

open Io Library List

namespace StateImpl

variable {H : HashTransformation} {s before middle after : StateImpl}
  {path : Nat → Bytes} {k : Bytes}

/-! ## The links of the root -/

/-- The links of the root, except for the one at the first byte of the key. -/
def RootLinksKept (key : Bytes) (before after : StateImpl) : Prop :=
  ∀ byte, key.head? ≠ some byte → (after.node 0).children byte = (before.node 0).children byte

theorem RootLinksKept.trans (first : RootLinksKept k before middle)
    (second : RootLinksKept k middle after) : RootLinksKept k before after :=
  fun b other => (second b other).trans (first b other)

theorem SameLinks.rootLinksKept (same : SameLinks before after) : RootLinksKept k before after :=
  fun b _ => congrFun (same.children 0) b

variable {a first : UInt8} {rest initial more : Bytes} {lower gone : Nat} {req : Request}
  {newPath : Nat → Bytes}

variable {target fresh cur : Nat} {v : Bytes}

theorem rootLinksKept_of_link (linked : before.Linked path)
    {upper : Nat} (place : k = path upper ++ a :: rest)
    (upperNode : after.node upper = (before.node upper).setChild a target)
    (otherwise : 0 ≠ upper → after.node 0 = before.node 0) : RootLinksKept k before after := by
  intro b other
  by_cases isRoot : 0 = upper
  · subst isRoot
    have ne : b ≠ a := by
      rintro rfl
      rw [place, linked.rootPath] at other
      exact other rfl
    rw [upperNode, Node.setChild_children, if_neg ne]
  · rw [otherwise isRoot]

theorem Attached.rootLinksKept {base : Nat} (attached : Attached before after base a rest fresh)
    (linked : before.Linked path) (place : k = path base ++ a :: rest) :
    RootLinksKept k before after :=
  rootLinksKept_of_link linked place attached.baseNode fun notBase =>
    attached.otherNode 0 attached.notRoot.symm notBase

theorem Divided.rootLinksKept (divided : Divided before after lower first initial a rest fresh)
    (linked : before.Linked path) (notRoot : lower ≠ 0)
    (place : k = path (before.node lower).parent ++ first :: more) : RootLinksKept k before after :=
  rootLinksKept_of_link linked place divided.upperNode fun notUpper =>
    divided.otherNode 0 divided.notRoot.symm notRoot.symm notUpper

theorem Merged.rootLinksKept (merged : Merged before after gone first initial lower)
    (linked : before.Linked path) (notRoot : lower ≠ 0)
    (place : k = path (before.node gone).parent ++ first :: more) : RootLinksKept k before after :=
  rootLinksKept_of_link linked place merged.upperNode fun notUpper =>
    merged.otherNode 0 notRoot.symm notUpper

theorem Pruned.rootLinksKept (pruned : Pruned before after gone first) (linked : before.Linked path)
    (place : k = path (before.node gone).parent ++ first :: more) : RootLinksKept k before after :=
  rootLinksKept_of_link linked place pruned.upperNode fun notUpper => pruned.otherNode 0 notUpper

theorem storeValue_rootLinks (run : s.storeValue H cur v = .ok after) :
    (after.node 0).children = (s.node 0).children := by
  rw [(calculateHash_same run).children, (updateValue_sameLinks _ cur v).children, backupNodes_node]

theorem splitNode_rootLinks (linked : s.Linked path) {split : Nat}
    (live : s.Live lower) (notRoot : lower ≠ 0)
    {tail : Bytes} (label : (s.node lower).prefixBytes = (first :: initial) ++ a :: tail)
    (place : k = path (s.node lower).parent ++ first :: more)
    (run : s.splitNode H lower (first :: initial).length = .ok (after, split)) :
    RootLinksKept k s after := by
  have divided := divideNode_spec linked live notRoot label
  unfold splitNode at run
  dsimp only at run
  obtain ⟨hashed, hashing, run⟩ := bind_eq_ok_iff.mp run
  cases run
  exact (divided.rootLinksKept linked notRoot place).trans
      (calculateHash_same hashing).toSameLinks.rootLinksKept

theorem Linked.below_of_path (linked : s.Linked path) (live : s.Live lower) (notRoot : lower ≠ 0)
    (label : (s.node lower).prefixBytes = first :: initial) (targetLive : s.Live target)
    (place : path target = path (s.node lower).parent ++ first :: more) :
    first :: initial <+: first :: more := by
  obtain ⟨upperLive, lowerPath, -⟩ := linked.parent live notRoot
  obtain ⟨child, link, above⟩ := linked.radix.child_of_path upperLive targetLive place
  have isLower : child = lower := by
    rw [← (childAt_eq_some.mp link).1]
    exact linked.child_parent live notRoot label
  rw [isLower] at above
  have below := linked.radix.above_path above targetLive
  rw [lowerPath, label, place] at below
  exact (prefix_append_right_inj _).mp below

theorem set_rootLinks (wf : s.WellFormed path) (k : Bytes)
    (nonempty : v ≠ []) (run : s.set H k v = .ok after) :
    RootLinksKept k s after ∧ (s.get k ≠ [] → (after.node 0).children = (s.node 0).children) := by
  have linked := wf.linked
  have plan : SetPlan H s path k v (s.set H k v) := set_plan linked wf.compact k nonempty
  rw [run] at plan
  generalize result : (Except.ok after : Except Fault StateImpl) = outcome at plan
  cases plan with
  | overwrite cur =>
    have same := storeValue_rootLinks result.symm
    exact ⟨fun b _ => congrFun same b, fun _ => same⟩
  | attach base a rest live vacant place =>
    have saved := backupNodes_sameLinks s base
    have attached :=
      attachLeaf_spec a rest (saved.linked linked).rootLive
        (saved.linked linked).freeBound ((saved.live base).mpr live)
    have stored := storeValue_rootLinks result.symm
    constructor
    · exact (saved.rootLinksKept.trans
          (attached.rootLinksKept (saved.linked linked) place)).trans fun b _ => congrFun stored b
    · intro present
      obtain ⟨target, _, _, targetLive, targetPath⟩ := node_of_present linked present
      obtain ⟨child, link, _⟩ := linked.radix.child_of_path live targetLive (targetPath.trans place)
      obtain ⟨childShape, nonzero⟩ := childAt_eq_some.mp link
      exact absurd (childShape.symm.trans vacant) nonzero
  | branch lower first initial a tail other rest live notRoot label ne place =>
    rw [append_assoc] at place
    obtain ⟨divided, splitting, result⟩ := bind_eq_ok_iff.mp result.symm
    have stored := storeValue_rootLinks result
    obtain ⟨halved, newPath, fresh, splitRun, shape⟩ := splitNode_spec H wf live notRoot label
    rw [splitting] at splitRun
    cases splitRun
    have attached :=
      attachLeaf_spec other rest shape.linked.rootLive shape.linked.freeBound shape.live
    have below := attached.otherNode 0 attached.notRoot.symm shape.notRoot.symm
    constructor
    · intro b elsewhere
      rw [stored, below]
      exact splitNode_rootLinks linked live notRoot label place splitting b elsewhere
    · intro present
      obtain ⟨target, _, _, targetLive, targetPath⟩ := node_of_present linked present
      have runsOn : (first :: initial) ++ a :: tail <+: (first :: initial) ++ other :: rest :=
        linked.below_of_path live notRoot label targetLive (targetPath.trans place)
      have same := (cons_prefix_cons.mp ((prefix_append_right_inj _).mp runsOn)).1
      exact absurd same.symm ne
  | inside lower first initial a tail live notRoot label place =>
    obtain ⟨divided, splitting, result⟩ := bind_eq_ok_iff.mp result.symm
    have stored := storeValue_rootLinks result
    constructor
    · intro b elsewhere
      rw [stored]
      exact splitNode_rootLinks linked live notRoot label place splitting b elsewhere
    · intro present
      obtain ⟨target, _, _, targetLive, targetPath⟩ := node_of_present linked present
      have runsOn : (first :: initial) ++ a :: tail <+:
            first :: initial :=
        linked.below_of_path live notRoot label targetLive (targetPath.trans place)
      have tooLong := runsOn.length_le
      simp only [length_append, length_cons] at tooLong
      omega

theorem unlinkNode_rootLinks {marked : StateImpl} {next : Nat} (linked : before.Linked path)
    (live : before.Live gone) (notRoot : gone ≠ 0)
    (label : (before.node gone).prefixBytes = first :: initial)
    (sameParent : (marked.node gone).parent = (before.node gone).parent)
    (pruned : Pruned before (marked.cutNode gone) gone first)
    (run : (marked.unlinkNode gone).1.calculateHash H next = .ok after) :
    RootLinksKept (path gone) before after := by
  obtain ⟨upperLive, gonePath, -⟩ := linked.parent live notRoot
  rw [label] at gonePath
  have cutLinked := pruned.linked linked live notRoot label
  have upperKept := pruned.upperKept linked live notRoot
  have cut := pruned.rootLinksKept linked gonePath
  refine RootLinksKept.trans ?_ (calculateHash_same run).toSameLinks.rootLinksKept
  unfold unlinkNode
  rw [sameParent]
  dsimp only
  split
  next merges =>
    obtain ⟨_, one, upperNotRoot⟩ := merges
    obtain ⟨present, _⟩ := only_child_of_length one
    obtain ⟨_, upperPath, b, rest, upperLabel, _⟩ := cutLinked.parent upperKept upperNotRoot
    obtain ⟨merged, _⟩ := mergeWithChild_spec cutLinked upperKept upperNotRoot upperLabel present
    rw [upperLabel] at upperPath
    rw [upperPath, append_assoc] at gonePath
    exact cut.trans (merged.rootLinksKept cutLinked present gonePath)
  · exact cut

theorem erase_rootLinks (wf : s.WellFormed path) (safe : s.EraseSafe k)
    (run : s.erase H k = .ok after) : RootLinksKept k s after := by
  have present : s.get k ≠ [] := by
    intro absent
    rw [erase_absent absent] at run
    cases run
  obtain ⟨cur, found, hasValue, live, rfl⟩ := node_of_present wf.linked present
  have saved := backupNodes_sameLinks s cur
  have savedFormed := backupNodes_wellFormed wf cur
  have savedLive := (saved.live cur).mpr live
  have savedKept : RootLinksKept (path cur) s (s.backupNodes cur) := saved.rootLinksKept
  unfold erase at run
  rw [found] at run
  dsimp only at run
  rw [if_neg hasValue, backupNodes_node] at run
  match bytes : (s.node cur).childBytes with
  | [] =>
    rw [bytes] at run
    have leaf : ∀ b, (s.node cur).children b = 0 := by
      intro b
      by_contra child
      have mem := ((s.node cur).mem_childBytes b).mpr child
      rw [bytes] at mem
      cases mem
    have notRoot : cur ≠ 0 := by
      rintro rfl
      obtain ⟨first, _, _, child, _⟩ := safe wf.linked.rootPath present
      exact child (leaf first)
    obtain ⟨_, _, first, initial, label, _⟩ := savedFormed.linked.parent savedLive notRoot
    have pruned := cutNode_leaf savedFormed.linked savedLive notRoot label (by simpa using leaf)
    exact savedKept.trans
        (unlinkNode_rootLinks savedFormed.linked savedLive notRoot label rfl pruned run)
  | [b] =>
    rw [bytes] at run
    have notRoot : cur ≠ 0 := by
      rintro rfl
      obtain ⟨first, second, ne, one, two⟩ := safe wf.linked.rootPath present
      have firstMember := ((s.node 0).mem_childBytes first).mpr one
      have secondMember := ((s.node 0).mem_childBytes second).mpr two
      rw [bytes, mem_singleton] at firstMember secondMember
      exact ne (firstMember.trans secondMember.symm)
    have child : (s.node cur).children b ≠ 0 := by
      have mem : b ∈ (s.node cur).childBytes := by
        rw [bytes]
        exact mem_singleton_self b
      exact ((s.node cur).mem_childBytes b).mp mem
    obtain ⟨_, place, first, initial, label, _⟩ := savedFormed.linked.parent savedLive notRoot
    rw [label] at place
    have savedChild : ((s.backupNodes cur).node cur).children b ≠ 0 := by
      rw [backupNodes_node]
      exact child
    obtain ⟨merged, _⟩ := mergeWithChild_spec savedFormed.linked savedLive notRoot label savedChild
    exact (savedKept.trans (merged.rootLinksKept savedFormed.linked savedChild place)).trans
          (calculateHash_same run).toSameLinks.rootLinksKept
  | _ :: _ :: _ =>
    rw [bytes] at run
    have cleared := updateValue_sameLinks (s.backupNodes cur) cur []
    exact (savedKept.trans cleared.rootLinksKept).trans
        (calculateHash_same run).toSameLinks.rootLinksKept

theorem deleteNodeTree_rootLinks (wf : s.WellFormed path) (ne : k ≠ [])
    (run : s.deleteNodeTree H k = .ok after) : RootLinksKept k s after := by
  have present : s.get k ≠ [] := by
    intro absent
    rw [deleteNodeTree_absent absent] at run
    cases run
  obtain ⟨cur, found, hasValue, live, rfl⟩ := node_of_present wf.linked present
  have notRoot : cur ≠ 0 := by
    rintro rfl
    exact ne wf.linked.rootPath
  unfold deleteNodeTree at run
  rw [found] at run
  dsimp only at run
  rw [if_neg hasValue] at run
  generalize (s.node cur).parent = upper at run
  have saved := backupNodes_sameLinks s upper
  have savedFormed := backupNodes_wellFormed wf upper
  have savedLive := (saved.live cur).mpr live
  obtain ⟨_, _, first, initial, label, _⟩ := savedFormed.linked.parent savedLive notRoot
  obtain ⟨marked, markRun, result⟩ := subtrieMarkFree_spec savedFormed.linked savedLive
  have pruned := result.cutNode savedFormed.linked savedLive notRoot label
  have sameParent : (marked.node cur).parent = ((s.backupNodes upper).node cur).parent := by
    simp [node, result.nodes]
  rw [markRun] at run
  exact saved.rootLinksKept.trans
      (unlinkNode_rootLinks savedFormed.linked savedLive notRoot label sameParent pruned run)

/-! ## Taking the root away -/

theorem calculateHash_root (H : HashTransformation) (s : StateImpl) (rooted : 0 < s.nodes.length) :
    ∃ after, s.calculateHash H 0 = .ok after := by
  obtain ⟨calls, enough⟩ := Nat.exists_eq_succ_of_ne_zero rooted.ne'
  rw [calculateHash, enough, calculateHashFrom]
  split
  · exact ⟨_, rfl⟩
  · exact ⟨_, rfl⟩

theorem calculateHash_below_root (H : HashTransformation) (s : StateImpl)
    (parent : (s.node cur).parent = 0) (enough : 1 < s.nodes.length) :
    ∃ after, s.calculateHash H cur = .ok after := by
  obtain ⟨calls, length⟩ := Nat.exists_eq_add_of_le' enough
  rw [calculateHash, length, calculateHashFrom]
  split
  · exact ⟨_, rfl⟩
  · generalize digest : H.digest (s.hashInput cur) = hash
    have sameParent : ((s.setHash cur hash).node cur).parent = 0 := by
      rw [(setHash_same s cur hash).parent, parent]
    dsimp only
    rw [sameParent]
    split
    · rw [calculateHashFrom]
      split
      · exact ⟨_, rfl⟩
      · exact ⟨_, rfl⟩
    · exact ⟨_, rfl⟩

theorem unlinkNode_root (rootParent : (s.node 0).parent = 0) :
    (s.unlinkNode 0).2 = 0 ∧ 0 ∈ (s.unlinkNode 0).1.freeLocations ∧
      (s.unlinkNode 0).1.nodes.length = s.nodes.length := by
  unfold unlinkNode
  rw [rootParent]
  rw [if_neg fun merges => merges.2.2 rfl]
  refine ⟨rfl, ?_, ?_⟩
  · simp [cutNode]
  · simp [cutNode]

theorem mergeWithChild_root (rootParent : (s.node 0).parent = 0)
    {b : UInt8} (bound : (s.node 0).children b < s.nodes.length) :
    0 ∈ (s.mergeWithChild 0 b).1.freeLocations ∧
      (s.mergeWithChild 0 b).1.nodes.length = s.nodes.length ∧
      ((s.mergeWithChild 0 b).1.node (s.mergeWithChild 0 b).2).parent = 0 := by
  unfold mergeWithChild
  rw [rootParent]
  refine ⟨?_, ?_, ?_⟩
  · simp
  · simp
  · rw [markFree_node, node_update_self (by simpa using bound)]

/-- Where `erase` takes the root itself away, its index becomes free and its
value stays. -/
theorem erase_root_frees (H : HashTransformation)
    (wf : s.WellFormed path) (notSafe : ¬ s.EraseSafe []) :
    ∃ after, s.erase H [] = .ok after ∧ 0 ∈ after.freeLocations := by
  have linked := wf.linked
  unfold EraseSafe at notSafe
  push Not at notSafe
  obtain ⟨-, present, few⟩ := notSafe
  have found : s.getNodeIndex [] = some 0 :=
    (getNodeIndex_eq_some linked [] 0).mpr ⟨linked.rootLive, linked.rootPath⟩
  have hasValue : (s.node 0).value ≠ [] := by exact present
  have length : (s.backupNodes 0).nodes.length = s.nodes.length := by rw [backupNodes_nodes]
  have rootParent : ((s.backupNodes 0).node 0).parent = 0 := by
    rw [backupNodes_node, linked.rootParent]
  have meaning := (s.node 0).mem_childBytes
  have distinct := (s.node 0).childBytes_nodup
  unfold erase
  rw [found]
  dsimp only
  rw [if_neg hasValue, backupNodes_node]
  rcases bytes : (s.node 0).childBytes with
    _ | ⟨first, _ | ⟨second, rest⟩⟩
  · obtain ⟨next, free, unlinkedLength⟩ := unlinkNode_root rootParent
    rw [next]
    obtain ⟨after, run⟩ :=
      calculateHash_root H ((s.backupNodes 0).unlinkNode 0).1
        (by rw [unlinkedLength, length]; exact linked.rootLive.1)
    refine ⟨after, run, ?_⟩
    rw [(calculateHash_same run).freeLocations]
    exact free
  · have child : (s.node 0).children first ≠ 0 :=
      (meaning first).mp (by rw [bytes]; exact mem_singleton_self _)
    have childLive := (linked.child linked.rootLive child).1
    have bound : ((s.backupNodes 0).node 0).children first < (s.backupNodes 0).nodes.length := by
      simpa using childLive.1
    obtain ⟨free, mergedLength, parent⟩ := mergeWithChild_root rootParent bound
    obtain ⟨after, run⟩ :=
      calculateHash_below_root H ((s.backupNodes 0).mergeWithChild 0 first).1 parent (by
          have bound := childLive.1
          omega)
    refine ⟨after, run, ?_⟩
    rw [(calculateHash_same run).freeLocations]
    exact free
  · rw [bytes] at meaning distinct
    have ne : first ≠ second := by
      rintro rfl
      simp at distinct
    exact absurd ((meaning second).mp (by simp))
        (not_not.mpr (few first second ne ((meaning first).mp (by simp))))

theorem deleteNodeTree_root_frees (H : HashTransformation)
    (wf : s.WellFormed path) (present : s.get [] ≠ []) :
    ∃ after, s.deleteNodeTree H [] = .ok after ∧ 0 ∈ after.freeLocations := by
  have linked := wf.linked
  have found : s.getNodeIndex [] = some 0 :=
    (getNodeIndex_eq_some linked [] 0).mpr ⟨linked.rootLive, linked.rootPath⟩
  have hasValue : (s.node 0).value ≠ [] := by exact present
  have saved := backupNodes_sameLinks s 0
  have savedLinked := saved.linked linked
  obtain ⟨marked, markRun, result⟩ := subtrieMarkFree_spec savedLinked savedLinked.rootLive
  have rootParent : (marked.node 0).parent = 0 := by
    rw [node, result.nodes]
    exact savedLinked.rootParent
  obtain ⟨next, free, length⟩ := unlinkNode_root rootParent
  obtain ⟨after, run⟩ :=
    calculateHash_root H (marked.unlinkNode 0).1
      (by rw [length, result.nodes]; exact savedLinked.rootLive.1)
  refine ⟨after, ?_, ?_⟩
  · unfold deleteNodeTree
    rw [found]
    dsimp only
    rw [if_neg hasValue, linked.rootParent, markRun]
    change (marked.unlinkNode 0).1.calculateHash H (marked.unlinkNode 0).2 = _
    rw [next, run]
  · rw [(calculateHash_same run).freeLocations]
    exact free

/-! ## Histories with the empty key -/

/-- The key has a value on one side only. -/
def AddedOrRemoved (before after : StateImpl) (key : Bytes) : Prop :=
  (before.get key = [] ∧ after.get key ≠ []) ∨ (before.get key ≠ [] ∧ after.get key = [])

/-- The call treats the empty key as an ordinary one: the root stays in use,
its links change only for keys that were added or removed, erasing the empty
key takes this key away, and deleting its tree takes all keys away. -/
structure Ordinary (hasher : HashTransformation) (state : StateImpl)
    (request : Request) : Prop where
  rootInUse : 0 ∉ (state.step hasher request).freeLocations
  rootLinks :
    ∀ byte, ((state.step hasher request).node 0).children byte ≠ (state.node 0).children byte →
        ∃ key, key.head? = some byte ∧ AddedOrRemoved state (state.step hasher request) key
  erased : request = .erase [] → ∀ after, state.erase hasher [] = .ok after → after.get [] = [] ∧
      ∀ key, key ≠ [] → after.get key = state.get key
  deleted : request = .deleteNodeTree [] → ∀ after, state.deleteNodeTree hasher [] = .ok after →
      ∀ key, after.get key = []

/-- Every call of a history treats the empty key as an ordinary one. -/
def OrdinaryRun (hasher : HashTransformation) : StateImpl → List Request → Prop
  | _, [] => True
  | state, request :: requests =>
    Ordinary hasher state request ∧ OrdinaryRun hasher (state.step hasher request) requests

theorem Ordinary.safe (wf : s.WellFormed path) (ordinary : Ordinary H s req) : s.Safe req := by
  have inUse := ordinary.rootInUse
  unfold step at inUse
  have erasing {k : Bytes} (here : s.apply H req = s.erase H k) : s.EraseSafe k := by
    by_contra notSafe
    have isEmpty : k = [] := by
      by_contra given
      exact notSafe fun empty => absurd empty given
    subst isEmpty
    obtain ⟨after, run, free⟩ := erase_root_frees H wf notSafe
    rw [here, run] at inUse
    exact inUse free
  cases req with
  | set k v =>
    intro empty
    apply erasing
    rw [apply, StateImpl.set, if_pos empty]
  | erase k => exact erasing rfl
  | deleteNodeTree k =>
    rintro rfl
    by_contra present
    obtain ⟨after, run, free⟩ := deleteNodeTree_root_frees H wf present
    rw [apply, run] at inUse
    exact inUse free

theorem Drops.get {gone : Bytes → Prop}
    (linked : before.Linked path) (afterLinked : after.Linked newPath)
    (drops : Drops (before.Holds path) gone (after.Holds newPath)) (k : Bytes) :
    (gone k → after.get k = []) ∧ (¬ gone k → after.get k = before.get k) := by
  constructor
  · intro isGone
    by_contra present
    have held := (get_eq_iff afterLinked k present).mp rfl
    exact ((drops k _).mp held).2 isGone
  · intro kept
    apply get_eq_get afterLinked linked
    intro v
    rw [drops]
    exact and_iff_left kept

theorem rootLinks_of_drops {gone : Bytes → Prop}
    (linked : before.Linked path) (afterLinked : after.Linked newPath)
    (drops : Drops (before.Holds path) gone (after.Holds newPath))
    (isGone : gone k) (present : before.get k ≠ [])
    (kept : RootLinksKept k before after) (b : UInt8)
    (changed : (after.node 0).children b ≠ (before.node 0).children b) :
    ∃ k, k.head? = some b ∧ AddedOrRemoved before after k := by
  refine ⟨k, ?_, .inr ⟨present, ?_⟩⟩
  · by_contra other
    exact changed (kept b other)
  · exact (drops.get linked afterLinked k).1 isGone

theorem rootLinks_of_effect (wf : s.WellFormed path) (safe : s.Safe req)
    (run : s.apply H req = .ok after) (present : req.removes → s.get req.key ≠ [])
    (afterFormed : after.WellFormed newPath)
    (effect : Effect (s.Holds path) (after.Holds newPath) req) (b : UInt8)
    (changed : (after.node 0).children b ≠ (s.node 0).children b) :
    ∃ k, k.head? = some b ∧ AddedOrRemoved s after k := by
  have linked := wf.linked
  cases req with
  | set k v =>
    by_cases empty : v = []
    · subst empty
      exact rootLinks_of_drops linked afterFormed.linked effect rfl
          (present rfl) (erase_rootLinks wf (safe rfl) run) b changed
    · rw [Effect, if_neg empty] at effect
      obtain ⟨kept, same⟩ := set_rootLinks wf k empty run
      have stored : after.get k = v :=
        (get_eq_iff afterFormed.linked k empty).mpr ((effect k v).mpr (.inl ⟨rfl, rfl⟩))
      refine ⟨k, ?_, .inl ⟨?_, ?_⟩⟩
      · by_contra other
        exact changed (kept b other)
      · by_contra old
        exact changed (congrFun (same old) b)
      · rw [stored]
        exact empty
  | erase k =>
    exact rootLinks_of_drops linked afterFormed.linked effect rfl
        (present trivial) (erase_rootLinks wf safe run) b changed
  | deleteNodeTree k =>
    have given : k ≠ [] := by
      rintro rfl
      exact present trivial (safe rfl)
    exact rootLinks_of_drops linked afterFormed.linked effect (prefix_refl k) (present trivial)
        (deleteNodeTree_rootLinks wf given run) b changed

theorem Safe.ordinary (H : HashTransformation) (wf : s.WellFormed path)
    (safe : s.Safe req) : Ordinary H s req := by
  have linked := wf.linked
  rcases apply_spec H wf safe with
    ⟨_, _, throws⟩ | ⟨present, after, newPath, run, afterFormed, effect, _⟩
  · have same : s.step H req = s := by rw [step, throws]
    constructor
    · rw [same]
      exact linked.rootLive.2
    · intro b changed
      rw [same] at changed
      exact absurd rfl changed
    · rintro rfl after run
      rw [apply, run] at throws
      cases throws
    · rintro rfl after run
      rw [apply, run] at throws
      cases throws
  · have same : s.step H req = after := by rw [step, run]
    constructor
    · rw [same]
      exact afterFormed.linked.rootLive.2
    · rw [same]
      exact rootLinks_of_effect wf safe run present afterFormed effect
    · rintro rfl other otherRun
      obtain rfl : after = other := Except.ok.inj (run.symm.trans otherRun)
      have drops : Drops (s.Holds path) (· = []) (after.Holds newPath) := effect
      exact ⟨(drops.get linked afterFormed.linked []).1 rfl, fun k =>
          (drops.get linked afterFormed.linked k).2⟩
    · rintro rfl
      exact absurd (safe rfl) (present trivial)

/-- The empty key is an ordinary key in a history exactly if every call is
safe: `erase` of the empty key, also by setting it to the empty string, finds
it without a value or the root with several children, and `delete_node_tree`
of the empty key finds it without a value. -/
theorem ordinaryRun_iff (H : HashTransformation) (requests : List Request) :
    OrdinaryRun H create requests ↔ create.SafeRun H requests := by
  have general : ∀ (s : StateImpl) (path : Nat → Bytes), s.WellFormed path →
        (OrdinaryRun H s requests ↔ s.SafeRun H requests) := by
    induction requests with
    | nil => exact fun _ _ _ => Iff.rfl
    | cons req requests ih =>
      intro s path wf
      constructor
      · rintro ⟨ordinary, rest⟩
        have safe := ordinary.safe wf
        obtain ⟨newPath, stepFormed, _⟩ := step_spec H wf safe
        exact ⟨safe, (ih _ newPath stepFormed).mp rest⟩
      · rintro ⟨safe, rest⟩
        obtain ⟨newPath, stepFormed, _⟩ := step_spec H wf safe
        exact ⟨safe.ordinary H wf, (ih _ newPath stepFormed).mpr rest⟩
  exact general create _ create_wellFormed

theorem erase_empty_frees_root :
    0 ∈ (create.run checksum [.set [] (text "v"), .erase []]).freeLocations ∧
      (create.run checksum [.set [] (text "v"), .erase []]).get [] = text "v" := by
  decide +kernel

end StateImpl

end AutomatonCore.State
