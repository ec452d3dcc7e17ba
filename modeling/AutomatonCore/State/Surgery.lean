import AutomatonCore.State.Arena

/-!
# Surgery on the node arena
-/

namespace AutomatonCore.State

open Io Library.RadixGraph List

namespace StateImpl

/-! ## Attaching a leaf -/

/-- A new leaf `fresh` hangs below `base` at `letter`. -/
structure Attached (before after : StateImpl) (base : Nat)
    (letter : UInt8) (rest : Bytes) (fresh : Nat) : Prop where
  isFresh : ¬ before.Live fresh
  notRoot : fresh ≠ 0
  live : ∀ index, after.Live index ↔ before.Live index ∨ index = fresh
  freeBound : ∀ index ∈ after.freeLocations, index < after.nodes.length
  freshNode : after.node fresh =
      { (default : Node) with
        parent := base
        prefixBytes := letter :: rest }
  baseNode : after.node base = (before.node base).setChild letter fresh
  otherNode : ∀ index, index ≠ fresh → index ≠ base → after.node index = before.node index

variable {before after s : StateImpl} {base fresh lower gone i : Nat}
  {a first : UInt8} {rest initial : Bytes} {path : Nat → Bytes}

theorem Added.extend (rest : Bytes) (added : Added before after base a fresh)
    (baseLive : before.Live base) :
    Attached before (after.update fresh fun node =>
        { node with prefixBytes := node.prefixBytes ++ rest })
      base a rest fresh := by
  have baseNe : base ≠ fresh := by
    rintro rfl
    exact added.isFresh baseLive
  refine ⟨added.isFresh, added.notRoot, by simpa [Live] using added.live,
    by simpa using added.freeBound, ?_, ?_, ?_⟩
  · rw [node_update_self added.freshBound, added.freshNode]
    rfl
  · rw [node_update_ne baseNe, added.sourceNode]
  · intro i notFresh notBase
    rw [node_update_ne notFresh, added.otherNode i notFresh notBase]

theorem Attached.kept (attached : Attached before after base a rest fresh) (notFresh : i ≠ fresh) :
    (after.node i).prefixBytes = (before.node i).prefixBytes ∧
      (after.node i).parent = (before.node i).parent := by
  by_cases isBase : i = base
  · simp [isBase, attached.baseNode]
  · simp [attached.otherNode i notFresh isBase]

/-- In the radix graph an edge to a new leaf has appeared. -/
theorem Attached.rewrite (attached : Attached before after base a rest fresh)
    (baseLive : before.Live base) (vacant : (before.node base).children a = 0) :
    Attach before.graph after.graph base a rest fresh := by
  have oldNe : ∀ {i}, before.Live i → i ≠ fresh := by
    rintro i live rfl
    exact attached.isFresh live
  exact
    { baseLive := baseLive
      vacant := childAt_eq_none.mpr vacant
      isFresh := attached.isFresh
      root := rfl
      live := attached.live
      freshParent := by simp [graph, attached.freshNode]
      freshLabel := by simp [graph, attached.freshNode]
      freshChild _ := by
        simp only [graph, attached.freshNode]
        rfl
      parent _ live := (attached.kept (oldNe live)).2
      label _ live := (attached.kept (oldNe live)).1
      baseHere := by simp [graph, attached.baseNode, attached.notRoot]
      baseElse _ ne := by simp [graph, attached.baseNode, childAt, ne]
      child i live notBase _ := by simp [graph, attached.otherNode i (oldNe live) notBase] }

theorem Attached.linked
    (attached : Attached before after base a rest fresh) (linked : before.Linked path)
    (baseLive : before.Live base) (vacant : (before.node base).children a = 0) :
    after.Linked (Function.update path fresh (path base ++ a :: rest)) where
  radix := linked.radix.attach (attached.rewrite baseLive vacant)
  freeBound := attached.freeBound
  rootPrefix := (attached.kept attached.notRoot.symm).1.trans linked.rootPrefix
  rootParent := (attached.kept attached.notRoot.symm).2.trans linked.rootParent

/-! ## Dividing a node -/

/-- A new node `fresh` with the first part of the label stands between `lower`
and its parent. -/
structure Divided (before after : StateImpl) (lower : Nat)
    (first : UInt8) (initial : Bytes) (letter : UInt8) (rest : Bytes) (fresh : Nat) : Prop where
  isFresh : ¬ before.Live fresh
  notRoot : fresh ≠ 0
  live : ∀ index, after.Live index ↔ before.Live index ∨ index = fresh
  freeBound : ∀ index ∈ after.freeLocations, index < after.nodes.length
  freshNode : after.node fresh =
      { parent := (before.node lower).parent
        prefixBytes := first :: initial
        hash := []
        value := []
        children := fun byte => if byte = letter then lower else 0 }
  lowerNode : after.node lower =
      { before.node lower with
        parent := fresh
        prefixBytes := letter :: rest }
  upperNode : after.node (before.node lower).parent =
      (before.node (before.node lower).parent).setChild first fresh
  otherNode : ∀ index, index ≠ fresh → index ≠ lower → index ≠ (before.node lower).parent →
      after.node index = before.node index

theorem divideNode_spec (linked : s.Linked path) (live : s.Live lower) (notRoot : lower ≠ 0)
    (label : (s.node lower).prefixBytes = (first :: initial) ++ a :: rest) :
    Divided s (s.divideNode lower (first :: initial).length).1 lower first initial a rest
      (s.divideNode lower (first :: initial).length).2 := by
  have upperLive := (linked.parent live notRoot).1
  have upperNe := linked.parent_ne live notRoot
  have headShape : (s.node lower).firstByte = first := by simp [Node.firstByte, label]
  have added : Added (s.backupNodes lower)
        ((s.backupNodes lower).addNode (s.node lower).parent first).1 (s.node lower).parent first
        ((s.backupNodes lower).addNode (s.node lower).parent first).2 := by
    apply addNode_spec
    · simpa [Live] using linked.rootLive
    · simpa using linked.freeBound
    · simpa [Live] using upperLive
  generalize result : (s.backupNodes lower).addNode (s.node lower).parent first = outcome at added
  obtain ⟨after, fresh⟩ := outcome
  have isFresh : ¬ s.Live fresh := by simpa [Live] using added.isFresh
  have lowerNe : lower ≠ fresh := by
    rintro rfl
    exact isFresh live
  have upperNeFresh : (s.node lower).parent ≠ fresh := by
    intro same
    exact isFresh (same ▸ upperLive)
  have lowerBound : lower < after.nodes.length :=
    lt_of_lt_of_le (by simpa using live.1) added.lengthLe
  have shape : s.divideNode lower (first :: initial).length = ((((after.update lower fun node =>
            { node with parent := fresh }).update fresh fun node =>
            node.setChild a lower).update fresh fun node =>
            { node with prefixBytes := first :: initial }).update lower
            fun node => { node with prefixBytes := a :: rest },
          fresh) := by
    simp only [divideNode, backupNodes_node, headShape, result, label]
    simp
  rw [shape]
  refine ⟨isFresh, added.notRoot, by simpa [Live] using added.live,
    by simpa using added.freeBound, ?_, ?_, ?_, ?_⟩
  · rw [node_update_ne lowerNe.symm, node_update_self (by simpa using added.freshBound),
      node_update_self (by simpa using added.freshBound),
      node_update_ne lowerNe.symm, added.freshNode]
    rfl
  · rw [node_update_self (by simpa using lowerBound),
      node_update_ne lowerNe, node_update_ne lowerNe, node_update_self lowerBound,
      added.otherNode lower lowerNe upperNe.symm, backupNodes_node]
  · rw [node_update_ne upperNe, node_update_ne upperNeFresh,
      node_update_ne upperNeFresh, node_update_ne upperNe, added.sourceNode, backupNodes_node]
  · intro i notFresh notLower notUpper
    rw [node_update_ne notLower, node_update_ne notFresh,
      node_update_ne notFresh, node_update_ne notLower,
      added.otherNode i notFresh notUpper, backupNodes_node]

theorem Divided.kept (divided : Divided before after lower first initial a rest fresh)
    (notFresh : i ≠ fresh) (notLower : i ≠ lower) :
    (after.node i).prefixBytes = (before.node i).prefixBytes ∧
      (after.node i).parent = (before.node i).parent := by
  by_cases isUpper : i = (before.node lower).parent
  · simp [isUpper, divided.upperNode]
  · simp [divided.otherNode i notFresh notLower isUpper]

/-- In the radix graph an edge has been split. -/
theorem Divided.rewrite (divided : Divided before after lower first initial a rest fresh)
    (lowerLive : before.Live lower) (lowerNotRoot : lower ≠ 0)
    (label : (before.node lower).prefixBytes = (first :: initial) ++ a :: rest) :
    Split before.graph after.graph lower first initial a rest fresh := by
  have oldNe : ∀ {i}, before.Live i → i ≠ fresh := by
    rintro i live rfl
    exact divided.isFresh live
  exact
    { lowerLive := lowerLive
      lowerNotRoot := lowerNotRoot
      lowerLabel := label
      isFresh := divided.isFresh
      root := rfl
      live := divided.live
      freshParent := by simp [graph, divided.freshNode]
      freshLabel := by simp [graph, divided.freshNode]
      freshHere := by simp [graph, divided.freshNode, lowerNotRoot]
      freshElse _ ne := by simp [graph, divided.freshNode, ne]
      newParent := by simp [graph, divided.lowerNode]
      newLabel := by simp [graph, divided.lowerNode]
      parent _ live notLower := (divided.kept (oldNe live) notLower).2
      label _ live notLower := (divided.kept (oldNe live) notLower).1
      upperHere := by simp [graph, divided.upperNode, divided.notRoot]
      upperElse _ ne := by simp [graph, divided.upperNode, childAt, ne]
      child i live notUpper _ := by
        by_cases isLower : i = lower
        · simp [graph, isLower, divided.lowerNode, childAt]
        · simp [graph, divided.otherNode i (oldNe live) isLower notUpper] }

theorem Divided.linked (divided : Divided before after lower first initial a rest fresh)
    (linked : before.Linked path) (lowerLive : before.Live lower) (lowerNotRoot : lower ≠ 0)
    (label : (before.node lower).prefixBytes = (first :: initial) ++ a :: rest) :
    after.Linked
      (Function.update path fresh (path (before.node lower).parent ++ first :: initial)) := by
  have root := divided.kept divided.notRoot.symm lowerNotRoot.symm
  exact
    { radix := linked.radix.split (divided.rewrite lowerLive lowerNotRoot label)
      freeBound := divided.freeBound
      rootPrefix := root.1.trans linked.rootPrefix
      rootParent := root.2.trans linked.rootParent }

/-! ## Merging a node with its only child -/

/-- `gone` is free, and `lower` with the longer label stands in its place. -/
structure Merged (before after : StateImpl) (gone : Nat)
    (first : UInt8) (initial : Bytes) (lower : Nat) : Prop where
  live : ∀ index, after.Live index ↔ before.Live index ∧ index ≠ gone
  freeBound : ∀ index ∈ after.freeLocations, index < after.nodes.length
  lowerNode : after.node lower =
      { before.node lower with
        parent := (before.node gone).parent
        prefixBytes := (first :: initial) ++ (before.node lower).prefixBytes }
  upperNode : after.node (before.node gone).parent =
      (before.node (before.node gone).parent).setChild first lower
  otherNode : ∀ index, index ≠ lower → index ≠ (before.node gone).parent →
      after.node index = before.node index

/-- The three nodes that `merge_with_child` touches are different ones. -/
theorem Linked.merge_distinct (linked : s.Linked path) (live : s.Live gone) (notRoot : gone ≠ 0)
    (present : (s.node gone).children a ≠ 0) :
    (s.node gone).children a ≠ gone ∧ (s.node gone).children a ≠ (s.node gone).parent ∧
      (s.node gone).parent ≠ gone := by
  obtain ⟨_, _, _, _, lowerPath⟩ := linked.child live present
  have shorter := linked.radix.path_parent_length_lt live notRoot
  have lowerLength := congrArg List.length lowerPath
  simp only [length_append, length_cons] at lowerLength
  refine ⟨?_, ?_, linked.parent_ne live notRoot⟩
  · intro same
    rw [same] at lowerLength
    omega
  · intro same
    rw [same] at lowerLength
    have shorter' : (path (s.node gone).parent).length < (path gone).length := shorter
    omega

theorem mergeWithChild_spec (linked : s.Linked path) (live : s.Live gone) (notRoot : gone ≠ 0)
    (label : (s.node gone).prefixBytes = first :: initial)
    (present : (s.node gone).children a ≠ 0) :
    Merged s (s.mergeWithChild gone a).1 gone first initial ((s.node gone).children a) ∧
      (s.mergeWithChild gone a).2 = (s.node gone).children a := by
  obtain ⟨lowerNe, lowerNeUpper, upperNe⟩ := linked.merge_distinct live notRoot present
  obtain ⟨lowerLive, lowerParent, _⟩ := linked.child live present
  have upperLive := (linked.parent live notRoot).1
  generalize lowerShape : (s.node gone).children a = lower at *
  have headShape : (s.node gone).firstByte = first := by simp [Node.firstByte, label]
  have shape : s.mergeWithChild gone a = (((((s.backupNodes lower).update lower fun node =>
            { node with prefixBytes := (first :: initial) ++ node.prefixBytes }).update
            (s.node gone).parent fun node =>
            node.setChild first lower).update lower fun node =>
            { node with parent := (s.node gone).parent }).markFree
            gone,
          lower) := by
    simp only [mergeWithChild, lowerShape, backupNodes_node, label]
    rw [node_update_ne lowerNe.symm, backupNodes_node, headShape]
  rw [shape]
  refine ⟨⟨?_, ?_, ?_, ?_, ?_⟩, rfl⟩
  · intro i
    simp only [Live, markFree_nodes, update_length, backupNodes_nodes,
      markFree_freeLocations, update_freeLocations,
      backupNodes_freeLocations, Finset.mem_insert, not_or]
    tauto
  · intro i mem
    simp only [markFree_freeLocations, update_freeLocations,
      backupNodes_freeLocations, Finset.mem_insert] at mem
    simp only [markFree_nodes, update_length, backupNodes_nodes]
    rcases mem with rfl | mem
    · exact live.1
    · exact linked.freeBound i mem
  · rw [markFree_node, node_update_self (by simpa using lowerLive.1), node_update_ne lowerNeUpper,
      node_update_self (by simpa using lowerLive.1), backupNodes_node]
  · rw [markFree_node, node_update_ne (Ne.symm lowerNeUpper),
      node_update_self (by simpa using upperLive.1),
      node_update_ne (Ne.symm lowerNeUpper), backupNodes_node]
  · intro i notLower notUpper
    rw [markFree_node, node_update_ne notLower, node_update_ne notUpper,
      node_update_ne notLower, backupNodes_node]

theorem Merged.kept (merged : Merged before after gone first initial lower) (notLower : i ≠ lower) :
    (after.node i).prefixBytes = (before.node i).prefixBytes ∧
      (after.node i).parent = (before.node i).parent := by
  by_cases isUpper : i = (before.node gone).parent
  · simp [isUpper, merged.upperNode]
  · simp [merged.otherNode i notLower isUpper]

/-- In the radix graph two edges have been contracted. -/
theorem Merged.rewrite
    (merged : Merged before after gone first initial ((before.node gone).children a))
    (goneLive : before.Live gone) (goneNotRoot : gone ≠ 0)
    (label : (before.node gone).prefixBytes = first :: initial)
    (present : (before.node gone).children a ≠ 0)
    (only : ∀ other, other ≠ a → (before.node gone).children other = 0) :
    Contract before.graph after.graph gone first initial a ((before.node gone).children a) where
  goneLive := goneLive
  goneNotRoot := goneNotRoot
  goneLabel := label
  onlyHere := childAt_eq_some.mpr ⟨rfl, present⟩
  onlyElse other ne := childAt_eq_none.mpr (only other ne)
  root := rfl
  live := merged.live
  newParent := by simp [graph, merged.lowerNode]
  newLabel := by simp [graph, merged.lowerNode]
  parent _ _ notLower := (merged.kept notLower).2
  label _ _ notLower := (merged.kept notLower).1
  upperHere := by simp [graph, merged.upperNode, present]
  upperElse _ ne := by simp [graph, merged.upperNode, childAt, ne]
  child i _ notUpper _ := by
    by_cases isLower : i = (before.node gone).children a
    · simp [graph, isLower, merged.lowerNode, childAt]
    · simp [graph, merged.otherNode i isLower notUpper]

theorem Merged.linked
    (merged : Merged before after gone first initial ((before.node gone).children a))
    (linked : before.Linked path) (goneLive : before.Live gone) (goneNotRoot : gone ≠ 0)
    (label : (before.node gone).prefixBytes = first :: initial)
    (present : (before.node gone).children a ≠ 0)
    (only : ∀ other, other ≠ a → (before.node gone).children other = 0) : after.Linked path where
  radix := linked.radix.contract (merged.rewrite goneLive goneNotRoot label present only)
  freeBound := merged.freeBound
  rootPrefix := (merged.kept present.symm).1.trans linked.rootPrefix
  rootParent := (merged.kept present.symm).2.trans linked.rootParent

/-! ## Cutting a subtree off -/

/-- The nodes at and below `gone` are free, and its parent has no child there. -/
structure Pruned (before after : StateImpl) (gone : Nat) (first : UInt8) : Prop where
  live : ∀ index, after.Live index ↔ before.Live index ∧ ¬ Above before.graph gone index
  freeBound : ∀ index ∈ after.freeLocations, index < after.nodes.length
  upperNode :
    after.node (before.node gone).parent = (before.node (before.node gone).parent).setChild first 0
  otherNode : ∀ index, index ≠ (before.node gone).parent → after.node index = before.node index

theorem Pruned.kept (pruned : Pruned before after gone first) (i : Nat) :
    (after.node i).prefixBytes = (before.node i).prefixBytes ∧
      (after.node i).parent = (before.node i).parent := by
  by_cases isUpper : i = (before.node gone).parent
  · simp [isUpper, pruned.upperNode]
  · simp [pruned.otherNode i isUpper]

/-- In the radix graph an edge and all below it have been removed. -/
theorem Pruned.rewrite (pruned : Pruned before after gone first)
    (goneLive : before.Live gone) (goneNotRoot : gone ≠ 0)
    (label : (before.node gone).prefixBytes = first :: initial) :
    Prune before.graph after.graph gone first initial where
  goneLive := goneLive
  goneNotRoot := goneNotRoot
  goneLabel := label
  root := rfl
  live := pruned.live
  parent i _ := (pruned.kept i).2
  label i _ := (pruned.kept i).1
  upperHere := by simp [graph, pruned.upperNode]
  upperElse _ ne := by simp [graph, pruned.upperNode, childAt, ne]
  child i _ notUpper _ := by simp [graph, pruned.otherNode i notUpper]

theorem Pruned.linked (pruned : Pruned before after gone first) (linked : before.Linked path)
    (goneLive : before.Live gone) (goneNotRoot : gone ≠ 0)
    (label : (before.node gone).prefixBytes = first :: initial) : after.Linked path where
  radix := linked.radix.prune (pruned.rewrite goneLive goneNotRoot label)
  freeBound := pruned.freeBound
  rootPrefix := (pruned.kept 0).1.trans linked.rootPrefix
  rootParent := (pruned.kept 0).2.trans linked.rootParent

/-- What marking a subtree does: the nodes stay and the free list grows by
the live nodes below `top`. -/
structure Marked (before after : StateImpl) (top : Nat → Prop) : Prop where
  nodes : after.nodes = before.nodes
  backup : after.backup = before.backup
  permanentNodesCount : after.permanentNodesCount = before.permanentNodesCount
  freeLocations : ∀ index, index ∈ after.freeLocations ↔ index ∈ before.freeLocations ∨ top index

theorem Marked.trans {first second third : StateImpl}
    {upper lower both : Nat → Prop} (before : Marked first second upper)
    (after : Marked second third lower) (union : ∀ i, both i ↔ upper i ∨ lower i) :
    Marked first third both where
  nodes := after.nodes.trans before.nodes
  backup := after.backup.trans before.backup
  permanentNodesCount := after.permanentNodesCount.trans before.permanentNodesCount
  freeLocations i := by rw [after.freeLocations, before.freeLocations, union, or_assoc]

def depthRank (state : StateImpl) (path : Nat → Bytes) (index : Nat) : Nat :=
  IsRadix.rank (Finset.range state.nodes.length) path index

theorem depthRank_lt (live : s.Live i) : s.depthRank path i < s.nodes.length := by
  have bound : IsRadix.rank (Finset.range s.nodes.length) path i < _ :=
    IsRadix.rank_lt_card (Finset.mem_range.mpr live.1)
  simpa [depthRank] using bound

theorem Linked.depthRank_parent (linked : s.Linked path) (live : s.Live i) (notRoot : i ≠ 0) :
    s.depthRank path (s.node i).parent < s.depthRank path i :=
  IsRadix.rank_lt_rank (Finset.mem_range.mpr (linked.parent live notRoot).1.1)
    (linked.radix.path_parent_length_lt live notRoot)

theorem Linked.depthRank_child (linked : s.Linked path)
    {b : UInt8} (live : s.Live i) (present : (s.node i).children b ≠ 0) :
    s.depthRank path i < s.depthRank path ((s.node i).children b) := by
  obtain ⟨childLive, parentShape, _⟩ := linked.child live present
  have smaller := linked.depthRank_parent childLive present
  rw [parentShape] at smaller
  exact smaller

theorem Linked.above_iff_child (linked : s.Linked path)
    (live : s.Live i) (lowerLive : s.Live lower) :
    Above s.graph i lower ↔ lower = i ∨ ∃ b, (s.node i).children b ≠ 0 ∧
            Above s.graph ((s.node i).children b) lower := by
  constructor
  · intro above
    by_cases same : i = lower
    · exact .inl same.symm
    · obtain ⟨b, next, link, nextAbove⟩ := linked.radix.child_toward above lowerLive same
      obtain ⟨childShape, nonzero⟩ := childAt_eq_some.mp link
      refine .inr ⟨b, ?_, ?_⟩
      · rw [childShape]
        exact nonzero
      · rw [childShape]
        exact nextAbove
  · rintro (rfl | ⟨b, present, above⟩)
    · exact Above.self _
    · have upper : Above s.graph i ((s.node i).children b) :=
        linked.radix.parent_above live
          (childAt_eq_some.mpr ⟨rfl, present⟩ : childAt (s.node i) b = some _)
      exact upper.trans above

/-- With enough calls every live node of the subtree is marked, and no other. -/
theorem subtrieMarkFreeFrom_spec (linked : s.Linked path) :
    ∀ (calls i : Nat) (current : StateImpl), current.nodes = s.nodes → s.Live i →
      s.nodes.length ≤ calls + s.depthRank path i → ∃ marked,
      subtrieMarkFreeFrom calls current i = .ok marked ∧
      Marked current marked fun lower => s.Live lower ∧ Above s.graph i lower := by
  intro calls
  induction calls with
  | zero =>
    intro i current _ live enough
    have bound : s.depthRank path i < _ := depthRank_lt live
    omega
  | succ calls ih =>
    intro i current sameNodes live enough
    -- The loop over the bytes marks the subtrees of the children seen.
    have loop : ∀ (bytes : List UInt8) (partly : StateImpl), partly.nodes = s.nodes →
          ∃ marked, bytes.foldlM (fun marked child =>
                  if (marked.node i).children child ≠ 0 then
                    subtrieMarkFreeFrom calls marked ((marked.node i).children child)
                  else
                    .ok marked)
                partly = .ok marked ∧
              Marked partly marked fun lower =>
                ∃ b ∈ bytes, (s.node i).children b ≠ 0 ∧ s.Live lower ∧
                  Above s.graph ((s.node i).children b) lower := by
      intro bytes
      induction bytes with
      | nil =>
        intro partly _
        exact ⟨partly, rfl, ⟨rfl, rfl, rfl, by simp⟩⟩
      | cons b bytes bytesHypothesis =>
        intro partly partlyNodes
        have sameNode : partly.node i = s.node i := by simp [node, partlyNodes]
        rw [foldlM_cons, sameNode]
        by_cases present : (s.node i).children b ≠ 0
        · have childLive := (linked.child live present).1
          have deeper := linked.depthRank_child live present
          obtain ⟨first, firstRun, firstMarked⟩ := ih _ partly partlyNodes childLive (by omega)
          obtain ⟨last, lastRun, lastMarked⟩ :=
            bytesHypothesis first (firstMarked.nodes.trans partlyNodes)
          refine ⟨last, ?_, firstMarked.trans lastMarked ?_⟩
          · rw [if_pos present, firstRun]
            exact lastRun
          · intro lower
            simp only [mem_cons, exists_eq_or_imp]
            tauto
        · obtain ⟨last, lastRun, lastMarked⟩ := bytesHypothesis partly partlyNodes
          refine ⟨last, ?_, ?_⟩
          · rw [if_neg present]
            exact lastRun
          · refine ⟨lastMarked.nodes, lastMarked.backup, lastMarked.permanentNodesCount, ?_⟩
            intro lower
            rw [lastMarked.freeLocations]
            simp only [mem_cons, exists_eq_or_imp]
            tauto
    obtain ⟨marked, run, result⟩ := loop allBytes (current.markFree i) sameNodes
    refine ⟨marked, run, ?_⟩
    refine ⟨result.nodes, result.backup, result.permanentNodesCount, ?_⟩
    intro lower
    rw [result.freeLocations, markFree_freeLocations, Finset.mem_insert]
    constructor
    · rintro ((rfl | old) | ⟨b, _, present, lowerLive, above⟩)
      · exact .inr ⟨live, Above.self _⟩
      · exact .inl old
      · refine .inr ⟨lowerLive, ?_⟩
        exact (linked.above_iff_child live lowerLive).mpr (.inr ⟨b, present, above⟩)
    · rintro (old | ⟨lowerLive, above⟩)
      · exact .inl (.inr old)
      · rcases (linked.above_iff_child live lowerLive).mp above with
          same | ⟨b, present, below⟩
        · exact .inl (.inl same)
        · exact .inr ⟨b, mem_allBytes b, present, lowerLive, below⟩

theorem subtrieMarkFree_spec (linked : s.Linked path) (live : s.Live i) :
    ∃ marked, s.subtrieMarkFree i = .ok marked ∧
      Marked s marked fun lower => s.Live lower ∧ Above s.graph i lower :=
  subtrieMarkFreeFrom_spec linked _ i s rfl live (Nat.le_add_right _ _)

theorem Marked.cutNode {marked : StateImpl} (linked : before.Linked path)
    (live : before.Live gone) (notRoot : gone ≠ 0)
    (label : (before.node gone).prefixBytes = first :: initial)
    (result : Marked before marked fun lower => before.Live lower ∧ Above before.graph gone lower) :
    Pruned before (marked.cutNode gone) gone first := by
  have sameNode : ∀ i, marked.node i = before.node i := by
    intro i
    simp [node, result.nodes]
  have upperLive := (linked.parent live notRoot).1
  have headShape : (before.node gone).firstByte = first := by simp [Node.firstByte, label]
  simp only [StateImpl.cutNode, sameNode, headShape]
  refine ⟨?_, ?_, ?_, ?_⟩
  · intro i
    simp only [Live, markFree_nodes, update_length, result.nodes,
      markFree_freeLocations, update_freeLocations, Finset.mem_insert, result.freeLocations]
    by_cases same : i = gone
    · subst same
      tauto
    · tauto
  · intro i mem
    simp only [markFree_freeLocations, update_freeLocations,
      Finset.mem_insert, result.freeLocations] at mem
    simp only [markFree_nodes, update_length, result.nodes]
    rcases mem with rfl | old | ⟨lowerLive, _⟩
    · exact live.1
    · exact linked.freeBound i old
    · exact lowerLive.1
  · rw [markFree_node, node_update_self (by simpa [result.nodes] using upperLive.1), sameNode]
  · intro i notUpper
    rw [markFree_node, node_update_ne notUpper, sameNode]

/-- A node without children is a subtree of its own. -/
theorem cutNode_leaf (linked : s.Linked path) (live : s.Live gone) (notRoot : gone ≠ 0)
    (label : (s.node gone).prefixBytes = first :: initial)
    (leaf : ∀ b, (s.node gone).children b = 0) : Pruned s (s.cutNode gone) gone first := by
  have upperLive := (linked.parent live notRoot).1
  have headShape : (s.node gone).firstByte = first := by simp [Node.firstByte, label]
  simp only [StateImpl.cutNode, headShape]
  refine ⟨?_, ?_, ?_, ?_⟩
  · intro i
    simp only [Live, markFree_nodes, update_length,
      markFree_freeLocations, update_freeLocations, Finset.mem_insert, not_or]
    constructor
    · rintro ⟨bound, ne, kept⟩
      refine ⟨⟨bound, kept⟩, fun above => ?_⟩
      rcases (linked.above_iff_child live ⟨bound, kept⟩).mp above with
        same | ⟨b, present, _⟩
      · exact ne same
      · exact present (leaf b)
    · rintro ⟨⟨bound, kept⟩, notBelow⟩
      refine ⟨bound, ?_, kept⟩
      rintro rfl
      exact notBelow (Above.self _)
  · intro i mem
    simp only [markFree_freeLocations, Finset.mem_insert] at mem
    simp only [markFree_nodes, update_length]
    rcases mem with rfl | old
    · exact live.1
    · exact linked.freeBound i old
  · rw [markFree_node, node_update_self upperLive.1]
  · intro i notUpper
    rw [markFree_node, node_update_ne notUpper]

end StateImpl

end AutomatonCore.State
