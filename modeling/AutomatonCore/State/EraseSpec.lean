import AutomatonCore.State.SetSpec

/-!
# Removing keys
-/

namespace AutomatonCore.State

open Io Library.RadixGraph

namespace StateImpl

variable {H : HashTransformation} {s before : StateImpl}
  {path : Nat → Bytes}

/-- The pairs whose keys are gone, and no others, are removed. -/
def Drops (before : Bytes → Bytes → Prop) (gone : Bytes → Prop)
    (after : Bytes → Bytes → Prop) : Prop :=
  ∀ query found, after query found ↔ before query found ∧ ¬ gone query

variable {node : Node} {first : UInt8} {gone : Nat} {k : Bytes}

theorem no_child_of_childBytes (bytes : node.childBytes = [])
    (b : UInt8) : node.children b = 0 := by
  by_contra child
  have mem := (node.mem_childBytes b).mpr child
  rw [bytes] at mem
  cases mem

theorem two_children_of_childBytes {second : UInt8}
    {rest : List UInt8} (bytes : node.childBytes = first :: second :: rest) :
    ∃ left right, left ≠ right ∧ node.children left ≠ 0 ∧ node.children right ≠ 0 := by
  have meaning := node.mem_childBytes
  have distinct := node.childBytes_nodup
  rw [bytes] at meaning distinct
  refine ⟨first, second, ?_, (meaning first).mp (by simp), (meaning second).mp (by simp)⟩
  rintro rfl
  simp at distinct

theorem two_children_of_length {kept : UInt8} (present : node.children kept ≠ 0)
    (notOne : node.childBytes.length ≠ 1) :
    ∃ first second, first ≠ second ∧ node.children first ≠ 0 ∧ node.children second ≠ 0 := by
  have mem := (node.mem_childBytes kept).mpr present
  match bytes : node.childBytes with
  | [] => simp [bytes] at mem
  | [_] => simp [bytes] at notOne
  | _ :: _ :: _ => exact two_children_of_childBytes bytes

theorem only_child_of_length (one : node.childBytes.length = 1) :
    node.children (node.childBytes.headD 0) ≠ 0 ∧ ∀ other, other ≠ node.childBytes.headD 0 →
      node.children other = 0 := by
  have meaning := node.mem_childBytes
  generalize node.childBytes = bytes at one meaning
  match bytes with
  | [] => simp at one
  | [b] =>
    refine ⟨(meaning b).mp (by simp), ?_⟩
    intro other ne
    by_contra present
    have mem := (meaning other).mpr present
    exact ne (by simpa using mem)
  | _ :: _ :: _ => simp at one

variable {cut : StateImpl} {cur : Nat}

theorem Pruned.upper_full (pruned : Pruned before cut gone first) (compact : before.Compact)
    (upperLive : before.Live (before.node gone).parent) (notRoot : (before.node gone).parent ≠ 0)
    (stays : ¬ ((cut.node (before.node gone).parent).value.length = 0 ∧
        (cut.node (before.node gone).parent).childBytes.length = 1)) :
    Full (cut.node (before.node gone).parent) := by
  by_cases empty : (cut.node (before.node gone).parent).value = []
  · have notOne : (cut.node (before.node gone).parent).childBytes.length ≠ 1 := by
      intro one
      exact stays ⟨by simp [empty], one⟩
    have kept : ∃ b, (cut.node (before.node gone).parent).children b ≠ 0 := by
      rcases compact _ upperLive notRoot with
        hasValue | ⟨left, right, ne, leftChild, rightChild⟩
      · rw [pruned.value] at empty
        exact absurd empty hasValue
      · rw [pruned.upperNode]
        by_cases isLeft : left = first
        · refine ⟨right, ?_⟩
          rw [Node.setChild_children, if_neg (fun same => ne (isLeft.trans same.symm))]
          exact rightChild
        · refine ⟨left, ?_⟩
          rw [Node.setChild_children, if_neg isLeft]
          exact leftChild
    obtain ⟨b, present⟩ := kept
    exact .inr (two_children_of_length present notOne)
  · exact .inl empty

theorem Pruned.upperKept (pruned : Pruned before cut gone first) (linked : before.Linked path)
    (live : before.Live gone) (notRoot : gone ≠ 0) : cut.Live (before.node gone).parent := by
  have upperLive := (linked.parent live notRoot).1
  rw [pruned.live]
  refine ⟨upperLive, fun above => ?_⟩
  have longer := (linked.radix.above_path above upperLive).length_le
  have shorter : (path (before.node gone).parent).length < (path gone).length :=
    linked.radix.path_parent_length_lt live notRoot
  omega

/-- A node without a value and with a single child is merged with the child. -/
theorem mergeNode_spec (linked : s.Linked path)
    {b : UInt8} (live : s.Live cur) (notRoot : cur ≠ 0) (single : (s.node cur).childBytes = [b])
    (full : ∀ i, s.Live i → i ≠ 0 → i ≠ cur → Full (s.node i))
    (frame : ∀ i, s.Live i → i ≠ cur → before.Live i ∧ s.node i = before.node i) :
    ∃ after, (s.mergeWithChild cur b).1.calculateHash H (s.mergeWithChild cur b).2 = .ok after ∧
        after.WellFormed path ∧ Drops (s.Holds path) (· = path cur) (after.Holds path) ∧
            (before.AllFresh H → after.AllFresh H) ∧
              ∀ origin, s.Backed origin → s.Held cur → after.Backed origin := by
  obtain ⟨present, only⟩ :=
    only_child_of_length (by simp [single] : (s.node cur).childBytes.length = 1)
  rw [single] at present only
  change (s.node cur).children b ≠ 0 at present
  obtain ⟨_, _, first, initial, label, _⟩ := linked.parent live notRoot
  obtain ⟨merged, lowerShape⟩ := mergeWithChild_spec linked live notRoot label present
  have mergedLinked := merged.linked linked live notRoot label present only
  have lowerLive : (s.mergeWithChild cur b).1.Live ((s.node cur).children b) := by
    rw [merged.live]
    exact ⟨(linked.child live present).1, (linked.merge_distinct live notRoot present).1⟩
  obtain ⟨after, run, rehashed, fresh⟩ := calculateHash_spec H mergedLinked lowerLive
  refine ⟨after, run, ⟨rehashed.same.linked mergedLinked, ?_⟩, ?_, ?_, ?_⟩
  · exact rehashed.same.compact (merged.compact present full)
  · intro query found
    rw [rehashed.same.holds, merged.holds linked live]
  · intro beforeFresh
    apply fresh
    apply freshBeyond_of_frame beforeFresh mergedLinked
    intro i indexLive outside
    obtain ⟨old, sameNode⟩ := merged.frame present i indexLive outside
    rw [sameNode]
    exact frame i old ((merged.live i).mp indexLive).2
  · intro origin backed held
    obtain ⟨mergedBacked, lowerHeld⟩ := backed.mergeWithChild linked live notRoot held present
    exact mergedBacked.rehashed mergedLinked lowerLive lowerHeld rehashed

/-- A subtree is cut off, and its parent is merged if this leaves it with a
single child. -/
theorem unlinkNode_spec {marked : StateImpl}
    {initial : Bytes} (wf : before.WellFormed path) (live : before.Live gone) (notRoot : gone ≠ 0)
    (label : (before.node gone).prefixBytes = first :: initial)
    (sameParent : (marked.node gone).parent = (before.node gone).parent)
    (pruned : Pruned before (marked.cutNode gone) gone first) :
    ∃ after, (marked.unlinkNode gone).1.calculateHash H (marked.unlinkNode gone).2 = .ok after ∧
        after.WellFormed path ∧ Drops (before.Holds path) (path gone <+: ·) (after.Holds path) ∧
            (before.AllFresh H → after.AllFresh H) ∧ ∀ origin, marked.Backed origin →
              marked.Held (before.node gone).parent → after.Backed origin := by
  have upperLive := (wf.linked.parent live notRoot).1
  have cutLinked := pruned.linked wf.linked live notRoot label
  have upperKept := pruned.upperKept wf.linked live notRoot
  have cutBacked : ∀ origin, marked.Backed origin → marked.Held (before.node gone).parent →
        (marked.cutNode gone).Backed origin ∧
        (marked.cutNode gone).Held (before.node gone).parent := by
    intro origin backed held
    exact ⟨backed.cutNode (sameParent.symm ▸ held), held⟩
  unfold unlinkNode
  rw [sameParent]
  generalize marked.cutNode gone = cut at *
  generalize upperShape : (before.node gone).parent = upper at *
  by_cases merges :
      (cut.node upper).value.length = 0 ∧ (cut.node upper).childBytes.length = 1 ∧ upper ≠ 0
  · rw [if_pos merges]
    obtain ⟨noValue, one, upperNotRoot⟩ := merges
    obtain ⟨a, single⟩ := List.length_eq_one_iff.mp one
    rw [single]
    obtain ⟨after, run, afterFormed, drops, fresh, backed⟩ :=
      mergeNode_spec cutLinked upperKept upperNotRoot single
        (fun i indexLive indexNotRoot notUpper =>
          pruned.full wf.compact indexLive indexNotRoot (upperShape.symm ▸ notUpper))
        (fun i indexLive notUpper =>
          ⟨((pruned.live i).mp indexLive).1, pruned.otherNode i (upperShape.symm ▸ notUpper)⟩)
    refine ⟨after, run, afterFormed, ?_, fresh, ?_⟩
    · intro query found
      rw [drops, pruned.holds wf.linked live]
      constructor
      · rintro ⟨kept, _⟩
        exact kept
      · intro kept
        refine ⟨kept, ?_⟩
        -- the node that is merged away has no value
        rintro rfl
        obtain ⟨⟨ne, i, indexLive, samePath, stored⟩, _⟩ := kept
        have same := wf.linked.path_injective indexLive upperLive samePath
        rw [same, ← pruned.value, List.eq_nil_of_length_eq_zero noValue] at stored
        exact ne stored.symm
    · intro origin markedBacked held
      obtain ⟨cutKept, upperHeld⟩ := cutBacked origin markedBacked held
      exact backed origin cutKept upperHeld
  · rw [if_neg merges]
    have beyond : before.AllFresh H → cut.FreshBeyond H upper := by
      intro beforeFresh
      apply freshBeyond_of_frame beforeFresh cutLinked
      intro i indexLive outside
      exact pruned.frame i indexLive (upperShape.symm ▸ outside)
    obtain ⟨after, run, rehashed, fresh⟩ := calculateHash_spec H cutLinked upperKept
    refine ⟨after, run, ⟨rehashed.same.linked cutLinked, ?_⟩, ?_, fresh ∘ beyond, ?_⟩
    · apply rehashed.same.compact
      intro i indexLive indexNotRoot
      by_cases isUpper : i = upper
      · subst isUpper
        subst upperShape
        refine pruned.upper_full wf.compact upperLive indexNotRoot ?_
        rintro ⟨noValue, one⟩
        exact merges ⟨noValue, one, indexNotRoot⟩
      · exact pruned.full wf.compact indexLive indexNotRoot (upperShape.symm ▸ isUpper)
    · intro query found
      rw [rehashed.same.holds, pruned.holds wf.linked live]
    · intro origin markedBacked held
      obtain ⟨backed, upperHeld⟩ := cutBacked origin markedBacked held
      exact backed.rehashed cutLinked upperKept upperHeld rehashed

theorem Drops.of_iff {first second third : Bytes → Bytes → Prop}
    {gone other : Bytes → Prop} (same : ∀ query found, second query found ↔ first query found)
    (sameGone : ∀ query found, first query found → (gone query ↔ other query))
    (drops : Drops second gone third) : Drops first other third := by
  intro query found
  rw [drops, same]
  constructor
  · rintro ⟨held, kept⟩
    exact ⟨held, fun isGone => kept ((sameGone _ _ held).mpr isGone)⟩
  · rintro ⟨held, kept⟩
    exact ⟨held, fun isGone => kept ((sameGone _ _ held).mp isGone)⟩

theorem erase_absent (absent : s.get k = []) : s.erase H k = .error (noSetNode k) := by
  unfold get at absent
  unfold erase
  cases found : s.getNodeIndex k with
  | none => rfl
  | some i =>
    rw [found] at absent
    exact if_pos absent

theorem deleteNodeTree_absent (absent : s.get k = []) :
    s.deleteNodeTree H k = .error (noSetNode k) := by
  unfold get at absent
  unfold deleteNodeTree
  cases found : s.getNodeIndex k with
  | none => rfl
  | some i =>
    rw [found] at absent
    exact if_pos absent

theorem node_of_present (linked : s.Linked path) (present : s.get k ≠ []) :
    ∃ cur, s.getNodeIndex k = some cur ∧ (s.node cur).value ≠ [] ∧ s.Live cur ∧ path cur = k := by
  unfold get at present
  split at present
  · exact absurd rfl present
  next cur found =>
    have place := (getNodeIndex_eq_some linked k cur).mp found
    exact ⟨cur, found, present, place.1, place.2⟩

theorem clearValue_spec (wf : s.WellFormed path) (live : s.Live cur) (several :
      ∃ first second,
        first ≠ second ∧ (s.node cur).children first ≠ 0 ∧ (s.node cur).children second ≠ 0) :
    ∃ after,
      (s.update cur fun node =>
          { node with value := [] }).calculateHash H cur =
          .ok after ∧
        after.WellFormed path ∧ Drops (s.Holds path) (· = path cur) (after.Holds path) ∧
            (s.AllFresh H → after.AllFresh H) ∧
              ∀ origin, s.Backed origin → s.Held cur → after.Backed origin := by
  have same := updateValue_sameLinks s cur []
  have changed : (s.update cur fun node => { node with value := [] }).node
          cur = { s.node cur with value := [] } :=
    node_update_self live.1 _
  have others :
      ∀ i, i ≠ cur → (s.update cur fun node => { node with value := [] }).node i = s.node i :=
    fun i ne => node_update_ne ne _
  have clearedBacked : ∀ origin, s.Backed origin → s.Held cur → (s.update cur fun node =>
            { node with value := [] }).Backed origin ∧
          (s.update cur fun node =>
            { node with value := [] }).Held cur := by
    intro origin backed held
    exact ⟨backed.update_content held fun _ => rfl, held⟩
  generalize (s.update cur fun node =>
    { node with value := [] }) = cleared at *
  have linked := same.linked wf.linked
  have beyond : s.AllFresh H → cleared.FreshBeyond H cur := by
    intro stateFresh
    apply freshBeyond_of_frame stateFresh linked
    intro i indexLive outside
    refine ⟨(same.live i).mp indexLive, others i ?_⟩
    rintro rfl
    exact outside (Above.self _)
  obtain ⟨after, run, rehashed, fresh⟩ := calculateHash_spec H linked ((same.live _).mpr live)
  refine ⟨after, run, ⟨rehashed.same.linked linked, ?_⟩, ?_, fresh ∘ beyond, ?_⟩
  · apply rehashed.same.compact
    intro i indexLive notRoot
    by_cases isCur : i = cur
    · subst isCur
      rw [changed]
      exact .inr several
    · rw [others i isCur]
      exact wf.compact i ((same.live i).mp indexLive) notRoot
  · intro query found
    rw [rehashed.same.holds]
    constructor
    · rintro ⟨nonempty, i, indexLive, rfl, stored⟩
      have isOther : i ≠ cur := by
        rintro rfl
        rw [changed] at stored
        exact nonempty stored.symm
      rw [others i isOther] at stored
      rw [same.live] at indexLive
      refine ⟨⟨nonempty, i, indexLive, rfl, stored⟩, ?_⟩
      intro samePath
      exact isOther (wf.linked.path_injective indexLive live samePath)
    · rintro ⟨⟨nonempty, i, indexLive, rfl, stored⟩, ne⟩
      refine ⟨nonempty, i, (same.live i).mpr indexLive, rfl, ?_⟩
      rw [others i (fun isCur => ne (by rw [isCur]))]
      exact stored
  · intro origin stateBacked stateHeld
    obtain ⟨backed, held⟩ := clearedBacked origin stateBacked stateHeld
    exact backed.rehashed linked ((same.live _).mpr live) held rehashed

/-- `erase` removes one pair. -/
theorem erase_spec (H : HashTransformation) (wf : s.WellFormed path) (present : s.get k ≠ [])
    (rootBranches : k = [] → ∃ first second,
          first ≠ second ∧ (s.node 0).children first ≠ 0 ∧ (s.node 0).children second ≠ 0) :
    ∃ after, s.erase H k = .ok after ∧ after.WellFormed path ∧
      Drops (s.Holds path) (· = k) (after.Holds path) ∧ Advances H s after := by
  obtain ⟨cur, found, hasValue, live, rfl⟩ := node_of_present wf.linked present
  have savedFormed := backupNodes_wellFormed wf cur
  have savedAdvances := backupNodes_advances H live
  have savedBacked := fun origin (backed : s.Backed origin) => backed.backupNodes live.1
  have savedLive := (backupNodes_live s cur cur).mpr live
  have sameHolds : ∀ query v, (s.backupNodes cur).Holds path query v ↔ s.Holds path query v :=
    backupNodes_holds s cur
  have branches : cur = 0 → ∃ first second,
          first ≠ second ∧ (s.node cur).children first ≠ 0 ∧ (s.node cur).children second ≠ 0 := by
    rintro rfl
    exact rootBranches wf.linked.rootPath
  unfold erase
  rw [found]
  dsimp only
  rw [if_neg hasValue, backupNodes_node]
  match bytes : (s.node cur).childBytes with
  | [] =>
    have leaf := no_child_of_childBytes bytes
    have notRoot : cur ≠ 0 := by
      intro isRoot
      obtain ⟨first, _, _, child, _⟩ := branches isRoot
      exact child (leaf first)
    obtain ⟨_, _, first, initial, label, _⟩ := savedFormed.linked.parent savedLive notRoot
    have pruned := cutNode_leaf savedFormed.linked savedLive notRoot label (by simpa using leaf)
    obtain ⟨after, run, afterFormed, drops, fresh, backed⟩ :=
      unlinkNode_spec savedFormed savedLive notRoot label rfl pruned
    refine ⟨after, run, afterFormed, drops.of_iff sameHolds ?_, fresh ∘ savedAdvances.fresh, ?_⟩
    · rintro query v ⟨_, i, indexLive, rfl, _⟩
      constructor
      · intro below
        have above := (wf.linked.radix.above_iff_prefix live indexLive).mpr below
        rcases (wf.linked.above_iff_child live indexLive).mp above with same | ⟨b, child, _⟩
        · rw [same]
        · exact absurd (leaf b) child
      · intro same
        rw [same]
    · intro origin stateBacked
      obtain ⟨saved, held, _⟩ := savedBacked origin stateBacked
      exact backed origin saved (saved.closed cur savedLive.1 notRoot held)
  | [b] =>
    have notRoot : cur ≠ 0 := by
      intro isRoot
      obtain ⟨first, second, ne, one, two⟩ := branches isRoot
      have firstMember := ((s.node cur).mem_childBytes first).mpr one
      have secondMember := ((s.node cur).mem_childBytes second).mpr two
      rw [bytes, List.mem_singleton] at firstMember secondMember
      exact ne (firstMember.trans secondMember.symm)
    obtain ⟨after, run, afterFormed, drops, fresh, backed⟩ :=
      mergeNode_spec savedFormed.linked savedLive notRoot (by simpa using bytes)
        (fun i indexLive indexNotRoot _ => savedFormed.compact i indexLive indexNotRoot)
        (fun _ indexLive _ => ⟨indexLive, rfl⟩)
    refine ⟨after, run, afterFormed, drops.of_iff sameHolds fun _ _ _ => Iff.rfl,
        fresh ∘ savedAdvances.fresh, ?_⟩
    intro origin stateBacked
    obtain ⟨saved, held, _⟩ := savedBacked origin stateBacked
    exact backed origin saved held
  | first :: second :: rest =>
    obtain ⟨after, run, afterFormed, drops, fresh, backed⟩ :=
      clearValue_spec savedFormed savedLive (by simpa using two_children_of_childBytes bytes)
    refine ⟨after, run, afterFormed, drops.of_iff sameHolds fun _ _ _ => Iff.rfl,
        fresh ∘ savedAdvances.fresh, ?_⟩
    intro origin stateBacked
    obtain ⟨saved, held, _⟩ := savedBacked origin stateBacked
    exact backed origin saved held

/-- `delete_node_tree` removes the pairs whose keys begin with the given
one. -/
theorem deleteNodeTree_spec (H : HashTransformation) (wf : s.WellFormed path)
    (present : s.get k ≠ []) (ne : k ≠ []) :
    ∃ after, s.deleteNodeTree H k = .ok after ∧ after.WellFormed path ∧
      Drops (s.Holds path) (k <+: ·) (after.Holds path) ∧ Advances H s after := by
  obtain ⟨cur, found, hasValue, live, rfl⟩ := node_of_present wf.linked present
  have notRoot : cur ≠ 0 := by
    rintro rfl
    exact ne wf.linked.rootPath
  unfold deleteNodeTree
  rw [found]
  dsimp only
  rw [if_neg hasValue]
  have upperLive := (wf.linked.parent live notRoot).1
  have savedAdvances := backupNodes_advances H upperLive
  have savedBacked := fun origin (backed : s.Backed origin) => backed.backupNodes upperLive.1
  generalize upperShape : (s.node cur).parent = upper at *
  have savedFormed := backupNodes_wellFormed wf upper
  have savedLive := (backupNodes_live s upper cur).mpr live
  obtain ⟨_, _, first, initial, label, _⟩ := savedFormed.linked.parent savedLive notRoot
  obtain ⟨marked, markRun, result⟩ := subtrieMarkFree_spec savedFormed.linked savedLive
  have pruned := result.cutNode savedFormed.linked savedLive notRoot label
  have sameParent : (marked.node cur).parent = ((s.backupNodes upper).node cur).parent := by
    simp [node, result.nodes]
  obtain ⟨after, run, afterFormed, drops, fresh, backed⟩ :=
    unlinkNode_spec savedFormed savedLive notRoot label sameParent pruned
  refine ⟨after, ?_, afterFormed, drops.of_iff ?_ fun _ _ _ => Iff.rfl,
    fresh ∘ savedAdvances.fresh, ?_⟩
  · rw [markRun]
    exact run
  · exact backupNodes_holds s upper
  · intro origin stateBacked
    obtain ⟨saved, held, _⟩ := savedBacked origin stateBacked
    apply backed origin
    · exact saved.congr result.nodes result.backup result.permanentNodesCount
    · rw [held_congr result.backup result.permanentNodesCount, backupNodes_node, upperShape]
      exact held

end StateImpl

end AutomatonCore.State
