import AutomatonCore.State.Backup
import AutomatonCore.State.Lookup

/-!
# What each rewrite does to the contents
-/

namespace AutomatonCore.State

open Io Library.RadixGraph

namespace StateImpl

variable {H : HashTransformation} {before after : StateImpl}
  {path : Nat → Bytes}

/-- The key/value pairs of a tree, read off its live nodes. -/
def Holds (state : StateImpl) (path : Nat → Bytes) (key value : Bytes) : Prop :=
  value ≠ [] ∧ ∃ index, state.Live index ∧ path index = key ∧ (state.node index).value = value

/-- A tree in which every link and every node is in order. -/
structure WellFormed (state : StateImpl) (path : Nat → Bytes) : Prop where
  linked : state.Linked path
  compact : state.Compact

/-- What a call keeps besides the shape of the tree: the hashes stay up to
date, and the last commit stays restorable. -/
structure Advances (hasher : HashTransformation) (before after : StateImpl) : Prop where
  fresh : before.AllFresh hasher → after.AllFresh hasher
  backed : ∀ origin, before.Backed origin → after.Backed origin

theorem Advances.refl (s : StateImpl) : Advances H s s := ⟨id, fun _ => id⟩

theorem Advances.trans {first second third : StateImpl} (before : Advances H first second)
    (after : Advances H second third) : Advances H first third :=
  ⟨after.fresh ∘ before.fresh, fun origin => after.backed origin ∘ before.backed origin⟩

/-! ## Reading -/

variable {i fresh base lower gone : Nat} {a first : UInt8} {rest initial : Bytes}

theorem get_of_live {s : StateImpl} (linked : s.Linked path) (live : s.Live i) :
    s.get (path i) = (s.node i).value := by
  have found := (getNodeIndex_eq_some linked (path i) i).mpr ⟨live, rfl⟩
  simp [get, found]

theorem get_eq_iff {s : StateImpl} (linked : s.Linked path) (k : Bytes) {v : Bytes} (ne : v ≠ []) :
    s.get k = v ↔ s.Holds path k v := by
  constructor
  · intro read
    refine ⟨ne, ?_⟩
    unfold get at read
    split at read
    · exact absurd read.symm ne
    next i found =>
      have place := (getNodeIndex_eq_some linked k i).mp found
      exact ⟨i, place.1, place.2, read⟩
  · rintro ⟨_, i, live, rfl, stored⟩
    rw [get_of_live linked live, stored]

theorem get_eq_get {first second : StateImpl}
    {firstPath secondPath : Nat → Bytes} (firstLinked : first.Linked firstPath)
    (secondLinked : second.Linked secondPath) {k : Bytes}
    (same : ∀ v,
        first.Holds firstPath k v ↔ second.Holds secondPath k v) : first.get k = second.get k := by
  by_cases empty : first.get k = []
  · by_cases otherEmpty : second.get k = []
    · rw [empty, otherEmpty]
    · have held := (get_eq_iff secondLinked k otherEmpty).mp rfl
      have read := (get_eq_iff firstLinked k otherEmpty).mpr ((same _).mpr held)
      exact read
  · have held := (get_eq_iff firstLinked k empty).mp rfl
    have read := (get_eq_iff secondLinked k empty).mpr ((same _).mp held)
    exact read.symm

/-! ## Pairs -/

theorem SameButHash.holds (same : SameButHash before after) (k v : Bytes) :
    after.Holds path k v ↔ before.Holds path k v := by
  unfold Holds
  simp only [same.live, same.value]

/-- A leaf or a divided node adds no pair. -/
theorem holds_of_added (place : Bytes) (isFresh : ¬ before.Live fresh)
    (live : ∀ i, after.Live i ↔ before.Live i ∨ i = fresh) (empty : (after.node fresh).value = [])
    (kept : ∀ i, before.Live i → (after.node i).value = (before.node i).value) (k v : Bytes) :
    after.Holds (Function.update path fresh place) k v ↔ before.Holds path k v := by
  have oldNe : ∀ {i}, before.Live i → i ≠ fresh := by
    rintro i old rfl
    exact isFresh old
  constructor
  · rintro ⟨ne, i, indexLive, place, stored⟩
    refine ⟨ne, i, ?_⟩
    rcases (live i).mp indexLive with old | rfl
    · rw [Function.update_of_ne (oldNe old)] at place
      exact ⟨old, place, (kept i old).symm.trans stored⟩
    · exact absurd (stored.symm.trans empty) ne
  · rintro ⟨ne, i, old, place, stored⟩
    refine ⟨ne, i, (live i).mpr (.inl old), ?_, ?_⟩
    · rw [Function.update_of_ne (oldNe old)]
      exact place
    · rw [kept i old, stored]

theorem Attached.frame (attached : Attached before after base a rest fresh)
    (i : Nat) (live : after.Live i) (outside : ¬ Above after.graph i fresh) :
    before.Live i ∧ after.node i = before.node i := by
  have notFresh : i ≠ fresh := by
    rintro rfl
    exact outside (Above.self _)
  have notBase : i ≠ base := by
    rintro rfl
    apply outside
    apply Above.up attached.notRoot
    have parentShape : after.graph.parent fresh = i := by simp [graph, attached.freshNode]
    rw [parentShape]
    exact Above.self _
  exact ⟨((attached.live i).mp live).resolve_right notFresh, attached.otherNode i notFresh notBase⟩

theorem Divided.frame (divided : Divided before after lower first initial a rest fresh)
    (lowerNotRoot : lower ≠ 0) (i : Nat) (live : after.Live i)
    (outside : ¬ Above after.graph i lower) : before.Live i ∧ after.node i = before.node i := by
  have lowerParent : after.graph.parent lower = fresh := by simp [graph, divided.lowerNode]
  have freshParent : after.graph.parent fresh = (before.node lower).parent := by
    simp [graph, divided.freshNode]
  have freshAbove : Above after.graph fresh lower :=
    Above.up lowerNotRoot (by
      rw [lowerParent]
      exact Above.self _)
  have upperAbove : Above after.graph (before.node lower).parent fresh :=
    Above.up divided.notRoot (by
      rw [freshParent]
      exact Above.self _)
  have notFresh : i ≠ fresh := by
    rintro rfl
    exact outside freshAbove
  have notLower : i ≠ lower := by
    rintro rfl
    exact outside (Above.self _)
  have notUpper : i ≠ (before.node lower).parent := by
    rintro rfl
    exact outside (upperAbove.trans freshAbove)
  exact ⟨((divided.live i).mp live).resolve_right notFresh,
      divided.otherNode i notFresh notLower notUpper⟩

theorem Merged.frame (merged : Merged before after gone first initial lower)
    (lowerNotRoot : lower ≠ 0) (i : Nat) (live : after.Live i)
    (outside : ¬ Above after.graph i lower) : before.Live i ∧ after.node i = before.node i := by
  have lowerParent : after.graph.parent lower = (before.node gone).parent := by
    simp [graph, merged.lowerNode]
  have notLower : i ≠ lower := by
    rintro rfl
    exact outside (Above.self _)
  have notUpper : i ≠ (before.node gone).parent := by
    rintro rfl
    apply outside
    apply Above.up lowerNotRoot
    rw [lowerParent]
    exact Above.self _
  exact ⟨((merged.live i).mp live).1, merged.otherNode i notLower notUpper⟩

theorem Pruned.frame (pruned : Pruned before after gone first) (i : Nat) (live : after.Live i)
    (outside : ¬ Above after.graph i (before.node gone).parent) :
    before.Live i ∧ after.node i = before.node i := by
  have notUpper : i ≠ (before.node gone).parent := by
    rintro rfl
    exact outside (Above.self _)
  exact ⟨((pruned.live i).mp live).1, pruned.otherNode i notUpper⟩

theorem Attached.value (attached : Attached before after base a rest fresh) (live : before.Live i) :
    (after.node i).value = (before.node i).value := by
  have notFresh : i ≠ fresh := by
    rintro rfl
    exact attached.isFresh live
  by_cases isBase : i = base
  · rw [isBase, attached.baseNode, Node.setChild_value]
  · rw [attached.otherNode i notFresh isBase]

theorem Divided.value (divided : Divided before after lower first initial a rest fresh)
    (live : before.Live i) : (after.node i).value = (before.node i).value := by
  have notFresh : i ≠ fresh := by
    rintro rfl
    exact divided.isFresh live
  by_cases isLower : i = lower
  · rw [isLower, divided.lowerNode]
  · by_cases isUpper : i = (before.node lower).parent
    · rw [isUpper, divided.upperNode, Node.setChild_value]
    · rw [divided.otherNode i notFresh isLower isUpper]

theorem Merged.value (merged : Merged before after gone first initial lower) (i : Nat) :
    (after.node i).value = (before.node i).value := by
  by_cases isLower : i = lower
  · rw [isLower, merged.lowerNode]
  · by_cases isUpper : i = (before.node gone).parent
    · rw [isUpper, merged.upperNode, Node.setChild_value]
    · rw [merged.otherNode i isLower isUpper]

theorem Pruned.value (pruned : Pruned before after gone first) (i : Nat) :
    (after.node i).value = (before.node i).value := by
  by_cases isUpper : i = (before.node gone).parent
  · rw [isUpper, pruned.upperNode, Node.setChild_value]
  · rw [pruned.otherNode i isUpper]

theorem Merged.holds (merged : Merged before after gone first initial lower)
    (linked : before.Linked path) (live : before.Live gone) (k v : Bytes) :
    after.Holds path k v ↔ before.Holds path k v ∧ k ≠ path gone := by
  constructor
  · rintro ⟨nonempty, i, indexLive, rfl, stored⟩
    obtain ⟨old, ne⟩ := (merged.live i).mp indexLive
    refine ⟨⟨nonempty, i, old, rfl, (merged.value i).symm.trans stored⟩,
        fun same => ne (linked.path_injective old live same)⟩
  · rintro ⟨⟨nonempty, i, old, rfl, stored⟩, ne⟩
    refine ⟨nonempty, i, (merged.live i).mpr ⟨old, ?_⟩, rfl, ?_⟩
    · rintro rfl
      exact ne rfl
    · rw [merged.value, stored]

theorem Pruned.holds (pruned : Pruned before after gone first)
    (linked : before.Linked path) (live : before.Live gone) (k v : Bytes) :
    after.Holds path k v ↔ before.Holds path k v ∧ ¬ path gone <+: k := by
  constructor
  · rintro ⟨ne, i, indexLive, rfl, stored⟩
    obtain ⟨old, outside⟩ := (pruned.live i).mp indexLive
    refine ⟨⟨ne, i, old, rfl, (pruned.value i).symm.trans stored⟩,
        fun below => outside ((linked.radix.above_iff_prefix live old).mpr below)⟩
  · rintro ⟨⟨ne, i, old, rfl, stored⟩, outside⟩
    refine ⟨ne, i, (pruned.live i).mpr ⟨old, ?_⟩, rfl, ?_⟩
    · intro below
      exact outside ((linked.radix.above_iff_prefix live old).mp below)
    · rw [pruned.value, stored]

/-! ## Stale hashes -/

theorem freshBeyond_of_frame {focus : Nat} (fresh : before.AllFresh H) (linked : after.Linked path)
    (frame : ∀ i, after.Live i → ¬ Above after.graph i focus →
        before.Live i ∧ after.node i = before.node i) : after.FreshBeyond H focus := by
  intro i live outside
  obtain ⟨old, sameNode⟩ := frame i live outside
  apply (fresh i old).congr sameNode
  intro b present
  rw [← sameNode] at present ⊢
  have childLive := (linked.child live present).1
  have link : after.graph.child i b = some ((after.node i).children b) :=
    childAt_eq_some.mpr ⟨rfl, present⟩
  have childOutside : ¬ Above after.graph ((after.node i).children b) focus := by
    intro above
    exact outside ((linked.radix.parent_above live link).trans above)
  rw [(frame _ childLive childOutside).2]

/-! ## Compactness -/

/-- Such a node is not merged with a child. -/
def Full (node : Node) : Prop :=
  node.value ≠ [] ∨
    ∃ first second, first ≠ second ∧ node.children first ≠ 0 ∧ node.children second ≠ 0

theorem Full.setChild {node : Node} (full : Full node) (b : UInt8) (nonzero : i ≠ 0) :
    Full (node.setChild b i) := by
  rcases full with hasValue | ⟨first, second, ne, one, two⟩
  · exact .inl hasValue
  · refine .inr ⟨first, second, ne, ?_, ?_⟩
    · rw [Node.setChild_children]
      split
      · exact nonzero
      · exact one
    · rw [Node.setChild_children]
      split
      · exact nonzero
      · exact two

theorem Full.congr {node other : Node} (full : Full node) (v : other.value = node.value)
    (children : other.children = node.children) : Full other := by
  unfold Full
  rw [v, children]
  exact full

theorem Attached.full (attached : Attached before after base a rest fresh)
    (full : ∀ i, before.Live i → i ≠ 0 → i ≠ base → Full (before.node i))
    (baseFull : base ≠ 0 → Full (after.node base)) (live : after.Live i) (notRoot : i ≠ 0)
    (notFresh : i ≠ fresh) : Full (after.node i) := by
  have old : before.Live i := ((attached.live i).mp live).resolve_right notFresh
  by_cases isBase : i = base
  · subst isBase
    exact baseFull notRoot
  · rw [attached.otherNode i notFresh isBase]
    exact full i old notRoot isBase

theorem Divided.full (divided : Divided before after lower first initial a rest fresh)
    (compact : before.Compact) (live : after.Live i) (notRoot : i ≠ 0) (notFresh : i ≠ fresh) :
    Full (after.node i) := by
  have old : before.Live i := ((divided.live i).mp live).resolve_right notFresh
  have full : Full (before.node i) := compact i old notRoot
  by_cases isLower : i = lower
  · rw [isLower] at full ⊢
    rw [divided.lowerNode]
    exact full.congr rfl rfl
  · by_cases isUpper : i = (before.node lower).parent
    · rw [isUpper] at full ⊢
      rw [divided.upperNode]
      exact full.setChild first divided.notRoot
    · rw [divided.otherNode i notFresh isLower isUpper]
      exact full

theorem Merged.full (merged : Merged before after gone first initial lower) (nonzero : lower ≠ 0)
    (full : Full (before.node i)) : Full (after.node i) := by
  by_cases isLower : i = lower
  · rw [isLower] at full ⊢
    rw [merged.lowerNode]
    exact full.congr rfl rfl
  · by_cases isUpper : i = (before.node gone).parent
    · rw [isUpper] at full ⊢
      rw [merged.upperNode]
      exact full.setChild first nonzero
    · rw [merged.otherNode i isLower isUpper]
      exact full

theorem Merged.compact (merged : Merged before after gone first initial lower) (nonzero : lower ≠ 0)
    (full : ∀ i, before.Live i → i ≠ 0 → i ≠ gone → Full (before.node i)) : after.Compact := by
  intro i live notRoot
  obtain ⟨old, ne⟩ := (merged.live i).mp live
  exact merged.full nonzero (full i old notRoot ne)

theorem Pruned.full (pruned : Pruned before after gone first)
    (compact : before.Compact) (live : after.Live i)
    (notRoot : i ≠ 0) (notUpper : i ≠ (before.node gone).parent) : Full (after.node i) := by
  rw [pruned.otherNode i notUpper]
  exact compact i ((pruned.live i).mp live).1 notRoot

end StateImpl

end AutomatonCore.State
