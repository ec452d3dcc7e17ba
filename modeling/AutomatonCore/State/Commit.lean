import AutomatonCore.State.Compaction
import AutomatonCore.State.Histories

/-!
# When a commit preserves the tree
-/

namespace AutomatonCore.State

open Io

namespace StateImpl

variable {before after : StateImpl} {path : Nat → Bytes}
  {slot : Nat → Option Nat}

/-- Every node reachable before is reachable afterwards at its new place,
with the same data and with links inside the vector that lead to the new
places of the same nodes, and there are no others. -/
structure Relocation (before after : StateImpl) (place : Nat → Nat) : Prop where
  root : place 0 = 0
  injective : ∀ first second, before.Reachable first → before.Reachable second →
      place first = place second → first = second
  reachable : ∀ index, after.Reachable index ↔ ∃ old, before.Reachable old ∧ place old = index
  data : ∀ old, before.Reachable old → (after.node (place old)).prefixBytes =
          (before.node old).prefixBytes ∧
        (after.node (place old)).value = (before.node old).value ∧
          (after.node (place old)).hash = (before.node old).hash
  parent :
    ∀ old, before.Reachable old → (after.node (place old)).parent = place (before.node old).parent ∧
      (after.node (place old)).parent < after.nodes.length
  children : ∀ old byte, before.Reachable old → (after.node (place old)).children byte =
          (if (before.node old).children byte = 0 then 0
            else place ((before.node old).children byte)) ∧
        (after.node (place old)).children byte < after.nodes.length

/-- The answers stay, and the nodes have only changed their places. -/
structure Preserves (before after : StateImpl) : Prop where
  get : ∀ key, after.get key = before.get key
  rootHash : after.getNodeHash [] = before.getNodeHash []
  nodes : ∃ place, Relocation before after place

/-- No slot is free, or the first slot behind the nodes that are kept is free
and all nodes in use behind it are leaves. -/
def CompactsSafely (state : StateImpl) : Prop :=
  state.freeLocations = ∅ ∨ (state.keptCount ∈ state.freeLocations ∧
    ∀ index < state.nodes.length, state.keptCount < index →
    index ∉ state.freeLocations → state.hasChildren index = false)

instance (state : StateImpl) : Decidable state.CompactsSafely :=
  inferInstanceAs (Decidable (_ ∨ _))

theorem hasChildren_eq_false_iff (s : StateImpl) (i : Nat) :
    s.hasChildren i = false ↔ ∀ b, (s.node i).children b = 0 := by
  rw [← Bool.not_eq_true, hasChildren_iff]
  simp

namespace Compacted

variable {target : Nat}

theorem copy (compacted : Compacted before after slot target)
    {old pos : Nat} (live : before.Live old) (bound : pos < before.keptCount)
    (position_eq : pos = old ∨ slot old = some pos) :
    Copied slot (before.node old) (after.node pos) := by
  obtain ⟨moved, compacting, nodes⟩ := compacted.loop
  have targetFree := (compacting.inside target (by simp)).2
  rcases position_eq with rfl | used
  · rw [nodes pos bound, if_neg]
    · exact compacting.live_stays live
    · rintro rfl
      exact live.2 targetFree
  · have smaller := (compacting.source old pos used).2.2.2 target (by simp)
    rw [nodes pos bound, if_neg (ne_of_lt smaller)]
    exact compacting.moved old pos used

theorem place_eq {place : Nat → Nat} (compacted : Compacted before after slot target)
    (linked : before.Linked path) (relocation : Relocation before after place) {old : Nat}
    (reachable : before.Reachable old) :
    place old < before.keptCount ∧ (place old = old ∨ slot old = some (place old)) := by
  induction reachable with
  | root =>
    rw [relocation.root]
    refine ⟨?_, .inl rfl⟩
    have bound := (relocation.parent 0 .root).2
    rw [compacted.length] at bound
    omega
  | @child upper b upperReachable present ih =>
    obtain ⟨link, bound⟩ := relocation.children upper b upperReachable
    rw [if_neg present] at link
    rw [compacted.length, link] at bound
    refine ⟨bound, ?_⟩
    have copied := compacted.copy (linked.live_of_reachable upperReachable) ih.1 ih.2
    rw [← link]
    exact copied.children b

/-- A moved node must have no children, since their parent links stay, and
nothing may have to be moved after the loop, since that link stays too. -/
theorem safe_of_relocation {place : Nat → Nat} (compacted : Compacted before after slot target)
    (linked : before.Linked path) (relocation : Relocation before after place)
    (fewer : before.keptCount < before.nodes.length) : before.CompactsSafely := by
  obtain ⟨moved, compacting, _⟩ := compacted.loop
  refine .inr ⟨?_, ?_⟩
  · by_contra inUse
    have live : before.Live before.keptCount := ⟨fewer, inUse⟩
    have reachable := (linked.reachable_iff _).mpr live
    obtain ⟨bound, stays | used⟩ := compacted.place_eq linked relocation reachable
    · omega
    · have beyond := (compacting.source _ _ used).2.1
      exact lt_irrefl _ beyond
  · intro i inside beyond inUse
    rw [hasChildren_eq_false_iff]
    intro b
    by_contra present
    obtain ⟨childLive, parentShape, _⟩ := linked.child ⟨inside, inUse⟩ present
    have reachable := (linked.reachable_iff _).mpr childLive
    obtain ⟨bound, pos⟩ := compacted.place_eq linked relocation reachable
    have copied := compacted.copy childLive bound pos
    have parentBound := (relocation.parent _ reachable).2
    rw [copied.parent, compacted.length] at parentBound
    omega

end Compacted

namespace Relocation

variable {place : Nat → Nat}

theorem linked (relocation : Relocation before after place) (linked : before.Linked path)
    (live : ∀ i, after.Live i ↔ after.Reachable i) (noFree : after.freeLocations = ∅) :
    ∃ newPath, after.Linked newPath ∧ ∀ old, before.Live old → newPath (place old) = path old := by
  classical
  have whole : ∀ i, after.Live i ↔ ∃ old, before.Live old ∧ place old = i := by
    intro i
    rw [live, relocation.reachable]
    simp only [linked.reachable_iff]
  obtain ⟨newPath, carried⟩ :
      ∃ newPath : Nat → Bytes, ∀ old, before.Live old → newPath (place old) = path old := by
    refine ⟨fun i =>
        if found : ∃ old, before.Live old ∧ place old = i then path found.choose
        else
          [], ?_⟩
    intro old oldLive
    have found : ∃ other, before.Live other ∧ place other = place old := ⟨old, oldLive, rfl⟩
    dsimp only
    rw [dif_pos found]
    congr 1
    exact relocation.injective _ _ ((linked.reachable_iff _).mpr found.choose_spec.1)
        ((linked.reachable_iff _).mpr oldLive) found.choose_spec.2
  have reach := fun {old : Nat} (oldLive : before.Live old) =>
    (linked.reachable_iff old).mpr oldLive
  refine ⟨newPath, ⟨⟨?_, ?_, ?_, ?_⟩, by simp [noFree], ?_, ?_⟩, carried⟩
  · exact (whole 0).mpr ⟨0, linked.rootLive, relocation.root⟩
  · have rootPath := carried 0 linked.rootLive
    rw [relocation.root, linked.rootPath] at rootPath
    exact rootPath
  · intro upper a lower upperLive link
    obtain ⟨old, oldLive, rfl⟩ := (whole upper).mp upperLive
    obtain ⟨childShape, nonzero⟩ := childAt_eq_some.mp link
    have childLink := (relocation.children old a (reach oldLive)).1
    have present : (before.node old).children a ≠ 0 := by
      intro absent
      rw [if_pos absent, childShape] at childLink
      exact nonzero childLink
    rw [if_neg present, childShape] at childLink
    obtain ⟨childLive, parentShape, rest, label, _⟩ := linked.child oldLive present
    subst childLink
    refine ⟨(whole _).mpr ⟨_, childLive, rfl⟩, nonzero, ?_, rest, ?_⟩
    · have newParent := (relocation.parent _ (reach childLive)).1
      rw [parentShape] at newParent
      exact newParent
    · exact (relocation.data _ (reach childLive)).1.trans label
  · intro lower lowerLive notRoot
    obtain ⟨old, oldLive, rfl⟩ := (whole lower).mp lowerLive
    have oldNotRoot : old ≠ 0 := by
      rintro rfl
      exact notRoot relocation.root
    obtain ⟨parentLive, pathShape, b, rest, label, link⟩ := linked.parent oldLive oldNotRoot
    have newParent : after.graph.parent (place old) = place (before.node old).parent :=
      (relocation.parent old (reach oldLive)).1
    have newLabel : after.graph.label (place old) = (before.node old).prefixBytes :=
      (relocation.data old (reach oldLive)).1
    have newLink := (relocation.children _ b (reach parentLive)).1
    rw [link, if_neg oldNotRoot] at newLink
    rw [newParent, newLabel, carried old oldLive, carried _ parentLive]
    refine ⟨(whole _).mpr ⟨_, parentLive, rfl⟩, pathShape, b, rest, label,
        childAt_eq_some.mpr ⟨newLink, notRoot⟩⟩
  · have data := (relocation.data 0 .root).1
    rw [relocation.root, linked.rootPrefix] at data
    exact data
  · have parent := (relocation.parent 0 .root).1
    rw [linked.rootParent, relocation.root] at parent
    exact parent

theorem preserves (relocation : Relocation before after place) (linked : before.Linked path)
    (live : ∀ i, after.Live i ↔ after.Reachable i) (noFree : after.freeLocations = ∅) :
    Preserves before after := by
  obtain ⟨newPath, newLinked, carried⟩ := relocation.linked linked live noFree
  have reach := fun {old : Nat} (oldLive : before.Live old) =>
    (linked.reachable_iff old).mpr oldLive
  refine ⟨?_, ?_, place, relocation⟩
  · intro k
    apply get_eq_get newLinked linked
    intro v
    constructor
    · rintro ⟨ne, i, indexLive, rfl, stored⟩
      obtain ⟨old, oldReachable, rfl⟩ := (relocation.reachable i).mp ((live i).mp indexLive)
      have oldLive := linked.live_of_reachable oldReachable
      refine ⟨ne, old, oldLive, (carried old oldLive).symm, ?_⟩
      rw [← (relocation.data old oldReachable).2.1]
      exact stored
    · rintro ⟨ne, old, oldLive, rfl, stored⟩
      have oldReachable := reach oldLive
      refine ⟨ne, place old, ?_, carried old oldLive, ?_⟩
      · exact (live _).mpr ((relocation.reachable _).mpr ⟨old, oldReachable, rfl⟩)
      · rw [(relocation.data old oldReachable).2.1]
        exact stored
  · have data := (relocation.data 0 .root).2.2
    rw [relocation.root] at data
    exact data

end Relocation

/-- Where the compaction puts a node. -/
def newPlace (state : StateImpl) (slot : Nat → Option Nat) (index : Nat) : Nat :=
  if index < state.keptCount then index else (slot index).getD 0

namespace Compacted

variable {target : Nat}

theorem target_eq (compacted : Compacted before after slot target)
    (isFree : before.keptCount ∈ before.freeLocations) : target = before.keptCount := by
  obtain ⟨moved, compacting, _⟩ := compacted.loop
  rcases compacting.free _ isFree with inRest | beyond | ⟨other, used⟩
  · exact (List.mem_singleton.mp inRest).symm
  · exact absurd beyond (lt_irrefl _)
  · have smaller := (compacting.source _ _ used).2.2.2 target (by simp)
    have inside := (compacting.inside target (by simp)).1
    omega

variable {i : Nat}

theorem newPlace_spec (compacted : Compacted before after slot target)
    (isFree : before.keptCount ∈ before.freeLocations) (live : before.Live i) :
    (i < before.keptCount ∧ before.newPlace slot i = i) ∨ (before.keptCount < i ∧
      slot i = some (before.newPlace slot i) ∧ before.newPlace slot i < before.keptCount) := by
  have isTarget := compacted.target_eq isFree
  obtain ⟨moved, compacting, _⟩ := compacted.loop
  unfold newPlace
  by_cases below : i < before.keptCount
  · rw [if_pos below]
    exact .inl ⟨below, rfl⟩
  · have ne : i ≠ before.keptCount := by
      rintro rfl
      exact live.2 isFree
    obtain ⟨place, used⟩ := compacting.complete i live (by omega)
    have smaller := (compacting.source _ _ used).2.2.2 target (by simp)
    rw [if_neg below, used]
    exact .inr ⟨by omega, rfl, isTarget ▸ smaller⟩

theorem newPlace_lt (compacted : Compacted before after slot target)
    (isFree : before.keptCount ∈ before.freeLocations) (live : before.Live i) :
    before.newPlace slot i < before.keptCount := by
  rcases compacted.newPlace_spec isFree live with
    ⟨below, same⟩ | ⟨_, _, bound⟩
  · rw [same]
    exact below
  · exact bound

theorem newPlace_copy (compacted : Compacted before after slot target)
    (isFree : before.keptCount ∈ before.freeLocations) (live : before.Live i) :
    Copied slot (before.node i) (after.node (before.newPlace slot i)) := by
  apply compacted.copy live (compacted.newPlace_lt isFree live)
  rcases compacted.newPlace_spec isFree live with
    ⟨_, same⟩ | ⟨_, used, _⟩
  · exact .inl same
  · exact .inr used

theorem newPlace_children (compacted : Compacted before after slot target)
    (linked : before.Linked path) (isFree : before.keptCount ∈ before.freeLocations)
    (leaves : ∀ i, before.Live i → before.keptCount < i → ∀ byte, (before.node i).children byte = 0)
    (live : before.Live i) (byte : UInt8) :
    (after.node (before.newPlace slot i)).children byte =
      if (before.node i).children byte = 0 then 0
      else before.newPlace slot ((before.node i).children byte) := by
  have copied := (compacted.newPlace_copy isFree live).children byte
  have unmoved : ∀ other, other ≤ before.keptCount → slot other = none := by
    intro other small
    obtain ⟨moved, compacting, _⟩ := compacted.loop
    exact compacting.unmoved small
  by_cases absent : (before.node i).children byte = 0
  · rw [if_pos absent]
    rw [absent, unmoved 0 (Nat.zero_le _)] at copied
    simpa using copied
  · rw [if_neg absent]
    obtain ⟨childLive, parentShape, rest, label, _⟩ := linked.child live absent
    have stays : before.newPlace slot i = i := by
      rcases compacted.newPlace_spec isFree live with
        ⟨_, same⟩ | ⟨beyond, _⟩
      · exact same
      · exact absurd (leaves i live beyond byte) absent
    rcases compacted.newPlace_spec isFree childLive with
      ⟨below, same⟩ | ⟨beyond, used, _⟩
    · rw [same]
      rw [unmoved _ (le_of_lt below)] at copied
      simpa using copied
    · -- the loop has redirected the link in the parent, which stays
      have bound := compacted.newPlace_lt isFree live
      rw [stays] at bound ⊢
      have isTarget := compacted.target_eq isFree
      obtain ⟨moved, compacting, nodes⟩ := compacted.loop
      have link := compacting.redirected _ _ used
      rw [parentShape] at link
      have firstByte : (before.node ((before.node i).children byte)).firstByte = byte := by
        simp [Node.firstByte, label]
      rw [firstByte] at link
      rw [nodes i bound, if_neg (by omega)]
      exact link

theorem newPlace_parent (compacted : Compacted before after slot target)
    (linked : before.Linked path) (isFree : before.keptCount ∈ before.freeLocations)
    (leaves : ∀ i, before.Live i → before.keptCount < i → ∀ b, (before.node i).children b = 0)
    (live : before.Live i) :
    (after.node (before.newPlace slot i)).parent = before.newPlace slot (before.node i).parent := by
  rw [(compacted.newPlace_copy isFree live).parent]
  by_cases isRoot : i = 0
  · subst isRoot
    rw [linked.rootParent]
    rcases compacted.newPlace_spec isFree live with
      ⟨_, same⟩ | ⟨beyond, _⟩
    · exact same.symm
    · omega
  · obtain ⟨parentLive, _, b, _, _, link⟩ := linked.parent live isRoot
    rcases compacted.newPlace_spec isFree parentLive with
      ⟨_, same⟩ | ⟨beyond, _⟩
    · exact same.symm
    · have leaf := leaves _ parentLive beyond b
      rw [link] at leaf
      exact absurd leaf isRoot

theorem newPlace_root (compacted : Compacted before after slot target) (linked : before.Linked path)
    (isFree : before.keptCount ∈ before.freeLocations) : before.newPlace slot 0 = 0 := by
  rcases compacted.newPlace_spec isFree linked.rootLive with
    ⟨_, same⟩ | ⟨beyond, _⟩
  · exact same
  · omega

theorem newPlace_injective (compacted : Compacted before after slot target)
    (isFree : before.keptCount ∈ before.freeLocations)
    {first second : Nat} (firstLive : before.Live first) (secondLive : before.Live second)
    (same : before.newPlace slot first = before.newPlace slot second) : first = second := by
  obtain ⟨moved, compacting, _⟩ := compacted.loop
  rcases compacted.newPlace_spec isFree firstLive with
    ⟨_, firstSame⟩ | ⟨_, firstUsed, _⟩
  · rcases compacted.newPlace_spec isFree secondLive with
      ⟨_, secondSame⟩ | ⟨_, secondUsed, _⟩
    · exact firstSame.symm.trans (same.trans secondSame)
    · rw [← same, firstSame] at secondUsed
      exact absurd (compacting.source _ _ secondUsed).2.2.1 firstLive.2
  · rcases compacted.newPlace_spec isFree secondLive with
      ⟨_, secondSame⟩ | ⟨_, secondUsed, _⟩
    · rw [same, secondSame] at firstUsed
      exact absurd (compacting.source _ _ firstUsed).2.2.1 secondLive.2
    · rw [← same] at secondUsed
      exact compacting.injective _ _ _ firstUsed secondUsed

theorem exists_newPlace (compacted : Compacted before after slot target)
    (isFree : before.keptCount ∈ before.freeLocations) (inside : i < before.keptCount) :
    ∃ old, before.Live old ∧ before.newPlace slot old = i := by
  by_cases free : i ∈ before.freeLocations
  · have isTarget := compacted.target_eq isFree
    obtain ⟨moved, compacting, _⟩ := compacted.loop
    rcases compacting.free i free with
      inRest | beyond | ⟨other, used⟩
    · have here := List.mem_singleton.mp inRest
      omega
    · omega
    · obtain ⟨otherLive, beyond, _⟩ := compacting.source other i used
      refine ⟨other, otherLive, ?_⟩
      rcases compacted.newPlace_spec isFree otherLive with
        ⟨below, _⟩ | ⟨_, place, _⟩
      · omega
      · exact Option.some.inj (place.symm.trans used)
  · have old : before.Live i := by
      refine ⟨?_, free⟩
      have fewer : before.keptCount ≤ before.nodes.length := Nat.sub_le _ _
      omega
    refine ⟨i, old, ?_⟩
    rcases compacted.newPlace_spec isFree old with ⟨_, same⟩ | ⟨beyond, _⟩
    · exact same
    · omega

theorem reachable_newPlace (compacted : Compacted before after slot target)
    (linked : before.Linked path) (isFree : before.keptCount ∈ before.freeLocations)
    (leaves : ∀ i, before.Live i → before.keptCount < i → ∀ b, (before.node i).children b = 0)
    (i : Nat) : after.Reachable i ↔ ∃ old, before.Reachable old ∧ before.newPlace slot old = i := by
  have root := compacted.newPlace_root linked isFree
  have children :=
    fun {i : Nat} (live : before.Live i) (b : UInt8) =>
      compacted.newPlace_children linked isFree leaves live b
  constructor
  · intro reached
    induction reached with
    | root => exact ⟨0, .root, root⟩
    | child b _ present ih =>
      obtain ⟨old, oldReachable, rfl⟩ := ih
      have link := children (linked.live_of_reachable oldReachable) b
      by_cases absent : (before.node old).children b = 0
      · rw [if_pos absent] at link
        exact absurd link present
      · rw [if_neg absent] at link
        exact ⟨_, .child b oldReachable absent, link.symm⟩
  · rintro ⟨old, oldReachable, rfl⟩
    induction oldReachable with
    | root =>
      rw [root]
      exact .root
    | @child upper b upperReachable present ih =>
      have upperLive := linked.live_of_reachable upperReachable
      have link := children upperLive b
      rw [if_neg present] at link
      rw [← link]
      refine .child b ih ?_
      rw [link]
      intro isRoot
      -- only the root is at the place of the root
      have childLive := (linked.child upperLive present).1
      exact present
        (compacted.newPlace_injective isFree childLive linked.rootLive (isRoot.trans root.symm))

theorem relocation (compacted : Compacted before after slot target) (linked : before.Linked path)
    (isFree : before.keptCount ∈ before.freeLocations)
    (leaves : ∀ i, before.Live i → before.keptCount < i → ∀ b, (before.node i).children b = 0) :
    Relocation before after (before.newPlace slot) ∧ ∀ i, after.Live i ↔ after.Reachable i := by
  have reachable := compacted.reachable_newPlace linked isFree leaves
  have bound := fun {i : Nat} (live : before.Live i) => compacted.newPlace_lt isFree live
  refine
    ⟨{ root := compacted.newPlace_root linked isFree
       injective := ?_
       reachable := reachable
       data := ?_
       parent := ?_
       children := ?_ }, ?_⟩
  · intro first second firstReachable secondReachable same
    exact compacted.newPlace_injective isFree (linked.live_of_reachable firstReachable)
        (linked.live_of_reachable secondReachable) same
  · intro old oldReachable
    have copied := compacted.newPlace_copy isFree (linked.live_of_reachable oldReachable)
    exact ⟨copied.prefixBytes, copied.value, copied.hash⟩
  · intro old oldReachable
    have live := linked.live_of_reachable oldReachable
    have parent := compacted.newPlace_parent linked isFree leaves live
    refine ⟨parent, ?_⟩
    rw [parent, compacted.length]
    by_cases isRoot : old = 0
    · subst isRoot
      rw [linked.rootParent]
      exact bound live
    · exact bound (linked.parent live isRoot).1
  · intro old b oldReachable
    have live := linked.live_of_reachable oldReachable
    have link := compacted.newPlace_children linked isFree leaves live b
    refine ⟨link, ?_⟩
    rw [link, compacted.length]
    split
    · exact lt_of_le_of_lt (Nat.zero_le _) (bound linked.rootLive)
    next present =>
      exact bound (linked.child live present).1
  · intro i
    rw [reachable]
    simp only [Live, compacted.freeLocations, compacted.length,
      Finset.notMem_empty, not_false_eq_true, and_true]
    constructor
    · intro inside
      obtain ⟨old, live, place⟩ := compacted.exists_newPlace isFree inside
      exact ⟨old, (linked.reachable_iff _).mpr live, place⟩
    · rintro ⟨old, oldReachable, rfl⟩
      exact bound (linked.live_of_reachable oldReachable)

end Compacted

theorem commitChanges_of_noFree (noFree : before.freeLocations = ∅) :
    before.commitChanges.nodes = before.nodes ∧ before.commitChanges.freeLocations = ∅ := by
  simp [commitChanges, noFree]

theorem Relocation.refl_of_nodes (linked : before.Linked path)
    (nodes : after.nodes = before.nodes) : Relocation before after id := by
  have sameNode : ∀ i, after.node i = before.node i := by
    intro i
    simp [node, nodes]
  have sameReachable : ∀ i, after.Reachable i ↔ before.Reachable i := by
    intro i
    constructor
    · intro reached
      induction reached with
      | root => exact .root
      | child b _ present ih =>
        rw [sameNode] at present ⊢
        exact .child b ih present
    · intro reached
      induction reached with
      | root => exact .root
      | child b _ present ih =>
        rw [← sameNode] at present ⊢
        exact .child b ih present
  refine
    { root := rfl
      injective := fun _ _ _ _ same => same
      reachable := by simp [sameReachable]
      data := by simp [sameNode]
      parent := ?_
      children := ?_ }
  · intro old reachable
    have live := linked.live_of_reachable reachable
    simp only [id, sameNode, nodes, true_and]
    by_cases isRoot : old = 0
    · subst isRoot
      rw [linked.rootParent]
      exact live.1
    · exact (linked.parent live isRoot).1.1
  · intro old b reachable
    have live := linked.live_of_reachable reachable
    simp only [id, sameNode, nodes]
    by_cases absent : (before.node old).children b = 0
    · rw [absent]
      exact ⟨by simp, linked.rootLive.1⟩
    · exact ⟨by simp [absent], (linked.child live absent).1.1⟩

/-- Without the repair of the last link, a key that should survive is lost:
the root still points to the old slot, which is outside the vector. -/
theorem commitChanges_loses_link :
    ¬ Preserves (create.run checksum
        [.set (text "a") (text "1"), .set (text "b") (text "2"), .erase (text "a")])
      (create.run checksum [.set (text "a") (text "1"), .set (text "b") (text "2"),
          .erase (text "a")]).commitChanges := by
  intro preserves
  obtain ⟨place, relocation⟩ := preserves.nodes
  have bound := (relocation.children 0 98 .root).2
  rw [relocation.root] at bound
  exact absurd bound (by decide +kernel)

/-- After a history over nonempty keys, a commit preserves the tree exactly
if it compacts safely. -/
theorem commitChanges_preserves_iff (H : HashTransformation) (requests : List Request)
    (ne : ∀ req ∈ requests, req.key ≠ []) :
    Preserves (create.run H requests)
        (create.run H requests).commitChanges ↔ (create.run H requests).CompactsSafely := by
  obtain ⟨path, wf, _⟩ := history_simulates H requests ne
  have linked := wf.linked
  generalize create.run H requests = s at *
  by_cases noFree : s.freeLocations = ∅
  · obtain ⟨nodes, stillNoFree⟩ := commitChanges_of_noFree noFree
    refine ⟨fun _ => .inl noFree, fun _ => ?_⟩
    have relocation := Relocation.refl_of_nodes linked nodes
    apply relocation.preserves linked _ stillNoFree
    intro i
    rw [relocation.reachable]
    simp [linked.reachable_iff, Live, nodes, noFree, stillNoFree]
  · obtain ⟨slot, target, compacted⟩ := commitChanges_spec linked noFree
    have fewer : s.keptCount < s.nodes.length := by
      have pos : 0 < s.freeLocations.card :=
        Finset.card_pos.mpr (Finset.nonempty_iff_ne_empty.mpr noFree)
      have bound := linked.rootLive.1
      unfold keptCount
      omega
    constructor
    · intro preserves
      obtain ⟨place, relocation⟩ := preserves.nodes
      exact compacted.safe_of_relocation linked relocation fewer
    · rintro (empty | ⟨isFree, leaves⟩)
      · exact absurd empty noFree
      · obtain ⟨relocation, live⟩ :=
          compacted.relocation linked isFree fun i live beyond =>
            (hasChildren_eq_false_iff _ _).mp (leaves i live.1 beyond live.2)
        exact relocation.preserves linked live compacted.freeLocations

theorem commitChanges_preserves_moved_leaf :
    Preserves (create.run checksum [.set (text "a") (text "1"), .set (text "b") (text "2"),
          .set (text "c") (text "3"), .erase (text "a"), .erase (text "b")])
      (create.run checksum [.set (text "a") (text "1"), .set (text "b") (text "2"),
          .set (text "c") (text "3"), .erase (text "a"), .erase (text "b")]).commitChanges :=
  (commitChanges_preserves_iff checksum _ (by decide)).mpr (by decide +kernel)

end StateImpl

end AutomatonCore.State
