import AutomatonCore.State.Arena

/-!
# The compaction loop of a commit
-/

namespace AutomatonCore.State

open Io List

namespace StateImpl

variable {before current after : StateImpl} {path : Nat → Bytes}
  {slot : Nat → Option Nat}

/-- A node after the loop: some of its child links are redirected, its parent
link is not. -/
structure Copied (slot : Nat → Option Nat) (old new : Node) : Prop where
  parent : new.parent = old.parent
  prefixBytes : new.prefixBytes = old.prefixBytes
  hash : new.hash = old.hash
  value : new.value = old.value
  children : ∀ byte, new.children byte = old.children byte ∨
      slot (old.children byte) = some (new.children byte)

theorem Copied.extend {wider : Nat → Option Nat} {old new : Node} (copied : Copied slot old new)
    (wide : ∀ i target, slot i = some target → wider i = some target) :
    Copied wider old new where
  parent := copied.parent
  prefixBytes := copied.prefixBytes
  hash := copied.hash
  value := copied.value
  children b := (copied.children b).imp_right (wide _ _)

/-- The invariant of the loop of `commit_changes`.  `rest` are the free slots
between the two iterators, and `slot` tells where the nodes behind
`lastElement` have gone. -/
structure Compacting (before current : StateImpl)
    (slot : Nat → Option Nat) (lastElement : Nat) (rest : List Nat) : Prop where
  length : current.nodes.length = before.nodes.length
  source : ∀ index target, slot index = some target → before.Live index ∧ lastElement < index ∧
      target ∈ before.freeLocations ∧ ∀ free ∈ rest, target < free
  complete : ∀ index, before.Live index → lastElement < index → ∃ target, slot index = some target
  injective :
    ∀ first second target, slot first = some target → slot second = some target → first = second
  stays : ∀ index, (∀ other, slot other ≠ some index) →
      Copied slot (before.node index) (current.node index)
  moved :
    ∀ index target, slot index = some target → Copied slot (before.node index) (current.node target)
  redirected : ∀ index target, slot index = some target →
      (current.node (before.node index).parent).children (before.node index).firstByte = target
  sorted : rest.Pairwise (· < ·)
  inside : ∀ free ∈ rest, free ≤ lastElement ∧ free ∈ before.freeLocations
  free : ∀ index ∈ before.freeLocations,
      index ∈ rest ∨ lastElement < index ∨ ∃ other, slot other = some index
  count : lastElement + 1 + before.freeLocations.card = before.nodes.length + rest.length

variable {lastElement i target : Nat} {rest : List Nat} {first : UInt8}

theorem Compacting.live_stays (compacting : Compacting before current slot lastElement rest)
    (live : before.Live i) : Copied slot (before.node i) (current.node i) := by
  apply compacting.stays
  intro other used
  exact live.2 (compacting.source other i used).2.2.1

theorem Compacting.skip
    (compacting : Compacting before current slot lastElement (rest ++ [lastElement]))
    (rootLive : before.Live 0) : Compacting before current slot (lastElement - 1) rest := by
  have isFree : lastElement ∈ before.freeLocations := (compacting.inside lastElement (by simp)).2
  have pos : 0 < lastElement := by
    rcases Nat.eq_zero_or_pos lastElement with isRoot | pos
    · rw [isRoot] at isFree
      exact absurd isFree rootLive.2
    · exact pos
  have sorted := pairwise_append.mp compacting.sorted
  refine
    { length := compacting.length
      source := ?_
      complete := ?_
      injective := compacting.injective
      stays := compacting.stays
      moved := compacting.moved
      redirected := compacting.redirected
      sorted := sorted.1
      inside := ?_
      free := ?_
      count := ?_ }
  · intro i target used
    obtain ⟨live, beyond, targetFree, smaller⟩ := compacting.source i target used
    exact ⟨live, by omega, targetFree, fun free mem => smaller free (mem_append_left _ mem)⟩
  · intro i live beyond
    have ne : i ≠ lastElement := by
      rintro rfl
      exact live.2 isFree
    exact compacting.complete i live (by omega)
  · intro free mem
    have smaller := sorted.2.2 free mem lastElement (by simp)
    exact ⟨by omega, (compacting.inside free (mem_append_left _ mem)).2⟩
  · intro i mem
    rcases compacting.free i mem with inRest | beyond | used
    · rcases mem_append.mp inRest with kept | isLast
      · exact .inl kept
      · rw [mem_singleton] at isLast
        exact .inr (.inl (by omega))
    · exact .inr (.inl (by omega))
    · exact .inr (.inr used)
  · have count := compacting.count
    simp only [length_append, length_singleton] at count
    omega

/-- A round of the loop moves the last node into a free slot and redirects the
child link in its parent. -/
def moveLast (state : StateImpl) (target lastElement : Nat) : StateImpl :=
  let copied := state.update target fun _ => state.node lastElement
  copied.update (copied.node lastElement).parent fun node =>
    node.setChild (copied.node lastElement).firstByte target

theorem Compacting.last_live
    (compacting : Compacting before current slot lastElement (target :: rest))
    (notFree : lastElement ∉ target :: rest) : before.Live lastElement := by
  have count := compacting.count
  have inside := (compacting.inside target (by simp)).1
  refine ⟨?_, ?_⟩
  · have fewer : (target :: rest).length ≤ before.freeLocations.card := by
      have subset : (target :: rest).toFinset ⊆ before.freeLocations := by
        intro free mem
        exact (compacting.inside free (mem_toFinset.mp mem)).2
      have distinct : (target :: rest).Nodup := compacting.sorted.imp ne_of_lt
      rw [← toFinset_card_of_nodup distinct]
      exact Finset.card_le_card subset
    omega
  · intro mem
    rcases compacting.free lastElement mem with
      inRest | beyond | ⟨other, used⟩
    · exact notFree inRest
    · exact lt_irrefl _ beyond
    · obtain ⟨_, _, _, smaller⟩ := compacting.source other lastElement used
      have less := smaller target (by simp)
      omega

structure LastMoved (before current next : StateImpl)
    (target lastElement : Nat) (first : UInt8) : Prop where
  length : next.nodes.length = current.nodes.length
  targetNode : next.node target = current.node lastElement
  upperNode :
    next.node (before.node lastElement).parent =
      (current.node (before.node lastElement).parent).setChild first target
  otherNode : ∀ index, index ≠ target → index ≠ (before.node lastElement).parent →
      next.node index = current.node index

theorem Compacting.moveLast
    (compacting : Compacting before current slot lastElement (target :: rest))
    (linked : before.Linked path) (live : before.Live lastElement)
    (notRoot : lastElement ≠ 0) {initial : Bytes}
    (label : (before.node lastElement).prefixBytes = first :: initial) :
    LastMoved before current (current.moveLast target lastElement) target lastElement first := by
  have upperLive := (linked.parent live notRoot).1
  have targetFree := (compacting.inside target (by simp)).2
  have targetBound : target < current.nodes.length := by
    rw [compacting.length]
    exact linked.freeBound target targetFree
  have upperBound : (before.node lastElement).parent < current.nodes.length := by
    rw [compacting.length]
    exact upperLive.1
  have lastNe : lastElement ≠ target := by
    rintro rfl
    exact live.2 targetFree
  have upperNe : (before.node lastElement).parent ≠ target := by
    intro same
    exact upperLive.2 (same ▸ targetFree)
  have lastCopy := compacting.live_stays live
  have firstByte : (current.node lastElement).firstByte = first := by
    simp [Node.firstByte, lastCopy.prefixBytes, label]
  simp only [StateImpl.moveLast, node_update_ne lastNe, lastCopy.parent, firstByte]
  refine ⟨by simp, ?_, ?_, ?_⟩
  · rw [node_update_ne upperNe.symm, node_update_self targetBound]
  · rw [node_update_self (by simpa using upperBound), node_update_ne upperNe]
  · intro i notTarget notUpper
    rw [node_update_ne notUpper, node_update_ne notTarget]

theorem update_slot_iff (target : Nat) (unmoved : slot lastElement = none) (i place : Nat) :
    Function.update slot lastElement (some target) i = some place ↔
      (i = lastElement ∧ place = target) ∨ slot i = some place := by
  by_cases isLast : i = lastElement
  · subst isLast
    simp [unmoved, eq_comm]
  · simp [isLast]

theorem Compacting.unmoved (compacting : Compacting before current slot lastElement rest)
    (small : i ≤ lastElement) : slot i = none := by
  cases used : slot i with
  | none => rfl
  | some place =>
    have beyond := (compacting.source i place used).2.1
    omega

theorem Compacting.move_stays
    {next : StateImpl} (compacting : Compacting before current slot lastElement (target :: rest))
    (effect : LastMoved before current next target lastElement first)
    (link : (before.node (before.node lastElement).parent).children first = lastElement)
    (unused : ∀ other, Function.update slot lastElement (some target) other ≠ some i) :
    Copied (Function.update slot lastElement (some target)) (before.node i) (next.node i) := by
  have table := update_slot_iff target (compacting.unmoved (Nat.le_refl lastElement))
  have notTarget : i ≠ target := by
    rintro rfl
    exact unused lastElement (Function.update_self ..)
  have copy :=
    (compacting.stays i fun other used =>
      unused other ((table other i).mpr (.inr used))).extend
        fun other place used => (table other place).mpr (.inr used)
  by_cases isUpper : i = (before.node lastElement).parent
  · rw [isUpper] at copy ⊢
    rw [effect.upperNode]
    refine ⟨copy.parent, copy.prefixBytes, copy.hash, copy.value, ?_⟩
    intro b
    rw [Node.setChild_children]
    split
    next isFirst =>
      right
      rw [isFirst, link, Function.update_self]
    · exact copy.children b
  · rw [effect.otherNode i notTarget isUpper]
    exact copy

theorem Compacting.move_redirected
    {next : StateImpl} (compacting : Compacting before current slot lastElement (target :: rest))
    (linked : before.Linked path) (effect : LastMoved before current next target lastElement first)
    (link : (before.node (before.node lastElement).parent).children first = lastElement)
    {place : Nat} (used : slot i = some place) :
    (next.node (before.node i).parent).children (before.node i).firstByte = place := by
  have oldLink := compacting.redirected i place used
  have targetFree := (compacting.inside target (by simp)).2
  obtain ⟨live, beyond, _⟩ := compacting.source i place used
  have notRoot : i ≠ 0 := by omega
  obtain ⟨upperLive, _, b, _, label, indexLink⟩ := linked.parent live notRoot
  have firstByte : (before.node i).firstByte = b := by simp [Node.firstByte, label]
  rw [firstByte] at oldLink ⊢
  by_cases sameUpper : (before.node i).parent = (before.node lastElement).parent
  · rw [sameUpper] at indexLink oldLink ⊢
    rw [effect.upperNode, Node.setChild_children, if_neg]
    · exact oldLink
    · rintro rfl
      omega
  · rw [effect.otherNode _ _ sameUpper]
    · exact oldLink
    · intro isTarget
      exact upperLive.2 (isTarget ▸ targetFree)

theorem Compacting.move (compacting : Compacting before current slot lastElement (target :: rest))
    (linked : before.Linked path) (notFree : lastElement ∉ target :: rest)
    (notRoot : lastElement ≠ 0) :
    Compacting before (current.moveLast target lastElement)
      (Function.update slot lastElement (some target)) (lastElement - 1) rest := by
  have live := compacting.last_live notFree
  obtain ⟨upperLive, _, first, initial, label, link⟩ := linked.parent live notRoot
  have targetFree := (compacting.inside target (by simp)).2
  have effect := compacting.moveLast linked live notRoot label
  have table := update_slot_iff target (compacting.unmoved (Nat.le_refl lastElement))
  have smaller := fun {i place} (used : slot i = some place) =>
    (compacting.source i place used).2.2.2
  have sorted := pairwise_cons.mp compacting.sorted
  refine
    { length := effect.length.trans compacting.length
      source := ?_
      complete := ?_
      injective := ?_
      stays := fun i unused => compacting.move_stays effect link unused
      moved := ?_
      redirected := ?_
      sorted := sorted.2
      inside := ?_
      free := ?_
      count := ?_ }
  · intro i place used
    rcases (table i place).mp used with ⟨rfl, rfl⟩ | old
    · exact ⟨live, by omega, targetFree, sorted.1⟩
    · obtain ⟨indexLive, beyond, placeFree, _⟩ := compacting.source i place old
      exact ⟨indexLive, by omega, placeFree, fun free mem =>
          smaller old free (mem_cons_of_mem _ mem)⟩
  · intro i indexLive beyond
    by_cases isLast : i = lastElement
    · exact ⟨target, (table _ _).mpr (.inl ⟨isLast, rfl⟩)⟩
    · obtain ⟨place, used⟩ := compacting.complete i indexLive (by omega)
      exact ⟨place, (table _ _).mpr (.inr used)⟩
  · intro one two place usedOne usedTwo
    rcases (table one place).mp usedOne with ⟨rfl, rfl⟩ | oldOne
    · rcases (table two place).mp usedTwo with ⟨rfl, _⟩ | oldTwo
      · rfl
      · exact absurd (smaller oldTwo place (by simp)) (lt_irrefl _)
    · rcases (table two place).mp usedTwo with ⟨rfl, rfl⟩ | oldTwo
      · exact absurd (smaller oldOne place (by simp)) (lt_irrefl _)
      · exact compacting.injective one two place oldOne oldTwo
  · intro i place used
    have wider := fun other spot (usedOther : slot other = some spot) =>
      (table other spot).mpr (.inr usedOther)
    rcases (table i place).mp used with ⟨rfl, rfl⟩ | old
    · rw [effect.targetNode]
      exact (compacting.live_stays live).extend wider
    · have placeFree := (compacting.source i place old).2.2.1
      have notTarget : place ≠ target := ne_of_lt (smaller old target (by simp))
      have notUpper : place ≠ (before.node lastElement).parent := by
        rintro rfl
        exact upperLive.2 placeFree
      rw [effect.otherNode place notTarget notUpper]
      exact (compacting.moved i place old).extend wider
  · intro i place used
    rcases (table i place).mp used with ⟨rfl, rfl⟩ | old
    · rw [effect.upperNode]
      simp [Node.firstByte, label]
    · exact compacting.move_redirected linked effect link old
  · intro free mem
    have known := compacting.inside free (mem_cons_of_mem _ mem)
    have ne : free ≠ lastElement := by
      rintro rfl
      exact notFree (mem_cons_of_mem _ mem)
    exact ⟨by omega, known.2⟩
  · intro i mem
    rcases compacting.free i mem with
      inRest | beyond | ⟨other, used⟩
    · rcases mem_cons.mp inRest with rfl | kept
      · exact .inr (.inr ⟨lastElement, (table _ _).mpr (.inl ⟨rfl, rfl⟩)⟩)
      · exact .inl kept
    · exact .inr (.inl (by omega))
    · exact .inr (.inr ⟨other, (table _ _).mpr (.inr used)⟩)
  · have count := compacting.count
    simp only [length_cons] at count
    omega

/-- The loop ends with one free slot left. -/
theorem compactLoop_spec (linked : before.Linked path) :
    ∀ (rounds : Nat) (current : StateImpl) (slot : Nat → Option Nat)
      (lastElement : Nat) (rest lowDone highDone : List Nat),
      Compacting before current slot lastElement rest →
      rest ≠ [] →
      rest.length ≤ rounds →
      ∃ final lowEnd finalLast finalSlot target, compactLoop rounds current (rest ++ lowDone)
            (rest.reverse ++ highDone) lastElement =
          (final, target :: lowEnd, finalLast) ∧
        Compacting before final finalSlot finalLast [target] := by
  intro rounds
  induction rounds with
  | zero =>
    intro _ _ _ rest _ _ _ ne enough
    exact absurd (eq_nil_of_length_eq_zero (by omega)) ne
  | succ rounds ih =>
    intro current slot lastElement rest lowDone highDone compacting ne enough
    rcases rest with _ | ⟨low, tail⟩
    · exact absurd rfl ne
    · rcases tail.eq_nil_or_concat with rfl | ⟨middle, high, rfl⟩
      · refine ⟨current, lowDone, lastElement, slot, low, ?_, compacting⟩
        simp [compactLoop]
      · rw [concat_eq_append] at compacting enough ⊢
        have sorted := pairwise_cons.mp compacting.sorted
        have ascending := pairwise_append.mp sorted.2
        have lowHigh : low < high := sorted.1 high (by simp)
        have highInside := compacting.inside high (by simp)
        have lowHead : ((low :: (middle ++ [high])) ++ lowDone).headD 0 = low := rfl
        have highShape : (low :: (middle ++ [high])).reverse ++ highDone =
              high :: ((low :: middle).reverse ++ highDone) := by
          simp
        unfold compactLoop
        rw [highShape, lowHead, headD_cons, if_pos (ne_of_lt lowHigh)]
        by_cases skips : lastElement = high
        · subst skips
          have shorter :=
            ih current slot (lastElement - 1) (low :: middle) (lastElement :: lowDone) highDone
              (compacting.skip linked.rootLive : Compacting before current slot _ (low :: middle))
              (by simp) (by simpa using enough)
          simpa using shorter
        · rw [if_neg skips]
          have notFree : lastElement ∉ low :: (middle ++ [high]) := by
            intro mem
            have bounded : lastElement ≤ high := by
              rcases mem_cons.mp mem with rfl | inTail
              · omega
              · rcases mem_append.mp inTail with inMiddle | isHigh
                · exact le_of_lt (ascending.2.2 lastElement inMiddle high (by simp))
                · rw [mem_singleton] at isHigh
                  omega
            exact skips (le_antisymm bounded highInside.1)
          have shorter :=
            ih (current.moveLast low lastElement) _ (lastElement - 1) (middle ++ [high]) lowDone
              (low :: highDone) (compacting.move linked notFree (by omega)) (by simp)
              (by simpa using enough)
          simpa [moveLast] using shorter

def keptCount (state : StateImpl) : Nat :=
  state.nodes.length - state.freeLocations.card

/-- The outcome of a compaction.  The node at `keptCount` is copied into the
remaining free slot without any link being redirected. -/
structure Compacted (before after : StateImpl) (slot : Nat → Option Nat) (target : Nat) : Prop where
  length : after.nodes.length = before.keptCount
  freeLocations : after.freeLocations = ∅
  loop : ∃ moved, Compacting before moved slot before.keptCount [target] ∧
        ∀ index < before.keptCount, after.node index =
            if index = target then moved.node before.keptCount
            else moved.node index

theorem Compacting.start (linked : before.Linked path) :
    Compacting before { before with backup := [] } (fun _ => none)
      (before.nodes.length - 1) (before.freeLocations.sort (· ≤ ·)) := by
  have pos : 0 < before.nodes.length := linked.rootLive.1
  refine
    { length := rfl
      source := by simp
      complete := ?_
      injective := by simp
      stays := fun _ _ => ⟨rfl, rfl, rfl, rfl, fun _ => .inl rfl⟩
      moved := by simp
      redirected := by simp
      sorted := before.freeLocations.sortedLT_sort.pairwise
      inside := ?_
      free := fun i mem => .inl (by simpa using mem)
      count := ?_ }
  · intro i live beyond
    have bound := live.1
    omega
  · intro free mem
    have isFree : free ∈ before.freeLocations := by simpa using mem
    have bound := linked.freeBound free isFree
    exact ⟨by omega, isFree⟩
  · rw [Finset.length_sort]
    omega

theorem commitChanges_spec (linked : before.Linked path) (occupied : before.freeLocations ≠ ∅) :
    ∃ slot target, Compacted before before.commitChanges slot target := by
  have ne : before.freeLocations.sort (· ≤ ·) ≠ [] := by
    intro empty
    apply occupied
    rw [← Finset.card_eq_zero, ← Finset.length_sort (· ≤ ·), empty]
    rfl
  obtain ⟨moved, lowEnd, lastElement, slot, target, run, compacting⟩ :=
    compactLoop_spec linked _ _ _ _ _ [] [] (Compacting.start linked) ne (le_rfl)
  have count := compacting.count
  have isLast : lastElement = before.keptCount := by
    unfold keptCount
    simp only [length_singleton] at count
    omega
  subst isLast
  rw [append_nil, append_nil] at run
  have fewer : before.keptCount ≤ moved.nodes.length := by
    rw [compacting.length]
    exact Nat.sub_le _ _
  have shape : before.commitChanges.nodes =
        (moved.update target fun _ => moved.node before.keptCount).nodes.take before.keptCount := by
    simp only [commitChanges, if_neg occupied, run, headD_cons,
      resizeNodes, update_length, compacting.length]
    simp [keptCount]
  refine ⟨slot, target, ?_, ?_, moved, compacting, ?_⟩
  · rw [shape]
    simp [fewer]
  · simp [commitChanges, if_neg occupied]
  · intro i bound
    have taken : before.commitChanges.node i =
          (moved.update target fun _ => moved.node before.keptCount).node i := by
      simp only [node, shape, getD_eq_getElem?_getD, getElem?_take_of_lt bound]
    rw [taken]
    split
    next isTarget =>
      rw [isTarget] at bound ⊢
      rw [node_update_self (lt_of_lt_of_le bound fewer)]
    next notTarget =>
      rw [node_update_ne notTarget]

end StateImpl

end AutomatonCore.State
