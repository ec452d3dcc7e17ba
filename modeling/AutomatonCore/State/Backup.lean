import AutomatonCore.State.Rehash

/-!
# What the backup map guarantees
-/

namespace AutomatonCore.State

open Io Library.RadixGraph List

namespace StateImpl

variable {state after : StateImpl} {path : Nat → Bytes}
  {origin : List Node}

/-- A node that is saved, or younger than the last commit. -/
def Held (state : StateImpl) (index : Nat) : Prop :=
  state.saved index = true ∨ state.permanentNodesCount ≤ index

/-- The backup map and the nodes that are not held give the nodes of the last
commit. -/
structure Restorable (state : StateImpl) (origin : List Node) : Prop where
  count : state.permanentNodesCount = origin.length
  within : origin.length ≤ state.nodes.length
  originParent : ∀ index < origin.length, (origin.getD index default).parent < origin.length
  bounded : ∀ entry ∈ state.backup, entry.1 < state.nodes.length
  stored : ∀ entry ∈ state.backup, entry.1 < origin.length → entry.2 = origin.getD entry.1 default
  kept : ∀ index < origin.length, ¬ state.Held index → state.node index = origin.getD index default

/-- The parent of a held node is held too, so `backup_nodes` can stop climbing
at the first held node. -/
structure Backed (state : StateImpl) (origin : List Node) : Prop
    extends Restorable state origin where
  closed : ∀ index < state.nodes.length, index ≠ 0 → state.Held index →
      state.Held (state.node index).parent

theorem saved_iff (state : StateImpl) (i : Nat) :
    state.saved i = true ↔ ∃ e ∈ state.backup, e.1 = i := by
  simp [saved]

theorem SameButHash.held (same : SameButHash state after) (i : Nat) :
    after.Held i ↔ state.Held i := by
  unfold Held saved
  rw [same.backup, same.permanentNodesCount]

/-! ## Climbing -/

def unsavedCount (state : StateImpl) : Nat :=
  ((Finset.range state.permanentNodesCount).filter fun index => state.saved index = false).card

theorem unsavedCount_le (state : StateImpl) : state.unsavedCount ≤ state.permanentNodesCount := by
  have bound :=
    Finset.card_filter_le (Finset.range state.permanentNodesCount) fun i => state.saved i = false
  simpa [unsavedCount] using bound

def save (state : StateImpl) (index : Nat) : StateImpl :=
  { state with backup := state.backup ++ [(index, state.node index)] }

theorem save_saved (state : StateImpl) (i other : Nat) :
    (state.save i).saved other = true ↔ state.saved other = true ∨ other = i := by
  have flip : i = other ↔ other = i := eq_comm
  simp [saved, save, flip]

theorem save_held (state : StateImpl) (i other : Nat) :
    (state.save i).Held other ↔ state.Held other ∨ other = i := by
  unfold Held
  rw [save_saved]
  tauto

variable {i cur : Nat}

theorem save_unsavedCount (young : i < state.permanentNodesCount)
    (unsaved : state.saved i = false) : (state.save i).unsavedCount < state.unsavedCount := by
  apply Finset.card_lt_card
  rw [Finset.ssubset_iff_of_subset]
  · refine ⟨i, by simp [young, unsaved], ?_⟩
    intro mem
    have stillUnsaved := (Finset.mem_filter.mp mem).2
    have nowSaved := (save_saved state i i).mpr (.inr rfl)
    rw [stillUnsaved] at nowSaved
    cases nowSaved
  · intro other mem
    obtain ⟨range, stillUnsaved⟩ := Finset.mem_filter.mp mem
    refine Finset.mem_filter.mpr ⟨range, ?_⟩
    by_contra wasSaved
    have nowSaved := (save_saved state i other).mpr (.inl (by simpa using wasSaved))
    rw [stillUnsaved] at nowSaved
    cases nowSaved

/-- The invariant while `backup_nodes` climbs: only the parent that is to be
saved next may be missing. -/
structure Climbing (state : StateImpl) (origin : List Node)
    (curNode : Nat) : Prop extends Restorable state origin where
  next : ∀ index < state.nodes.length, index ≠ 0 → state.Held index →
      state.Held (state.node index).parent ∨ (state.node index).parent = curNode

theorem Backed.climbing (backed : state.Backed origin) (cur : Nat) : state.Climbing origin cur :=
  ⟨backed.toRestorable, fun i bound notRoot held => .inl (backed.closed i bound notRoot held)⟩

theorem Climbing.backed (climbing : state.Climbing origin cur)
    (held : state.Held cur) : state.Backed origin := by
  refine ⟨climbing.toRestorable, ?_⟩
  intro i bound notRoot indexHeld
  rcases climbing.next i bound notRoot indexHeld with
    parentHeld | parentNext
  · exact parentHeld
  · rw [parentNext]
    exact held

theorem Climbing.save (climbing : state.Climbing origin cur)
    (bound : cur < state.nodes.length) (unsaved : state.saved cur = false) :
    (state.save cur).Climbing origin (state.node cur).parent where
  count := climbing.count
  within := climbing.within
  originParent := climbing.originParent
  bounded := by
    intro e mem
    rcases mem_append.mp mem with old | new
    · exact climbing.bounded e old
    · rw [mem_singleton] at new
      rw [new]
      exact bound
  stored := by
    intro e mem inside
    rcases mem_append.mp mem with old | new
    · exact climbing.stored e old inside
    · rw [mem_singleton] at new
      rw [new] at inside ⊢
      apply climbing.kept cur inside
      rintro (saved | young)
      · rw [unsaved] at saved
        cases saved
      · have count := climbing.count
        omega
  kept := by
    intro i inside notHeld
    exact climbing.kept i inside fun held => notHeld ((save_held state cur i).mpr (.inl held))
  next := by
    intro i indexBound notRoot held
    simp only [save_held] at held ⊢
    by_cases isCur : i = cur
    · rw [isCur]
      exact .inr rfl
    · rcases climbing.next i indexBound notRoot
          (held.resolve_right isCur) with parentHeld | parentCur
      · exact .inl (.inl parentHeld)
      · exact .inl (.inr parentCur)

theorem Climbing.save_last (climbing : state.Climbing origin cur)
    (bound : cur < state.nodes.length) (unsaved : state.saved cur = false)
    (last : ¬ (cur ≠ 0 ∧ cur < state.permanentNodesCount)) : (state.save cur).Backed origin := by
  have step := climbing.save bound unsaved
  refine ⟨step.toRestorable, ?_⟩
  intro i indexBound notRoot held
  have wasHeld : state.Held i := by
    rcases (save_held state cur i).mp held with old | isCur
    · exact old
    · right
      omega
  rw [save_held]
  rcases climbing.next i indexBound notRoot wasHeld with
    parentHeld | parentCur
  · exact .inl parentHeld
  · exact .inr parentCur

theorem backupNodesFrom_backed :
    ∀ (calls : Nat) (state : StateImpl) (cur : Nat), state.Climbing origin cur →
      cur < state.nodes.length → state.unsavedCount < calls →
      (backupNodesFrom calls state cur).Backed origin ∧
      (backupNodesFrom calls state cur).saved cur = true ∧ ∀ i, state.Held i →
      (backupNodesFrom calls state cur).Held i := by
  intro calls
  induction calls with
  | zero =>
    intro state cur _ _ enough
    exact absurd enough (Nat.not_lt_zero _)
  | succ calls ih =>
    intro state cur climbing bound enough
    unfold backupNodesFrom
    cases saved : state.saved cur with
    | true => exact ⟨climbing.backed (.inl saved), saved, fun _ held => held⟩
    | false =>
      have nowHeld : ∀ i, state.Held i → (state.save cur).Held i :=
        fun i held => (save_held _ _ _).mpr (.inl held)
      have nowSaved : (state.save cur).saved cur = true := (save_saved _ _ _).mpr (.inr rfl)
      by_cases climbs : cur ≠ 0 ∧ cur < state.permanentNodesCount
      · rw [if_pos climbs]
        have young : cur < origin.length := climbing.count ▸ climbs.2
        have sameNode : state.node cur = origin.getD cur default := by
          apply climbing.kept cur young
          rintro (isSaved | old)
          · rw [saved] at isSaved
            cases isSaved
          · omega
        have parentBound : (state.node cur).parent < state.nodes.length := by
          rw [sameNode]
          exact lt_of_lt_of_le (climbing.originParent cur young) climbing.within
        have fewer := save_unsavedCount climbs.2 saved
        obtain ⟨backed, _, mono⟩ :=
          ih (state.save cur) (state.node cur).parent (climbing.save bound saved)
            parentBound (by omega)
        refine ⟨backed, ?_, fun i held => mono i (nowHeld i held)⟩
        rcases mono cur (.inl nowSaved) with isSaved | old
        · exact isSaved
        · have count := backed.count
          rw [count] at old
          exact absurd old (Nat.not_le_of_lt young)
      · rw [if_neg climbs]
        exact ⟨climbing.save_last bound saved climbs, nowSaved, nowHeld⟩

theorem Backed.backupNodes (backed : state.Backed origin) (bound : cur < state.nodes.length) :
    (state.backupNodes cur).Backed origin ∧ (state.backupNodes cur).Held cur ∧
      ∀ i, state.Held i → (state.backupNodes cur).Held i := by
  have result :=
    backupNodesFrom_backed (state.permanentNodesCount + 1) state cur (backed.climbing cur) bound
      (Nat.lt_succ_of_le state.unsavedCount_le)
  exact ⟨result.1, .inl result.2.1, result.2.2⟩

/-! ## Changing held nodes -/

theorem held_congr (backup : after.backup = state.backup)
    (permanentNodesCount : after.permanentNodesCount = state.permanentNodesCount)
    (i : Nat) : after.Held i ↔ state.Held i := by
  simp [Held, saved, backup, permanentNodesCount]

theorem Backed.congr (backed : state.Backed origin) (nodes : after.nodes = state.nodes)
    (backup : after.backup = state.backup)
    (permanentNodesCount : after.permanentNodesCount = state.permanentNodesCount) :
    after.Backed origin := by
  have sameNode : ∀ i, after.node i = state.node i := by
    intro i
    simp [node, nodes]
  have sameHeld := held_congr backup permanentNodesCount
  refine ⟨⟨?_, ?_, backed.originParent, ?_, ?_, ?_⟩, ?_⟩
  · rw [permanentNodesCount]
    exact backed.count
  · rw [nodes]
    exact backed.within
  · rw [nodes, backup]
    exact backed.bounded
  · rw [backup]
    exact backed.stored
  · simpa only [sameNode, sameHeld] using backed.kept
  · simpa only [sameNode, sameHeld, nodes] using backed.closed

theorem Backed.markFree (backed : state.Backed origin) (i : Nat) :
    (state.markFree i).Backed origin := by
  apply backed.congr
  · rfl
  · rfl
  · rfl

variable {change : Node → Node} {lower gone : Nat}

theorem Backed.update (backed : state.Backed origin) (held : state.Held i)
    (parentHeld : i < state.nodes.length → i ≠ 0 → state.Held (change (state.node i)).parent) :
    (state.update i change).Backed origin := by
  refine ⟨⟨backed.count, ?_, backed.originParent, ?_, backed.stored, ?_⟩, ?_⟩
  · rw [update_length]
    exact backed.within
  · rw [update_length]
    exact backed.bounded
  · intro other inside notHeld
    have ne : other ≠ i := by
      rintro rfl
      exact notHeld held
    rw [node_update_ne ne]
    exact backed.kept other inside notHeld
  · intro other bound notRoot otherHeld
    rw [update_length] at bound
    by_cases same : other = i
    · subst same
      rw [node_update_self bound]
      exact parentHeld bound notRoot
    · rw [node_update_ne same]
      exact backed.closed other bound notRoot otherHeld

theorem Backed.update_content (backed : state.Backed origin) (held : state.Held i)
    (sameParent : ∀ node : Node, (change node).parent = node.parent) :
    (state.update i change).Backed origin := by
  apply backed.update held
  intro bound notRoot
  rw [sameParent]
  exact backed.closed i bound notRoot held

theorem Backed.held_above (backed : state.Backed origin)
    (linked : state.Linked path) {upper : Nat} (above : Above state.graph upper lower) :
    state.Live lower → state.Held lower → state.Held upper := by
  induction above with
  | self => exact fun _ held => held
  | up notRoot _ ih =>
    intro live held
    exact ih (linked.parent live notRoot).1 (backed.closed _ live.1 notRoot held)

theorem Backed.rehashed {focus : Nat} (backed : state.Backed origin)
    (linked : state.Linked path) (live : state.Live focus)
    (held : state.Held focus) (rehashed : Rehashed state after focus) : after.Backed origin := by
  have same := rehashed.same
  refine ⟨⟨?_, ?_, backed.originParent, ?_, ?_, ?_⟩, ?_⟩
  · rw [same.permanentNodesCount]
    exact backed.count
  · rw [same.length]
    exact backed.within
  · rw [same.backup, same.length]
    exact backed.bounded
  · rw [same.backup]
    exact backed.stored
  · intro i inside notHeld
    rw [same.held] at notHeld
    rw [rehashed.unchanged i fun above => notHeld (backed.held_above linked above live held)]
    exact backed.kept i inside notHeld
  · intro i bound notRoot indexHeld
    rw [same.length] at bound
    rw [same.held] at indexHeld ⊢
    rw [same.parent]
    exact backed.closed i bound notRoot indexHeld

/-! ## The primitive steps -/

theorem Backed.push (backed : state.Backed origin) (rootHeld : state.Held 0) :
    { state with nodes := state.nodes ++ [default] }.Backed origin := by
  have sameNode : ∀ i < state.nodes.length,
        { state with nodes := state.nodes ++ [default] }.node i = state.node i := by
    intro i bound
    simp only [node, getD_eq_getElem?_getD]
    rw [getElem?_append_left bound]
  refine ⟨⟨backed.count, ?_, backed.originParent, ?_, backed.stored, ?_⟩, ?_⟩
  · have within := backed.within
    simp only [length_append]
    omega
  · intro e mem
    have bound := backed.bounded e mem
    simp only [length_append]
    omega
  · intro i inside notHeld
    rw [sameNode i (lt_of_lt_of_le inside backed.within)]
    exact backed.kept i inside notHeld
  · intro i bound notRoot held
    by_cases old : i < state.nodes.length
    · rw [sameNode i old]
      exact backed.closed i old notRoot held
    · have isNew : i = state.nodes.length := by
        simp only [length_append, length_singleton] at bound
        omega
      have fresh : { state with nodes := state.nodes ++ [default] }.node i = default := by
        simp [node, isNew]
      rw [fresh]
      exact rootHeld

theorem Backed.allocate (backed : state.Backed origin) (rootHeld : state.Held 0)
    (freeBound : ∀ i ∈ state.freeLocations, i < state.nodes.length) :
    state.allocate.1.Backed origin ∧ state.allocate.1.Held state.allocate.2 ∧
      ∀ i, state.Held i → state.allocate.1.Held i := by
  by_cases occupied : state.freeLocations.Nonempty
  · have bound := freeBound _ (Finset.min'_mem _ occupied)
    simp only [StateImpl.allocate, occupied, ↓reduceDIte]
    generalize state.freeLocations.min' occupied = fresh at bound
    obtain ⟨saved, freshHeld, mono⟩ := backed.backupNodes bound
    have cleared : ((state.backupNodes fresh).update fresh fun _ => default).Backed origin := by
      apply saved.update freshHeld
      intro _ _
      exact mono 0 rootHeld
    refine ⟨?_, freshHeld, mono⟩
    apply cleared.congr
    · rfl
    · rfl
    · rfl
  · simp only [StateImpl.allocate, occupied, ↓reduceDIte]
    refine ⟨backed.push rootHeld, .inr ?_, fun _ held => held⟩
    have within := backed.within
    have count := backed.count
    simp only
    omega

theorem Backed.addNode {src : Nat} (target : UInt8)
    (backed : state.Backed origin) (linked : state.Linked path)
    (live : state.Live src) (held : state.Held src) :
    (state.addNode src target).1.Backed origin ∧
      (state.addNode src target).1.Held (state.addNode src target).2 ∧
        ∀ i, state.Held i → (state.addNode src target).1.Held i := by
  have rootHeld : state.Held 0 := backed.held_above linked (linked.radix.root_above live) live held
  obtain ⟨allocated, freshHeld, mono⟩ := backed.allocate rootHeld linked.freeBound
  simp only [StateImpl.addNode]
  refine ⟨?_, freshHeld, mono⟩
  have pointed : (state.allocate.1.update src fun node =>
        node.setChild target state.allocate.2).Backed origin :=
    allocated.update_content (mono src held) fun _ => rfl
  apply pointed.update freshHeld
  intro _ _
  exact mono src held

theorem Backed.divideNode (cpi : Nat) (backed : state.Backed origin) (linked : state.Linked path)
    (live : state.Live lower) (notRoot : lower ≠ 0) :
    (state.divideNode lower cpi).1.Backed origin ∧
      (state.divideNode lower cpi).1.Held (state.divideNode lower cpi).2 ∧
        (state.divideNode lower cpi).1.Held lower := by
  obtain ⟨saved, lowerHeld, _⟩ := backed.backupNodes live.1
  have same := backupNodes_sameLinks state lower
  have savedLive := (same.live lower).mpr live
  have upperHeld := saved.closed lower savedLive.1 notRoot lowerHeld
  have upperLive := ((same.linked linked).parent savedLive notRoot).1
  obtain ⟨added, splitHeld, mono⟩ :=
    saved.addNode ((state.backupNodes lower).node lower).firstByte
      (same.linked linked) upperLive upperHeld
  simp only [StateImpl.divideNode]
  generalize (state.backupNodes lower).addNode ((state.backupNodes lower).node lower).parent
    ((state.backupNodes lower).node lower).firstByte = outcome at *
  have lowerHeld := mono lower lowerHeld
  refine ⟨?_, splitHeld, lowerHeld⟩
  refine Backed.update_content ?_ lowerHeld fun _ => rfl
  refine Backed.update_content ?_ splitHeld fun _ => rfl
  refine Backed.update_content ?_ splitHeld fun _ => rfl
  exact added.update lowerHeld fun _ _ => splitHeld

theorem Backed.mergeWithChild {a : UInt8}
    (backed : state.Backed origin) (linked : state.Linked path)
    (live : state.Live gone) (notRoot : gone ≠ 0) (held : state.Held gone)
    (present : (state.node gone).children a ≠ 0) :
    (state.mergeWithChild gone a).1.Backed origin ∧
      (state.mergeWithChild gone a).1.Held (state.mergeWithChild gone a).2 := by
  have childLive := (linked.child live present).1
  obtain ⟨saved, childHeld, mono⟩ := backed.backupNodes childLive.1
  have upperHeld := mono _ (backed.closed gone live.1 notRoot held)
  refine ⟨Backed.markFree ?_ _, childHeld⟩
  refine Backed.update ?_ childHeld fun _ _ => upperHeld
  refine Backed.update_content ?_ upperHeld fun _ => rfl
  exact saved.update_content childHeld fun _ => rfl

theorem Backed.cutNode (backed : state.Backed origin)
    (held : state.Held (state.node gone).parent) : (state.cutNode gone).Backed origin := by
  refine Backed.markFree ?_ gone
  exact backed.update_content held fun _ => rfl

/-! ## Rolling back -/

theorem restore_length (entries : List (Nat × Node)) (state : StateImpl) :
    (entries.foldl (fun current e => current.update e.1 fun _ => e.2)
        state).nodes.length = state.nodes.length := by
  induction entries generalizing state with
  | nil => rfl
  | cons e entries ih => rw [foldl_cons, ih, update_length]

theorem restore_node {content : Node}
    (entries : List (Nat × Node)) (state : StateImpl) (bound : i < state.nodes.length)
    (stored : ∀ e ∈ entries, e.1 = i → e.2 = content)
    (known : state.node i = content ∨ ∃ e ∈ entries, e.1 = i) :
    (entries.foldl (fun current e => current.update e.1 fun _ => e.2) state).node i = content := by
  induction entries generalizing state with
  | nil =>
    rcases known with unchanged | ⟨e, mem, _⟩
    · exact unchanged
    · cases mem
  | cons e entries ih =>
    rw [foldl_cons]
    apply ih
    · simpa using bound
    · exact fun later mem => stored later (mem_cons_of_mem _ mem)
    · by_cases here : e.1 = i
      · left
        rw [here, node_update_self bound]
        exact stored e (mem_cons_self ..) here
      · rcases known with unchanged | ⟨later, mem, place⟩
        · left
          rw [node_update_ne (Ne.symm here)]
          exact unchanged
        · right
          rcases mem_cons.mp mem with rfl | below
          · exact absurd place here
          · exact ⟨later, below, place⟩

theorem discardChanges_restored (count : state.permanentNodesCount = origin.length)
    (within : origin.length ≤ state.nodes.length)
    (stored : ∀ e ∈ state.backup, e.1 < origin.length → e.2 = origin.getD e.1 default)
    (kept : ∀ i < origin.length, ¬ state.saved i = true → state.node i = origin.getD i default) :
    state.discardChanges.nodes = origin := by
  simp only [StateImpl.discardChanges, resizeNodes]
  have sameLength := restore_length state.backup state
  have restored : ∀ i < origin.length,
        (state.backup.foldl (fun current e => current.update e.1 fun _ => e.2)
            state).node i = origin.getD i default := by
    intro i inside
    apply restore_node
    · exact lt_of_lt_of_le inside within
    · rintro e mem rfl
      exact stored e mem inside
    · by_cases saved : state.saved i = true
      · exact .inr ((saved_iff state i).mp saved)
      · exact .inl (kept i inside saved)
  generalize state.backup.foldl (fun current e => current.update e.1 fun _ => e.2)
    state = after at *
  rw [count, sameLength, Nat.sub_eq_zero_of_le within, replicate_zero, append_nil]
  apply ext_getElem
  · simp [sameLength, within]
  · intro i takeBound bound
    have content := restored i bound
    have inside : i < after.nodes.length := by omega
    simp only [node, getD_eq_getElem?_getD,
      getElem?_eq_getElem inside, getElem?_eq_getElem bound, Option.getD_some] at content
    rw [getElem_take]
    exact content

theorem Restorable.discardChanges (restorable : state.Restorable origin) :
    state.discardChanges.nodes = origin ∧ state.discardChanges.freeLocations = ∅ := by
  refine ⟨?_, rfl⟩
  apply discardChanges_restored restorable.count restorable.within restorable.stored
  intro i inside unsaved
  apply restorable.kept i inside
  rintro (saved | young)
  · exact unsaved saved
  · have count := restorable.count
    omega

theorem backed_of_committed (linked : state.Linked path)
    (noFree : state.freeLocations = ∅) (noBackup : state.backup = [])
    (committed : state.permanentNodesCount = state.nodes.length) : state.Backed state.nodes := by
  have allLive : ∀ i < state.nodes.length, state.Live i := by
    intro i bound
    exact ⟨bound, by simp [noFree]⟩
  refine ⟨⟨committed, le_rfl, ?_, by simp [noBackup],
      by simp [noBackup], fun _ _ _ => rfl⟩, ?_⟩
  · intro i bound
    by_cases isRoot : i = 0
    · subst isRoot
      change (state.node 0).parent < _
      rw [linked.rootParent]
      exact bound
    · exact (linked.parent (allLive i bound) isRoot).1.1
  · rintro i bound notRoot (saved | young)
    · simp [saved_iff, noBackup] at saved
    · omega

end StateImpl

end AutomatonCore.State
