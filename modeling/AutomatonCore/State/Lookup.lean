import AutomatonCore.State.Arena

/-!
# Finding the node of a path
-/

namespace AutomatonCore.State

open Io List

namespace StateImpl

variable {s : StateImpl} {path : Nat → Bytes}

variable {k : Bytes} {i cur target : Nat} {keyEndedAtEdge : Bool}

private theorem split_at_index (inside : i < k.length) :
    k = k.take i ++ k.getD i 0 :: k.drop (i + 1) := by
  rw [getD_eq_getElem?_getD, getElem?_eq_getElem inside,
    Option.getD_some, getElem_cons_drop, take_append_drop]

/-- The position of the loop: either nothing has been read, or the walk has
just entered `curNode` through the byte before `i`. -/
structure LookupAt (state : StateImpl) (path : Nat → Bytes)
    (key : Bytes) (i curNode : Nat) (keyEndedAtEdge : Bool) : Prop where
  live : state.Live curNode
  bound : i ≤ key.length
  atRoot : curNode = 0 → i = 0 ∧ keyEndedAtEdge = false
  below : curNode ≠ 0 → keyEndedAtEdge = true ∧ 0 < i ∧ path curNode =
            key.take (i - 1) ++ (state.node curNode).prefixBytes ∧
          ∃ rest, (state.node curNode).prefixBytes = key.getD (i - 1) 0 :: rest

theorem LookupAt.path_prefix (linked : s.Linked path) (pos : LookupAt s path k i cur keyEndedAtEdge)
    (targetLive : s.Live target) (targetPath : path target = k) : path cur <+: k := by
  by_cases atRoot : cur = 0
  · rw [atRoot, linked.rootPath]
    exact nil_prefix
  · obtain ⟨_, positive, curPath, rest, label⟩ := pos.below atRoot
    obtain ⟨parentLive, pathShape, _⟩ := linked.parent pos.live atRoot
    have parentPath : path (s.node cur).parent = k.take (i - 1) :=
      append_cancel_right (pathShape.symm.trans curPath)
    have inside : i - 1 < k.length := by
      have bound := pos.bound
      omega
    have targetShape :
        path target = path (s.node cur).parent ++ k.getD (i - 1) 0 :: k.drop (i - 1 + 1) := by
      rw [targetPath, parentPath]
      exact split_at_index inside
    obtain ⟨next, link, above⟩ := linked.radix.child_of_path parentLive targetLive targetShape
    have sameNode : cur = next := by
      rw [← linked.child_parent pos.live atRoot label]
      exact (childAt_eq_some.mp link).1
    rw [← targetPath, sameNode]
    exact linked.radix.above_path above targetLive

theorem LookupAt.step (linked : s.Linked path)
    {next : Nat} (live : s.Live cur) (inside : next < k.length) (curPath : path cur = k.take next)
    (present : (s.node cur).children (k.getD next 0) ≠ 0) :
    LookupAt s path k (next + 1) ((s.node cur).children (k.getD next 0)) true := by
  obtain ⟨childLive, _, rest, label, childPath⟩ := linked.child live present
  refine
    { live := childLive
      bound := inside
      atRoot := fun isRoot => absurd isRoot present
      below := fun _ => ⟨rfl, Nat.succ_pos _, ?_, rest, ?_⟩ }
  · rw [Nat.add_sub_cancel, childPath, curPath, label]
  · rw [Nat.add_sub_cancel, label]

theorem no_target_of_vacant (linked : s.Linked path)
    {next : Nat} (live : s.Live cur) (inside : next < k.length) (curPath : path cur = k.take next)
    (vacant : (s.node cur).children (k.getD next 0) = 0) (targetLive : s.Live target) :
    path target ≠ k := by
  intro targetPath
  have targetShape : path target = path cur ++ k.getD next 0 :: k.drop (next + 1) := by
    rw [targetPath, curPath]
    exact split_at_index inside
  obtain ⟨child, link, _⟩ := linked.radix.child_of_path live targetLive targetShape
  obtain ⟨childShape, nonzero⟩ := childAt_eq_some.mp link
  exact nonzero (childShape.symm.trans vacant)

private theorem some_iff_of_path (linked : s.Linked path)
    (live : s.Live cur) (curPath : path cur = k) :
    some cur = some target ↔ s.Live target ∧ path target = k := by
  constructor
  · intro same
    cases same
    exact ⟨live, curPath⟩
  · rintro ⟨targetLive, targetPath⟩
    rw [linked.path_injective live targetLive (curPath.trans targetPath.symm)]

private theorem none_iff_of_absent (absent : s.Live target → path target ≠ k) :
    (none : Option Nat) = some target ↔ s.Live target ∧ path target = k := by
  constructor
  · intro impossible
    cases impossible
  · rintro ⟨targetLive, targetPath⟩
    exact absurd targetPath (absent targetLive)

theorem nodeIndexAtEnd_spec (linked : s.Linked path) (pos : LookupAt s path k i cur keyEndedAtEdge)
    (ended : k.length ≤ i) (target : Nat) :
    s.nodeIndexAtEnd cur keyEndedAtEdge = some target ↔ s.Live target ∧ path target = k := by
  have bound := pos.bound
  unfold nodeIndexAtEnd
  by_cases atRoot : cur = 0
  · obtain ⟨isStart, noEdge⟩ := pos.atRoot atRoot
    rw [if_neg (by simp [noEdge])]
    apply some_iff_of_path linked pos.live
    rw [atRoot, linked.rootPath]
    exact (eq_nil_of_length_eq_zero (by omega)).symm
  · obtain ⟨edge, positive, curPath, rest, label⟩ := pos.below atRoot
    split
    next longer =>
      apply none_iff_of_absent
      intro targetLive targetPath
      have initial := pos.path_prefix linked targetLive targetPath
      have lengths := initial.length_le
      rw [curPath, label] at lengths
      simp only [length_append, length_take, length_cons] at lengths
      have restEmpty : rest.length = 0 := by omega
      apply longer.2
      rw [label, length_cons, restEmpty]
      rfl
    next short =>
      apply some_iff_of_path linked pos.live
      have oneByte : (s.node cur).prefixBytes.length = 1 := by
        by_contra ne
        apply short
        refine ⟨edge, ?_⟩
        omega
      have restEmpty : rest = [] := by
        rw [label] at oneByte
        exact eq_nil_of_length_eq_zero (by simpa using oneByte)
      rw [curPath, label, restEmpty]
      have inside : i - 1 < k.length := by omega
      conv_rhs => rw [split_at_index inside]
      rw [drop_eq_nil_of_le (by omega)]

theorem LookupAt.path_of_short (linked : s.Linked path)
    (pos : LookupAt s path k i cur keyEndedAtEdge) (short : (s.node cur).prefixBytes.length ≤ 1) :
    path cur = k.take i := by
  by_cases atRoot : cur = 0
  · rw [atRoot, linked.rootPath, (pos.atRoot atRoot).1]
    rfl
  · obtain ⟨_, positive, shape, rest, label⟩ := pos.below atRoot
    have bound := pos.bound
    have restEmpty : rest = [] := by
      rw [label, length_cons] at short
      exact eq_nil_of_length_eq_zero (by omega)
    rw [shape, label, restEmpty]
    obtain ⟨before, rfl⟩ : ∃ before, i = before + 1 := ⟨i - 1, by omega⟩
    rw [Nat.add_sub_cancel, take_add_one, getD_eq_getElem?_getD, getElem?_eq_getElem (by omega)]
    rfl

theorem LookupAt.path_of_matching (pos : LookupAt s path k i cur keyEndedAtEdge) (notRoot : cur ≠ 0)
    (matching : (s.node cur).prefixBytes = (k.drop (i - 1)).take (s.node cur).prefixBytes.length) :
    path cur = k.take (i + ((s.node cur).prefixBytes.length - 1)) := by
  obtain ⟨_, positive, shape, rest, label⟩ := pos.below notRoot
  have ne : 0 < (s.node cur).prefixBytes.length := by
    rw [label]
    exact Nat.succ_pos _
  have total :
      i + ((s.node cur).prefixBytes.length - 1) = (i - 1) + (s.node cur).prefixBytes.length := by
    omega
  rw [total, take_add, ← matching, ← shape]

theorem LookupAt.matching_of_target (linked : s.Linked path)
    (pos : LookupAt s path k i cur keyEndedAtEdge) (notRoot : cur ≠ 0)
    (targetLive : s.Live target) (targetPath : path target = k) :
    (s.node cur).prefixBytes = (k.drop (i - 1)).take (s.node cur).prefixBytes.length := by
  obtain ⟨_, positive, shape, rest, label⟩ := pos.below notRoot
  have bound := pos.bound
  have initial := pos.path_prefix linked targetLive targetPath
  rw [prefix_iff_eq_take, shape, length_append, take_add,
    length_take, min_eq_left (by omega)] at initial
  exact append_cancel_left initial

/-- The loop compares whole prefixes with the rest of the path by index
arithmetic, and returns exactly the live node with the path. -/
theorem nodeIndexLoop_spec (linked : s.Linked path) (target : Nat) :
    ∀ (rounds i cur : Nat) (keyEndedAtEdge : Bool), LookupAt s path k i cur keyEndedAtEdge →
      k.length ≤ i + rounds →
      (s.nodeIndexLoop k rounds i cur keyEndedAtEdge =
          some target ↔ s.Live target ∧ path target = k) := by
  intro rounds
  induction rounds with
  | zero =>
    intro i cur keyEndedAtEdge pos enough
    exact nodeIndexAtEnd_spec linked pos enough target
  | succ rounds ih =>
    intro i cur keyEndedAtEdge pos enough
    unfold nodeIndexLoop
    by_cases inside : i < k.length
    swap
    · rw [if_neg inside]
      exact nodeIndexAtEnd_spec linked pos (le_of_not_gt inside) target
    rw [if_pos inside]
    by_cases short : ((s.node cur).prefixBytes.length : Int) - 1 ≤ 0
    · rw [if_pos short]
      have curPath := pos.path_of_short linked (by omega)
      by_cases vacant : (s.node cur).children (k.getD i 0) = 0
      · rw [if_pos vacant]
        exact none_iff_of_absent (no_target_of_vacant linked pos.live inside curPath vacant)
      · rw [if_neg vacant]
        exact ih _ _ _ (LookupAt.step linked pos.live inside curPath vacant) (by omega)
    · rw [if_neg short]
      have notRoot : cur ≠ 0 := by
        intro atRoot
        rw [atRoot, linked.rootPrefix] at short
        exact short (by simp)
      -- a target forces the whole prefix of the current node to match
      have forced :=
        fun (targetLive : s.Live target) targetPath =>
          pos.matching_of_target linked notRoot targetLive targetPath
      by_cases shorter : ((s.node cur).prefixBytes.length : Int) - 1 < (k.length : Int) - i
      · rw [if_pos shorter]
        by_cases matching :
            (s.node cur).prefixBytes = (k.drop (i - 1)).take (s.node cur).prefixBytes.length
        · rw [if_pos matching]
          have nextInside : i + ((s.node cur).prefixBytes.length - 1) < k.length := by omega
          have curPath := pos.path_of_matching notRoot matching
          by_cases present :
              (s.node cur).children (k.getD (i + ((s.node cur).prefixBytes.length - 1)) 0) ≠ 0
          · rw [if_pos present]
            exact ih _ _ _ (LookupAt.step linked pos.live nextInside curPath present) (by omega)
          · rw [if_neg present]
            exact none_iff_of_absent
                (no_target_of_vacant linked pos.live nextInside curPath (not_not.mp present))
        · rw [if_neg matching]
          exact none_iff_of_absent fun targetLive targetPath =>
              matching (forced targetLive targetPath)
      · rw [if_neg shorter]
        have restLength : (k.drop (i - 1)).length = k.length - (i - 1) := length_drop
        by_cases equal : ((s.node cur).prefixBytes.length : Int) - 1 = (k.length : Int) - i
        · rw [if_pos equal]
          have whole : (k.drop (i - 1)).take (s.node cur).prefixBytes.length = k.drop (i - 1) :=
            take_of_length_le (by omega)
          rw [whole] at forced
          by_cases matching : (s.node cur).prefixBytes = k.drop (i - 1)
          · rw [if_pos matching]
            apply some_iff_of_path linked pos.live
            rw [(pos.below notRoot).2.2.1, matching, take_append_drop]
          · rw [if_neg matching]
            exact none_iff_of_absent fun targetLive targetPath =>
                matching (forced targetLive targetPath)
        · rw [if_neg equal]
          apply none_iff_of_absent
          intro targetLive targetPath
          have lengths := congrArg List.length (forced targetLive targetPath)
          rw [length_take] at lengths
          omega

theorem getNodeIndex_eq_some (linked : s.Linked path) (k : Bytes) (target : Nat) :
    s.getNodeIndex k = some target ↔ s.Live target ∧ path target = k := by
  apply nodeIndexLoop_spec linked target
  · exact
      { live := linked.rootLive
        bound := Nat.zero_le _
        atRoot := fun _ => ⟨rfl, rfl⟩
        below := fun notRoot => absurd rfl notRoot }
  · omega

end StateImpl

end AutomatonCore.State
