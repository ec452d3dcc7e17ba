import AutomatonCore.Library.Lockstep
import AutomatonCore.State.Rehash

/-!
# The four ways a key is set
-/

namespace AutomatonCore.State

open Io Library List

namespace StateImpl

variable {H : HashTransformation} {s : StateImpl}
  {path : Nat → Bytes}

/-- `add_node` followed by the loop's last round, which appends the rest of
the key to the prefix of the new leaf. -/
def attachLeaf (state : StateImpl) (base : Nat) (letter : UInt8) (rest : Bytes) : StateImpl × Nat :=
  ((state.addNode base letter).1.update (state.addNode base letter).2
      fun node => { node with prefixBytes := node.prefixBytes ++ rest },
    (state.addNode base letter).2)

theorem attachLeaf_spec {base : Nat} (a : UInt8) (rest : Bytes) (rootLive : s.Live 0)
    (freeBound : ∀ i ∈ s.freeLocations, i < s.nodes.length) (baseLive : s.Live base) :
    Attached s (s.attachLeaf base a rest).1 base a rest (s.attachLeaf base a rest).2 :=
  (addNode_spec a rootLive freeBound baseLive).extend rest baseLive

theorem update_eq_self {i : Nat} {change : Node → Node} (fixed : change (s.node i) = s.node i) :
    s.update i change = s := by
  have sameNodes : s.nodes.set i (s.node i) = s.nodes := by
    apply ext_getElem?
    intro other
    rw [getElem?_set]
    split
    next same =>
      subst same
      by_cases bound : i < s.nodes.length
      · simp [bound, node]
      · simp [bound]
    · rfl
  unfold update
  rw [fixed, sameNodes]

theorem setLoop_newLeaf {leaf : Nat} {a : UInt8} (rest v : Bytes) (notRoot : leaf ≠ 0) (leafNode :
      ∃ parent, s.node leaf =
          { (default : Node) with
            parent := parent
            prefixBytes := [a] }) :
    (setLoop H rest s leaf 1 >>= fun cursor =>
        finishSet H cursor v) =
      (s.update leaf fun node =>
        { node with prefixBytes := node.prefixBytes ++ rest }).storeValue H leaf v := by
  obtain ⟨parent, shape⟩ := leafNode
  have noChild : ∀ b, (s.node leaf).children b = 0 := by
    intro b
    rw [shape]
    rfl
  have noChildren : ¬ s.hasChildren leaf = true := by
    rw [hasChildren_iff]
    rintro ⟨b, present⟩
    exact present (noChild b)
  cases rest with
  | nil =>
    rw [update_eq_self (by simp)]
    change finishSet H ⟨s, leaf, 1, true⟩ v = _
    unfold finishSet
    rw [if_neg (by simp [shape])]
  | cons pathElement rest =>
    have stop : setLoop H (pathElement :: rest) s leaf 1 = .ok ⟨s.update leaf fun node =>
              { node with prefixBytes := node.prefixBytes ++ pathElement :: rest },
            leaf, 1, false⟩ := by
      unfold setLoop
      have oneByte : (s.node leaf).prefixBytes = [a] := by rw [shape]
      have noValue : (s.node leaf).value = [] := by
        rw [shape]
        rfl
      simp [oneByte, noChild, noChildren, noValue, notRoot]
    rw [stop]
    change finishSet H _ v = _
    unfold finishSet
    rw [if_neg (by simp)]

/-- The courses of a call; each is a composition of the primitive steps. -/
inductive SetPlan (hasher : HashTransformation) (state : StateImpl)
    (path : Nat → Bytes) (key value : Bytes) : Except Fault StateImpl → Prop
  | overwrite (curNode : Nat) : state.Live curNode → path curNode = key →
      SetPlan hasher state path key value (state.storeValue hasher curNode value)
  | attach (base : Nat) (letter : UInt8) (rest : Bytes) : state.Live base →
      (state.node base).children letter = 0 →
      key = path base ++ letter :: rest →
      SetPlan hasher state path key value
        (((state.backupNodes base).attachLeaf base letter rest).1.storeValue hasher
          ((state.backupNodes base).attachLeaf base letter rest).2 value)
  | branch (lower : Nat) (first : UInt8) (initial : Bytes)
      (letter : UInt8) (tail : Bytes) (other : UInt8) (rest : Bytes) :
      state.Live lower →
      lower ≠ 0 →
      (state.node lower).prefixBytes = (first :: initial) ++ letter :: tail →
      other ≠ letter →
      key = path (state.node lower).parent ++ (first :: initial) ++ other :: rest →
      SetPlan hasher state path key value
        (state.splitNode hasher lower (first :: initial).length >>= fun divided =>
            (divided.1.attachLeaf divided.2 other rest).1.storeValue
              hasher (divided.1.attachLeaf divided.2 other rest).2 value)
  | inside (lower : Nat) (first : UInt8) (initial : Bytes) (letter : UInt8) (tail : Bytes) :
      state.Live lower →
      lower ≠ 0 →
      (state.node lower).prefixBytes = (first :: initial) ++ letter :: tail →
      key = path (state.node lower).parent ++ first :: initial →
      SetPlan hasher state path key value
        (state.splitNode hasher lower (first :: initial).length >>=
          fun divided => divided.1.storeValue hasher divided.2 value)

/-- Where the loop of `set` stands: `consumed` has been read and
`curPrefixIndex` bytes of the prefix of `curNode` belong to it. -/
structure SetAt (state : StateImpl) (path : Nat → Bytes)
    (consumed : Bytes) (curNode curPrefixIndex : Nat) : Prop where
  live : state.Live curNode
  bound : curPrefixIndex ≤ (state.node curNode).prefixBytes.length
  position : consumed ++ (state.node curNode).prefixBytes.drop curPrefixIndex = path curNode
  inPrefix : curNode ≠ 0 → 0 < curPrefixIndex

namespace SetAt

variable {consumed : Bytes} {cur curPrefixIndex : Nat}

theorem atEnd (pos : SetAt s path consumed cur curPrefixIndex)
    (complete : curPrefixIndex = (s.node cur).prefixBytes.length) : path cur = consumed := by
  have reached := pos.position
  rw [complete, drop_length, append_nil] at reached
  exact reached.symm

theorem inside (linked : s.Linked path) (pos : SetAt s path consumed cur curPrefixIndex)
    (incomplete : curPrefixIndex ≠ (s.node cur).prefixBytes.length) :
    cur ≠ 0 ∧ ∃ first initial a tail, (s.node cur).prefixBytes = (first :: initial) ++ a :: tail ∧
          (first :: initial).length = curPrefixIndex ∧
            consumed = path (s.node cur).parent ++ first :: initial := by
  have bound := pos.bound
  have notRoot : cur ≠ 0 := by
    intro isRoot
    rw [isRoot, linked.rootPrefix] at bound incomplete
    simp at bound incomplete
    omega
  have positive := pos.inPrefix notRoot
  have parts := take_append_drop curPrefixIndex (s.node cur).prefixBytes
  have readLength : ((s.node cur).prefixBytes.take curPrefixIndex).length = curPrefixIndex := by
    simp [bound]
  have leftLength : 0 < ((s.node cur).prefixBytes.drop curPrefixIndex).length := by
    simp
    omega
  have whole := (linked.parent pos.live notRoot).2.1
  have reached := pos.position
  generalize (s.node cur).prefixBytes.take curPrefixIndex = read at parts readLength
  generalize (s.node cur).prefixBytes.drop curPrefixIndex = left at parts leftLength reached
  rw [← parts, ← reached, ← append_assoc] at whole
  have consumedShape := append_cancel_right whole
  cases read with
  | nil =>
    simp at readLength
    omega
  | cons first initial =>
    cases left with
    | nil => simp at leftLength
    | cons a tail => exact ⟨notRoot, first, initial, a, tail, parts.symm, readLength, consumedShape⟩

theorem descend (linked : s.Linked path) {pathElement : UInt8}
    (pos : SetAt s path consumed cur curPrefixIndex)
    (complete : curPrefixIndex = (s.node cur).prefixBytes.length)
    (present : (s.node cur).children pathElement ≠ 0) :
    SetAt s path (consumed ++ [pathElement]) ((s.node cur).children pathElement) 1 := by
  obtain ⟨childLive, _, rest, label, childPath⟩ := linked.child pos.live present
  refine ⟨childLive, ?_, ?_, fun _ => Nat.one_pos⟩
  · simp [label]
  · rw [label, childPath, pos.atEnd complete]
    simp

theorem advance {pathElement : UInt8} (pos : SetAt s path consumed cur curPrefixIndex)
    (incomplete : curPrefixIndex ≠ (s.node cur).prefixBytes.length)
    (agrees : pathElement = (s.node cur).prefixBytes.getD curPrefixIndex 0) :
    SetAt s path (consumed ++ [pathElement]) cur (curPrefixIndex + 1) := by
  have bound := pos.bound
  have inside : curPrefixIndex < (s.node cur).prefixBytes.length := by omega
  refine ⟨pos.live, inside, ?_, fun _ => Nat.succ_pos _⟩
  have reached := pos.position
  rw [drop_eq_getElem_cons inside] at reached
  rw [getD_eq_getElem?_getD, getElem?_eq_getElem inside] at agrees
  rw [agrees, append_assoc]
  exact reached

end SetAt

theorem setLoop_attachLeaf {base : Nat} {a : UInt8} (rest v : Bytes) (rootLive : s.Live 0)
    (freeBound : ∀ i ∈ s.freeLocations, i < s.nodes.length) (baseLive : s.Live base) :
    (setLoop H rest (s.addNode base a).1 (s.addNode base a).2 1 >>= fun cursor =>
        finishSet H cursor v) =
      (s.attachLeaf base a rest).1.storeValue H (s.attachLeaf base a rest).2 v := by
  have added := addNode_spec a rootLive freeBound baseLive
  exact setLoop_newLeaf rest v added.notRoot ⟨base, added.freshNode⟩

theorem splitNode_frame (linked : s.Linked path) {lower split : Nat}
    {divided : StateImpl} (live : s.Live lower) (notRoot : lower ≠ 0)
    {first a : UInt8} {initial rest : Bytes}
    (label : (s.node lower).prefixBytes = (first :: initial) ++ a :: rest)
    (run : s.splitNode H lower (first :: initial).length = .ok (divided, split)) :
    divided.Live 0 ∧ divided.Live split ∧
      ∀ i ∈ divided.freeLocations, i < divided.nodes.length := by
  have effect := divideNode_spec linked live notRoot label
  unfold splitNode at run
  dsimp only at run
  obtain ⟨hashed, hashing, run⟩ := bind_eq_ok_iff.mp run
  cases run
  have same := calculateHash_same hashing
  refine ⟨?_, ?_, ?_⟩
  · rw [same.live, effect.live]
    exact .inl linked.rootLive
  · rw [same.live, effect.live]
    exact .inr rfl
  · rw [same.freeLocations, same.length]
    exact effect.freeBound

/-- The loop walks down the tree without changing it until it meets a vacant
child link or a prefix that differs from the key; from there on the course is
fixed. -/
theorem setLoop_plan (linked : s.Linked path) (compact : s.Compact) (v : Bytes) :
    ∀ (remaining consumed : Bytes) (cur curPrefixIndex : Nat),
      SetAt s path consumed cur curPrefixIndex →
      SetPlan H s path (consumed ++ remaining) v
        (setLoop H remaining s cur curPrefixIndex >>= fun cursor => finishSet H cursor v) := by
  intro remaining
  induction remaining with
  | nil =>
    intro consumed cur curPrefixIndex pos
    rw [append_nil]
    change SetPlan H s path consumed v (finishSet H ⟨s, cur, curPrefixIndex, true⟩ v)
    unfold finishSet
    by_cases complete : curPrefixIndex = (s.node cur).prefixBytes.length
    · rw [if_neg (by simp [complete])]
      exact .overwrite cur pos.live (pos.atEnd complete)
    · rw [if_pos ⟨Ne.symm complete, rfl⟩]
      obtain ⟨notRoot, first, initial, a, tail, label, rfl, keyShape⟩ := pos.inside linked complete
      exact .inside cur first initial a tail pos.live notRoot label keyShape
  | cons pathElement rest ih =>
    intro consumed cur curPrefixIndex pos
    have shift : consumed ++ pathElement :: rest = (consumed ++ [pathElement]) ++ rest := by simp
    unfold setLoop
    by_cases complete : curPrefixIndex = (s.node cur).prefixBytes.length
    · rw [if_pos complete]
      by_cases present : (s.node cur).children pathElement ≠ 0
      · rw [if_pos present, shift]
        exact ih _ _ _ (pos.descend linked complete present)
      · -- the loop's last branch is for a leaf that it has just added
        have occupied : s.hasChildren cur ∨ (s.node cur).value ≠ [] ∨ cur = 0 := by
          by_cases isRoot : cur = 0
          · exact .inr (.inr isRoot)
          · rcases compact cur pos.live isRoot with
              hasValue | ⟨first, _, _, hasChild, _⟩
            · exact .inr (.inl hasValue)
            · exact .inl ((hasChildren_iff _ _).mpr ⟨first, hasChild⟩)
        rw [if_neg present, if_pos occupied, setLoop_attachLeaf rest v
            (by simpa [Live] using linked.rootLive) (by simpa using linked.freeBound)
            (by simpa [Live] using pos.live), ← pos.atEnd complete]
        exact .attach cur pathElement rest pos.live (not_not.mp present) rfl
    · rw [if_neg complete]
      by_cases differs : pathElement ≠ (s.node cur).prefixBytes.getD curPrefixIndex 0
      · rw [if_pos differs]
        obtain ⟨notRoot, first, initial, a, tail, label, rfl, keyShape⟩ :=
          pos.inside linked complete
        have otherLetter : pathElement ≠ a := by
          rw [label] at differs
          simpa using differs
        rw [keyShape]
        have plan : SetPlan H s path _ v _ :=
          .branch cur first initial a tail pathElement rest pos.live notRoot label otherLetter rfl
        convert plan using 1
        cases run : s.splitNode H cur (first :: initial).length with
        | error fault => rfl
        | ok divided =>
          obtain ⟨rootLive, splitLive, freeBound⟩ :=
            splitNode_frame linked pos.live notRoot label run
          exact setLoop_attachLeaf rest v rootLive freeBound splitLive
      · rw [if_neg differs, shift]
        exact ih _ _ _ (pos.advance complete (not_not.mp differs))

theorem set_plan (linked : s.Linked path) (compact : s.Compact)
    (k : Bytes) {v : Bytes} (ne : v ≠ []) : SetPlan H s path k v (s.set H k v) := by
  unfold StateImpl.set
  rw [if_neg ne]
  apply setLoop_plan linked compact v k [] 0 0
  refine ⟨linked.rootLive, Nat.zero_le _, ?_, fun notRoot => absurd rfl notRoot⟩
  rw [linked.rootPrefix, linked.rootPath]
  rfl

end StateImpl

end AutomatonCore.State
