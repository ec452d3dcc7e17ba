import AutomatonCore.State.PersistentView

/-!
# The persistent state follows the state in memory
-/

namespace AutomatonCore.State

open Io Library Storage List

namespace StatePersistent

/-- A function of `state_persistent` simulates the function of `state_impl`
with the same name. -/
abbrev Follows {α β : Type} (translate : α → β) (program : PersistentM α)
    (meaning : StateT StateImpl (Except Fault) β) : Prop :=
  Simulates interpretation translate program meaning

section Statements

variable {i : UInt32} {n : Nat}

theorem look_parentAt (same : i.toNat = n) :
    Follows UInt32.toNat (look (·.parentAt i)) (reading fun s => (s.node n).parent) := by
  subst same
  exact look_simulates fun _ valid => valid.toReadable.parentAt i

theorem look_childAt (same : i.toNat = n) (b : UInt8) :
    Follows UInt32.toNat (look (·.childAt i b)) (reading fun s => (s.node n).children b) := by
  subst same
  exact look_simulates fun _ valid => valid.toReadable.childAt i b

theorem look_prefixAt (same : i.toNat = n) :
    Follows id (look (·.prefixAt i)) (reading fun s => (s.node n).prefixBytes) := by
  subst same
  exact look_simulates fun _ valid => valid.toReadable.prefixAt i

theorem look_firstByteAt (same : i.toNat = n) :
    Follows id (look (·.firstByteAt i)) (reading fun s => (s.node n).firstByte) := by
  subst same
  exact look_simulates fun _ valid => valid.toReadable.firstByteAt i

variable {child : UInt32} {below : Nat} {other : Bytes}

theorem look_mergedPrefix (same : i.toNat = n) (sameChild : child.toNat = below) :
    Follows id (look fun s => s.prefixAt i ++ s.prefixAt child)
      (reading fun s => (s.node n).prefixBytes ++ (s.node below).prefixBytes) := by
  subst same sameChild
  apply look_simulates
  intro s valid
  rw [valid.toReadable.prefixAt, valid.toReadable.prefixAt]
  rfl

theorem look_valueAt (same : i.toNat = n) :
    Follows id (look (·.valueAt i)) (reading fun s => (s.node n).value) := by
  subst same
  exact look_simulates fun _ valid => valid.toReadable.valueAt i

theorem look_childBytesAt (same : i.toNat = n) :
    Follows id (look (·.childBytesAt i)) (reading fun s => (s.node n).childBytes) := by
  subst same
  exact look_simulates fun _ valid => valid.toReadable.childBytesAt i

theorem look_hasChildren (same : i.toNat = n) :
    Follows id (look (·.hasChildren i)) (reading fun s => s.hasChildren n) := by
  subst same
  exact look_simulates fun _ valid => valid.toReadable.hasChildren i

theorem look_hashInput (same : i.toNat = n) :
    Follows id (look (·.hashInput i)) (reading fun s => s.hashInput n) := by
  subst same
  exact look_simulates fun _ valid => valid.toReadable.hashInput i

theorem look_saved (same : i.toNat = n) :
    Follows id (look (·.saved i)) (reading fun s => s.saved n) := by
  subst same
  exact look_simulates fun _ _ => saved_view i

theorem look_permanentNodesCount :
    Follows id (look (·.permanentNodesCount)) (reading fun s => s.permanentNodesCount) :=
  look_simulates fun _ _ => rfl

theorem look_length : Follows id (look (·.nodes.length)) (reading fun s => s.nodes.length) :=
  look_simulates fun _ _ => by simp [view]

theorem setParent_follows (same : i.toNat = n)
    {parent : UInt32} {above : Nat} (sameParent : parent.toNat = above) :
    Follows id (setParent i parent)
      (changing fun s => s.update n fun node => { node with parent := above }) := by
  subst same sameParent
  exact storeField_simulates (assigns_parent parent) i

theorem setPrefix_follows (same : i.toNat = n) {label : Bytes} (sameLabel : label = other) :
    Follows id (setPrefix i label) (changing fun s =>
        s.update n fun node =>
          { node with prefixBytes := other }) := by
  subst same sameLabel
  exact storeField_simulates (assigns_prefixBytes label) i

theorem setHash_follows (same : i.toNat = n) {hash : Bytes} (sameHash : hash = other) :
    Follows id (setHash i hash) (changing fun s => s.setHash n other) := by
  subst same sameHash
  exact storeField_simulates (assigns_hash hash) i

theorem setValue_follows (same : i.toNat = n) (value : Bytes) :
    Follows id (setValue i value)
      (changing fun s => s.update n fun node => { node with value := value }) := by
  subst same
  exact storeField_simulates (assigns_value value) i

theorem setChild_follows (same : i.toNat = n) {b other : UInt8} (sameByte : b = other)
    (sameChild : child.toNat = below) :
    Follows id (setChild i b child)
      (changing fun s => s.update n fun node => node.setChild other below) := by
  subst same sameByte sameChild
  apply alter_simulates
  · intro s
    rfl
  · intro s valid
    have stored := valid.toReadable.node i
    obtain ⟨readable, view⟩ :=
      valid.toReadable.update i (·.setChild b child) (·.setChild b child.toNat)
        ⟨stored.parent, stored.label, stored.hash, stored.value⟩
        (PersistentNode.deref_setChild b child)
    refine ⟨⟨readable, ?_⟩, view⟩
    simpa [StatePersistent.update] using valid.count

theorem markFree_follows (same : i.toNat = n) :
    Follows id (markFree i) (changing fun s => s.markFree n) := by
  subst same
  apply alter_simulates
  · intro s
    rfl
  · intro s valid
    refine ⟨{ valid with freeSmall := ?_ }, rfl⟩
    intro found mem
    rcases Finset.mem_insert.mp mem with rfl | old
    · exact i.toNat_lt
    · exact valid.freeSmall found old

theorem insertBackup_follows (same : i.toNat = n) :
    Follows id (alter fun s =>
        { s with backup := s.backup ++ [(i, s.node i)] })
      (changing fun s =>
        { s with backup := s.backup ++ [(n, s.node n)] }) := by
  subst same
  apply alter_simulates
  · intro s
    rfl
  · intro s valid
    constructor
    · refine { valid with backupIds := ?_ }
      intro e mem
      rcases mem_append.mp mem with old | added
      · exact valid.backupIds e old
      · rw [mem_singleton.mp added]
        exact valid.toReadable.node i
    · simp [view, ← valid.toReadable.view_node]

theorem ne_zero_iff (same : i.toNat = n) : i ≠ 0 ↔ n ≠ 0 := by
  rw [← same, PersistentNode.toNat_ne_zero_iff]

theorem eq_zero_iff (same : i.toNat = n) : i = 0 ↔ n = 0 := not_iff_not.mp (ne_zero_iff same)

end Statements

variable {H : HashTransformation} {cur : UInt32} {n : Nat}

variable {calls bound above : Nat} {src : UInt32}

theorem backupNodesFrom_follows (sameCalls : calls = bound) (same : cur.toNat = n) :
    Follows id (backupNodesFrom calls cur) (changing fun s => s.backupNodesFrom bound n) := by
  subst sameCalls
  induction calls generalizing cur n with
  | zero => exact Simulates.skip.congr fun _ => rfl
  | succ calls ih =>
    have program :=
      (look_saved same).bind fun saved found sameSaved =>
        Simulates.ite (show saved = true ↔ found = true by rw [← sameSaved]; rfl)
          (fun _ => Simulates.skip)
          fun _ =>
            (insertBackup_follows same).andThen <|
              look_permanentNodesCount.bind fun count limit sameCount =>
                Simulates.ite (show cur ≠ 0 ∧ cur.toNat < count ↔ n ≠ 0 ∧ n < limit by
                    rw [ne_zero_iff same, same, ← sameCount]; rfl)
                  (fun _ => (look_parentAt same).bind fun _ _ sameParent => ih sameParent)
                  fun _ => Simulates.skip
    apply program.congr
    intro s
    rw [reading_bind, changing, StateImpl.backupNodesFrom]
    split
    · rfl
    · rw [changing_bind, reading_bind]
      split <;> rfl

theorem backupNodes_follows (same : cur.toNat = n) :
    Follows id (backupNodes cur) (changing fun s => s.backupNodes n) :=
  (look_permanentNodesCount.bind fun _ _ sameCount =>
    backupNodesFrom_follows (congrArg (· + 1) sameCount) same).congr fun _ => rfl

theorem calculateHashFrom_follows (sameCalls : calls = bound) (same : cur.toNat = n) :
    Follows id (calculateHashFrom H calls cur)
      (attempting fun s => s.calculateHashFrom H bound n) := by
  subst sameCalls
  induction calls generalizing cur n with
  | zero => exact (Simulates.throw .unboundedRecursion).congr fun _ => rfl
  | succ calls ih =>
    have program :=
      (look_hasChildren same).bind fun inner found sameInner =>
        Simulates.ite (show cur = 0 ∧ ¬ inner = true ↔ n = 0 ∧ ¬ found = true by
            rw [eq_zero_iff same, ← sameInner]; rfl)
          (fun _ => setHash_follows same (rfl : ([] : Bytes) = []))
          fun _ =>
            (look_hashInput same).bind fun _ _ sameInput =>
              (setHash_follows same (congrArg H.digest sameInput)).andThen <|
                Simulates.ite (ne_zero_iff same)
                  (fun _ => (look_parentAt same).bind fun _ _ sameParent => ih sameParent)
                  fun _ => Simulates.skip
    apply program.congr
    intro s
    rw [reading_bind, attempting, StateImpl.calculateHashFrom]
    split
    · rfl
    · split <;> rfl

theorem calculateHash_follows (same : cur.toNat = n) :
    Follows id (calculateHash H cur) (attempting fun s => s.calculateHash H n) :=
  (look_length.bind fun _ _ sameLength =>
    calculateHashFrom_follows sameLength same).congr fun _ => rfl

def linkMeaning (slot above : Nat) (target : UInt8) :
    StateT StateImpl (Except Fault) Nat := fun state =>
  .ok (slot, (state.update above fun node => node.setChild target slot).update slot
        fun node => { node with parent := above, prefixBytes := [target] })

theorem linkNode_follows {newNode : UInt32} {slot : Nat}
    (sameNew : newNode.toNat = slot) (sameSource : src.toNat = above) (target : UInt8) :
    Follows UInt32.toNat (linkNode newNode src target) (linkMeaning slot above target) := by
  have program :=
    (setChild_follows sameSource (rfl : target = target) sameNew).andThen <|
      (setParent_follows sameNew sameSource).andThen <|
        (setPrefix_follows sameNew (rfl : [target] = [target])).andThen <| Simulates.pure sameNew
  apply program.congr
  intro s
  simp only [changing_bind, StateImpl.update_update]
  rfl

theorem reuseSlot_follows {newNode : UInt32} {slot : Nat} (sameNew : newNode.toNat = slot) :
    Follows id (alter fun s =>
        { s.update newNode fun _ => default with
          freeLocations := s.freeLocations.erase newNode.toNat })
      (changing fun s =>
        { s.update slot fun _ => default with freeLocations := s.freeLocations.erase slot }) := by
  subst sameNew
  apply alter_simulates
  · intro s
    rfl
  · intro s valid
    obtain ⟨readable, shown⟩ :=
      valid.toReadable.update newNode (fun _ => default) (fun _ => default)
        (PersistentNode.stored_default valid.used) (PersistentNode.deref_default valid.blank)
    constructor
    · refine ⟨{ readable with freeSmall := ?_ }, ?_⟩
      · intro i mem
        exact valid.freeSmall i (Finset.mem_of_mem_erase mem)
      · simpa [StatePersistent.update] using valid.count
    · rw [← shown]
      rfl

/-- A new node at the end of the vector.  Between the new element and its
blobs there is one node more than ids bear witness for, so the three
statements are taken together. -/
theorem appendNode_follows (sameSource : src.toNat = above) (target : UInt8) :
    Follows UInt32.toNat (do
        let newNode ← look fun state => UInt32.ofNat state.nodes.length
        alter fun state => { state with nodes := state.nodes ++ [default] }
        linkNode newNode src target)
      (do
        let slot ← reading fun state => state.nodes.length
        changing fun state =>
          { state with nodes := state.nodes ++ [default] }
        linkMeaning slot above target) where
  grows state := List.Subset.trans Blobstore.subset_store Blobstore.subset_store
  agrees := by
    intro state result after valid bounded returns
    subst sameSource
    cases returns
    obtain ⟨blob, mem, large⟩ := valid.count
    have fits : state.blobs.nextFree < 2 ^ 32 :=
      bounded _ (Blobstore.subset_store Blobstore.mem_store)
    have old := valid.handedOut blob mem
    have i : (UInt32.ofNat state.nodes.length).toNat = state.nodes.length :=
      UInt32.toNat_ofNat_of_lt' (by simp [UInt32.size]; omega)
    have length : (interpretation.view state).nodes.length = state.nodes.length := by
      simp [interpretation, view]
    obtain ⟨pushed, shownPushed⟩ := valid.toReadable.push
    have stored := pushed.node src
    obtain ⟨linked, shownLinked⟩ :=
      pushed.update src (·.setChild target _)
        (·.setChild target (UInt32.ofNat state.nodes.length).toNat)
        ⟨stored.parent, stored.label, stored.hash, stored.value⟩
        (PersistentNode.deref_setChild target _)
    obtain ⟨parented, shownParented⟩ :=
      linked.storeField (assigns_parent src) (UInt32.ofNat state.nodes.length) fits
    obtain ⟨labelled, shownLabelled⟩ :=
      parented.storeField (assigns_prefixBytes [target]) (UInt32.ofNat state.nodes.length)
        (bounded _ Blobstore.mem_store)
    refine ⟨_, _, rfl, ?_, ⟨labelled, ?_⟩, ?_⟩
    · exact i.trans length.symm
    · refine ⟨_, Blobstore.subset_store Blobstore.mem_store, ?_⟩
      simp only [StatePersistent.update, length_set, length_append, length_singleton]
      omega
    · refine shownLabelled.trans ?_
      rw [shownParented, shownLinked, shownPushed, i, ← length, StateImpl.update_update]
      rfl

theorem addNode_eq (src : UInt32) (target : UInt8) :
    addNode src target = (do
      match ← look (·.firstFree) with
      | none =>
        let newNode ← look fun state => UInt32.ofNat state.nodes.length
        alter fun state => { state with nodes := state.nodes ++ [default] }
        linkNode newNode src target
      | some newNode =>
        backupNodes newNode
        alter fun state =>
          { state.update newNode fun _ => default with
            freeLocations := state.freeLocations.erase newNode.toNat }
        linkNode newNode src target) := by
  unfold addNode allocate
  simp only [bind_assoc]
  congr 1
  funext found
  cases found <;> simp

theorem firstFree_follows :
    Follows (Option.map UInt32.toNat) (look (·.firstFree)) (reading fun s =>
        if occupied : s.freeLocations.Nonempty then some (s.freeLocations.min' occupied)
        else
          none) := by
  apply look_simulates
  intro s valid
  by_cases occupied : s.freeLocations.Nonempty
  · have small := valid.freeSmall _ (s.freeLocations.min'_mem occupied)
    simp [firstFree, view, occupied, UInt32.toNat_ofNat_of_lt' small]
  · simp [firstFree, view, occupied]

theorem addNode_follows (sameSource : src.toNat = above)
    {target other : UInt8} (sameTarget : target = other) :
    Follows UInt32.toNat (addNode src target) (answering fun s => s.addNode above other) := by
  subst sameTarget
  rw [addNode_eq]
  refine Simulates.congr
    (firstFree_follows.bindOption (appendNode_follows sameSource target) fun _ _ sameNew =>
        (backupNodes_follows sameNew).andThen <|
          (reuseSlot_follows sameNew).andThen <| linkNode_follows sameNew sameSource target) ?_
  intro s
  by_cases occupied : s.freeLocations.Nonempty
  · rw [reading_bind, dif_pos occupied, answering, StateImpl.addNode,
      StateImpl.allocate, dif_pos occupied]
    rfl
  · rw [reading_bind, dif_neg occupied, answering, StateImpl.addNode,
      StateImpl.allocate, dif_neg occupied]
    rfl

theorem mergeWithChild_follows (same : cur.toNat = n) {b other : UInt8} (sameByte : b = other) :
    Follows UInt32.toNat (mergeWithChild cur b) (answering fun s => s.mergeWithChild n other) := by
  subst sameByte
  have program :=
    (look_parentAt same).bind fun _ _ sameParent =>
      (look_childAt same b).bind fun child below sameChild =>
        (backupNodes_follows sameChild).andThen <|
          (look_mergedPrefix same sameChild).bind fun _ _ samePrefix =>
            (setPrefix_follows sameChild samePrefix).andThen <|
              (look_firstByteAt same).bind fun _ _ sameByte =>
                (setChild_follows sameParent sameByte sameChild).andThen <|
                  (setParent_follows sameChild sameParent).andThen <|
                    (markFree_follows same).andThen <| Simulates.pure sameChild
  exact program.congr fun _ => rfl

theorem cutNode_follows (same : cur.toNat = n) :
    Follows id (cutNode cur) (changing fun s => s.cutNode n) :=
  ((look_parentAt same).bind fun _ _ sameParent =>
    (look_firstByteAt same).bind fun _ _ sameByte =>
      (setChild_follows sameParent sameByte (rfl : (0 : UInt32).toNat = 0)).andThen <|
        markFree_follows same).congr fun _ => rfl

theorem unlinkNode_follows (same : cur.toNat = n) :
    Follows UInt32.toNat (unlinkNode cur) (answering fun s => s.unlinkNode n) := by
  have program :=
    (look_parentAt same).bind fun parent above sameParent =>
      (cutNode_follows same).andThen <|
        (look_valueAt sameParent).bind fun v found sameValue =>
          (look_childBytesAt sameParent).bind fun children bytes sameChildren =>
              Simulates.ite (show v.length = 0 ∧ children.length = 1 ∧ parent ≠ 0 ↔
                    found.length = 0 ∧ bytes.length = 1 ∧ above ≠ 0 by
                  rw [ne_zero_iff sameParent, ← sameValue, ← sameChildren]; rfl)
                (fun _ => mergeWithChild_follows sameParent (congrArg (·.headD 0) sameChildren))
                fun _ => Simulates.pure sameParent
  apply program.congr
  intro s
  rw [reading_bind, changing_bind, reading_bind, reading_bind, ite_apply,
    answering, StateImpl.unlinkNode]
  split <;> rfl

theorem look_getNodeIndex (path : Bytes) :
    Follows (Option.map UInt32.toNat) (look (·.getNodeIndex path))
      (reading fun s => s.getNodeIndex path) :=
  look_simulates fun _ valid => valid.toReadable.getNodeIndex path

def eraseMeaning (hasher : HashTransformation) (curNode : Nat)
    (children : List UInt8) (state : StateImpl) : Except Fault StateImpl :=
  match children with
  | [] => (state.unlinkNode curNode).1.calculateHash hasher (state.unlinkNode curNode).2
  | [byte] =>
    (state.mergeWithChild curNode byte).1.calculateHash hasher (state.mergeWithChild curNode byte).2
  | _ :: _ :: _ =>
    (state.update curNode fun node =>
      { node with value := [] }).calculateHash hasher curNode

theorem eraseNode_follows (same : cur.toNat = n)
    {children bytes : List UInt8} (sameChildren : children = bytes) :
    Follows id (eraseNode H cur children) (attempting (eraseMeaning H n bytes)) := by
  subst sameChildren
  match children with
  | [] =>
    exact ((unlinkNode_follows same).bind fun _ _ sameNext =>
        calculateHash_follows sameNext).congr fun _ => rfl
  | [b] =>
    exact ((mergeWithChild_follows same (rfl : b = b)).bind
        fun _ _ sameChild => calculateHash_follows sameChild).congr fun _ => rfl
  | _ :: _ :: _ =>
    exact ((setValue_follows same []).andThen <| calculateHash_follows same).congr fun _ => rfl

theorem erase_follows (path : Bytes) :
    Follows id (erase H path) (attempting fun s => s.erase H path) := by
  refine Simulates.congr
    ((look_getNodeIndex path).bindOption (Simulates.throw (StateImpl.noSetNode path))
      fun _ _ same =>
        (look_valueAt same).bind fun v found sameValue =>
          Simulates.ite (show v = [] ↔ found = [] by rw [← sameValue]; rfl)
            (fun _ => Simulates.throw (StateImpl.noSetNode path))
            fun _ =>
              (backupNodes_follows same).andThen <|
                (look_childBytesAt same).bind fun _ _ sameChildren =>
                  eraseNode_follows same sameChildren) ?_
  intro s
  rw [reading_bind, attempting]
  cases found : s.getNodeIndex path with
  | none =>
    simp only [StateImpl.erase, found]
    rfl
  | some cur =>
    rw [Option.elim_some, reading_bind]
    by_cases empty : (s.node cur).value = []
    · simp only [StateImpl.erase, found, if_pos empty]
      rfl
    · simp only [StateImpl.erase, found, if_neg empty]
      rw [changing_bind, reading_bind]
      generalize ((s.backupNodes cur).node cur).childBytes = children
      rcases children with _ | ⟨b, _ | ⟨second, rest⟩⟩
      · rfl
      · rfl
      · rfl

theorem subtrieMarkFreeFrom_follows (sameCalls : calls = bound) (same : cur.toNat = n) :
    Follows id (subtrieMarkFreeFrom calls cur)
      (attempting fun s => s.subtrieMarkFreeFrom bound n) := by
  subst sameCalls
  induction calls generalizing cur n with
  | zero => exact (Simulates.throw .unboundedRecursion).congr fun _ => rfl
  | succ calls ih =>
    have child (b : UInt8) : Follows id
          (do
            let child ← look (·.childAt cur b)
            if child ≠ 0 then subtrieMarkFreeFrom calls child
            else
              pure ())
          (attempting fun s =>
            if (s.node n).children b ≠ 0 then s.subtrieMarkFreeFrom calls ((s.node n).children b)
            else
              .ok s) := by
      refine Simulates.congr
        ((look_childAt same b).bind fun _ _ sameChild =>
          Simulates.ite (ne_zero_iff sameChild) (fun _ => ih sameChild) fun _ => Simulates.skip) ?_
      intro s
      rw [reading_bind, attempting]
      split <;> rfl
    exact ((markFree_follows same).andThen (Simulates.forM child allBytes)).congr fun _ => rfl

theorem subtrieMarkFree_follows (same : cur.toNat = n) :
    Follows id (subtrieMarkFree cur) (attempting fun s => s.subtrieMarkFree n) :=
  (look_length.bind fun _ _ sameLength =>
    subtrieMarkFreeFrom_follows sameLength same).congr fun _ => rfl

theorem deleteNodeTree_follows (path : Bytes) :
    Follows id (deleteNodeTree H path) (attempting fun s => s.deleteNodeTree H path) := by
  refine Simulates.congr
    ((look_getNodeIndex path).bindOption (Simulates.throw (StateImpl.noSetNode path))
      fun _ _ same =>
        (look_valueAt same).bind fun v found sameValue =>
          Simulates.ite (show v = [] ↔ found = [] by rw [← sameValue]; rfl)
            (fun _ => Simulates.throw (StateImpl.noSetNode path))
            fun _ =>
              (look_parentAt same).bind fun _ _ sameParent =>
                (backupNodes_follows sameParent).andThen <|
                  (subtrieMarkFree_follows same).andThen <|
                    (unlinkNode_follows same).bind fun _ _ sameNext =>
                      calculateHash_follows sameNext) ?_
  intro s
  rw [reading_bind, attempting]
  cases found : s.getNodeIndex path with
  | none =>
    simp only [StateImpl.deleteNodeTree, found]
    rfl
  | some cur =>
    rw [Option.elim_some, reading_bind]
    by_cases empty : (s.node cur).value = []
    · simp only [StateImpl.deleteNodeTree, found, if_pos empty]
      rfl
    · simp only [StateImpl.deleteNodeTree, found, if_neg empty]
      rw [reading_bind, changing_bind, attempting_bind]
      cases (s.backupNodes (s.node cur).parent).subtrieMarkFree cur <;> rfl

theorem divideNode_follows (same : cur.toNat = n) (cpi : Nat) :
    Follows UInt32.toNat (divideNode cur cpi) (answering fun s => s.divideNode n cpi) := by
  have program :=
    (look_prefixAt same).bind fun _ _ samePrefix =>
      (backupNodes_follows same).andThen <|
        (look_parentAt same).bind fun _ _ sameParent =>
          (look_firstByteAt same).bind fun _ _ sameByte =>
            (addNode_follows sameParent sameByte).bind fun _ _ sameSplit =>
              (setParent_follows same sameSplit).andThen <|
                (setChild_follows sameSplit (congrArg (·.getD cpi 0) samePrefix) same).andThen <|
                  (setPrefix_follows sameSplit (congrArg (·.take cpi) samePrefix)).andThen <|
                    (setPrefix_follows same (congrArg (·.drop cpi) samePrefix)).andThen <|
                      Simulates.pure sameSplit
  refine program.congr fun s => ?_
  rfl

theorem splitNode_follows (same : cur.toNat = n) (cpi : Nat) :
    Follows UInt32.toNat (splitNode H cur cpi) (fun s => (s.splitNode H n cpi).map Prod.swap) := by
  refine Simulates.congr
    ((divideNode_follows same cpi).bind fun _ _ sameSplit =>
      (calculateHash_follows same).andThen <| Simulates.pure sameSplit) ?_
  intro s
  rw [answering_bind, attempting_bind, StateImpl.splitNode]
  obtain ⟨divided, splitNode⟩ := s.divideNode n cpi
  simp only
  generalize divided.calculateHash H n = hashed
  cases hashed <;> rfl

def LoopEnd.place (loopEnd : LoopEnd) : Nat × Nat × Bool :=
  (loopEnd.curNode.toNat, loopEnd.curPrefixIndex, loopEnd.keyEnded)

def cursorPlace (cursor : StateImpl.SetCursor) : (Nat × Nat × Bool) × StateImpl :=
  ((cursor.curNode, cursor.curPrefixIndex, cursor.keyEnded), cursor.state)

theorem setLoop_follows (rest : Bytes) (same : cur.toNat = n) (cpi : Nat) :
    Follows LoopEnd.place (setLoop H rest cur cpi)
      (fun s => (StateImpl.setLoop H rest s n cpi).map cursorPlace) := by
  induction rest generalizing cur n cpi with
  | nil =>
    subst same
    exact (Simulates.pure rfl).congr fun _ => rfl
  | cons pathElement rest ih =>
    refine Simulates.congr
      ((look_prefixAt same).bind fun curPrefix label samePrefix =>
        Simulates.ite (show cpi = curPrefix.length ↔ cpi = label.length by rw [← samePrefix]; rfl)
          (fun _ =>
            (look_childAt same pathElement).bind fun _ _ sameChild =>
              Simulates.ite (ne_zero_iff sameChild) (fun _ => ih sameChild 1) fun _ =>
                  (look_hasChildren same).bind fun inner has sameInner =>
                    (look_valueAt same).bind fun v found sameValue =>
                      Simulates.ite
                        (show inner = true ∨ v ≠ [] ∨ cur = 0 ↔ has = true ∨ found ≠ [] ∨ n = 0 by
                          rw [← sameInner, ← sameValue, eq_zero_iff same]; rfl)
                        (fun _ =>
                          (backupNodes_follows same).andThen <|
                            (addNode_follows same (rfl : pathElement = pathElement)).bind
                              fun _ _ sameNew => ih sameNew 1)
                        fun _ =>
                          (setPrefix_follows same
                            (congrArg (· ++ pathElement :: rest) samePrefix)).andThen <|
                            Simulates.pure (show LoopEnd.place _ = (n, cpi, false) by
                                  rw [← same]; rfl))
          fun _ =>
            Simulates.ite
              (show pathElement ≠ curPrefix.getD cpi 0 ↔ pathElement ≠ label.getD cpi 0 by
                rw [← samePrefix]; rfl)
              (fun _ =>
                (splitNode_follows same cpi).bind fun _ _ sameSplit =>
                    (addNode_follows sameSplit (rfl : pathElement = pathElement)).bind
                      fun _ _ sameNew => ih sameNew 1)
              fun _ => ih same (cpi + 1)) ?_
    intro s
    rw [reading_bind, StateImpl.setLoop]
    split
    · rw [reading_bind]
      split
      · rfl
      · rw [reading_bind, reading_bind]
        split <;> rfl
    · split
      · rw [mapping_bind]
        generalize s.splitNode H n cpi = halves
        cases halves <;> rfl
      · rfl

theorem storeValue_follows (same : cur.toNat = n) (v : Bytes) :
    Follows id (storeValue H cur v) (attempting fun s => s.storeValue H n v) :=
  Simulates.congr ((backupNodes_follows same).andThen <|
      (setValue_follows same v).andThen <| calculateHash_follows same)
    fun _ => rfl

theorem finishSet_follows {loopEnd : LoopEnd}
    {place : Nat × Nat × Bool} (same : loopEnd.place = place) (v : Bytes) :
    Follows id (finishSet H loopEnd v)
      (attempting fun s => StateImpl.finishSet H ⟨s, place.1, place.2.1, place.2.2⟩ v) := by
  subst same
  refine Simulates.congr
    ((look_prefixAt rfl).bind fun curPrefix label samePrefix =>
      Simulates.ite (show curPrefix.length ≠ loopEnd.curPrefixIndex ∧ loopEnd.keyEnded = true ↔
            label.length ≠ loopEnd.curPrefixIndex ∧
              loopEnd.keyEnded = true by rw [← samePrefix]; rfl)
        (fun _ =>
          (splitNode_follows rfl loopEnd.curPrefixIndex).bind
            fun _ _ sameSplit => storeValue_follows sameSplit v)
        fun _ => storeValue_follows rfl v) ?_
  intro s
  rw [reading_bind]
  by_cases inside : (s.node loopEnd.curNode.toNat).prefixBytes.length ≠
          loopEnd.curPrefixIndex ∧ loopEnd.keyEnded = true
  · have halved :
        StateImpl.finishSet H ⟨s, loopEnd.place.1, loopEnd.place.2.1, loopEnd.place.2.2⟩ v =
          (s.splitNode H loopEnd.curNode.toNat loopEnd.curPrefixIndex >>= fun halves =>
            halves.1.storeValue H halves.2 v) :=
      if_pos inside
    rw [if_pos inside, mapping_bind, attempting, halved]
    generalize s.splitNode H loopEnd.curNode.toNat loopEnd.curPrefixIndex = halves
    cases halves <;> rfl
  · rw [if_neg inside]
    exact congrArg _ (if_neg inside)

theorem set_follows (k : Bytes) {v : Bytes} (given : v ≠ []) :
    Follows id (set H k v) (attempting fun s => s.set H k v) := by
  have root : (0 : UInt32).toNat = 0 := rfl
  unfold set
  rw [if_neg given]
  refine Simulates.congr
    ((setLoop_follows k root 0).bind fun _ _ samePlace => finishSet_follows samePlace v) ?_
  intro s
  rw [attempting, StateImpl.set, if_neg given, mapping_bind]
  generalize StateImpl.setLoop H k s 0 0 = cursor
  cases cursor <;> rfl

end StatePersistent

end AutomatonCore.State
