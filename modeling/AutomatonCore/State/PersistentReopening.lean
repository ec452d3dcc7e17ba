import AutomatonCore.Library.Preservation
import AutomatonCore.State.PersistentAgreement
import AutomatonCore.State.Transactions

/-!
# Reopening a persistent state

`state_persistent` reaches the blobs through a pointer to the base class, whose
functions are not virtual.  So the blobs are written to the array that the base
class allocates, and never to the mapped file.
-/

namespace AutomatonCore.State

open Io Library Storage

namespace StatePersistent

/-! ## Commits -/

def compactLoop :
    Nat → StatePersistent → List Nat → List Nat → Nat → StatePersistent × List Nat × Nat
  | 0, state, low, _, lastElement => (state, low, lastElement)
  | rounds + 1, state, low, high, lastElement =>
    if low.headD 0 ≠ high.headD 0 then
      if lastElement = high.headD 0 then compactLoop rounds state low high.tail (lastElement - 1)
      else
        let target := UInt32.ofNat (low.headD 0)
        let source := UInt32.ofNat lastElement
        let moved := state.node source
        let copied := state.update target fun _ => moved
        let parent := copied.parentAt source
        let pathFromParent := copied.firstByteAt source
        let linked := copied.update parent fun node => node.setChild pathFromParent target
        compactLoop rounds linked low.tail high (lastElement - 1)
    else (state, low, lastElement)

def commitChanges (state : StatePersistent) : StatePersistent :=
  let cleared := { state with backup := [] }
  if state.freeLocations = ∅ then { cleared with permanentNodesCount := state.nodes.length }
  else
    let low := state.freeLocations.sort (· ≤ ·)
    let (moved, lowEnd, lastElement) :=
      compactLoop low.length cleared low low.reverse (state.nodes.length - 1)
    let final :=
      moved.update (UInt32.ofNat (lowEnd.headD 0)) fun _ => moved.node (UInt32.ofNat lastElement)
    let kept := final.nodes.take (final.nodes.length - state.freeLocations.card)
    { final with
      nodes := kept
      permanentNodesCount := kept.length
      freeLocations := ∅ }

def perform (hasher : HashTransformation) (state : StatePersistent) : Call → StatePersistent
  | .request request => state.step hasher request
  | .commitChanges => state.commitChanges
  | .discardChanges => state.discardChanges

def performAll (hasher : HashTransformation) (state : StatePersistent)
    (calls : List Call) : StatePersistent :=
  calls.foldl (perform hasher) state

/-! ## The constructor -/

/-- `state_persistent::state_persistent` over stores that need not be
empty. -/
def construct (hasher : HashTransformation) (blobs : Blobstore)
    (nodes : List PersistentNode) : StatePersistent :=
  finalState (calculateHash hasher 0
      { blobs := (blobs.store []).1
        nodes := nodes ++ [default]
        backup := []
        freeLocations := ∅
        permanentNodesCount := 1 })

variable {state : StatePersistent}

theorem hasChildren_eq_false {i : UInt32} (childless : ∀ b, state.childAt i b = 0) :
    state.hasChildren i = false := by
  rw [hasChildren, List.any_eq_false]
  intro b _
  simp [childless]

theorem construct_childless (H : HashTransformation)
    {blobs : Blobstore} {nodes : List PersistentNode}
    (childless : ∀ b, ((nodes ++ [default]).getD 0 default).children_ b = 0) :
    construct H blobs nodes =
      { blobs := ((blobs.store []).1.store []).1
        nodes :=
          (nodes ++ [default]).set 0
            { (nodes ++ [default]).getD 0 default with hash_ := (blobs.store []).1.nextFree }
        backup := []
        freeLocations := ∅
        permanentNodesCount := 1 } := by
  let started : StatePersistent :=
    { blobs := (blobs.store []).1
      nodes := nodes ++ [default]
      backup := []
      freeLocations := ∅
      permanentNodesCount := 1 }
  have leaf : started.hasChildren 0 = false := hasChildren_eq_false childless
  have enough : started.nodes.length = nodes.length + 1 := by simp [started]
  have hashed : calculateHashFrom H started.nodes.length 0 started = setHash 0 [] started := by
    rw [enough, calculateHashFrom, look_bind, leaf]
    rfl
  change finalState (calculateHashFrom H started.nodes.length 0 started) = _
  rw [hashed]
  rfl

/-- The state is constructed again, over the vector that comes back from its
file and over a new array whose memory is not initialised. -/
def reopen (hasher : HashTransformation) (state : StatePersistent)
    (memory : List (Nat × Bytes)) : StatePersistent :=
  construct hasher ⟨memory, 0⟩ state.nodes

/-! ## The first blob -/

/-- The blob 0 is empty. -/
def FirstBlank (state : StatePersistent) : Prop :=
  state.blobs.get 0 = [] ∧ 0 < state.blobs.nextFree

theorem FirstBlank.store (blank : state.FirstBlank) (data : Bytes) :
    { state with blobs := (state.blobs.store data).1 }.FirstBlank := by
  refine ⟨?_, blank.2.trans Blobstore.nextFree_lt_store⟩
  rw [Blobstore.get_store_of_lt blank.2]
  exact blank.1

section Statements

variable {α : Type}

theorem look_preserves (read : StatePersistent → α) : Preserves FirstBlank (look read) :=
  fun _ blank => blank

theorem alter_preserves {change : StatePersistent → StatePersistent}
    (blobs : ∀ state, (change state).blobs = state.blobs) :
    Preserves FirstBlank (alter change) := by
  intro state blank
  change FirstBlank (change state)
  rw [FirstBlank, blobs]
  exact blank

theorem storeField_preserves (assign : Nat → PersistentNode → PersistentNode) (i : UInt32)
    (data : Bytes) : Preserves FirstBlank (storeField assign i data) :=
  fun _ blank => blank.store data

end Statements

theorem backupNodesFrom_preserves (calls : Nat) (cur : UInt32) :
    Preserves FirstBlank (backupNodesFrom calls cur) := by
  induction calls generalizing cur with
  | zero => exact .pure ()
  | succ calls ih =>
    refine .bind (look_preserves _) fun _ => .ite (.pure ()) ?_
    refine .bind (alter_preserves ?_) fun _ => ?_
    · exact fun _ => rfl
    · refine .bind (look_preserves _) fun _ => .ite ?_ (.pure ())
      exact .bind (look_preserves _) ih

theorem backupNodes_preserves (cur : UInt32) : Preserves FirstBlank (backupNodes cur) :=
  .bind (look_preserves _) fun _ => backupNodesFrom_preserves _ cur

theorem calculateHashFrom_preserves (H : HashTransformation) (calls : Nat) (cur : UInt32) :
    Preserves FirstBlank (calculateHashFrom H calls cur) := by
  induction calls generalizing cur with
  | zero => exact .throw _
  | succ calls ih =>
    refine .bind (look_preserves _) fun _ => .ite (storeField_preserves _ _ _) ?_
    refine .bind (look_preserves _) fun _ =>
      .bind (storeField_preserves _ _ _) fun _ => .ite ?_ (.pure ())
    exact .bind (look_preserves _) ih

theorem calculateHash_preserves (H : HashTransformation) (cur : UInt32) :
    Preserves FirstBlank (calculateHash H cur) :=
  .bind (look_preserves _) fun _ => calculateHashFrom_preserves H _ cur

theorem setChild_preserves (i : UInt32) (child : UInt8)
    (v : UInt32) : Preserves FirstBlank (setChild i child v) :=
  alter_preserves fun _ => rfl

theorem markFree_preserves (i : UInt32) : Preserves FirstBlank (markFree i) :=
  alter_preserves fun _ => rfl

theorem allocate_preserves : Preserves FirstBlank allocate := by
  refine .bind (look_preserves _) fun found => ?_
  cases found with
  | some newNode =>
    refine .bind (backupNodes_preserves newNode) fun _ =>
      .bind (alter_preserves ?_) fun _ => .pure _
    exact fun _ => rfl
  | none =>
    refine .bind (look_preserves _) fun _ => .bind (alter_preserves ?_) fun _ => .pure _
    exact fun _ => rfl

theorem addNode_preserves (src : UInt32) (target : UInt8) :
    Preserves FirstBlank (addNode src target) :=
  .bind allocate_preserves fun _ =>
    .bind (setChild_preserves _ _ _) fun _ =>
      .bind (storeField_preserves _ _ _) fun _ =>
        .bind (storeField_preserves _ _ _) fun _ => .pure _

theorem mergeWithChild_preserves (cur : UInt32) (b : UInt8) :
    Preserves FirstBlank (mergeWithChild cur b) :=
  .bind (look_preserves _) fun _ =>
    .bind (look_preserves _) fun child =>
      .bind (backupNodes_preserves child) fun _ =>
        .bind (look_preserves _) fun _ =>
          .bind (storeField_preserves _ _ _) fun _ =>
            .bind (look_preserves _) fun _ =>
              .bind (setChild_preserves _ _ _) fun _ =>
                .bind (storeField_preserves _ _ _) fun _ =>
                  .bind (markFree_preserves _) fun _ => .pure _

theorem unlinkNode_preserves (cur : UInt32) : Preserves FirstBlank (unlinkNode cur) := by
  refine .bind (look_preserves _) fun _ => .bind ?_ fun _ => ?_
  · exact .bind (look_preserves _) fun _ =>
        .bind (look_preserves _) fun _ =>
          .bind (setChild_preserves _ _ _) fun _ => markFree_preserves _
  · exact .bind (look_preserves _) fun _ =>
        .bind (look_preserves _) fun _ => .ite (mergeWithChild_preserves _ _) (.pure _)

theorem eraseNode_preserves (H : HashTransformation) (cur : UInt32) (children : List UInt8) :
    Preserves FirstBlank (eraseNode H cur children) := by
  match children with
  | [] => exact .bind (unlinkNode_preserves cur) (calculateHash_preserves H)
  | [b] => exact .bind (mergeWithChild_preserves cur b) (calculateHash_preserves H)
  | _ :: _ :: _ => exact .bind (storeField_preserves _ _ _) fun _ => calculateHash_preserves H cur

theorem erase_preserves (H : HashTransformation) (path : Bytes) :
    Preserves FirstBlank (erase H path) := by
  refine .bind (look_preserves _) fun found => ?_
  cases found with
  | none => exact .throw _
  | some cur =>
    refine .bind (look_preserves _) fun _ => .ite (.throw _) ?_
    exact .bind (backupNodes_preserves cur) fun _ =>
        .bind (look_preserves _) (eraseNode_preserves H cur)

theorem subtrieMarkFreeFrom_preserves (calls : Nat) (cur : UInt32) :
    Preserves FirstBlank (subtrieMarkFreeFrom calls cur) := by
  induction calls generalizing cur with
  | zero => exact .throw _
  | succ calls ih =>
    refine .bind (markFree_preserves cur) fun _ => .forM (fun b => ?_) allBytes
    exact .bind (look_preserves _) fun child => .ite (ih child) (.pure ())

theorem deleteNodeTree_preserves (H : HashTransformation) (path : Bytes) :
    Preserves FirstBlank (deleteNodeTree H path) := by
  refine .bind (look_preserves _) fun found => ?_
  cases found with
  | none => exact .throw _
  | some cur =>
    refine .bind (look_preserves _) fun _ => .ite (.throw _) ?_
    refine .bind (look_preserves _) fun parent => .bind (backupNodes_preserves parent) fun _ => ?_
    refine .bind (.bind (look_preserves _) fun _ => subtrieMarkFreeFrom_preserves _ cur) fun _ => ?_
    exact .bind (unlinkNode_preserves cur) (calculateHash_preserves H)

theorem splitNode_preserves (H : HashTransformation) (cur : UInt32) (cpi : Nat) :
    Preserves FirstBlank (splitNode H cur cpi) := by
  refine .bind ?_ fun _ => .bind (calculateHash_preserves H cur) fun _ => .pure _
  exact .bind (look_preserves _) fun _ =>
      .bind (backupNodes_preserves cur) fun _ =>
        .bind (look_preserves _) fun _ =>
          .bind (look_preserves _) fun _ =>
            .bind (addNode_preserves _ _) fun _ =>
              .bind (storeField_preserves _ _ _) fun _ =>
                .bind (setChild_preserves _ _ _) fun _ =>
                  .bind (storeField_preserves _ _ _) fun _ =>
                    .bind (storeField_preserves _ _ _) fun _ => .pure _

theorem setLoop_preserves (H : HashTransformation) (rest : Bytes) (cur : UInt32) (cpi : Nat) :
    Preserves FirstBlank (setLoop H rest cur cpi) := by
  induction rest generalizing cur cpi with
  | nil => exact .pure _
  | cons pathElement rest ih =>
    refine .bind (look_preserves _) fun _ => .ite ?_ (.ite ?_ ?_)
    · refine .bind (look_preserves _) fun child => .ite (ih child 1) ?_
      refine .bind (look_preserves _) fun _ => .bind (look_preserves _) fun _ => .ite ?_ ?_
      · exact .bind (backupNodes_preserves cur) fun _ =>
            .bind (addNode_preserves _ _) fun newNode => ih newNode 1
      · exact .bind (storeField_preserves _ _ _) fun _ => .pure _
    · exact .bind (splitNode_preserves H _ _) fun _ =>
          .bind (addNode_preserves _ _) fun newNode => ih newNode 1
    · exact ih cur (cpi + 1)

theorem storeValue_preserves (H : HashTransformation) (cur : UInt32) (v : Bytes) :
    Preserves FirstBlank (storeValue H cur v) :=
  .bind (backupNodes_preserves cur) fun _ =>
    .bind (storeField_preserves _ _ _) fun _ => calculateHash_preserves H cur

theorem set_preserves (H : HashTransformation) (k v : Bytes) :
    Preserves FirstBlank (set H k v) := by
  refine .ite (.pure ()) (.bind (setLoop_preserves H _ _ _) ?_)
  intro loopEnd
  refine .bind (look_preserves _) fun _ => .ite ?_ ?_
  · exact .bind (splitNode_preserves H _ _) fun splitNode => storeValue_preserves H splitNode v
  · exact storeValue_preserves H loopEnd.curNode v

theorem FirstBlank.step (blank : state.FirstBlank) (H : HashTransformation) (req : Request) :
    (state.step H req).FirstBlank := by
  rw [step_eq_finalState]
  cases req with
  | set k v => exact set_preserves H k v state blank
  | erase k => exact erase_preserves H k state blank
  | deleteNodeTree k => exact deleteNodeTree_preserves H k state blank

theorem compactLoop_blobs (rounds : Nat) (state : StatePersistent)
    (low high : List Nat) (lastElement : Nat) :
    (compactLoop rounds state low high lastElement).1.blobs = state.blobs := by
  induction rounds generalizing state low high lastElement with
  | zero => rfl
  | succ rounds ih =>
    rw [compactLoop]
    split
    · split
      · exact ih _ _ _ _
      · exact ih _ _ _ _
    · rfl

theorem commitChanges_blobs (state : StatePersistent) :
    state.commitChanges.blobs = state.blobs := by
  unfold commitChanges
  split
  · rfl
  · exact compactLoop_blobs _ _ _ _ _

theorem restore_blobs (state : StatePersistent) (entries : List (UInt32 × PersistentNode)) :
    (entries.foldl (fun current e => current.update e.1 fun _ => e.2)
        state).blobs = state.blobs := by
  induction entries generalizing state with
  | nil => rfl
  | cons e entries ih => exact ih _

/-- The step lemma. -/
theorem FirstBlank.perform (blank : state.FirstBlank) (H : HashTransformation) (call : Call) :
    (state.perform H call).FirstBlank := by
  cases call with
  | request request => exact blank.step H request
  | commitChanges =>
    rw [StatePersistent.perform, FirstBlank, commitChanges_blobs]
    exact blank
  | discardChanges =>
    have blobs : state.discardChanges.blobs = state.blobs := restore_blobs state state.backup
    rw [StatePersistent.perform, FirstBlank, blobs]
    exact blank

/-- The run lemma. -/
theorem FirstBlank.performAll (blank : state.FirstBlank) (H : HashTransformation)
    (calls : List Call) : (state.performAll H calls).FirstBlank := by
  induction calls generalizing state with
  | nil => exact blank
  | cons call calls ih => exact ih (blank.perform H call)

/-! ## Reading after the reopening -/

/-- Nothing that was stored is needed: the root has no children, its hash is
empty, and its prefix and its value are the first blob. -/
structure Blank (state : StatePersistent) : Prop where
  childless : ∀ byte, state.childAt 0 byte = 0
  label : (state.node 0).prefix_ = 0
  value : (state.node 0).value_ = 0
  hash : state.hashAt 0 = []

theorem get_of_childless (childless : ∀ b, state.childAt 0 b = 0)
    (label : state.prefixAt 0 = []) (v : state.valueAt 0 = []) (k : Bytes) : state.get k = [] := by
  cases k with
  | nil => exact v
  | cons a rest =>
    have absent : state.getNodeIndex (a :: rest) = none := by
      simp [getNodeIndex, nodeIndexLoop, label, childless]
    rw [get, absent]

theorem Blank.get (blank : state.Blank) (first : state.blobs.get 0 = []) (k : Bytes) :
    state.get k = [] := by
  apply get_of_childless blank.childless
  · rw [prefixAt, PersistentNode.getPrefix, blank.label, first]
  · rw [valueAt, PersistentNode.getValue, blank.value, first]

theorem getD_append_default (nodes : List PersistentNode) :
    (nodes ++ [default]).getD 0 default = nodes.getD 0 default := by
  cases nodes <;> rfl

theorem Blank.reopen (blank : state.Blank) (H : HashTransformation) (memory : List (Nat × Bytes)) :
    (state.reopen H memory).Blank ∧ (state.reopen H memory).blobs.get 0 = [] := by
  have root : (state.nodes ++ [default]).getD 0 default = state.node 0 :=
    getD_append_default state.nodes
  have childless : ∀ b, ((state.nodes ++ [default]).getD 0 default).children_ b = 0 := by
    rw [root]
    exact blank.childless
  have constructed : state.reopen H memory =
        { blobs := ((Blobstore.mk memory 0).store []).1.store [] |>.1
          nodes :=
            (state.nodes ++ [default]).set 0 { state.node 0 with hash_ := 1 }
          backup := []
          freeLocations := ∅
          permanentNodesCount := 1 } := by
    rw [StatePersistent.reopen, construct_childless H childless, root]
    rfl
  have node : (state.reopen H memory).node 0 = { state.node 0 with hash_ := 1 } := by
    rw [constructed]
    cases state.nodes <;> rfl
  refine ⟨⟨?_, ?_, ?_, ?_⟩, ?_⟩
  · intro b
    rw [childAt, node]
    exact blank.childless b
  · rw [node]
    exact blank.label
  · rw [node]
    exact blank.value
  · rw [hashAt, node, constructed]
    simp [PersistentNode.getHash, Blobstore.get, Blobstore.store, Blobstore.sizeInInt32]
  · rw [constructed]
    rfl

/-- A blank state is reopened as it was, whatever is in the memory of the new
array. -/
theorem reopen_blank (H : HashTransformation) (calls : List Call) (memory : List (Nat × Bytes))
    (blank : (create.performAll H calls).Blank) :
    (∀ k, ((create.performAll H calls).reopen H memory).get k = (create.performAll H calls).get k) ∧
      ((create.performAll H calls).reopen H memory).getNodeHash
          [] = (create.performAll H calls).getNodeHash [] := by
  have first : (create.performAll H calls).FirstBlank :=
    FirstBlank.performAll ⟨by decide, by decide⟩ H calls
  obtain ⟨reopened, firstAgain⟩ := blank.reopen H memory
  constructor
  · intro k
    rw [reopened.get firstAgain, blank.get first.1]
  · exact reopened.hash.trans blank.hash.symm

theorem reopen_blank_after_erase :
    (((create.performAll StateImpl.checksum [.request (.set (text "a") (text "1")), .commitChanges,
          .request (.erase (text "a"))]).reopen StateImpl.checksum
        [(2, text "x"), (6, text "y")]).get (text "a")) = [] :=
  ((reopen_blank StateImpl.checksum _ _ ⟨forall_byte (by decide +kernel),
      by decide +kernel, by decide +kernel, by decide +kernel⟩).1 (text "a")).trans
    (by decide +kernel)

theorem reopen_loses_value :
    (create.performAll StateImpl.checksum
        [.request (.set (text "a") (text "1")), .commitChanges]).get (text "a") = text "1" ∧
      ((create.performAll StateImpl.checksum
        [.request (.set (text "a") (text "1")), .commitChanges]).reopen StateImpl.checksum []).get
            (text "a") = [] := by
  decide +kernel

end StatePersistent

end AutomatonCore.State
