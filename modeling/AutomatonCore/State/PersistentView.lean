import AutomatonCore.Library.Simulation
import AutomatonCore.State.StatePersistent
import Mathlib.Data.List.GetD

/-!
# What a persistent state stands for
-/

namespace AutomatonCore.State

open Io Library Storage List
open PersistentNode (getParent getPrefix getHash getValue)

namespace PersistentNode

def deref (blobs : Blobstore) (node : PersistentNode) : Node where
  parent := (node.getParent blobs).toNat
  prefixBytes := node.getPrefix blobs
  hash := node.getHash blobs
  value := node.getValue blobs
  children byte := (node.children_ byte).toNat

/-- The ids of a node have been handed out. -/
structure Stored (blobs : Blobstore) (node : PersistentNode) : Prop where
  parent : node.parent_.toNat < blobs.nextFree
  label : node.prefix_ < blobs.nextFree
  hash : node.hash_ < blobs.nextFree
  value : node.value_ < blobs.nextFree

variable {blobs : Blobstore} {node : PersistentNode}

theorem Stored.store (stored : node.Stored blobs) (data : Bytes) :
    node.Stored (blobs.store data).1 where
  parent := stored.parent.trans Blobstore.nextFree_lt_store
  label := stored.label.trans Blobstore.nextFree_lt_store
  hash := stored.hash.trans Blobstore.nextFree_lt_store
  value := stored.value.trans Blobstore.nextFree_lt_store

theorem Stored.deref_store (stored : node.Stored blobs) (data : Bytes) :
    node.deref (blobs.store data).1 = node.deref blobs := by
  simp only [deref, getParent, getPrefix, getHash, getValue,
    Blobstore.get_store_of_lt stored.parent, Blobstore.get_store_of_lt stored.label,
    Blobstore.get_store_of_lt stored.hash, Blobstore.get_store_of_lt stored.value]

theorem deref_default (blank : blobs.get 0 = []) :
    (default : PersistentNode).deref blobs = default := by
  simp [deref, default, getParent, getPrefix, getHash, getValue, blank, readUInt32]

theorem stored_default (used : 0 < blobs.nextFree) : (default : PersistentNode).Stored blobs :=
  ⟨used, used, used, used⟩

theorem deref_setChild (b : UInt8) (idx : UInt32) :
    (node.setChild b idx).deref blobs = (node.deref blobs).setChild b idx.toNat := by
  simp only [deref, setChild]
  congr 1
  funext other
  split <;> rfl

theorem toNat_ne_zero_iff (idx : UInt32) : idx.toNat ≠ 0 ↔ idx ≠ 0 := by
  rw [ne_eq, ne_eq, ← UInt32.toNat_inj]
  rfl

theorem toNat_eq_zero_iff (idx : UInt32) : idx.toNat = 0 ↔ idx = 0 :=
  not_iff_not.mp (toNat_ne_zero_iff idx)

@[simp]
theorem childBytes_deref : (node.deref blobs).childBytes = node.childBytes := by
  simp only [Node.childBytes, childBytes, deref, toNat_ne_zero_iff]

end PersistentNode

namespace StatePersistent

variable {state : StatePersistent}

/-- Replacing every blob id by the bytes it was given for turns a
`state_persistent` into a `state_impl`. -/
def view (state : StatePersistent) : StateImpl where
  nodes := state.nodes.map fun node => node.deref state.blobs
  backup := state.backup.map fun entry => (entry.1.toNat, entry.2.deref state.blobs)
  freeLocations := state.freeLocations
  permanentNodesCount := state.permanentNodesCount

/-- The view is stable: a new blob changes none of the bytes that the nodes in
the vector and in the backup refer to. -/
structure Readable (state : StatePersistent) : Prop where
  blank : state.blobs.get 0 = []
  used : 0 < state.blobs.nextFree
  handedOut : ∀ blob ∈ state.blobs.blobs, blob.1 < state.blobs.nextFree
  nodeIds : ∀ node ∈ state.nodes, node.Stored state.blobs
  backupIds : ∀ entry ∈ state.backup, entry.2.Stored state.blobs
  freeSmall : ∀ index ∈ state.freeLocations, index < 2 ^ 32
  permanent : state.permanentNodesCount ≤ state.nodes.length

/-- Every node of the vector was added together with new blobs, so some id is
at least as large as the number of nodes. -/
structure Valid (state : StatePersistent) : Prop extends state.Readable where
  count : ∃ blob ∈ state.blobs.blobs, state.nodes.length ≤ blob.1

/-- The id of a parent is cut to 32 bits. -/
def IdsFit (state : StatePersistent) : Prop :=
  ∀ blob ∈ state.blobs.blobs, blob.1 < 2 ^ 32

def interpretation : Interpretation StatePersistent StateImpl where
  Valid := Valid
  view := view
  Grows before after := before.blobs.blobs ⊆ after.blobs.blobs
  Bounded := IdsFit
  grows_refl _ := List.Subset.refl _
  grows_trans := List.Subset.trans
  bounded_of_grows subset fit blob member := fit blob (subset member)

theorem Readable.node (readable : state.Readable) (idx : UInt32) :
    (state.node idx).Stored state.blobs := by
  unfold StatePersistent.node
  by_cases inside : idx.toNat < state.nodes.length
  · rw [getD_eq_getElem _ _ inside]
    exact readable.nodeIds _ (getElem_mem inside)
  · rw [getD_eq_default _ _ (by omega)]
    exact PersistentNode.stored_default readable.used

theorem Readable.view_node (readable : state.Readable) (idx : UInt32) :
    state.view.node idx.toNat = (state.node idx).deref state.blobs := by
  simp only [StateImpl.node, view, StatePersistent.node]
  rw [← PersistentNode.deref_default readable.blank, getD_map]

theorem Readable.update (readable : state.Readable) (idx : UInt32)
    (change : PersistentNode → PersistentNode) (meaning : Node → Node)
    (stored : (change (state.node idx)).Stored state.blobs)
    (same :
      (change (state.node idx)).deref state.blobs = meaning ((state.node idx).deref state.blobs)) :
    (state.update idx change).Readable ∧
      (state.update idx change).view = state.view.update idx.toNat meaning := by
  constructor
  · refine
      { readable with
        nodeIds := ?_
        permanent := ?_ }
    · intro node mem
      rcases mem_or_eq_of_mem_set mem with old | rfl
      · exact readable.nodeIds node old
      · exact stored
    · simpa [StatePersistent.update] using readable.permanent
  · simp only [StateImpl.update, readable.view_node, ← same]
    simp [view, StatePersistent.update]

theorem Readable.store (readable : state.Readable) (data : Bytes) :
    { state with blobs := (state.blobs.store data).1 }.Readable ∧
      { state with blobs := (state.blobs.store data).1 }.view = state.view := by
  constructor
  · exact
      { blank := by
          rw [Blobstore.get_store_of_lt readable.used]
          exact readable.blank
        used := readable.used.trans Blobstore.nextFree_lt_store
        handedOut := by
          intro blob mem
          rcases mem_cons.mp mem with rfl | old
          · exact Blobstore.nextFree_lt_store
          · exact (readable.handedOut blob old).trans Blobstore.nextFree_lt_store
        nodeIds := fun node mem => (readable.nodeIds node mem).store data
        backupIds := fun e mem => (readable.backupIds e mem).store data
        freeSmall := readable.freeSmall
        permanent := readable.permanent }
  · simp only [view]
    congr 1
    · apply map_congr_left
      intro node mem
      exact (readable.nodeIds node mem).deref_store data
    · apply map_congr_left
      intro e mem
      rw [(readable.backupIds e mem).deref_store data]

theorem Readable.push (readable : state.Readable) :
    { state with nodes := state.nodes ++ [default] }.Readable ∧
      { state with nodes := state.nodes ++ [default] }.view =
        { state.view with nodes := state.view.nodes ++ [default] } := by
  constructor
  · refine
      { readable with
        nodeIds := ?_
        permanent := ?_ }
    · intro node mem
      rcases mem_append.mp mem with old | new
      · exact readable.nodeIds node old
      · rw [mem_singleton.mp new]
        exact PersistentNode.stored_default readable.used
    · simp only [length_append]
      exact readable.permanent.trans (Nat.le_add_right _ _)
  · simp [view, PersistentNode.deref_default readable.blank]

def Assigns (assign : Nat → PersistentNode → PersistentNode)
    (data : Bytes) (meaning : Node → Node) : Prop :=
  ∀ (blobs : Blobstore) (node : PersistentNode) (id : Nat),
    node.Stored blobs → id < blobs.nextFree → id < 2 ^ 32 → blobs.get id = data →
    (assign id node).Stored blobs ∧ (assign id node).deref blobs = meaning (node.deref blobs)

variable {assign : Nat → PersistentNode → PersistentNode} {data : Bytes} {meaning : Node → Node}

theorem Readable.storeField (readable : state.Readable) (assigns : Assigns assign data meaning)
    (idx : UInt32) (fits : state.blobs.nextFree < 2 ^ 32) :
    ({ state with blobs := (state.blobs.store data).1 }.update idx
          (assign state.blobs.nextFree)).Readable ∧
      ({ state with blobs := (state.blobs.store data).1 }.update idx
          (assign state.blobs.nextFree)).view = state.view.update idx.toNat meaning := by
  obtain ⟨stored, view⟩ := readable.store data
  obtain ⟨assigned, same⟩ :=
    assigns _ _ _ (stored.node idx) Blobstore.nextFree_lt_store fits Blobstore.get_store_self
  rw [← view]
  exact stored.update idx _ meaning assigned same

theorem look_simulates {δ α β : Type} {translate : α → β}
    {read : StatePersistent → α} {readView : StateImpl → β}
    (same : ∀ state : StatePersistent, state.Valid → translate (read state) = readView state.view) :
    Simulates interpretation translate (look read)
      (reading readView : StateT StateImpl (Except δ) β) :=
  Simulates.read same

theorem alter_simulates {δ : Type} {change : StatePersistent → StatePersistent}
    {meaning : StateImpl → StateImpl} (blobs : ∀ state, (change state).blobs = state.blobs)
    (same : ∀ state : StatePersistent, state.Valid → (change state).Valid ∧
        (change state).view = meaning state.view) :
    Simulates interpretation id (alter change)
      (changing meaning : StateT StateImpl (Except δ) Unit) := by
  apply Simulates.change
  · intro state
    change state.blobs.blobs ⊆ (change state).blobs.blobs
    rw [blobs]
    exact List.Subset.refl _
  · intro state valid _
    exact same state valid

theorem storeField_simulates {δ : Type} (assigns : Assigns assign data meaning) (idx : UInt32) :
    Simulates interpretation id (storeField assign idx data)
      (changing fun state => state.update idx.toNat meaning :
        StateT StateImpl (Except δ) Unit) := by
  apply Simulates.change
  · intro state
    exact Blobstore.subset_store
  · intro state valid bounded
    have fits : state.blobs.nextFree < 2 ^ 32 := bounded (_, data) Blobstore.mem_store
    obtain ⟨readable, view⟩ := valid.toReadable.storeField assigns idx fits
    obtain ⟨blob, mem, large⟩ := valid.count
    refine ⟨⟨readable, blob, Blobstore.subset_store mem, ?_⟩, view⟩
    simpa [StatePersistent.update] using large

theorem assigns_parent (parent : UInt32) :
    Assigns (fun id node => { node with parent_ := UInt32.ofNat id }) (uint32Bytes parent)
      fun node => { node with parent := parent.toNat } := by
  intro blobs node id stored old small content
  have cut : (UInt32.ofNat id).toNat = id := UInt32.toNat_ofNat_of_lt' small
  constructor
  · exact { stored with parent := by rw [cut]; exact old }
  · simp [PersistentNode.deref, getParent,
      getPrefix, getHash, getValue, cut, content]

theorem assigns_prefixBytes (label : Bytes) :
    Assigns (fun id node => { node with prefix_ := id }) label
      fun node => { node with prefixBytes := label } := by
  intro blobs node id stored old _ content
  constructor
  · exact { stored with label := old }
  · simp [PersistentNode.deref, getParent,
      getPrefix, getHash, getValue, content]

theorem assigns_hash (hash : Bytes) :
    Assigns (fun id node => { node with hash_ := id }) hash
      fun node => { node with hash := hash } := by
  intro blobs node id stored old _ content
  constructor
  · exact { stored with hash := old }
  · simp [PersistentNode.deref, getParent,
      getPrefix, getHash, getValue, content]

theorem assigns_value (value : Bytes) :
    Assigns (fun id node => { node with value_ := id }) value
      fun node => { node with value := value } := by
  intro blobs node id stored old _ content
  constructor
  · exact { stored with value := old }
  · simp [PersistentNode.deref, getParent,
      getPrefix, getHash, getValue, content]

section Reads

variable (valid : state.Readable) (idx : UInt32)

include valid

theorem Readable.parentAt : (state.parentAt idx).toNat = (state.view.node idx.toNat).parent := by
  rw [valid.view_node]
  rfl

theorem Readable.prefixAt : state.prefixAt idx = (state.view.node idx.toNat).prefixBytes := by
  rw [valid.view_node]
  rfl

theorem Readable.valueAt : state.valueAt idx = (state.view.node idx.toNat).value := by
  rw [valid.view_node]
  rfl

theorem Readable.hashAt : state.hashAt idx = (state.view.node idx.toNat).hash := by
  rw [valid.view_node]
  rfl

theorem Readable.childAt (b : UInt8) :
    (state.childAt idx b).toNat = (state.view.node idx.toNat).children b := by
  rw [valid.view_node]
  rfl

theorem Readable.childBytesAt :
    state.childBytesAt idx = (state.view.node idx.toNat).childBytes := by
  rw [valid.view_node, PersistentNode.childBytes_deref]
  rfl

theorem Readable.firstByteAt : state.firstByteAt idx = (state.view.node idx.toNat).firstByte := by
  rw [StatePersistent.firstByteAt, Node.firstByte, valid.prefixAt]

theorem Readable.hasChildren : state.hasChildren idx = state.view.hasChildren idx.toNat := by
  simp only [StatePersistent.hasChildren, StateImpl.hasChildren,
    ← valid.childAt, PersistentNode.toNat_ne_zero_iff]

theorem Readable.hashInput : state.hashInput idx = state.view.hashInput idx.toNat := by
  simp only [StatePersistent.hashInput, StateImpl.hashInput,
    valid.valueAt, valid.prefixAt, valid.childBytesAt, valid.hashAt, valid.childAt]

theorem Readable.nodeIndexAtEnd (keyEndedAtEdge : Bool) :
    (state.nodeIndexAtEnd idx keyEndedAtEdge).map UInt32.toNat =
      state.view.nodeIndexAtEnd idx.toNat keyEndedAtEdge := by
  simp only [StatePersistent.nodeIndexAtEnd, StateImpl.nodeIndexAtEnd, valid.prefixAt]
  split <;> rfl

theorem Readable.nodeIndexLoop (path : Bytes) (rounds i : Nat) (keyEndedAtEdge : Bool) :
    (state.nodeIndexLoop path rounds i idx keyEndedAtEdge).map UInt32.toNat =
      state.view.nodeIndexLoop path rounds i idx.toNat keyEndedAtEdge := by
  induction rounds generalizing i idx keyEndedAtEdge with
  | zero => exact valid.nodeIndexAtEnd idx keyEndedAtEdge
  | succ rounds ih =>
    simp only [StatePersistent.nodeIndexLoop, StateImpl.nodeIndexLoop,
      ← valid.prefixAt, ← valid.childAt,
      PersistentNode.toNat_ne_zero_iff, PersistentNode.toNat_eq_zero_iff]
    -- both loops now test the same conditions
    split_ifs <;>
      simp [ih, valid.nodeIndexAtEnd]

theorem Readable.getNodeIndex (path : Bytes) :
    (state.getNodeIndex path).map UInt32.toNat = state.view.getNodeIndex path :=
  valid.nodeIndexLoop 0 path path.length 0 false

end Reads

theorem saved_view (idx : UInt32) : state.saved idx = state.view.saved idx.toNat := by
  simp only [saved, StateImpl.saved, view, any_map, Function.comp_def, UInt32.toNat_inj]

end StatePersistent

end AutomatonCore.State
