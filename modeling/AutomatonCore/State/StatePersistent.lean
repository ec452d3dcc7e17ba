import AutomatonCore.State.MapSemantics
import AutomatonCore.Storage.Blobstore

/-!
# The state over a blobstore, `state_persistent`

The class runs the algorithms of `state_impl` on nodes that hold blob ids
instead of strings.  Node indices are `uint32_t` here, because a parent index
goes through four bytes of the blobstore.
-/

namespace AutomatonCore.State

open Io Storage

structure PersistentNode where
  parent_ : UInt32
  prefix_ : Nat
  hash_ : Nat
  value_ : Nat
  children_ : UInt8 → UInt32

instance : Inhabited PersistentNode :=
  ⟨{ parent_ := 0
     prefix_ := 0
     hash_ := 0
     value_ := 0
     children_ := fun _ => 0 }⟩

namespace PersistentNode

def getParent (node : PersistentNode) (blobstore : Blobstore) : UInt32 :=
  readUInt32 (blobstore.get node.parent_.toNat)

def getPrefix (node : PersistentNode) (blobstore : Blobstore) : Bytes :=
  blobstore.get node.prefix_

def getHash (node : PersistentNode) (blobstore : Blobstore) : Bytes :=
  blobstore.get node.hash_

def getValue (node : PersistentNode) (blobstore : Blobstore) : Bytes :=
  blobstore.get node.value_

def setChild (node : PersistentNode) (child : UInt8) (value : UInt32) : PersistentNode :=
  { node with children_ := fun byte => if byte = child then value else node.children_ byte }

def childBytes (node : PersistentNode) : List UInt8 :=
  allBytes.filter fun byte => node.children_ byte ≠ 0

end PersistentNode

structure StatePersistent where
  blobs : Blobstore
  nodes : List PersistentNode
  backup : List (UInt32 × PersistentNode)
  freeLocations : Finset Nat
  permanentNodesCount : Nat

/-- A call is a program that keeps its changes of the state when it throws. -/
abbrev PersistentM := EStateM Fault StatePersistent

namespace StatePersistent

def node (state : StatePersistent) (index : UInt32) : PersistentNode :=
  state.nodes.getD index.toNat default

def update (state : StatePersistent) (index : UInt32)
    (change : PersistentNode → PersistentNode) : StatePersistent :=
  { state with nodes := state.nodes.set index.toNat (change (state.node index)) }

def prefixAt (state : StatePersistent) (index : UInt32) : Bytes :=
  (state.node index).getPrefix state.blobs

def valueAt (state : StatePersistent) (index : UInt32) : Bytes :=
  (state.node index).getValue state.blobs

def hashAt (state : StatePersistent) (index : UInt32) : Bytes :=
  (state.node index).getHash state.blobs

def parentAt (state : StatePersistent) (index : UInt32) : UInt32 :=
  (state.node index).getParent state.blobs

def childAt (state : StatePersistent) (index : UInt32) (byte : UInt8) : UInt32 :=
  (state.node index).children_ byte

def firstByteAt (state : StatePersistent) (index : UInt32) : UInt8 :=
  (state.prefixAt index).headD 0

def childBytesAt (state : StatePersistent) (index : UInt32) : List UInt8 :=
  (state.node index).childBytes

def hasChildren (state : StatePersistent) (nodeIndex : UInt32) : Bool :=
  allBytes.any fun byte => state.childAt nodeIndex byte ≠ 0

def saved (state : StatePersistent) (index : UInt32) : Bool :=
  state.backup.any fun entry => entry.1 = index

def hashInput (state : StatePersistent) (curNode : UInt32) : Bytes :=
  state.valueAt curNode ++ state.prefixAt curNode ++
    (state.childBytesAt curNode).flatMap fun byte => state.hashAt (state.childAt curNode byte)

def look {α : Type} (read : StatePersistent → α) : PersistentM α :=
  fun state => .ok (read state) state

def alter (change : StatePersistent → StatePersistent) : PersistentM Unit :=
  fun state => .ok () (change state)

/-- Parent, prefix, hash and value are written as new blobs. -/
def storeField (assign : Nat → PersistentNode → PersistentNode)
    (index : UInt32) (data : Bytes) : PersistentM Unit :=
  alter fun state =>
    let (blobs, id) := state.blobs.store data
    { state with blobs := blobs }.update index (assign id)

def setParent (index parent : UInt32) : PersistentM Unit :=
  storeField (fun id node => { node with parent_ := UInt32.ofNat id }) index (uint32Bytes parent)

def setPrefix : UInt32 → Bytes → PersistentM Unit :=
  storeField fun id node => { node with prefix_ := id }

def setHash : UInt32 → Bytes → PersistentM Unit :=
  storeField fun id node => { node with hash_ := id }

def setValue : UInt32 → Bytes → PersistentM Unit :=
  storeField fun id node => { node with value_ := id }

def setChild (index : UInt32) (child : UInt8) (value : UInt32) : PersistentM Unit :=
  alter fun state => state.update index fun node => node.setChild child value

def markFree (index : UInt32) : PersistentM Unit :=
  alter fun state =>
    { state with freeLocations := insert index.toNat state.freeLocations }

/-- Every recursive call follows the insertion of a new key below
`permanent_nodes_count`. -/
def backupNodesFrom : Nat → UInt32 → PersistentM Unit
  | 0, _ => pure ()
  | calls + 1, curNode => do
    if ← look (·.saved curNode) then pure ()
    else do
      alter fun state =>
        { state with backup := state.backup ++ [(curNode, state.node curNode)] }
      if curNode ≠ 0 ∧ curNode.toNat < (← look (·.permanentNodesCount)) then do
        backupNodesFrom calls (← look (·.parentAt curNode))
      else pure ()

def backupNodes (curNode : UInt32) : PersistentM Unit := do
  backupNodesFrom ((← look (·.permanentNodesCount)) + 1) curNode

def calculateHashFrom (hasher : HashTransformation) : Nat → UInt32 → PersistentM Unit
  | 0, _ => throw .unboundedRecursion
  | calls + 1, curNode => do
    if curNode = 0 ∧ ¬ (← look (·.hasChildren curNode)) then setHash curNode []
    else do
      setHash curNode (hasher.digest (← look (·.hashInput curNode)))
      if curNode ≠ 0 then do
        calculateHashFrom hasher calls (← look (·.parentAt curNode))
      else pure ()

def calculateHash (hasher : HashTransformation) (curNode : UInt32) : PersistentM Unit := do
  calculateHashFrom hasher (← look (·.nodes.length)) curNode

def firstFree (state : StatePersistent) : Option UInt32 :=
  if occupied : state.freeLocations.Nonempty then
    some (UInt32.ofNat (state.freeLocations.min' occupied))
  else none

def allocate : PersistentM UInt32 := do
  match ← look (·.firstFree) with
  | some newNode =>
    backupNodes newNode
    alter fun state =>
      { state.update newNode fun _ => default with
        freeLocations := state.freeLocations.erase newNode.toNat }
    return newNode
  | none =>
    let newNode ← look fun state => UInt32.ofNat state.nodes.length
    alter fun state => { state with nodes := state.nodes ++ [default] }
    return newNode

def linkNode (newNode source : UInt32) (target : UInt8) : PersistentM UInt32 := do
  setChild source target newNode
  setParent newNode source
  setPrefix newNode [target]
  return newNode

def addNode (source : UInt32) (target : UInt8) : PersistentM UInt32 := do
  let newNode ← allocate
  linkNode newNode source target

def nodeIndexAtEnd (state : StatePersistent) (curNode : UInt32)
    (keyEndedAtEdge : Bool) : Option UInt32 :=
  if keyEndedAtEdge ∧ ((state.prefixAt curNode).length : Int) - 1 ≠ 0 then none
  else some curNode

def nodeIndexLoop (state : StatePersistent) (path : Bytes) :
    Nat → Nat → UInt32 → Bool → Option UInt32
  | 0, _, curNode, keyEndedAtEdge => state.nodeIndexAtEnd curNode keyEndedAtEdge
  | rounds + 1, i, curNode, keyEndedAtEdge =>
    if i < path.length then
      let curPrefix := state.prefixAt curNode
      let pathElement := path.getD i 0
      if (curPrefix.length : Int) - 1 ≤ 0 then
        if state.childAt curNode pathElement = 0 then none
        else nodeIndexLoop state path rounds (i + 1) (state.childAt curNode pathElement) true
      else if (curPrefix.length : Int) - 1 < (path.length : Int) - i then
        if curPrefix = (path.drop (i - 1)).take curPrefix.length then
          let next := i + (curPrefix.length - 1)
          let nextElement := path.getD next 0
          if state.childAt curNode nextElement ≠ 0 then
            nodeIndexLoop state path rounds (next + 1) (state.childAt curNode nextElement) true
          else none
        else none
      else if (curPrefix.length : Int) - 1 = (path.length : Int) - i then
        if curPrefix = path.drop (i - 1) then some curNode
        else none
      else none
    else state.nodeIndexAtEnd curNode keyEndedAtEdge

def getNodeIndex (state : StatePersistent) (path : Bytes) : Option UInt32 :=
  state.nodeIndexLoop path path.length 0 0 false

def get (state : StatePersistent) (key : Bytes) : Bytes :=
  match state.getNodeIndex key with
  | none => []
  | some nodeIndex => state.valueAt nodeIndex

def getNodeHash (state : StatePersistent) (path : Bytes) : Bytes :=
  match state.getNodeIndex path with
  | none => []
  | some nodeIndex => state.hashAt nodeIndex

def getNodeChildren (state : StatePersistent) (path : Bytes) : Except Fault (List Bytes) :=
  match state.getNodeIndex path with
  | none => .error (.outOfRange (text "No node at this path"))
  | some nodeIndex =>
    .ok ((state.childBytesAt nodeIndex).map fun byte =>
      state.prefixAt (state.childAt nodeIndex byte))

def size (state : StatePersistent) : Nat :=
  state.nodes.length

def mergeWithChild (curNode : UInt32) (byte : UInt8) : PersistentM UInt32 := do
  let parent ← look (·.parentAt curNode)
  let child ← look (·.childAt curNode byte)
  backupNodes child
  let newPrefix ← look fun state => state.prefixAt curNode ++ state.prefixAt child
  setPrefix child newPrefix
  let pathFromParent ← look (·.firstByteAt curNode)
  setChild parent pathFromParent child
  setParent child parent
  markFree curNode
  return child

def cutNode (curNode : UInt32) : PersistentM Unit := do
  let parent ← look (·.parentAt curNode)
  let pathFromParent ← look (·.firstByteAt curNode)
  setChild parent pathFromParent 0
  markFree curNode

def unlinkNode (curNode : UInt32) : PersistentM UInt32 := do
  let parent ← look (·.parentAt curNode)
  cutNode curNode
  let value ← look (·.valueAt parent)
  let children ← look (·.childBytesAt parent)
  if value.length = 0 ∧ children.length = 1 ∧ parent ≠ 0 then
    mergeWithChild parent (children.headD 0)
  else return parent

def eraseNode (hasher : HashTransformation) (curNode : UInt32) : List UInt8 → PersistentM Unit
  | [] => do
    let next ← unlinkNode curNode
    calculateHash hasher next
  | [byte] => do
    let child ← mergeWithChild curNode byte
    calculateHash hasher child
  | _ :: _ :: _ => do
    setValue curNode []
    calculateHash hasher curNode

def erase (hasher : HashTransformation) (path : Bytes) : PersistentM Unit := do
  let noSetNode :=
    Fault.outOfRange (text "In erase: No set node at path: " ++ bin2hex path)
  match ← look (·.getNodeIndex path) with
  | none => throw noSetNode
  | some curNode =>
    if (← look (·.valueAt curNode)) = [] then throw noSetNode
    else do
      backupNodes curNode
      eraseNode hasher curNode (← look (·.childBytesAt curNode))

def subtrieMarkFreeFrom : Nat → UInt32 → PersistentM Unit
  | 0, _ => throw .unboundedRecursion
  | calls + 1, curNode => do
    markFree curNode
    allBytes.forM fun byte => do
      let child ← look (·.childAt curNode byte)
      if child ≠ 0 then subtrieMarkFreeFrom calls child
      else pure ()

def subtrieMarkFree (curNode : UInt32) : PersistentM Unit := do
  subtrieMarkFreeFrom (← look (·.nodes.length)) curNode

def deleteNodeTree (hasher : HashTransformation) (path : Bytes) : PersistentM Unit := do
  let noSetNode :=
    Fault.outOfRange (text "In delete_node_tree: No set node at path: " ++ bin2hex path)
  match ← look (·.getNodeIndex path) with
  | none => throw noSetNode
  | some curNode =>
    if (← look (·.valueAt curNode)) = [] then throw noSetNode
    else do
      backupNodes (← look (·.parentAt curNode))
      subtrieMarkFree curNode
      let next ← unlinkNode curNode
      calculateHash hasher next

def divideNode (curNode : UInt32) (curPrefixIndex : Nat) : PersistentM UInt32 := do
  let curNodePrefix ← look (·.prefixAt curNode)
  backupNodes curNode
  let parent ← look (·.parentAt curNode)
  let pathFromParent ← look (·.firstByteAt curNode)
  let splitNode ← addNode parent pathFromParent
  setParent curNode splitNode
  setChild splitNode (curNodePrefix.getD curPrefixIndex 0) curNode
  setPrefix splitNode (curNodePrefix.take curPrefixIndex)
  setPrefix curNode (curNodePrefix.drop curPrefixIndex)
  return splitNode

def splitNode (hasher : HashTransformation) (curNode : UInt32)
    (curPrefixIndex : Nat) : PersistentM UInt32 := do
  let splitNode ← divideNode curNode curPrefixIndex
  calculateHash hasher curNode
  return splitNode

structure LoopEnd where
  curNode : UInt32
  curPrefixIndex : Nat
  keyEnded : Bool

def setLoop (hasher : HashTransformation) : Bytes → UInt32 → Nat → PersistentM LoopEnd
  | [], curNode, curPrefixIndex => return ⟨curNode, curPrefixIndex, true⟩
  | pathElement :: rest, curNode, curPrefixIndex => do
    let curPrefix ← look (·.prefixAt curNode)
    if curPrefixIndex = curPrefix.length then do
      let child ← look (·.childAt curNode pathElement)
      if child ≠ 0 then setLoop hasher rest child 1
      else if (← look (·.hasChildren curNode)) ∨
          (← look (·.valueAt curNode)) ≠ [] ∨ curNode = 0 then do
        backupNodes curNode
        let newNode ← addNode curNode pathElement
        setLoop hasher rest newNode 1
      else do
        setPrefix curNode (curPrefix ++ pathElement :: rest)
        return ⟨curNode, curPrefixIndex, false⟩
    else if pathElement ≠ curPrefix.getD curPrefixIndex 0 then do
      let splitNode ← splitNode hasher curNode curPrefixIndex
      let newNode ← addNode splitNode pathElement
      setLoop hasher rest newNode 1
    else setLoop hasher rest curNode (curPrefixIndex + 1)

def storeValue (hasher : HashTransformation) (curNode : UInt32)
    (value : Bytes) : PersistentM Unit := do
  backupNodes curNode
  setValue curNode value
  calculateHash hasher curNode

def finishSet (hasher : HashTransformation) (loopEnd : LoopEnd)
    (value : Bytes) : PersistentM Unit := do
  let curPrefix ← look (·.prefixAt loopEnd.curNode)
  if curPrefix.length ≠ loopEnd.curPrefixIndex ∧ loopEnd.keyEnded then do
    let splitNode ← splitNode hasher loopEnd.curNode loopEnd.curPrefixIndex
    storeValue hasher splitNode value
  else storeValue hasher loopEnd.curNode value

/-- Unlike `state_impl::set`, an empty value changes nothing. -/
def set (hasher : HashTransformation) (key value : Bytes) : PersistentM Unit := do
  if value = [] then pure ()
  else do
    let loopEnd ← setLoop hasher key 0 0
    finishSet hasher loopEnd value

/-- `state_persistent::state_persistent` over an empty blobstore and an empty
vector; `calculate_hash(0)` stores the empty hash of the root. -/
def create : StatePersistent :=
  let blobs := (Blobstore.create.store []).1
  let (hashed, hash) := blobs.store []
  { blobs := hashed
    nodes := [{ (default : PersistentNode) with hash_ := hash }]
    backup := []
    freeLocations := ∅
    permanentNodesCount := 1 }

/-- `persistent_vector::resize` only sets the number of elements; the callers
never raise it. -/
def discardChanges (state : StatePersistent) : StatePersistent :=
  let restored :=
    state.backup.foldl (fun current entry => current.update entry.1 fun _ => entry.2) state
  { restored with
    nodes := restored.nodes.take state.permanentNodesCount
    freeLocations := ∅ }

def apply (hasher : HashTransformation) : Request → PersistentM Unit
  | .set key value => set hasher key value
  | .erase key => erase hasher key
  | .deleteNodeTree key => deleteNodeTree hasher key

/-- A call that throws leaves the state as it was at the throw. -/
def step (hasher : HashTransformation) (state : StatePersistent)
    (request : Request) : StatePersistent :=
  match apply hasher request state with
  | .ok _ after => after
  | .error _ after => after

def run (hasher : HashTransformation) (state : StatePersistent)
    (requests : List Request) : StatePersistent :=
  requests.foldl (step hasher) state

end StatePersistent

end AutomatonCore.State
