import AutomatonCore.Io.Hex
import Mathlib.Data.Finset.Sort

/-!
# The radix-tree state `state_impl`

The class keeps its tree in one vector of nodes.  A child link is an index
into the vector, where zero means that there is no child, and the root is
node zero.  Removed nodes stay in the vector and their indices are collected
in `free_locations` until a new node takes them.

A node index, a string length and a node count are natural numbers here; the
source keeps them in 32-bit integers.  An index outside the vector reads as a
default node; the representation invariant excludes such reads.
-/

namespace AutomatonCore.State

open Io

/-- `crypto::hash_transformation`: `digest` is what `final` writes after the
given bytes have been passed to `update` since the last `restart`. -/
structure HashTransformation where
  digestSize : Nat
  digest : Bytes → Bytes
  digest_length : ∀ message, (digest message).length = digestSize

structure Node where
  parent : Nat
  prefixBytes : Bytes
  hash : Bytes
  value : Bytes
  children : UInt8 → Nat

instance : Inhabited Node :=
  ⟨{ parent := 0
     prefixBytes := []
     hash := []
     value := []
     children := fun _ => 0 }⟩

namespace Node

def setChild (node : Node) (path : UInt8) (index : Nat) : Node :=
  { node with children := fun byte => if byte = path then index else node.children byte }

def childBytes (node : Node) : List UInt8 :=
  allBytes.filter fun byte => node.children byte ≠ 0

/-- `prefix[0]`, which is the terminating zero of an empty string. -/
def firstByte (node : Node) : UInt8 :=
  node.prefixBytes.headD 0

end Node

inductive Fault where
  | outOfRange (message : Bytes)
  | unboundedRecursion
  deriving DecidableEq, Repr

structure StateImpl where
  nodes : List Node
  backup : List (Nat × Node)
  freeLocations : Finset Nat
  permanentNodesCount : Nat

namespace StateImpl

def node (state : StateImpl) (index : Nat) : Node :=
  state.nodes.getD index default

def update (state : StateImpl) (index : Nat) (change : Node → Node) : StateImpl :=
  { state with nodes := state.nodes.set index (change (state.node index)) }

def markFree (state : StateImpl) (index : Nat) : StateImpl :=
  { state with freeLocations := insert index state.freeLocations }

/-- Whether `backup` has an entry for the node already, so that
`backup.insert` inserts nothing. -/
def saved (state : StateImpl) (index : Nat) : Bool :=
  state.backup.any fun entry => entry.1 = index

/-- Every recursive call follows the insertion of a new key below
`permanent_nodes_count`, so that many calls and one more are enough. -/
def backupNodesFrom : Nat → StateImpl → Nat → StateImpl
  | 0, state, _ => state
  | calls + 1, state, curNode =>
    if state.saved curNode then state
    else
      let inserted :=
        { state with backup := state.backup ++ [(curNode, state.node curNode)] }
      if curNode ≠ 0 ∧ curNode < state.permanentNodesCount then
        backupNodesFrom calls inserted (inserted.node curNode).parent
      else inserted

def backupNodes (state : StateImpl) (curNode : Nat) : StateImpl :=
  backupNodesFrom (state.permanentNodesCount + 1) state curNode

def hasChildren (state : StateImpl) (nodeIndex : Nat) : Bool :=
  allBytes.any fun byte => (state.node nodeIndex).children byte ≠ 0

def hashInput (state : StateImpl) (curNode : Nat) : Bytes :=
  (state.node curNode).value ++ (state.node curNode).prefixBytes ++
    (state.node curNode).childBytes.flatMap fun byte =>
      (state.node ((state.node curNode).children byte)).hash

def setHash (state : StateImpl) (index : Nat) (hash : Bytes) : StateImpl :=
  state.update index fun node => { node with hash := hash }

/-- The walk along parent links; more calls than there are nodes mean that
the links run in a circle. -/
def calculateHashFrom (hasher : HashTransformation) : Nat → StateImpl → Nat → Except Fault StateImpl
  | 0, _, _ => .error .unboundedRecursion
  | calls + 1, state, curNode =>
    if curNode = 0 ∧ ¬ state.hasChildren curNode then .ok (state.setHash curNode [])
    else
      let hashed := state.setHash curNode (hasher.digest (state.hashInput curNode))
      if curNode ≠ 0 then calculateHashFrom hasher calls hashed (hashed.node curNode).parent
      else .ok hashed

def calculateHash (hasher : HashTransformation) (state : StateImpl) (curNode : Nat) :
    Except Fault StateImpl :=
  calculateHashFrom hasher state.nodes.length state curNode

def allocate (state : StateImpl) : StateImpl × Nat :=
  if occupied : state.freeLocations.Nonempty then
    let newNode := state.freeLocations.min' occupied
    let saved := state.backupNodes newNode
    ({ saved.update newNode fun _ => default with
        freeLocations := saved.freeLocations.erase newNode },
      newNode)
  else ({ state with nodes := state.nodes ++ [default] }, state.nodes.length)

def addNode (state : StateImpl) (source : Nat) (target : UInt8) : StateImpl × Nat :=
  let (allocated, newNode) := state.allocate
  let linked := allocated.update source fun node => node.setChild target newNode
  (linked.update newNode fun node =>
      { node with parent := source, prefixBytes := [target] },
    newNode)

def nodeIndexAtEnd (state : StateImpl) (curNode : Nat) (keyEndedAtEdge : Bool) : Option Nat :=
  if keyEndedAtEdge ∧ ((state.node curNode).prefixBytes.length : Int) - 1 ≠ 0 then none
  else some curNode

/-- The loop of `get_node_index`; the first argument bounds the number of
iterations, and every iteration advances `i`. -/
def nodeIndexLoop (state : StateImpl) (path : Bytes) : Nat → Nat → Nat → Bool → Option Nat
  | 0, _, curNode, keyEndedAtEdge => state.nodeIndexAtEnd curNode keyEndedAtEdge
  | rounds + 1, i, curNode, keyEndedAtEdge =>
    if i < path.length then
      let current := state.node curNode
      let pathElement := path.getD i 0
      if (current.prefixBytes.length : Int) - 1 ≤ 0 then
        if current.children pathElement = 0 then none
        else nodeIndexLoop state path rounds (i + 1) (current.children pathElement) true
      else if (current.prefixBytes.length : Int) - 1 < (path.length : Int) - i then
        if current.prefixBytes = (path.drop (i - 1)).take current.prefixBytes.length then
          let next := i + (current.prefixBytes.length - 1)
          let nextElement := path.getD next 0
          if current.children nextElement ≠ 0 then
            nodeIndexLoop state path rounds (next + 1) (current.children nextElement) true
          else none
        else none
      else if (current.prefixBytes.length : Int) - 1 = (path.length : Int) - i then
        if current.prefixBytes = path.drop (i - 1) then some curNode
        else none
      else none
    else state.nodeIndexAtEnd curNode keyEndedAtEdge

/-- The index of the node at `path`; the source returns -1 for none. -/
def getNodeIndex (state : StateImpl) (path : Bytes) : Option Nat :=
  state.nodeIndexLoop path path.length 0 0 false

def get (state : StateImpl) (key : Bytes) : Bytes :=
  match state.getNodeIndex key with
  | none => []
  | some nodeIndex => (state.node nodeIndex).value

def getNodeHash (state : StateImpl) (path : Bytes) : Bytes :=
  match state.getNodeIndex path with
  | none => []
  | some nodeIndex => (state.node nodeIndex).hash

def getNodeChildren (state : StateImpl) (path : Bytes) : Except Fault (List Bytes) :=
  match state.getNodeIndex path with
  | none => .error (.outOfRange (text "No node at this path"))
  | some nodeIndex =>
    .ok ((state.node nodeIndex).childBytes.map fun byte =>
      (state.node ((state.node nodeIndex).children byte)).prefixBytes)

def size (state : StateImpl) : Nat :=
  state.nodes.length

def noSetNode (path : Bytes) : Fault :=
  .outOfRange (text "No set node at path: " ++ bin2hex path)

/-- Merge a node that has a single child with that child: the child takes
over the prefix and the place below the parent. -/
def mergeWithChild (state : StateImpl) (curNode : Nat) (byte : UInt8) : StateImpl × Nat :=
  let parent := (state.node curNode).parent
  let child := (state.node curNode).children byte
  let saved := state.backupNodes child
  let prefixed :=
    saved.update child fun node =>
      { node with prefixBytes := (saved.node curNode).prefixBytes ++ node.prefixBytes }
  let pathFromParent := (prefixed.node curNode).firstByte
  let linked := prefixed.update parent fun node => node.setChild pathFromParent child
  let moved := linked.update child fun node => { node with parent := parent }
  (moved.markFree curNode, child)

def cutNode (state : StateImpl) (curNode : Nat) : StateImpl :=
  let parent := (state.node curNode).parent
  let pathFromParent := (state.node curNode).firstByte
  (state.update parent fun node => node.setChild pathFromParent 0).markFree curNode

/-- Cut a node off, and merge its parent with the remaining child when the
parent has no value, one child and is not the root. -/
def unlinkNode (state : StateImpl) (curNode : Nat) : StateImpl × Nat :=
  let parent := (state.node curNode).parent
  let cut := state.cutNode curNode
  if (cut.node parent).value.length = 0 ∧ (cut.node parent).childBytes.length = 1 ∧ parent ≠ 0 then
    cut.mergeWithChild parent ((cut.node parent).childBytes.headD 0)
  else (cut, parent)

def erase (hasher : HashTransformation) (state : StateImpl) (path : Bytes) :
    Except Fault StateImpl :=
  match state.getNodeIndex path with
  | none => .error (noSetNode path)
  | some curNode =>
    if (state.node curNode).value = [] then .error (noSetNode path)
    else
      let saved := state.backupNodes curNode
      match (saved.node curNode).childBytes with
      | [] =>
        let (unlinked, next) := saved.unlinkNode curNode
        unlinked.calculateHash hasher next
      | [byte] =>
        let (merged, child) := saved.mergeWithChild curNode byte
        merged.calculateHash hasher child
      | _ :: _ :: _ =>
        (saved.update curNode fun node =>
          { node with value := [] }).calculateHash hasher curNode

/-- The recursion over the children; more nested calls than there are nodes
mean that the links run in a circle. -/
def subtrieMarkFreeFrom : Nat → StateImpl → Nat → Except Fault StateImpl
  | 0, _, _ => .error .unboundedRecursion
  | calls + 1, state, curNode =>
    allBytes.foldlM (fun marked child =>
        if (marked.node curNode).children child ≠ 0 then
          subtrieMarkFreeFrom calls marked ((marked.node curNode).children child)
        else
          .ok marked)
      (state.markFree curNode)

def subtrieMarkFree (state : StateImpl) (curNode : Nat) : Except Fault StateImpl :=
  subtrieMarkFreeFrom state.nodes.length state curNode

def deleteNodeTree (hasher : HashTransformation) (state : StateImpl) (path : Bytes) :
    Except Fault StateImpl :=
  match state.getNodeIndex path with
  | none => .error (noSetNode path)
  | some curNode =>
    if (state.node curNode).value = [] then .error (noSetNode path)
    else do
      let saved := state.backupNodes (state.node curNode).parent
      let marked ← saved.subtrieMarkFree curNode
      let (unlinked, next) := marked.unlinkNode curNode
      unlinked.calculateHash hasher next

/-- Put a new node in front of `curNode` that takes over the first
`curPrefixIndex` bytes of its prefix. -/
def divideNode (state : StateImpl) (curNode curPrefixIndex : Nat) : StateImpl × Nat :=
  let curNodePrefix := (state.node curNode).prefixBytes
  let saved := state.backupNodes curNode
  let (added, splitNode) := saved.addNode (saved.node curNode).parent (saved.node curNode).firstByte
  let reparented := added.update curNode fun node => { node with parent := splitNode }
  let pathToChild := curNodePrefix.getD curPrefixIndex 0
  let linked := reparented.update splitNode fun node => node.setChild pathToChild curNode
  let upper :=
    linked.update splitNode fun node =>
      { node with prefixBytes := curNodePrefix.take curPrefixIndex }
  (upper.update curNode fun node =>
      { node with prefixBytes := curNodePrefix.drop curPrefixIndex },
    splitNode)

def splitNode (hasher : HashTransformation) (state : StateImpl)
    (curNode curPrefixIndex : Nat) : Except Fault (StateImpl × Nat) := do
  let (divided, splitNode) := state.divideNode curNode curPrefixIndex
  let hashed ← divided.calculateHash hasher curNode
  return (hashed, splitNode)

/-- Where the loop of `set` stops: the key was read to its end, or the loop
was left by `break`. -/
structure SetCursor where
  state : StateImpl
  curNode : Nat
  curPrefixIndex : Nat
  keyEnded : Bool

def setLoop (hasher : HashTransformation) : Bytes → StateImpl → Nat → Nat → Except Fault SetCursor
  | [], state, curNode, curPrefixIndex => .ok ⟨state, curNode, curPrefixIndex, true⟩
  | pathElement :: rest, state, curNode, curPrefixIndex =>
    let current := state.node curNode
    if curPrefixIndex = current.prefixBytes.length then
      if current.children pathElement ≠ 0 then
        setLoop hasher rest state (current.children pathElement) 1
      else if state.hasChildren curNode ∨ current.value ≠ [] ∨ curNode = 0 then
        let (added, newNode) := (state.backupNodes curNode).addNode curNode pathElement
        setLoop hasher rest added newNode 1
      else
        -- a fresh leaf takes the rest of the key into its prefix
        .ok ⟨state.update curNode fun node =>
            { node with prefixBytes := node.prefixBytes ++ pathElement :: rest },
          curNode, curPrefixIndex, false⟩
    else if pathElement ≠ current.prefixBytes.getD curPrefixIndex 0 then do
      let (divided, splitNode) ← state.splitNode hasher curNode curPrefixIndex
      let (added, newNode) := divided.addNode splitNode pathElement
      setLoop hasher rest added newNode 1
    else setLoop hasher rest state curNode (curPrefixIndex + 1)

def storeValue (hasher : HashTransformation) (state : StateImpl)
    (curNode : Nat) (value : Bytes) : Except Fault StateImpl :=
  ((state.backupNodes curNode).update curNode fun node =>
    { node with value := value }).calculateHash hasher curNode

def finishSet (hasher : HashTransformation) (cursor : SetCursor)
    (value : Bytes) : Except Fault StateImpl :=
  if (cursor.state.node cursor.curNode).prefixBytes.length ≠
        cursor.curPrefixIndex ∧ cursor.keyEnded then do
    -- the key is at its end but there is still prefix left
    let (divided, splitNode) ← cursor.state.splitNode hasher cursor.curNode cursor.curPrefixIndex
    divided.storeValue hasher splitNode value
  else cursor.state.storeValue hasher cursor.curNode value

def set (hasher : HashTransformation) (state : StateImpl)
    (key value : Bytes) : Except Fault StateImpl :=
  if value = [] then state.erase hasher key
  else do
    let cursor ← setLoop hasher key state 0 0
    finishSet hasher cursor value

/-- `state_impl::state_impl`; `calculate_hash(0)` leaves the hash empty. -/
def create : StateImpl where
  nodes := [default]
  backup := []
  freeLocations := ∅
  permanentNodesCount := 1

def resizeNodes (nodes : List Node) (count : Nat) : List Node :=
  nodes.take count ++ List.replicate (count - nodes.length) default

/-- The loop of `commit_changes`.  The lists are what `it_low` and `rit_high`
have still to visit. -/
def compactLoop : Nat → StateImpl → List Nat → List Nat → Nat → StateImpl × List Nat × Nat
  | 0, state, low, _, lastElement => (state, low, lastElement)
  | rounds + 1, state, low, high, lastElement =>
    if low.headD 0 ≠ high.headD 0 then
      if lastElement = high.headD 0 then compactLoop rounds state low high.tail (lastElement - 1)
      else
        let moved := state.node lastElement
        let copied := state.update (low.headD 0) fun _ => moved
        let parent := (copied.node lastElement).parent
        let pathFromParent := (copied.node lastElement).firstByte
        let linked := copied.update parent fun node => node.setChild pathFromParent (low.headD 0)
        compactLoop rounds linked low.tail high (lastElement - 1)
    else (state, low, lastElement)

def commitChanges (state : StateImpl) : StateImpl :=
  let cleared := { state with backup := [] }
  if state.freeLocations = ∅ then { cleared with permanentNodesCount := state.nodes.length }
  else
    let low := state.freeLocations.sort (· ≤ ·)
    let (moved, lowEnd, lastElement) :=
      compactLoop low.length cleared low low.reverse (state.nodes.length - 1)
    let final := moved.update (lowEnd.headD 0) fun _ => moved.node lastElement
    let kept := resizeNodes final.nodes (final.nodes.length - state.freeLocations.card)
    { final with
      nodes := kept
      permanentNodesCount := kept.length
      freeLocations := ∅ }

def discardChanges (state : StateImpl) : StateImpl :=
  let restored :=
    state.backup.foldl (fun current entry => current.update entry.1 fun _ => entry.2) state
  { restored with
    nodes := resizeNodes restored.nodes state.permanentNodesCount
    freeLocations := ∅ }

end StateImpl

end AutomatonCore.State
