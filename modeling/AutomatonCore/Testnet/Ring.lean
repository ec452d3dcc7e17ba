import Mathlib.Combinatorics.SimpleGraph.Connectivity.Connected
import Mathlib.Data.List.AList
import AutomatonCore.Library.Circle

/-!
# Ring topologies
-/

namespace AutomatonCore.Testnet

open Library List

abbrev Connections := AList fun _ : UInt32 => List UInt32

def ringNodes (n : UInt32) : List UInt32 :=
  (List.range n.toNat).map fun k => UInt32.ofNat (k + 1)

def ringPeers (n p i : UInt32) : List UInt32 :=
  (List.range p.toNat).map fun j => (i + UInt32.ofNat j) % n + 1

/-- Every node is connected with the next ones on a circle. -/
def createConnectionsVector (n p : UInt32) : Connections :=
  if p ≥ (n + 1) / 2 then ∅
  else (ringNodes n).foldl (fun result i => result.insert i (ringPeers n p i)) ∅

namespace Connections

def Lists (connections : Connections) (i k : UInt32) : Prop :=
  ∃ peers, connections.lookup i = some peers ∧ k ∈ peers

/-- The undirected graph of the connections. -/
def links (connections : Connections) : SimpleGraph { i // i ∈ connections } :=
  SimpleGraph.fromRel fun i k => connections.Lists i.1 k.1

end Connections

/-! ## The map -/

theorem lookup_foldl_insert (peersOf : UInt32 → List UInt32)
    (nodes : List UInt32) (connections : Connections) (i : UInt32) :
    (nodes.foldl (fun result i => result.insert i (peersOf i)) connections).lookup i =
      if i ∈ nodes then some (peersOf i) else connections.lookup i := by
  induction nodes generalizing connections with
  | nil => simp
  | cons node nodes ih =>
    rw [foldl_cons, ih]
    by_cases same : i = node
    · subst same
      simp
    · simp [same]

theorem mem_ringNodes {n i : UInt32} : i ∈ ringNodes n ↔ 1 ≤ i.toNat ∧ i.toNat ≤ n.toNat := by
  have bound := n.toNat_lt
  simp only [ringNodes, mem_map, mem_range]
  constructor
  · rintro ⟨k, small, rfl⟩
    rw [UInt32.toNat_ofNat']
    omega
  · intro range
    refine ⟨i.toNat - 1, by omega, ?_⟩
    rw [Nat.sub_add_cancel range.1, UInt32.ofNat_toNat]

theorem exists_ringNode {n : UInt32} {place : Nat} (bound : place < n.toNat) :
    ∃ node ∈ ringNodes n, node.toNat = place + 1 := by
  have v : (UInt32.ofNat (place + 1)).toNat = place + 1 := by
    have := n.toNat_lt
    rw [UInt32.toNat_ofNat']
    omega
  exact ⟨_, mem_ringNodes.mpr (by omega), v⟩

section Ring

variable {n p : UInt32} (small : n.toNat < 2 ^ 31) (few : p.toNat < (n.toNat + 1) / 2)

include small few

theorem lookup_createConnectionsVector (i : UInt32) :
    (createConnectionsVector n p).lookup i =
      if i ∈ ringNodes n then some (ringPeers n p i) else none := by
  have enough : ¬ p ≥ (n + 1) / 2 := by
    rw [ge_iff_le, UInt32.le_iff_toNat_le, UInt32.toNat_div, UInt32.toNat_add]
    simp only [UInt32.reduceToNat]
    omega
  rw [createConnectionsVector, if_neg enough, lookup_foldl_insert]
  rfl

theorem mem_createConnectionsVector (i : UInt32) :
    i ∈ createConnectionsVector n p ↔ 1 ≤ i.toNat ∧ i.toNat ≤ n.toNat := by
  rw [← AList.lookup_isSome, lookup_createConnectionsVector small few, ← mem_ringNodes]
  split <;> simp [*]

theorem toNat_peer {i : UInt32} (range : i ∈ ringNodes n) {j : Nat} (inside : j < p.toNat) :
    ((i + UInt32.ofNat j) % n + 1).toNat = (i.toNat - 1 + (j + 1)) % n.toNat + 1 := by
  rw [mem_ringNodes] at range
  have below : (i.toNat + j) % n.toNat < n.toNat := Nat.mod_lt _ (by omega)
  have sum : (i + UInt32.ofNat j).toNat = i.toNat + j := by
    rw [UInt32.toNat_add, UInt32.toNat_ofNat']
    omega
  rw [UInt32.toNat_add, UInt32.toNat_mod, sum,
    show i.toNat - 1 + (j + 1) = i.toNat + j by omega]
  simp only [UInt32.reduceToNat]
  omega

theorem lists_iff {i k : UInt32} (range : i ∈ ringNodes n) :
    (createConnectionsVector n p).Lists i k ↔ k ∈ ringNodes n ∧
      Circle.Ahead n.toNat p.toNat (i.toNat - 1) (k.toNat - 1) := by
  have found : (createConnectionsVector n p).lookup i = some (ringPeers n p i) := by
    rw [lookup_createConnectionsVector small few, if_pos range]
  simp only [Connections.Lists, found, Option.some.injEq, exists_eq_left',
    ringPeers, mem_map, mem_range, mem_ringNodes]
  constructor
  · rintro ⟨j, inside, rfl⟩
    rw [toNat_peer small few range inside]
    have below : (i.toNat - 1 + (j + 1)) % n.toNat < n.toNat := Nat.mod_lt _ (by omega)
    exact ⟨by omega, j + 1, by omega, by omega, by omega⟩
  · rintro ⟨other, step, pos, bound, same⟩
    have inside : step - 1 < p.toNat := by omega
    refine ⟨step - 1, inside, UInt32.toNat.inj ?_⟩
    rw [toNat_peer small few range inside, Nat.sub_add_cancel pos,
      ← same, Nat.sub_add_cancel other.1]

theorem mem_ringNodes_of_lookup {i : UInt32} {peers : List UInt32}
    (found : (createConnectionsVector n p).lookup i = some peers) : i ∈ ringNodes n := by
  rw [lookup_createConnectionsVector small few] at found
  by_contra outside
  rw [if_neg outside] at found
  cases found

theorem nodup_ringPeers {i : UInt32} (range : i ∈ ringNodes n) : (ringPeers n p i).Nodup := by
  refine List.Nodup.map_on ?_ nodup_range
  intro first firstMember second secondMember same
  rw [mem_range] at firstMember secondMember
  have places := congrArg UInt32.toNat same
  rw [toNat_peer small few range firstMember, toNat_peer small few range secondMember] at places
  rw [mem_ringNodes] at range
  have place : i.toNat - 1 < n.toNat := by omega
  have firstCases := Circle.add_mod_cases place (show first + 1 < n.toNat by omega)
  have secondCases := Circle.add_mod_cases place (show second + 1 < n.toNat by omega)
  omega

theorem image_neighborSet (i : { i // i ∈ createConnectionsVector n p }) :
    (fun k => k.1.toNat - 1) '' (createConnectionsVector n p).links.neighborSet i =
      Circle.neighbours n.toNat p.toNat (i.1.toNat - 1) := by
  have mem {k : UInt32} := mem_createConnectionsVector small few k
  have place := mem.mp i.2
  ext other
  simp only [Set.mem_image, SimpleGraph.mem_neighborSet, Connections.links,
    SimpleGraph.fromRel_adj, Circle.neighbours, Set.mem_ofPred_eq]
  constructor
  · rintro ⟨k, ⟨_, near⟩, rfl⟩
    have otherPlace := mem.mp k.2
    rw [lists_iff small few (mem_ringNodes.mpr place),
      lists_iff small few (mem_ringNodes.mpr otherPlace)] at near
    exact ⟨by omega, near.imp And.right And.right⟩
  · rintro ⟨bound, near⟩
    obtain ⟨node, range, v⟩ := exists_ringNode bound
    have inside := mem.mpr (mem_ringNodes.mp range)
    refine ⟨⟨node, inside⟩, ⟨?_, ?_⟩, ?_⟩
    · intro same
      have places := congrArg (fun k => k.1.toNat) same
      rw [v] at places
      rw [places, Nat.add_sub_cancel, or_self] at near
      exact Circle.not_ahead_self (by omega) bound near
    · rw [lists_iff small few (mem_ringNodes.mpr place),
        lists_iff small few range, v, Nat.add_sub_cancel]
      exact near.imp (And.intro range) (And.intro (mem_ringNodes.mpr place))
    · rw [v, Nat.add_sub_cancel]

theorem ncard_neighborSet (i : { i // i ∈ createConnectionsVector n p }) :
    ((createConnectionsVector n p).links.neighborSet i).ncard = 2 * p.toNat := by
  have mem {k : UInt32} := mem_createConnectionsVector small few k
  have injective :
      Function.Injective fun k : { k // k ∈ createConnectionsVector n p } => k.1.toNat - 1 := by
    intro first second same
    have firstPlace := mem.mp first.2
    have secondPlace := mem.mp second.2
    apply Subtype.ext
    apply UInt32.toNat.inj
    dsimp only at same
    omega
  have place := mem.mp i.2
  rw [← Set.ncard_image_of_injective _ injective,
    image_neighborSet small few, Circle.ncard_neighbours] <;> omega

theorem reachable_first (some : 1 ≤ p.toNat) (first : { i // i ∈ createConnectionsVector n p })
    (one : first.1.toNat = 1) (distance : Nat) :
    ∀ i : { i // i ∈ createConnectionsVector n p }, i.1.toNat = distance + 1 →
      (createConnectionsVector n p).links.Reachable first i := by
  have mem {k : UInt32} := mem_createConnectionsVector small few k
  induction distance with
  | zero =>
    intro i same
    obtain rfl : first = i := Subtype.ext (UInt32.toNat.inj (one.trans same.symm))
    exact .rfl
  | succ distance ih =>
    intro i same
    have place := mem.mp i.2
    obtain ⟨node, range, v⟩ := exists_ringNode (show distance < n.toNat by omega)
    have inside := mem.mpr (mem_ringNodes.mp range)
    have adjacent : (createConnectionsVector n p).links.Adj ⟨node, inside⟩ i := by
      rw [Connections.links, SimpleGraph.fromRel_adj]
      constructor
      · intro equal
        have places := congrArg (fun k => k.1.toNat) equal
        dsimp only at places
        omega
      · left
        rw [lists_iff small few range]
        refine ⟨mem_ringNodes.mpr place, 1, by omega, some, ?_⟩
        rw [Nat.mod_eq_of_lt] <;> omega
    exact (ih ⟨node, inside⟩ v).trans adjacent.reachable

theorem connected_links (some : 1 ≤ p.toNat) : (createConnectionsVector n p).links.Connected := by
  have mem {k : UInt32} := mem_createConnectionsVector small few k
  have one : (1 : UInt32) ∈ createConnectionsVector n p :=
    mem.mpr ⟨Nat.le_refl 1, show 1 ≤ n.toNat by omega⟩
  have reachable (i : { i // i ∈ createConnectionsVector n p }) :
      (createConnectionsVector n p).links.Reachable ⟨1, one⟩ i := by
    have place := mem.mp i.2
    exact reachable_first small few some ⟨1, one⟩ rfl (i.1.toNat - 1) i (by omega)
  have : Nonempty { i // i ∈ createConnectionsVector n p } := ⟨⟨1, one⟩⟩
  exact ⟨fun i k => (reachable i).symm.trans (reachable k)⟩

/-- The nodes are `1` to `n`, each with `p` other nodes as peers; no two nodes
list each other, so every node has `2 * p` links; and with any peers at all
the graph is connected. -/
theorem createConnectionsVector_ring :
    (∀ i, i ∈ createConnectionsVector n p ↔ 1 ≤ i.toNat ∧ i.toNat ≤ n.toNat) ∧
    (∀ i peers, (createConnectionsVector n p).lookup i = some peers →
      peers.length = p.toNat ∧ peers.Nodup ∧ ∀ k ∈ peers, 1 ≤ k.toNat ∧ k.toNat ≤ n.toNat ∧ k ≠ i) ∧
    (∀ i k, (createConnectionsVector n p).Lists i k → ¬ (createConnectionsVector n p).Lists k i) ∧
    (∀ i, ((createConnectionsVector n p).links.neighborSet i).ncard = 2 * p.toNat) ∧
    (1 ≤ p.toNat → (createConnectionsVector n p).links.Connected) := by
  refine ⟨mem_createConnectionsVector small few, ?_, ?_,
    ncard_neighborSet small few, connected_links small few⟩
  · intro i peers found
    have range := mem_ringNodes_of_lookup small few found
    have listed : ∀ k, k ∈ peers → (createConnectionsVector n p).Lists i k :=
      fun k mem => ⟨peers, found, mem⟩
    rw [lookup_createConnectionsVector small few, if_pos range] at found
    cases found
    refine ⟨by simp [ringPeers], nodup_ringPeers small few range, ?_⟩
    intro k mem
    have ahead := (lists_iff small few range).mp (listed k mem)
    have place := mem_ringNodes.mp ahead.1
    refine ⟨place.1, place.2, ?_⟩
    rintro rfl
    exact Circle.not_ahead_self (by omega) (by omega) ahead.2
  · intro i k forward backward
    have first : i ∈ ringNodes n := by
      obtain ⟨_, found, _⟩ := forward
      exact mem_ringNodes_of_lookup small few found
    have second := ((lists_iff small few first).mp forward).1
    rw [lists_iff small few first] at forward
    rw [lists_iff small few second] at backward
    rw [mem_ringNodes] at first second
    exact forward.2.asymm (by omega) (by omega) (by omega) backward.2

end Ring

theorem createConnectionsVector_seven : (createConnectionsVector 7 3).links.Connected :=
  (createConnectionsVector_ring (n := 7) (p := 3) (by decide) (by decide)).2.2.2.2 (by decide)

end AutomatonCore.Testnet
