import AutomatonCore.Testnet.Connecting

/-!
# What calls of `create_testnet` do
-/

namespace AutomatonCore.Testnet

open Io List

namespace TestnetCall

/-- The call puts an acceptor at this address, even if it fails later. -/
def Covers (call : TestnetCall) (k : Nat) : Prop :=
  call.registered = true ∧ 1 ≤ k ∧ k ≤ call.numberNodes.toNat

/-- The call does not fail. -/
def Launches (call : TestnetCall) : Prop :=
  call.registered = true ∧ call.numberNodes.toNat + 1 < 2 ^ 32

instance (call : TestnetCall) (k : Nat) : Decidable (call.Covers k) :=
  inferInstanceAs (Decidable (_ ∧ _ ∧ _))

instance (call : TestnetCall) : Decidable call.Launches :=
  inferInstanceAs (Decidable (_ ∧ _))

end TestnetCall

/-- A call puts acceptors into the table of the simulation, in the place of
those that were there.  If the call fails, the acceptors stay. -/
structure After (calls : List TestnetCall) (before after : Testnets) : Prop where
  launched : before.launched ≤ after.launched
  covered :
    ∀ k, (∃ call ∈ calls, call.Covers k) → (after.simulator.network.acceptors k).isSome = true ∧
      before.launched ≤ after.simulator.handlers k
  uncovered : ∀ k, (∀ call ∈ calls, ¬call.Covers k) → (after.simulator.network.acceptors k).isSome =
          (before.simulator.network.acceptors k).isSome ∧
        after.simulator.handlers k = before.simulator.handlers k
  others : ∀ id, (∀ call ∈ calls, call.id ≠ id) →
      ∀ i, after.nodes.lookup (nodeId id i) = before.nodes.lookup (nodeId id i)
  testnets : ∀ id ∈ after.testnets, id ∈ before.testnets ∨ ∃ call ∈ calls, call.id = id
  tasks : before.simulator.tasks ⊆ after.simulator.tasks

theorem After.refl (s : Testnets) : After [] s s where
  launched := le_rfl
  covered _ covers := by
    obtain ⟨_, mem, _⟩ := covers
    cases mem
  uncovered _ _ := ⟨rfl, rfl⟩
  others _ _ _ := rfl
  testnets _ mem := .inl mem
  tasks := List.Subset.refl _

theorem After.trans {calls more : List TestnetCall}
    {before middle after : Testnets} (first : After calls before middle)
    (second : After more middle after) :
    After (calls ++ more) before after where
  launched := le_trans first.launched second.launched
  covered k covers := by
    by_cases later : ∃ call ∈ more, call.Covers k
    · obtain ⟨acceptor, handler⟩ := second.covered k later
      exact ⟨acceptor, le_trans first.launched handler⟩
    · have notLater : ∀ call ∈ more, ¬call.Covers k := fun call mem here => later ⟨call, mem, here⟩
      obtain ⟨call, mem, here⟩ := covers
      rcases mem_append.mp mem with mem | mem
      · obtain ⟨acceptor, handler⟩ := first.covered k ⟨call, mem, here⟩
        obtain ⟨sameAcceptor, sameHandler⟩ := second.uncovered k notLater
        exact ⟨sameAcceptor.trans acceptor, by rw [sameHandler]; exact handler⟩
      · exact absurd here (notLater call mem)
  uncovered k none := by
    obtain ⟨acceptor, handler⟩ :=
      first.uncovered k fun call mem => none call (mem_append_left _ mem)
    obtain ⟨laterAcceptor, laterHandler⟩ :=
      second.uncovered k fun call mem => none call (mem_append_right _ mem)
    exact ⟨laterAcceptor.trans acceptor, laterHandler.trans handler⟩
  others id other i :=
    (second.others id (fun call mem =>
      other call (mem_append_right _ mem)) i).trans
      (first.others id (fun call mem => other call (mem_append_left _ mem)) i)
  testnets id mem := by
    rcases second.testnets id mem with mem | ⟨call, mem, same⟩
    · rcases first.testnets id mem with mem | ⟨call, mem, same⟩
      · exact .inl mem
      · exact .inr ⟨call, mem_append_left _ mem, same⟩
    · exact .inr ⟨call, mem_append_right _ mem, same⟩
  tasks := List.Subset.trans first.tasks second.tasks

/-- No testnet has the id of the call, and no node an id of its nodes. -/
structure Fresh (call : TestnetCall) (state : Testnets) : Prop where
  unlisted : call.id ∉ state.testnets
  unknown : ∀ i, state.nodes.lookup (nodeId call.id i) = none

theorem After.fresh {calls : List TestnetCall} {before after : Testnets} {call : TestnetCall}
    (change : After calls before after) (fresh : Fresh call before)
    (others : ∀ other ∈ calls, other.id ≠ call.id) : Fresh call after where
  unlisted listed := by
    rcases change.testnets _ listed with listed | ⟨other, mem, same⟩
    · exact fresh.unlisted listed
    · exact others other mem same
  unknown i := (change.others call.id others i).trans (fresh.unknown i)

/-- The nodes of a testnet are in the map under ids that no other testnet has,
and are gone if the call fails. -/
structure Own (call : TestnetCall) (after : Testnets) : Prop where
  node : call.Launches → ∀ i, 1 ≤ i → i ≤ call.numberNodes.toNat →
      ∃ node ∈ after.nodes.lookup (nodeId call.id i),
      (after.simulator.network.acceptors i).isSome = true ∧ after.simulator.handlers i = node.object
  launches : ∀ i, (after.nodes.lookup (nodeId call.id i)).isSome →
      call.Launches ∧ 1 ≤ i ∧ i ≤ call.numberNodes.toNat
  asks : ∀ i, ∀ node ∈ after.nodes.lookup (nodeId call.id i), ∀ peer ∈ node.knownPeers,
      call.Asks (nodeId call.id i) peer.address
  knows : call.Launches → ∀ entry ∈ call.peerList, 1 ≤ entry.1.toNat →
      entry.1.toNat ≤ call.numberNodes.toNat →
      ∀ k ∈ entry.2, Knows after (nodeId call.id entry.1.toNat) (peerAddress k.toNat)

/-! ## One call -/

theorem Consistent.launched {id : Bytes} {first count : Nat}
    {before after : Testnets} (consistent : Consistent before)
    (launched : Testnets.Launched id first count before after) :
    Consistent after where
  nodes nid node found := by
    by_cases new : ∃ j, first ≤ j ∧ j < first + count ∧ nid = nodeId id j
    · obtain ⟨j, above, below, rfl⟩ := new
      obtain rfl := Option.mem_unique (launched.node j above below) found
      refine ⟨?_, rfl, by simp, by simp⟩
      rw [launched.launched]
      simp only
      omega
    · have same := launched.otherNode nid fun j above below here => new ⟨j, above, below, here⟩
      refine (consistent.nodes nid node (same.symm.trans found)).grows launched.connections.grows ?_
      rw [launched.launched]
      omega
  requests := consistent.requests.same launched.connections

theorem Consistent.removed {ids : List Bytes} {before after : Testnets}
    (consistent : Consistent before)
    (removed : Testnets.Removed ids before after) : Consistent after where
  nodes nid node found := by
    rw [removed.nodes] at found
    split at found
    · cases found
    · exact (consistent.nodes nid node found).grows removed.connections.grows
          (le_of_eq removed.launched.symm)
  requests := consistent.requests.same removed.connections

theorem not_asks {call : TestnetCall} {id : Bytes} (other : call.id ≠ id)
    (i : Nat) (addr : Bytes) : ¬call.Asks (nodeId id i) addr := by
  rintro ⟨e, _, same, _⟩
  exact other (nodeId_injective same).1.symm

namespace After

variable {call : TestnetCall} {before middle after : Testnets}

theorem launching (registered : call.registered = true)
    (launched : Testnets.Launched call.id 1 call.numberNodes.toNat before after) :
    After [call] before after where
  launched := by
    rw [launched.launched]
    exact Nat.le_add_right _ _
  covered k covers := by
    obtain ⟨other, mem, covers⟩ := covers
    obtain rfl := mem_singleton.mp mem
    obtain ⟨acceptor, handler⟩ := launched.acceptor k covers.2.1 (by have := covers.2.2; omega)
    rw [acceptor, handler]
    exact ⟨rfl, Nat.le_add_right _ _⟩
  uncovered k none := by
    have outside : k < 1 ∨ 1 + call.numberNodes.toNat ≤ k := by
      by_contra inside
      exact none call (mem_singleton_self _) ⟨registered, by omega, by omega⟩
    obtain ⟨acceptor, handler⟩ := launched.otherAcceptor k outside
    rw [acceptor]
    exact ⟨rfl, handler⟩
  others id other i := by
    apply launched.otherNode
    intro j _ _ same
    exact other call (mem_singleton_self _) (nodeId_injective same).1.symm
  testnets id mem := by
    rw [launched.testnets] at mem
    exact .inl mem
  tasks := launched.connections.grows.tasks

theorem unregistered (unregistered : call.registered = false)
    (s : Testnets) : After [call] s s where
  launched := le_rfl
  covered k covers := by
    obtain ⟨other, mem, covers⟩ := covers
    obtain rfl := mem_singleton.mp mem
    rw [TestnetCall.Covers, unregistered] at covers
    cases covers.1
  uncovered _ _ := ⟨rfl, rfl⟩
  others _ _ _ := rfl
  testnets _ mem := .inl mem
  tasks := List.Subset.refl _

/-- What may follow within a call: the table of acceptors stays. -/
theorem later (first : After [call] before middle) (launched : after.launched = middle.launched)
    (acceptors : ∀ k, (after.simulator.network.acceptors k).isSome =
      (middle.simulator.network.acceptors k).isSome)
    (handlers : after.simulator.handlers = middle.simulator.handlers)
    (others : ∀ id i, call.id ≠ id →
      after.nodes.lookup (nodeId id i) = middle.nodes.lookup (nodeId id i))
    (testnets : after.testnets = middle.testnets)
    (tasks : middle.simulator.tasks ⊆ after.simulator.tasks) : After [call] before after where
  launched := launched ▸ first.launched
  covered k covers := by
    rw [acceptors, handlers]
    exact first.covered k covers
  uncovered k none := by
    rw [acceptors, handlers]
    exact first.uncovered k none
  others id other i :=
    (others id i (other call (mem_singleton_self _))).trans (first.others id other i)
  testnets := testnets ▸ first.testnets
  tasks := List.Subset.trans first.tasks tasks

theorem wired (first : After [call] before middle)
    (wired : Wired call.Asks middle after) : After [call] before after :=
  first.later wired.launched (fun k => by rw [wired.acceptors.acceptors]) wired.acceptors.handlers
    (fun _ i other => wired.others _ (not_asks other i)) wired.testnets wired.grows.tasks

theorem listed (first : After [call] before after) :
    After [call] before { after with testnets := after.testnets ++ [call.id] } :=
  { first with
    testnets := by
      intro id mem
      rcases mem_append.mp mem with mem | mem
      · exact first.testnets id mem
      · obtain rfl := mem_singleton.mp mem
        exact .inr ⟨call, mem_singleton_self _, rfl⟩ }

theorem removed (first : After [call] before middle) {ids : List Bytes}
    (own : ∀ nid ∈ ids, ∃ i, nid = nodeId call.id i) (removed : Testnets.Removed ids middle after) :
    After [call] before after := by
  refine first.later removed.launched removed.acceptors removed.handlers (fun id i other => ?_)
    removed.testnets removed.connections.grows.tasks
  rw [removed.nodes, if_neg]
  intro mem
  obtain ⟨j, same⟩ := own _ mem
  exact other (nodeId_injective same).1.symm

end After

structure Created (call : TestnetCall) (before after : Testnets) : Prop where
  change : After [call] before after
  own : Own call after
  consistent : Consistent after

section

variable {rand : Nat → Nat} {call : TestnetCall}
  {s middle : Testnets}

theorem created_launches (consistent : Consistent s)
    (fresh : Fresh call s) (launches : call.Launches)
    (launched : Testnets.Launched call.id 1 call.numberNodes.toNat s middle) :
    Created call s
      { middle.connect rand call with
        testnets := (middle.connect rand call).testnets ++ [call.id] } := by
  obtain ⟨wired, kept, known⟩ := Testnets.wired_connect (consistent.launched launched) rand call
  have launchedNode (i : Nat) (above : 1 ≤ i) (below : i ≤ call.numberNodes.toNat) :=
    launched.node i above (by omega)
  have launchedOnly (i : Nat) (node : SimulatedNode)
      (found : node ∈ middle.nodes.lookup (nodeId call.id i)) :
      1 ≤ i ∧ i ≤ call.numberNodes.toNat := by
    by_contra outside
    rw [launched.otherNode, fresh.unknown] at found
    · cases found
    · intro j above below same
      have := (nodeId_injective same).2
      omega
  refine ⟨((After.launching launches.1 launched).wired wired).listed, ?_,
      ⟨kept.nodes, kept.requests⟩⟩
  refine ⟨?_, ?_, ?_, ?_⟩
  · intro _ i above below
    obtain ⟨node, found, object, _⟩ := wired.kept _ _ (launchedNode i above below)
    obtain ⟨acceptor, handler⟩ := launched.acceptor i above (by omega)
    refine ⟨node, found, ?_, ?_⟩
    · rw [wired.acceptors.acceptors, acceptor]
      rfl
    · rw [wired.acceptors.handlers, handler, object]
  · intro i found
    obtain ⟨node, found⟩ := Option.isSome_iff_exists.mp found
    obtain ⟨earlier, foundEarlier, _⟩ := wired.origin _ node found
    exact ⟨launches, launchedOnly i earlier foundEarlier⟩
  · intro i node found peer mem
    obtain ⟨earlier, foundEarlier, origin⟩ := wired.origin _ node found
    obtain ⟨above, below⟩ := launchedOnly i earlier foundEarlier
    obtain rfl := Option.mem_unique (launchedNode i above below) foundEarlier
    rcases origin peer mem with old | asked
    · cases old
    · exact asked
  · intro _ e mem above below k asked
    refine known e mem ?_ k asked
    rw [launchedNode _ above below]
    rfl

theorem own_of_none {after : Testnets} (idle : ¬call.Launches)
    (none : ∀ i, after.nodes.lookup (nodeId call.id i) = none) :
    Own call after where
  node launches := absurd launches idle
  launches i found := by
    rw [none] at found
    cases found
  asks i node found := by
    rw [none] at found
    cases found
  knows launches := absurd launches idle

theorem created_full (consistent : Consistent s) (fresh : Fresh call s)
    (registered : call.registered = true) (full : ¬call.Launches)
    (launched : Testnets.Launched call.id 1 call.numberNodes.toNat s middle) :
    Created call s (((List.range' 1 call.numberNodes.toNat).map
        (nodeId call.id)).foldl (Testnets.removeNode rand) middle) := by
  have own : ∀ nid ∈ (List.range' 1 call.numberNodes.toNat).map (nodeId call.id),
        ∃ i, 1 ≤ i ∧ i < 1 + call.numberNodes.toNat ∧ nid = nodeId call.id i := by
    intro nid mem
    obtain ⟨i, inside, rfl⟩ := mem_map.mp mem
    rw [mem_range'_1] at inside
    exact ⟨i, inside.1, inside.2, rfl⟩
  have alone : ∀ nid ∈ (List.range' 1 call.numberNodes.toNat).map (nodeId call.id),
        ∀ node ∈ middle.nodes.lookup nid, node.knownPeers = [] := by
    intro nid mem node found
    obtain ⟨i, above, below, rfl⟩ := own nid mem
    obtain rfl := Option.mem_unique (launched.node i above below) found
    rfl
  have removed := Testnets.removed_all rand alone
  refine ⟨(After.launching registered launched).removed ?_ removed, own_of_none full ?_,
      (consistent.launched launched).removed removed⟩
  · intro nid mem
    obtain ⟨i, _, _, same⟩ := own nid mem
    exact ⟨i, same⟩
  · intro i
    rw [removed.nodes]
    split
    · rfl
    next stays =>
        rw [launched.otherNode, fresh.unknown]
        intro j above below same
        refine stays (mem_map.mpr ⟨j, ?_, same.symm⟩)
        rw [mem_range'_1]
        exact ⟨above, below⟩

theorem created_unregistered (consistent : Consistent s) (fresh : Fresh call s)
    (unregistered : call.registered = false) : Created call s (s.createTestnet rand call).1 := by
  have idle : ¬call.Launches := by
    rw [TestnetCall.Launches, unregistered]
    exact fun launches => nomatch launches.1
  rw [Testnets.createTestnet, if_neg (mt contains_iff_mem.mp fresh.unlisted),
    Testnets.init_unregistered unregistered]
  by_cases empty : call.numberNodes.toNat = 0
  · rw [decide_eq_true empty]
    obtain ⟨wired, kept, _⟩ := Testnets.wired_connect consistent rand call
    refine ⟨((After.unregistered unregistered s).wired wired).listed,
        own_of_none idle ?_, ⟨kept.nodes, kept.requests⟩⟩
    intro i
    rw [Option.eq_none_iff_forall_not_mem]
    intro node found
    obtain ⟨earlier, foundEarlier, _⟩ := wired.origin _ node found
    rw [fresh.unknown] at foundEarlier
    cases foundEarlier
  · rw [decide_eq_false empty]
    exact ⟨After.unregistered unregistered s, own_of_none idle fresh.unknown, consistent⟩

theorem created_createTestnet (consistent : Consistent s) (fresh : Fresh call s) :
    Created call s (s.createTestnet rand call).1 := by
  cases registered : call.registered with
  | false => exact created_unregistered consistent fresh registered
  | true =>
    have launched := Testnets.launched_launchFrom call.id 1 call.numberNodes.toNat s
    rw [Testnets.createTestnet, if_neg (mt contains_iff_mem.mp fresh.unlisted),
      Testnets.init_registered registered fresh.unknown]
    by_cases fits : call.numberNodes.toNat + 1 < 2 ^ 32
    · rw [decide_eq_true fits]
      exact created_launches consistent fresh ⟨registered, fits⟩ launched
    · rw [decide_eq_false fits]
      exact created_full consistent fresh registered (fun launches => fits launches.2) launched

theorem after_createAll (rand : Nat → Nat) {calls : List TestnetCall}
    (consistent : Consistent s) (distinct : (calls.map TestnetCall.id).Nodup)
    (fresh : ∀ call ∈ calls, Fresh call s) :
    After calls s (s.createAll rand calls) ∧ Consistent (s.createAll rand calls) := by
  induction calls generalizing s with
  | nil => exact ⟨.refl s, consistent⟩
  | cons call calls ih =>
    rw [map_cons, nodup_cons] at distinct
    rw [forall_mem_cons] at fresh
    have created : Created call s (s.createTestnet rand call).1 :=
      created_createTestnet consistent fresh.1
    obtain ⟨rest, kept⟩ := ih created.consistent distinct.2 fun later mem =>
      created.change.fresh (fresh.2 later mem) <| forall_mem_singleton.mpr fun same =>
        distinct.1 (mem_map.mpr ⟨later, mem, same.symm⟩)
    exact ⟨created.change.trans rest, kept⟩

end

end AutomatonCore.Testnet
