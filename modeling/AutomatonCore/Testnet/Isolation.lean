import AutomatonCore.Testnet.Creation

/-!
# Requests between testnets

The table of acceptors belongs to the simulation, and the addresses of a
testnet begin at 1 whatever its id is.
-/

namespace AutomatonCore.Testnet

open Io Network List
open Testnets (createAll createAll_append)

namespace Testnets

/-- The node of a testnet that should handle the requests to an address. -/
def ownHandler (state : Testnets) (id : Bytes) (k : Nat) : Option Nat :=
  (state.nodes.lookup (nodeId id k)).map SimulatedNode.object

/-- The entry is a request that a node of the testnet has made for its peer
with the number `k`. -/
def Requests (state : Testnets) (id : Bytes) (k : Nat) (entry : Scheduled) : Prop :=
  ∃ i, ∃ node ∈ state.nodes.lookup (nodeId id i), ∃ peer ∈ node.knownPeers,
    peer.address = peerAddress k ∧ ∃ c, peer.connection = some c ∧ RequestOf c entry

end Testnets

/-- The testnets that a sequence of calls creates are isolated: while the
simulation is processed, every request for a peer would be handled by the node
that the testnet has under the number of the peer, or by nobody if it has
none; and the calls of a later part of the sequence do not change who would
handle a request. -/
structure Isolated (rand : Nat → Nat) (calls : List TestnetCall) : Prop where
  handled : ∀ (actions : List SimulatorAction) (final : Simulator),
      (∀ action ∈ actions, action.opensNothing) →
        (createAll rand {} calls).simulator.run actions = .ok final →
          ∀ call ∈ calls, ∀ k, ∀ entry ∈ final.tasks,
            (createAll rand {} calls).Requests call.id k entry →
              final.routes.handlerOf entry.task =
                (createAll rand {} calls).ownHandler call.id k
  unchanged : ∀ earlier later, calls = earlier ++ later →
      ∀ call ∈ earlier, ∀ k, ∀ entry ∈ (createAll rand {} earlier).simulator.tasks,
          (createAll rand {} earlier).Requests call.id k entry →
            (createAll rand {} calls).simulator.routes.handlerOf entry.task =
              (createAll rand {} earlier).simulator.routes.handlerOf entry.task

/-- For every peer that a node asks for: if the testnet has it, no later call
puts another acceptor at its address, and otherwise no other call puts one
there. -/
def Undisturbed (calls : List TestnetCall) : Prop :=
  ∀ earlier call later, calls = earlier ++ call :: later → call.Launches →
      ∀ entry ∈ call.peerList, 1 ≤ entry.1.toNat → entry.1.toNat ≤ call.numberNodes.toNat →
          ∀ k ∈ entry.2, k.toNat ≠ 0 →
            if k.toNat ≤ call.numberNodes.toNat then ∀ other ∈ later, ¬other.Covers k.toNat
            else ∀ other ∈ earlier ++ later, ¬other.Covers k.toNat

theorem Undisturbed.of_append {earlier later : List TestnetCall}
    (undisturbed : Undisturbed (earlier ++ later)) : Undisturbed earlier := by
  rintro first call rest rfl launches e mem above below k asked leads
  have whole :=
    undisturbed first call (rest ++ later) (by simp) launches e mem above below k asked leads
  split
  next inside =>
      rw [if_pos inside] at whole
      intro other mem
      exact whole other (mem_append_left _ mem)
  next outside =>
      rw [if_neg outside] at whole
      intro other mem
      refine whole other ?_
      rw [← append_assoc]
      exact mem_append_left _ mem

theorem fresh_empty (call : TestnetCall) : Fresh call {} := ⟨not_mem_nil, fun _ => rfl⟩

theorem consistent_empty : Consistent {} where
  nodes _ _ found := by cases found
  requests _ mem := by cases mem

theorem after_append (rand : Nat → Nat) {earlier later : List TestnetCall}
    (distinct : ((earlier ++ later).map TestnetCall.id).Nodup) :
    (After earlier {} (createAll rand {} earlier) ∧
        Consistent (createAll rand {} earlier)) ∧
      (After later (createAll rand {} earlier)
          (createAll rand {} (earlier ++ later)) ∧
        Consistent (createAll rand {} (earlier ++ later))) ∧
      ∀ call ∈ earlier, ∀ other ∈ later, call.id ≠ other.id := by
  rw [map_append, nodup_append] at distinct
  obtain ⟨distinctEarlier, distinctLater, apart⟩ := distinct
  have other : ∀ call ∈ earlier, ∀ other ∈ later, call.id ≠ other.id :=
    fun call mem other otherMember =>
      apart _ (mem_map_of_mem mem) _ (mem_map_of_mem otherMember)
  have first := after_createAll rand consistent_empty distinctEarlier fun call _ => fresh_empty call
  refine ⟨first, ?_, other⟩
  rw [createAll_append]
  exact after_createAll rand first.2 distinctLater fun call mem =>
    first.1.fresh (fresh_empty call) fun _ inside => other _ inside _ mem

structure Around (earlier : List TestnetCall) (call : TestnetCall)
    (later : List TestnetCall) (first second final : Testnets) : Prop where
  before : After earlier {} first
  created : Created call first second
  after : After later second final
  others : ∀ other ∈ later, other.id ≠ call.id
  consistent : Consistent final

theorem around_createAll (rand : Nat → Nat) {earlier : List TestnetCall}
    {call : TestnetCall} {later : List TestnetCall}
    (distinct : ((earlier ++ call :: later).map TestnetCall.id).Nodup) :
    ∃ first second, Around earlier call later first second
        (createAll rand {} (earlier ++ call :: later)) := by
  obtain ⟨⟨before, consistent⟩, _, otherEarlier⟩ := after_append rand distinct
  have otherEarlier : ∀ other ∈ earlier, other.id ≠ call.id :=
    fun other mem => otherEarlier other mem call mem_cons_self
  have created : Created call (createAll rand {} earlier)
        (createAll rand {} (earlier ++ [call])) := by
    rw [createAll_append]
    exact created_createTestnet consistent (before.fresh (fresh_empty call) otherEarlier)
  rw [append_cons] at distinct ⊢
  obtain ⟨_, ⟨after, consistentFinal⟩, otherLater⟩ := after_append rand distinct
  refine ⟨_, _, before, created, after, ?_, consistentFinal⟩
  intro other mem
  have isLast : call ∈ earlier ++ [call] := mem_append_right _ (mem_singleton_self _)
  exact (otherLater call isLast other mem).symm

namespace Around

variable {earlier later : List TestnetCall} {call : TestnetCall}
  {first second final : Testnets}

theorem lookup (around : Around earlier call later first second final) (i : Nat) :
    final.nodes.lookup (nodeId call.id i) = second.nodes.lookup (nodeId call.id i) :=
  around.after.others call.id around.others i

/-- A later testnet takes over the addresses that it covers. -/
theorem handled_inside (around : Around earlier call later first second final)
    (launches : call.Launches) {k : Nat} (pos : 1 ≤ k) (inside : k ≤ call.numberNodes.toNat) :
    ((final.simulator.network.acceptors k).map fun _ => final.simulator.handlers k) =
        final.ownHandler call.id k ↔ ∀ other ∈ later, ¬other.Covers k := by
  obtain ⟨node, found, acceptor, handler⟩ := around.created.own.node launches k pos inside
  have own : final.ownHandler call.id k = some node.object := by
    rw [Testnets.ownHandler, around.lookup, found]
    rfl
  have object := (around.created.consistent.nodes _ node found).object
  rw [own]
  constructor
  · intro handled other mem covers
    obtain ⟨_, fresh⟩ := around.after.covered k ⟨other, mem, covers⟩
    obtain ⟨_, _, same⟩ := Option.map_eq_some_iff.mp handled
    omega
  · intro uncovered
    obtain ⟨sameAcceptor, sameHandler⟩ := around.after.uncovered k uncovered
    rw [acceptor] at sameAcceptor
    obtain ⟨listed, there⟩ := Option.isSome_iff_exists.mp sameAcceptor
    rw [there, sameHandler, handler]
    rfl

/-- A request for a peer that the testnet does not have reaches a node of
another one. -/
theorem handled_outside (around : Around earlier call later first second final)
    {k : Nat} (outside : call.numberNodes.toNat < k) :
    ((final.simulator.network.acceptors k).map fun _ => final.simulator.handlers k) =
        final.ownHandler call.id k ↔ ∀ other ∈ earlier ++ later, ¬other.Covers k := by
  have own : final.ownHandler call.id k = none := by
    rw [Testnets.ownHandler, around.lookup, Option.map_eq_none_iff, ← Option.not_isSome_iff_eq_none]
    intro found
    have := (around.created.own.launches k found).2.2
    omega
  have notOwn : ¬call.Covers k := by
    intro covers
    have := covers.2.2
    omega
  have whole := (around.before.trans around.created.change).trans around.after
  rw [own, Option.map_eq_none_iff, ← Option.isNone_iff_eq_none,
    ← Option.not_isSome, Bool.not_eq_true']
  constructor
  · intro empty other mem covers
    have covered : ∃ call' ∈ earlier ++ [call] ++ later, call'.Covers k := by
      refine ⟨other, ?_, covers⟩
      rcases mem_append.mp mem with mem | mem
      · exact mem_append_left _ (mem_append_left _ mem)
      · exact mem_append_right _ mem
    rw [(whole.covered k covered).1] at empty
    cases empty
  · intro uncovered
    rw [(whole.uncovered k ?_).1]
    · rfl
    · intro other mem
      rw [append_assoc, mem_append, singleton_append, mem_cons] at mem
      rcases mem with mem | rfl | mem
      · exact uncovered other (mem_append_left _ mem)
      · exact notOwn
      · exact uncovered other (mem_append_right _ mem)

theorem handled_iff (around : Around earlier call later first second final)
    (launches : call.Launches) {k : Nat} (pos : k ≠ 0) :
    ((final.simulator.network.acceptors k).map fun _ => final.simulator.handlers k) =
        final.ownHandler call.id k ↔
      if k ≤ call.numberNodes.toNat then ∀ other ∈ later, ¬other.Covers k
      else ∀ other ∈ earlier ++ later, ¬other.Covers k := by
  split
  next inside =>
      exact around.handled_inside launches (Nat.one_le_iff_ne_zero.mpr pos) inside
  next outside => exact around.handled_outside (lt_of_not_ge outside)

end Around

theorem Testnets.Requests.task {s : Testnets} (consistent : Consistent s) {id : Bytes} {k : Nat}
    {e : Scheduled} (requests : s.Requests id k e) (waits : e ∈ s.simulator.tasks) :
    k ≠ 0 ∧ ∃ src, e.task = .handleRequest src k := by
  obtain ⟨i, node, found, peer, mem, addr, c, conn, ofC⟩ := requests
  obtain ⟨n, _, other, _, sameAddress, sameConnection, remote, _⟩ :=
    (consistent.nodes _ node found).known peer mem
  obtain rfl := peerAddress_injective (addr.symm.trans sameAddress)
  cases conn.symm.trans sameConnection
  obtain ⟨_, leads, src, task⟩ := consistent.requests e waits c ofC
  rw [remote] at leads task
  exact ⟨leads, src, task⟩

section

variable {calls : List TestnetCall}

theorem handled_created (rand : Nat → Nat) (distinct : (calls.map TestnetCall.id).Nodup)
    (undisturbed : Undisturbed calls) {call : TestnetCall}
    (isCall : call ∈ calls) {k : Nat} {e : Scheduled}
    (waits : e ∈ (createAll rand {} calls).simulator.tasks)
    (requests : (createAll rand {} calls).Requests call.id k e) :
    (createAll rand {} calls).simulator.routes.handlerOf
        e.task = (createAll rand {} calls).ownHandler call.id k := by
  obtain ⟨earlier, later, rfl⟩ := mem_iff_append.mp isCall
  obtain ⟨first, second, around⟩ := around_createAll rand distinct
  obtain ⟨pos, src, task⟩ := requests.task around.consistent waits
  obtain ⟨i, node, found, peer, mem, addr, _⟩ := requests
  rw [around.lookup] at found
  have own := around.created.own
  obtain ⟨launches, above, below⟩ := own.launches i (Option.isSome_iff_exists.mpr ⟨node, found⟩)
  obtain ⟨asking, inList, sameNode, n, asked, sameAddress⟩ := own.asks i node found peer mem
  obtain rfl := (nodeId_injective sameNode).2
  obtain rfl : k = n.toNat := peerAddress_injective (addr.symm.trans sameAddress)
  rw [task]
  refine (around.handled_iff launches pos).mpr ?_
  exact undisturbed earlier call later rfl launches asking inList above below n asked pos

theorem exists_request (rand : Nat → Nat) (distinct : (calls.map TestnetCall.id).Nodup)
    {earlier later : List TestnetCall} {call : TestnetCall} (pos : calls = earlier ++ call :: later)
    (launches : call.Launches) {e : UInt32 × List UInt32}
    (inList : e ∈ call.peerList) (above : 1 ≤ e.1.toNat)
    (below : e.1.toNat ≤ call.numberNodes.toNat) {k : UInt32}
    (asked : k ∈ e.2) (leads : k.toNat ≠ 0) :
    ∃ request ∈ (createAll rand {} calls).simulator.tasks,
      (createAll rand {} calls).Requests call.id k.toNat request := by
  subst pos
  obtain ⟨first, second, around⟩ := around_createAll rand distinct
  obtain ⟨node, found, peer, mem, addr⟩ :=
    around.created.own.knows launches e inList above below k asked
  rw [← around.lookup] at found
  obtain ⟨n, _, c, _, sameAddress, conn, _, requested⟩ :=
    (around.consistent.nodes _ node found).known peer mem
  obtain rfl : k.toNat = n := peerAddress_injective (addr.symm.trans sameAddress)
  obtain ⟨request, waits, ofC⟩ := requested leads
  exact ⟨request, waits, _, node, found, peer, mem, addr, c, conn, ofC⟩

/-- Testnets are isolated if and only if no request is disturbed. -/
theorem isolated_iff (rand : Nat → Nat) (calls : List TestnetCall)
    (distinct : (calls.map TestnetCall.id).Nodup) : Isolated rand calls ↔ Undisturbed calls := by
  constructor
  · intro isolated earlier call later pos launches entry inList above below k asked leads
    obtain ⟨req, waits, requests⟩ :=
      exists_request rand distinct pos launches inList above below asked leads
    have handled := isolated.handled [] _ (by simp) rfl call (by simp [pos]) _ req waits requests
    subst pos
    obtain ⟨first, second, around⟩ := around_createAll rand distinct
    obtain ⟨_, src, task⟩ := requests.task around.consistent waits
    rw [task] at handled
    exact (around.handled_iff launches leads).mp handled
  · intro undisturbed
    refine ⟨?_, ?_⟩
    · intro actions final opens ran call isCall k entry waits requests
      have processed := Simulator.processed_run opens ran
      rw [processed.handlerOf]
      refine handled_created rand distinct undisturbed isCall ?_ requests
      have isRequest : entry.task.isRequest = true := by
        obtain ⟨_, _, _, _, _, _, _, _, ofC⟩ := requests
        exact ofC.1
      have before := processed.requests (mem_filter.mpr ⟨waits, isRequest⟩)
      exact (mem_filter.mp before).1
    · rintro earlier later rfl call isCall k entry waits requests
      obtain ⟨_, ⟨after, _⟩, otherLater⟩ := after_append rand distinct
      have distinctEarlier : (earlier.map TestnetCall.id).Nodup := by
        rw [map_append, nodup_append] at distinct
        exact distinct.1
      have same := after.others call.id fun other mem => (otherLater call isCall other mem).symm
      have still : (createAll rand {} (earlier ++ later)).Requests call.id k entry := by
        obtain ⟨i, node, found, requests⟩ := requests
        exact ⟨i, node, (same i).trans found, requests⟩
      rw [handled_created rand distinct undisturbed
          (mem_append_left _ isCall) (after.tasks waits) still,
        handled_created rand distinctEarlier undisturbed.of_append isCall
          waits requests, Testnets.ownHandler, same k, Testnets.ownHandler]

end

theorem isolated_smaller_later :
    Isolated (fun _ => 0) [⟨text "a", true, 3, [(1, [3])]⟩, ⟨text "b", true, 2, [(1, [2])]⟩] := by
  refine (isolated_iff _ _ (by decide)).mpr ?_
  intro earlier call later pos _ e inList _ _ k asked _
  match earlier, pos with
  | [], pos =>
    cases pos
    obtain rfl := mem_singleton.mp inList
    obtain rfl := mem_singleton.mp asked
    decide
  | [_], pos =>
    obtain ⟨rfl, rest⟩ := List.cons.inj pos
    cases rest
    obtain rfl := mem_singleton.mp inList
    obtain rfl := mem_singleton.mp asked
    decide
  | _ :: _ :: _, pos => simp at pos

/-- Two testnets of two nodes.  The request of the first node of `a` for its
peer, the node with the number 1, is handled by the node with the number 3, the
second one of `b`. -/
theorem request_reaches_other_testnet :
    let calls : List TestnetCall :=
      [⟨text "a", true, 2, [(1, [2])]⟩, ⟨text "b", true, 2, [(1, [2])]⟩]
    let created := createAll (fun _ => 0) {} calls
    created.ownHandler (text "a") 2 = some 1 ∧ created.ownHandler (text "b") 2 = some 3 ∧
        (created.nodes.lookup (text "a_1")).map (fun node => node.knownPeers.map (·.connection)) =
          some [some 0] ∧
        (created.simulator.run [.tick, .tick, .task 0 true]).map
            (fun final => final.trace.filter fun event => event matches .requested ..) =
          .ok [.requested 3 0] := by
  decide +kernel

end AutomatonCore.Testnet
