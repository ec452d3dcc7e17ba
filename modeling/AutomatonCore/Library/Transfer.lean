import Mathlib.Data.List.Basic

/-!
# Fragmented transfer of messages
-/

namespace AutomatonCore.Library

open List

structure Transfer (ι α : Type) where
  acknowledged : List (ι × List α)
  waiting : List (ι × List α)
  sent : Nat
  onWire : List (List α)
  arrived : List α
  acknowledging : Bool

namespace Transfer

variable {ι α : Type}

def begun (transfer : Transfer ι α) : List α :=
  match transfer.waiting with
  | [] => []
  | front :: _ => front.2.take transfer.sent

def messages (transfer : Transfer ι α) : List (ι × List α) :=
  transfer.acknowledged ++ transfer.waiting

/-- The first message is put on the wire in fragments, fragments leave the wire
in their order, and once the wire is empty and the message was sent as a whole,
an acknowledgement may be sent back, which takes the message off the queue. -/
inductive Step : Transfer ι α → Transfer ι α → Prop
  | queue (transfer : Transfer ι α) (message : ι × List α) : Step transfer
        { transfer with waiting := transfer.waiting ++ [message] }
  | transmit (transfer : Transfer ι α) {front : ι × List α}
      {rest : List (ι × List α)} (size : Nat) :
      transfer.waiting = front :: rest →
      transfer.sent ≠ front.2.length →
      Step transfer
        { transfer with
          sent := transfer.sent + ((front.2.drop transfer.sent).take size).length
          onWire := transfer.onWire ++ [(front.2.drop transfer.sent).take size] }
  | deliver (transfer : Transfer ι α) {fragment : List α}
      {rest : List (List α)} :
      transfer.onWire = fragment :: rest →
      Step transfer
        { transfer with
          onWire := rest
          arrived := transfer.arrived ++ fragment }
  | reply (transfer : Transfer ι α) {front : ι × List α}
      {rest : List (ι × List α)} :
      transfer.onWire = [] →
      transfer.waiting = front :: rest →
      transfer.sent = front.2.length →
      Step transfer { transfer with acknowledging := true }
  | acknowledge (transfer : Transfer ι α) {front : ι × List α}
      {rest : List (ι × List α)} :
      transfer.acknowledging = true →
      transfer.waiting = front :: rest →
      Step transfer
        { transfer with
          acknowledged := transfer.acknowledged ++ [front]
          waiting := rest
          sent := 0
          acknowledging := false }

/-- What has arrived is what was acknowledged and a part of what was begun;
the rest of that is on the wire.  While an acknowledgement is under way the
first message has arrived as a whole. -/
structure Sound (transfer : Transfer ι α) : Prop where
  balance : ∃ delivered, transfer.arrived = transfer.acknowledged.flatMap Prod.snd ++ delivered ∧
        delivered ++ transfer.onWire.flatten = transfer.begun
  idle : transfer.waiting = [] → transfer.sent = 0
  bounded : ∀ {front rest}, transfer.waiting = front :: rest → transfer.sent ≤ front.2.length
  whole : transfer.acknowledging = true → transfer.onWire = [] ∧ ∃ front rest,
      transfer.waiting = front :: rest ∧ transfer.sent = front.2.length

variable {before after : Transfer ι α}

theorem sound_start (waiting : List (ι × List α)) :
    Sound
      { acknowledged := []
        waiting := waiting
        sent := 0
        onWire := []
        arrived := []
        acknowledging := false } where
  balance := by
    refine ⟨[], rfl, ?_⟩
    cases waiting <;> simp [begun]
  idle _ := rfl
  bounded _ := Nat.zero_le _
  whole acknowledging := by cases acknowledging

theorem begun_queue (transfer : Transfer ι α) (sound : transfer.Sound) (msg : ι × List α) :
    { transfer with waiting := transfer.waiting ++ [msg] }.begun = transfer.begun := by
  unfold begun
  cases waiting : transfer.waiting with
  | nil => simp [sound.idle waiting]
  | cons front rest => rfl

/-- The step lemma. -/
theorem Step.sound (step : Step before after) (sound : before.Sound) : after.Sound := by
  obtain ⟨delivered, arrived, split⟩ := sound.balance
  cases step with
  | queue msg =>
    refine ⟨⟨delivered, arrived, ?_⟩, ?_, ?_, ?_⟩
    · rw [begun_queue before sound]
      exact split
    · intro empty
      simp at empty
    · intro front rest shape
      cases waiting : before.waiting with
      | nil => simp [sound.idle waiting]
      | cons first others =>
        simp only [waiting, cons_append, List.cons.injEq] at shape
        rw [← shape.1]
        exact sound.bounded waiting
    · intro acknowledging
      obtain ⟨quiet, front, rest, waiting, sent⟩ := sound.whole acknowledging
      exact ⟨quiet, front, rest ++ [msg], by simp [waiting], sent⟩
  | transmit size waiting notWhole =>
    have bound := sound.bounded waiting
    refine ⟨⟨delivered, arrived, ?_⟩, ?_, ?_, ?_⟩
    · simp only [begun, waiting] at split ⊢
      rw [flatten_append, ← append_assoc, split,
        flatten_singleton, take_add, length_take, ← take_eq_take_min]
    · intro empty
      simp [waiting] at empty
    · intro first others shape
      simp only [waiting, List.cons.injEq] at shape
      rw [← shape.1]
      simp only [length_take, length_drop]
      omega
    · intro acknowledging
      obtain ⟨_, first, others, shape, sent⟩ := sound.whole acknowledging
      rw [waiting, List.cons.injEq] at shape
      rw [← shape.1] at sent
      exact absurd sent notWhole
  | deliver wire =>
    rename_i fragment rest
    refine ⟨⟨delivered ++ fragment, ?_, ?_⟩, sound.idle, sound.bounded, ?_⟩
    · rw [arrived, append_assoc]
    · simpa [wire, begun] using split
    · intro acknowledging
      have quiet := (sound.whole acknowledging).1
      simp [wire] at quiet
  | reply quiet waiting sent =>
    rename_i front rest
    exact ⟨⟨delivered, arrived, split⟩, sound.idle, sound.bounded,
        fun _ => ⟨quiet, front, rest, waiting, sent⟩⟩
  | acknowledge acknowledging waiting =>
    rename_i front rest
    obtain ⟨quiet, first, others, shape, sent⟩ := sound.whole acknowledging
    rw [waiting, List.cons.injEq] at shape
    rw [← shape.1] at sent
    refine ⟨⟨[], ?_, ?_⟩, fun _ => rfl, fun _ => Nat.zero_le _, by simp⟩
    · have all : delivered = front.2 := by simpa [quiet, begun, waiting, sent] using split
      simp [arrived, all]
    · unfold begun
      cases rest <;> simp [quiet]

theorem Sound.arrived_prefix (sound : before.Sound) :
    before.arrived <+: before.messages.flatMap Prod.snd := by
  obtain ⟨delivered, arrived, split⟩ := sound.balance
  have part : delivered <+: before.begun := ⟨_, split⟩
  have begun : before.begun <+: before.waiting.flatMap Prod.snd := by
    unfold begun
    cases before.waiting with
    | nil => exact nil_prefix
    | cons front rest => exact (List.take_prefix _ _).trans (prefix_append _ _)
  rw [arrived, messages, flatMap_append]
  exact (prefix_append_right_inj _).mpr (part.trans begun)

theorem Sound.arrived_all (sound : before.Sound) (done : before.waiting = []) :
    before.arrived = before.messages.flatMap Prod.snd := by
  obtain ⟨delivered, arrived, split⟩ := sound.balance
  have nothing : delivered = [] := by
    simp only [begun, done] at split
    exact (append_eq_nil_iff.mp split).1
  rw [arrived, nothing, messages, done, append_nil, append_nil]

theorem Sound.acknowledged_prefix (sound : before.Sound) :
    before.acknowledged.flatMap Prod.snd <+: before.arrived := by
  obtain ⟨delivered, arrived, _⟩ := sound.balance
  rw [arrived]
  exact prefix_append _ _

end Transfer

end AutomatonCore.Library
