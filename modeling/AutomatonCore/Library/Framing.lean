import Mathlib.Data.List.Basic

/-!
# Framed streams
-/

namespace AutomatonCore.Library

open List

variable {α : Type*}

/-- Every message follows a header of fixed length that announces its
length. -/
structure Framing (α : Type*) where
  headerLength : Nat
  limit : Nat
  header : Nat → List α
  announced : List α → Nat
  length_header : ∀ size, (header size).length = headerLength
  announced_header : ∀ {size}, size ≤ limit → announced (header size) = size

namespace Framing

variable (framing : Framing α)

def frame (message : List α) : List α :=
  framing.header message.length ++ message

def stream (messages : List (List α)) : List α :=
  messages.flatMap framing.frame

@[simp]
theorem stream_nil : framing.stream [] = [] := rfl

@[simp]
theorem stream_append (first second : List (List α)) :
    framing.stream (first ++ second) = framing.stream first ++ framing.stream second := by
  simp [stream]

theorem stream_cons (msg : List α) (messages : List (List α)) :
    framing.stream (msg :: messages) =
      framing.header msg.length ++ msg ++ framing.stream messages := by
  simp [stream, frame]

variable {framing}

theorem stream_eq_nil {messages : List (List α)}
    (short : (framing.stream messages).length < framing.headerLength) : messages = [] := by
  cases messages with
  | nil => rfl
  | cons msg messages =>
    rw [stream_cons, length_append, length_append, framing.length_header] at short
    omega

theorem message_of_header {messages : List (List α)} {header rest : List α}
    (sizes : ∀ msg ∈ messages, msg.length ≤ framing.limit)
    (length : header.length = framing.headerLength) (pos : 0 < framing.headerLength)
    (stream : header ++ rest = framing.stream messages) :
    ∃ msg later, messages = msg :: later ∧ header = framing.header msg.length ∧
      framing.announced header = msg.length ∧ rest = msg ++ framing.stream later := by
  cases messages with
  | nil =>
    have empty : header = [] := (append_eq_nil_iff.mp stream).1
    rw [empty, length_nil] at length
    omega
  | cons msg later =>
    rw [stream_cons, append_assoc] at stream
    obtain ⟨rfl, rest⟩ := append_inj stream (by rw [length, framing.length_header])
    exact ⟨msg, later, rfl, rfl, framing.announced_header (sizes msg mem_cons_self), rest⟩

end Framing

end AutomatonCore.Library
