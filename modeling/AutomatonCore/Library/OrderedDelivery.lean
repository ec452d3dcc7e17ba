import AutomatonCore.Library.Ancestry

/-!
# Delivery in the order of dependence
-/

namespace AutomatonCore.Library

open List

variable {κ α : Type} (key needs : α → κ)

def Supplied (known : κ → Prop) (queue : List α) (wanted : κ) : Prop :=
  known wanted ∨ ∃ item ∈ queue, key item = wanted

/-- Each item needs a key that the receiver knows by the time the item
arrives. -/
def InOrder (known : κ → Prop) : List α → Prop
  | [] => True
  | item :: queue =>
    known (needs item) ∧ InOrder (fun other => known other ∨ key item = other) queue

variable {key needs} {known after : κ → Prop} {queue second : List α}

namespace Supplied

theorem mono {wanted : κ} (more : ∀ other, known other → after other)
    (supplied : Supplied key known queue wanted) : Supplied key after queue wanted :=
  supplied.imp_left (more wanted)

theorem append {wanted : κ} (supplied : Supplied key known queue wanted) :
    Supplied key known (queue ++ second) wanted := by
  refine supplied.imp_right ?_
  rintro ⟨item, mem, same⟩
  exact ⟨item, mem_append_left _ mem, same⟩

theorem deliver {item : α} {wanted : κ}
    (more : ∀ other, known other → after other) (arrived : after (key item))
    (supplied : Supplied key known (item :: queue) wanted) : Supplied key after queue wanted := by
  rcases supplied with knows | ⟨other, mem, rfl⟩
  · exact .inl (more wanted knows)
  · rcases mem_cons.mp mem with rfl | mem
    · exact .inl arrived
    · exact .inr ⟨other, mem, rfl⟩

end Supplied

namespace InOrder

theorem mono (more : ∀ other, known other → after other) (ordered : InOrder key needs known queue) :
    InOrder key needs after queue := by
  induction queue generalizing known after with
  | nil => trivial
  | cons item queue ih =>
    refine ⟨more _ ordered.1, ih ?_ ordered.2⟩
    exact fun other knows => knows.imp_left (more other)

theorem deliver {item : α} (more : ∀ other, known other → after other) (arrived : after (key item))
    (ordered : InOrder key needs known (item :: queue)) : InOrder key needs after queue := by
  refine ordered.2.mono ?_
  rintro other (knows | rfl)
  · exact more other knows
  · exact arrived

theorem append (ordered : InOrder key needs known queue)
    (later : InOrder key needs (Supplied key known queue) second) :
    InOrder key needs known (queue ++ second) := by
  induction queue generalizing known with
  | nil =>
    refine later.mono ?_
    rintro other (knows | ⟨item, mem, -⟩)
    · exact knows
    · contradiction
  | cons item queue ih =>
    refine ⟨ordered.1, ih ordered.2 (later.mono ?_)⟩
    rintro other (knows | ⟨next, mem, rfl⟩)
    · exact .inl (.inl knows)
    · rcases mem_cons.mp mem with rfl | mem
      · exact .inl (.inr rfl)
      · exact .inr ⟨next, mem, rfl⟩

theorem of_path {parent : κ → Option κ} {root tip : κ} {kept : List κ}
    (leads : Path parent root tip (kept ++ queue.map key))
    (links : ∀ item ∈ queue, parent (key item) = some (needs item))
    (knows : ∀ other ∈ root :: kept, known other) : InOrder key needs known queue := by
  induction queue generalizing kept known with
  | nil => trivial
  | cons item queue ih =>
    obtain ⟨link, links⟩ := forall_mem_cons.mp links
    rw [map_cons] at leads
    obtain ⟨prev, link', before⟩ := leads.middle
    cases link'.symm.trans link
    rw [append_cons] at leads
    refine ⟨knows _ (mem_of_getElem? before.getElem?_length), ih leads links ?_⟩
    intro other mem
    rw [← cons_append, mem_append, mem_singleton] at mem
    exact mem.imp (knows other) Eq.symm

end InOrder

end AutomatonCore.Library
