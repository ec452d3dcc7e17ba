import Mathlib.Data.List.Forall2

/-!
# Sequences with heads and tails
-/

namespace AutomatonCore.Library

open List

variable {α : Type}

/-- The head of a part is its content, or else a word with the offset at which
the content stands among the tails. -/
inductive Part (α : Type) where
  | inPlace (content : List α)
  | referenced (content : List α)

namespace Part

def headLength (width : Nat) : Part α → Nat
  | inPlace content => content.length
  | referenced _ => width

end Part

def headsLength (width : Nat) : List (Part α) → Nat
  | [] => 0
  | part :: parts => part.headLength width + headsLength width parts

/-- `word` writes an offset, counted from the start of the sequence. -/
def heads (word : Nat → List α) : Nat → List (Part α) → List α
  | _, [] => []
  | offset, .inPlace content :: parts => content ++ heads word offset parts
  | offset, .referenced content :: parts =>
    word offset ++ heads word (offset + content.length) parts

def tails : List (Part α) → List α
  | [] => []
  | .inPlace _ :: parts => tails parts
  | .referenced content :: parts => content ++ tails parts

/-- A sequence of parts is laid out as heads followed by tails. -/
def headTail (word : Nat → List α) (width : Nat) (parts : List (Part α)) : List α :=
  heads word (headsLength width parts) parts ++ tails parts

variable {word : Nat → List α} {width : Nat}

theorem length_heads (words : ∀ offset, (word offset).length = width)
    (offset : Nat) (parts : List (Part α)) :
    (heads word offset parts).length = headsLength width parts := by
  induction parts generalizing offset with
  | nil => rfl
  | cons part parts ih =>
    cases part <;>
      simp [heads, headsLength, Part.headLength, words, ih]

theorem headTail_inPlace (contents : List (List α)) :
    headTail word width (contents.map .inPlace) = contents.flatten := by
  have flat (offset : Nat) : heads word offset (contents.map .inPlace) ++
          tails (contents.map .inPlace) = contents.flatten := by
    induction contents with
    | nil => rfl
    | cons content contents ih => simpa [heads, tails] using ih
  exact flat _

/-! ## Other letters -/

section Map

variable {β : Type}

def Part.map (change : α → β) : Part α → Part β
  | inPlace content => .inPlace (content.map change)
  | referenced content => .referenced (content.map change)

theorem headsLength_map (change : α → β) (parts : List (Part α)) :
    headsLength width (parts.map (Part.map change)) = headsLength width parts := by
  induction parts with
  | nil => rfl
  | cons part parts ih =>
    cases part <;>
      simp [headsLength, Part.map, Part.headLength, ih]

theorem heads_map (change : α → β) (offset : Nat) (parts : List (Part α)) :
    heads (fun offset => (word offset).map change) offset
        (parts.map (Part.map change)) = (heads word offset parts).map change := by
  induction parts generalizing offset with
  | nil => rfl
  | cons part parts ih => cases part <;> simp [heads, Part.map, ih]

theorem tails_map (change : α → β) (parts : List (Part α)) :
    tails (parts.map (Part.map change)) = (tails parts).map change := by
  induction parts with
  | nil => rfl
  | cons part parts ih => cases part <;> simp [tails, Part.map, ih]

theorem headTail_map (change : α → β) (parts : List (Part α)) :
    headTail (fun offset => (word offset).map change) width
        (parts.map (Part.map change)) = (headTail word width parts).map change := by
  rw [headTail, headTail, headsLength_map, heads_map, tails_map, map_append]

end Map

/-! ## Sequences determine their parts -/

namespace Part

def content : Part α → List α
  | inPlace content => content
  | referenced content => content

def SameHead : Part α → Part α → Prop
  | inPlace first, inPlace second => first.length = second.length
  | referenced _, referenced _ => True
  | _, _ => False

def SameShape : Part α → Part α → Prop
  | inPlace first, inPlace second => first.length = second.length
  | referenced first, referenced second => first.length = second.length
  | _, _ => False

theorem SameShape.sameHead {first second : Part α}
    (same : first.SameShape second) : first.SameHead second := by
  cases first <;> cases second <;> first | exact same | trivial

end Part

variable {offset limit : Nat} {parts : List (Part α)}

theorem eq_of_sameShape {first second : List (Part α)}
    (same : List.Forall₂ Part.SameShape first second)
    (sameHeads : heads word offset first = heads word offset second)
    (sameTails : tails first = tails second) : first = second := by
  induction same generalizing offset with
  | nil => rfl
  | cons shape others ih =>
    rename_i left right first second
    cases left with
    | inPlace left =>
      cases right with
      | referenced right => exact shape.elim
      | inPlace right =>
        obtain ⟨rfl, later⟩ := append_inj sameHeads shape
        rw [ih later sameTails]
    | referenced left =>
      cases right with
      | inPlace right => exact shape.elim
      | referenced right =>
        obtain ⟨rfl, laterTails⟩ := append_inj sameTails shape
        have laterHeads := append_cancel_left sameHeads
        rw [ih laterHeads laterTails]

theorem offset_eq_of_heads (injective :
      ∀ {left right : Nat}, left ≤ limit → right ≤ limit → word left = word right → left = right)
    (words : ∀ offset, (word offset).length = width)
    {first second : List (Part α)}
    (same : List.Forall₂ Part.SameHead first second) {left right : Nat}
    (leftBound : left ≤ limit) (rightBound : right ≤ limit)
    (sameHeads : heads word left first = heads word right second) :
    left = right ∨ tails first = [] ∧ tails second = [] := by
  induction same with
  | nil => exact .inr ⟨rfl, rfl⟩
  | cons shape others ih =>
    rename_i firstPart secondPart first second
    cases firstPart with
    | inPlace content =>
      cases secondPart with
      | referenced other => exact shape.elim
      | inPlace other => exact ih (append_inj sameHeads shape).2
    | referenced content =>
      cases secondPart with
      | inPlace other => exact shape.elim
      | referenced other =>
        have width : (word left).length = (word right).length := by rw [words, words]
        exact .inl (injective leftBound rightBound (append_inj sameHeads width).1)

/-- Where the tails are cut can be read off the heads. -/
theorem sameShape_of_sameHead (injective :
      ∀ {left right : Nat}, left ≤ limit → right ≤ limit → word left = word right → left = right)
    (words : ∀ offset, (word offset).length = width)
    {first second : List (Part α)} (same : List.Forall₂ Part.SameHead first second)
    (bound : offset + (tails first).length ≤ limit)
    (sameHeads : heads word offset first = heads word offset second)
    (sameTails : tails first = tails second) : List.Forall₂ Part.SameShape first second := by
  induction same generalizing offset with
  | nil => exact .nil
  | cons shape others ih =>
    rename_i firstPart secondPart first second
    cases firstPart with
    | inPlace content =>
      cases secondPart with
      | referenced other => exact shape.elim
      | inPlace other =>
        have later := (append_inj sameHeads shape).2
        exact .cons shape (ih bound later sameTails)
    | referenced content =>
      cases secondPart with
      | inPlace other => exact shape.elim
      | referenced other =>
        have later := append_cancel_left sameHeads
        have lengths := congrArg List.length sameTails
        simp only [tails, length_append] at bound lengths
        have length : content.length = other.length := by
          rcases offset_eq_of_heads injective words others (by omega)
              (by omega) later with equal | ⟨none, noneOther⟩
          · omega
          · rw [none, noneOther] at lengths
            simpa using lengths
        have laterTails := (append_inj sameTails length).2
        rw [length] at later bound
        refine .cons length (ih ?_ later laterTails)
        omega

theorem headsLength_of_sameHead {first second : List (Part α)}
    (same : List.Forall₂ Part.SameHead first second) :
    headsLength width first = headsLength width second := by
  induction same with
  | nil => rfl
  | cons shape others ih =>
    rename_i left right first second
    rw [headsLength, ih]
    congr 1
    cases left <;> cases right <;>
      first | exact shape | exact shape.elim | rfl

theorem heads_tails_of_headTail (words : ∀ offset, (word offset).length = width)
    {first second : List (Part α)} (same : List.Forall₂ Part.SameHead first second)
    (equal : headTail word width first = headTail word width second) :
    heads word (headsLength width first) first = heads word (headsLength width first) second ∧
      tails first = tails second := by
  have lengths := @headsLength_of_sameHead _ width _ _ same
  rw [headTail, headTail, ← lengths] at equal
  apply append_inj equal
  rw [length_heads words, length_heads words, lengths]

theorem headTail_injective (injective :
      ∀ {left right : Nat}, left ≤ limit → right ≤ limit → word left = word right → left = right)
    (words : ∀ offset, (word offset).length = width)
    {first second : List (Part α)} (same : List.Forall₂ Part.SameHead first second)
    (bound : (headTail word width first).length ≤ limit)
    (equal : headTail word width first = headTail word width second) : first = second := by
  obtain ⟨sameHeads, sameTails⟩ := heads_tails_of_headTail words same equal
  rw [headTail, length_append, length_heads words] at bound
  exact eq_of_sameShape (sameShape_of_sameHead injective words same bound sameHeads sameTails)
      sameHeads sameTails

theorem length_headTail (words : ∀ offset, (word offset).length = width) (parts : List (Part α)) :
    (headTail word width parts).length = headsLength width parts + (tails parts).length := by
  rw [headTail, length_append, length_heads words]

theorem eq_of_headTail_of_sameShape (words : ∀ offset, (word offset).length = width)
    {first second : List (Part α)} (same : List.Forall₂ Part.SameShape first second)
    (equal : headTail word width first = headTail word width second) : first = second := by
  have sameHead := same.imp fun _ _ => Part.SameShape.sameHead
  obtain ⟨sameHeads, sameTails⟩ := heads_tails_of_headTail words sameHead equal
  exact eq_of_sameShape same sameHeads sameTails

theorem length_tails_of_sameShape {first second : List (Part α)}
    (same : List.Forall₂ Part.SameShape first second) :
    (tails first).length = (tails second).length := by
  induction same with
  | nil => rfl
  | cons here others ih =>
    rename_i left right first second
    cases left <;> cases right <;>
      simp_all [tails, Part.SameShape]

theorem length_headTail_of_sameShape (words : ∀ offset, (word offset).length = width)
    {first second : List (Part α)} (same : List.Forall₂ Part.SameShape first second) :
    (headTail word width first).length = (headTail word width second).length := by
  rw [length_headTail words, length_headTail words,
    headsLength_of_sameHead (same.imp fun _ _ => Part.SameShape.sameHead),
    length_tails_of_sameShape same]

theorem heads_congr {other : Nat → List α}
    (agree : ∀ {offset : Nat}, offset ≤ limit → word offset = other offset)
    (bound : offset + (tails parts).length ≤ limit) :
    heads word offset parts = heads other offset parts := by
  induction parts generalizing offset with
  | nil => rfl
  | cons part parts ih =>
    cases part with
    | inPlace content => rw [heads, heads, ih bound]
    | referenced content =>
      simp only [tails, length_append] at bound
      rw [heads, heads, agree (by omega), ih (by omega)]

def StandsAt (data : List α) (position : Nat) (content : List α) : Prop :=
  content <+: data.drop position

variable {data first second : List α} {pos : Nat}

theorem StandsAt.left (stands : StandsAt data pos (first ++ second)) : StandsAt data pos first :=
  (prefix_append first second).trans stands

theorem StandsAt.right (stands : StandsAt data pos (first ++ second)) :
    StandsAt data (pos + first.length) second := by
  obtain ⟨rest, shape⟩ := stands
  refine ⟨rest, ?_⟩
  rw [← drop_drop, ← shape, append_assoc, drop_left]

theorem StandsAt.take_eq {content : List α} (stands : StandsAt data pos content) :
    (data.drop pos).take content.length = content :=
  (prefix_iff_eq_take.mp stands).symm

theorem StandsAt.bound {content : List α} (stands : StandsAt data pos content) :
    content.length ≤ data.length - pos := by
  simpa using stands.length_le

/-- Where a reader finds the parts of a sequence that starts at `base`: the
next head is at `slot`, the next tail at `offset` from the base. -/
def Located (word : Nat → List α) (width : Nat) (data : List α)
    (base : Nat) : Nat → Nat → List (Part α) → Prop
  | _, _, [] => True
  | slot, offset, .inPlace content :: parts =>
    StandsAt data slot content ∧ Located word width data base (slot + content.length) offset parts
  | slot, offset, .referenced content :: parts =>
    StandsAt data slot (word offset) ∧ StandsAt data (base + offset) content ∧
      Located word width data base (slot + width) (offset + content.length) parts

theorem located_of_heads_tails (words : ∀ offset, (word offset).length = width) {base slot : Nat}
    (heads : StandsAt data slot (heads word offset parts))
    (tails : StandsAt data (base + offset) (tails parts)) :
    Located word width data base slot offset parts := by
  induction parts generalizing slot offset with
  | nil => trivial
  | cons part parts ih =>
    cases part with
    | inPlace content => exact ⟨heads.left, ih heads.right tails⟩
    | referenced content =>
      refine ⟨heads.left, tails.left, ?_⟩
      apply ih
      · rw [← words offset]
        exact heads.right
      · rw [← Nat.add_assoc]
        exact tails.right

theorem StandsAt.located (words : ∀ offset, (word offset).length = width) {base : Nat}
    (stands : StandsAt data base (headTail word width parts)) :
    Located word width data base base (headsLength width parts) parts := by
  apply located_of_heads_tails words stands.left
  rw [← length_heads words (headsLength width parts)]
  exact stands.right

end AutomatonCore.Library
