import Mathlib.Data.Finset.Card
import Mathlib.Data.List.Infix

/-!
# Radix graphs

Local agreement implies the global facts: the prefix order on paths is the
ancestor order, paths identify nodes, and the walk along parent links reaches
the root.
-/

namespace AutomatonCore.Library

open List

universe u v

/-- Parents, labels and child links are stored separately, as in an arena of
nodes. -/
structure RadixGraph (ι : Type u) (α : Type v) where
  root : ι
  live : ι → Prop
  parent : ι → ι
  label : ι → List α
  child : ι → α → Option ι

namespace RadixGraph

variable {ι : Type u} {α : Type v} {graph : RadixGraph ι α}

/-- Local agreement of parents, labels and children, for a ghost `path`. -/
structure IsRadix (graph : RadixGraph ι α) (path : ι → List α) : Prop where
  rootLive : graph.live graph.root
  rootPath : path graph.root = []
  childLink : ∀ {above letter below}, graph.live above → graph.child above letter = some below →
      graph.live below ∧ below ≠ graph.root ∧ graph.parent below = above ∧
      ∃ rest, graph.label below = letter :: rest
  parentLink : ∀ {below}, graph.live below → below ≠ graph.root → graph.live (graph.parent below) ∧
      path below = path (graph.parent below) ++ graph.label below ∧ ∃ letter rest,
      graph.label below = letter :: rest ∧ graph.child (graph.parent below) letter = some below

/-- The ancestor order. -/
inductive Above (graph : RadixGraph ι α) : ι → ι → Prop
  | self (node : ι) : Above graph node node
  | up {upper lower : ι} : lower ≠ graph.root →
      Above graph upper (graph.parent lower) → Above graph upper lower

theorem Above.trans {first second third : ι} (upper : Above graph first second)
    (lower : Above graph second third) : Above graph first third := by
  induction lower with
  | self => exact upper
  | up notRoot _ ih => exact Above.up notRoot ih

theorem above_root_iff {upper : ι} : Above graph upper graph.root ↔ upper = graph.root := by
  constructor
  · intro above
    cases above with
    | self => rfl
    | up notRoot _ => exact absurd rfl notRoot
  · rintro rfl
    exact Above.self graph.root

theorem Above.parent_of_ne {upper lower : ι}
    (above : Above graph upper lower) (ne : upper ≠ lower) :
    Above graph upper (graph.parent lower) := by
  cases above with
  | self => exact absurd rfl ne
  | up _ rest => exact rest

namespace IsRadix

variable {path : ι → List α}

variable {below upper lower first second : ι} {a : α}

theorem path_parent_length_lt (radix : graph.IsRadix path)
    (live : graph.live below) (notRoot : below ≠ graph.root) :
    (path (graph.parent below)).length < (path below).length := by
  obtain ⟨_, pathShape, a, rest, labelShape, _⟩ := radix.parentLink live notRoot
  rw [pathShape, labelShape]
  simp

variable {above node : ι} {slots : Finset ι}

theorem path_child (radix : graph.IsRadix path)
    (live : graph.live above) (link : graph.child above a = some below) :
    ∃ rest, graph.label below = a :: rest ∧ path below = path above ++ a :: rest := by
  obtain ⟨belowLive, notRoot, parentShape, rest, labelShape⟩ := radix.childLink live link
  obtain ⟨_, pathShape, _⟩ := radix.parentLink belowLive notRoot
  refine ⟨rest, labelShape, ?_⟩
  rw [pathShape, parentShape, labelShape]

theorem above_live (radix : graph.IsRadix path)
    (above : Above graph upper lower) (live : graph.live lower) : graph.live upper := by
  induction above with
  | self => exact live
  | up notRoot _ ih => exact ih (radix.parentLink live notRoot).1

theorem above_path (radix : graph.IsRadix path)
    (above : Above graph upper lower) (live : graph.live lower) : path upper <+: path lower := by
  induction above with
  | self => exact prefix_rfl
  | up notRoot _ ih =>
    obtain ⟨parentLive, pathShape, _⟩ := radix.parentLink live notRoot
    rw [pathShape]
    exact (ih parentLive).trans (prefix_append _ _)

theorem above_eq_of_length (radix : graph.IsRadix path)
    (above : Above graph upper lower) (live : graph.live lower)
    (long : (path lower).length ≤ (path upper).length) : upper = lower := by
  cases above with
  | self => rfl
  | up notRoot rest =>
    have parentLive := (radix.parentLink live notRoot).1
    have shorter := radix.path_parent_length_lt live notRoot
    have bound := (radix.above_path rest parentLive).length_le
    omega

theorem above_antisymm (radix : graph.IsRadix path)
    (upper : Above graph first second) (lower : Above graph second first)
    (live : graph.live second) : first = second :=
  radix.above_eq_of_length upper live
    (radix.above_path lower (radix.above_live upper live)).length_le

theorem root_above (radix : graph.IsRadix path) (live : graph.live node) :
    Above graph graph.root node := by
  induction size : (path node).length using Nat.strong_induction_on generalizing node with
  | _ size ih =>
    by_cases isRoot : node = graph.root
    · rw [isRoot]
      exact Above.self graph.root
    · have shorter := radix.path_parent_length_lt live isRoot
      exact Above.up isRoot (ih _ (size ▸ shorter) (radix.parentLink live isRoot).1 rfl)

theorem parent_above (radix : graph.IsRadix path)
    (live : graph.live above) (link : graph.child above a = some below) :
    Above graph above below := by
  obtain ⟨_, notRoot, parentShape, _⟩ := radix.childLink live link
  apply Above.up notRoot
  rw [parentShape]
  exact Above.self above

theorem child_toward (radix : graph.IsRadix path)
    (above : Above graph upper lower) (live : graph.live lower) (ne : upper ≠ lower) :
    ∃ a next, graph.child upper a = some next ∧ Above graph next lower := by
  induction above with
  | self => exact absurd rfl ne
  | @up lower notRoot rest ih =>
    obtain ⟨parentLive, _, a, _, _, link⟩ := radix.parentLink live notRoot
    by_cases direct : upper = graph.parent lower
    · rw [direct]
      exact ⟨a, lower, link, Above.self lower⟩
    · obtain ⟨first, next, nextLink, nextAbove⟩ := ih parentLive direct
      exact ⟨first, next, nextLink, Above.up notRoot nextAbove⟩

theorem above_or_above (radix : graph.IsRadix path)
    {k : List α} (firstLive : graph.live first) (secondLive : graph.live second)
    (firstPath : path first <+: k) (secondPath : path second <+: k) :
    Above graph first second ∨ Above graph second first := by
  -- Induction on the length of the first path: its parent is comparable
  -- with the second node, and below that parent the letters agree.
  induction size : (path first).length using Nat.strong_induction_on generalizing first with
  | _ size ih =>
    by_cases isRoot : first = graph.root
    · rw [isRoot]
      exact .inl (radix.root_above secondLive)
    obtain ⟨parentLive, pathShape, a, rest, labelShape, link⟩ := radix.parentLink firstLive isRoot
    have shorter := radix.path_parent_length_lt firstLive isRoot
    have parentPath : path (graph.parent first) <+: k :=
      (pathShape ▸ prefix_append _ _ : path (graph.parent first) <+: path first).trans firstPath
    rcases ih _ (size ▸ shorter) parentLive parentPath rfl with
      parentAbove | parentBelow
    · by_cases direct : graph.parent first = second
      · exact .inr (direct ▸ Above.up isRoot (Above.self _))
      obtain ⟨other, next, nextLink, nextAbove⟩ := radix.child_toward parentAbove secondLive direct
      obtain ⟨otherRest, _, nextPath⟩ := radix.path_child parentLive nextLink
      have nextPrefix : path next <+: k := (radix.above_path nextAbove secondLive).trans secondPath
      have sameLetter : a = other := by
        rw [nextPath] at nextPrefix
        rw [pathShape, labelShape] at firstPath
        obtain ⟨tailFirst, shapeFirst⟩ := firstPath
        obtain ⟨tailNext, shapeNext⟩ := nextPrefix
        have joined := shapeFirst.trans shapeNext.symm
        simp only [append_assoc, cons_append, append_cancel_left_eq, List.cons.injEq] at joined
        exact joined.1
      subst sameLetter
      rw [link] at nextLink
      cases nextLink
      exact .inl nextAbove
    · exact .inr (Above.up isRoot parentBelow)

theorem above_of_prefix (radix : graph.IsRadix path)
    (firstLive : graph.live first) (secondLive : graph.live second)
    (initial : path first <+: path second) : Above graph first second := by
  rcases radix.above_or_above firstLive secondLive initial prefix_rfl with
    upper | lower
  · exact upper
  · rw [radix.above_eq_of_length lower firstLive initial.length_le]
    exact Above.self first

theorem above_iff_prefix (radix : graph.IsRadix path)
    (firstLive : graph.live first) (secondLive : graph.live second) :
    Above graph first second ↔ path first <+: path second :=
  ⟨fun above => radix.above_path above secondLive, radix.above_of_prefix firstLive secondLive⟩

theorem path_injective (radix : graph.IsRadix path)
    (firstLive : graph.live first) (secondLive : graph.live second)
    (samePath : path first = path second) : first = second :=
  radix.above_antisymm (radix.above_of_prefix firstLive secondLive (by rw [samePath]))
    (radix.above_of_prefix secondLive firstLive (by rw [samePath])) secondLive

theorem child_of_path (radix : graph.IsRadix path)
    {rest : List α} (upperLive : graph.live upper) (lowerLive : graph.live lower)
    (shape : path lower = path upper ++ a :: rest) :
    ∃ next, graph.child upper a = some next ∧ Above graph next lower := by
  have above : Above graph upper lower :=
    radix.above_of_prefix upperLive lowerLive (shape ▸ prefix_append _ _)
  have ne : upper ≠ lower := by
    rintro rfl
    have lengths := congrArg List.length shape
    simp at lengths
  obtain ⟨other, next, link, nextAbove⟩ := radix.child_toward above lowerLive ne
  obtain ⟨otherRest, _, nextPath⟩ := radix.path_child upperLive link
  obtain ⟨tail, tailShape⟩ := radix.above_path nextAbove lowerLive
  have sameLetter : other = a := by
    rw [nextPath, shape] at tailShape
    simp only [append_assoc, cons_append, append_cancel_left_eq, List.cons.injEq] at tailShape
    exact tailShape.1
  exact ⟨next, sameLetter ▸ link, nextAbove⟩

/-! ## Ranks

In a finite arena the number of nodes with a shorter path decreases along
parent links, which bounds the length of every walk. -/

def rank (slots : Finset ι) (path : ι → List α) (node : ι) : Nat :=
  (slots.filter fun other => (path other).length < (path node).length).card

theorem rank_lt_card (mem : node ∈ slots) :
    rank slots path node < slots.card := by
  apply Finset.card_lt_card
  refine ⟨Finset.filter_subset _ _, fun subset => ?_⟩
  have selfMember := subset mem
  simp at selfMember

theorem rank_lt_rank (mem : upper ∈ slots) (shorter : (path upper).length < (path lower).length) :
    rank slots path upper < rank slots path lower := by
  apply Finset.card_lt_card
  refine ⟨?_, fun subset => ?_⟩
  · intro other otherMember
    simp only [Finset.mem_filter] at otherMember ⊢
    exact ⟨otherMember.1, otherMember.2.trans shorter⟩
  · have selfMember : upper ∈
        slots.filter fun other => (path other).length < (path lower).length := by
      simp [mem, shorter]
    have absurdMember := subset selfMember
    simp at absurdMember

end IsRadix

end RadixGraph

end AutomatonCore.Library
