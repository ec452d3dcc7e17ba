import AutomatonCore.Library.RadixGraph

/-!
# Rewriting radix graphs

A rewrite is a relation between two graphs that constrains live nodes only, so
an arena may keep arbitrary contents in its free slots.
-/

namespace AutomatonCore.Library
namespace RadixGraph

universe u v

variable {ι : Type u} {α : Type v}

/-- A leaf is attached. -/
structure Attach
    (before after : RadixGraph ι α) (base : ι) (letter : α) (rest : List α) (fresh : ι) : Prop where
  baseLive : before.live base
  vacant : before.child base letter = none
  isFresh : ¬ before.live fresh
  root : after.root = before.root
  live : ∀ node, after.live node ↔ before.live node ∨ node = fresh
  freshParent : after.parent fresh = base
  freshLabel : after.label fresh = letter :: rest
  freshChild : ∀ first, after.child fresh first = none
  parent : ∀ node, before.live node → after.parent node = before.parent node
  label : ∀ node, before.live node → after.label node = before.label node
  baseHere : after.child base letter = some fresh
  baseElse : ∀ first, first ≠ letter → after.child base first = before.child base first
  child : ∀ node, before.live node → node ≠ base →
      ∀ first, after.child node first = before.child node first

/-- An edge is split. -/
structure Split (before after : RadixGraph ι α) (lower : ι) (first : α)
    (initial : List α) (letter : α) (rest : List α) (fresh : ι) : Prop where
  lowerLive : before.live lower
  lowerNotRoot : lower ≠ before.root
  lowerLabel : before.label lower = (first :: initial) ++ letter :: rest
  isFresh : ¬ before.live fresh
  root : after.root = before.root
  live : ∀ node, after.live node ↔ before.live node ∨ node = fresh
  freshParent : after.parent fresh = before.parent lower
  freshLabel : after.label fresh = first :: initial
  freshHere : after.child fresh letter = some lower
  freshElse : ∀ other, other ≠ letter → after.child fresh other = none
  newParent : after.parent lower = fresh
  newLabel : after.label lower = letter :: rest
  parent : ∀ node, before.live node → node ≠ lower → after.parent node = before.parent node
  label : ∀ node, before.live node → node ≠ lower → after.label node = before.label node
  upperHere : after.child (before.parent lower) first = some fresh
  upperElse : ∀ other, other ≠ first →
      after.child (before.parent lower) other = before.child (before.parent lower) other
  child : ∀ node, before.live node → node ≠ before.parent lower →
      ∀ other, after.child node other = before.child node other

/-- A node with a single child is contracted with it. -/
structure Contract (before after : RadixGraph ι α) (gone : ι) (first : α)
    (initial : List α) (letter : α) (lower : ι) : Prop where
  goneLive : before.live gone
  goneNotRoot : gone ≠ before.root
  goneLabel : before.label gone = first :: initial
  onlyHere : before.child gone letter = some lower
  onlyElse : ∀ other, other ≠ letter → before.child gone other = none
  root : after.root = before.root
  live : ∀ node, after.live node ↔ before.live node ∧ node ≠ gone
  newParent : after.parent lower = before.parent gone
  newLabel : after.label lower = (first :: initial) ++ before.label lower
  parent : ∀ node, after.live node → node ≠ lower → after.parent node = before.parent node
  label : ∀ node, after.live node → node ≠ lower → after.label node = before.label node
  upperHere : after.child (before.parent gone) first = some lower
  upperElse : ∀ other, other ≠ first →
      after.child (before.parent gone) other = before.child (before.parent gone) other
  child : ∀ node, after.live node → node ≠ before.parent gone →
      ∀ other, after.child node other = before.child node other

/-- A subtree is cut off. -/
structure Prune
    (before after : RadixGraph ι α) (gone : ι) (first : α) (initial : List α) : Prop where
  goneLive : before.live gone
  goneNotRoot : gone ≠ before.root
  goneLabel : before.label gone = first :: initial
  root : after.root = before.root
  live : ∀ node, after.live node ↔ before.live node ∧ ¬ Above before gone node
  parent : ∀ node, after.live node → after.parent node = before.parent node
  label : ∀ node, after.live node → after.label node = before.label node
  upperHere : after.child (before.parent gone) first = none
  upperElse : ∀ other, other ≠ first →
      after.child (before.parent gone) other = before.child (before.parent gone) other
  child : ∀ node, after.live node → node ≠ before.parent gone →
      ∀ other, after.child node other = before.child node other

namespace IsRadix

variable {before after : RadixGraph ι α} {path : ι → List α}

variable {node fresh lower gone : ι} {rest : List α}

theorem parent_ne (radix : before.IsRadix path)
    (live : before.live node) (notRoot : node ≠ before.root) : before.parent node ≠ node := by
  intro same
  have shorter := radix.path_parent_length_lt live notRoot
  rw [same] at shorter
  exact lt_irrefl _ shorter

variable {first a : α} {initial : List α}

theorem child_parent (radix : before.IsRadix path)
    (live : before.live node) (notRoot : node ≠ before.root)
    (label : before.label node = first :: initial) :
    before.child (before.parent node) first = some node := by
  obtain ⟨_, _, a, rest, labelShape, link⟩ := radix.parentLink live notRoot
  rw [label] at labelShape
  cases labelShape
  exact link

/-- A rewrite that changes one edge keeps the children elsewhere. -/
theorem child_elsewhere {Kept : ι → Prop} {upper : ι} {other : α}
    (upperElse : ∀ other, other ≠ first → after.child upper other = before.child upper other)
    (child : ∀ node, Kept node → node ≠ upper →
      ∀ other, after.child node other = before.child node other)
    (kept : Kept node) (elsewhere : ¬ (node = upper ∧ other = first)) :
    after.child node other = before.child node other := by
  by_cases atUpper : node = upper
  · subst atUpper
    exact upperElse other fun same => elsewhere ⟨rfl, same⟩
  · exact child node kept atUpper other

section Untouched

/-! The links of a node whose parent and label a rewrite does not touch. -/

variable {above below : ι} (radix : before.IsRadix path)
  (parent : after.parent below = before.parent below)
  (label : after.label below = before.label below)

include radix parent label

theorem childLink_untouched (root : after.root = before.root) (aboveLive : before.live above)
    (link : before.child above a = some below) (live : after.live below) :
    after.live below ∧ below ≠ after.root ∧ after.parent below = above ∧
      ∃ rest, after.label below = a :: rest := by
  rw [root, parent, label]
  exact ⟨live, (radix.childLink aboveLive link).2⟩

theorem parentLink_untouched {pathAfter : ι → List α} (live : before.live below)
    (notRoot : below ≠ before.root) (parentLive : after.live (before.parent below))
    (samePath : pathAfter below = path below)
    (parentPath : pathAfter (before.parent below) = path (before.parent below))
    (link : ∀ {a}, before.child (before.parent below) a = some below →
      after.child (before.parent below) a = before.child (before.parent below) a) :
    after.live (after.parent below) ∧
      pathAfter below = pathAfter (after.parent below) ++ after.label below ∧ ∃ a rest,
      after.label below = a :: rest ∧ after.child (after.parent below) a = some below := by
  obtain ⟨_, pathShape, a, rest, labelShape, linked⟩ := radix.parentLink live notRoot
  rw [parent, label, samePath, parentPath]
  exact ⟨parentLive, pathShape, a, rest, labelShape, (link linked).trans linked⟩

end Untouched

theorem attach [DecidableEq ι] {base : ι} (radix : before.IsRadix path)
    (rewrite : Attach before after base a rest fresh) :
    after.IsRadix (Function.update path fresh (path base ++ a :: rest)) := by
  have oldNe : ∀ {node}, before.live node → node ≠ fresh := by
    rintro node live rfl
    exact rewrite.isFresh live
  have oldLive {node : ι} (live : before.live node) : after.live node :=
    (rewrite.live _).mpr (.inl live)
  constructor
  · rw [rewrite.root]
    exact oldLive radix.rootLive
  · rw [rewrite.root, Function.update_of_ne (oldNe radix.rootLive), radix.rootPath]
  · intro above first below aboveLive link
    rcases (rewrite.live _).mp aboveLive with aboveLive | rfl
    · by_cases isNew : above = base ∧ first = a
      · obtain ⟨rfl, rfl⟩ := isNew
        rw [rewrite.baseHere] at link
        cases link
        rw [rewrite.root]
        exact ⟨(rewrite.live _).mpr (.inr rfl), (oldNe radix.rootLive).symm,
            rewrite.freshParent, rest, rewrite.freshLabel⟩
      · rw [child_elsewhere rewrite.baseElse rewrite.child aboveLive isNew] at link
        have belowLive := (radix.childLink aboveLive link).1
        exact radix.childLink_untouched (rewrite.parent below belowLive)
          (rewrite.label below belowLive) rewrite.root aboveLive link (oldLive belowLive)
    · rw [rewrite.freshChild] at link
      cases link
  · intro below belowLive notRoot
    rw [rewrite.root] at notRoot
    rcases (rewrite.live _).mp belowLive with belowLive | rfl
    · have parentLive := (radix.parentLink belowLive notRoot).1
      refine radix.parentLink_untouched (rewrite.parent below belowLive)
        (rewrite.label below belowLive) belowLive notRoot (oldLive parentLive)
        (Function.update_of_ne (oldNe belowLive) ..) (Function.update_of_ne (oldNe parentLive) ..)
        fun link => child_elsewhere rewrite.baseElse rewrite.child parentLive ?_
      rintro ⟨atBase, rfl⟩
      rw [atBase, rewrite.vacant] at link
      cases link
    · rw [rewrite.freshParent, rewrite.freshLabel]
      refine ⟨oldLive rewrite.baseLive, ?_, a, rest, rfl, rewrite.baseHere⟩
      rw [Function.update_self, Function.update_of_ne (oldNe rewrite.baseLive)]

theorem split [DecidableEq ι] (radix : before.IsRadix path)
    (rewrite : Split before after lower first initial a rest fresh) :
    after.IsRadix
      (Function.update path fresh (path (before.parent lower) ++ first :: initial)) := by
  have oldNe : ∀ {node}, before.live node → node ≠ fresh := by
    rintro node live rfl
    exact rewrite.isFresh live
  have oldLive {node : ι} (live : before.live node) : after.live node :=
    (rewrite.live _).mpr (.inl live)
  have lowerLive := rewrite.lowerLive
  have lowerNotRoot := rewrite.lowerNotRoot
  obtain ⟨upperLive, lowerPath, _⟩ := radix.parentLink lowerLive lowerNotRoot
  have oldLink : before.child (before.parent lower) first = some lower :=
    radix.child_parent lowerLive lowerNotRoot rewrite.lowerLabel
  constructor
  · rw [rewrite.root]
    exact oldLive radix.rootLive
  · rw [rewrite.root, Function.update_of_ne (oldNe radix.rootLive), radix.rootPath]
  · intro above other below aboveLive link
    rcases (rewrite.live _).mp aboveLive with aboveLive | rfl
    · by_cases isNew : above = before.parent lower ∧ other = first
      · obtain ⟨rfl, rfl⟩ := isNew
        rw [rewrite.upperHere] at link
        cases link
        rw [rewrite.root]
        exact ⟨(rewrite.live _).mpr (.inr rfl), (oldNe radix.rootLive).symm, rewrite.freshParent,
            initial, rewrite.freshLabel⟩
      · rw [child_elsewhere rewrite.upperElse rewrite.child aboveLive isNew] at link
        obtain ⟨belowLive, _, parentShape, tail, labelShape⟩ := radix.childLink aboveLive link
        have notLower : below ≠ lower := by
          rintro rfl
          rw [rewrite.lowerLabel] at labelShape
          cases labelShape
          exact isNew ⟨parentShape.symm, rfl⟩
        exact radix.childLink_untouched (rewrite.parent below belowLive notLower)
          (rewrite.label below belowLive notLower) rewrite.root aboveLive link (oldLive belowLive)
    · by_cases toLower : other = a
      · subst toLower
        rw [rewrite.freshHere] at link
        cases link
        rw [rewrite.root]
        exact ⟨oldLive lowerLive, lowerNotRoot, rewrite.newParent, rest, rewrite.newLabel⟩
      · rw [rewrite.freshElse other toLower] at link
        cases link
  · intro below belowLive notRoot
    rw [rewrite.root] at notRoot
    rcases (rewrite.live _).mp belowLive with belowLive | rfl
    · by_cases isLower : below = lower
      · subst isLower
        rw [rewrite.newParent, rewrite.newLabel]
        refine ⟨(rewrite.live _).mpr (.inr rfl), ?_, a, rest, rfl, rewrite.freshHere⟩
        rw [Function.update_of_ne (oldNe belowLive),
          Function.update_self, lowerPath, rewrite.lowerLabel, List.append_assoc]
      · have parentLive := (radix.parentLink belowLive notRoot).1
        refine radix.parentLink_untouched (rewrite.parent below belowLive isLower)
          (rewrite.label below belowLive isLower) belowLive notRoot (oldLive parentLive)
          (Function.update_of_ne (oldNe belowLive) ..) (Function.update_of_ne (oldNe parentLive) ..)
          fun link => child_elsewhere rewrite.upperElse rewrite.child parentLive ?_
        rintro ⟨atUpper, rfl⟩
        rw [atUpper, oldLink] at link
        cases link
        exact isLower rfl
    · rw [rewrite.freshParent, rewrite.freshLabel]
      refine ⟨oldLive upperLive, ?_, first, initial, rfl, rewrite.upperHere⟩
      rw [Function.update_self, Function.update_of_ne (oldNe upperLive)]

theorem contract (radix : before.IsRadix path)
    (rewrite : Contract before after gone first initial a lower) : after.IsRadix path := by
  have goneLive := rewrite.goneLive
  have goneNotRoot := rewrite.goneNotRoot
  obtain ⟨upperLive, gonePath, _⟩ := radix.parentLink goneLive goneNotRoot
  have upperNe := radix.parent_ne goneLive goneNotRoot
  have goneLink := radix.child_parent goneLive goneNotRoot rewrite.goneLabel
  obtain ⟨lowerLive, lowerNotRoot, lowerParent, tail, lowerLabel⟩ :=
    radix.childLink goneLive rewrite.onlyHere
  have lowerPath := (radix.parentLink lowerLive lowerNotRoot).2.1
  have lowerNe : lower ≠ gone := by
    rintro rfl
    exact radix.parent_ne lowerLive lowerNotRoot lowerParent
  constructor
  · rw [rewrite.live, rewrite.root]
    exact ⟨radix.rootLive, Ne.symm goneNotRoot⟩
  · rw [rewrite.root, radix.rootPath]
  · intro above other below aboveLive link
    obtain ⟨aboveOld, aboveNe⟩ := (rewrite.live _).mp aboveLive
    by_cases isNew : above = before.parent gone ∧ other = first
    · obtain ⟨rfl, rfl⟩ := isNew
      rw [rewrite.upperHere] at link
      cases link
      rw [rewrite.root]
      exact ⟨(rewrite.live _).mpr ⟨lowerLive, lowerNe⟩, lowerNotRoot, rewrite.newParent,
          initial ++ before.label lower, rewrite.newLabel⟩
    · rw [child_elsewhere rewrite.upperElse rewrite.child aboveLive isNew] at link
      obtain ⟨belowLive, _, parentShape, rest, labelShape⟩ := radix.childLink aboveOld link
      have notGone : below ≠ gone := by
        rintro rfl
        rw [rewrite.goneLabel] at labelShape
        cases labelShape
        exact isNew ⟨parentShape.symm, rfl⟩
      have notLower : below ≠ lower := by
        rintro rfl
        exact aboveNe (parentShape.symm.trans lowerParent)
      have live := (rewrite.live below).mpr ⟨belowLive, notGone⟩
      exact radix.childLink_untouched (rewrite.parent below live notLower)
        (rewrite.label below live notLower) rewrite.root aboveOld link live
  · intro below belowLive notRoot
    rw [rewrite.root] at notRoot
    obtain ⟨belowOld, belowNe⟩ := (rewrite.live _).mp belowLive
    by_cases isLower : below = lower
    · subst isLower
      rw [rewrite.newParent, rewrite.newLabel]
      refine ⟨(rewrite.live _).mpr ⟨upperLive, upperNe⟩, ?_, first, initial ++ before.label below,
        rfl, rewrite.upperHere⟩
      rw [lowerPath, lowerParent, gonePath, rewrite.goneLabel, List.append_assoc]
    · obtain ⟨parentLive, _, other, _, _, link⟩ := radix.parentLink belowOld notRoot
      have parentNe : before.parent below ≠ gone := by
        intro same
        rw [same] at link
        by_cases sameLetter : other = a
        · rw [sameLetter, rewrite.onlyHere] at link
          cases link
          exact isLower rfl
        · rw [rewrite.onlyElse other sameLetter] at link
          cases link
      have live := (rewrite.live (before.parent below)).mpr ⟨parentLive, parentNe⟩
      refine radix.parentLink_untouched (rewrite.parent below belowLive isLower)
        (rewrite.label below belowLive isLower) belowOld notRoot live rfl rfl
        fun link => child_elsewhere rewrite.upperElse rewrite.child live ?_
      rintro ⟨atUpper, rfl⟩
      rw [atUpper, goneLink] at link
      cases link
      exact belowNe rfl

theorem prune (radix : before.IsRadix path)
    (rewrite : Prune before after gone first initial) : after.IsRadix path := by
  have goneLive := rewrite.goneLive
  have goneNotRoot := rewrite.goneNotRoot
  have goneLink := radix.child_parent goneLive goneNotRoot rewrite.goneLabel
  constructor
  · rw [rewrite.live, rewrite.root]
    refine ⟨radix.rootLive, fun above => ?_⟩
    exact goneNotRoot (above_root_iff.mp above)
  · rw [rewrite.root, radix.rootPath]
  · intro above other below aboveLive link
    obtain ⟨aboveOld, aboveKept⟩ := (rewrite.live _).mp aboveLive
    have elsewhere : ¬ (above = before.parent gone ∧ other = first) := by
      rintro ⟨rfl, rfl⟩
      rw [rewrite.upperHere] at link
      cases link
    rw [child_elsewhere rewrite.upperElse rewrite.child aboveLive elsewhere] at link
    obtain ⟨belowLive, _, parentShape, rest, labelShape⟩ := radix.childLink aboveOld link
    have belowKept : ¬ Above before gone below := by
      intro aboveGone
      by_cases isGone : gone = below
      · subst isGone
        rw [rewrite.goneLabel] at labelShape
        cases labelShape
        exact elsewhere ⟨parentShape.symm, rfl⟩
      · have upward := aboveGone.parent_of_ne isGone
        rw [parentShape] at upward
        exact aboveKept upward
    have live := (rewrite.live below).mpr ⟨belowLive, belowKept⟩
    exact radix.childLink_untouched (rewrite.parent below live) (rewrite.label below live)
      rewrite.root aboveOld link live
  · intro below belowLive notRoot
    rw [rewrite.root] at notRoot
    obtain ⟨belowOld, belowKept⟩ := (rewrite.live _).mp belowLive
    have parentKept : ¬ Above before gone (before.parent below) :=
      fun above => belowKept (Above.up notRoot above)
    have live := (rewrite.live (before.parent below)).mpr
      ⟨(radix.parentLink belowOld notRoot).1, parentKept⟩
    refine radix.parentLink_untouched (rewrite.parent below belowLive)
      (rewrite.label below belowLive) belowOld notRoot live rfl rfl
      fun link => child_elsewhere rewrite.upperElse rewrite.child live ?_
    rintro ⟨atUpper, rfl⟩
    rw [atUpper, goneLink] at link
    cases link
    exact belowKept (Above.self _)

end IsRadix

end RadixGraph
end AutomatonCore.Library
