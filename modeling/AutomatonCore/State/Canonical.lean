import AutomatonCore.Library.CommonPrefix
import AutomatonCore.State.MapSemantics
import AutomatonCore.State.Tree
import Mathlib.Algebra.Order.BigOperators.Group.List
import Mathlib.Algebra.Order.Ring.Nat

/-!
# The root hash is a function of the contents
-/

namespace AutomatonCore.State

open Io Library Library.RadixGraph List

namespace Contents

def keysBelow (contents : Contents) (path : Bytes) : List Bytes :=
  contents.keys.filter (path.isPrefixOf ·)

/-- The children of a node are found at the bytes with which a longer key
continues, and the path of a child is the longest common prefix of those
keys. -/
def canonicalNode (contents : Contents) : Nat → Bytes → Bytes → RadixTree
  | 0, base, path => .node (path.drop base.length) ((contents.lookup path).getD []) []
  | depth + 1, base, path =>
    .node (path.drop base.length) ((contents.lookup path).getD []) (allBytes.filterMap fun byte =>
        if contents.keysBelow (path ++ [byte]) = [] then none
        else
          some (canonicalNode contents depth path
            (commonPrefixAll (contents.keysBelow (path ++ [byte])))))

/-- The radix tree of a finite map, built from its keys alone. -/
def canonicalTree (contents : Contents) : RadixTree :=
  contents.canonicalNode ((contents.keys.map List.length).sum + 1) [] []

def canonicalHash (hasher : HashTransformation) (contents : Contents) : Bytes :=
  contents.canonicalTree.rootHash hasher

theorem mem_keysBelow (contents : Contents) (path k : Bytes) :
    k ∈ contents.keysBelow path ↔ k ∈ contents.keys ∧ path <+: k := by
  simp [keysBelow]

end Contents

namespace StateImpl

variable {H : HashTransformation} {s : StateImpl}
  {path : Nat → Bytes} {contents : Contents}

variable {i : Nat}

theorem WellFormed.exists_value_below (wf : s.WellFormed path) (live : s.Live i) (notRoot : i ≠ 0) :
    ∃ lower, s.Live lower ∧ Above s.graph i lower ∧ (s.node lower).value ≠ [] := by
  induction remaining :
      s.nodes.length - s.depthRank path i using Nat.strong_induction_on generalizing i with
  | _ remaining ih =>
    rcases wf.compact i live notRoot with
      hasValue | ⟨b, _, _, present, _⟩
    · exact ⟨i, live, Above.self _, hasValue⟩
    · have linked := wf.linked
      obtain ⟨childLive, parentShape, _⟩ := linked.child live present
      have deeper := linked.depthRank_child live present
      have bound : s.depthRank path ((s.node i).children b) < s.nodes.length :=
        depthRank_lt childLive
      obtain ⟨lower, lowerLive, below, hasValue⟩ := ih _ (by omega) childLive present rfl
      refine ⟨lower, lowerLive, ?_, hasValue⟩
      have link : s.graph.child i b = some ((s.node i).children b) :=
        childAt_eq_some.mpr ⟨rfl, present⟩
      exact (linked.radix.parent_above live link).trans below

theorem Represents.mem_keys (rep : s.Represents path contents) (k : Bytes) :
    k ∈ contents.keys ↔ ∃ i, s.Live i ∧ path i = k ∧ (s.node i).value ≠ [] := by
  rw [← AList.mem_keys, ← AList.lookup_isSome, Option.isSome_iff_exists]
  constructor
  · rintro ⟨v, stored⟩
    obtain ⟨ne, i, live, place, held⟩ := (rep k v).mpr stored
    exact ⟨i, live, place, held ▸ ne⟩
  · rintro ⟨i, live, place, ne⟩
    exact ⟨_, (rep k _).mp ⟨ne, i, live, place, rfl⟩⟩

theorem Represents.mem_keysBelow (rep : s.Represents path contents)
    (linked : s.Linked path) (live : s.Live i) (b : UInt8) (k : Bytes) :
    k ∈ contents.keysBelow (path i ++ [b]) ↔ ∃ lower, (s.node i).children b ≠ 0 ∧ s.Live lower ∧
      Above s.graph ((s.node i).children b) lower ∧ path lower = k ∧ (s.node lower).value ≠ [] := by
  rw [Contents.mem_keysBelow, rep.mem_keys]
  constructor
  · rintro ⟨⟨lower, lowerLive, rfl, nonempty⟩, longer⟩
    have below : path i <+: path lower := (prefix_append _ _).trans longer
    have ne : i ≠ lower := by
      rintro rfl
      have length := longer.length_le
      simp only [length_append, length_singleton] at length
      omega
    obtain ⟨other, next, link, nextAbove⟩ :=
      linked.radix.child_toward ((linked.radix.above_iff_prefix live lowerLive).mpr below)
        lowerLive ne
    obtain ⟨childShape, nonzero⟩ := childAt_eq_some.mp link
    subst childShape
    obtain ⟨childLive, _, rest, _, childPath⟩ := linked.child live nonzero
    -- both the byte and the child's own byte continue the path of `lower`
    have childBelow := (linked.radix.above_iff_prefix childLive lowerLive).mp nextAbove
    rw [childPath] at childBelow
    have sameByte : other = b := by
      obtain ⟨tail, shape⟩ := longer
      rw [← shape, append_assoc] at childBelow
      have rest := (prefix_append_right_inj _).mp childBelow
      simp only [singleton_append, cons_prefix_cons] at rest
      exact rest.1
    subst sameByte
    exact ⟨lower, nonzero, lowerLive, nextAbove, rfl, nonempty⟩
  · rintro ⟨lower, present, lowerLive, above, rfl, nonempty⟩
    obtain ⟨childLive, _, rest, _, childPath⟩ := linked.child live present
    have below := (linked.radix.above_iff_prefix childLive lowerLive).mp above
    rw [childPath] at below
    refine ⟨⟨lower, lowerLive, rfl, nonempty⟩, ?_⟩
    refine List.IsPrefix.trans ?_ below
    exact ⟨rest, by simp⟩

theorem keysBelow_eq_nil_iff (wf : s.WellFormed path) (rep : s.Represents path contents)
    (live : s.Live i) (b : UInt8) :
    contents.keysBelow (path i ++ [b]) = [] ↔ (s.node i).children b = 0 := by
  have mem := rep.mem_keysBelow wf.linked live b
  constructor
  · intro empty
    by_contra present
    have childLive := (wf.linked.child live present).1
    obtain ⟨lower, lowerLive, above, ne⟩ := wf.exists_value_below childLive present
    have found := (mem (path lower)).mpr ⟨lower, present, lowerLive, above, rfl, ne⟩
    rw [empty] at found
    cases found
  · intro absent
    apply eq_nil_iff_forall_not_mem.mpr
    intro k found
    obtain ⟨_, present, _⟩ := (mem k).mp found
    exact present absent

theorem commonPrefixAll_keysBelow (wf : s.WellFormed path) (rep : s.Represents path contents)
    (live : s.Live i) {b : UInt8} (present : (s.node i).children b ≠ 0) :
    commonPrefixAll (contents.keysBelow (path i ++ [b])) = path ((s.node i).children b) := by
  have linked := wf.linked
  have mem := rep.mem_keysBelow linked live b
  have childLive := (linked.child live present).1
  generalize childShape : (s.node i).children b = child at *
  apply commonPrefixAll_eq
  · intro empty
    have absent := (keysBelow_eq_nil_iff wf rep live b).mp empty
    rw [childShape] at absent
    exact present absent
  · intro k found
    obtain ⟨lower, _, lowerLive, above, rfl, _⟩ := (mem k).mp found
    exact (linked.radix.above_iff_prefix childLive lowerLive).mp above
  · intro longer starts
    rcases wf.compact child childLive present with
      hasValue | ⟨left, right, ne, leftChild, rightChild⟩
    · exact starts _ ((mem _).mpr ⟨child, present, childLive, Above.self _, rfl, hasValue⟩)
    · -- two keys that differ right behind the path of the child
      have continues :
          ∀ a, (s.node child).children a ≠ 0 → ∃ rest, longer <+: path child ++ a :: rest := by
        intro a hasChild
        obtain ⟨nextLive, _, rest, _, nextPath⟩ := linked.child childLive hasChild
        obtain ⟨lower, lowerLive, above, nonempty⟩ := wf.exists_value_below nextLive hasChild
        have link : s.graph.child child a = some ((s.node child).children a) :=
          childAt_eq_some.mpr ⟨rfl, hasChild⟩
        have below := (linked.radix.parent_above childLive link).trans above
        obtain ⟨tail, shape⟩ := (linked.radix.above_iff_prefix nextLive lowerLive).mp above
        refine ⟨rest ++ tail, ?_⟩
        have found := starts _ ((mem _).mpr ⟨lower, present, lowerLive, below, rfl, nonempty⟩)
        rw [← shape, nextPath] at found
        simpa using found
      obtain ⟨leftRest, startsLeft⟩ := continues left leftChild
      obtain ⟨rightRest, startsRight⟩ := continues right rightChild
      by_contra notPrefix
      have longerPath : path child <+: longer := by
        rcases prefix_or_prefix_of_prefix startsLeft
            (prefix_append (path child) (left :: leftRest)) with
          shorter | covered
        · exact absurd shorter notPrefix
        · exact covered
      obtain ⟨tail, rfl⟩ := longerPath
      rw [prefix_append_right_inj] at startsLeft startsRight
      cases tail with
      | nil => exact notPrefix (by simp)
      | cons a tail =>
        rw [cons_prefix_cons] at startsLeft startsRight
        exact ne (startsLeft.1.symm.trans startsRight.1)

theorem map_filter_eq_filterMap {β γ : Type} (bytes : List β)
    (found : β → Option γ) (kept : β → Bool) (result : β → γ)
    (skipped : ∀ b, kept b = false → found b = none)
    (taken : ∀ b, kept b = true → found b = some (result b)) :
    (bytes.filter kept).map result = bytes.filterMap found := by
  induction bytes with
  | nil => rfl
  | cons b bytes ih =>
    cases isKept : kept b with
    | false =>
      rw [filterMap_cons_none (skipped b isKept), filter_cons_of_neg (by simp [isKept])]
      exact ih
    | true => rw [filterMap_cons_some (taken b isKept), filter_cons_of_pos isKept, map_cons, ih]

/-- A tree in order is the canonical tree of its contents. -/
theorem tree_eq_canonicalNode (wf : s.WellFormed path) (rep : s.Represents path contents) :
    ∀ (depth i : Nat) (base : Bytes), s.Live i →
      (path i).drop base.length = (s.node i).prefixBytes →
      s.tree depth i = contents.canonicalNode depth base (path i) := by
  have linked := wf.linked
  have v : ∀ {i}, s.Live i → (s.node i).value = (contents.lookup (path i)).getD [] := by
    intro i live
    rw [← rep.get linked, get_of_live linked live]
  intro depth
  induction depth with
  | zero =>
    intro i base live label
    rw [tree, Contents.canonicalNode, label, v live]
  | succ depth ih =>
    intro i base live label
    have empty := keysBelow_eq_nil_iff wf rep live
    rw [tree, Contents.canonicalNode, label, v live]
    congr 1
    apply map_filter_eq_filterMap
    · intro b skipped
      have absent : (s.node i).children b = 0 := by simpa using skipped
      rw [if_pos ((empty b).mpr absent)]
    · intro b taken
      have present : (s.node i).children b ≠ 0 := by simpa using taken
      obtain ⟨childLive, _, rest, childLabel, childPath⟩ := linked.child live present
      rw [if_neg fun none => present ((empty b).mp none),
        commonPrefixAll_keysBelow wf rep live present, ih _ (path i) childLive]
      rw [childPath, drop_left, childLabel]

theorem length_le_sum {keys : List Bytes} {k : Bytes}
    (mem : k ∈ keys) : k.length ≤ (keys.map List.length).sum :=
  le_sum_of_mem (mem_map_of_mem mem)

theorem path_length_le (wf : s.WellFormed path) (rep : s.Represents path contents)
    (live : s.Live i) (notRoot : i ≠ 0) :
    (path i).length ≤ (contents.keys.map List.length).sum := by
  obtain ⟨lower, lowerLive, above, ne⟩ := wf.exists_value_below live notRoot
  have isKey := (rep.mem_keys (path lower)).mpr ⟨lower, lowerLive, rfl, ne⟩
  have longer := (wf.linked.radix.above_path above lowerLive).length_le
  exact longer.trans (length_le_sum isKey)

theorem getNodeHash_eq_canonicalHash (wf : s.WellFormed path)
    (fresh : s.AllFresh H) (rep : s.Represents path contents) :
    s.getNodeHash [] = contents.canonicalHash H := by
  have linked := wf.linked
  have canonical :=
    tree_eq_canonicalNode wf rep ((contents.keys.map List.length).sum + 1) 0 [] linked.rootLive
      (by rw [linked.rootPath, linked.rootPrefix]; rfl)
  rw [linked.rootPath] at canonical
  rw [Contents.canonicalHash, Contents.canonicalTree, ← canonical]
  symm
  apply rootHash_tree linked fresh fun i => (contents.keys.map List.length).sum - (path i).length
  · intro i b live present
    obtain ⟨childLive, _, rest, _, childPath⟩ := linked.child live present
    have bound := path_length_le wf rep childLive present
    rw [childPath] at bound ⊢
    simp only [length_append, length_cons] at bound ⊢
    omega
  · omega

/-! ## Histories -/

theorem Represents.congr {other : Contents} (rep : s.Represents path contents)
    (same : ∀ k, contents.lookup k = other.lookup k) : s.Represents path other := by
  intro k v
  rw [rep, same]

theorem history_hash (H : HashTransformation) (requests : List Request)
    (ne : ∀ req ∈ requests, req.key ≠ [])
    {contents : Contents} (same : ∀ k, ((∅ : Contents).run requests).lookup k = contents.lookup k) :
    (create.run H requests).getNodeHash [] = contents.canonicalHash H := by
  obtain ⟨path, wf, rep⟩ := history_simulates H requests ne
  obtain ⟨_, _, advances⟩ := run_spec H requests (safeRun_of_keys H ne) create_wellFormed
  exact getNodeHash_eq_canonicalHash wf (advances.fresh (create_fresh H)) (rep.congr same)

theorem Contents.run_append (contents : Contents) (first second : List Request) :
    contents.run (first ++ second) = (contents.run first).run second :=
  foldl_append

theorem Contents.lookup_run_set (contents : Contents) (pairs : List (Bytes × Bytes))
    (hasValue : ∀ pair ∈ pairs, pair.2 ≠ []) {query : Bytes} (other : query ∉ pairs.map Prod.fst) :
    (contents.run (pairs.map fun pair => .set pair.1 pair.2)).lookup
        query = contents.lookup query := by
  induction pairs generalizing contents with
  | nil => rfl
  | cons pair pairs ih =>
    rw [map_cons, mem_cons, not_or] at other
    have stored : pair.2 ≠ [] := hasValue pair (mem_cons_self ..)
    have first : contents.step (.set pair.1 pair.2) = contents.insert pair.1 pair.2 := by
      simp [Contents.step, Contents.apply, stored]
    have rest :=
      ih (contents.insert pair.1 pair.2) (fun later mem => hasValue later (mem_cons_of_mem _ mem))
        other.2
    rw [AList.lookup_insert_ne other.1] at rest
    rw [← rest, ← first]
    rfl

theorem Contents.lookup_run_erase (contents : Contents) (keys : List Bytes) (query : Bytes) :
    (contents.run (keys.map .erase)).lookup query =
      if query ∈ keys then none else contents.lookup query := by
  induction keys generalizing contents with
  | nil => simp [Contents.run]
  | cons k keys ih =>
    have first : (contents.step (.erase k)).lookup query =
          if query = k then none else contents.lookup query := by
      by_cases absent : contents.lookup k = none
      · have unchanged : contents.step (.erase k) = contents := by
          simp [Contents.step, Contents.apply, absent]
        rw [unchanged]
        by_cases same : query = k
        · rw [if_pos same, same, absent]
        · rw [if_neg same]
      · obtain ⟨v, stored⟩ := Option.ne_none_iff_exists'.mp absent
        have erased : contents.step (.erase k) = contents.erase k := by
          simp [Contents.step, Contents.apply, stored]
        rw [erased]
        by_cases same : query = k
        · rw [if_pos same, same, AList.lookup_erase]
        · rw [if_neg same, AList.lookup_erase_ne same]
    have rest := ih (contents.step (.erase k))
    rw [first] at rest
    change ((contents.step (.erase k)).run (keys.map .erase)).lookup query = _
    rw [rest]
    by_cases same : query = k
    · simp [same]
    · simp [same]

/-- The root hash after a history over nonempty keys is computed from
scratch from the map alone.  Hence histories with the same map have the same
root hash, and new keys that are added and then erased, in any order, do not
show in it. -/
theorem rootHash_of_contents (H : HashTransformation) (requests : List Request)
    (ne : ∀ req ∈ requests, req.key ≠ []) :
    (create.run H requests).getNodeHash [] = ((∅ : Contents).run requests).canonicalHash H ∧
    (∀ others : List Request, (∀ req ∈ others, req.key ≠ []) →
      (∀ k, ((∅ : Contents).run others).lookup k = ((∅ : Contents).run requests).lookup k) →
      (create.run H others).getNodeHash [] = (create.run H requests).getNodeHash []) ∧
    ∀ (added : List (Bytes × Bytes)) (erased : List Bytes),
      (∀ pair ∈ added, pair.1 ≠ [] ∧ pair.2 ≠ [] ∧
        ((∅ : Contents).run requests).lookup pair.1 = none) →
      (∀ k, k ∈ erased ↔ k ∈ added.map Prod.fst) →
      (create.run H (requests ++ added.map (fun pair => .set pair.1 pair.2) ++
            erased.map .erase)).getNodeHash [] = (create.run H requests).getNodeHash [] := by
  have scratch := history_hash H requests ne fun _ => rfl
  refine ⟨scratch, ?_, ?_⟩
  · intro others othersNonempty same
    rw [scratch]
    exact history_hash H others othersNonempty same
  · intro added erased fresh sameKeys
    rw [scratch]
    apply history_hash
    · intro req mem
      simp only [mem_append, mem_map] at mem
      rcases mem with
        (old | ⟨pair, isAdded, rfl⟩) | ⟨k, isErased, rfl⟩
      · exact ne req old
      · exact (fresh pair isAdded).1
      · obtain ⟨pair, isAdded, rfl⟩ := mem_map.mp ((sameKeys k).mp isErased)
        exact (fresh pair isAdded).1
    · intro k
      rw [Contents.run_append, Contents.run_append, Contents.lookup_run_erase]
      split
      next isErased =>
        obtain ⟨pair, isAdded, rfl⟩ := mem_map.mp ((sameKeys k).mp isErased)
        exact (fresh pair isAdded).2.2.symm
      next notErased =>
        apply Contents.lookup_run_set
        · exact fun pair isAdded => (fresh pair isAdded).2.1
        · exact fun isAdded => notErased ((sameKeys k).mpr isAdded)

theorem rootHash_of_contents_restored :
    (create.run checksum [.set (text "ab") (text "x"), .set (text "a") (text "y"),
          .erase (text "a")]).getNodeHash [] =
      (create.run checksum [.set (text "ab") (text "x")]).getNodeHash [] :=
  (rootHash_of_contents checksum [.set (text "ab") (text "x")]
    (by decide)).2.2 [(text "a", text "y")] [text "a"] (by decide) (by simp)

end StateImpl

end AutomatonCore.State
