import AutomatonCore.State.MapSemantics

/-!
# Listing a state through its children
-/

namespace AutomatonCore.State

open Io Library.RadixGraph List

namespace StateImpl

variable {s : StateImpl} {path : Nat → Bytes} {contents : Contents}

/-- The paths that the walk from `path` visits, in this order.  The first
argument bounds the number of nested calls. -/
def walkFrom (state : StateImpl) : Nat → Bytes → Except Fault (List Bytes)
  | 0, _ => .error .unboundedRecursion
  | calls + 1, path => do
    let children ← state.getNodeChildren path
    let below ← children.mapM fun child => walkFrom state calls (path ++ child)
    return path :: below.flatten

structure Lists (state : StateImpl) (path : Nat → Bytes) (index : Nat)
    (visited : List Bytes) : Prop where
  increasing : visited.Pairwise (· < ·)
  mem_iff : ∀ query, query ∈ visited ↔ ∃ lower, state.Live lower ∧ Above state.graph index lower ∧
      path lower = query

theorem childBytes_increasing (node : Node) : node.childBytes.Pairwise (· < ·) :=
  allBytes_increasing.filter _

theorem lt_of_byte_lt (base : Bytes) {first second : UInt8}
    (less : first < second) (left right : Bytes) :
    base ++ first :: left < base ++ second :: right := by
  induction base with
  | nil => exact cons_lt_cons_iff.mpr (.inl less)
  | cons b base ih => exact cons_lt_cons_iff.mpr (.inr ⟨rfl, ih⟩)

theorem lt_append_cons (base : Bytes) (b : UInt8) (rest : Bytes) : base < base ++ b :: rest := by
  induction base with
  | nil => exact nil_lt_cons b rest
  | cons first base ih => exact cons_lt_cons_iff.mpr (.inr ⟨rfl, ih⟩)

theorem mapM_eq_ok {α β : Type} {content : α → Except Fault β}
    {result : α → β} {values : List α} (each : ∀ v ∈ values, content v = .ok (result v)) :
    values.mapM content = .ok (values.map result) := by
  induction values with
  | nil => rfl
  | cons v values ih =>
    rw [forall_mem_cons] at each
    rw [mapM_cons, each.1, ih each.2]
    rfl

variable {query : Bytes} {i : Nat}

theorem walkFrom_succ {calls : Nat} {children : List Bytes} {below : List (List Bytes)}
    (found : s.getNodeChildren query = .ok children)
    (walked : (children.mapM fun child => s.walkFrom calls (query ++ child)) = .ok below) :
    s.walkFrom (calls + 1) query = .ok (query :: below.flatten) := by
  simp only [walkFrom, found, walked, bind, Except.bind]
  rfl

theorem getNodeChildren_of_live (linked : s.Linked path) (live : s.Live i) :
    s.getNodeChildren (path i) =
      .ok ((s.node i).childBytes.map fun b => (s.node ((s.node i).children b)).prefixBytes) := by
  have found := (getNodeIndex_eq_some linked (path i) i).mpr ⟨live, rfl⟩
  rw [getNodeChildren, found]

theorem Lists.starts (linked : s.Linked path)
    (live : s.Live i) {b : UInt8} (present : (s.node i).children b ≠ 0)
    {visited : List Bytes} (lists : Lists s path ((s.node i).children b) visited)
    (mem : query ∈ visited) : ∃ rest, query = path i ++ b :: rest := by
  obtain ⟨lower, lowerLive, above, rfl⟩ := (lists.mem_iff query).mp mem
  obtain ⟨_, _, rest, _, childPath⟩ := linked.child live present
  obtain ⟨tail, shape⟩ := linked.radix.above_path above lowerLive
  refine ⟨rest ++ tail, ?_⟩
  rw [← shape, childPath, append_assoc, cons_append]

theorem Lists.node (linked : s.Linked path) (live : s.Live i) {below : UInt8 → List Bytes}
    (lists : ∀ b, (s.node i).children b ≠ 0 → Lists s path ((s.node i).children b) (below b)) :
    Lists s path i (path i :: ((s.node i).childBytes.map below).flatten) where
  increasing := by
    have present : ∀ b ∈ (s.node i).childBytes, (s.node i).children b ≠ 0 :=
      fun b => ((s.node i).mem_childBytes b).mp
    rw [pairwise_cons, pairwise_flatten]
    refine ⟨?_, ?_, ?_⟩
    · intro query mem
      obtain ⟨visited, fromChild, inside⟩ := mem_flatten.mp mem
      obtain ⟨b, isChild, rfl⟩ := mem_map.mp fromChild
      obtain ⟨rest, rfl⟩ :=
        (lists b (present b isChild)).starts linked live (present b isChild) inside
      exact lt_append_cons _ _ _
    · intro visited fromChild
      obtain ⟨b, isChild, rfl⟩ := mem_map.mp fromChild
      exact (lists b (present b isChild)).increasing
    · rw [pairwise_map]
      refine (childBytes_increasing _).imp_of_mem ?_
      intro first second firstChild secondChild less left inFirst right inSecond
      obtain ⟨leftRest, rfl⟩ :=
        (lists first (present first firstChild)).starts linked live
          (present first firstChild) inFirst
      obtain ⟨rightRest, rfl⟩ :=
        (lists second (present second secondChild)).starts linked live
          (present second secondChild) inSecond
      exact lt_of_byte_lt _ less _ _
  mem_iff := by
    intro query
    rw [mem_cons]
    constructor
    · rintro (rfl | mem)
      · exact ⟨i, live, Above.self _, rfl⟩
      · obtain ⟨visited, fromChild, inside⟩ := mem_flatten.mp mem
        obtain ⟨b, isChild, rfl⟩ := mem_map.mp fromChild
        have present := ((s.node i).mem_childBytes b).mp isChild
        obtain ⟨lower, lowerLive, above, shape⟩ := ((lists b present).mem_iff query).mp inside
        refine ⟨lower, lowerLive, ?_, shape⟩
        exact (linked.above_iff_child live lowerLive).mpr (.inr ⟨b, present, above⟩)
    · rintro ⟨lower, lowerLive, above, rfl⟩
      rcases (linked.above_iff_child live lowerLive).mp above with
        rfl | ⟨b, present, belowChild⟩
      · exact .inl rfl
      · refine .inr (mem_flatten.mpr ⟨below b, ?_, ?_⟩)
        · exact mem_map_of_mem (((s.node i).mem_childBytes b).mpr present)
        · exact ((lists b present).mem_iff _).mpr ⟨lower, lowerLive, belowChild, rfl⟩

theorem walkFrom_lists (linked : s.Linked path) :
    ∀ (calls i : Nat), s.Live i → s.nodes.length - s.depthRank path i ≤ calls → ∃ visited,
      s.walkFrom calls (path i) = .ok visited ∧ Lists s path i visited := by
  intro calls
  induction calls with
  | zero =>
    intro i live enough
    have bound : s.depthRank path i < s.nodes.length := depthRank_lt live
    omega
  | succ calls ih =>
    intro i live enough
    have walks : ∀ b, ∃ visited, (s.node i).children b ≠ 0 →
            s.walkFrom calls (path ((s.node i).children b)) = .ok visited ∧
              Lists s path ((s.node i).children b) visited := by
      intro b
      by_cases present : (s.node i).children b = 0
      · exact ⟨[], fun child => absurd present child⟩
      · have deeper := linked.depthRank_child live present
        obtain ⟨visited, walked, lists⟩ := ih _ (linked.child live present).1 (by omega)
        exact ⟨visited, fun _ => ⟨walked, lists⟩⟩
    choose below walked using walks
    have each : ∀ b ∈ (s.node i).childBytes, s.walkFrom calls
              (path i ++ (s.node ((s.node i).children b)).prefixBytes) = .ok (below b) := by
      intro b isChild
      have present := ((s.node i).mem_childBytes b).mp isChild
      obtain ⟨_, _, rest, label, childPath⟩ := linked.child live present
      rw [label, ← childPath]
      exact (walked b present).1
    refine ⟨_, ?_, Lists.node linked live fun b present => (walked b present).2⟩
    refine walkFrom_succ (getNodeChildren_of_live linked live) ?_
    rw [mapM_map]
    exact mapM_eq_ok each

theorem Lists.unique {first second : List Bytes} (left : Lists s path i first)
    (right : Lists s path i second) : first = second := by
  have distinct {visited : List Bytes} (lists : Lists s path i visited) : visited.Nodup := by
    refine lists.increasing.imp ?_
    rintro query _ less rfl
    exact List.lt_irrefl query less
  have perm : first.Perm second :=
    (perm_ext_iff_of_nodup (distinct left) (distinct right)).mpr
      fun query => (left.mem_iff query).trans (right.mem_iff query).symm
  refine List.Perm.eq_of_pairwise ?_ left.increasing right.increasing perm
  intro one two _ _ less greater
  exact absurd greater (List.lt_asymm less)

/-- In every state reached from a new one, the walk through the children ends,
with any number of calls from the number of nodes on.  It visits increasing
paths, so every path once and siblings in the order of their bytes, and the
visited paths that have a value are the keys of the map. -/
theorem walk_enumerates (H : HashTransformation) (requests : List Request)
    (ne : ∀ req ∈ requests, req.key ≠ []) :
    ∃ visited,
      (∀ calls, (create.run H requests).size ≤ calls →
          (create.run H requests).walkFrom calls [] = .ok visited) ∧
        visited.Pairwise (· < ·) ∧ ∀ k v,
            (k ∈ visited ∧ (create.run H requests).get k = v ∧ v ≠ []) ↔
              ((∅ : Contents).run requests).lookup k = some v := by
  obtain ⟨path, wf, rep⟩ := history_simulates H requests ne
  have linked := wf.linked
  have enough {calls : Nat} (many : (create.run H requests).size ≤ calls) :
      (create.run H requests).nodes.length - (create.run H requests).depthRank path 0 ≤ calls :=
    (Nat.sub_le _ _).trans many
  obtain ⟨visited, _, lists⟩ := walkFrom_lists linked _ 0 linked.rootLive (enough (le_rfl))
  refine ⟨visited, ?_, lists.increasing, ?_⟩
  · intro calls many
    obtain ⟨other, walked, otherLists⟩ :=
      walkFrom_lists linked calls 0 linked.rootLive (enough many)
    rw [linked.rootPath] at walked
    rw [walked, lists.unique otherLists]
  · intro k v
    rw [← rep k v]
    constructor
    · rintro ⟨_, read, hasValue⟩
      exact (get_eq_iff linked k hasValue).mp read
    · rintro ⟨hasValue, i, live, rfl, stored⟩
      refine ⟨?_, ?_, hasValue⟩
      · exact (lists.mem_iff _).mpr ⟨i, live, linked.radix.root_above live, rfl⟩
      · rw [get_of_live linked live, stored]

theorem walk_enumerates_one_left :
    ∃ visited,
      (∀ calls,
          (create.run checksum [.set [1, 2] [7], .set [1, 3] [8], .erase [1, 2]]).size ≤ calls →
            (create.run checksum
              [.set [1, 2] [7], .set [1, 3] [8], .erase [1, 2]]).walkFrom calls [] = .ok visited) ∧
        visited.Pairwise (· < ·) ∧ ∀ k v,
            (k ∈ visited ∧
                (create.run checksum [.set [1, 2] [7], .set [1, 3] [8], .erase [1, 2]]).get k = v ∧
                  v ≠ []) ↔
              ((∅ : Contents).run
                [.set [1, 2] [7], .set [1, 3] [8], .erase [1, 2]]).lookup k = some v :=
  walk_enumerates checksum [.set [1, 2] [7], .set [1, 3] [8], .erase [1, 2]] (by decide)

end StateImpl

end AutomatonCore.State
