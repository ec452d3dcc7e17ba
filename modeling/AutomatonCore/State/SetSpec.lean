import AutomatonCore.State.Effects
import AutomatonCore.State.SetPlan

/-!
# Setting a key
-/

namespace AutomatonCore.State

open Io Library.RadixGraph

namespace StateImpl

variable {H : HashTransformation} {s before : StateImpl}
  {path : Nat → Bytes}

theorem updateValue_sameLinks (s : StateImpl) (cur : Nat) (value : Bytes) :
    SameLinks s (s.update cur fun node => { node with value := value }) := by
  have fields : ∀ i,
        ((s.update cur fun node =>
            { node with value := value }).node i).parent =
            (s.node i).parent ∧
          ((s.update cur fun node =>
              { node with value := value }).node i).prefixBytes =
              (s.node i).prefixBytes ∧
            ((s.update cur fun node =>
                { node with value := value }).node i).children = (s.node i).children := by
    intro i
    by_cases same : i = cur
    · subst same
      by_cases bound : i < s.nodes.length
      · simp [node_update_self bound]
      · have unchanged : (s.update i fun node =>
              { node with value := value }).node i = s.node i := by
          simp [node, bound]
        simp [unchanged]
    · simp [node_update_ne same]
  exact
    { length := by simp
      freeLocations := by simp
      parent := fun i => (fields i).1
      prefixBytes := fun i => (fields i).2.1
      children := fun i => (fields i).2.2 }

/-- The key has the value, and no other pair changes. -/
def Stores (before : Bytes → Bytes → Prop) (key value : Bytes)
    (after : Bytes → Bytes → Prop) : Prop :=
  ∀ query found, after query found ↔
    (query = key ∧ found = value) ∨ (query ≠ key ∧ before query found)

variable {cur : Nat} {v rest : Bytes} {a : UInt8}

/-- The value is stored at a node all of whose ancestors may be stale, and
where nothing else is out of order. -/
theorem storeValue_spec {value : Bytes}
    (linked : s.Linked path) (live : s.Live cur) (nonempty : value ≠ [])
    (frame : ∀ i, s.Live i → ¬ Above s.graph i cur → before.Live i ∧ s.node i = before.node i)
    (full : ∀ i, s.Live i → i ≠ 0 → i ≠ cur → Full (s.node i)) :
    ∃ after, s.storeValue H cur value = .ok after ∧ after.WellFormed path ∧
          Stores (s.Holds path) (path cur) value (after.Holds path) ∧
            (before.AllFresh H → after.AllFresh H) ∧
              ∀ origin, s.Backed origin → after.Backed origin := by
  generalize shape : ((s.backupNodes cur).update cur fun node =>
      { node with value := value }) = stored
  have changed : stored.node cur = { s.node cur with value := value } := by
    rw [← shape, node_update_self (by simpa using live.1), backupNodes_node]
  have others : ∀ i, i ≠ cur → stored.node i = s.node i := by
    intro i ne
    rw [← shape, node_update_ne ne, backupNodes_node]
  have saved := backupNodes_sameLinks s cur
  have valued := updateValue_sameLinks (s.backupNodes cur) cur value
  rw [shape] at valued
  have storedLinked : stored.Linked path := valued.linked (saved.linked linked)
  have storedLive : ∀ i, stored.Live i ↔ s.Live i := by
    intro i
    rw [valued.live, saved.live]
  have storedGraph : stored.graph = s.graph := valued.graph.trans saved.graph
  have beyond : before.AllFresh H → stored.FreshBeyond H cur := by
    intro fresh
    apply freshBeyond_of_frame fresh storedLinked
    intro i indexLive outside
    have ne : i ≠ cur := by
      rintro rfl
      exact outside (Above.self _)
    rw [storedLive] at indexLive
    rw [storedGraph] at outside
    rw [others i ne]
    exact frame i indexLive outside
  obtain ⟨after, run, rehashed, fresh⟩ :=
    calculateHash_spec H storedLinked ((storedLive _).mpr live)
  refine ⟨after, ?_, ⟨rehashed.same.linked storedLinked, ?_⟩, ?_, fresh ∘ beyond, ?_⟩
  · unfold storeValue
    rw [shape]
    exact run
  · apply rehashed.same.compact
    intro i indexLive notRoot
    by_cases same : i = cur
    · rw [same, changed]
      exact .inl nonempty
    · rw [others i same]
      exact full i ((storedLive i).mp indexLive) notRoot same
  · intro query found
    rw [rehashed.same.holds]
    constructor
    · rintro ⟨foundNonempty, i, indexLive, rfl, held⟩
      rw [storedLive] at indexLive
      by_cases same : i = cur
      · subst same
        rw [changed] at held
        exact .inl ⟨rfl, held.symm⟩
      · rw [others i same] at held
        refine .inr ⟨?_, foundNonempty, i, indexLive, rfl, held⟩
        intro samePath
        exact same (linked.path_injective indexLive live samePath)
    · rintro (⟨rfl, rfl⟩ | ⟨ne, foundNonempty, i, indexLive, rfl, held⟩)
      · refine ⟨nonempty, cur, (storedLive _).mpr live, rfl, ?_⟩
        rw [changed]
      · refine ⟨foundNonempty, i, (storedLive _).mpr indexLive, rfl, ?_⟩
        rw [others i (fun same => ne (by rw [same]))]
        exact held
  · intro origin backed
    obtain ⟨savedBacked, held, _⟩ := backed.backupNodes live.1
    have storedBacked : stored.Backed origin := by
      rw [← shape]
      exact savedBacked.update_content held fun _ => rfl
    refine storedBacked.rehashed storedLinked ((storedLive _).mpr live) ?_ rehashed
    rw [← shape]
    exact held

theorem Stores.of_iff {first second third : Bytes → Bytes → Prop}
    {k : Bytes} (same : ∀ query found, second query found ↔ first query found)
    (stores : Stores second k v third) : Stores first k v third := by
  intro query found
  rw [stores, same]

theorem attachLeaf_store {base : Nat} (linked : s.Linked path) (baseLive : s.Live base)
    (vacant : (s.node base).children a = 0) (ne : v ≠ [])
    (full : ∀ i, s.Live i → i ≠ 0 → i ≠ base → Full (s.node i))
    (baseFull : base ≠ 0 → ∀ leaf, leaf ≠ 0 → Full ((s.node base).setChild a leaf)) :
    ∃ after newPath, (s.attachLeaf base a rest).1.storeValue H
          (s.attachLeaf base a rest).2 v = .ok after ∧
        after.WellFormed newPath ∧
          Stores (s.Holds path) (path base ++ a :: rest) v (after.Holds newPath) ∧
            (s.AllFresh H → after.AllFresh H) ∧
              ∀ origin, s.Backed origin → s.Held base → after.Backed origin := by
  have attached := attachLeaf_spec a rest linked.rootLive linked.freeBound baseLive
  have grownBacked :
      ∀ origin, s.Backed origin → s.Held base → (s.attachLeaf base a rest).1.Backed origin := by
    intro origin backed held
    obtain ⟨added, leafHeld, _⟩ := backed.addNode a linked baseLive held
    simp only [attachLeaf]
    exact added.update_content leafHeld fun _ => rfl
  generalize s.attachLeaf base a rest = outcome at *
  obtain ⟨grown, leaf⟩ := outcome
  have grownLinked := attached.linked linked baseLive vacant
  have leafPath :
      Function.update path leaf (path base ++ a :: rest) leaf = path base ++ a :: rest :=
    Function.update_self ..
  obtain ⟨after, run, wf, stores, fresh, backed⟩ :=
    storeValue_spec grownLinked ((attached.live leaf).mpr (.inr rfl)) ne attached.frame (by
        intro i live notRoot notLeaf
        refine attached.full full ?_ live notRoot notLeaf
        intro baseNotRoot
        rw [attached.baseNode]
        exact baseFull baseNotRoot leaf attached.notRoot)
  rw [leafPath] at stores
  refine ⟨after, _, run, wf, stores.of_iff ?_, fresh, ?_⟩
  · apply holds_of_added _ attached.isFresh attached.live
    · rw [attached.freshNode]
      rfl
    · intro i live
      exact attached.value live
  · intro origin stateBacked held
    exact backed origin (grownBacked origin stateBacked held)

/-- What `split_node` leaves behind: all is in order but that the upper part
has neither a value nor a second child. -/
structure Halved (hasher : HashTransformation) (before after : StateImpl)
    (path newPath : Nat → Bytes) (lower : Nat) (first : UInt8)
    (initial : Bytes) (letter : UInt8) (split : Nat) : Prop where
  linked : after.Linked newPath
  live : after.Live split
  notRoot : split ≠ 0
  splitPath : newPath split = path (before.node lower).parent ++ first :: initial
  children : (after.node split).children = fun byte => if byte = letter then lower else 0
  full : ∀ index, after.Live index → index ≠ 0 → index ≠ split → Full (after.node index)
  holds : ∀ key value, after.Holds newPath key value ↔ before.Holds path key value
  advances : Advances hasher before after
  held : ∀ origin, before.Backed origin → after.Held split

theorem splitNode_spec (H : HashTransformation) (wf : s.WellFormed path) {lower : Nat}
    (live : s.Live lower) (notRoot : lower ≠ 0)
    {first : UInt8} {initial : Bytes}
    (label : (s.node lower).prefixBytes = (first :: initial) ++ a :: rest) :
    ∃ divided newPath split, s.splitNode H lower (first :: initial).length = .ok (divided, split) ∧
        Halved H s divided path newPath lower first initial a split := by
  have effect := divideNode_spec wf.linked live notRoot label
  have backing := fun origin (backed : s.Backed origin) =>
    backed.divideNode (first :: initial).length wf.linked live notRoot
  unfold splitNode
  generalize s.divideNode lower (first :: initial).length = outcome at effect backing
  obtain ⟨upper, split⟩ := outcome
  dsimp only at effect backing ⊢
  have linked := effect.linked wf.linked live notRoot label
  have lowerLive : upper.Live lower := (effect.live lower).mpr (.inl live)
  obtain ⟨hashed, run, rehashed, fresh⟩ := calculateHash_spec H linked lowerLive
  have same := rehashed.same
  refine ⟨hashed, _, split, ?_, same.linked linked, ?_,
    effect.notRoot, Function.update_self .., ?_, ?_, ?_, ⟨?_, ?_⟩, ?_⟩
  · rw [run]
    rfl
  · rw [same.live, effect.live]
    exact .inr rfl
  · rw [same.children, effect.freshNode]
  · intro i indexLive indexNotRoot notSplit
    rw [same.live] at indexLive
    exact (effect.full wf.compact indexLive indexNotRoot
        notSplit).congr (same.value i) (same.children i)
  · intro k v
    rw [same.holds]
    apply holds_of_added _ effect.isFresh effect.live
    · rw [effect.freshNode]
    · intro i indexLive
      exact effect.value indexLive
  · intro stateFresh
    exact fresh (freshBeyond_of_frame stateFresh linked (effect.frame notRoot))
  · intro origin backed
    obtain ⟨upperBacked, _, lowerHeld⟩ := backing origin backed
    exact upperBacked.rehashed linked lowerLive lowerHeld rehashed
  · intro origin backed
    rw [same.held]
    exact (backing origin backed).2.1

theorem backupNodes_advances (H : HashTransformation)
    (live : s.Live cur) : Advances H s (s.backupNodes cur) := by
  have same := backupNodes_sameLinks s cur
  refine ⟨?_, fun origin backed => (backed.backupNodes live.1).1⟩
  intro fresh i indexLive
  apply (fresh i ((same.live i).mp indexLive)).congr
  · simp
  · simp

theorem backupNodes_wellFormed (wf : s.WellFormed path)
    (cur : Nat) : (s.backupNodes cur).WellFormed path := by
  have same := backupNodes_sameLinks s cur
  refine ⟨same.linked wf.linked, ?_⟩
  intro i live notRoot
  rw [backupNodes_node]
  exact wf.compact i ((same.live i).mp live) notRoot

theorem backupNodes_holds (s : StateImpl) (cur : Nat) (k v : Bytes) :
    (s.backupNodes cur).Holds path k v ↔ s.Holds path k v := by
  simp [Holds, backupNodes_live]

/-- `set` stores one pair. -/
theorem set_spec (H : HashTransformation) (wf : s.WellFormed path) (k : Bytes) (nonempty : v ≠ []) :
    ∃ after newPath, s.set H k v = .ok after ∧ after.WellFormed newPath ∧
      Stores (s.Holds path) k v (after.Holds newPath) ∧ Advances H s after := by
  have plan : SetPlan H s path k v (s.set H k v) := set_plan wf.linked wf.compact k nonempty
  generalize s.set H k v = result at plan
  cases plan with
  | overwrite cur live place =>
    obtain ⟨after, run, afterFormed, stores, fresh, backed⟩ :=
      storeValue_spec wf.linked live nonempty (fun _ indexLive _ => ⟨indexLive, rfl⟩)
        (fun i indexLive notRoot _ => wf.compact i indexLive notRoot)
    exact ⟨after, path, run, afterFormed, place ▸ stores, fresh, backed⟩
  | attach base a rest live vacant place =>
    have saved := backupNodes_wellFormed wf base
    obtain ⟨after, newPath, run, afterFormed, stores, fresh, backed⟩ :=
      attachLeaf_store saved.linked ((backupNodes_live s base base).mpr live)
        (by simpa using vacant) nonempty
        (fun i indexLive notRoot _ => saved.compact i indexLive notRoot)
        (by
          intro notRoot leaf nonzero
          rw [backupNodes_node]
          have full : Full (s.node base) := wf.compact base live notRoot
          exact full.setChild a nonzero)
    have savedAdvances := backupNodes_advances H live
    refine ⟨after, newPath, run, afterFormed,
        place ▸ stores.of_iff (backupNodes_holds s base), fresh ∘ savedAdvances.fresh, ?_⟩
    intro origin stateBacked
    obtain ⟨savedBacked, held, _⟩ := stateBacked.backupNodes live.1
    exact backed origin savedBacked held
  | branch lower first initial a tail other rest live notRoot label ne place =>
    obtain ⟨divided, middlePath, split, splitRun, halved⟩ := splitNode_spec H wf live notRoot label
    obtain ⟨after, newPath, run, afterFormed, stores, fresh, backed⟩ :=
      attachLeaf_store halved.linked halved.live (by
          rw [halved.children]
          exact if_neg ne)
        nonempty halved.full
        (by
          intro _ leaf nonzero
          refine .inr ⟨other, a, ne, ?_, ?_⟩
          · rw [Node.setChild_children, if_pos rfl]
            exact nonzero
          · rw [Node.setChild_children, if_neg ne.symm, halved.children]
            simpa using notRoot)
    rw [halved.splitPath] at stores
    refine ⟨after, newPath, ?_, afterFormed, place ▸ stores.of_iff halved.holds,
        fresh ∘ halved.advances.fresh, ?_⟩
    · rw [splitRun]
      exact run
    · intro origin stateBacked
      exact backed origin (halved.advances.backed origin stateBacked)
          (halved.held origin stateBacked)
  | inside lower first initial a tail live notRoot label place =>
    obtain ⟨divided, middlePath, split, splitRun, halved⟩ := splitNode_spec H wf live notRoot label
    obtain ⟨after, run, afterFormed, stores, fresh, backed⟩ :=
      storeValue_spec halved.linked halved.live nonempty
        (fun _ indexLive _ => ⟨indexLive, rfl⟩) halved.full
    rw [halved.splitPath] at stores
    refine ⟨after, middlePath, ?_, afterFormed, place ▸ stores.of_iff halved.holds,
        halved.advances.trans ⟨fresh, backed⟩⟩
    rw [splitRun]
    exact run

end StateImpl

end AutomatonCore.State
