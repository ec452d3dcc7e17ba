import AutomatonCore.State.EraseSpec
import Mathlib.Data.List.AList

/-!
# The state as a finite map
-/

namespace AutomatonCore.State

open Io List

inductive Request where
  | set (key value : Bytes)
  | erase (key : Bytes)
  | deleteNodeTree (key : Bytes)
  deriving DecidableEq, Repr

def Request.key : Request → Bytes
  | .set key _ => key
  | .erase key => key
  | .deleteNodeTree key => key

/-- The calls that take a key away: `erase`, `delete_node_tree`, and `set`
with an empty value. -/
def Request.removes : Request → Prop
  | .set _ value => value = []
  | .erase _ => True
  | .deleteNodeTree _ => True

instance : (request : Request) → Decidable request.removes
  | .set _ value => inferInstanceAs (Decidable (value = []))
  | .erase _ => inferInstanceAs (Decidable True)
  | .deleteNodeTree _ => inferInstanceAs (Decidable True)

namespace StateImpl

def apply (hasher : HashTransformation) (state : StateImpl) : Request → Except Fault StateImpl
  | .set key value => state.set hasher key value
  | .erase key => state.erase hasher key
  | .deleteNodeTree key => state.deleteNodeTree hasher key

/-- A call that throws does so before it changes anything. -/
def step (hasher : HashTransformation) (state : StateImpl) (request : Request) : StateImpl :=
  match state.apply hasher request with
  | .ok after => after
  | .error _ => state

/-- A history is a sequence of calls of `set`, `erase` and
`delete_node_tree`. -/
def run (hasher : HashTransformation) (state : StateImpl) (requests : List Request) : StateImpl :=
  requests.foldl (step hasher) state

end StateImpl

/-- The finite map that a state stands for. -/
abbrev Contents :=
  AList fun _ : Bytes => Bytes

namespace Contents

def removeTree (contents : Contents) (key : Bytes) : Contents :=
  (contents.keys.filter (key.isPrefixOf ·)).foldl (fun rest found => rest.erase found) contents

/-- The calls on a finite map; `none` where the source throws. -/
def apply (contents : Contents) : Request → Option Contents
  | .set key value =>
    if value = [] then (contents.lookup key).map fun _ => contents.erase key
    else some (contents.insert key value)
  | .erase key => (contents.lookup key).map fun _ => contents.erase key
  | .deleteNodeTree key => (contents.lookup key).map fun _ => contents.removeTree key

def step (contents : Contents) (request : Request) : Contents :=
  (contents.apply request).getD contents

def run (contents : Contents) (requests : List Request) : Contents :=
  requests.foldl step contents

theorem lookup_foldl_erase (keys : List Bytes) (contents : Contents) (query : Bytes) :
    (keys.foldl (fun rest found => rest.erase found) contents).lookup query =
      if query ∈ keys then none else contents.lookup query := by
  induction keys generalizing contents with
  | nil => simp
  | cons k keys ih =>
    rw [foldl_cons, ih]
    by_cases same : query = k
    · subst same
      simp
    · simp [same]

theorem lookup_removeTree (contents : Contents) (k query : Bytes) :
    (contents.removeTree k).lookup query =
      if k <+: query then none else contents.lookup query := by
  unfold removeTree
  rw [lookup_foldl_erase]
  by_cases below : k <+: query
  · split
    · rfl
    next notMember =>
      have absent : query ∉ contents := by
        intro mem
        apply notMember
        rw [mem_filter]
        exact ⟨AList.mem_keys.mp mem, isPrefixOf_iff_prefix.mpr below⟩
      exact AList.lookup_eq_none.mpr absent
  · rw [if_neg below, if_neg]
    intro mem
    rw [mem_filter] at mem
    exact below (List.isPrefixOf_iff_prefix.mp mem.2)

end Contents

namespace StateImpl

variable {H : HashTransformation} {s : StateImpl}
  {path : Nat → Bytes} {contents : Contents}

/-- The node arena and the map hold the same pairs. -/
def Represents (state : StateImpl) (path : Nat → Bytes) (contents : Contents) : Prop :=
  ∀ key value, state.Holds path key value ↔ contents.lookup key = some value

theorem Represents.get (rep : s.Represents path contents) (linked : s.Linked path) (k : Bytes) :
    s.get k = (contents.lookup k).getD [] := by
  cases stored : contents.lookup k with
  | none =>
    by_contra present
    have held := (get_eq_iff linked k present).mp rfl
    rw [rep, stored] at held
    cases held
  | some v =>
    have held := (rep k v).mpr stored
    exact (get_eq_iff linked k held.1).mpr held

theorem Represents.get_eq_nil (rep : s.Represents path contents)
    (linked : s.Linked path) (k : Bytes) : s.get k = [] ↔ contents.lookup k = none := by
  rw [rep.get linked]
  cases stored : contents.lookup k with
  | none => simp
  | some v =>
    have held := (rep k v).mpr stored
    simpa using held.1

/-- What `erase` needs of the state: the empty key must have no value, or the
root several children. -/
def EraseSafe (state : StateImpl) (key : Bytes) : Prop :=
  key = [] → state.get key ≠ [] → ∃ first second,
      first ≠ second ∧ (state.node 0).children first ≠ 0 ∧ (state.node 0).children second ≠ 0

/-- The calls that do not take the root itself away. -/
def Safe (state : StateImpl) : Request → Prop
  | .set key value => value = [] → state.EraseSafe key
  | .erase key => state.EraseSafe key
  | .deleteNodeTree key => key = [] → state.get key = []

variable {req : Request}

theorem safe_of_key (ne : req.key ≠ []) : s.Safe req := by
  cases req with
  | set k v => exact fun _ empty => absurd empty ne
  | erase k => exact fun empty => absurd empty ne
  | deleteNodeTree k => exact fun empty => absurd empty ne

/-- Every call of a history finds a state in which it is safe. -/
def SafeRun (hasher : HashTransformation) : StateImpl → List Request → Prop
  | _, [] => True
  | state, request :: requests =>
    state.Safe request ∧ SafeRun hasher (state.step hasher request) requests

theorem safeRun_of_keys (H : HashTransformation)
    {requests : List Request} (ne : ∀ req ∈ requests, req.key ≠ []) : s.SafeRun H requests := by
  induction requests generalizing s with
  | nil => trivial
  | cons req requests ih =>
    rw [forall_mem_cons] at ne
    exact ⟨safe_of_key ne.1, ih ne.2⟩

/-- What a call does to the pairs. -/
def Effect (before : Bytes → Bytes → Prop) (after : Bytes → Bytes → Prop) : Request → Prop
  | .set key value =>
    if value = [] then Drops before (· = key) after
    else Stores before key value after
  | .erase key => Drops before (· = key) after
  | .deleteNodeTree key => Drops before (key <+: ·) after

/-- A removal of a key without value throws; every other safe call has its
effect. -/
theorem apply_spec (H : HashTransformation) (wf : s.WellFormed path) (safe : s.Safe req) :
    (req.removes ∧ s.get req.key = [] ∧ s.apply H req = .error (noSetNode req.key)) ∨
      ((req.removes → s.get req.key ≠ []) ∧ ∃ after newPath,
        s.apply H req = .ok after ∧ after.WellFormed newPath ∧
        Effect (s.Holds path) (after.Holds newPath) req ∧ Advances H s after) := by
  have erasing : ∀ k, s.EraseSafe k → (s.get k = [] ∧ s.erase H k = .error (noSetNode k)) ∨
          (s.get k ≠ [] ∧ ∃ after newPath, s.erase H k = .ok after ∧ after.WellFormed newPath ∧
            Drops (s.Holds path) (· = k) (after.Holds newPath) ∧ Advances H s after) := by
    intro k keySafe
    by_cases absent : s.get k = []
    · exact .inl ⟨absent, erase_absent absent⟩
    · obtain ⟨after, run, afterFormed, drops, advances⟩ :=
        erase_spec H wf absent fun isEmpty => keySafe isEmpty absent
      exact .inr ⟨absent, after, path, run, afterFormed, drops, advances⟩
  cases req with
  | set k v =>
    by_cases empty : v = []
    · subst empty
      rcases erasing k (safe rfl) with
        ⟨absent, throws⟩ | ⟨present, after, newPath, run, result⟩
      · exact .inl ⟨rfl, absent, throws⟩
      · exact .inr ⟨fun _ => present, after, newPath, run, result⟩
    · obtain ⟨after, newPath, run, afterFormed, stores, advances⟩ := set_spec H wf k empty
      refine .inr
          ⟨fun removes => absurd removes empty, after, newPath, run, afterFormed, ?_, advances⟩
      simp only [Effect, empty]
      exact stores
  | erase k =>
    rcases erasing k safe with
      ⟨absent, throws⟩ | ⟨present, result⟩
    · exact .inl ⟨trivial, absent, throws⟩
    · exact .inr ⟨fun _ => present, result⟩
  | deleteNodeTree k =>
    by_cases absent : s.get k = []
    · exact .inl ⟨trivial, absent, deleteNodeTree_absent absent⟩
    · obtain ⟨after, run, afterFormed, drops, advances⟩ :=
        deleteNodeTree_spec H wf absent fun isEmpty => absent (safe isEmpty)
      exact .inr ⟨fun _ => absent, after, path, run, afterFormed, drops, advances⟩

/-- The step lemma: a call keeps the tree in order, thrown or not. -/
theorem step_spec (H : HashTransformation) (wf : s.WellFormed path) (safe : s.Safe req) :
    ∃ newPath, (s.step H req).WellFormed newPath ∧ Advances H s (s.step H req) := by
  unfold step
  rcases apply_spec H wf safe with
    ⟨_, _, throws⟩ | ⟨_, after, newPath, run, afterFormed, _, advances⟩
  · rw [throws]
    exact ⟨path, wf, Advances.refl s⟩
  · rw [run]
    exact ⟨newPath, afterFormed, advances⟩

/-- The run lemma: so does a whole history of safe calls. -/
theorem run_spec (H : HashTransformation) (requests : List Request)
    (safe : s.SafeRun H requests) (wf : s.WellFormed path) :
    ∃ newPath, (s.run H requests).WellFormed newPath ∧ Advances H s (s.run H requests) := by
  induction requests generalizing s path with
  | nil => exact ⟨path, wf, Advances.refl s⟩
  | cons req requests ih =>
    obtain ⟨stepPath, stepFormed, stepAdvances⟩ := step_spec H wf safe.1
    obtain ⟨newPath, runFormed, runAdvances⟩ := ih safe.2 stepFormed
    exact ⟨newPath, runFormed, stepAdvances.trans runAdvances⟩

/-! ## The finite map of a history -/

theorem Contents.apply_eq_none (contents : Contents) (req : Request) :
    contents.apply req = none ↔ req.removes ∧ contents.lookup req.key = none := by
  cases req with
  | set k v =>
    by_cases empty : v = []
    · simp [Contents.apply, Request.removes, Request.key, empty]
    · simp [Contents.apply, Request.removes, empty]
  | erase k => simp [Contents.apply, Request.removes, Request.key]
  | deleteNodeTree k => simp [Contents.apply, Request.removes, Request.key]

theorem Represents.effect {after : StateImpl} {newPath : Nat → Bytes}
    {newContents : Contents} (rep : s.Represents path contents)
    (effect : Effect (s.Holds path) (after.Holds newPath) req)
    (mapped : contents.apply req = some newContents) : after.Represents newPath newContents := by
  have erases : ∀ k, Drops (s.Holds path) (· = k) (after.Holds newPath) →
        after.Represents newPath (contents.erase k) := by
    intro k drops query found
    rw [drops, rep]
    by_cases same : query = k
    · subst same
      simp
    · simp [same]
  cases req with
  | set k v =>
    by_cases empty : v = []
    · simp only [Contents.apply, empty, ↓reduceIte, Option.map_eq_some_iff] at effect mapped
      obtain ⟨_, _, rfl⟩ := mapped
      exact erases k effect
    · simp only [Effect, Contents.apply, empty, ↓reduceIte, Option.some.injEq] at effect mapped
      subst mapped
      intro query found
      rw [effect, rep]
      by_cases same : query = k
      · subst same
        simp [eq_comm]
      · simp [same]
  | erase k =>
    obtain ⟨_, _, rfl⟩ := Option.map_eq_some_iff.mp mapped
    exact erases k effect
  | deleteNodeTree k =>
    obtain ⟨_, _, rfl⟩ := Option.map_eq_some_iff.mp mapped
    intro query found
    have drops : Drops (s.Holds path) (k <+: ·) (after.Holds newPath) := effect
    rw [drops, rep, Contents.lookup_removeTree]
    by_cases below : k <+: query
    · simp [below]
    · simp [below]

theorem step_simulates (H : HashTransformation) (wf : s.WellFormed path)
    (rep : s.Represents path contents) (safe : s.Safe req) :
    ∃ newPath, (s.step H req).WellFormed newPath ∧
      (s.step H req).Represents newPath (contents.step req) := by
  have empty := rep.get_eq_nil wf.linked req.key
  have mapThrows := Contents.apply_eq_none contents req
  unfold step Contents.step
  rcases apply_spec H wf safe with
    ⟨removes, absent, throws⟩ | ⟨present, after, newPath, run, afterFormed, effect, _⟩
  · rw [throws, mapThrows.mpr ⟨removes, empty.mp absent⟩]
    exact ⟨path, wf, rep⟩
  · cases mapped : contents.apply req with
    | none =>
      obtain ⟨removes, missing⟩ := mapThrows.mp mapped
      exact absurd (empty.mpr missing) (present removes)
    | some newContents =>
      rw [run]
      exact ⟨newPath, afterFormed, rep.effect effect mapped⟩

theorem run_simulates (H : HashTransformation)
    (requests : List Request) (safe : s.SafeRun H requests)
    (wf : s.WellFormed path) (rep : s.Represents path contents) :
    ∃ newPath, (s.run H requests).WellFormed newPath ∧
      (s.run H requests).Represents newPath (contents.run requests) := by
  induction requests generalizing s path contents with
  | nil => exact ⟨path, wf, rep⟩
  | cons req requests ih =>
    obtain ⟨newPath, stepFormed, stepRepresents⟩ := step_simulates H wf rep safe.1
    exact ih safe.2 stepFormed stepRepresents

theorem create_node (i : Nat) : create.node i = default := by
  cases i with
  | zero => rfl
  | succ i => simp [create, node]

theorem create_live (i : Nat) : create.Live i ↔ i = 0 := by simp [create, Live]

theorem create_wellFormed : create.WellFormed fun _ => [] := by
  refine ⟨⟨⟨?_, rfl, ?_, ?_⟩, ?_, rfl, rfl⟩, ?_⟩
  · exact (create_live 0).mpr rfl
  · intro upper a lower live link
    have childShape := childAt_eq_some.mp link
    rw [create_node] at childShape
    exact absurd childShape.1.symm childShape.2
  · intro i live notRoot
    exact absurd ((create_live i).mp live) notRoot
  · simp [create]
  · intro i live notRoot
    exact absurd ((create_live i).mp live) notRoot

theorem create_fresh (H : HashTransformation) : create.AllFresh H := by
  intro i live
  rw [(create_live i).mp live]
  unfold Fresh expectedHash
  rw [if_pos]
  · rfl
  · refine ⟨rfl, ?_⟩
    rw [hasChildren_iff]
    rintro ⟨b, present⟩
    exact present rfl

theorem create_represents : create.Represents (fun _ => []) (∅ : Contents) := by
  intro k v
  constructor
  · rintro ⟨ne, i, live, _, stored⟩
    rw [create_node] at stored
    exact absurd stored.symm ne
  · intro stored
    simp at stored

theorem history_simulates (H : HashTransformation) (requests : List Request)
    (ne : ∀ req ∈ requests, req.key ≠ []) :
    ∃ path, (create.run H requests).WellFormed path ∧
      (create.run H requests).Represents path ((∅ : Contents).run requests) :=
  run_simulates H requests (safeRun_of_keys H ne) create_wellFormed create_represents

theorem run_append (first second : List Request) :
    s.run H (first ++ second) = (s.run H first).run H second :=
  foldl_append

theorem run_append_thrown {fault : Fault} (requests later : List Request)
    (throws : (s.run H requests).apply H req = .error fault) :
    s.run H (requests ++ req :: later) = s.run H (requests ++ later) := by
  have unchanged : (s.run H requests).step H req = s.run H requests := by
    unfold step
    rw [throws]
  rw [run_append, run_append]
  change run H ((s.run H requests).step H req) later = _
  rw [unchanged]

/-- After any history over nonempty keys the state is the finite map of that
history.  `set` with a value returns; a call that takes a key away throws
`out_of_range` exactly if the key has no value, and then it does not show in
any later `get`. -/
theorem history_get (H : HashTransformation) (requests : List Request)
    (ne : ∀ req ∈ requests, req.key ≠ []) :
    (∀ query,
      (create.run H requests).get query = (((∅ : Contents).run requests).lookup query).getD []) ∧
    ∀ req : Request, req.key ≠ [] → ((req.removes ∧
          ((∅ : Contents).run requests).lookup req.key = none) →
        (create.run H requests).apply H req =
            .error (.outOfRange (text "No set node at path: " ++ bin2hex req.key)) ∧
          ∀ later query, (create.run H (requests ++ req :: later)).get query =
              (create.run H (requests ++ later)).get query) ∧
      (¬ (req.removes ∧ ((∅ : Contents).run requests).lookup req.key = none) →
        ∃ after, (create.run H requests).apply H req = .ok after) := by
  obtain ⟨path, wf, rep⟩ := history_simulates H requests ne
  refine ⟨rep.get wf.linked, ?_⟩
  intro req keyNonempty
  have empty := rep.get_eq_nil wf.linked req.key
  rcases apply_spec H wf (safe_of_key keyNonempty) with
    ⟨removes, absent, throws⟩ | ⟨present, after, _, returned, _⟩
  · refine ⟨fun _ => ⟨throws, ?_⟩, fun stored => absurd ⟨removes, empty.mp absent⟩ stored⟩
    intro later query
    rw [run_append_thrown requests later throws]
  · refine ⟨?_, fun _ => ⟨after, returned⟩⟩
    rintro ⟨removes, missing⟩
    exact absurd (empty.mpr missing) (present removes)

def checksum : HashTransformation where
  digestSize := 1
  digest message := [message.foldl (· + ·) 0]
  digest_length _ := rfl

theorem history_get_after_delete :
    (∀ req ∈
      [Request.set (text "ab") (text "x"), .set (text "abc") (text "y"), .set (text "b") (text "z"),
        .deleteNodeTree (text "ab")], req.key ≠ []) ∧
    (create.run checksum
      [.set (text "ab") (text "x"), .set (text "abc") (text "y"), .set (text "b") (text "z"),
        .deleteNodeTree (text "ab")]).get (text "abc") = [] ∧
    (create.run checksum
      [.set (text "ab") (text "x"), .set (text "abc") (text "y"), .set (text "b") (text "z"),
        .deleteNodeTree (text "ab")]).get (text "b") = text "z" := by
  refine ⟨by decide, ?_, ?_⟩
  · rw [(history_get checksum _ (by decide)).1]
    decide
  · rw [(history_get checksum _ (by decide)).1]
    decide

end StateImpl

end AutomatonCore.State
