import AutomatonCore.State.Canonical
import AutomatonCore.State.PersistentAgreement

/-!
# Deleting from a persistent state
-/

namespace AutomatonCore.State

open Io List

/-- `state_impl::set` with the empty value erases the key.  In
`state_persistent::set` the call of `erase` is commented out. -/
def Request.setsNothing : Request → Bool
  | .set _ [] => true
  | _ => false

theorem Request.setsNothing_iff (req : Request) :
    req.setsNothing = true ↔ ∃ k, req = .set k [] := by
  cases req with
  | set k v => cases v <;> simp [setsNothing]
  | erase k => simp [setsNothing]
  | deleteNodeTree k => simp [setsNothing]

namespace StatePersistent

variable {H : HashTransformation} {s : StatePersistent}

/-- The requests that do something. -/
def effective (requests : List Request) : List Request :=
  requests.filter (!·.setsNothing)

def history (requests : List Request) : Contents :=
  (∅ : Contents).run (effective requests)

theorem run_append (first second : List Request) :
    s.run H (first ++ second) = (s.run H first).run H second :=
  foldl_append

theorem run_effective (H : HashTransformation) (requests : List Request) :
    s.run H (effective requests) = s.run H requests := by
  induction requests generalizing s with
  | nil => rfl
  | cons req requests ih =>
    change _ = (s.step H req).run H requests
    cases idle : req.setsNothing with
    | true =>
      obtain ⟨k, rfl⟩ := req.setsNothing_iff.mp idle
      rw [← ih]
      rfl
    | false =>
      have kept : effective (req :: requests) = req :: effective requests :=
        filter_cons_of_pos (by rw [idle]; rfl)
      rw [kept, ← ih]
      rfl

theorem effective_given {requests : List Request} :
    ∀ req ∈ effective requests, ∀ k, req ≠ .set k [] := by
  intro req mem k idle
  have active := (mem_filter.mp mem).2
  rw [req.setsNothing_iff.mpr ⟨k, idle⟩] at active
  cases active

section History

variable {requests : List Request} (keysGiven : ∀ req ∈ requests, req.key ≠ [])

include keysGiven

theorem effective_keysGiven : ∀ req ∈ effective requests, req.key ≠ [] :=
  fun req mem => keysGiven req (mem_filter.mp mem).1

theorem run_sameAnswers (fits : (create.run H requests).IdsFit) :
    SameAnswers (create.run H requests) (StateImpl.create.run H (effective requests)) := by
  rw [← run_effective] at fits ⊢
  exact (agrees_with_stateImpl H _ (effective_keysGiven keysGiven) effective_given fits).2.1

theorem get_history (fits : (create.run H requests).IdsFit) (query : Bytes) :
    (create.run H requests).get query = ((history requests).lookup query).getD [] := by
  obtain ⟨path, wf, rep⟩ := StateImpl.history_simulates H _ (effective_keysGiven keysGiven)
  rw [(run_sameAnswers keysGiven fits).get]
  exact rep.get wf.linked query

theorem lookup_history_ne (query : Bytes) : (history requests).lookup query ≠ some [] := by
  obtain ⟨path, _, rep⟩ :=
    StateImpl.history_simulates StateImpl.checksum _ (effective_keysGiven keysGiven)
  intro stored
  exact ((rep query []).mpr stored).1 rfl

theorem rootHash_history (fits : (create.run H requests).IdsFit)
    {contents : Contents} (same : ∀ k, (history requests).lookup k = contents.lookup k) :
    (create.run H requests).getNodeHash [] = contents.canonicalHash H := by
  rw [(run_sameAnswers keysGiven fits).getNodeHash]
  exact StateImpl.history_hash H _ (effective_keysGiven keysGiven) same

end History

/-- After the history `requests`, the call `request` deletes `key`: the key
has no value, the others keep theirs, and the root hash is the one of every
new state that holds just the remaining keys. -/
structure Deletes (hasher : HashTransformation) (requests : List Request)
    (key : Bytes) (request : Request) : Prop where
  gone : (create.run hasher (requests ++ [request])).get key = []
  kept : ∀ other, other ≠ key →
      (create.run hasher (requests ++ [request])).get other = (create.run hasher requests).get other
  rootHash : ∀ others : List Request, (∀ request ∈ others, request.key ≠ []) →
        (create.run hasher others).IdsFit → (∀ query, (create.run hasher others).get query =
                if query = key then []
                else (create.run hasher requests).get query) →
            (create.run hasher (requests ++ [request])).getNodeHash [] =
              (create.run hasher others).getNodeHash []

theorem lookup_history_erase (requests : List Request) (k query : Bytes) :
    (history (requests ++ [.erase k])).lookup query =
      if query = k then none else (history requests).lookup query := by
  have split : effective (requests ++ [.erase k]) = effective requests ++ [k].map Request.erase :=
    filter_append ..
  rw [history, split, StateImpl.Contents.run_append, StateImpl.Contents.lookup_run_erase]
  simp [history]

theorem eq_of_getD_nil {first second : Option Bytes}
    (firstGiven : first ≠ some []) (secondGiven : second ≠ some [])
    (same : first.getD [] = second.getD []) : first = second := by
  cases first with
  | none =>
    cases second with
    | none => rfl
    | some v => exact absurd (congrArg some same.symm) secondGiven
  | some v =>
    cases second with
    | none => exact absurd (congrArg some same) firstGiven
    | some other => exact congrArg some same

theorem run_erase_fits {requests : List Request} {k : Bytes}
    (fits : (create.run H (requests ++ [.erase k])).IdsFit) : (create.run H requests).IdsFit := by
  rw [run_append] at fits
  refine interpretation.bounded_of_grows ?_ fits
  exact grows_run H [.erase k] (by simp)

theorem erase_deletes (H : HashTransformation)
    {requests : List Request} (keysGiven : ∀ req ∈ requests, req.key ≠ [])
    {k : Bytes} (keyGiven : k ≠ []) (fits : (create.run H (requests ++ [.erase k])).IdsFit) :
    Deletes H requests k (.erase k) := by
  have allGiven : ∀ req ∈ requests ++ [.erase k], req.key ≠ [] := by
    rw [forall_mem_append]
    exact ⟨keysGiven, forall_mem_singleton.mpr keyGiven⟩
  have fitsBefore := run_erase_fits fits
  refine ⟨?_, ?_, ?_⟩
  · rw [get_history allGiven fits, lookup_history_erase, if_pos rfl]
    rfl
  · intro other ne
    rw [get_history allGiven fits, get_history keysGiven fitsBefore,
      lookup_history_erase, if_neg ne]
  · intro others othersGiven othersFit same
    refine (rootHash_history allGiven fits fun query => ?_).trans
        (rootHash_history othersGiven othersFit fun _ => rfl).symm
    have read := same query
    rw [get_history othersGiven othersFit, get_history keysGiven fitsBefore] at read
    rw [lookup_history_erase]
    refine eq_of_getD_nil ?_ (lookup_history_ne othersGiven query) ?_
    · split
      · exact Option.some_ne_none _ |>.symm
      · exact lookup_history_ne keysGiven query
    · rw [read]
      split <;> rfl

/-- No history makes `set` with the empty value delete a key that has a
value; `erase` deletes it, as long as the ids fit into 32 bits. -/
theorem set_nil_never_deletes (H : HashTransformation) (requests : List Request)
    (keysGiven : ∀ req ∈ requests, req.key ≠ []) (k : Bytes) (keyGiven : k ≠ [])
    (present : (create.run H requests).get k ≠ []) :
    ¬ Deletes H requests k (.set k []) ∧ ((create.run H (requests ++ [.erase k])).IdsFit →
      Deletes H requests k (.erase k)) := by
  refine ⟨fun deletes => present ?_, erase_deletes H keysGiven keyGiven⟩
  have gone := deletes.gone
  rw [run_append] at gone
  exact gone

theorem set_nil_never_deletes_one_key :
    ¬ Deletes StateImpl.checksum [.set (text "a") (text "1")] (text "a") (.set (text "a") []) ∧
      Deletes StateImpl.checksum [.set (text "a") (text "1")] (text "a") (.erase (text "a")) :=
  (set_nil_never_deletes StateImpl.checksum [.set (text "a") (text "1")]
    (by decide) (text "a") (by decide) (by decide +kernel)).imp_right
    fun deletes => deletes (by unfold IdsFit; decide +kernel)

theorem set_nil_keeps_value :
    (create.run StateImpl.checksum
        [.set (text "a") (text "1"), .set (text "a") []]).get (text "a") =
      text "1" ∧
    (create.run StateImpl.checksum
        [.set (text "a") (text "1"), .set (text "a") []]).getNodeHash [] ≠
      create.getNodeHash [] := by
  decide +kernel

end StatePersistent

end AutomatonCore.State
