import AutomatonCore.Io.Decimal
import AutomatonCore.Network.SimulatedConnection

/-!
# Addresses of simulated endpoints
-/

namespace AutomatonCore.Network

open Io List

/-- The text before and after the last `://` that is not at the end. -/
def splitProtocol : Bytes → Option (Bytes × Bytes)
  | [] => none
  | c :: rest =>
    match splitProtocol rest with
    | some (before, after) => some (c :: before, after)
    | none =>
      if (text "://").isPrefixOf (c :: rest) ∧ (c :: rest).drop 3 ≠ [] then
        some ([], (c :: rest).drop 3)
      else none

/-- `address_parser`, the match with `(.+)://(.+)`: a dot stands for anything
but the end of a line. -/
def addressParser (address : Bytes) : Option (Bytes × Bytes) :=
  if address.any fun c => c = 10 || c = 13 then none
  else
    match splitProtocol address with
    | none => none
    | some (protocol, rest) =>
      if protocol = [] then none else some (protocol, rest)

/-- The match with `(\d+):(\d+):…` and `std::stoul` of the groups, which
throws if a number has more than 64 bits. -/
def numbers (address : Bytes) : Option (List Nat) :=
  let groups := address.splitOn 58
  if groups.all fun group =>
      group ≠ [] && group.all isDigit && digitsValue group < 2 ^ 64 then
    some (groups.map digitsValue)
  else none

/-- `sim://1:20:10000:5` is the address of a connection. -/
def parseConnectionAddress (address : Bytes) : Option (ConnectionParams × Nat) :=
  match numbers address with
  | some [minLag, maxLag, bandwidth, remote] =>
    if minLag ≤ maxLag then
      some (⟨minLag % 2 ^ 32, maxLag % 2 ^ 32, bandwidth % 2 ^ 32⟩, remote % 2 ^ 32)
    else none
  | _ => none

/-- `parse_address` of an acceptor: the bandwidth and the address.  The number
of connections, which comes first, is not used. -/
def parseAcceptorAddress (address : Bytes) : Option (Nat × Nat) :=
  match numbers address with
  | some [_, bandwidth, place] => some (bandwidth % 2 ^ 32, place % 2 ^ 32)
  | _ => none

theorem splitProtocol_eq_none {addr : Bytes} (noSlash : (47 : UInt8) ∉ addr) :
    splitProtocol addr = none := by
  induction addr with
  | nil => rfl
  | cons c rest ih =>
    rw [mem_cons, not_or] at noSlash
    have notHere : ¬(text "://").isPrefixOf (c :: rest) = true := by
      cases rest with
      | nil => simp [text, isPrefixOf]
      | cons next others =>
        have other : (47 : UInt8) ≠ next := fun same => noSlash.2 (same ▸ mem_cons_self)
        intro found
        rw [List.isPrefixOf_iff_prefix] at found
        obtain ⟨_, found⟩ := found
        injection found with _ found
        injection found with same _
        exact other same
    simp only [splitProtocol, ih noSlash.2]
    rw [if_neg fun both => notHere both.1]

variable {rest : Bytes} {values : List Nat}

theorem splitProtocol_cons {c : UInt8} (notColon : c ≠ 58)
    (later : splitProtocol rest = none) : splitProtocol (c :: rest) = none := by
  have notHere : ¬(text "://").isPrefixOf (c :: rest) = true := by
    intro found
    rw [List.isPrefixOf_iff_prefix] at found
    obtain ⟨_, found⟩ := found
    injection found with same _
    exact notColon same.symm
  simp only [splitProtocol, later]
  rw [if_neg fun both => notHere both.1]

theorem addressParser_sim (ne : rest ≠ [])
    (oneLine : ∀ c ∈ rest, c ≠ 10 ∧ c ≠ 13) (noSlash : (47 : UInt8) ∉ rest) :
    addressParser (text "sim://" ++ rest) = some (text "sim", rest) := by
  have split : splitProtocol (text "sim://" ++ rest) = some (text "sim", rest) := by
    have slashes : splitProtocol (47 :: 47 :: rest) = none :=
      splitProtocol_cons (by decide)
        (splitProtocol_cons (by decide) (splitProtocol_eq_none noSlash))
    have colon : splitProtocol (58 :: 47 :: 47 :: rest) = some ([], rest) := by
      rw [splitProtocol, slashes]
      exact if_pos ⟨rfl, ne⟩
    change splitProtocol (115 :: 105 :: 109 :: 58 :: 47 :: 47 :: rest) = _
    simp only [splitProtocol.eq_2 115, splitProtocol.eq_2 105, splitProtocol.eq_2 109, colon]
    rfl
  have noBreak : ¬((text "sim://" ++ rest).any fun c => c = 10 || c = 13) = true := by
    intro broken
    obtain ⟨c, mem, breaks⟩ := any_eq_true.mp broken
    have noProtocolBreak : ∀ c ∈ text "sim://", ¬(c = 10 || c = 13) = true := by decide +kernel
    rcases mem_append.mp mem with mem | mem
    · exact noProtocolBreak c mem breaks
    · simp_all
  rw [addressParser, if_neg noBreak, split]
  rfl

theorem splitOn_numbers (ne : values ≠ []) :
    (intercalate [58] (values.map decimal)).splitOn 58 = values.map decimal := by
  apply splitOn_intercalate
  · intro group mem colon
    obtain ⟨v, _, rfl⟩ := mem_map.mp mem
    exact absurd (isDigit_of_mem_decimal colon) (by decide)
  · simpa using ne

theorem numbers_intercalate (ne : values ≠ []) (fit : ∀ v ∈ values, v < 2 ^ 64) :
    numbers (intercalate [58] (values.map decimal)) = some values := by
  have digits : (values.map decimal).all (fun group =>
        group ≠ [] && group.all isDigit && digitsValue group < 2 ^ 64) = true := by
    simp only [all_map, all_eq_true, Function.comp_apply, Bool.and_eq_true, decide_eq_true_eq]
    intro v mem
    refine ⟨⟨decimal_ne_nil v, ?_⟩, ?_⟩
    · intro c
      exact isDigit_of_mem_decimal
    · rw [digitsValue_decimal]
      exact fit v mem
  simp only [numbers, splitOn_numbers ne]
  rw [if_pos digits, map_map]
  congr 1
  refine (map_congr_left fun v _ => ?_).trans (map_id values)
  exact digitsValue_decimal v

theorem addressParser_numbers (first : Nat) (others : List Nat) :
    addressParser (text "sim://" ++ intercalate [58] ((first :: others).map decimal)) = some
        (text "sim", intercalate [58] ((first :: others).map decimal)) := by
  have characters :
      ∀ c ∈ intercalate [58] ((first :: others).map decimal), c = 58 ∨ isDigit c = true := by
    induction others generalizing first with
    | nil =>
      intro c mem
      rw [map_cons, map_nil, intercalate_singleton] at mem
      exact .inr (isDigit_of_mem_decimal mem)
    | cons next others ih =>
      intro c mem
      rw [map_cons, map_cons, intercalate_cons_cons, ← map_cons, mem_append, mem_append] at mem
      rcases mem with (mem | mem) | mem
      · exact .inr (isDigit_of_mem_decimal mem)
      · exact .inl (mem_singleton.mp mem)
      · exact ih next c mem
  have others : ∀ c : UInt8, c = 58 ∨ isDigit c = true → c ≠ 10 ∧ c ≠ 13 ∧ c ≠ 47 := by
    apply forall_byte
    decide +kernel
  apply addressParser_sim
  · intro empty
    have numbers := congrArg (splitOn (58 : UInt8)) empty
    rw [splitOn_numbers (cons_ne_nil _ _)] at numbers
    exact decimal_ne_nil first (List.cons.inj numbers).1
  · intro c mem
    have other := others c (characters c mem)
    exact ⟨other.1, other.2.1⟩
  · intro mem
    exact (others 47 (characters 47 mem)).2.2 rfl

end AutomatonCore.Network
