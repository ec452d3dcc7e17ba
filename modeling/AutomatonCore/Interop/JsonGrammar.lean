import AutomatonCore.Io.Decimal

/-!
# Literals and lists of JSON
-/

namespace AutomatonCore.Interop

open Io List

/-! ## Reading -/

def readCodeUnit : List UInt8 → Option (Nat × List UInt8)
  | first :: second :: third :: fourth :: rest => do
    let first ← hex2nibble first
    let second ← hex2nibble second
    let third ← hex2nibble third
    let fourth ← hex2nibble fourth
    some (((first.toNat * 16 + second.toNat) * 16 + third.toNat) * 16 + fourth.toNat, rest)
  | _ => none

def codePointBytes (number : Nat) : List UInt8 :=
  String.utf8EncodeChar (Char.ofNat number)

def shortEscape (c : UInt8) : Option UInt8 :=
  [((34 : UInt8), (34 : UInt8)), (92, 92), (47, 47), (98, 8), (102, 12),
    (110, 10), (114, 13), (116, 9)].lookup c

def readLowSurrogate (high : Nat) : List UInt8 → Option (List UInt8 × List UInt8)
  | 92 :: 117 :: digits => do
    let (low, rest) ← readCodeUnit digits
    if 0xDC00 ≤ low ∧ low < 0xE000 then
      some (codePointBytes (0x10000 + (high - 0xD800) * 0x400 + (low - 0xDC00)), rest)
    else none
  | _ => none

def readUnicodeEscape (digits : List UInt8) : Option (List UInt8 × List UInt8) := do
  let (unit, rest) ← readCodeUnit digits
  if 0xD800 ≤ unit ∧ unit < 0xDC00 then readLowSurrogate unit rest
  else if 0xDC00 ≤ unit ∧ unit < 0xE000 then none
  else some (codePointBytes unit, rest)

/-- Escape sequences stand for other characters. -/
def readEscape : List UInt8 → Option (List UInt8 × List UInt8)
  | [] => none
  | c :: rest =>
    if c = 117 then readUnicodeEscape rest
    else (shortEscape c).map fun byte => ([byte], rest)

/-- Quotation marks and control characters cannot stand for themselves. -/
def readCharacter : List UInt8 → Option (List UInt8 × List UInt8)
  | [] => none
  | c :: rest =>
    if c = 92 then readEscape rest
    else if c < 32 then none
    else some ([c], rest)

def readLiteralWithin : Nat → List UInt8 → Option (List UInt8 × List UInt8)
  | 0, _ => none
  | count + 1, input =>
    if input.head? = some 34 then some ([], input.tail)
    else do
      let (character, rest) ← readCharacter input
      let (value, rest) ← readLiteralWithin count rest
      some (character ++ value, rest)

def readLiteral (input : List UInt8) : Option (List UInt8 × List UInt8) :=
  readLiteralWithin input.length input

/-! ## Escape sequences -/

structure Escapes (sequence bytes : List UInt8) : Prop where
  short : bytes.length ≤ sequence.length
  quote : sequence = [34] ∧ bytes = [34] ∨ 34 ∉ sequence

variable {input rest bytes : List UInt8}

theorem readCodeUnit_spec {unit : Nat} (read : readCodeUnit input = some (unit, rest)) :
    ∃ digits, input = digits ++ rest ∧ digits.length = 4 ∧ 34 ∉ digits := by
  unfold readCodeUnit at read
  split at read
  next first second third fourth more =>
    simp only [Option.bind_eq_bind, Option.bind_eq_some_iff] at read
    obtain ⟨_, one, _, two, _, three, _, four, result⟩ := read
    obtain rfl : more = rest := (Prod.mk.inj (Option.some.inj result)).2
    refine ⟨[first, second, third, fourth], rfl, rfl, ?_⟩
    have differs {c v : UInt8} (digit : hex2nibble c = some v) : 34 ≠ c := by
      rintro rfl
      cases digit
    simp [differs one, differs two, differs three, differs four]
  · cases read

theorem length_codePointBytes_le (n : Nat) : (codePointBytes n).length ≤ 4 := by
  rw [codePointBytes, String.length_utf8EncodeChar]
  exact Char.utf8Size_le_four _

theorem readLowSurrogate_spec {high : Nat}
    (read : readLowSurrogate high input = some (bytes, rest)) :
    ∃ sequence, input = sequence ++ rest ∧ 4 ≤ sequence.length ∧
      bytes.length ≤ 4 ∧ 34 ∉ sequence := by
  unfold readLowSurrogate at read
  split at read
  · simp only [Option.bind_eq_bind, Option.bind_eq_some_iff] at read
    obtain ⟨⟨low, more⟩, unit, result⟩ := read
    obtain ⟨digits, rfl, four, noQuote⟩ := readCodeUnit_spec unit
    split at result
    · obtain ⟨rfl, rfl⟩ := Prod.mk.inj (Option.some.inj result)
      exact ⟨92 :: 117 :: digits, rfl, by simp [four],
        length_codePointBytes_le _, by simp [noQuote]⟩
    · cases result
  · cases read

theorem readUnicodeEscape_spec (read : readUnicodeEscape input = some (bytes, rest)) :
    ∃ sequence, input = sequence ++ rest ∧ 4 ≤ sequence.length ∧
      bytes.length ≤ 4 ∧ 34 ∉ sequence := by
  simp only [readUnicodeEscape, Option.bind_eq_bind, Option.bind_eq_some_iff] at read
  obtain ⟨⟨unit, more⟩, first, result⟩ := read
  obtain ⟨digits, rfl, four, noQuote⟩ := readCodeUnit_spec first
  split at result
  · obtain ⟨sequence, rfl, _, short, alsoNoQuote⟩ := readLowSurrogate_spec result
    exact ⟨digits ++ sequence, by simp, by simp; omega, short, by simp [noQuote, alsoNoQuote]⟩
  · split at result
    · cases result
    · cases result
      exact ⟨digits, rfl, four.ge, length_codePointBytes_le _, noQuote⟩

theorem readEscape_spec (read : readEscape input = some (bytes, rest)) :
    ∃ sequence, input = sequence ++ rest ∧ Escapes sequence bytes := by
  unfold readEscape at read
  split at read
  · cases read
  next c more =>
    split at read
    next unicode =>
      obtain ⟨sequence, rfl, long, short, noQuote⟩ := readUnicodeEscape_spec read
      refine ⟨c :: sequence, rfl, ?_, .inr ?_⟩
      · rw [length_cons]
        omega
      · simp [unicode, noQuote]
    · obtain ⟨b, escape, result⟩ := Option.map_eq_some_iff.mp read
      cases result
      refine ⟨[c], rfl, le_rfl, ?_⟩
      by_cases quote : c = 34
      · obtain rfl := quote
        obtain rfl : b = 34 := (Option.some.inj escape).symm
        exact .inl ⟨rfl, rfl⟩
      · exact .inr (by simp [Ne.symm quote])

/-! ## Literals of themselves -/

def Unescaped (value : List UInt8) : Prop :=
  ∀ c ∈ value, c ≠ 34 ∧ c ≠ 92 ∧ 32 ≤ c

instance (value : List UInt8) : Decidable (Unescaped value) :=
  inferInstanceAs (Decidable (∀ c ∈ value, c ≠ 34 ∧ c ≠ 92 ∧ 32 ≤ c))

theorem readLiteralWithin_unescaped {v : List UInt8}
    (unescaped : Unescaped v) (more : List UInt8) {count : Nat} (enough : v.length < count) :
    readLiteralWithin count (v ++ 34 :: more) = some (v, more) := by
  induction v generalizing count with
  | nil =>
    cases count with
    | zero => cases enough
    | succ count => rfl
  | cons c v ih =>
    obtain ⟨⟨noQuote, noBackslash, printable⟩, unescaped⟩ := forall_mem_cons.mp unescaped
    cases count with
    | zero => cases enough
    | succ count =>
      have later := ih unescaped (Nat.lt_of_succ_lt_succ enough)
      have character : readCharacter (c :: (v ++ 34 :: more)) = some ([c], v ++ 34 :: more) := by
        rw [readCharacter, if_neg noBackslash, if_neg (UInt8.not_lt.mpr printable)]
      rw [cons_append, readLiteralWithin, if_neg (by simp [noQuote]), character]
      simp [later]

theorem exists_eq_append_of_quote {more sequence after : List UInt8}
    (same : bytes ++ 34 :: more = sequence ++ after) (noQuote : 34 ∉ sequence) :
    ∃ left, bytes = sequence ++ left ∧ after = left ++ 34 :: more := by
  rcases append_eq_append_iff.mp same with
    ⟨reached, longer, split⟩ | ⟨left, shorter, split⟩
  · cases reached with
    | nil =>
      rw [append_nil] at longer
      exact ⟨[], by rw [longer, append_nil], split.symm⟩
    | cons c reached =>
      cases split
      rw [longer] at noQuote
      exact absurd (mem_append_right _ mem_cons_self) noQuote
  · exact ⟨left, shorter, split⟩

/-- A literal of bytes without a quotation mark ends at the next one, and
escape sequences make the value shorter; or this quotation mark is escaped, and
then it is in the value, but further to the front. -/
theorem readLiteralWithin_cases {count : Nat} {more v : List UInt8} (noQuote : 34 ∉ bytes)
    (read : readLiteralWithin count (bytes ++ 34 :: more) = some (v, rest)) :
    (rest = more ∧ v.length ≤ bytes.length ∧ (v.length = bytes.length → Unescaped bytes)) ∨
      ∃ i < bytes.length, v[i]? = some 34 := by
  induction count generalizing bytes v with
  | zero => cases read
  | succ count ih =>
    cases bytes with
    | nil =>
      cases read
      exact .inl ⟨rfl, le_rfl, fun _ => nofun⟩
    | cons c bytes =>
      obtain ⟨differs, noQuote⟩ := not_or.mp (mt mem_cons.mpr noQuote)
      rw [cons_append, readLiteralWithin, if_neg (by simp [Ne.symm differs])] at read
      simp only [Option.bind_eq_bind, Option.bind_eq_some_iff] at read
      obtain ⟨⟨character, after⟩, one, ⟨later, left⟩, others, result⟩ := read
      dsimp only at others result
      cases result
      rw [readCharacter] at one
      split at one
      · obtain ⟨sequence, same, short, quoted | plain⟩ := readEscape_spec one
        · obtain ⟨-, rfl⟩ := quoted
          exact .inr ⟨0, Nat.succ_pos _, rfl⟩
        · obtain ⟨remaining, rfl, rfl⟩ := exists_eq_append_of_quote same plain
          have noQuote : 34 ∉ remaining := fun mem => noQuote (mem_append_right _ mem)
          rw [length_cons, length_append, length_append]
          rcases ih noQuote others with
            ⟨ends, shorter, -⟩ | ⟨i, inside, quote⟩
          · exact .inl ⟨ends, by omega, by omega⟩
          · refine .inr ⟨character.length + i, by omega, ?_⟩
            rw [getElem?_append_right (Nat.le_add_right _ _), Nat.add_sub_cancel_left]
            exact quote
      next noBackslash =>
        split at one
        · cases one
        next printable =>
          cases one
          rcases ih noQuote others with
            ⟨same, short, plain⟩ | ⟨i, inside, quote⟩
          · refine .inl ⟨same, Nat.succ_le_succ short, ?_⟩
            intro equal
            refine forall_mem_cons.mpr
              ⟨⟨Ne.symm differs, noBackslash, UInt8.not_lt.mp printable⟩,
                plain (Nat.succ.inj equal)⟩
          · exact .inr ⟨i + 1, Nat.succ_lt_succ inside, quote⟩

/-- The bytes of a string between quotation marks are a literal of that string
only where there is nothing to escape. -/
theorem readLiteral_eq_iff (v more rest : List UInt8) :
    readLiteral (v ++ 34 :: more) = some (v, rest) ↔ Unescaped v ∧ rest = more := by
  constructor
  · intro read
    by_cases quoted : 34 ∈ v
    · obtain ⟨bytes, others, split, noQuote⟩ := eq_append_cons_of_mem quoted
      have shape : v ++ 34 :: more = bytes ++ 34 :: (others ++ 34 :: more) := by simp [split]
      rw [shape] at read
      rcases readLiteralWithin_cases noQuote read with
        ⟨-, short, -⟩ | ⟨i, inside, quote⟩
      · rw [split, length_append, length_cons] at short
        omega
      · rw [split, getElem?_append_left inside] at quote
        exact absurd (mem_of_getElem? quote) noQuote
    · rcases readLiteralWithin_cases quoted read with
        ⟨ends, -, plain⟩ | ⟨i, inside, quote⟩
      · exact ⟨plain rfl, ends⟩
      · exact absurd (mem_of_getElem? quote) quoted
  · rintro ⟨unescaped, rfl⟩
    apply readLiteralWithin_unescaped unescaped
    rw [length_append, length_cons]
    omega

/-! ## Lists -/

def isBlank (c : UInt8) : Bool :=
  c = 32 || c = 9 || c = 10 || c = 13

def skipBlanks (input : List UInt8) : List UInt8 :=
  input.dropWhile isBlank

theorem skipBlanks_cons {c : UInt8} (visible : isBlank c = false)
    (rest : List UInt8) : skipBlanks (c :: rest) = c :: rest :=
  dropWhile_cons_of_neg (by simp [visible])

section Separated

variable {α β : Type*}

/-- Items that are separated by commas are read one after the other. -/
def separated (item : List UInt8 → Option (β × List UInt8))
    (close : UInt8) : Nat → List UInt8 → Option (List β × List UInt8)
  | 0, _ => none
  | count + 1, input => do
    let (value, rest) ← item input
    let rest := skipBlanks rest
    if rest.head? = some 44 then do
      let (values, rest) ← separated item close count rest.tail
      some (value :: values, rest)
    else if rest.head? = some close then some ([value], rest.tail)
    else none

variable {item : List UInt8 → Option (β × List UInt8)} {close : UInt8}

variable {count : Nat} {input more : List UInt8} {values : List α}

theorem separated_last {v : β} (notComma : close ≠ 44) (visible : isBlank close = false)
    (read : item input = some (v, close :: more)) :
    separated item close (count + 1) input = some ([v], more) := by
  simp [separated, read, skipBlanks_cons visible, notComma]

theorem separated_comma {v : β} (read : item input = some (v, 44 :: more)) :
    separated item close (count + 1) input =
      (separated item close count more).map fun values => (v :: values.1, values.2) := by
  have visible : isBlank 44 = false := rfl
  cases later : separated item close count more <;>
    simp [separated, read, skipBlanks_cons visible, later]

theorem item_of_separated {rest : List UInt8} {first : β} {others : List β}
    (read : separated item close (count + 1) input = some (first :: others, rest)) :
    ∃ after, item input = some (first, after) := by
  simp only [separated, Option.bind_eq_bind, Option.bind_eq_some_iff] at read
  obtain ⟨⟨v, after⟩, one, result⟩ := read
  refine ⟨after, ?_⟩
  split at result
  · obtain ⟨more, -, same⟩ := Option.bind_eq_some_iff.mp result
    cases (Prod.mk.inj (Option.some.inj same)).1
    exact one
  · split at result
    · cases (Prod.mk.inj (Option.some.inj result)).1
      exact one
    · cases result

def listed (render : α → List UInt8) (values : List α) : List UInt8 :=
  List.intercalate [44] (values.map render)

variable {render : α → List UInt8}

@[simp]
theorem listed_singleton (v : α) : listed render [v] = render v := by simp [listed]

theorem listed_cons_cons (first second : α) (rest : List α) :
    listed render (first :: second :: rest) =
      render first ++ 44 :: listed render (second :: rest) := by
  simp [listed]

theorem length_le_listed {v : α} (mem : v ∈ values) :
    (render v).length ≤ (listed render values).length := by
  induction values with
  | nil => cases mem
  | cons first rest ih =>
    cases rest with
    | nil =>
      obtain rfl := mem_singleton.mp mem
      rw [listed_singleton]
    | cons second rest =>
      rw [listed_cons_cons, length_append, length_cons]
      rcases mem_cons.mp mem with rfl | later
      · omega
      · have bound := ih later
        omega

theorem length_le_succ_listed (values : List α) :
    values.length ≤ (listed render values).length + 1 := by
  induction values with
  | nil => exact Nat.zero_le _
  | cons first rest ih =>
    cases rest with
    | nil => exact Nat.le_add_left 1 _
    | cons second rest =>
      rw [listed_cons_cons, length_append]
      simp only [length_cons] at ih ⊢
      omega

theorem separated_listed (notComma : close ≠ 44) (visible : isBlank close = false)
    (ne : values ≠ []) {result : α → β}
    (reads : ∀ v ∈ values, ∀ more, item (render v ++ more) = some (result v, more))
    (enough : values.length ≤ count) (more : List UInt8) :
    separated item close count (listed render values ++ close :: more) =
      some (values.map result, more) := by
  induction values generalizing count with
  | nil => contradiction
  | cons first rest ih =>
    obtain ⟨here, later⟩ := forall_mem_cons.mp reads
    cases count with
    | zero => cases enough
    | succ count =>
      cases rest with
      | nil =>
        rw [listed_singleton]
        exact separated_last notComma visible (here _)
      | cons second rest =>
        rw [listed_cons_cons, append_assoc, cons_append, separated_comma (here _),
          ih (cons_ne_nil _ _) later (Nat.le_of_succ_le_succ enough)]
        rfl

theorem good_of_separated (notComma : close ≠ 44) (visible : isBlank close = false)
    {good : α → Prop} {spells : β → α → Prop}
    (reads : ∀ v ∈ values, ∀ more read rest,
      item (render v ++ more) = some (read, rest) → spells read v → good v ∧ rest = more)
    {rest : List UInt8} {elements : List β}
    (read : separated item close count (listed render values ++ close :: more) =
      some (elements, rest))
    (spelled : List.Forall₂ spells elements values) (ne : values ≠ []) :
    (∀ v ∈ values, good v) ∧ rest = more := by
  induction spelled generalizing count with
  | nil => contradiction
  | @cons elem first elements values spells others ih =>
    obtain ⟨here, later⟩ := forall_mem_cons.mp reads
    cases count with
    | zero => cases read
    | succ count =>
      obtain ⟨after, one⟩ := item_of_separated read
      cases others with
      | nil =>
        rw [listed_singleton] at one read
        obtain ⟨good, rfl⟩ := here _ _ _ one spells
        rw [separated_last notComma visible one] at read
        cases read
        exact ⟨by simpa using good, rfl⟩
      | @cons _ second _ values _ _ =>
        rw [listed_cons_cons, append_assoc] at one read
        obtain ⟨good, rfl⟩ := here _ _ _ one spells
        rw [separated_comma one] at read
        obtain ⟨⟨tail, left⟩, others, result⟩ := Option.map_eq_some_iff.mp read
        obtain ⟨items, rfl⟩ := Prod.mk.inj result
        cases items
        obtain ⟨others, ends⟩ := ih later others (cons_ne_nil _ _)
        exact ⟨forall_mem_cons.mpr ⟨good, others⟩, ends⟩

end Separated

end AutomatonCore.Interop
