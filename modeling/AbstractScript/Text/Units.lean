/-!
# UTF-16 code units

String lengths, indices and the order of strings are counted in UTF-16 code units, although a
string is held as a sequence of characters. A lone surrogate unit has no character of its own and
reads back as U+FFFD; the units of a string read back as that string (`ofUnits_units`).
-/
namespace AbstractScript.Text

/-- The code units of one character: one, or a high and a low surrogate. -/
def unitsOfChar (c : Char) : List UInt16 :=
  if c.toNat < 0x10000 then [c.toNat.toUInt16]
  else
    [(0xD800 + (c.toNat - 0x10000) / 0x400).toUInt16,
      (0xDC00 + (c.toNat - 0x10000) % 0x400).toUInt16]

/-- The code units of a string. -/
def units (s : String) : List UInt16 := s.toList.flatMap unitsOfChar

/-- The length of a string in code units. -/
def unitCount (s : String) : Nat :=
  s.toList.foldl (fun n c => if c.toNat < 0x10000 then n + 1 else n + 2) 0

/-- The length is the number of units. -/
theorem unitCount_eq_length (s : String) : unitCount s = (units s).length := by
  have count (cs : List Char) (n : Nat) :
      cs.foldl (fun n c => if c.toNat < 0x10000 then n + 1 else n + 2) n =
        n + (cs.flatMap unitsOfChar).length := by
    induction cs generalizing n with
    | nil => rfl
    | cons c cs ih =>
      rw [List.foldl_cons, ih, List.flatMap_cons, List.length_append, unitsOfChar]
      split <;> simp <;> omega
  rw [unitCount, count, Nat.zero_add, units]

/-- The character that stands for a surrogate unit without its partner. -/
def replacement : Char := '\uFFFD'

/-- A unit that begins a surrogate pair. -/
def isHighSurrogate (u : UInt16) : Bool := 0xD800 ≤ u && u < 0xDC00

/-- A unit that ends a surrogate pair. -/
def isLowSurrogate (u : UInt16) : Bool := 0xDC00 ≤ u && u < 0xE000

theorem isHighSurrogate_iff {u : UInt16} :
    isHighSurrogate u = true ↔ 0xD800 ≤ u.toNat ∧ u.toNat < 0xDC00 := by
  simp [isHighSurrogate, UInt16.le_iff_toNat_le, UInt16.lt_iff_toNat_lt]

theorem isLowSurrogate_iff {u : UInt16} :
    isLowSurrogate u = true ↔ 0xDC00 ≤ u.toNat ∧ u.toNat < 0xE000 := by
  simp [isLowSurrogate, UInt16.le_iff_toNat_le, UInt16.lt_iff_toNat_lt]

/-- The character of a surrogate pair. -/
def ofSurrogates (high low : UInt16) : Char :=
  Char.ofNat (0x10000 + (high.toNat - 0xD800) * 0x400 + (low.toNat - 0xDC00))

/-- The character of a unit that is not part of a pair. -/
def ofLoneUnit (u : UInt16) : Char :=
  if isHighSurrogate u || isLowSurrogate u then replacement else Char.ofNat u.toNat

/-- Reads code units as characters: a high unit followed by a low unit is one character, any other
surrogate unit is U+FFFD. -/
def charsOfUnits : List UInt16 → List Char
  | [] => []
  | [u] => [ofLoneUnit u]
  | u :: v :: rest =>
    if isHighSurrogate u && isLowSurrogate v then ofSurrogates u v :: charsOfUnits rest
    else ofLoneUnit u :: charsOfUnits (v :: rest)

/-- The string that a list of code units reads as. -/
def ofUnits (us : List UInt16) : String := String.ofList (charsOfUnits us)

/-- The units of a character read as that character, whatever follows them. -/
theorem charsOfUnits_unitsOfChar_append (c : Char) (us : List UInt16) :
    charsOfUnits (unitsOfChar c ++ us) = c :: charsOfUnits us := by
  have valid : c.toNat < 0xD800 ∨ 0xDFFF < c.toNat ∧ c.toNat < 0x110000 := c.valid
  unfold unitsOfChar
  split
  next small =>
    have unit : (c.toNat.toUInt16).toNat = c.toNat := by
      rw [Nat.toUInt16, UInt16.toNat_ofNat', Nat.mod_eq_of_lt (by omega)]
    have notHigh : isHighSurrogate c.toNat.toUInt16 = false := by
      rw [Bool.eq_false_iff, ne_eq, isHighSurrogate_iff, unit]
      omega
    have notLow : isLowSurrogate c.toNat.toUInt16 = false := by
      rw [Bool.eq_false_iff, ne_eq, isLowSurrogate_iff, unit]
      omega
    -- a unit that is no surrogate is a character by itself
    have lone : ofLoneUnit c.toNat.toUInt16 = c := by
      simp [ofLoneUnit, notHigh, notLow, unit]
    cases us <;> simp [charsOfUnits, notHigh, lone]
  next big =>
    have high : (0xD800 + (c.toNat - 0x10000) / 0x400).toUInt16.toNat =
        0xD800 + (c.toNat - 0x10000) / 0x400 := by
      rw [Nat.toUInt16, UInt16.toNat_ofNat', Nat.mod_eq_of_lt (by omega)]
    have low : (0xDC00 + (c.toNat - 0x10000) % 0x400).toUInt16.toNat =
        0xDC00 + (c.toNat - 0x10000) % 0x400 := by
      rw [Nat.toUInt16, UInt16.toNat_ofNat', Nat.mod_eq_of_lt (by omega)]
    have isHigh := isHighSurrogate_iff.2 (by rw [high]; omega)
    have isLow := isLowSurrogate_iff.2 (by rw [low]; omega)
    have code : 0x10000 + (0xD800 + (c.toNat - 0x10000) / 0x400 - 0xD800) * 0x400 +
        (0xDC00 + (c.toNat - 0x10000) % 0x400 - 0xDC00) = c.toNat := by omega
    rw [List.cons_append, List.singleton_append, charsOfUnits, isHigh, isLow, ofSurrogates, high,
      low, code, Char.ofNat_toNat]
    rfl

theorem charsOfUnits_flatMap (cs : List Char) : charsOfUnits (cs.flatMap unitsOfChar) = cs := by
  induction cs with
  | nil => rfl
  | cons c cs ih => rw [List.flatMap_cons, charsOfUnits_unitsOfChar_append, ih]

/-- A string is read back from its code units. -/
theorem ofUnits_units (s : String) : ofUnits (units s) = s := by
  rw [ofUnits, units, charsOfUnits_flatMap, String.ofList_toList]

/-- The string of a single code unit. -/
def ofUnit (u : UInt16) : String := String.singleton (ofLoneUnit u)

/-- Order of strings by their code units. -/
def compareUnits (s t : String) : Ordering := order (units s) (units t)
where
  /-- Lexicographic order of two unit lists. -/
  order : List UInt16 → List UInt16 → Ordering
    | [], [] => .eq
    | [], _ => .lt
    | _, [] => .gt
    | u :: us, v :: vs => if u < v then .lt else if v < u then .gt else order us vs

/-! ## Search -/

/-- The units from position `i` up to position `j`; none unless both lie in the text in this
order. -/
def slice? (text : Array UInt16) (i j : Nat) : Option (Array UInt16) :=
  if i ≤ j ∧ j ≤ text.size then some (text.extract i j) else none

/-- The positions from `start` on at which `width` units are compared with a text of `length`
units. The subtraction stops at zero, so that a search longer than the text leaves one position,
which the filter removes. -/
def candidates (length width start : Nat) : List Nat :=
  (List.range' start (length - width + 1 - start)).filter (· + width ≤ length)

/-- The first candidate position whose slice of the text is `search`. -/
def indexOf? (text search : Array UInt16) (start : Nat) : Option Nat :=
  (candidates text.size search.size start).find? fun i =>
    slice? text i (i + search.size) == some search

theorem mem_candidates {length width start i : Nat} :
    i ∈ candidates length width start ↔ start ≤ i ∧ i + width ≤ length := by
  simp only [candidates, List.mem_filter, List.mem_range'_1, decide_eq_true_eq]
  omega

theorem pairwise_candidates (length width start : Nat) :
    (candidates length width start).Pairwise (· < ·) :=
  (List.pairwise_lt_range' (s := start) 1).filter _

/-- A slice is taken exactly if its end lies in the text. -/
theorem isSome_slice?_iff {text : Array UInt16} {i width : Nat} :
    (slice? text i (i + width)).isSome ↔ i + width ≤ text.size := by
  simp [slice?]

/-- A slice is a given list of units exactly if the text has that list at its position. -/
theorem slice?_eq_some_iff {text search : Array UInt16} {i : Nat} :
    slice? text i (i + search.size) = some search ↔
      ∃ before after, text.toList = before ++ search.toList ++ after ∧ before.length = i := by
  constructor
  · intro h
    have inside : i + search.size ≤ text.size := isSome_slice?_iff.1 (by rw [h]; rfl)
    have middle : (text.toList.drop i).take search.size = search.toList := by
      rw [slice?, if_pos ⟨Nat.le_add_right .., inside⟩, Option.some_inj] at h
      rw [← congrArg Array.toList h, Array.toList_extract, List.extract_eq_take_drop,
        Nat.add_sub_cancel_left]
    refine ⟨text.toList.take i, text.toList.drop (i + search.size), ?_, ?_⟩
    · rw [← middle, ← List.drop_drop, List.append_assoc, List.take_append_drop,
        List.take_append_drop]
    · rw [List.length_take, Array.length_toList]
      omega
  · rintro ⟨before, after, parts, rfl⟩
    have size : text.size = before.length + search.size + after.length := by
      have counted := congrArg List.length parts
      simpa only [List.length_append, Array.length_toList] using counted
    rw [slice?, if_pos (by omega), Option.some_inj]
    apply Array.toList_inj.1
    rw [Array.toList_extract, List.extract_eq_take_drop, parts, Nat.add_sub_cancel_left,
      List.append_assoc, List.drop_left, ← Array.length_toList, List.take_left]

end AbstractScript.Text
