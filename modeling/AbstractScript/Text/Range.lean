/-!
# Character ranges

A property of characters is given by the sorted list of the code point ranges that have it. In a
sorted list a code point is looked for up to the first range above it (`inRanges_iff`).
-/
namespace AbstractScript.Text

/-- True if `n` lies in one of `ranges`, which are sorted and disjoint. -/
def inRanges : List (Nat × Nat) → Nat → Bool
  | [], _ => false
  | (low, high) :: rest, n => if n < low then false else n ≤ high || inRanges rest n

/-- Ranges are sorted and disjoint. -/
def isSorted : List (Nat × Nat) → Bool
  | [] => true
  | [(low, high)] => low ≤ high
  | (low, high) :: (low', high') :: rest =>
    low ≤ high && high < low' && isSorted ((low', high') :: rest)

theorem sorted_tail {r : Nat × Nat} {rest : List (Nat × Nat)} (h : isSorted (r :: rest) = true) :
    isSorted rest = true := by
  cases rest with
  | nil => rfl
  | cons s rest =>
    rw [isSorted, Bool.and_eq_true] at h
    exact h.2

/-- Every range begins at or above the start of the first one. -/
theorem start_le_of_sorted {low high : Nat} {rest : List (Nat × Nat)}
    (h : isSorted ((low, high) :: rest) = true) : ∀ r ∈ (low, high) :: rest, low ≤ r.1 := by
  induction rest generalizing low high with
  | nil => simp
  | cons s rest ih =>
    obtain ⟨low', high'⟩ := s
    have above := ih (sorted_tail h)
    simp only [isSorted, Bool.and_eq_true, decide_eq_true_eq] at h
    intro r hr
    rcases List.mem_cons.1 hr with rfl | hr
    · exact Nat.le_refl _
    · have := above r hr
      omega

/-- A code point lies in sorted ranges if it lies in one of them. -/
theorem inRanges_iff {ranges : List (Nat × Nat)} {n : Nat} (h : isSorted ranges = true) :
    inRanges ranges n = true ↔ ∃ r ∈ ranges, r.1 ≤ n ∧ n ≤ r.2 := by
  induction ranges with
  | nil => simp [inRanges]
  | cons r rest ih =>
    obtain ⟨low, high⟩ := r
    rw [inRanges]
    split
    next below =>
      simp only [Bool.false_eq_true, false_iff, not_exists, not_and]
      intro r hr _
      have := start_le_of_sorted h r hr
      omega
    next above =>
      simp only [Bool.or_eq_true, decide_eq_true_eq, ih (sorted_tail h), List.mem_cons,
        exists_eq_or_imp]
      have : low ≤ n := Nat.not_lt.1 above
      simp [this]

/-! ## Blank characters

White space and line terminators at the ends of a text that is read.
-/

/-- Code points with the Unicode property White_Space. -/
def whiteSpaceRanges : List (Nat × Nat) :=
  [(0x9, 0xd), (0x20, 0x20), (0x85, 0x85), (0xa0, 0xa0), (0x1680, 0x1680), (0x2000, 0x200a),
  (0x2028, 0x2029), (0x202f, 0x202f), (0x205f, 0x205f), (0x3000, 0x3000)]

/-- White space, as removed around the words of an option. -/
def isWhiteSpace (c : Char) : Bool := inRanges whiteSpaceRanges c.toNat

/-- White space or a byte order mark, as removed around numerals in strings. -/
def isBlank (c : Char) : Bool := isWhiteSpace c || c = '\ufeff'

theorem sorted_whiteSpaceRanges : isSorted whiteSpaceRanges = true := by decide

/-- The white space of ASCII is white space. -/
theorem isWhiteSpace_of_isWhitespace {c : Char} (h : c.isWhitespace = true) :
    isWhiteSpace c = true := by
  simp only [Char.isWhitespace, Bool.or_eq_true, decide_eq_true_eq] at h
  rcases h with ((rfl | rfl) | rfl) | rfl <;> decide

/-- Removes the characters with property `p` at both ends. -/
def trimBy (p : Char → Bool) (cs : List Char) : List Char :=
  ((cs.dropWhile p).reverse.dropWhile p).reverse

/-- Removes white space at both ends. -/
def trim (s : String) : String := String.ofList (trimBy isWhiteSpace s.toList)

end AbstractScript.Text
