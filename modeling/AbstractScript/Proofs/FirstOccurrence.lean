import AbstractScript.Builtin.Primitives
import AbstractScript.Proofs.WholeNumbers
import Mathlib.Order.Bounds.Basic

/-!
# The first occurrence of a text

A search compares the slices of a text from a start position on and answers with the position of the
first one that is the text looked for. `indexIn_first` says what it answers in terms of the text
alone: the least position from the start on at which the text occurs, and minus one exactly if there
is none. No slice reaches beyond the text, however long the text looked for is.
-/
namespace AbstractScript

namespace Text

/-- A text stands in another one with `i` units before it. -/
def OccursAt (text search : List UInt16) (i : Nat) : Prop :=
  ∃ before after, text = before ++ search ++ after ∧ before.length = i

variable {text search : List UInt16} {start i : Nat}

theorem OccursAt.bounded (h : OccursAt text search i) : i + search.length ≤ text.length := by
  obtain ⟨before, after, rfl, rfl⟩ := h
  simp only [List.length_append]
  omega

theorem slice?_toArray_eq_some_iff :
    slice? text.toArray i (i + search.toArray.size) = some search.toArray ↔
      OccursAt text search i :=
  slice?_eq_some_iff

/-- An occurrence is at a candidate position. -/
theorem OccursAt.mem_candidates (h : OccursAt text search i) (reached : start ≤ i) :
    i ∈ candidates text.length search.length start :=
  Text.mem_candidates.2 ⟨reached, h.bounded⟩

/-- What is found is the least occurrence: the candidates before it have been compared. -/
theorem isLeast_of_indexOf? (found : indexOf? text.toArray search.toArray start = some i) :
    IsLeast {j | start ≤ j ∧ OccursAt text search j} i := by
  obtain ⟨same, passed, later, parts, differ⟩ := List.find?_eq_some_iff_append.1 found
  have listed : i ∈ candidates text.length search.length start :=
    List.mem_of_find?_eq_some found
  constructor
  · exact ⟨(mem_candidates.1 listed).1, slice?_toArray_eq_some_iff.1 (beq_iff_eq.1 same)⟩
  · rintro j ⟨reached, occurs⟩
    -- the positions are tried in order, and those before the found one do not fit
    have increasing := pairwise_candidates text.length search.length start
    have member := occurs.mem_candidates reached
    rw [List.size_toArray, List.size_toArray] at parts
    rw [parts] at increasing member
    rcases List.mem_append.1 member with before | behind
    · have unequal := differ j before
      rw [beq_iff_eq.2 (slice?_toArray_eq_some_iff.2 occurs)] at unequal
      contradiction
    · rcases List.mem_cons.1 behind with rfl | behind
      · exact le_rfl
      · have increasing := (List.pairwise_append.1 increasing).2.1
        exact Nat.le_of_lt ((List.pairwise_cons.1 increasing).1 j behind)

/-- Nothing is found exactly if the text occurs nowhere from the start on. -/
theorem indexOf?_eq_none_iff :
    indexOf? text.toArray search.toArray start = none ↔
      ∀ j, start ≤ j → ¬ OccursAt text search j := by
  constructor
  · intro missing j reached occurs
    have differ := List.find?_eq_none.1 missing j (occurs.mem_candidates reached)
    exact differ (beq_iff_eq.2 (slice?_toArray_eq_some_iff.2 occurs))
  · intro nowhere
    refine List.find?_eq_none.2 fun j listed same => ?_
    have reached : start ≤ j := (mem_candidates.1 listed).1
    exact nowhere j reached (slice?_toArray_eq_some_iff.1 (beq_iff_eq.1 same))

/-- The least occurrence is found. -/
theorem indexOf?_eq_some_iff :
    indexOf? text.toArray search.toArray start = some i ↔
      IsLeast {j | start ≤ j ∧ OccursAt text search j} i := by
  refine ⟨isLeast_of_indexOf?, fun least => ?_⟩
  match found : indexOf? text.toArray search.toArray start with
  | none => exact absurd least.1.2 (indexOf?_eq_none_iff.1 found i least.1.1)
  | some j => rw [(isLeast_of_indexOf? found).unique least]

end Text

namespace Builtin
open Text

/-- No position is written as minus one: a length read from it would be zero, and so would the
position. -/
theorem nat_ne_minusOne (i : Nat) : Value.nat i ≠ .number (-1) := by
  intro same
  have float : Float.ofNat i = -1 := Value.number.inj same
  have length : Number.clampLength (-1) = 0 := by decide +kernel
  have read := Number.clampLength_ofNat i
  rw [float, length] at read
  have positive : 0 < Number.maxLength := by decide
  obtain rfl : i = 0 := by omega
  have different : Float.ofNat 0 ≠ -1 := by
    intro equal
    have bits := congrArg Float.toBits equal
    revert bits
    decide +kernel
  exact different float

/-- **A search finds the first match.** From the start position, moved into the text, it answers
with the least position at which the text looked for occurs, and with minus one exactly if there is
none; every slice that it compares lies in the text. -/
theorem indexIn_first (text search : List UInt16) (start : Float) :
    let p := clampPosition text.length start
    (p : Int) = max 0 (min (Number.truncate start) text.length) ∧
    (∀ i, IsLeast {j | p ≤ j ∧ OccursAt text search j} i →
      indexIn text search start = .nat i) ∧
    (indexIn text search start = .number (-1) ↔ ∀ j, p ≤ j → ¬ OccursAt text search j) ∧
    (∀ i ∈ candidates text.length search.length p,
      (slice? text.toArray i (i + search.length)).isSome) := by
  intro p
  refine ⟨?_, ?_, ?_, ?_⟩
  · show ((min (Number.truncate start).toNat text.length : Nat) : Int) = _
    omega
  · intro i least
    rw [indexIn, indexOf?_eq_some_iff.2 least]
  · rw [← indexOf?_eq_none_iff, indexIn]
    constructor
    · intro missing
      split at missing
      next i _ => exact absurd missing (nat_ne_minusOne i)
      next nothing => exact nothing
    · intro nothing
      rw [nothing]
  · intro i listed
    exact isSome_slice?_iff.2 (mem_candidates.1 listed).2

/-- The empty text is found at the end, where the start is moved to; a longer text is not found. -/
example : indexIn [97, 98] [] 5 = .nat 2 ∧ indexIn [97, 98] [97, 98, 97] 0 = .number (-1) := by
  decide +kernel

end Builtin

end AbstractScript
