import AbstractScript.Proofs.MatchingSteps
import Mathlib.Data.String.Basic

/-!
# Where tokens stand

The tokens that a pattern gives stand one after another in the source text, between the place where
the match begins and the place where it ends, and the tokens of a node stand inside the node. The
text of a word is the text at its span.
-/
namespace AbstractScript.Grammar

variable {R : Type} {source : String}

/-! ## Places in a source text -/

/-- The bytes of a text are the bytes of its string. -/
theorem Cursor.bytes_eq_utf8Len (cs : List Char) : bytes cs = String.utf8Len cs := by
  induction cs with
  | nil => rfl
  | cons c cs ih =>
    rw [String.utf8Len_cons, ← ih, bytes, bytes, List.map_cons, List.sum_cons, Nat.add_comm]

/-- A place in a source text. -/
def Cursor.IsIn (source : String) (c : Cursor) : Prop :=
  ∃ front, (ofChars source.toList).Reads front c

namespace Cursor

variable {a b c : Cursor} {front : List Char}

/-- The beginning of a source text. -/
theorem isIn_ofChars (source : String) : (ofChars source.toList).IsIn source := ⟨[], .refl _⟩

/-- What stands further on in a source text. -/
theorem IsIn.reads (h : a.IsIn source) (reads : a.Reads front b) : b.IsIn source := by
  obtain ⟨before, reads'⟩ := h
  exact ⟨before ++ front, reads'.trans reads⟩

/-- A text takes up its bytes. -/
theorem Reads.offset (reads : a.Reads front b) :
    b.position.offset = a.position.offset + bytes front := by
  rw [reads.position, offset_advanceAll]

/-- A place in a source text is not after its end. -/
theorem IsIn.offset_le (h : c.IsIn source) : c.position.offset ≤ source.utf8ByteSize := by
  obtain ⟨before, reads⟩ := h
  have offset : c.position.offset = bytes before := reads.offset.trans (Nat.zero_add _)
  have whole : source.toList = before ++ c.rest := reads.text
  have size : source.utf8ByteSize = bytes before + bytes c.rest := by
    rw [← String.ofList_toList (s := source), String.utf8ByteSize_ofList, whole,
      String.utf8Len_append, bytes_eq_utf8Len, bytes_eq_utf8Len]
  omega

/-- The text between two places of a source text is what its bytes there say. -/
theorem IsIn.slice (h : a.IsIn source) (reads : a.Reads front b) :
    Token.slice source a.position.offset b.position.offset = String.ofList front := by
  obtain ⟨before, reads'⟩ := h
  have start : a.position.offset = String.utf8Len before := by
    rw [← bytes_eq_utf8Len]
    exact reads'.offset.trans (Nat.zero_add _)
  have stop : b.position.offset = String.utf8Len before + String.utf8Len front := by
    rw [reads.offset, start, bytes_eq_utf8Len]
  have whole : source = String.ofList (before ++ front ++ b.rest) := by
    rw [List.append_assoc, ← reads.text]
    exact String.toList_inj.1 (by rw [String.toList_ofList]; exact reads'.text)
  rw [Token.slice, start, stop, whole]
  exact String.extract_of_valid before front b.rest

end Cursor

/-! ## Tokens one after another -/

/-- The tokens stand one after another between two offsets of a source text, and so do the tokens
inside each node. Words stand where their text is. Tokens of rules that take characters are not
empty. -/
inductive Token.LaidOut (ρ : Ranking R) (source : String) : Nat → Nat → List (Token R) → Prop
  | nil {low high : Nat} (le : low ≤ high) (bounded : high ≤ source.utf8ByteSize) :
    LaidOut ρ source low high []
  | word {low high : Nat} {r : R} {span : Span} {text : String} {ts : List (Token R)}
    (after : low ≤ span.start) (forward : span.start ≤ span.stop)
    (nonempty : ρ.takes r = true → span.start < span.stop)
    (read : Token.slice source span.start span.stop = text)
    (rest : LaidOut ρ source span.stop high ts) :
    LaidOut ρ source low high (.word r span text :: ts)
  | node {low high : Nat} {r : R} {span : Span} {inside ts : List (Token R)}
    (after : low ≤ span.start) (nonempty : ρ.takes r = true → span.start < span.stop)
    (parts : LaidOut ρ source span.start span.stop inside)
    (rest : LaidOut ρ source span.stop high ts) :
    LaidOut ρ source low high (.node r span inside :: ts)

namespace Token.LaidOut

variable {ρ : Ranking R} {low mid high : Nat} {t : Token R} {ts us : List (Token R)}

theorem le (h : LaidOut ρ source low high ts) : low ≤ high := by
  induction h with
  | nil le => exact le
  | word after forward _ _ _ rest => omega
  | node after _ _ _ parts rest => omega

theorem bounded (h : LaidOut ρ source low high ts) : high ≤ source.utf8ByteSize := by
  induction h with
  | nil _ bounded => exact bounded
  | word _ _ _ _ _ rest => exact rest
  | node _ _ _ _ _ rest => exact rest

/-- There may be other text before the tokens. -/
theorem mono {low' : Nat} (h : LaidOut ρ source low high ts) (before : low' ≤ low) :
    LaidOut ρ source low' high ts := by
  cases h with
  | nil le bounded => exact .nil (Nat.le_trans before le) bounded
  | word after forward nonempty read rest =>
    exact .word (Nat.le_trans before after) forward nonempty read rest
  | node after nonempty parts rest => exact .node (Nat.le_trans before after) nonempty parts rest

/-- Tokens and then further tokens. -/
theorem append (first : LaidOut ρ source low mid ts) (second : LaidOut ρ source mid high us) :
    LaidOut ρ source low high (ts ++ us) := by
  induction first with
  | nil le => exact second.mono le
  | word after forward nonempty read _ rest =>
    exact .word after forward nonempty read (rest second)
  | node after nonempty parts _ _ rest => exact .node after nonempty parts (rest second)

/-- Some of the tokens. -/
theorem filter (h : LaidOut ρ source low high ts) (p : Token R → Bool) :
    LaidOut ρ source low high (ts.filter p) := by
  induction h with
  | nil le bounded => exact .nil le bounded
  | word after forward nonempty read _ ih =>
    rw [List.filter_cons]
    split
    · exact .word after forward nonempty read ih
    · exact ih.mono (Nat.le_trans after forward)
  | node after nonempty parts _ _ ih =>
    rw [List.filter_cons]
    split
    · exact .node after nonempty parts ih
    · exact ih.mono (Nat.le_trans after parts.le)

/-- The first token and then the others. -/
theorem uncons (h : LaidOut ρ source low high (t :: ts)) :
    LaidOut ρ source low t.span.stop [t] ∧ LaidOut ρ source t.span.stop high ts := by
  cases h with
  | word after forward nonempty read rest =>
    have ended := Nat.le_trans rest.le rest.bounded
    exact ⟨.word after forward nonempty read (.nil (Nat.le_refl _) ended), rest⟩
  | node after nonempty parts rest =>
    exact ⟨.node after nonempty parts (.nil (Nat.le_refl _) parts.bounded), rest⟩

end Token.LaidOut

/-! ## What patterns give -/

section

variable {g : RuleSet R} {ρ : Ranking R}

/-- A match of a pattern that takes characters ends further on. -/
theorem Gives.offset_lt (sound : ρ.IsSound g) {w : Bool} {p : Pattern R} {c c' : Cursor}
    {ts : List (Token R)} (h : Gives g w (.once p) c (some (ts, c'))) (takes : p.takes ρ = true) :
    c.position.offset < c'.position.offset := by
  obtain ⟨front, reads⟩ := h.reads
  have shorter := h.length_lt sound takes
  rw [reads.offset, Cursor.bytes_eq_utf8Len]
  cases front with
  | nil =>
    rw [reads.text] at shorter
    exact absurd shorter (Nat.lt_irrefl _)
  | cons x front =>
    have := x.utf8Size_pos
    rw [String.utf8Len_cons]
    omega

/-- A match ends where it begins or further on. -/
theorem Gives.offset_le {w : Bool} {goal : Goal R} {c c' : Cursor} {ts : List (Token R)}
    (h : Gives g w goal c (some (ts, c'))) : c.position.offset ≤ c'.position.offset := by
  obtain ⟨front, reads⟩ := h.reads
  rw [reads.offset]
  exact Nat.le_add_right _ _

/-- **Tokens stand where they are matched**, one after another. -/
theorem Gives.laidOut (sound : ρ.IsSound g) {w : Bool} {goal : Goal R} {c c' : Cursor}
    {ts : List (Token R)} (h : Gives g w goal c (some (ts, c'))) (isIn : c.IsIn source) :
    Token.LaidOut ρ source c.position.offset c'.position.offset ts := by
  have nothing : ∀ {c : Cursor}, c.IsIn source →
      Token.LaidOut ρ source c.position.offset c.position.offset ([] : List (Token R)) :=
    fun isIn => .nil (Nat.le_refl _) isIn.offset_le
  generalize found : some (ts, c') = r at h
  induction h generalizing ts c' with
  | text taken =>
    obtain ⟨c'', taken, same⟩ := Option.map_eq_some_iff.1 (taken.trans found.symm)
    cases same
    have reads := Cursor.take?_eq_some_iff.1 taken
    exact (nothing (isIn.reads reads)).mono (by rw [reads.offset]; omega)
  | char taken =>
    obtain ⟨c'', taken, same⟩ := Option.map_eq_some_iff.1 (taken.trans found.symm)
    cases same
    obtain ⟨x, -, reads⟩ := Cursor.takeChar?_eq_some_iff.1 taken
    exact (nothing (isIn.reads reads)).mono (by rw [reads.offset]; omega)
  | seq first between second ih _ ih' =>
    cases found
    obtain ⟨front, reads⟩ := first.reads
    obtain ⟨blanks, reads'⟩ := between.reads
    have isIn' := isIn.reads reads
    exact (ih isIn rfl).append ((ih' (isIn'.reads reads') rfl).mono between.offset_le)
  | more between first further _ ih ih' =>
    cases found
    obtain ⟨blanks, reads⟩ := between.reads
    obtain ⟨front, reads'⟩ := first.reads
    have isIn' := isIn.reads reads
    exact ((ih isIn' rfl).append (ih' (isIn'.reads reads') rfl)).mono between.offset_le
  | many first further ih ih' =>
    cases found
    obtain ⟨front, reads⟩ := first.reads
    exact (ih isIn rfl).append (ih' (isIn.reads reads) rfl)
  | left _ ih | right _ _ _ ih | opt _ ih | apart _ ih => exact ih isIn found
  | @rule w r c ts c₁ inside ih =>
    cases found
    obtain ⟨front, reads⟩ := inside.reads
    have isIn' := isIn.reads reads
    have taken : ρ.takes r = true → c.position.offset < c₁.position.offset := fun takes =>
      inside.offset_lt sound (sound.takes r takes)
    -- only outside words does the match leave a token
    rw [RuleSet.tokens]
    split
    · exact (nothing isIn').mono inside.offset_le
    · split
      · refine .word (Nat.le_refl _) inside.offset_le taken ?_ (nothing isIn')
        rw [reads.textTo]
        exact isIn.slice reads
      · exact .node (Nat.le_refl _) taken (ih isIn rfl) (nothing isIn')
  | stop | noOpt | noMany | noGap | noMore | «unless» | close =>
    cases found
    exact nothing isIn
  | noStop | noFirst | noBetween | noSecond | noUnless | noRule => cases found

end

/-- The tokens of a script stand one after another in its text. -/
theorem laidOut_of_parseScript {t : Token Rule} (h : parseScript source = .ok t) :
    Token.LaidOut scriptRanking source 0 source.utf8ByteSize [t] := by
  obtain ⟨c, gives⟩ := parseScript_eq_ok_iff.1 h
  have begins := Cursor.isIn_ofChars source
  obtain ⟨front, reads⟩ := gives.reads
  have laid := gives.laidOut scriptRanking_sound begins
  exact laid.append (.nil (begins.reads reads).offset_le (Nat.le_refl _))

end AbstractScript.Grammar
