import AbstractScript.Proofs.Lexemes

/-!
# Gaps

What stands between two tokens is skipped as a whole: blank characters and comments up to the next
token. A carriage return takes a line feed after it along.
-/
namespace AbstractScript.Grammar

variable {a b p : Pattern Rule} {w : Bool} {cs mid rest tail : List Char}

/-- Blank characters that do not end a line. -/
theorem picks_spaces : Picks (.oneOfTexts [" ", "\t", "\x0b", "\x0c", "\u00a0", "\ufeff"])
    (· ∈ [' ', '\t', '\x0b', '\x0c', '\u00a0', '\ufeff']) :=
  ((Picks.single ' ').alt ((Picks.single '\t').alt ((Picks.single '\x0b').alt
    ((Picks.single '\x0c').alt ((Picks.single '\u00a0').alt (.single '\ufeff')))))).congr
    fun c => by simp

/-- Single characters that end a line. -/
theorem picks_lineEnds : Picks (.oneOfTexts ["\n", "\r", "\u2028", "\u2029"]) isLineEnd :=
  ((Picks.single '\n').alt ((Picks.single '\r').alt
    ((Picks.single '\u2028').alt (.single '\u2029')))).congr fun c => by simp [isLineEnd]

/-- A fixed text is refused where another character stands first. -/
theorem refuses_text {x : Char} {xs : List Char} (other : ∀ c ∈ cs.head?, c ≠ x) :
    Refuses w (.text (x :: xs)) cs := by
  intro place
  refine .text ?_
  cases cs with
  | nil => rfl
  | cons c cs => exact congrArg (Option.map (Prod.mk [])) (if_neg (Ne.symm (other c rfl)))

/-- A fixed text is refused where another character stands second. -/
theorem refuses_text_second {x y : Char} {xs : List Char} (other : ∀ c ∈ cs.head?, c ≠ y) :
    Refuses w (.text (x :: y :: xs)) (x :: cs) := by
  intro place
  refine .text ?_
  cases cs with
  | nil => exact congrArg (Option.map (Prod.mk [])) (if_pos rfl)
  | cons c cs =>
    exact congrArg (Option.map (Prod.mk [])) ((if_pos rfl).trans (if_neg (Ne.symm (other c rfl))))

/-- The end of a line begins with its character. -/
theorem refuses_lineTerminator (other : ∀ c ∈ cs.head?, isLineEnd c = false) :
    Refuses true lineTerminator cs := by
  refine .alt (refuses_text fun c mem => ?_) (picks_lineEnds.refuses other)
  rintro rfl
  cases other _ mem

/-- A character that ends a line is the end of one, alone or with the next. -/
theorem takes_lineTerminator {c : Char} (ended : isLineEnd c = true) :
    Takes (.once lineTerminator) (c :: cs) cs ∨
      ∃ cs', cs = '\n' :: cs' ∧ Takes (.once lineTerminator) (c :: cs) cs' := by
  by_cases carriage : c = '\r'
  · subst carriage
    by_cases feed : cs.head? = some '\n'
    · obtain ⟨cs', rfl⟩ := List.head?_eq_some_iff.1 feed
      exact .inr ⟨cs', rfl, .left (.text ['\r', '\n'] cs')⟩
    · refine .inl (.right (refuses_text_second ?_) (picks_lineEnds.takes ended))
      rintro c' mem rfl
      exact feed mem
  · refine .inl (.right (refuses_text ?_) (picks_lineEnds.takes ended))
    rintro c' ⟨⟩
    exact carriage

/-- A blank character is white space, alone or with the next. -/
theorem takes_whiteSpace {c : Char} (blank : isBlankChar c = true) :
    Takes (.once whiteSpace) (c :: cs) cs ∨
      ∃ cs', cs = '\n' :: cs' ∧ Takes (.once whiteSpace) (c :: cs) cs' := by
  rcases Bool.or_eq_true_iff.1 blank with space | ended
  · exact .inl (.left (picks_spaces.takes space))
  · have refused : Refuses true (.oneOfTexts [" ", "\t", "\x0b", "\x0c", "\u00a0", "\ufeff"])
        (c :: cs) := by
      refine picks_spaces.refuses ?_
      rintro c' ⟨⟩
      have ends : c = '\n' ∨ c = '\r' ∨ c = '\u2028' ∨ c = '\u2029' := by
        simpa [isLineEnd] using ended
      rcases ends with rfl | rfl | rfl | rfl <;> decide
    refine (takes_lineTerminator ended).imp (.right refused) ?_
    rintro ⟨cs', same, takes⟩
    exact ⟨cs', same, .right refused takes⟩

/-- What is no blank character is no white space. -/
theorem refuses_whiteSpace (other : ∀ c ∈ cs.head?, isBlankChar c = false) :
    Refuses true whiteSpace cs :=
  .alt (picks_spaces.refuses fun c mem => (Bool.or_eq_false_iff.1 (other c mem)).1)
    (refuses_lineTerminator fun c mem => (Bool.or_eq_false_iff.1 (other c mem)).2)

/-- Neither a blank character nor a comment begins the text. -/
structure Bare (cs : List Char) : Prop where
  head : ∀ c ∈ cs.head?, isBlankChar c = false
  comment : Refuses true comment cs

/-- The inside of a block comment is taken up to its end. -/
theorem takes_inside (body : List Char) (h : ¬['*', '/'] <:+: body) :
    Takes (.more (anyBut (.lit "*/"))) (body ++ '*' :: '/' :: rest) ('*' :: '/' :: rest) := by
  induction body with
  | nil => exact .noMore (.first (.unless (.text ['*', '/'] rest)))
  | cons c body ih =>
    have further := ih fun inside => h (List.infix_cons inside)
    refine .more (.seq (.unless ?_) ((Picks.char .any).takes rfl)) further
    by_cases star : c = '*'
    · subst star
      refine refuses_text_second fun c mem => ?_
      rintro rfl
      cases body with
      | nil => cases mem
      | cons c body =>
        cases mem
        exact h ⟨[], body, rfl⟩
    · refine refuses_text ?_
      rintro c' ⟨⟩
      exact star

/-- The inside of a line comment is taken up to the end of the line. -/
theorem takes_line (body : List Char) (h : ∀ x ∈ body, ¬isLineEnd x = true) {c : Char}
    (ended : isLineEnd c = true) :
    Takes (.more (anyBut lineTerminator)) (body ++ c :: rest) (c :: rest) := by
  induction body with
  | nil =>
    refine .noMore (.first ?_)
    rcases @takes_lineTerminator rest c ended with takes | ⟨cs', -, takes⟩ <;>
      exact .unless takes
  | cons x body ih =>
    obtain ⟨first, others⟩ := List.forall_mem_cons.1 h
    refine .more (.seq (.unless (refuses_lineTerminator ?_)) ((Picks.char .any).takes rfl))
      (ih others)
    rintro c' ⟨⟩
    exact Bool.eq_false_iff.2 first

/-- The blank characters at the front and then the comments, each with the blank characters after
it, are taken up to `rest`. -/
def Skips (cs rest : List Char) : Prop :=
  ∃ mid, Takes (.more whiteSpace) cs mid ∧
    Takes (.more (.seq comment (.many whiteSpace))) mid rest

/-- Nothing is skipped where nothing is blank. -/
theorem Skips.refl (bare : Bare rest) : Skips rest rest :=
  ⟨rest, .noMore (refuses_whiteSpace bare.head), .noMore (.first bare.comment)⟩

/-- A comment with what is skipped after it. -/
theorem Skips.comment {front : List Char} (h : Takes (.once comment) ('/' :: front) cs)
    (further : Skips cs rest) : Skips ('/' :: front) rest := by
  obtain ⟨mid, blanks, comments⟩ := further
  refine ⟨'/' :: front, .noMore (refuses_whiteSpace ?_), .more (.seq h blanks.many) comments⟩
  rintro c ⟨⟩
  decide

/-- Blank characters and comments are skipped; at a line feed, also without it, since a carriage
return takes it along. -/
theorem Skips.of_filling {filling : List Char} (h : Filling filling) (bare : Bare rest) :
    Skips (filling ++ rest) rest ∧ ∀ cs, filling = '\n' :: cs → Skips (cs ++ rest) rest := by
  -- a blank is taken by itself, or together with a line feed behind it
  have blank : ∀ {c cs}, isBlankChar c = true → Skips cs rest →
      (∀ cs', cs = '\n' :: cs' → Skips cs' rest) → Skips (c :: cs) rest := by
    intro c cs blank ⟨mid, blanks, comments⟩ feed
    rcases @takes_whiteSpace cs c blank with takes | ⟨cs', same, takes⟩
    · exact ⟨mid, .more takes blanks, comments⟩
    · obtain ⟨mid, blanks, comments⟩ := feed cs' same
      exact ⟨mid, .more takes blanks, comments⟩
  -- by induction on the filling, with and without a line feed at its front
  induction h with
  | last isBlank =>
    refine ⟨blank isBlank (.refl bare) ?_, ?_⟩
    · rintro cs' rfl
      cases bare.head _ rfl
    · rintro cs ⟨⟩
      exact .refl bare
  | @blank c cs isBlank further ih =>
    refine ⟨blank isBlank ih.1 ?_, ?_⟩
    · intro cs' same
      cases further with
      | last => cases same; exact ih.2 _ rfl
      | blank => cases same; exact ih.2 _ rfl
      | block | line => cases (List.cons.inj same).1
    · rintro cs' ⟨⟩
      exact ih.1
  | @block body cs inside further ih =>
    refine ⟨.comment (.left (.seq (.seq (.text ['/', '*'] _) ?_) (.text ['*', '/'] _))) ih.1, ?_⟩
    · have takes := @takes_inside (cs ++ rest) body inside
      rw [List.append_eq, List.append_assoc]
      exact takes.many
    · rintro cs' same
      cases (List.cons.inj same).1
  | @line body c cs inside ended further ih =>
    refine ⟨.comment (.right (.first (.first ?_)) (.seq (.text ['/', '/'] _) ?_)) ih.1, ?_⟩
    · refine refuses_text_second ?_
      rintro c' ⟨⟩
      decide
    · have takes := @takes_line (cs ++ rest) body inside c ended
      rw [List.append_eq, List.append_assoc]
      exact takes.many
    · rintro cs' same
      cases (List.cons.inj same).1

/-- What stands between two tokens is skipped. -/
theorem Skips.gap (h : Skips cs rest) (place : Position) :
    ∃ place', Gives scripts false .gap ⟨place, cs⟩ (some ([], ⟨place', rest⟩)) := by
  obtain ⟨mid, blanks, comments⟩ := h
  obtain ⟨place', takes⟩ := Takes.seq blanks.many comments.many place
  exact ⟨place', .apart takes⟩

/-- True if neither a blank character nor a comment begins the token. -/
def isSolid (token : String) : Bool :=
  (token.toList.head?.any fun c => !isBlankChar c) && rejects (.lit "/*") token &&
    rejects (.lit "//") token

/-- A fixed token is neither blank nor a comment. -/
theorem bare_of_isSolid {token : String} (solid : isSolid token = true) (ends : Ends tail) :
    Bare (token.toList ++ tail) := by
  obtain ⟨⟨head, block⟩, line⟩ : ((token.toList.head?.any fun c => !isBlankChar c) = true ∧
      rejects (.lit "/*") token = true) ∧ rejects (.lit "//") token = true := by
    simpa [isSolid, and_assoc] using solid
  obtain ⟨c, first, other⟩ := Option.any_eq_true _ _ |>.1 head
  refine ⟨?_, .alt (.first (.first (refuses_of_rejects block ends)))
    (.first (refuses_of_rejects line ends))⟩
  rw [List.head?_append, first]
  rintro c' ⟨⟩
  simpa using other

/-- Nothing is left. -/
theorem bare_nil : Bare [] := by
  refine ⟨nofun, .alt (.first (.first ?_)) (.first ?_)⟩ <;> exact refuses_text nofun

/-- A text that begins neither with a blank character nor with a slash. -/
theorem bare_cons {c : Char} (blank : isBlankChar c = false) (slash : c ≠ '/') :
    Bare (c :: cs) := by
  have other : ∀ c' ∈ (c :: cs).head?, c' ≠ '/' := by
    rintro c' ⟨⟩
    exact slash
  refine ⟨?_, .alt (.first (.first (refuses_text other))) (.first (refuses_text other))⟩
  rintro c' ⟨⟩
  exact blank

end AbstractScript.Grammar
