import AbstractScript.Proofs.Marks

/-!
# Printed phrases are read back

Every phrase is read from its printed tokens at each level that they are printed for (`Readable`),
by induction over phrases. Parentheses make an operand of the last level; below a phrase's own level
nothing continues it. So a source text that is a printed phrase, with blanks and comments between
the tokens, is a program of one expression statement, and its expression is the phrase.
-/
namespace AbstractScript

open Grammar

/-! ## First tokens -/

/-- How the tokens of a phrase begin: with a name that no colon follows, an integer, a fixed token,
or an operator, if one may lead. -/
inductive Headed : Bool → List String → Prop
  | name {led tokens} {n : Name} (next : ∀ t ∈ tokens.head?, t ∈ marks ∧ t ≠ ":") :
    Headed led (n.text :: tokens)
  | numeral {led tokens} {n : Nat} : Headed led (Nat.repr n :: tokens)
  | opener {led t tokens} (listed : t ∈ openers) : Headed led (t :: tokens)
  | leader {t tokens} (listed : t ∈ leaders) : Headed true (t :: tokens)

variable {p : Pattern Rule} {cs tail : List Char} {tokens after : List String} {t : String}
  {e : Phrase} {level : Nat}

/-- A word begins neither with a blank character nor with a comment. -/
theorem bare_word (n : Word) : Bare (n.text.toList ++ tail) := by
  have slash : n.first ≠ '/' := by
    intro same
    have none : isNameStart '/' = false := by decide
    rw [← same, n.start] at none
    cases none
  have blank : isBlankChar n.first = false := by
    refine Bool.eq_false_iff.2 fun blank => ?_
    have none := isNamePart_blank blank
    rw [isNamePart, n.start] at none
    cases none
  rw [n.toList_text]
  exact bare_cons blank slash

/-- A word opens a text. -/
theorem opens_word (n : Word) : Opens (n.text :: tokens) := by
  intro cs spaced
  obtain ⟨tail, rfl, -, -⟩ := spaced.exists_tail
  exact bare_word n

/-- A numeral begins neither with a blank character nor with a comment. -/
theorem bare_digit {d : Char} (front : d.isDigit = true ∨ d = '.') : Bare (d :: cs) := by
  rcases front with digit | rfl
  · refine bare_cons (Bool.eq_false_iff.2 fun blank => ?_) ?_
    · cases digit.symm.trans (CharClass.holds_blank (k := .digit) (by decide) blank)
    · rintro rfl
      cases digit
  · exact bare_cons (by decide) (by decide)

namespace Headed

variable {led : Bool}

/-- An operator need not lead. -/
theorem weaken (h : Headed false tokens) : Headed led tokens := by
  cases h with
  | name next => exact .name next
  | numeral => exact .numeral
  | opener listed => exact .opener listed

/-- Tokens after the first do not matter, but for a colon after a name. -/
theorem append (h : Headed led tokens) (next : ∀ t ∈ after.head?, t ∈ marks ∧ t ≠ ":") :
    Headed led (tokens ++ after) := by
  cases h with
  | @name led tokens n next' =>
    refine .name ?_
    cases tokens with
    | nil => exact next
    | cons => exact next'
  | numeral => exact .numeral
  | opener listed => exact .opener listed
  | leader listed => exact .leader listed

/-- A phrase's tokens begin neither with a blank character nor with a comment. -/
theorem opens (h : Headed led tokens) : Opens (tokens ++ after) := by
  cases h with
  | @name led tokens n => exact opens_word n.toWord
  | @numeral led tokens n =>
    intro cs spaced
    obtain ⟨tail, rfl, -, -⟩ := Spaced.exists_tail spaced
    obtain ⟨d, ds, same, digit, -, -⟩ := exists_digits n
    rw [same]
    exact bare_digit (.inl digit)
  | opener listed => exact opens_mark (by simp [marks, listed])
  | leader listed => exact opens_mark (by simp [marks, listed])

/-- Without a leading operator, the tokens are plain. -/
theorem plain (h : Headed false tokens) : Plain tokens := by
  intro after cs spaced
  cases h with
  | @name led tokens n =>
    obtain ⟨tail, rfl, -, ends⟩ := Spaced.exists_tail spaced
    exact refuses_at_name List.mem_cons_self n ends
  | @numeral led tokens n =>
    obtain ⟨tail, rfl, -, -⟩ := Spaced.exists_tail spaced
    exact refuses_at_numeral List.mem_cons_self n
  | opener listed =>
    exact refuses_of_bars (bars_openers _ List.mem_cons_self _ listed) spaced false

end Headed

/-! ## What holds together by itself -/

/-- A value goes on. -/
theorem ok_bind {ε α β : Type} (a : α) (f : α → Except ε β) : (Except.ok a >>= f) = f a := rfl

/-- What is a primary expression holds together by itself. -/
theorem parses_primary (h : Parses (.rule .primaryExpression) 16 tokens e) :
    Parses (levelPattern 16) 16 tokens e := fun after cs spaced stops =>
  .left (h after cs spaced stops)

/-- A name. -/
theorem parses_name (n : Name) : Parses (levelPattern 16) 16 [n.text] (.reference (.name n)) := by
  refine parses_primary fun after cs spaced stops => ?_
  obtain ⟨tail, rfl, -, ends⟩ := Spaced.exists_tail spaced
  have name := Finds.word (r := .identifier) rfl (fun tail => takes_identifier n) spaced
  have refused : ∀ q ∈ nameless, Refuses false q (n.text.toList ++ tail) := fun q mem =>
    refuses_at_name mem n ends
  have inside : Finds (.once Rule.primaryExpression.body) _ _ :=
    .right (refused _ (by simp [nameless])) (.right (refused _ (by simp [nameless])) (.left name))
  refine (Finds.node rfl inside).mono ?_
  rintro ts rest ⟨span, us, rfl, ⟨place, rfl⟩, near⟩
  exact ⟨near, _, _, rfl, rfl, .reference .name⟩

/-- What is taken as a numeral is a number. -/
theorem builds_numeral {d : Char} {ds : List Char} {x : Float}
    (front : d.isDigit = true ∨ d = '.')
    (takes : Takes (.once Rule.numericLiteral.body) (d :: ds ++ tail) tail)
    (read : ∀ span, ScriptToken.numberOf span (String.ofList (d :: ds)) = .ok x)
    (near : Near after tail) :
    Builds (levelPattern 16) after (fun tree => ∃ span, tree = .literal span (.number x))
      (d :: ds ++ tail) := by
  have numeral : Finds (.once (.rule .numericLiteral)) (d :: ds ++ tail) fun ts rest =>
      (∃ span, ts = [.word .numericLiteral span (String.ofList (d :: ds))]) ∧ Near after rest := by
    intro place
    obtain ⟨span, place', gives⟩ := exists_word rfl takes place
    exact ⟨_, place', tail, gives, ⟨span, rfl⟩, near⟩
  have refused : ∀ q ∈ digitless, Refuses false q (d :: ds ++ tail) := fun q mem =>
    refuses_at_digit mem front
  -- no other literal begins with a digit or a point
  have literal : Finds (.once Rule.literal.body) _ _ :=
    .right (refused _ (by simp [digitless])) (.right (refused _ (by simp [digitless]))
      (.right (refused _ (by simp [digitless])) (.left numeral)))
  have inside : Finds (.once Rule.primaryExpression.body) _ _ :=
    .right (refused _ (by simp [digitless])) (.left (.node rfl literal))
  refine .left ((Finds.node rfl inside).mono ?_)
  rintro ts rest ⟨span, us, rfl, place, vs, rfl, ⟨place', rfl⟩, near⟩
  refine ⟨near, _, .literal place (.number x), rfl, ?_, place, rfl⟩
  simp only [ScriptToken.expressionOf, ScriptToken.literalOf, read]
  rfl

/-- An integer. -/
theorem parses_numeral (n : Nat) : Parses (levelPattern 16) 16 [Nat.repr n] (.numeral n) := by
  intro after cs spaced stops
  obtain ⟨tail, rfl, near, ends⟩ := Spaced.exists_tail spaced
  obtain ⟨d, ds, same, digit, -, -⟩ := exists_digits n
  have takes := takes_numericLiteral n ends
  have read := fun span => numberOf_repr span n
  rw [same] at takes
  rw [← String.ofList_toList (s := Nat.repr n), same] at read
  rw [same]
  refine (builds_numeral (.inl digit) takes read near).mono ?_
  rintro ts rest ⟨near, t, tree, rfl, is, place, rfl⟩
  exact ⟨near, t, _, rfl, is, .numeral⟩

/-- The word `this`. -/
theorem parses_this : Parses (levelPattern 16) 16 ["this"] .this := by
  refine parses_primary fun after cs spaced stops => ?_
  have inside : Finds (.once Rule.primaryExpression.body) cs _ :=
    .left (.accepted (r := .keyword "this") rfl (accepts_keywords _ (by decide)) spaced)
  refine (Finds.node rfl inside).mono ?_
  rintro ts rest ⟨span, us, rfl, ⟨place, rfl⟩, near⟩
  exact ⟨near, _, .this span, rfl, rfl, .this⟩

/-- A phrase in parentheses. -/
theorem parses_parenthesized {led : Bool} (leads : Headed led tokens)
    (h : Parses (levelPattern 0) 0 tokens e) :
    Parses (levelPattern 16) 16 ("(" :: tokens ++ [")"]) e := by
  refine parses_primary fun after cs spaced stops => ?_
  have closing : Stops 0 (")" :: after) := stops_mark (by decide) (by decide)
  have spaced : Spaced ("(" :: (tokens ++ ")" :: after)) cs := by simpa using spaced
  have inParentheses : Finds (.once Rule.parenthesizedExpression.body) cs fun ts rest =>
      Near after rest ∧ IsTree e ts := by
    refine .between spaced leads.opens (isSolid_of_mem _ (by decide)) fun cs' spaced' => ?_
    exact h (")" :: after) cs' spaced' closing
  have inside : Finds (.once Rule.primaryExpression.body) cs _ :=
    .right (refuses_vain (by simp [vain]) spaced) (.right (refuses_vain (by simp [vain]) spaced)
      (.right (refuses_vain (by simp [vain]) spaced) (.right (refuses_vain (by simp [vain]) spaced)
        (.right (refuses_vain (by simp [vain]) spaced) (.node rfl inParentheses)))))
  refine (Finds.node rfl inside).mono ?_
  rintro ts rest ⟨span, us, rfl, place, vs, rfl, near, t, tree, rfl, is, denotes⟩
  exact ⟨near, _, tree, rfl, is, denotes⟩

/-! ## Phrases that are read back -/

/-- The least level that may be continued behind a phrase of a gathering level: the next one, but
behind calls and members none, since they end with a mark or a name. -/
def spineFloor (level : Nat) : Nat := if level < 14 then level + 1 else 16

/-- The phrase is read from its printed tokens at every level, and gathered where operands are. -/
structure Readable (e : Phrase) : Prop where
  leads : ∀ level, Headed (level < 13) (e.print level)
  parses : ∀ level ≤ 16, Parses (levelPattern level) level (e.print level) e
  own : IsGathering e.level → Grows e.level (spineFloor e.level) e.tokens e

/-- A phrase that is read at its own level is read at every level. -/
theorem Readable.of_own (leads : Headed (e.level < 13) e.tokens) (within : e.level ≤ 16)
    (parses : ¬IsGathering e.level → Parses (levelPattern e.level) e.level e.tokens e)
    (grows : IsGathering e.level → Grows e.level (spineFloor e.level) e.tokens e) :
    Readable e := by
  have own : Parses (levelPattern e.level) e.level e.tokens e := by
    by_cases gathering : IsGathering e.level
    · refine (grows gathering).parses gathering ?_
      unfold spineFloor
      split <;> omega
    · exact parses gathering
  -- up to its own level the phrase is printed without parentheses, above it with them
  have below : ∀ level ≤ e.level, Parses (levelPattern level) level e.tokens e := by
    intro level le
    refine own.lower_le le within fun _ above => ?_
    rw [decide_eq_false (by omega)] at leads
    exact leads.plain
  have opener : Headed false ("(" :: e.tokens ++ [")"]) := .opener (by decide)
  have all : ∀ level ≤ 16, Parses (levelPattern level) level (e.print level) e := by
    intro level le
    rw [Phrase.print, enclosed]
    split
    · exact (parses_parenthesized leads (below 0 (Nat.zero_le _))).lower_le le (Nat.le_refl 16)
        fun _ _ => opener.plain
    · exact below level (by omega)
  refine ⟨fun level => ?_, all, grows⟩
  rw [Phrase.print, enclosed]
  split
  · exact opener.weaken
  · by_cases low : e.level < 13
    · rwa [decide_eq_true low, ← decide_eq_true (show level < 13 by omega)] at leads
    · rw [decide_eq_false low] at leads
      exact leads.weaken

/-- The operands of a gathering level begin with the phrase. -/
theorem Readable.grows (h : Readable e) (gathering : IsGathering level) :
    Grows level (level + 1) (e.print level) e := by
  by_cases same : e.level = level
  · subst same
    rw [Phrase.print, enclosed, if_neg (Nat.lt_irrefl _)]
    refine (h.own gathering).mono ?_
    have := (gathers gathering).within
    unfold spineFloor
    split <;> omega
  · have next : e.print level = e.print (level + 1) := by
      rw [Phrase.print, Phrase.print, enclosed, enclosed]
      split <;> split <;> first | rfl | omega
    rw [next]
    exact .first (h.parses (level + 1) (Nat.succ_le_of_lt (gathers gathering).within))

/-! ## Lists -/

/-- The tokens are those of expressions that are the phrases. -/
def IsList (es : List Phrase) (ts : List ScriptToken) : Prop :=
  ∃ trees, ScriptToken.expressionsOf ts = .ok trees ∧ List.Forall₂ Phrase.Denotes es trees

/-- One more phrase. -/
theorem IsList.cons {es : List Phrase} {ts us : List ScriptToken} (first : IsTree e ts)
    (others : IsList es us) : IsList (e :: es) (ts ++ us) := by
  obtain ⟨t, tree, rfl, is, denotes⟩ := first
  obtain ⟨trees, are, denote⟩ := others
  refine ⟨tree :: trees, ?_, .cons denotes denote⟩
  simp only [List.singleton_append, ScriptToken.expressionsOf, is, are]
  rfl

variable {es : List Phrase}

/-- A comma or what follows the list continues no assignment. -/
theorem stops_further (stops : Stops 0 after) : Stops 1 (Phrase.furtherTokens es ++ after) := by
  cases es with
  | nil => exact stops.mono (Nat.zero_le 1)
  | cons => exact stops_mark (by decide) (by decide)

/-- Phrases with a comma before each. -/
theorem finds_further (readable : ∀ e ∈ es, Readable e) (stops : Stops 0 after)
    (near : Near (Phrase.furtherTokens es ++ after) cs) :
    Finds (.more (.seq (.lit ",") (.rule .assignmentExpression))) cs fun ts rest =>
      Near after rest ∧ IsList es ts := by
  -- by induction on the phrases, each of which stands behind a comma
  induction es generalizing cs with
  | nil =>
    refine .noMore near stops.opens (fun _ spaced => ?_) ⟨near, [], rfl, .nil⟩
    exact stops.refuses (Nat.le_refl 0) _ (List.mem_singleton_self _) spaced
  | cons e es ih =>
    obtain ⟨first, others⟩ := List.forall_mem_cons.1 readable
    simp only [Phrase.furtherTokens, List.cons_append, List.append_assoc] at near
    have opens : Opens (e.print 1 ++ (Phrase.furtherTokens es ++ after)) := (first.leads 1).opens
    refine .more near (opens_mark (by decide)) fun cs' spaced => ?_
    refine .seq (.mark spaced) ?_ opens
    rintro ts mid ⟨rfl, near'⟩
    refine ⟨near', fun cs'' spaced' => ?_⟩
    refine (first.parses 1 (by decide) _ cs'' spaced' (stops_further stops)).mono ?_
    rintro ts rest ⟨near'', tree⟩
    refine (ih others near'').mono ?_
    rintro us rest ⟨near, list⟩
    exact ⟨near, .cons tree list⟩

/-- Phrases with commas between them. -/
theorem finds_separated (readable : ∀ e' ∈ e :: es, Readable e') (stops : Stops 0 after)
    (spaced : Spaced (Phrase.listTokens (e :: es) ++ after) cs) :
    Finds (.once (.separated (.lit ",") (.rule .assignmentExpression))) cs fun ts rest =>
      Near after rest ∧ IsList (e :: es) ts := by
  obtain ⟨first, others⟩ := List.forall_mem_cons.1 readable
  rw [Phrase.listTokens, List.append_assoc] at spaced
  have next := @stops_further _ es stops
  refine .seq (first.parses 1 (by decide) _ cs spaced next) ?_ next.opens
  rintro ts mid ⟨near, tree⟩
  refine ⟨near, fun cs' spaced' => .many (next.opens cs' spaced') ?_⟩
  refine (finds_further others stops spaced'.near).mono ?_
  rintro us rest ⟨near', list⟩
  exact ⟨near', .cons tree list⟩

/-- Arguments in parentheses. -/
theorem finds_arguments (readable : ∀ e ∈ es, Readable e)
    (spaced : Spaced ("(" :: (Phrase.listTokens es ++ ")" :: after)) cs) :
    Finds (.once (.rule .arguments)) cs fun ts rest =>
      Near after rest ∧ ∃ span us, ts = [.node .arguments span us] ∧ IsList es us := by
  have closing : Stops 0 (")" :: after) := stops_mark (by decide) (by decide)
  have inside : Finds (.once Rule.arguments.body) cs fun ts rest =>
      Near after rest ∧ IsList es ts := by
    cases es with
    | nil =>
      refine .between spaced closing.opens (isSolid_of_mem _ (by decide)) fun cs' spaced' => ?_
      refine .noOpt (.first ?_) ⟨spaced'.near, [], rfl, .nil⟩
      exact refuses_vain (by simp [vain]) spaced'
    | cons e es =>
      have opens : Opens (Phrase.listTokens (e :: es) ++ ")" :: after) := by
        rw [Phrase.listTokens, List.append_assoc]
        exact ((readable e List.mem_cons_self).leads 1).opens
      exact .between spaced opens (isSolid_of_mem _ (by decide)) fun cs' spaced' =>
        .opt (finds_separated readable closing spaced')
  refine (Finds.node rfl inside).mono ?_
  rintro ts rest ⟨span, us, rfl, near, list⟩
  exact ⟨near, span, us, rfl, list⟩

/-! ## Steps -/

/-- The operator and the right operand of a binary or logical phrase are one more step. -/
theorem Grows.operator {left right : Phrase} {symbol : String}
    (h : Grows level (level + 1) tokens left)
    (low : 2 ≤ level) (high : level < 12) (readable : Readable right)
    (mark : symbol ∈ marks) (stop : stopsAt (level + 1) symbol = true)
    (accepted : accepts (levelOperator level).body symbol = true)
    (made : ∀ span first second, ∃ tree,
      ScriptToken.operation (levelOperator level) span symbol first second = .ok tree ∧
        (left.Denotes first → right.Denotes second → e.Denotes tree)) :
    Grows level (level + 1) (tokens ++ symbol :: right.print (level + 1)) e := by
  have manner : (levelOperator level).manner = .word := by
    unfold levelOperator
    split <;> rfl
  have solid := isSolid_of_mem symbol mark
  refine h.extend (fun after _ => .of_stopsAt solid stop) fun after cs spaced stops => ?_
  have opens : Opens (right.print (level + 1) ++ after) := (readable.leads (level + 1)).opens
  rw [levelStep, if_pos high]
  refine .seq (.accepted manner accepted spaced) ?_ opens
  rintro ts mid ⟨⟨span, rfl⟩, near⟩
  refine ⟨near, fun cs' spaced' => ?_⟩
  refine (readable.parses (level + 1) (by omega) after cs' spaced' stops).mono ?_
  rintro us rest ⟨near', t, second, rfl, is, denotes'⟩
  refine ⟨near', fun first denotes => ?_⟩
  obtain ⟨tree, is', denotes''⟩ := made span first second
  refine ⟨tree, denotes'' denotes denotes', fun us => ?_⟩
  rw [levelFold, if_pos high]
  simp only [List.cons_append, List.nil_append, ScriptToken.chained, is, is', ok_bind]

/-- A call or a member access is one more step. -/
theorem Grows.suffix {object : Phrase} {others : List String} {opening : String} {floor : Nat}
    (h : Grows level floor tokens object) (high : level = 14 ∨ level = 15)
    (mark : opening ∈ marks) (stop : (floor, opening) ∈ stoppers)
    (found : ∀ after cs, Spaced (opening :: (others ++ after)) cs →
      Finds (.once (levelStep level)) cs fun ts rest => Near after rest ∧ ∃ t, ts = [t] ∧
        ∀ first, object.Denotes first → ∃ tree, e.Denotes tree ∧
          ∀ us, ScriptToken.suffixed first (t :: us) = ScriptToken.suffixed tree us) :
    Grows level 16 (tokens ++ opening :: others) e := by
  refine h.extend (fun after _ => stops_mark stop mark) fun after cs spaced stops => ?_
  refine (found after cs spaced).mono ?_
  rintro ts rest ⟨near, t, rfl, folded⟩
  refine ⟨near, fun first denotes => ?_⟩
  rw [levelFold, if_neg (by omega)]
  exact folded first denotes

/-- A member access is a step of both levels. -/
theorem finds_access {P : List ScriptToken → List Char → Prop} (high : level = 14 ∨ level = 15)
    (arguments : (.rule .arguments, t) ∈ vain) (spaced : Spaced (t :: tokens) cs)
    (h : Finds (.once (.alt (.rule .propertyAccess) (.rule .computedAccess))) cs P) :
    Finds (.once (levelStep level)) cs P := by
  rcases high with rfl | rfl
  · exact .right (refuses_vain arguments spaced) h
  · exact h

/-- A member with a name. -/
theorem grows_member {object : Phrase} (h : Grows level 16 tokens object)
    (high : level = 14 ∨ level = 15) (property : Word) :
    Grows level 16 (tokens ++ [".", property.text]) (.reference (.member object property)) := by
  refine h.suffix high (by decide) (by decide) fun after cs spaced => ?_
  refine finds_access high (by simp [vain]) spaced (.left ?_)
  have opens : Opens (property.text :: after) := opens_word property
  have inside : Finds (.once Rule.propertyAccess.body) cs fun ts rest =>
      Near after rest ∧ ∃ place, ts = [.word .identifierName place property.text] := by
    refine .seq (.mark spaced) ?_ opens
    rintro ts mid ⟨rfl, near⟩
    refine ⟨near, fun cs' spaced' => ?_⟩
    refine (Finds.word rfl (fun tail => takes_identifierName property) spaced').mono ?_
    rintro us rest ⟨⟨place, rfl⟩, near'⟩
    exact ⟨near', place, rfl⟩
  refine (Finds.node rfl inside).mono ?_
  rintro ts rest ⟨span, us, rfl, near, place, rfl⟩
  refine ⟨near, _, rfl, fun first denotes => ?_⟩
  refine ⟨.member (first.span.through span) first ⟨place, property.text⟩,
    .reference (.member denotes), fun us => ?_⟩
  simp only [ScriptToken.suffixed, ScriptToken.identifierOf]
  rfl

/-- A member with a computed name. -/
theorem grows_index {object property : Phrase} (h : Grows level 16 tokens object)
    (high : level = 14 ∨ level = 15) (readable : Readable property) :
    Grows level 16 (tokens ++ "[" :: (property.tokens ++ ["]"]))
      (.reference (.index object property)) := by
  refine h.suffix high (by decide) (by decide) fun after cs spaced => ?_
  have closing : Stops 0 ("]" :: after) := stops_mark (by decide) (by decide)
  have spaced : Spaced ("[" :: (property.tokens ++ "]" :: after)) cs := by simpa using spaced
  refine finds_access high (by simp [vain]) spaced (.right ?_ ?_)
  · exact refuses_vain (by simp [vain]) spaced
  have inside : Finds (.once Rule.computedAccess.body) cs fun ts rest =>
      Near after rest ∧ IsTree property ts :=
    .between spaced (readable.leads 0).opens (isSolid_of_mem _ (by decide)) fun cs' spaced' =>
      readable.parses 0 (by decide) _ cs' spaced' closing
  refine (Finds.node rfl inside).mono ?_
  rintro ts rest ⟨span, us, rfl, near, t, tree, rfl, is, denotes'⟩
  refine ⟨near, _, rfl, fun first denotes => ?_⟩
  refine ⟨.index (first.span.through span) first tree, .reference (.index denotes denotes'),
    fun us => ?_⟩
  simp only [ScriptToken.suffixed, is]
  rfl

/-- A call. -/
theorem grows_call {callee : Phrase} (h : Grows 14 15 tokens callee)
    (readable : ∀ e ∈ es, Readable e) :
    Grows 14 16 (tokens ++ "(" :: (Phrase.listTokens es ++ [")"])) (.call callee es) := by
  refine h.suffix (.inl rfl) (by decide) (by decide) fun after cs spaced => ?_
  have spaced : Spaced ("(" :: (Phrase.listTokens es ++ ")" :: after)) cs := by simpa using spaced
  refine .left ((finds_arguments readable spaced).mono ?_)
  rintro ts rest ⟨near, span, us, rfl, trees, are, denote⟩
  refine ⟨near, _, rfl, fun first denotes => ?_⟩
  refine ⟨.call (first.span.through span) first trees, .call denotes denote, fun us => ?_⟩
  simp only [ScriptToken.suffixed, are]
  rfl

/-! ## Operators on one operand -/

/-- What refers to a target can be assigned to. -/
theorem Target.Denotes.isTarget {target : Target} {tree : Expression}
    (h : target.Denotes tree) : tree.isTarget = true := by
  cases h <;> rfl

/-- What denotes a reference denotes its target. -/
theorem Phrase.Denotes.target {target : Target} {tree : Expression}
    (h : (Phrase.reference target).Denotes tree) : target.Denotes tree := by
  cases h with
  | reference is => exact is

/-- A target stands at the level of calls or above. -/
theorem Target.level_ge (target : Target) : 14 ≤ target.level := by
  cases target with
  | name => exact Nat.le_add_right 14 2
  | member object | index object =>
    rw [Target.level]
    split <;> decide

/-- A target is printed without parentheses up to the level of calls. -/
theorem print_reference (target : Target) (le : level ≤ 14) :
    (Phrase.reference target).print level = target.tokens := by
  have := target.level_ge
  rw [Phrase.print, enclosed, Phrase.level, if_neg (by omega), Phrase.tokens]

/-- An operator before an operand: what the operand's tree is made into. -/
theorem parses_leading {operand : Phrase} {symbol : String} (readable : Readable operand)
    (leader : symbol ∈ leaders)
    (made : ∀ span place t tree, ScriptToken.expressionOf t = .ok tree → operand.Denotes tree →
      ∃ whole, ScriptToken.expressionOf (.node .unaryExpression span
        [.word .unaryOperator place symbol, t]) = .ok whole ∧ e.Denotes whole) :
    Parses (levelPattern 12) 12 (symbol :: operand.print 12) e := by
  intro after cs spaced stops
  have opens : Opens (operand.print 12 ++ after) := (readable.leads 12).opens
  -- the operator is taken first, then an operand of the same level
  have front : Finds (.once (.seq (.rule .unaryOperator) (.rule .unaryExpression))) cs
      fun ts rest => Near after rest ∧ ∃ place t tree, ts = [.word .unaryOperator place symbol, t] ∧
        ScriptToken.expressionOf t = .ok tree ∧ operand.Denotes tree := by
    refine .seq (.accepted rfl (accepts_leaders symbol leader) spaced) ?_ opens
    rintro ts mid ⟨⟨place, rfl⟩, near⟩
    refine ⟨near, fun cs' spaced' => ?_⟩
    refine (readable.parses 12 (by decide) after cs' spaced' stops).mono ?_
    rintro us rest ⟨near', t, tree, rfl, is, denotes⟩
    exact ⟨near', place, t, tree, rfl, is, denotes⟩
  have inside : Finds (.once Rule.unaryExpression.body) cs _ := .left front
  refine (Finds.node rfl inside).mono ?_
  rintro ts rest ⟨span, us, rfl, near, place, t, tree, rfl, is, denotes⟩
  obtain ⟨whole, is', denotes'⟩ := made span place t tree is denotes
  exact ⟨near, _, whole, rfl, is', denotes'⟩

/-- A unary operator. -/
theorem parses_unary (op : UnaryOperator) {operand : Phrase} (readable : Readable operand) :
    Parses (levelPattern 12) 12 (op.symbol :: operand.print 12) (.unary op operand) := by
  have leader : op.symbol ∈ leaders := by cases op <;> decide
  refine parses_leading readable leader fun span place t tree is denotes => ?_
  refine ⟨.unary span op tree, ?_, .unary denotes⟩
  simp only [ScriptToken.expressionOf, is]
  cases op <;> rfl

/-- An operator that changes the target after it. -/
theorem parses_update_leading (op : UpdateOperator) {target : Target}
    (readable : Readable (.reference target)) :
    Parses (levelPattern 12) 12 (op.symbol :: target.tokens) (.update op true target) := by
  have leader : op.symbol ∈ leaders := by cases op <;> decide
  rw [← print_reference target (show 12 ≤ 14 by decide)]
  refine parses_leading readable leader fun span place t tree is denotes => ?_
  refine ⟨.update span op true tree, ?_, .update denotes.target⟩
  simp only [ScriptToken.expressionOf, is, ScriptToken.requireTarget, ok_bind,
    denotes.target.isTarget, if_true]
  cases op <;> rfl

/-- An operator that changes the target before it. -/
theorem parses_update_trailing (op : UpdateOperator) {target : Target}
    (readable : Readable (.reference target)) :
    Parses (levelPattern 13) 13 (target.tokens ++ [op.symbol]) (.update op false target) := by
  have mark : op.symbol ∈ marks := by cases op <;> decide
  have stop : (14, op.symbol) ∈ stoppers := by cases op <;> decide
  have accepted := accepts_postfix_operators op.symbol (by cases op <;> decide)
  intro after cs spaced stops
  have spaced : Spaced (target.tokens ++ op.symbol :: after) cs := by simpa using spaced
  have operand := readable.parses 14 (by decide)
  rw [print_reference target (Nat.le_refl 14)] at operand
  -- the target comes first, and the operator does not continue it
  have inside : Finds (.once Rule.postfixExpression.body) cs fun ts rest =>
      Near after rest ∧ ∃ t place tree, ts = [t, .word .postfixOperator place op.symbol] ∧
        ScriptToken.expressionOf t = .ok tree ∧ target.Denotes tree := by
    have opens : Opens (op.symbol :: after) := opens_mark mark
    refine .seq (operand _ cs spaced (stops_mark stop mark)) ?_ opens
    rintro ts mid ⟨near, t, tree, rfl, is, denotes⟩
    refine ⟨near, fun cs' spaced' => .opt ((Finds.accepted rfl accepted spaced').mono ?_)⟩
    rintro us rest ⟨⟨place, rfl⟩, near'⟩
    exact ⟨near', t, place, tree, rfl, is, denotes.target⟩
  refine (Finds.node rfl inside).mono ?_
  rintro ts rest ⟨span, us, rfl, near, t, place, tree, rfl, is, denotes⟩
  refine ⟨near, _, .update span op false tree, rfl, ?_, .update denotes⟩
  simp only [ScriptToken.expressionOf, is, ScriptToken.requireTarget, ok_bind, denotes.isTarget,
    if_true]
  cases op <;> rfl

/-! ## Conditionals, assignments, sequences and `new` -/

/-- A conditional. -/
theorem parses_conditional {test consequent alternate : Phrase} (first : Readable test)
    (second : Readable consequent) (third : Readable alternate) :
    Parses (levelPattern 1) 1
      (test.print 2 ++ "?" :: consequent.print 1 ++ ":" :: alternate.print 1)
      (.conditional test consequent alternate) := by
  refine .of_conditional fun after cs spaced stops => ?_
  have spaced : Spaced (test.print 2 ++
      "?" :: (consequent.print 1 ++ ":" :: (alternate.print 1 ++ after))) cs := by
    simpa using spaced
  have question : Stops 2 ("?" :: (consequent.print 1 ++ ":" :: (alternate.print 1 ++ after))) :=
    stops_mark (by decide) (by decide)
  have colon : Stops 1 (":" :: (alternate.print 1 ++ after)) :=
    stops_mark (by decide) (by decide)
  have opens : Opens (consequent.print 1 ++ ":" :: (alternate.print 1 ++ after)) :=
    (second.leads 1).opens
  have opens' : Opens (alternate.print 1 ++ after) := (third.leads 1).opens
  -- the consequent ends at the colon
  have branches : ∀ cs', Spaced ("?" :: (consequent.print 1 ++ ":" :: (alternate.print 1 ++ after)))
      cs' → Finds (.once (.all [.lit "?", .rule .assignmentExpression, .lit ":",
        .rule .assignmentExpression])) cs' fun ts rest => Near after rest ∧
          ∃ us vs, ts = us ++ vs ∧ IsTree consequent us ∧ IsTree alternate vs := by
    intro cs' spaced'
    refine .seq (.between spaced' opens (isSolid_of_mem _ (by decide)) fun cs'' spaced'' =>
      second.parses 1 (by decide) _ cs'' spaced'' colon) ?_ opens'
    rintro ts mid ⟨near, tree⟩
    refine ⟨near, fun cs'' spaced'' => ?_⟩
    refine (third.parses 1 (by decide) after cs'' spaced'' stops).mono ?_
    rintro us rest ⟨near', tree'⟩
    exact ⟨near', ts, us, rfl, tree, tree'⟩
  -- the test ends at the question mark
  have inside : Finds (.once Rule.conditionalExpression.body) cs fun ts rest =>
      Near after rest ∧ ∃ us vs ws, ts = us ++ (vs ++ ws) ∧ IsTree test us ∧ IsTree consequent vs ∧
        IsTree alternate ws := by
    refine .seq (first.parses 2 (by decide) _ cs spaced question) ?_ question.opens
    rintro ts mid ⟨near, tree⟩
    refine ⟨near, fun cs' spaced' => .opt ((branches cs' spaced').mono ?_)⟩
    rintro us rest ⟨near', vs, ws, rfl, tree', tree''⟩
    exact ⟨near', ts, vs, ws, rfl, tree, tree', tree''⟩
  refine (Finds.node rfl inside).mono ?_
  rintro ts rest ⟨span, us, rfl, near, _, _, _, rfl, ⟨t₁, x, rfl, is₁, denotes₁⟩,
    ⟨t₂, y, rfl, is₂, denotes₂⟩, t₃, z, rfl, is₃, denotes₃⟩
  refine ⟨near, _, .conditional span x y z, rfl, ?_, .conditional denotes₁ denotes₂ denotes₃⟩
  simp only [List.cons_append, List.nil_append, ScriptToken.expressionOf, is₁, is₂, is₃, ok_bind]
  rfl

/-- An assignment. -/
theorem parses_assignment (op : AssignmentOperator) (known : op ∈ AssignmentOperator.all)
    {target : Target} {value : Phrase} (readable : Readable (.reference target))
    (readable' : Readable value) :
    Parses (levelPattern 1) 1 (target.tokens ++ op.symbol :: value.print 1)
      (.assignment op known target value) := by
  have listed : ∀ op ∈ AssignmentOperator.all, op.symbol ∈ marks := by decide
  have solid := isSolid_of_mem _ (listed op known)
  obtain ⟨stop, accepted, symbol, question⟩ := op.reads known
  intro after cs spaced stops
  have spaced : Spaced (target.tokens ++ op.symbol :: (value.print 1 ++ after)) cs := by
    simpa using spaced
  have operand := readable.parses 2 (by decide)
  rw [print_reference target (by decide)] at operand
  have opens : Opens (op.symbol :: (value.print 1 ++ after)) := .of_isSolid solid
  have opens' : Opens (value.print 1 ++ after) := (readable'.leads 1).opens
  -- the target is a conditional without branches
  have left : Finds (.once (.rule .conditionalExpression)) cs fun ts rest =>
      Near (op.symbol :: (value.print 1 ++ after)) rest ∧ IsTree (.reference target) ts := by
    have inside : Finds (.once Rule.conditionalExpression.body) cs fun ts rest =>
        Near (op.symbol :: (value.print 1 ++ after)) rest ∧ IsTree (.reference target) ts := by
      refine .seq (operand _ cs spaced (.of_stopsAt solid stop)) ?_ opens
      rintro ts mid ⟨near, tree⟩
      refine ⟨near, fun cs' spaced' => .noOpt (refuses_of_bars question spaced' false) ?_⟩
      exact ⟨spaced'.near, (List.append_nil ts).symm ▸ tree⟩
    refine (Finds.node rfl inside).mono ?_
    rintro ts rest ⟨span, us, rfl, near, t, tree, rfl, is, denotes⟩
    exact ⟨near, _, tree, rfl, is, denotes⟩
  have right : ∀ cs', Spaced (op.symbol :: (value.print 1 ++ after)) cs' →
      Finds (.once (.seq (.rule .assignmentOperator) (.rule .assignmentExpression))) cs'
        fun ts rest => Near after rest ∧ ∃ place us,
          ts = .word .assignmentOperator place op.symbol :: us ∧ IsTree value us := by
    intro cs' spaced'
    refine .seq (.accepted rfl accepted spaced') ?_ opens'
    rintro ts mid ⟨⟨place, rfl⟩, near⟩
    refine ⟨near, fun cs'' spaced'' => ?_⟩
    refine (readable'.parses 1 (by decide) after cs'' spaced'' stops).mono ?_
    rintro us rest ⟨near', tree⟩
    exact ⟨near', place, us, rfl, tree⟩
  have inside : Finds (.once Rule.assignmentExpression.body) cs fun ts rest =>
      Near after rest ∧ ∃ us place vs, ts = us ++ .word .assignmentOperator place op.symbol :: vs ∧
        IsTree (.reference target) us ∧ IsTree value vs := by
    refine .seq left ?_ opens
    rintro ts mid ⟨near, tree⟩
    refine ⟨near, fun cs' spaced' => .opt ((right cs' spaced').mono ?_)⟩
    rintro us rest ⟨near', place, vs, rfl, tree'⟩
    exact ⟨near', ts, place, vs, rfl, tree, tree'⟩
  refine (Finds.node rfl inside).mono ?_
  rintro ts rest ⟨span, us, rfl, near, _, place, _, rfl, ⟨t, x, rfl, is, denotes⟩,
    t', y, rfl, is', denotes'⟩
  refine ⟨near, _, .assignment span op x y, rfl, ?_, .assignment denotes.target denotes'⟩
  simp only [List.cons_append, List.nil_append, ScriptToken.expressionOf, is, is', ok_bind,
    ScriptToken.requireTarget, denotes.target.isTarget, if_true, symbol]
  rfl

/-- `new` with arguments. -/
theorem parses_construct {callee : Phrase} (readable : Readable callee)
    (readables : ∀ e ∈ es, Readable e) :
    Parses (levelPattern 16) 16
      ("new" :: callee.print 15 ++ "(" :: Phrase.listTokens es ++ [")"])
      (.construct callee es) := by
  intro after cs spaced stops
  have spaced : Spaced ("new" :: (callee.print 15 ++ "(" :: (Phrase.listTokens es ++ ")" :: after)))
      cs := by simpa using spaced
  have opening : Stops 15 ("(" :: (Phrase.listTokens es ++ ")" :: after)) :=
    stops_mark (by decide) (by decide)
  have opens : Opens (callee.print 15 ++ "(" :: (Phrase.listTokens es ++ ")" :: after)) :=
    (readable.leads 15).opens
  -- the callee ends at the parenthesis
  have front : Finds (.once (.seq (word "new") (.rule .memberExpression))) cs fun ts rest =>
      Near ("(" :: (Phrase.listTokens es ++ ")" :: after)) rest ∧
        ∃ place us, ts = .word (.keyword "new") place "new" :: us ∧ IsTree callee us := by
    have accepted := accepts_keywords "new" (by decide)
    refine .seq (.accepted (r := .keyword "new") rfl accepted spaced) ?_ opens
    rintro ts mid ⟨⟨place, rfl⟩, near⟩
    refine ⟨near, fun cs' spaced' => ?_⟩
    refine (readable.parses 15 (by decide) _ cs' spaced' opening).mono ?_
    rintro us rest ⟨near', tree⟩
    exact ⟨near', place, us, rfl, tree⟩
  have inside : Finds (.once Rule.newMemberExpression.body) cs fun ts rest =>
      Near after rest ∧ ∃ place us span vs,
        ts = .word (.keyword "new") place "new" :: us ++ [.node .arguments span vs] ∧
          IsTree callee us ∧ IsList es vs := by
    refine .seq front ?_ opening.opens
    rintro ts mid ⟨near, place, us, rfl, tree⟩
    refine ⟨near, fun cs' spaced' => .opt ((finds_arguments readables spaced').mono ?_)⟩
    rintro vs rest ⟨near', span, ws, rfl, list⟩
    exact ⟨near', place, us, span, ws, rfl, tree, list⟩
  -- no other member expression begins with the keyword
  refine .right (refuses_vain (by simp [vain]) spaced)
    (.right (refuses_vain (by simp [vain]) spaced) ?_)
  refine (Finds.node rfl inside).mono ?_
  rintro ts rest ⟨span, us, rfl, near, place, _, place', vs, rfl, ⟨t, x, rfl, is, denotes⟩,
    trees, are, denote⟩
  refine ⟨near, _, .construct span x trees, rfl, ?_, .construct denotes denote⟩
  simp only [List.cons_append, List.nil_append, ScriptToken.expressionOf, is, are, ok_bind]
  rfl

/-- A sequence. -/
theorem parses_sequence {first second : Phrase}
    (readables : ∀ e ∈ first :: second :: es, Readable e) :
    Parses (levelPattern 0) 0 (Phrase.listTokens (first :: second :: es))
      (.sequence first second es) := by
  intro after cs spaced stops
  have inside : Finds (.once Rule.expression.body) cs _ := finds_separated readables stops spaced
  refine (Finds.node rfl inside).mono ?_
  rintro ts rest ⟨span, us, rfl, near, trees, are, denote⟩
  refine ⟨near, _, .sequence span trees, rfl, ?_, .sequence denote⟩
  -- two expressions have two tokens at least
  match us with
  | [] =>
    cases are
    cases denote
  | [t] =>
    simp only [ScriptToken.expressionsOf] at are
    cases is : ScriptToken.expressionOf t with
    | error => rw [is] at are; cases are
    | ok tree =>
      rw [is] at are
      cases are
      cases denote with
      | cons _ others => cases others
  | t :: t' :: us =>
    simp only [ScriptToken.expressionOf, are]
    rfl

/-! ## Every phrase -/

/-- A binary operator makes a binary expression. -/
theorem BinaryOperator.operation_eq (op : BinaryOperator) (span : Span)
    (first second : Expression) :
    ScriptToken.operation (levelOperator op.level) span op.symbol first second =
      .ok (.binary (first.span.through second.span) op first second) := by
  cases op <;> rfl

/-- A logical operator makes a logical expression. -/
theorem LogicalOperator.operation_eq (op : LogicalOperator) (span : Span)
    (first second : Expression) :
    ScriptToken.operation (levelOperator op.level) span op.symbol first second =
      .ok (.logical (first.span.through second.span) op first second) := by
  cases op <;> rfl

/-- Two operands with an operator between them. -/
theorem Readable.operation {left right : Phrase} {symbol : String} (first : Readable left)
    (second : Readable right) (range : 2 ≤ e.level ∧ e.level < 12)
    (tokens : e.tokens = left.print e.level ++ symbol :: right.print (e.level + 1))
    (mark : symbol ∈ marks ∧ symbol ≠ ":") (stop : stopsAt (e.level + 1) symbol = true)
    (accepted : accepts (levelOperator e.level).body symbol = true)
    (made : ∀ span l r, ∃ tree,
      ScriptToken.operation (levelOperator e.level) span symbol l r = .ok tree ∧
        (left.Denotes l → right.Denotes r → e.Denotes tree)) : Readable e := by
  have gathering : IsGathering e.level := .inl range
  refine .of_own ?_ (by omega) (absurd gathering) fun _ => ?_
  · rw [tokens]
    refine (first.leads e.level).append ?_
    rintro t ⟨⟩
    exact mark
  · rw [tokens, spineFloor, if_pos (by omega)]
    exact (first.grows gathering).operator range.1 range.2 second mark.1 stop accepted made

/-- What a member access continues: the operands of the level of the whole. -/
theorem Readable.spine (h : Readable e) :
    Grows (if e.level = 14 then 14 else 15) 16 (e.print 14) e := by
  split
  next same =>
    have own := h.own (by rw [same]; decide)
    have whole : e.print 14 = e.tokens := by rw [Phrase.print, enclosed, if_neg (by omega)]
    rw [same] at own
    rwa [whole]
  next other =>
    have next : e.print 14 = e.print 15 := by
      rw [Phrase.print, Phrase.print, enclosed, enclosed]
      split <;> split <;> first | rfl | omega
    rw [next]
    exact h.grows (by decide)

/-- A target that is a member. -/
theorem Readable.of_spine {object : Phrase} {target : Target} {others : List String} {mark : String}
    (readable : Readable object) (level : target.level = if object.level = 14 then 14 else 15)
    (tokens : target.tokens = object.print 14 ++ mark :: others)
    (listed : mark ∈ marks ∧ mark ≠ ":")
    (grows : ∀ level, level = 14 ∨ level = 15 → Grows level 16 (object.print 14) object →
      Grows level 16 (object.print 14 ++ mark :: others) (.reference target)) :
    Readable (.reference target) := by
  have high : target.level = 14 ∨ target.level = 15 := by
    rw [level]
    split <;> simp
  have gathering : IsGathering (Phrase.reference target).level := .inr high
  have plain : decide (target.level < 13) = decide (14 < 13) := by
    rw [decide_eq_false (by omega), decide_eq_false (by decide)]
  refine .of_own ?_ (by rw [Phrase.level]; omega)
    (absurd gathering) fun _ => ?_
  · rw [Phrase.level, Phrase.tokens, plain, tokens]
    refine (readable.leads 14).append ?_
    rintro t ⟨⟩
    exact listed
  · have spine := readable.spine
    rw [← level] at spine
    rw [Phrase.level, Phrase.tokens, spineFloor, if_neg (by omega), tokens]
    exact grows _ high spine

/-- A phrase of a level that gathers nothing. -/
theorem Readable.of_level {L : Nat} (same : e.level = L) (leads : Headed (L < 13) e.tokens)
    (within : L ≤ 16) (alone : ¬IsGathering L) (parses : Parses (levelPattern L) L e.tokens e) :
    Readable e := by
  subst same
  exact .of_own leads within (fun _ => parses) fun gathering => absurd gathering alone

mutual

/-- Every phrase is read back. -/
theorem Phrase.readable : ∀ e : Phrase, Readable e
  | .reference target => target.readable
  | .numeral n => .of_level (L := 16) rfl .numeral (by decide) (by decide) (parses_numeral n)
  | .this => .of_level (L := 16) rfl (.opener (by decide)) (by decide) (by decide) parses_this
  | .unary op operand => by
    have listed : op.symbol ∈ leaders := by cases op <;> decide
    exact .of_level (L := 12) rfl (.leader listed) (by decide) (by decide)
      (parses_unary op operand.readable)
  | .update op true target => by
    have listed : op.symbol ∈ leaders := by cases op <;> decide
    exact .of_level (L := 12) rfl (.leader listed) (by decide) (by decide)
      (parses_update_leading op target.readable)
  | .update op false target => by
    have mark : op.symbol ∈ marks ∧ op.symbol ≠ ":" := by cases op <;> decide
    have leads := target.readable.leads 14
    rw [print_reference target (Nat.le_refl 14)] at leads
    refine .of_level (L := 13) rfl (leads.append ?_) (by decide) (by decide)
      (parses_update_trailing op target.readable)
    rintro t ⟨⟩
    exact mark
  | .binary op left right => by
    obtain ⟨range, stop, accepted⟩ := op.reads (by cases op <;> decide)
    have mark : op.symbol ∈ marks ∧ op.symbol ≠ ":" := by cases op <;> decide
    exact .operation left.readable right.readable range rfl mark stop accepted
      fun span l r => ⟨_, op.operation_eq span l r, .binary⟩
  | .logical op left right => by
    obtain ⟨range, stop, accepted⟩ := op.reads (by cases op <;> decide)
    have mark : op.symbol ∈ marks ∧ op.symbol ≠ ":" := by cases op <;> decide
    exact .operation left.readable right.readable range rfl mark stop accepted
      fun span l r => ⟨_, op.operation_eq span l r, .logical⟩
  | .conditional test consequent alternate => by
    have question : "?" ∈ marks ∧ "?" ≠ ":" := by decide
    refine .of_level (L := 1) rfl ?_ (by decide) (by decide)
      (parses_conditional test.readable consequent.readable alternate.readable)
    have leads : Headed true
        (test.print 2 ++ ("?" :: consequent.print 1 ++ ":" :: alternate.print 1)) :=
      (test.readable.leads 2).append (by rintro t ⟨⟩; exact question)
    rwa [← List.append_assoc] at leads
  | .assignment op known target value => by
    have listed : ∀ op ∈ AssignmentOperator.all, op.symbol ∈ marks ∧ op.symbol ≠ ":" := by decide
    have leads := target.readable.leads 2
    rw [print_reference target (by decide)] at leads
    refine .of_level (L := 1) rfl (leads.append ?_)
      (by decide) (by decide) (parses_assignment op known target.readable value.readable)
    rintro t ⟨⟩
    exact listed op known
  | .call callee arguments => by
    have mark : "(" ∈ marks ∧ "(" ≠ ":" := by decide
    have tokens : (Phrase.call callee arguments).tokens =
        callee.print 14 ++ "(" :: (Phrase.listTokens arguments ++ [")"]) := by
      rw [Phrase.tokens, List.append_assoc, List.cons_append, Phrase.print]
    refine .of_own (e := .call callee arguments) ?_ (Nat.le_add_right 14 2)
      (absurd (.inr (.inl rfl))) fun _ => ?_
    · rw [tokens]
      refine (callee.readable.leads 14).append ?_
      rintro t ⟨⟩
      exact mark
    · rw [tokens]
      exact grows_call (callee.readable.grows (by decide)) (Phrase.readables arguments)
  | .construct callee arguments =>
    .of_level (L := 16) rfl (.opener (by decide)) (by decide) (by decide)
      (parses_construct callee.readable (Phrase.readables arguments))
  | .sequence first second others => by
    have comma : "," ∈ marks ∧ "," ≠ ":" := by decide
    have readables : ∀ e ∈ first :: second :: others, Readable e :=
      List.forall_mem_cons.2 ⟨first.readable, List.forall_mem_cons.2 ⟨second.readable,
        Phrase.readables others⟩⟩
    have tokens : (Phrase.sequence first second others).tokens =
        Phrase.listTokens (first :: second :: others) := by
      rw [Phrase.tokens, Phrase.listTokens, Phrase.furtherTokens, List.append_assoc]
    refine .of_level (L := 0) rfl ?_ (by decide) (by decide) (tokens ▸ parses_sequence readables)
    rw [tokens]
    refine (first.readable.leads 1).append ?_
    rintro t ⟨⟩
    exact comma

/-- Every target is read back. -/
theorem Target.readable : ∀ target : Target, Readable (.reference target)
  | .name n =>
    .of_level (L := 16) rfl (.name (by nofun)) (by decide) (by decide) (parses_name n)
  | .member object property =>
    .of_spine object.readable rfl rfl (by decide) fun _ high h =>
      grows_member h high property
  | .index object property => by
    have tokens : (Target.index object property).tokens =
        object.print 14 ++ "[" :: (property.tokens ++ ["]"]) := by
      rw [Target.tokens, List.append_assoc, List.cons_append, Phrase.print]
    exact .of_spine object.readable rfl tokens (by decide) fun _ high h =>
      grows_index h high property.readable

/-- All phrases of a list are read back. -/
theorem Phrase.readables : ∀ es : List Phrase, ∀ e ∈ es, Readable e
  | [] => nofun
  | e :: es => List.forall_mem_cons.2 ⟨e.readable, Phrase.readables es⟩

end

/-! ## Programs -/

/-- No label begins a numeral. -/
theorem refuses_label_at_digit {d : Char} (front : d.isDigit = true ∨ d = '.') :
    Refuses false (.rule .labelledStatement) (d :: cs) := by
  have identifier : Refuses true Rule.identifier.body (d :: cs) :=
    .second (.unless (refuses_at_digit (by simp [digitless]) front))
      (refuses_at_digit (by simp [digitless]) front)
  exact .rule fun w => .first (.first (.word rfl identifier))

/-- No label begins a phrase. -/
theorem Headed.refuses_label {led : Bool} (h : Headed led tokens) (spaced : Spaced tokens cs) :
    Refuses false (.rule .labelledStatement) cs := by
  cases h with
  | @name led tokens n next =>
    have opens : Opens tokens := by
      cases tokens with
      | nil => exact .nil
      | cons t tokens => exact opens_mark (next t rfl).1
    -- no colon follows the name
    have colon : ∀ {cs'}, Spaced tokens cs' → Refuses false (.lit ":") cs' := by
      intro cs' spaced'
      cases tokens with
      | nil =>
        cases spaced'
        exact refuses_text nofun
      | cons t tokens =>
        obtain ⟨mark, other⟩ := next t rfl
        have rejected := (rejects_colon_of_mem t mark).resolve_left other
        refine refuses_of_bars ?_ spaced' false
        exact List.all_eq_true.2 (List.forall_mem_singleton.2 rejected)
    intro place
    obtain ⟨ts, place₁, mid, first, -, near⟩ :=
      Finds.word (r := .identifier) rfl (fun tail => takes_identifier n) spaced place
    obtain ⟨skipped, place₂, cs', between, spaced'⟩ := Finds.gap near opens place₁
    have inside : Gives scripts false (.once Rule.labelledStatement.body) ⟨place, cs⟩ none :=
      .noFirst (.noSecond first between (colon spaced' place₂))
    exact .noRule inside
  | @numeral led tokens n =>
    obtain ⟨tail, rfl, -, -⟩ := spaced.exists_tail
    obtain ⟨d, ds, same, digit, -, -⟩ := exists_digits n
    rw [same]
    exact refuses_label_at_digit (.inl digit)
  | opener listed =>
    refine refuses_of_bars (bars_openers _ ?_ _ listed) spaced false
    exact List.mem_cons_of_mem _ List.mem_cons_self
  | leader listed =>
    exact refuses_of_bars (bars_leaders _ List.mem_cons_self _ listed) spaced false

/-- No other statement begins a phrase. -/
theorem Headed.refuses_statements {led : Bool} (h : Headed led tokens) (spaced : Spaced tokens cs) :
    ∀ q ∈ markedPatterns, Refuses false q cs := by
  intro q mem
  cases h with
  | @name led tokens n =>
    obtain ⟨tail, rfl, -, ends⟩ := spaced.exists_tail
    exact refuses_at_name (by simp [nameless, mem]) n ends
  | @numeral led tokens n =>
    obtain ⟨tail, rfl, -, -⟩ := spaced.exists_tail
    exact refuses_at_numeral (by simp [digitless, mem]) n
  | opener listed => exact refuses_of_bars (bars_openers q (by simp [mem]) _ listed) spaced false
  | leader listed => exact refuses_of_bars (bars_leaders q (by simp [mem]) _ listed) spaced false

/-- After all that is refused, the last of several patterns. -/
theorem Finds.last {ps : List (Pattern Rule)} {q : Pattern Rule}
    {P : List ScriptToken → List Char → Prop} (refused : ∀ p ∈ ps, Refuses false p cs)
    (h : Finds (.once q) cs P) : Finds (.once (.oneOf (ps ++ [q]))) cs P := by
  induction ps with
  | nil => exact h
  | cons p ps ih =>
    obtain ⟨first, others⟩ := List.forall_mem_cons.1 refused
    cases ps with
    | nil => exact .right first h
    | cons => exact .right first (ih others)

/-- The text begins an expression, and no other statement. -/
structure BeginsExpression (cs : List Char) : Prop where
  bare : Bare cs
  marked : ∀ q ∈ markedPatterns, Refuses false q cs
  label : Refuses false (.rule .labelledStatement) cs

variable {D : Expression → Prop}

/-- An expression that is a statement, with a semicolon behind it or at the end of the input. -/
theorem BeginsExpression.finds_statement (begins : BeginsExpression cs)
    (ended : after = [] ∨ after = [";"]) (h : Builds (.rule .expression) after D cs) :
    Finds (.once sourceElement) cs fun ts rest => Near [] rest ∧ ∃ span t tree,
      ts = [.node .expressionStatement span [t]] ∧ ScriptToken.expressionOf t = .ok tree ∧
        D tree := by
  have opens : Opens after := by
    rcases ended with rfl | rfl
    · exact .nil
    · exact .of_isSolid (by decide +kernel)
  have inside : Finds (.once Rule.expressionStatement.body) cs fun ts rest =>
      Near [] rest ∧ ∃ t tree, ts = [t] ∧ ScriptToken.expressionOf t = .ok tree ∧ D tree := by
    have front : Builds (.seq (.unless declarationStart) (.rule .expression)) after D cs :=
      .seqBare (.unless (begins.marked _ List.mem_cons_self) ⟨begins.bare, h⟩)
    refine .seq front ?_ opens
    rintro ts mid ⟨near, tree⟩
    refine ⟨near, fun cs' spaced' => ?_⟩
    rcases ended with rfl | rfl
    · refine .noOpt ?_ ⟨spaced'.near, (List.append_nil ts).symm ▸ tree⟩
      cases spaced'
      exact refuses_text nofun
    · refine .opt ((Finds.mark spaced').mono ?_)
      rintro us rest ⟨rfl, near'⟩
      exact ⟨near', (List.append_nil ts).symm ▸ tree⟩
  have node : Finds (.once (.rule .expressionStatement)) cs fun ts rest => Near [] rest ∧
      ∃ span t tree, ts = [.node .expressionStatement span [t]] ∧
        ScriptToken.expressionOf t = .ok tree ∧ D tree := by
    refine (Finds.node rfl inside).mono ?_
    rintro ts rest ⟨span, us, rfl, near, t, tree, rfl, is, holds⟩
    exact ⟨near, span, t, tree, rfl, is, holds⟩
  -- no other statement is taken for an expression
  have refused : ∀ q ∈ markedStatements.map .rule ++ [.rule .labelledStatement],
      Refuses false q cs := by
    refine List.forall_mem_append.2 ⟨fun q mem => ?_, List.forall_mem_singleton.2 begins.label⟩
    exact begins.marked q (List.mem_cons_of_mem _ (List.mem_cons_of_mem _ mem))
  exact .right (begins.marked _ (List.mem_cons_of_mem _ List.mem_cons_self)) (.last refused node)

/-- The program of a script of one expression statement. -/
theorem Program.programOf_eq {t : ScriptToken} {tree : Expression} {span place place' : Span}
    {file text : String} (is : ScriptToken.expressionOf t = .ok tree) :
    ScriptToken.programOf file (.node .script span
      [.node .expressionStatement place [t], .word .endOfInput place' text]) =
        .ok ⟨span, file, [.expression place tree]⟩ := by
  have statement : ScriptToken.statementOf (.node .expressionStatement place [t]) =
      .ok (.expression place tree) := by
    show Statement.expression place <$> ScriptToken.expressionOf t = _
    rw [is]
    rfl
  have statements : ScriptToken.statementsOf [.node .expressionStatement place [t]] =
      .ok [.expression place tree] := by
    show (ScriptToken.statementOf _ >>= fun s => ScriptToken.statementsOf [] >>= fun ss =>
      pure (s :: ss)) = _
    rw [statement]
    rfl
  show (ScriptToken.statementsOf [.node .expressionStatement place [t]] >>= fun body =>
    pure (⟨span, file, body⟩ : Program)) = _
  rw [statements]
  rfl

/-- A source text of an expression, perhaps with a semicolon behind it, is a program of one
expression statement. -/
theorem Program.ofSource_expression (file text : String) (begins : BeginsExpression text.toList)
    (ended : after = [] ∨ after = [";"])
    (h : Builds (.rule .expression) after D text.toList) :
    ∃ span place tree, Program.ofSource file text = .ok ⟨span, file, [.expression place tree]⟩ ∧
      D tree := by
  -- there is no second statement
  have noStatement : ∀ cs', Spaced [] cs' → Refuses false sourceElement cs' := by
    rintro cs' ⟨⟩
    exact gives_none_of_takes scriptRanking_sound (by decide) (by decide) false
  have statements : Finds (.once (.many sourceElement)) text.toList
      fun ts rest => Near [] rest ∧ ∃ span t tree, ts = [.node .expressionStatement span [t]] ∧
        ScriptToken.expressionOf t = .ok tree ∧ D tree := by
    have whole : Spaced [text] text.toList := .last
    refine .many begins.bare (.more whole.near (fun cs spaced => ?_) fun cs' spaced' => ?_)
    · cases spaced
      exact begins.bare
    · cases spaced'
      refine (begins.finds_statement ended h).mono ?_
      rintro ts rest ⟨near, found⟩
      exact .noMore near .nil noStatement ⟨near, (List.append_nil ts).symm ▸ found⟩
  have front : Finds (.once (.seq (.text []) (.many sourceElement))) text.toList fun ts rest =>
      Near [] rest ∧ ∃ span t tree, ts = [.node .expressionStatement span [t]] ∧
        ScriptToken.expressionOf t = .ok tree ∧ D tree :=
    .seqBare fun place => ⟨[], place, _, .text rfl, begins.bare, statements⟩
  have inside : Finds (.once Rule.script.body) text.toList fun ts rest =>
      ∃ span t tree place text, ts = [.node .expressionStatement span [t],
        .word .endOfInput place text] ∧ ScriptToken.expressionOf t = .ok tree ∧ D tree := by
    refine .seq front ?_ .nil
    rintro ts mid ⟨near, span, t, tree, rfl, is, holds⟩
    refine ⟨near, ?_⟩
    rintro cs' ⟨⟩ place
    exact ⟨_, place, [], .rule (.stop rfl), span, t, tree, _, _, rfl, is, holds⟩
  obtain ⟨ts, place, rest, gives, span, us, rfl, place', t, tree, place'', text', rfl, is,
    holds⟩ := Finds.node (r := .script) rfl inside .start
  have parsed := parseScript_eq_ok_iff.2 ⟨_, gives⟩
  refine ⟨span, place', tree, ?_, holds⟩
  unfold ofSource
  rw [parsed]
  exact programOf_eq is

/-- **A printed phrase is read back.** A source text of the tokens of a phrase, with gaps between
them, is a program of one expression statement, and its expression is the phrase. -/
theorem Program.ofSource_tokens (file text : String) (e : Phrase)
    (spaced : Spaced e.tokens text.toList) :
    ∃ span place tree, Program.ofSource file text = .ok ⟨span, file, [.expression place tree]⟩ ∧
      e.Denotes tree := by
  have leads : Headed true e.tokens := e.readable.leads 0
  have opens : Opens e.tokens := List.append_nil e.tokens ▸ leads.opens
  have begins : BeginsExpression text.toList :=
    ⟨opens _ spaced, leads.refuses_statements spaced, leads.refuses_label spaced⟩
  have whole : Spaced (e.tokens ++ []) text.toList := (List.append_nil e.tokens).symm ▸ spaced
  exact ofSource_expression file text begins (.inl rfl)
    (e.readable.parses 0 (by decide) [] _ whole .nil)

/-- The assignment `x = y + 1`. -/
def sumPhrase : Phrase :=
  .assignment .assign (by decide) (.name ⟨⟨'x', [], by decide, nofun⟩, by decide⟩)
    (.binary .add (.reference (.name ⟨⟨'y', [], by decide, nofun⟩, by decide⟩)) (.numeral 1))

/-- The assignment is read back where a comment stands between its tokens. -/
theorem Program.ofSource_tokens_sum :
    Spaced sumPhrase.tokens "x = y /* and */ + 1".toList ∧
      ∃ span place tree, Program.ofSource "a.js" "x = y /* and */ + 1" =
        .ok ⟨span, "a.js", [.expression place tree]⟩ ∧ sumPhrase.Denotes tree := by
  have blank : IsGap [' '] := ⟨.last rfl, by rintro c ⟨⟩; rfl⟩
  have comment : IsGap " /* and */ ".toList := by
    have inside : ¬['*', '/'] <:+: " and ".toList := by decide
    refine ⟨.blank rfl (.block inside (.last rfl)), ?_⟩
    rintro c ⟨⟩
    rfl
  have spaced : Spaced sumPhrase.tokens "x = y /* and */ + 1".toList :=
    .cons (t := "x") blank (.cons (t := "=") blank (.cons (t := "y") comment
      (.cons (t := "+") blank (.last (t := "1")))))
  exact ⟨spaced, ofSource_tokens "a.js" _ sumPhrase spaced⟩

end AbstractScript
