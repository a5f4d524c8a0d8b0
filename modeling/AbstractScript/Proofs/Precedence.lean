import AbstractScript.Proofs.Gaps
import AbstractScript.Proofs.MatchingSteps

/-!
# Levels of precedence

A level of the grammar is an operand of the next level and what may continue it. An operand is read
at its level wherever the token after it continues no level from there on (`Stops`); operators of
one level, and calls and member accesses, are gathered one after another behind the first operand,
which is what the syntax tree is folded from (`Grows`).
-/
namespace AbstractScript

open Grammar

/-! ## Outside words -/

/-- The goal takes a part of the text and leaves tokens and a rest with property `P`. -/
def Finds (goal : Goal Rule) (cs : List Char) (P : List ScriptToken → List Char → Prop) : Prop :=
  ∀ place, ∃ ts place' rest,
    Gives scripts false goal ⟨place, cs⟩ (some (ts, ⟨place', rest⟩)) ∧ P ts rest

/-- The tokens stand at the front of the text, perhaps after a gap. -/
def Near (tokens : List String) (cs : List Char) : Prop :=
  ∃ gap cs', cs = gap ++ cs' ∧ (gap = [] ∨ IsGap gap) ∧ Spaced tokens cs'

/-- A text of the tokens begins with a token, if with anything. -/
def Opens (tokens : List String) : Prop := ∀ cs, Spaced tokens cs → Bare cs

variable {a b p : Pattern Rule} {r : Rule} {cs rest : List Char} {goal : Goal Rule}
  {P Q : List ScriptToken → List Char → Prop} {t : String} {tokens after : List String}

namespace Spaced

/-- The text after the first token. -/
theorem exists_tail (h : Spaced (t :: tokens) cs) :
    ∃ tail, cs = t.toList ++ tail ∧ Near tokens tail ∧ Ends tail := by
  cases h with
  | last => exact ⟨[], (List.append_nil _).symm, ⟨[], [], rfl, .inl rfl, .nil⟩, nofun⟩
  | @cons t u tokens gap cs apart further =>
    refine ⟨gap ++ cs, rfl, ⟨gap, cs, rfl, .inr apart, further⟩, fun c mem => apart.2 c ?_⟩
    cases gap with
    | nil => cases apart.1
    | cons => exact mem

/-- Tokens stand near their own text. -/
theorem near (h : Spaced tokens cs) : Near tokens cs := ⟨[], cs, rfl, .inl rfl, h⟩

end Spaced

/-- Fixed tokens open a text. -/
theorem Opens.of_isSolid (solid : isSolid t = true) : Opens (t :: tokens) := by
  intro cs spaced
  obtain ⟨tail, rfl, -, ends⟩ := spaced.exists_tail
  exact bare_of_isSolid solid ends

/-- No tokens open an empty text. -/
theorem Opens.nil : Opens [] := by
  intro cs spaced
  cases spaced
  exact bare_nil

namespace Finds

/-- What is found may be said to be less. -/
theorem mono (h : Finds goal cs P) (le : ∀ ts rest, P ts rest → Q ts rest) : Finds goal cs Q :=
  fun place =>
    let ⟨ts, place', rest, gives, holds⟩ := h place
    ⟨ts, place', rest, gives, le ts rest holds⟩

/-- A gap is skipped. -/
theorem gap (near : Near tokens cs) (opens : Opens tokens) :
    Finds .gap cs fun _ rest => Spaced tokens rest := by
  obtain ⟨front, rest, rfl, skipped, spaced⟩ := near
  have bare := opens rest spaced
  have skips : Skips (front ++ rest) rest := by
    rcases skipped with rfl | gap
    · exact .refl bare
    · exact (Skips.of_filling gap.1 bare).1
  intro place
  obtain ⟨place', gives⟩ := skips.gap place
  exact ⟨[], place', rest, gives, spaced⟩

/-- One pattern and then another. -/
theorem seq (first : Finds (.once a) cs Q)
    (second : ∀ ts mid, Q ts mid → Near tokens mid ∧ ∀ cs', Spaced tokens cs' →
      Finds (.once b) cs' fun us rest => P (ts ++ us) rest) (opens : Opens tokens) :
    Finds (.once (.seq a b)) cs P := by
  intro place
  obtain ⟨ts, place₁, mid, first, holds⟩ := first place
  obtain ⟨near, second⟩ := second ts mid holds
  obtain ⟨skipped, place₂, cs', between, spaced⟩ := gap near opens place₁
  obtain ⟨us, place₃, rest, second, holds⟩ := second cs' spaced place₂
  exact ⟨ts ++ us, place₃, rest, .seq first between second, holds⟩

/-- One pattern right after another. -/
theorem seqBare (first : Finds (.once a) cs fun ts mid =>
    Bare mid ∧ Finds (.once b) mid fun us rest => P (ts ++ us) rest) :
    Finds (.once (.seq a b)) cs P := by
  intro place
  obtain ⟨ts, place₁, mid, first, bare, second⟩ := first place
  obtain ⟨place₂, between⟩ := (Skips.refl bare).gap place₁
  obtain ⟨us, place₃, rest, second, holds⟩ := second place₂
  exact ⟨ts ++ us, place₃, rest, .seq first between second, holds⟩

/-- The first of two patterns. -/
theorem left (first : Finds (.once a) cs P) : Finds (.once (.alt a b)) cs P :=
  fun place =>
    let ⟨ts, place', rest, first, holds⟩ := first place
    ⟨ts, place', rest, .left first, holds⟩

/-- The second of two patterns. -/
theorem right (first : Refuses false a cs) (second : Finds (.once b) cs P) :
    Finds (.once (.alt a b)) cs P :=
  fun place =>
    let ⟨ts, place', rest, second, holds⟩ := second place
    ⟨ts, place', rest, .right (first place) second, holds⟩

/-- What may be there is there. -/
theorem opt (inside : Finds (.once a) cs P) : Finds (.once (.opt a)) cs P :=
  fun place =>
    let ⟨ts, place', rest, inside, holds⟩ := inside place
    ⟨ts, place', rest, .opt inside, holds⟩

/-- What may be there is not there. -/
theorem noOpt (absent : Refuses false a cs) (holds : P [] cs) : Finds (.once (.opt a)) cs P :=
  fun place => ⟨[], place, cs, .noOpt (absent place), holds⟩

/-- What is forbidden is not there. -/
theorem «unless» (absent : Refuses false a cs) (holds : P [] cs) :
    Finds (.once (.unless a)) cs P :=
  fun place => ⟨[], place, cs, .unless (absent place), holds⟩

/-- One more match after a gap. -/
theorem more (near : Near tokens cs) (opens : Opens tokens)
    (first : ∀ cs', Spaced tokens cs' → Finds (.once a) cs' fun ts mid =>
      Finds (.more a) mid fun us rest => P (ts ++ us) rest) : Finds (.more a) cs P := by
  intro place
  obtain ⟨skipped, place₁, cs', between, spaced⟩ := gap near opens place
  obtain ⟨ts, place₂, mid, first, further⟩ := first cs' spaced place₁
  obtain ⟨us, place₃, rest, further, holds⟩ := further place₂
  exact ⟨ts ++ us, place₃, rest, .more between first further, holds⟩

/-- There is no further match. -/
theorem noMore (near : Near tokens cs) (opens : Opens tokens)
    (absent : ∀ cs', Spaced tokens cs' → Refuses false a cs') (holds : P [] cs) :
    Finds (.more a) cs P := by
  intro place
  obtain ⟨skipped, place₁, cs', between, spaced⟩ := gap near opens place
  exact ⟨[], place, cs, .noMore between (absent cs' spaced place₁), holds⟩

/-- Where nothing is skipped, all further matches are all matches. -/
theorem many (bare : Bare cs) (h : Finds (.more a) cs P) : Finds (.once (.many a)) cs P := by
  intro place
  obtain ⟨ts, place', rest, more, holds⟩ := h place
  obtain ⟨place'', none⟩ := (Skips.refl bare).gap place
  -- nothing is skipped at this place
  obtain rfl : place'' = place := by
    obtain ⟨front, reads⟩ := none.reads
    obtain rfl : front = [] := List.self_eq_append_left.1 reads.text
    exact reads.position
  refine ⟨ts, place', rest, ?_, holds⟩
  generalize found : some (ts, Cursor.mk place' rest) = f at more
  cases more with
  | more between first further =>
    cases none.unique between
    exact .many first further
  | noGap between => cases none.unique between
  | noMore between first =>
    cases none.unique between
    cases found
    exact .noMany first

/-- A node of a rule. -/
theorem node (manner : r.manner = .ordinary) (inside : Finds (.once r.body) cs P) :
    Finds (.once (.rule r)) cs fun ts rest =>
      ∃ span us, ts = [.node r span us] ∧ P us rest := by
  intro place
  obtain ⟨us, place', rest, gives, holds⟩ := inside place
  have inside : Gives scripts (false || decide (scripts.manner r = .word)) (.once (scripts.body r))
      ⟨place, cs⟩ (some (us, ⟨place', rest⟩)) := by
    rw [show scripts.manner r = .ordinary from manner]
    exact gives
  have token := Gives.rule inside
  rw [RuleSet.tokens, if_neg Bool.false_ne_true, show scripts.manner r = .ordinary from manner]
    at token
  exact ⟨_, place', rest, token, _, us, rfl, holds⟩

/-- A fixed text. -/
theorem mark (spaced : Spaced (t :: tokens) cs) :
    Finds (.once (.lit t)) cs fun ts rest => ts = [] ∧ Near tokens rest := by
  obtain ⟨tail, rfl, near, -⟩ := spaced.exists_tail
  exact fun place =>
    have taken := Cursor.take?_eq_some_iff.2 (Cursor.reads_append place t.toList tail)
    ⟨[], _, tail, .text (by rw [taken]; rfl), rfl, near⟩

/-- A word. -/
theorem word (manner : r.manner = .word)
    (takes : ∀ tail, Ends tail → Takes (.once r.body) (t.toList ++ tail) tail)
    (spaced : Spaced (t :: tokens) cs) :
    Finds (.once (.rule r)) cs fun ts rest =>
      (∃ span, ts = [.word r span t]) ∧ Near tokens rest := by
  obtain ⟨tail, rfl, near, ends⟩ := spaced.exists_tail
  intro place
  obtain ⟨span, place', gives⟩ := exists_word manner (takes tail ends) place
  exact ⟨_, place', tail, gives, ⟨span, by rw [String.ofList_toList]⟩, near⟩

/-- A fixed word. -/
theorem accepted (manner : r.manner = .word) (accepted : accepts r.body t = true)
    (spaced : Spaced (t :: tokens) cs) :
    Finds (.once (.rule r)) cs fun ts rest =>
      (∃ span, ts = [.word r span t]) ∧ Near tokens rest :=
  word manner (fun _ => takes_of_accepts accepted) spaced

/-- A part between two fixed texts. -/
theorem between {opening closing : String} {T : List ScriptToken → Prop}
    (spaced : Spaced (opening :: (tokens ++ closing :: after)) cs)
    (opens : Opens (tokens ++ closing :: after)) (solid : isSolid closing = true)
    (inside : ∀ cs', Spaced (tokens ++ closing :: after) cs' →
      Finds (.once p) cs' fun ts rest => Near (closing :: after) rest ∧ T ts) :
    Finds (.once (.all [.lit opening, p, .lit closing])) cs fun ts rest =>
      Near after rest ∧ T ts := by
  have front : Finds (.once (.seq (.lit opening) p)) cs fun ts rest =>
      Near (closing :: after) rest ∧ T ts := by
    refine .seq (.mark spaced) ?_ opens
    rintro ts mid ⟨rfl, near⟩
    exact ⟨near, inside⟩
  refine .seq front ?_ (@Opens.of_isSolid _ after solid)
  rintro ts mid ⟨near, holds⟩
  refine ⟨near, fun cs' spaced' => (mark spaced').mono ?_⟩
  rintro us rest ⟨rfl, near'⟩
  exact ⟨near', (List.append_nil ts).symm ▸ holds⟩

end Finds

/-! ## Refused by the first token -/

/-- True for the rules of tight words. -/
def isTightWord (r : Rule) : Bool := r.manner = .word && (Pattern.rule r).tight

/-- Their rules are word rules. -/
theorem manner_of_isTightWord (h : isTightWord r = true) : r.manner = .word :=
  of_decide_eq_true (Bool.and_eq_true_iff.1 h).1

/-- True if the openings of the pattern refuse the token. -/
def bars (p : Pattern Rule) (token : String) : Bool :=
  (p.openings isTightWord 60).all (rejects · token)

/-- Such a pattern matches at no text that begins with the token. -/
theorem refuses_of_bars (h : bars p t = true) (spaced : Spaced (t :: tokens) cs) (w : Bool) :
    Refuses w p cs := by
  obtain ⟨tail, rfl, -, ends⟩ := spaced.exists_tail
  exact refuses_of_openings (n := 60) (fun _ => manner_of_isTightWord)
    (fun q mem => refuses_of_rejects (List.all_eq_true.1 h q mem) ends) w

/-! ## Levels -/

/-- The rule of a level. -/
def levelRule : Nat → Rule
  | 0 => .expression
  | 1 => .assignmentExpression
  | 2 => .logicalOrExpression
  | 3 => .logicalAndExpression
  | 4 => .bitwiseOrExpression
  | 5 => .bitwiseXorExpression
  | 6 => .bitwiseAndExpression
  | 7 => .equalityExpression
  | 8 => .relationalExpression
  | 9 => .shiftExpression
  | 10 => .additiveExpression
  | 11 => .multiplicativeExpression
  | 12 => .unaryExpression
  | 13 => .postfixExpression
  | 14 => .leftHandSideExpression
  | _ => .memberExpression

/-- The operators between the operands of a level. -/
def levelOperator : Nat → Rule
  | 2 => .logicalOrOperator
  | 3 => .logicalAndOperator
  | 4 => .bitwiseOrOperator
  | 5 => .bitwiseXorOperator
  | 6 => .bitwiseAndOperator
  | 7 => .equalityOperator
  | 8 => .relationalOperator
  | 9 => .shiftOperator
  | 10 => .additiveOperator
  | _ => .multiplicativeOperator

/-- What a level asks for. -/
def levelPattern (level : Nat) : Pattern Rule :=
  if level < 16 then .rule (levelRule level)
  else .oneOf [.rule .primaryExpression, .rule .functionExpression, .rule .newMemberExpression]

/-- The levels at which any number of steps may follow an operand. -/
def IsGathering (level : Nat) : Prop := 2 ≤ level ∧ level < 12 ∨ level = 14 ∨ level = 15

instance : DecidablePred IsGathering := fun level =>
  inferInstanceAs (Decidable (2 ≤ level ∧ level < 12 ∨ level = 14 ∨ level = 15))

/-- A step of such a level: an operator with its right operand, or a call or a member access. -/
def levelStep (level : Nat) : Pattern Rule :=
  if level < 12 then .seq (.rule (levelOperator level)) (levelPattern (level + 1))
  else if level = 14 then .oneOf [.rule .arguments, .rule .propertyAccess, .rule .computedAccess]
  else .alt (.rule .propertyAccess) (.rule .computedAccess)

/-- How the expression of such a level is made of its first operand and the tokens after it. -/
def levelFold (level : Nat) : Expression → List ScriptToken → Except SyntaxError Expression :=
  if level < 12 then ScriptToken.chained else ScriptToken.suffixed

/-- What may continue an operand at a level. -/
def continuations (level : Nat) : List (Pattern Rule) :=
  if IsGathering level then [levelStep level]
  else match level with
    | 0 => [.seq (.lit ",") (.rule .assignmentExpression)]
    | 1 => [.all [.lit "?", .rule .assignmentExpression, .lit ":", .rule .assignmentExpression],
        .seq (.rule .assignmentOperator) (.rule .assignmentExpression)]
    | 13 => [.rule .postfixOperator]
    | _ => []

/-- No level from `floor` on is continued by the tokens. -/
structure Stops (floor : Nat) (tokens : List String) : Prop where
  opens : Opens tokens
  refuses : ∀ {level}, floor ≤ level → ∀ q ∈ continuations level, ∀ {cs}, Spaced tokens cs →
    Refuses false q cs

/-- True if the token continues no level from `floor` on. -/
def stopsAt (floor : Nat) (token : String) : Bool :=
  (List.range 16).all fun level =>
    level < floor || (continuations level).all (bars · token)

namespace Stops

variable {floor floor' : Nat}

/-- Fewer levels are continued by no more tokens. -/
theorem mono (h : Stops floor tokens) (le : floor ≤ floor') : Stops floor' tokens :=
  ⟨h.opens, fun le' => h.refuses (Nat.le_trans le le')⟩

/-- A level that may be continued is below the last. -/
theorem lt_of_mem {level : Nat} {q : Pattern Rule} (mem : q ∈ continuations level) :
    level < 16 := by
  by_contra above
  have ungathered : ¬IsGathering level := fun h => by unfold IsGathering at h; omega
  rw [continuations, if_neg ungathered] at mem
  · cases mem
  all_goals omega

/-- What may continue a level refuses a token that continues nothing. -/
theorem bars_of_stopsAt (h : stopsAt floor t = true) {level : Nat} (le : floor ≤ level)
    {q : Pattern Rule} (mem : q ∈ continuations level) : bars q t = true := by
  have below := List.mem_range.2 (lt_of_mem mem)
  rcases Bool.or_eq_true_iff.1 (List.all_eq_true.1 h level below) with lt | all
  · exact absurd (of_decide_eq_true lt) (Nat.not_lt.2 le)
  · exact List.all_eq_true.1 all q mem

/-- A fixed token that continues nothing. -/
theorem of_stopsAt (solid : isSolid t = true) (h : stopsAt floor t = true) :
    Stops floor (t :: tokens) :=
  ⟨.of_isSolid solid, fun le _ mem _ spaced =>
    refuses_of_bars (bars_of_stopsAt h le mem) spaced false⟩

/-- The end of the input continues nothing. -/
theorem nil : Stops 0 [] where
  opens := .nil
  refuses {level} _ q mem cs spaced := by
    have all : ∀ level < 16, ∀ q ∈ continuations level,
        q.fits scriptRanking = true ∧ q.takes scriptRanking = true := by decide
    obtain ⟨fits, takes⟩ := all level (lt_of_mem mem) q mem
    cases spaced
    exact gives_none_of_takes scriptRanking_sound fits takes false

end Stops

/-! ## Operands -/

/-- At the text, the pattern reads a single token up to the tokens `after`, and its expression is one
of `D`. -/
def Builds (p : Pattern Rule) (after : List String) (D : Expression → Prop) (cs : List Char) : Prop :=
  Finds (.once p) cs fun ts rest => Near after rest ∧
    ∃ t tree, ts = [t] ∧ ScriptToken.expressionOf t = .ok tree ∧ D tree

variable {e : Phrase} {D : Expression → Prop} {floor level : Nat}

/-- A rule whose pattern is an operand and what may continue it reads the operand alone where
nothing continues it. -/
theorem Builds.alone {c : Pattern Rule} (manner : r.manner = .ordinary)
    (body : r.body = .seq a (.many c) ∨ r.body = .seq a (.opt c))
    (single : ∀ span t tree, ScriptToken.expressionOf t = .ok tree →
      ScriptToken.expressionOf (.node r span [t]) = .ok tree)
    (mem : c ∈ continuations level) (stops : Stops level after) (h : Builds a after D cs) :
    Builds (.rule r) after D cs := by
  refine Finds.mono (.node manner ?_ (P := fun ts rest => Near after rest ∧
    ∃ t tree, ts = [t] ∧ ScriptToken.expressionOf t = .ok tree ∧ D tree)) ?_
  -- what follows is no continuation, so that the operand stands alone
  · have nothing : ∀ {cs'}, Spaced after cs' → Refuses false c cs' := fun spaced' =>
      stops.refuses (Nat.le_refl level) c mem spaced'
    have whole : ∀ {b}, r.body = .seq a b → (∀ {cs'} P, Spaced after cs' → P [] cs' →
        Finds (.once b) cs' P) → Builds r.body after D cs := by
      intro b same rest
      rw [same]
      refine .seq h ?_ stops.opens
      rintro ts mid ⟨near, tree⟩
      exact ⟨near, fun cs' spaced' =>
        rest _ spaced' ⟨spaced'.near, (List.append_nil ts).symm ▸ tree⟩⟩
    rcases body with same | same
    · refine whole same fun P spaced' holds => ?_
      exact .many (stops.opens _ spaced')
        (.noMore spaced'.near stops.opens (fun _ spaced'' => nothing spaced'') holds)
    · exact whole same fun P spaced' holds => .noOpt (nothing spaced') holds
  · rintro ts rest ⟨span, us, rfl, near, t, tree, rfl, is, holds⟩
    exact ⟨near, _, tree, rfl, single span t tree is, holds⟩

/-- The operands of a level are gathered behind the first: the rule matches an operand of the next
level and as many steps as there are, and its expression is folded over their tokens. -/
structure Gathers (level : Nat) : Prop where
  within : level < 16
  manner : (levelRule level).manner = .ordinary
  body : (levelRule level).body = .seq (levelPattern (level + 1)) (.many (levelStep level))
  mem : levelStep level ∈ continuations level
  node : ∀ span t tree us, ScriptToken.expressionOf t = .ok tree →
    ScriptToken.expressionOf (.node (levelRule level) span (t :: us)) = levelFold level tree us
  done : ∀ tree, levelFold level tree [] = .ok tree

/-- The levels of operators with two operands, of calls and of members gather. -/
theorem gathers (gathering : IsGathering level) : Gathers level := by
  have levels : level = 2 ∨ level = 3 ∨ level = 4 ∨ level = 5 ∨ level = 6 ∨ level = 7 ∨ level = 8 ∨
      level = 9 ∨ level = 10 ∨ level = 11 ∨ level = 14 ∨ level = 15 := by
    unfold IsGathering at gathering
    omega
  have mem : levelStep level ∈ continuations level := by
    unfold continuations
    rw [if_pos gathering]
    exact List.mem_singleton_self _
  rcases levels with rfl | rfl | rfl | rfl | rfl | rfl | rfl | rfl | rfl | rfl | rfl | rfl
  all_goals
    refine ⟨by decide, rfl, rfl, mem, ?_, fun tree => ?_⟩
    · intro span t tree us is
      simp only [levelRule, ScriptToken.expressionOf, ScriptToken.isChain, is, if_true]
      rfl
    · rfl

/-- What is read as a conditional is read where an assignment is asked for. -/
theorem Builds.of_conditional (stops : Stops 1 after)
    (h : Builds (.rule .conditionalExpression) after D cs) : Builds (levelPattern 1) after D cs := by
  refine .alone (r := .assignmentExpression) rfl (.inr rfl) (fun span t tree is => ?_)
    (List.mem_cons_of_mem _ (List.mem_singleton_self _)) stops h
  rwa [ScriptToken.expressionOf]

/-- What is read at a level is read at the level below. -/
theorem Builds.lower (lt : level < 16)
    (plain : level = 12 → Refuses false (.rule .unaryOperator) cs) (stops : Stops level after)
    (h : Builds (levelPattern (level + 1)) after D cs) : Builds (levelPattern level) after D cs := by
  have levels : IsGathering level ∨ level = 0 ∨ level = 1 ∨ level = 12 ∨ level = 13 := by
    unfold IsGathering
    omega
  rcases levels with gathering | rfl | rfl | rfl | rfl
  · have gathers := gathers gathering
    rw [levelPattern, if_pos lt]
    exact .alone gathers.manner (.inl gathers.body)
      (fun span t tree is => (gathers.node span t tree [] is).trans (gathers.done tree))
      gathers.mem stops h
  -- a sequence
  · refine .alone (r := .expression) rfl (.inl rfl) (fun span t tree is => ?_)
      (List.mem_singleton_self _) stops h
    rwa [ScriptToken.expressionOf]
  -- a conditional, and no assignment
  · refine .of_conditional stops (.alone rfl (.inr rfl) (fun span t tree is => ?_)
      List.mem_cons_self stops h)
    rwa [ScriptToken.expressionOf]
  -- no unary operator stands in front
  · have inside : Builds Rule.unaryExpression.body after D cs := .right (plain rfl).first h
    refine (Finds.node rfl inside).mono ?_
    rintro ts rest ⟨span, us, rfl, near, t, tree, rfl, is, holds⟩
    exact ⟨near, _, tree, rfl, by rwa [ScriptToken.expressionOf], holds⟩
  -- no update follows
  · refine .alone (r := .postfixExpression) rfl (.inr rfl) (fun span t tree is => ?_)
      (List.mem_singleton_self _) stops h
    rwa [ScriptToken.expressionOf]

/-- What is read at a level is read at all levels below. -/
theorem Builds.lower_le {high low : Nat} (le : low ≤ high) (within : high ≤ 16)
    (plain : low ≤ 12 → 12 < high → Refuses false (.rule .unaryOperator) cs)
    (stops : Stops low after) (h : Builds (levelPattern high) after D cs) :
    Builds (levelPattern low) after D cs := by
  induction high with
  | zero => rwa [Nat.le_zero.1 le]
  | succ high ih =>
    rcases Nat.le_or_eq_of_le_succ le with le | rfl
    · refine ih le (by omega) (fun below above => plain below (by omega))
        (h.lower (by omega) ?_ (stops.mono le))
      rintro rfl
      exact plain le (Nat.lt_succ_self 12)
    · exact h

/-- The tokens are a single token of an expression that is the phrase. -/
def IsTree (e : Phrase) (ts : List ScriptToken) : Prop :=
  ∃ t tree, ts = [t] ∧ ScriptToken.expressionOf t = .ok tree ∧ e.Denotes tree

/-- The pattern reads the phrase from the tokens, where what follows continues no level from `floor`
on. -/
def Parses (p : Pattern Rule) (floor : Nat) (tokens : List String) (e : Phrase) : Prop :=
  ∀ after cs, Spaced (tokens ++ after) cs → Stops floor after →
    Finds (.once p) cs fun ts rest => Near after rest ∧ IsTree e ts

/-- No operator before its operand begins a text of the tokens. -/
def Plain (tokens : List String) : Prop :=
  ∀ after cs, Spaced (tokens ++ after) cs → Refuses false (.rule .unaryOperator) cs

theorem Parses.of_conditional (h : Parses (.rule .conditionalExpression) 1 tokens e) :
    Parses (levelPattern 1) 1 tokens e := fun after cs spaced stops =>
  Builds.of_conditional stops (h after cs spaced stops)

/-- What is read at a level is read at all levels below. -/
theorem Parses.lower_le {high low : Nat} (le : low ≤ high) (within : high ≤ 16)
    (plain : low ≤ 12 → 12 < high → Plain tokens)
    (h : Parses (levelPattern high) high tokens e) : Parses (levelPattern low) low tokens e :=
  fun after cs spaced stops =>
    Builds.lower_le le within (fun below above => plain below above after cs spaced) stops
      (h after cs spaced (stops.mono le))

/-! ## Gathered operands -/

/-- The tokens of the phrase are read as a first operand and further steps, where what follows
continues no level from `floor` on: whatever is found after them, the first operand and then all
steps are found, and folding over all of them is folding over what comes after, from the phrase's
tree. -/
def Grows (level floor : Nat) (tokens : List String) (e : Phrase) : Prop :=
  ∀ after cs (P : Expression → List ScriptToken → List Char → Prop), Spaced (tokens ++ after) cs →
    Stops floor after →
    (∀ tree rest, e.Denotes tree → Near after rest →
      Finds (.more (levelStep level)) rest (P tree)) →
    Finds (.once (.seq (levelPattern (level + 1)) (.many (levelStep level)))) cs fun ts rest =>
      ∃ t us first tree vs, ts = t :: us ∧ ScriptToken.expressionOf t = .ok first ∧
        levelFold level first us = levelFold level tree vs ∧ P tree vs rest

namespace Grows

/-- A first operand. -/
theorem first (h : Parses (levelPattern (level + 1)) (level + 1) tokens e) :
    Grows level (level + 1) tokens e := by
  intro after cs P spaced stops further
  refine .seq (h after cs spaced stops) ?_ stops.opens
  rintro ts mid ⟨near, t, tree, rfl, is, denotes⟩
  refine ⟨near, fun cs' spaced' => .many (stops.opens cs' spaced') ?_⟩
  exact (further tree cs' denotes spaced'.near).mono fun vs rest holds =>
    ⟨t, vs, tree, tree, vs, rfl, is, rfl, holds⟩

/-- What follows may be asked to continue less. -/
theorem mono {floor' : Nat} (h : Grows level floor tokens e) (le : floor' ≤ floor) :
    Grows level floor' tokens e := fun after cs P spaced stops =>
  h after cs P spaced (stops.mono le)

/-- One more step. -/
theorem extend {left : Phrase} {others : List String} {floor' : Nat}
    (h : Grows level floor tokens left)
    (stops : ∀ after, Stops floor' after → Stops floor (others ++ after))
    (found : ∀ after cs, Spaced (others ++ after) cs → Stops floor' after →
      Finds (.once (levelStep level)) cs fun ts rest => Near after rest ∧
        ∀ first, left.Denotes first → ∃ tree, e.Denotes tree ∧
          ∀ us, levelFold level first (ts ++ us) = levelFold level tree us) :
    Grows level floor' (tokens ++ others) e := by
  intro after cs P spaced stops' further
  rw [List.append_assoc] at spaced
  -- the steps after `left` are this one and what comes after
  refine (h (others ++ after) cs (fun first us rest => ∃ tree vs,
    levelFold level first us = levelFold level tree vs ∧ P tree vs rest) spaced
    (stops after stops') ?_).mono ?_
  · intro first rest denotes near
    refine .more near (stops after stops').opens fun cs' spaced' => ?_
    refine (found after cs' spaced' stops').mono ?_
    rintro ts mid ⟨near', folded⟩
    obtain ⟨tree, denotes', folded⟩ := folded first denotes
    exact (further tree mid denotes' near').mono fun vs rest holds => ⟨tree, vs, folded vs, holds⟩
  · rintro ts rest ⟨t, us, first, tree, vs, rfl, is, folded, tree', vs', folded', holds⟩
    exact ⟨t, us, first, tree', vs', rfl, is, folded.trans folded', holds⟩

/-- The rule of the level reads what is gathered, where nothing continues it. -/
theorem parses (gathering : IsGathering level) (le : level ≤ floor)
    (h : Grows level floor tokens e) :
    Parses (levelPattern level) level tokens e := by
  have gathers := gathers gathering
  intro after cs spaced stops
  have inside := h after cs (fun tree us rest => us = [] ∧ Near after rest ∧ e.Denotes tree) spaced
    (stops.mono le) fun tree rest denotes near =>
      .noMore near stops.opens
        (fun _ spaced' => stops.refuses (Nat.le_refl level) _ gathers.mem spaced')
        ⟨rfl, near, denotes⟩
  rw [← gathers.body] at inside
  rw [levelPattern, if_pos gathers.within]
  refine (Finds.node gathers.manner inside).mono ?_
  rintro ts rest ⟨span, us, rfl, t, us', first, tree, vs, rfl, is, folded, rfl, near, denotes⟩
  refine ⟨near, _, tree, rfl, ?_, denotes⟩
  rw [gathers.node span t first us' is, folded, gathers.done]

end Grows

end AbstractScript
