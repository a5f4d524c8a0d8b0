import AbstractScript.Proofs.SourceSpans
import AbstractScript.Proofs.TokenLayout
import AbstractScript.Proofs.TreeBuilding

/-!
# Source spans nest

The builder makes the nodes of a syntax tree from tokens. It gives a node the span of a token, or the
span from one part to another where operands or suffixes are grouped to the left. Whatever it makes
from tokens that stand one after another, stands there too, so that the spans of every program that
is read from a text nest (`Program.spans_nested`).
-/
namespace AbstractScript

open Grammar

namespace ScriptToken

/-! ## What the builder makes -/

/-- What the builder makes has property `P`, if it makes anything. -/
def Makes {α : Type} (x : Except SyntaxError α) (P : α → Prop) : Prop := ∀ a, x = .ok a → P a

namespace Makes

variable {α β : Type} {x : Except SyntaxError α} {P : α → Prop} {Q : β → Prop}

theorem ok {a : α} (h : P a) : Makes (.ok a) P := by
  rintro _ ⟨⟩
  exact h

theorem pure {a : α} (h : P a) : Makes (Pure.pure a) P := ok h

theorem error {e : SyntaxError} : Makes (.error e) P := by
  rintro _ ⟨⟩

/-- One part and then the rest. -/
theorem bind {f : α → Except SyntaxError β} (first : Makes x P)
    (rest : ∀ a, P a → Makes (f a) Q) : Makes (x >>= f) Q := by
  cases x with
  | error e => exact error
  | ok a => exact rest a (first a rfl)

/-- A part that stands nowhere, and then the rest. -/
theorem after {f : α → Except SyntaxError β} (rest : ∀ a, Makes (f a) Q) : Makes (x >>= f) Q :=
  bind (P := fun _ => True) (fun _ _ => trivial) fun a _ => rest a

/-- What is known of a part implies something else. -/
theorem imp {Q : α → Prop} (first : Makes x P) (h : ∀ a, P a → Q a) : Makes x Q :=
  fun a made => h a (first a made)

theorem map {f : α → β} (first : Makes x P) (h : ∀ a, P a → Q (f a)) : Makes (f <$> x) Q := by
  cases x with
  | error e => exact error
  | ok a => exact ok (h a (first a rfl))

end Makes

/-! ## Rows of tokens -/

/-- Tokens of the grammar, smaller than `n`, that stand one after another between two offsets. -/
structure Row (source : String) (n low high : Nat) (ts : List ScriptToken) : Prop where
  laidOut : Token.LaidOut scriptRanking source low high ts
  small : Small n ts
  sound : ∀ t ∈ ts, ∃ r, t.IsOf scripts r

namespace Row

variable {source : String} {n low high : Nat} {r : Rule} {span : Span} {t : ScriptToken}
  {inside ts : List ScriptToken} {spans : List SpanTree}

theorem le (row : Row source n low high ts) : low ≤ high := row.laidOut.le

theorem bounded (row : Row source n low high ts) : high ≤ source.utf8ByteSize :=
  row.laidOut.bounded

/-- The first token and then the others. -/
theorem uncons (row : Row source n low high (t :: ts)) :
    Row source n low t.span.stop [t] ∧ Row source n t.span.stop high ts := by
  obtain ⟨first, others⟩ := row.laidOut.uncons
  obtain ⟨small, smaller⟩ := List.forall_mem_cons.1 row.small
  obtain ⟨sound, sounds⟩ := List.forall_mem_cons.1 row.sound
  exact ⟨⟨first, List.forall_mem_singleton.2 small, List.forall_mem_singleton.2 sound⟩,
    others, smaller, sounds⟩

/-- The tokens after the first one. -/
theorem skip (row : Row source n low high (t :: ts)) : Row source n low high ts := by
  obtain ⟨first, others⟩ := row.uncons
  exact ⟨others.laidOut.mono first.le, others.small, others.sound⟩

/-- The tokens inside a node are those of its rule. -/
theorem shape (row : Row source n low high [.node r span inside]) :
    Yields scripts r.body inside := by
  obtain ⟨r', is⟩ := row.sound _ (List.mem_singleton_self _)
  cases is with
  | node _ inside => exact inside

/-- The tokens inside a node are smaller than the node. -/
theorem parts (row : Row source (n + 1) low high [.node r span inside]) :
    Row source n span.start span.stop inside where
  laidOut := by
    cases row.laidOut with
    | node _ _ parts _ => exact parts
  small := by
    intro t mem
    have := row.small _ (List.mem_singleton_self _)
    have := List.sizeOf_lt_of_mem mem
    simp only [Token.node.sizeOf_spec] at *
    omega
  sound := by
    intro t mem
    obtain ⟨r', -, is⟩ := row.shape.exists_rule t mem
    exact ⟨r', is⟩

/-- The tokens inside a node are as small as the node. -/
theorem within (row : Row source n low high [.node r span inside]) :
    Row source n span.start span.stop inside := by
  have larger : Row source (n + 1) low high [.node r span inside] :=
    ⟨row.laidOut, fun t mem => Nat.lt_succ_of_lt (row.small t mem), row.sound⟩
  exact larger.parts

/-- What stands inside a node stands where the node does. -/
theorem widen (row : Row source n low high [.node r span inside])
    (made : SpanTree.LaidOut source span.start span.stop spans) :
    SpanTree.LaidOut source low high spans := by
  cases row.laidOut with
  | node after _ _ rest => exact made.mono after rest.le rest.bounded

/-- A node around what is made from the tokens inside. -/
theorem node (row : Row source n low high [.node r span inside])
    (takes : scriptRanking.takes r = true)
    (made : SpanTree.LaidOut source span.start span.stop spans) :
    SpanTree.LaidOut source low high [.node span none spans] := by
  cases row.laidOut with
  | node after nonempty parts rest => exact made.node after (nonempty takes) rest.le rest.bounded

/-- A node stands at its own span. -/
theorem alone (row : Row source n low high [.node r span inside]) :
    Row source n span.start span.stop [.node r span inside] := by
  cases row.laidOut with
  | node _ nonempty parts _ =>
    exact ⟨.node (Nat.le_refl _) nonempty parts (.nil (Nat.le_refl _) parts.bounded), row.small,
      row.sound⟩

/-- Some of the tokens. -/
theorem filter (row : Row source n low high ts) (p : ScriptToken → Bool) :
    Row source n low high (ts.filter p) where
  laidOut := row.laidOut.filter p
  small := row.small.mono (List.filter_sublist.subset)
  sound := fun t mem => row.sound t (List.mem_filter.1 mem).1

/-- A node that reaches from a tree before a token to the end of the token. -/
theorem through {mid : Nat} {tree : SpanTree} (row : Row source n mid high [.node r span inside])
    (first : SpanTree.LaidOut source low mid [tree])
    (made : SpanTree.LaidOut source span.start span.stop spans) :
    SpanTree.LaidOut source low high [.node (tree.span.through span) none (tree :: spans)] := by
  cases row.laidOut with
  | node after _ _ rest => exact first.through made after rest.le rest.bounded

end Row

section

variable {source : String} {n low mid high : Nat} {span : Span} {t : ScriptToken}
  {ts : List ScriptToken}

/-! ## Words -/

/-- An identifier stands where its word stands. -/
theorem makes_identifierOf (row : Row source n low high [t]) :
    Makes (identifierOf t) fun id => SpanTree.LaidOut source low high [id.spans] := by
  have word : ∀ {r span text}, Row source n low high [.word r span text] →
      scriptRanking.takes r = true →
      SpanTree.LaidOut source low high [(Identifier.mk span text).spans] := by
    intro r span text row takes
    cases row.laidOut with
    | word after forward nonempty read rest =>
      exact .identifier after (nonempty takes) rest.le rest.bounded read
  unfold identifierOf
  split
  · exact .ok (word row rfl)
  · exact .ok (word row rfl)
  · exact .error

/-- The identifiers of several words. -/
theorem makes_identifiers (row : Row source n low high ts) :
    Makes (ts.mapM identifierOf) fun ids =>
      SpanTree.LaidOut source low high (ids.map Identifier.spans) := by
  induction ts generalizing low with
  | nil => exact .pure (.nil row.le row.bounded)
  | cons t ts ih =>
    obtain ⟨first, others⟩ := row.uncons
    rw [List.mapM_cons]
    refine (makes_identifierOf first).bind fun id laid => ?_
    exact (ih others).bind fun ids laid' => .pure (laid.append laid')

/-- Parameters. -/
theorem makes_parametersOf (row : Row source n low high [t]) :
    Makes (parametersOf t) fun ids =>
      SpanTree.LaidOut source low high (ids.map Identifier.spans) := by
  unfold parametersOf
  split
  · exact (makes_identifiers row.within).imp fun _ => row.widen
  · exact .error

/-- The label after `break` or `continue`. -/
theorem makes_labelOf (row : Row source n low high ts) :
    Makes (labelOf span ts) fun label =>
      SpanTree.LaidOut source low high (label.toList.map Identifier.spans) := by
  unfold labelOf
  split
  · exact .ok (.nil row.le row.bounded)
  · exact (makes_identifierOf row).map fun id laid => laid
  · exact .error

end

/-! ## Expressions -/

/-- What the builder makes from tokens smaller than `n` stands where the tokens stand. -/
structure LaysBelow (source : String) (n : Nat) : Prop where
  expression : ∀ {low high : Nat} {t : ScriptToken}, Row source n low high [t] →
    Makes (expressionOf t) fun e => SpanTree.LaidOut source low high [e.spans]
  statement : ∀ {low high : Nat} {t : ScriptToken}, Row source n low high [t] →
    Makes (statementOf t) fun s => SpanTree.LaidOut source low high [s.spans]

section

variable {source : String} {n low mid high : Nat} {span : Span} {t : ScriptToken}
  {ts : List ScriptToken} (below : LaysBelow source n)

include below

/-- Several expressions. -/
theorem makes_expressionsOf (row : Row source n low high ts) :
    Makes (expressionsOf ts) fun es => SpanTree.LaidOut source low high (expressionSpans es) := by
  induction ts generalizing low with
  | nil => exact .ok (.nil row.le row.bounded)
  | cons t ts ih =>
    obtain ⟨first, others⟩ := row.uncons
    refine (below.expression first).bind fun e laid => ?_
    exact (ih others).bind fun es laid' => .pure (laid.append laid')

/-- Several statements. -/
theorem makes_statementsOf (row : Row source n low high ts) :
    Makes (statementsOf ts) fun ss => SpanTree.LaidOut source low high (statementSpans ss) := by
  induction ts generalizing low with
  | nil => exact .ok (.nil row.le row.bounded)
  | cons t ts ih =>
    obtain ⟨first, others⟩ := row.uncons
    refine (below.statement first).bind fun s laid => ?_
    exact (ih others).bind fun ss laid' => .pure (laid.append laid')

/-- Statements between braces. -/
theorem makes_braces {r : Rule} (row : Row source n low high [.node r span ts])
    (takes : scriptRanking.takes r = true) :
    Makes (statementsOf ts) fun ss =>
      SpanTree.LaidOut source low high [.node span none (statementSpans ss)] :=
  (makes_statementsOf below row.within).imp fun _ => row.node takes

omit below in
/-- An operation reaches from its left operand to its right operand. -/
theorem makes_operation {rule : Rule} {symbol : String} {left right : Expression}
    (first : SpanTree.LaidOut source low mid [left.spans])
    (second : SpanTree.LaidOut source mid high [right.spans]) :
    Makes (operation rule span symbol left right) fun e =>
      SpanTree.LaidOut source low high [e.spans] := by
  -- the operation reaches from the start of its left operand to the end of its right one
  have whole : SpanTree.LaidOut source low high
      [.node (left.span.through right.span) none [left.spans, right.spans]] := by
    rw [← left.span_spans, ← right.span_spans]
    cases second with
    | cons after nonempty nested rest =>
      have ended := Nat.le_trans rest.le rest.bounded
      have alone : SpanTree.LaidOut source right.spans.span.start right.spans.span.stop
          [right.spans] :=
        .cons (Nat.le_refl _) nonempty nested (.nil (Nat.le_refl _) ended)
      exact first.through alone after rest.le rest.bounded
  simp only [operation]
  split
  · exact .ok whole
  · exact .ok whole
  · split
    · exact .ok whole
    · exact .error

/-- Operands of one level of precedence, grouped to the left. -/
theorem makes_chained {left : Expression} {mid : Nat} {ts : List ScriptToken}
    (first : SpanTree.LaidOut source low mid [left.spans]) (row : Row source n mid high ts) :
    Makes (chained left ts) fun e => SpanTree.LaidOut source low high [e.spans] := by
  rcases ts with - | ⟨⟨rule, span, symbol⟩ | _, ts⟩
  · exact .ok (first.mono (Nat.le_refl _) row.le row.bounded)
  · cases ts with
    | nil => exact .error
    | cons t rest =>
      obtain ⟨operand, others⟩ := row.skip.uncons
      refine (below.expression operand).bind fun right second => ?_
      refine (makes_operation first second).bind fun e whole => ?_
      exact makes_chained whole others
  · exact .error

/-- An expression and what is called or accessed after it. -/
theorem makes_suffixed {object : Expression}
    (first : SpanTree.LaidOut source low mid [object.spans]) (row : Row source n mid high ts) :
    Makes (suffixed object ts) fun e => SpanTree.LaidOut source low high [e.spans] := by
  -- by induction on the suffixes, each of which reaches further than what it follows
  induction ts generalizing object mid with
  | nil => exact .ok (first.mono (Nat.le_refl _) row.le row.bounded)
  | cons t ts ih =>
    obtain ⟨suffix, others⟩ := row.uncons
    unfold suffixed
    rw [← object.span_spans]
    split
    next none => cases none
    -- the arguments of a call
    next same =>
      cases same
      refine (makes_expressionsOf below suffix.within).bind fun arguments made => ?_
      exact ih (suffix.through first made) others
    -- the name of a property
    next same =>
      cases same
      refine (makes_identifierOf suffix.within).bind fun property made => ?_
      exact ih (suffix.through first made) others
    -- a computed name
    next same =>
      cases same
      refine (below.expression suffix.within).bind fun key made => ?_
      exact ih (suffix.through first made) others
    next => exact .error

/-- The elements of an array literal. Commas and holes make nothing. -/
theorem makes_elementsOf {afterElement : Bool} (row : Row source n low high ts) :
    Makes (elementsOf afterElement ts) fun xs =>
      SpanTree.LaidOut source low high (elementSpans xs) := by
  induction ts generalizing low afterElement with
  | nil => exact .ok (.nil row.le row.bounded)
  | cons t ts ih =>
    unfold elementsOf
    split
    next none => cases none
    -- a comma
    next same =>
      cases same
      refine (ih row.skip).bind fun xs laid => .pure ?_
      cases afterElement <;> exact laid
    -- an element
    next same =>
      cases same
      split
      · exact .error
      · obtain ⟨first, others⟩ := row.uncons
        refine (below.expression first).bind fun x laid => ?_
        exact (ih others).bind fun xs laid' => .pure (laid.append laid')

/-- The entries of an object literal. -/
theorem makes_entriesOf (row : Row source n low high ts) :
    Makes (entriesOf ts) fun es => SpanTree.LaidOut source low high (entrySpans es) := by
  induction ts generalizing low with
  | nil => exact .ok (.nil row.le row.bounded)
  | cons t ts ih =>
    obtain ⟨entry, others⟩ := row.uncons
    unfold entriesOf
    split
    next none => cases none
    next same =>
      cases same
      refine .after fun key => (below.expression entry.within.skip).bind fun x laid => ?_
      refine (ih others).bind fun es laid' => .pure ?_
      exact (entry.node rfl laid).append laid'
    next same =>
      cases same
      refine .after fun key => (makes_braces below entry.within.skip rfl).bind fun ss laid => ?_
      refine (ih others).bind fun es laid' => .pure ?_
      -- the function of an entry has the span of the entry
      exact (entry.node rfl (entry.alone.node rfl laid)).append laid'
    next same =>
      cases same
      refine .after fun key => ?_
      obtain ⟨first, braces⟩ := entry.within.skip.uncons
      refine (makes_identifierOf first).bind fun parameter laid => ?_
      refine (makes_braces below braces rfl).bind fun ss laid' => ?_
      refine (ih others).bind fun es laid'' => .pure ?_
      exact (entry.node rfl (entry.alone.node rfl (laid.append laid'))).append laid''
    next => exact .error

/-- Every rule of expressions. -/
theorem makes_expressionOf (row : Row source (n + 1) low high [t]) :
    Makes (expressionOf t) fun e => SpanTree.LaidOut source low high [e.spans] := by
  cases t with
  | word r span text =>
    unfold expressionOf
    split
    next same =>
      cases same
      exact (makes_identifierOf row).map fun id laid => laid
    next => exact .error
    next same => cases same
  | node r span inside =>
    have parts := row.parts
    -- a level of precedence without an operator makes what the next level makes
    have passed : ∀ {t}, inside = [t] →
        Makes (expressionOf t) fun e => SpanTree.LaidOut source low high [e.spans] := by
      rintro t rfl
      exact (below.expression parts).imp fun _ => row.widen
    unfold expressionOf
    split
    next => exact passed rfl
    next => exact (makes_expressionsOf below parts).map fun es laid => row.node rfl laid
    next => exact passed rfl
    next left opSpan symbol right =>
      obtain ⟨target, others⟩ := parts.uncons
      refine (below.expression target).bind fun target laid => .after fun _ => ?_
      split
      · refine (below.expression others.skip).bind fun value laid' => .pure ?_
        exact row.node rfl (laid.append laid')
      · exact .error
    next => exact passed rfl
    next test consequent alternate =>
      obtain ⟨test, others⟩ := parts.uncons
      obtain ⟨consequent, alternate⟩ := others.uncons
      refine (below.expression test).bind fun test laid => ?_
      refine (below.expression consequent).bind fun consequent laid' => ?_
      refine (below.expression alternate).bind fun alternate laid'' => .pure ?_
      exact row.node rfl (laid.append (laid'.append laid''))
    next => exact passed rfl
    next opSpan symbol operand =>
      refine (below.expression parts.skip).bind fun argument laid => ?_
      split
      · exact .after fun _ => .pure (row.node rfl laid)
      · split
        · exact .pure (row.node rfl laid)
        · exact .error
    next => exact passed rfl
    next operand opSpan symbol =>
      obtain ⟨operand, operator⟩ := parts.uncons
      refine (below.expression operand).bind fun argument laid => .after fun _ => ?_
      split
      · exact .pure (row.node rfl (laid.mono (Nat.le_refl _) operator.le operator.bounded))
      · exact .error
    next head suffixes =>
      obtain ⟨head, suffixes⟩ := parts.uncons
      refine (below.expression head).bind fun object laid => ?_
      exact (makes_suffixed below laid suffixes).imp fun _ => row.widen
    next head suffixes =>
      obtain ⟨head, suffixes⟩ := parts.uncons
      refine (below.expression head).bind fun object laid => ?_
      exact (makes_suffixed below laid suffixes).imp fun _ => row.widen
    next callee =>
      exact (below.expression parts.skip).bind fun callee laid => .pure (row.node rfl laid)
    next callee argumentSpan arguments =>
      obtain ⟨callee, arguments⟩ := parts.skip.uncons
      refine (below.expression callee).bind fun callee laid => ?_
      refine (makes_expressionsOf below arguments.within).bind fun es laid' => .pure ?_
      exact row.node rfl (laid.append (arguments.widen laid'))
    next => exact .ok (row.node rfl (.nil parts.le parts.bounded))
    next => exact passed rfl
    next => exact passed rfl
    next literal =>
      refine .map (P := fun _ => True) (fun _ _ => trivial) fun value _ => ?_
      exact row.node rfl (.nil parts.le parts.bounded)
    next => exact (makes_elementsOf below parts).map fun xs laid => row.node rfl laid
    next => exact (makes_entriesOf below parts).map fun es laid => row.node rfl laid
    next parameters bodySpan body =>
      obtain ⟨parameters, braces⟩ := parts.skip.uncons
      refine (makes_parametersOf parameters).bind fun parameters laid => ?_
      refine (makes_braces below braces rfl).bind fun body laid' => .pure ?_
      exact row.node rfl (laid.append laid')
    next id parameters bodySpan body =>
      obtain ⟨id, others⟩ := parts.skip.uncons
      obtain ⟨parameters, braces⟩ := others.uncons
      refine (makes_identifierOf id).bind fun id laid => ?_
      refine (makes_parametersOf parameters).bind fun parameters laid' => ?_
      refine (makes_braces below braces rfl).bind fun body laid'' => .pure ?_
      exact row.node rfl (laid.append (laid'.append laid''))
    next first rest _ =>
      split
      · obtain ⟨first, rest⟩ := parts.uncons
        refine (below.expression first).bind fun left laid => ?_
        exact (makes_chained below laid rest).imp fun _ => row.widen
      · exact .error
    next => exact .error

/-! ## Statements -/

/-- The variables of a declaration. -/
theorem makes_declaratorsOf (row : Row source n low high ts) :
    Makes (declaratorsOf ts) fun ds => SpanTree.LaidOut source low high (declaratorSpans ds) := by
  induction ts generalizing low with
  | nil => exact .ok (.nil row.le row.bounded)
  | cons t ts ih =>
    obtain ⟨declarator, others⟩ := row.uncons
    unfold declaratorsOf
    split
    next none => cases none
    -- a variable without a value
    next same =>
      cases same
      refine (makes_identifierOf declarator.within).bind fun id laid => ?_
      refine (ih others).bind fun ds laid' => .pure ?_
      exact (declarator.node rfl laid).append laid'
    -- a variable with a value
    next same =>
      cases same
      obtain ⟨id, value⟩ := declarator.within.uncons
      refine (makes_identifierOf id).bind fun id laid => ?_
      refine (below.expression value).bind fun value laid' => ?_
      refine (ih others).bind fun ds laid'' => .pure ?_
      exact (declarator.node rfl (laid.append laid')).append laid''
    next => exact .error

/-- The cases of a switch. -/
theorem makes_casesOf (row : Row source n low high ts) :
    Makes (casesOf ts) fun cs => SpanTree.LaidOut source low high (caseSpans cs) := by
  induction ts generalizing low with
  | nil => exact .ok (.nil row.le row.bounded)
  | cons t ts ih =>
    obtain ⟨clause, others⟩ := row.uncons
    unfold casesOf
    split
    next none => cases none
    -- a default clause
    next same =>
      cases same
      refine (makes_statementsOf below clause.within.skip).bind fun ss laid => ?_
      refine (ih others).bind fun cs laid' => .pure ?_
      exact (clause.node rfl laid).append laid'
    -- a clause with a test
    next same =>
      cases same
      obtain ⟨test, body⟩ := clause.within.skip.uncons
      refine (below.expression test).bind fun test laid => ?_
      refine (makes_statementsOf below body).bind fun ss laid' => ?_
      refine (ih others).bind fun cs laid'' => .pure ?_
      exact (clause.node rfl (laid.append laid')).append laid''
    next => exact .error

/-- The spans of the parts of a `for` statement found so far, in the order of the source. -/
def forSpans (parts : ForParts) : List SpanTree :=
  startSpans parts.start ++ (optionSpans parts.test ++ (optionSpans parts.update ++
    alternateSpans parts.body))

/-- The body of a `for` statement comes last. -/
theorem makes_forBody {start : Option ForStart} {test update : Option Expression}
    (laid : SpanTree.LaidOut source low mid (forSpans ⟨start, test, update, none⟩))
    (row : Row source n mid high ts) (h : Leaves scripts Grammar.statement (· = []) ts) :
    Makes (forPartsOf ⟨start, test, update, none⟩ ts) fun parts =>
      SpanTree.LaidOut source low high (forSpans parts) := by
  obtain ⟨t, _, is, rfl, rfl⟩ := exists_statement h
  rw [forPartsOf_statement is]
  refine (below.statement row).bind fun s laid' => .ok ?_
  have whole := laid.append laid'
  simpa [forSpans, alternateSpans] using whole

/-- The update of a `for` statement comes before the body. -/
theorem makes_forUpdate {start : Option ForStart} {test : Option Expression}
    (laid : SpanTree.LaidOut source low mid (forSpans ⟨start, test, none, none⟩))
    (row : Row source n mid high ts)
    (h : Leaves scripts (.opt (.rule .forUpdate)) (Leaves scripts Grammar.statement (· = [])) ts) :
    Makes (forPartsOf ⟨start, test, none, none⟩ ts) fun parts =>
      SpanTree.LaidOut source low high (forSpans parts) := by
  rcases h with ⟨t, us, is, h, rfl⟩ | h
  · obtain ⟨update, others⟩ := row.uncons
    obtain ⟨span, us, rfl, inside⟩ := exists_node is rfl
    obtain ⟨t, _, -, rfl, rfl⟩ := inside.parts
    refine (below.expression update.within).bind fun e laid' => ?_
    refine makes_forBody below ?_ others h
    have found := laid.append (update.widen laid')
    simpa [forSpans, optionSpans, alternateSpans] using found
  · exact makes_forBody below laid row h

/-- The test of a `for` statement comes before the update. -/
theorem makes_forTest {start : Option ForStart}
    (laid : SpanTree.LaidOut source low mid (forSpans ⟨start, none, none, none⟩))
    (row : Row source n mid high ts)
    (h : Leaves scripts (.opt (.rule .forTest)) (Leaves scripts (.opt (.rule .forUpdate))
      (Leaves scripts Grammar.statement (· = []))) ts) :
    Makes (forPartsOf ⟨start, none, none, none⟩ ts) fun parts =>
      SpanTree.LaidOut source low high (forSpans parts) := by
  rcases h with ⟨t, us, is, h, rfl⟩ | h
  · obtain ⟨test, others⟩ := row.uncons
    obtain ⟨span, us, rfl, inside⟩ := exists_node is rfl
    obtain ⟨t, _, -, rfl, rfl⟩ := inside.parts
    refine (below.expression test.within).bind fun e laid' => ?_
    refine makes_forUpdate below ?_ others h
    have found := laid.append (test.widen laid')
    simpa [forSpans, optionSpans, alternateSpans] using found
  · exact makes_forUpdate below laid row h

/-- What a `for` statement does first comes before the test. -/
theorem makes_forPartsOf (row : Row source n low high ts)
    (h : Leaves scripts (.opt (.rule .forInit)) (Leaves scripts (.opt (.rule .forTest))
      (Leaves scripts (.opt (.rule .forUpdate)) (Leaves scripts Grammar.statement (· = [])))) ts) :
    Makes (forPartsOf ⟨none, none, none, none⟩ ts) fun parts =>
      SpanTree.LaidOut source low high (forSpans parts) := by
  rcases h with ⟨t, us, is, h, rfl⟩ | h
  · obtain ⟨first, others⟩ := row.uncons
    have start : ∀ start, SpanTree.LaidOut source low t.span.stop [ForStart.spans start] →
        Makes (forPartsOf ⟨some start, none, none, none⟩ us) fun parts =>
          SpanTree.LaidOut source low high (forSpans parts) := fun start laid =>
      makes_forTest below laid others h
    obtain ⟨span, ts, rfl, inside⟩ := exists_node is rfl
    obtain ⟨k, _, keyword, ⟨list, _, isList, rfl, rfl⟩, rfl⟩ | ⟨t, _, isExpr, rfl, rfl⟩ :=
      inside.parts
    -- declared variables
    · obtain ⟨_, _, rfl, -⟩ := exists_word keyword rfl
      obtain ⟨listSpan, ds, rfl, -⟩ := exists_node isList rfl
      have list := first.within.skip
      refine (makes_declaratorsOf below list.within).bind fun ds laid => ?_
      exact start _ (first.node rfl (list.widen laid))
    -- an expression
    · obtain ⟨_, _, rfl, -⟩ := exists_node isExpr rfl
      refine (below.expression first.within).bind fun e laid => ?_
      exact start _ (first.widen laid)
  · exact makes_forTest below (.nil (Nat.le_refl _) (Nat.le_trans row.le row.bounded)) row h

/-- Every rule of statements. -/
theorem makes_statementOf (row : Row source (n + 1) low high [t]) :
    Makes (statementOf t) fun s => SpanTree.LaidOut source low high [s.spans] := by
  cases t with
  | word r span text =>
    unfold statementOf
    exact .error
  | node r span inside =>
    have parts := row.parts
    unfold statementOf
    split
    -- a block, and declared variables
    next => exact (makes_statementsOf below parts).map fun ss laid => row.node rfl laid
    next listSpan ts =>
      refine (makes_declaratorsOf below parts.skip.within).map fun ds laid => ?_
      exact row.node rfl (parts.skip.widen laid)
    -- an empty statement, a `debugger` statement and an expression
    next => exact .ok (row.node rfl (.nil parts.le parts.bounded))
    next => exact .ok (row.node rfl (.nil parts.le parts.bounded))
    next => exact (below.expression parts).map fun e laid => row.node rfl laid
    -- a branch, without and with an alternate
    next test consequent =>
      obtain ⟨test, consequent⟩ := parts.skip.uncons
      refine (below.expression test).bind fun test laid => ?_
      refine (below.statement consequent).bind fun s laid' => .pure ?_
      exact row.node rfl (laid.append laid')
    next test consequent alternate =>
      obtain ⟨test, others⟩ := parts.skip.uncons
      obtain ⟨consequent, alternate⟩ := others.uncons
      refine (below.expression test).bind fun test laid => ?_
      refine (below.statement consequent).bind fun s laid' => ?_
      refine (below.statement alternate.skip).bind fun s' laid'' => .pure ?_
      exact row.node rfl (laid.append (laid'.append laid''))
    -- loops with a test
    next body test =>
      obtain ⟨body, test⟩ := parts.skip.uncons
      refine (below.statement body).bind fun s laid => ?_
      refine (below.expression test.skip).bind fun test laid' => .pure ?_
      exact row.node rfl (laid.append laid')
    next test body =>
      obtain ⟨test, body⟩ := parts.skip.uncons
      refine (below.expression test).bind fun test laid => ?_
      refine (below.statement body).bind fun s laid' => .pure ?_
      exact row.node rfl (laid.append laid')
    -- loops over names, with a variable that is declared and with another target
    next varSpan id object body =>
      obtain ⟨declared, others⟩ := parts.skip.uncons
      obtain ⟨object, body⟩ := others.skip.uncons
      refine (makes_identifierOf declared.within.skip).bind fun id laid => ?_
      refine (below.expression object).bind fun object laid' => ?_
      refine (below.statement body).bind fun s laid'' => .pure ?_
      exact row.node rfl ((declared.node rfl laid).append (laid'.append laid''))
    next left object body _ =>
      obtain ⟨target, others⟩ := parts.skip.uncons
      obtain ⟨object, body⟩ := others.skip.uncons
      refine (below.expression target).bind fun target laid => .after fun _ => ?_
      refine (below.expression object).bind fun object laid' => ?_
      refine (below.statement body).bind fun s laid'' => .pure ?_
      exact row.node rfl (laid.append (laid'.append laid''))
    -- a `for` statement
    next words =>
      have h := row.shape.parts
      obtain ⟨k, _, -, h, same⟩ := h
      cases same
      refine (makes_forPartsOf below parts.skip h).bind fun found laid => ?_
      split
      next body known =>
        rw [forSpans, known] at laid
        exact .pure (row.node rfl laid)
      next => exact .error
    -- jumps and throws
    next => exact (makes_labelOf parts.skip).map fun label laid => row.node rfl laid
    next => exact (makes_labelOf parts.skip).map fun label laid => row.node rfl laid
    next => exact .ok (row.node rfl (.nil parts.le parts.bounded))
    next => exact (below.expression parts.skip).map fun e laid => row.node rfl laid
    next => exact (below.expression parts.skip).map fun e laid => row.node rfl laid
    next discriminant cases =>
      obtain ⟨discriminant, cases⟩ := parts.skip.uncons
      refine (below.expression discriminant).bind fun x laid => ?_
      refine (makes_casesOf below cases).bind fun cs laid' => .pure ?_
      exact row.node rfl (laid.append laid')
    next label body _ =>
      obtain ⟨label, body⟩ := parts.uncons
      refine (makes_identifierOf label).bind fun id laid => ?_
      refine (below.statement body).bind fun s laid' => .pure ?_
      exact row.node rfl (laid.append laid')
    -- a `try` statement with a `finally` clause, with a `catch` clause and with both
    next blockSpan ts finalSpan final =>
      obtain ⟨block, last⟩ := parts.skip.uncons
      refine (makes_braces below block rfl).bind fun ss laid => ?_
      refine (makes_braces below last.within.skip rfl).bind fun final laid' => .pure ?_
      exact row.node rfl (laid.append (last.widen laid'))
    next blockSpan ts catchSpan parameter bodySpan body =>
      obtain ⟨block, clause⟩ := parts.skip.uncons
      obtain ⟨parameter, body⟩ := clause.within.skip.uncons
      refine (makes_braces below block rfl).bind fun ss laid => ?_
      refine (makes_identifierOf parameter).bind fun id laid' => ?_
      refine (makes_braces below body rfl).bind fun ss' laid'' => .pure ?_
      exact row.node rfl (laid.append (clause.node rfl (laid'.append laid'')))
    next blockSpan ts catchSpan parameter bodySpan body finalSpan final =>
      obtain ⟨block, clauses⟩ := parts.skip.uncons
      obtain ⟨clause, last⟩ := clauses.uncons
      obtain ⟨parameter, body⟩ := clause.within.skip.uncons
      refine (makes_braces below block rfl).bind fun ss laid => ?_
      refine (makes_identifierOf parameter).bind fun id laid' => ?_
      refine (makes_braces below body rfl).bind fun ss' laid'' => ?_
      refine (makes_braces below last.within.skip rfl).bind fun final finalLaid => .pure ?_
      have handler := clause.node rfl (laid'.append laid'')
      exact row.node rfl (laid.append (handler.append (last.widen finalLaid)))
    -- a function
    next id parameters bodySpan body =>
      obtain ⟨id, others⟩ := parts.skip.uncons
      obtain ⟨parameters, braces⟩ := others.uncons
      refine (makes_identifierOf id).bind fun id laid => ?_
      refine (makes_parametersOf parameters).bind fun parameters laid' => ?_
      refine (makes_braces below braces rfl).bind fun body laid'' => .pure ?_
      exact row.node rfl (laid.append (laid'.append laid''))
    next => exact .error

end

/-- Whatever the builder makes stands where its token stands. -/
theorem laysBelow (source : String) (n : Nat) : LaysBelow source n := by
  induction n with
  | zero =>
    have none : ∀ {low high t}, ¬ Row source 0 low high [t] := fun row =>
      Nat.not_lt_zero _ (row.small _ (List.mem_singleton_self _))
    exact ⟨fun row => absurd row none, fun row => absurd row none⟩
  | succ n below => exact ⟨makes_expressionOf below, makes_statementOf below⟩

/-- The spans of the program of a script's token nest. -/
theorem makes_programOf {source : String} {t : ScriptToken} (file : String)
    (laid : Token.LaidOut scriptRanking source 0 source.utf8ByteSize [t])
    (is : t.IsOf scripts .script) :
    Makes (programOf file t) fun p => p.spans.Nested source := by
  obtain ⟨span, ts, rfl, -⟩ := exists_node is rfl
  have row : Row source (sizeOf (Token.node Rule.script span ts) + 1) 0 source.utf8ByteSize
      [.node .script span ts] :=
    ⟨laid, List.forall_mem_singleton.2 (Nat.lt_succ_self _), List.forall_mem_singleton.2 ⟨_, is⟩⟩
  refine (makes_statementsOf (laysBelow source _) (row.parts.filter _)).bind fun body laid => ?_
  exact .pure laid.nested_node

end ScriptToken

/-- **Source spans nest.** In the tree of every source text that is read, each node starts where it
stops or before, and not after the end of the text; the parts of a node stand inside it, one after
another in the order of the source; and the text at an identifier's span is its name. -/
theorem Program.spans_nested {file source : String} {p : Program}
    (h : Program.ofSource file source = .ok p) : p.spans.Nested source := by
  rw [Program.ofSource] at h
  split at h
  next t parsed =>
    obtain ⟨c, gives⟩ := parseScript_eq_ok_iff.1 parsed
    obtain ⟨t', _, is, rfl, same⟩ := (Yields.of_gives gives).parts
    cases same
    exact ScriptToken.makes_programOf file (laidOut_of_parseScript parsed) is p h
  next => cases h

/-- A parenthesised object, a comment, an operation and blanks before the end of the statement. -/
theorem Program.spans_nested_grouped :
    ∃ p, Program.ofSource "a.js" "x = (f) . g /* of */ (1 + y) ;" = .ok p ∧
      p.spans.Nested "x = (f) . g /* of */ (1 + y) ;" := by
  have read : (Program.ofSource "a.js" "x = (f) . g /* of */ (1 + y) ;").isOk = true := by
    decide +kernel
  cases built : Program.ofSource "a.js" "x = (f) . g /* of */ (1 + y) ;" with
  | ok p => exact ⟨p, rfl, spans_nested built⟩
  | error e =>
    rw [built] at read
    cases read

end AbstractScript
