import AbstractScript.Proofs.LiteralTexts

/-!
# Every sentence of the grammar has its tree

The tokens of a text that the grammar accepts have the shape that the builder expects. So the
builder gives a tree, or it finds one of the six faults that a sentence of the grammar can have.
-/
namespace AbstractScript

open Grammar

/-- The faults that a sentence of the grammar can have. -/
def SyntaxFault.ofSentences : List SyntaxFault :=
  [.assignmentTarget, .postfixTarget, .leadingTarget, .forInTarget, .missingComma,
    .hexadecimalEscape]

/-! ## Outcomes of the builder -/

/-- Success, or one of the faults that a sentence of the grammar can have. -/
def Judged {α : Type} (x : Except SyntaxError α) : Prop :=
  ∀ e, x = .error e → e.fault ∈ SyntaxFault.ofSentences

namespace Judged

variable {α β : Type} {x : Except SyntaxError α}

/-- A result is an outcome of the kind. -/
theorem ok (a : α) : Judged (.ok a) := nofun

/-- The same in the notation of the monad. -/
theorem pure (a : α) : Judged (Pure.pure a) := nofun

/-- A fault of the list is an outcome of the kind. -/
theorem error {e : SyntaxError} (h : e.fault ∈ SyntaxFault.ofSentences) :
    Judged (.error e : Except SyntaxError α) := by
  rintro _ ⟨⟩
  exact h

/-- One part of a tree and then the rest, which may depend on the part. -/
theorem bind_of {f : α → Except SyntaxError β} (first : Judged x)
    (rest : ∀ a, x = .ok a → Judged (f a)) : Judged (x >>= f) := by
  cases x with
  | error e => exact error (first e rfl)
  | ok a => exact rest a rfl

/-- One part of a tree and then the rest. -/
theorem bind {f : α → Except SyntaxError β} (first : Judged x) (rest : ∀ a, Judged (f a)) :
    Judged (x >>= f) := first.bind_of fun a _ => rest a

/-- A function of a judged outcome is judged. -/
theorem map {f : α → β} (first : Judged x) : Judged (f <$> x) := by
  cases x with
  | error e => exact error (first e rfl)
  | ok a => exact ok _

/-- The parts of a list, one after another. -/
theorem mapM {f : α → Except SyntaxError β} {as : List α} (each : ∀ a ∈ as, Judged (f a)) :
    Judged (as.mapM f) := by
  induction as with
  | nil => exact pure _
  | cons a as ih =>
    obtain ⟨first, rest⟩ := List.forall_mem_cons.1 each
    rw [List.mapM_cons]
    exact first.bind fun _ => (ih rest).bind fun _ => pure _

end Judged

namespace ScriptToken

/-- Whether an expression is a target is a matter of what the sentence says. -/
theorem judged_requireTarget {fault : SyntaxFault} {span : Span} {e : Expression}
    (h : fault ∈ SyntaxFault.ofSentences) : Judged (requireTarget fault span e) := by
  rw [requireTarget]
  split
  · exact .ok ()
  · exact .error h

/-! ## Words -/

/-- The token of a word. -/
theorem exists_word {r : Rule} {t : ScriptToken} (h : t.IsOf scripts r)
    (manner : r.manner = .word) :
    ∃ span text, t = .word r span text ∧ Spells scripts r.body text.toList := by
  cases h with
  | word _ spelled => exact ⟨_, _, rfl, spelled⟩
  | node ordinary => cases manner.symm.trans ordinary

/-- The token of a node. -/
theorem exists_node {r : Rule} {t : ScriptToken} (h : t.IsOf scripts r)
    (manner : r.manner = .ordinary) :
    ∃ span ts, t = .node r span ts ∧ Yields scripts r.body ts := by
  cases h with
  | word word => cases word.symm.trans manner
  | node _ inside => exact ⟨_, _, rfl, inside⟩

/-- A word is an identifier where one is expected. -/
theorem judged_identifierOf {t : ScriptToken}
    (h : t.IsOf scripts .identifier ∨ t.IsOf scripts .identifierName) :
    Judged (identifierOf t) := by
  rcases h with h | h <;> obtain ⟨span, text, rfl, -⟩ := exists_word h rfl <;> exact .ok _

/-- A numeric literal denotes a number. -/
theorem judged_numberOf {span : Span} {text : String}
    (h : Spells scripts Rule.numericLiteral.body text.toList) : Judged (numberOf span text) := by
  obtain ⟨x, read⟩ := exists_numberOf h span
  rw [read]
  exact .ok x

/-- A string literal denotes a string, unless hexadecimal digits are missing. -/
theorem judged_stringOf {span : Span} {text : String}
    (h : Spells scripts Rule.stringLiteral.body text.toList) : Judged (stringOf span text) := by
  intro e failed
  rw [fault_of_stringOf h failed]
  decide

/-- A literal. -/
theorem judged_literal {span : Span} {ts : List ScriptToken}
    (h : Yields scripts Rule.literal.body ts) : Judged (expressionOf (.node .literal span ts)) := by
  obtain ⟨t, _, is, rfl, rfl⟩ | ⟨t, _, is, rfl, rfl⟩ | ⟨t, _, is, rfl, rfl⟩ | ⟨t, _, is, rfl, rfl⟩ |
    ⟨t, _, is, rfl, rfl⟩ := h.parts <;> obtain ⟨span, text, rfl, spelled⟩ := exists_word is rfl
  · exact .map (.ok _)
  · exact .map (.ok _)
  · exact .map (.ok _)
  · exact .map (.map (judged_numberOf spelled))
  · exact .map (.map (judged_stringOf spelled))

/-- The name of a property. -/
theorem judged_keyOf {t : ScriptToken} (h : t.IsOf scripts .propertyName) : Judged (keyOf t) := by
  obtain ⟨span, ts, rfl, inside⟩ := exists_node h rfl
  obtain ⟨t, _, is, rfl, rfl⟩ | ⟨t, _, is, rfl, rfl⟩ | ⟨t, _, is, rfl, rfl⟩ := inside.parts <;>
    obtain ⟨span, text, rfl, spelled⟩ := exists_word is rfl
  · exact judged_stringOf spelled
  · exact .map (judged_numberOf spelled)
  · exact .ok _

/-! ## Operators -/

/-- The text of an operator. -/
theorem eq_of_lit {text s : String} (h : Spells scripts (.lit s) text.toList) : text = s :=
  String.toList_inj.1 h.text

/-- One of several operators. -/
theorem mem_of_oneOfTexts {text : String} {texts : List String}
    (h : Spells scripts (.oneOfTexts texts) text.toList) : text ∈ texts := by
  obtain ⟨s, mem, same⟩ := h.oneOfTexts
  exact String.toList_inj.1 same ▸ mem

/-- The text of a keyword. -/
theorem eq_of_word {text s : String} (h : Spells scripts (word s) text.toList) : text = s :=
  eq_of_lit h.of_rule.notBefore

/-- The operators between operands are known. -/
theorem judged_operation {operator : Rule} {text : String}
    (known : operator = .logicalOrOperator ∨ operator = .logicalAndOperator ∨
      (BinaryOperator.ofSymbol? text).isSome) (span : Span) (left right : Expression) :
    Judged (operation operator span text left right) := by
  simp only [operation]
  split
  · exact .ok _
  · exact .ok _
  next other other' =>
    rcases known with h | h | h
    · exact absurd h other
    · exact absurd h other'
    · obtain ⟨op, read⟩ := Option.isSome_iff_exists.1 h
      rw [read]
      exact .ok _

/-- Every spelling of a multiplicative operator names an operator. -/
theorem isSome_multiplicative {text : String}
    (h : Spells scripts Rule.multiplicativeOperator.body text.toList) :
    (BinaryOperator.ofSymbol? text).isSome := by
  have all : ∀ s ∈ ["*", "/", "%"], (BinaryOperator.ofSymbol? s).isSome := by decide
  exact all text (mem_of_oneOfTexts h.notBefore)

/-- Every spelling of an additive operator does. -/
theorem isSome_additive {text : String}
    (h : Spells scripts Rule.additiveOperator.body text.toList) :
    (BinaryOperator.ofSymbol? text).isSome := by
  rcases h.alt with h | h <;> obtain rfl := eq_of_lit h.notBefore <;> decide

/-- Every spelling of a shift does. -/
theorem isSome_shift {text : String} (h : Spells scripts Rule.shiftOperator.body text.toList) :
    (BinaryOperator.ofSymbol? text).isSome := by
  have all : ∀ s ∈ [">>>", ">>", "<<"], (BinaryOperator.ofSymbol? s).isSome := by decide
  exact all text (mem_of_oneOfTexts h.notBefore)

/-- Every spelling of a relational operator does, the words `instanceof` and `in` included. -/
theorem isSome_relational {text : String}
    (h : Spells scripts Rule.relationalOperator.body text.toList) :
    (BinaryOperator.ofSymbol? text).isSome := by
  obtain ⟨p, mem, h⟩ := Spells.oneOf h
  simp only [List.mem_cons, List.not_mem_nil, or_false] at mem
  rcases mem with rfl | rfl | rfl | rfl | rfl | rfl
  · obtain rfl := eq_of_lit h
    decide
  · obtain rfl := eq_of_lit h
    decide
  · obtain rfl := eq_of_lit h.notBefore
    decide
  · obtain rfl := eq_of_lit h.notBefore
    decide
  · obtain rfl := eq_of_word h
    decide
  · obtain rfl := eq_of_word h
    decide

/-- Every spelling of an equality operator does. -/
theorem isSome_equality {text : String}
    (h : Spells scripts Rule.equalityOperator.body text.toList) :
    (BinaryOperator.ofSymbol? text).isSome := by
  have all : ∀ s ∈ ["===", "!==", "==", "!="], (BinaryOperator.ofSymbol? s).isSome := by decide
  exact all text (mem_of_oneOfTexts h)

/-- The bitwise operators have one spelling each. -/
theorem isSome_bitwise {text : String}
    (h : Spells scripts Rule.bitwiseAndOperator.body text.toList ∨
      Spells scripts Rule.bitwiseXorOperator.body text.toList ∨
      Spells scripts Rule.bitwiseOrOperator.body text.toList) :
    (BinaryOperator.ofSymbol? text).isSome := by
  rcases h with h | h | h <;> obtain rfl := eq_of_lit h.notBefore <;> decide

/-- The operators before an operand are known. -/
theorem isSome_unary {text : String} (h : Spells scripts Rule.unaryOperator.body text.toList) :
    (UpdateOperator.ofSymbol? text).isSome ∨ (UnaryOperator.ofSymbol? text).isSome := by
  have all : ∀ s ∈ ["delete", "void", "typeof", "++", "--", "+", "-", "~", "!"],
      (UpdateOperator.ofSymbol? s).isSome ∨ (UnaryOperator.ofSymbol? s).isSome := by decide
  refine all text ?_
  obtain ⟨p, mem, h⟩ := Spells.oneOf h
  simp only [List.mem_cons, List.not_mem_nil, or_false] at mem ⊢
  rcases mem with rfl | rfl | rfl | rfl | rfl | rfl | rfl | rfl | rfl
  any_goals simp [eq_of_word h]
  all_goals simp [eq_of_lit h]

/-- The operators after an operand are known. -/
theorem isSome_postfixed {text : String} (h : Spells scripts Rule.postfixOperator.body text.toList) :
    (UpdateOperator.ofSymbol? text).isSome := by
  have all : ∀ s ∈ ["++", "--"], (UpdateOperator.ofSymbol? s).isSome := by decide
  exact all text (mem_of_oneOfTexts h)

/-- The operators of assignments are known. -/
theorem isSome_assignment {text : String}
    (h : Spells scripts Rule.assignmentOperator.body text.toList) :
    (AssignmentOperator.ofSymbol? text).isSome := by
  have all : ∀ s ∈ ["*=", "/=", "%=", "+=", "-=", "<<=", ">>>=", ">>=", "&=", "^=", "|="],
      (AssignmentOperator.ofSymbol? s).isSome := by decide
  rcases h.alt with h | h
  · obtain rfl := eq_of_lit h.notBefore
    decide
  · exact all text (mem_of_oneOfTexts h)

/-! ## Rules of expressions -/

/-- The rules whose tokens are expressions. -/
def isExpression : Rule → Bool
  | .identifier | .expression | .assignmentExpression | .conditionalExpression
  | .logicalOrExpression | .logicalAndExpression | .bitwiseOrExpression | .bitwiseXorExpression
  | .bitwiseAndExpression | .equalityExpression | .relationalExpression | .shiftExpression
  | .additiveExpression | .multiplicativeExpression | .unaryExpression | .postfixExpression
  | .leftHandSideExpression | .memberExpression | .newMemberExpression | .primaryExpression
  | .parenthesizedExpression | .literal | .arrayLiteral | .objectLiteral | .functionExpression =>
    true
  | _ => false

/-- The rules whose tokens are statements. -/
def isStatement : Rule → Bool
  | .block | .variableStatement | .emptyStatement | .ifStatement | .doWhileStatement
  | .whileStatement | .forInStatement | .forStatement | .continueStatement | .breakStatement
  | .returnStatement | .switchStatement | .throwStatement | .tryStatement | .debuggerStatement
  | .labelledStatement | .expressionStatement | .functionDeclaration => true
  | _ => false

/-- A token of a statement. -/
def IsStatement (t : ScriptToken) : Prop := ∃ r, isStatement r ∧ t.IsOf scripts r

/-- The token that a statement leaves. -/
theorem exists_statement {P : List ScriptToken → Prop} {ts : List ScriptToken}
    (h : Leaves scripts statement P ts) : ∃ t us, IsStatement t ∧ P us ∧ ts = t :: us := by
  obtain ⟨r, mem, t, us, is, rest, rfl⟩ := h.oneOfRules
  have all : ∀ r ∈ [Rule.block, .variableStatement, .emptyStatement, .ifStatement,
      .doWhileStatement, .whileStatement, .forInStatement, .forStatement, .continueStatement,
      .breakStatement, .returnStatement, .switchStatement, .throwStatement, .tryStatement,
      .debuggerStatement, .labelledStatement, .expressionStatement], isStatement r := by decide
  exact ⟨t, us, ⟨r, all r mem, is⟩, rest, rfl⟩

/-- Where a pattern names statements only, all tokens are statements. -/
theorem forall_isStatement {p : Pattern Rule} {ts : List ScriptToken} (h : Yields scripts p ts)
    (only : ∀ r ∈ p.rules, isStatement r) : ∀ t ∈ ts, IsStatement t := by
  intro t mem
  obtain ⟨r, named, is⟩ := h.exists_rule t mem
  exact ⟨r, only r named, is⟩

/-- The builder judges all expressions and statements that are smaller than `n`. -/
structure JudgedBelow (n : Nat) : Prop where
  expression : ∀ {r : Rule} {t : ScriptToken}, t.IsOf scripts r → isExpression r →
    sizeOf t < n → Judged (expressionOf t)
  statement : ∀ {r : Rule} {t : ScriptToken}, t.IsOf scripts r → isStatement r →
    sizeOf t < n → Judged (statementOf t)

/-- All of several tokens are smaller than `n`. -/
def Small (n : Nat) (ts : List ScriptToken) : Prop := ∀ t ∈ ts, sizeOf t < n

namespace Small

variable {n : Nat} {ts us : List ScriptToken}

/-- A part of a small list. -/
theorem mono (small : Small n ts) (h : us ⊆ ts) : Small n us := fun t mem => small t (h mem)

/-- What is inside a small token. -/
theorem inside {r : Rule} {span : Span} (small : sizeOf (Token.node r span ts) < n) :
    Small n ts := by
  intro t mem
  have := List.sizeOf_lt_of_mem mem
  simp only [Token.node.sizeOf_spec] at small
  omega

end Small

section

variable {n : Nat} (below : JudgedBelow n) {ts : List ScriptToken} {span : Span}

include below

/-! ## Lists of tokens -/

omit below in
/-- The parameters of a function. -/
theorem judged_parametersOf {t : ScriptToken} (h : t.IsOf scripts .formalParameters) :
    Judged (parametersOf t) := by
  obtain ⟨span, ts, rfl, inside⟩ := exists_node h rfl
  exact .mapM fun t mem => judged_identifierOf (.inl (inside.forall_isOf (by decide) t mem))

/-- Several expressions. -/
theorem judged_expressionsOf (h : ∀ t ∈ ts, t.IsOf scripts .assignmentExpression)
    (small : Small n ts) : Judged (expressionsOf ts) := by
  induction ts with
  | nil => exact .ok _
  | cons t ts ih =>
    obtain ⟨first, rest⟩ := List.forall_mem_cons.1 h
    exact .bind (below.expression first rfl (small t List.mem_cons_self)) fun _ =>
      .bind (ih rest (small.mono (List.subset_cons_self t ts))) fun _ => .pure _

/-- Operators and operands in turn. -/
theorem judged_chained {operand operator : Rule}
    (operation : ∀ text, Spells scripts operator.body text.toList →
      ∀ span left right, Judged (ScriptToken.operation operator span text left right))
    (manner : operator.manner = .word) (isExpression : isExpression operand)
    (h : Yields scripts (.many (.seq (.rule operator) (.rule operand))) ts) :
    Small n ts → ∀ left, Judged (chained left ts) := by
  generalize is : Pattern.many (.seq (.rule operator) (.rule operand)) = p at h
  induction h with
  | many first _ _ ih =>
    cases is
    obtain ⟨o, _, word, ⟨t, _, is, rfl, rfl⟩, rfl⟩ := first.parts
    obtain ⟨span, text, rfl, spelled⟩ := exists_word word manner
    intro small left
    exact .bind (below.expression is isExpression (small t (by simp))) fun right =>
      .bind (operation text spelled span left right) fun _ =>
        ih rfl (small.mono (List.subset_append_right ..)) _
  | noMany => exact fun _ left => .ok left
  | _ => cases is

/-- Calls and member accesses. -/
theorem judged_suffixed
    (h : ∀ t ∈ ts, ∃ r ∈ [Rule.arguments, .propertyAccess, .computedAccess], t.IsOf scripts r)
    (small : Small n ts) : ∀ object, Judged (suffixed object ts) := by
  induction ts with
  | nil => exact fun object => .ok object
  | cons t ts ih =>
    obtain ⟨first, rest⟩ := List.forall_mem_cons.1 h
    -- the rest of the list is judged without its first token
    have further := ih rest (small.mono (List.subset_cons_self t ts))
    intro object
    obtain ⟨r, named, first⟩ := first
    simp only [List.mem_cons, List.not_mem_nil, or_false] at named
    rcases named with rfl | rfl | rfl <;>
      obtain ⟨span, us, rfl, inside⟩ := exists_node first rfl <;>
      have inner := Small.inside (small _ List.mem_cons_self)
    · exact .bind (judged_expressionsOf below (inside.forall_isOf (by decide)) inner)
        fun _ => further _
    · obtain ⟨t, _, is, rfl, rfl⟩ := inside.parts
      exact .bind (judged_identifierOf (.inr is)) fun _ => further _
    · obtain ⟨t, _, is, rfl, rfl⟩ := inside.parts
      exact .bind (below.expression is rfl (inner t (by simp))) fun _ => further _

/-- The elements of an array literal, with commas between them or not. -/
theorem judged_elementsOf
    (h : ∀ t ∈ ts, ∃ r ∈ [Rule.arrayComma, .assignmentExpression], t.IsOf scripts r)
    (small : Small n ts) : ∀ afterElement, Judged (elementsOf afterElement ts) := by
  induction ts with
  | nil => exact fun _ => .ok _
  | cons t ts ih =>
    obtain ⟨first, rest⟩ := List.forall_mem_cons.1 h
    have further := ih rest (small.mono (List.subset_cons_self t ts))
    intro afterElement
    obtain ⟨r, named, first⟩ := first
    simp only [List.mem_cons, List.not_mem_nil, or_false] at named
    rcases named with rfl | rfl <;> obtain ⟨span, us, rfl, inside⟩ := exists_node first rfl
    · exact .bind (further false) fun _ => .pure _
    · cases afterElement with
      | true => exact .error (show SyntaxFault.missingComma ∈ SyntaxFault.ofSentences by decide)
      | false =>
        exact .bind (below.expression first rfl (small _ List.mem_cons_self)) fun _ =>
          .bind (further true) fun _ => .pure _

/-- Several statements. -/
theorem judged_statementsOf (h : ∀ t ∈ ts, IsStatement t) (small : Small n ts) :
    Judged (statementsOf ts) := by
  induction ts with
  | nil => exact .ok _
  | cons t ts ih =>
    obtain ⟨⟨r, isStatement, first⟩, rest⟩ := List.forall_mem_cons.1 h
    exact .bind (below.statement first isStatement (small t List.mem_cons_self)) fun _ =>
      .bind (ih rest (small.mono (List.subset_cons_self t ts))) fun _ => .pure _

/-- The statements of a block or of a function's body. -/
theorem exists_braces {r : Rule} {t : ScriptToken} (braces : r = .functionBody ∨ r = .block)
    (h : t.IsOf scripts r) (small : sizeOf t < n) :
    ∃ span ts, t = .node r span ts ∧ Judged (statementsOf ts) := by
  rcases braces with rfl | rfl <;> obtain ⟨span, ts, rfl, inside⟩ := exists_node h rfl <;>
    exact ⟨span, ts, rfl,
      judged_statementsOf below (forall_isStatement inside (by decide)) (.inside small)⟩

/-- The entries of an object literal. -/
theorem judged_entriesOf
    (h : ∀ t ∈ ts, ∃ r ∈ [Rule.propertyGetter, .propertySetter, .propertyInit], t.IsOf scripts r)
    (small : Small n ts) : Judged (entriesOf ts) := by
  induction ts with
  | nil => exact .ok _
  | cons t ts ih =>
    obtain ⟨first, rest⟩ := List.forall_mem_cons.1 h
    have further := ih rest (small.mono (List.subset_cons_self t ts))
    obtain ⟨r, named, first⟩ := first
    simp only [List.mem_cons, List.not_mem_nil, or_false] at named
    rcases named with rfl | rfl | rfl <;>
      obtain ⟨span, us, rfl, inside⟩ := exists_node first rfl <;>
      have inner := Small.inside (small _ List.mem_cons_self)
    · obtain ⟨key, _, isKey, ⟨body, _, isBody, rfl, rfl⟩, rfl⟩ := inside.parts
      obtain ⟨bodySpan, statements, rfl, judged⟩ :=
        exists_braces below (.inl rfl) isBody (inner body (by simp))
      exact .bind (judged_keyOf isKey) fun _ => .bind judged fun _ => .bind further fun _ => .pure _
    -- a setter has its parameter between key and body
    · obtain ⟨key, _, isKey, ⟨parameter, _, isParameter, ⟨body, _, isBody, rfl, rfl⟩, rfl⟩, rfl⟩ :=
        inside.parts
      obtain ⟨bodySpan, statements, rfl, judged⟩ :=
        exists_braces below (.inl rfl) isBody (inner body (by simp))
      exact .bind (judged_keyOf isKey) fun _ => .bind (judged_identifierOf (.inl isParameter))
        fun _ => .bind judged fun _ => .bind further fun _ => .pure _
    · obtain ⟨key, _, isKey, ⟨value, _, isValue, rfl, rfl⟩, rfl⟩ := inside.parts
      exact .bind (judged_keyOf isKey) fun _ =>
        .bind (below.expression isValue rfl (inner _ (by simp))) fun _ =>
          .bind further fun _ => .pure _

/-- The cases of a switch. -/
theorem judged_casesOf
    (h : ∀ t ∈ ts, ∃ r ∈ [Rule.caseClause, .defaultClause], t.IsOf scripts r)
    (small : Small n ts) : Judged (casesOf ts) := by
  induction ts with
  | nil => exact .ok _
  | cons t ts ih =>
    obtain ⟨first, rest⟩ := List.forall_mem_cons.1 h
    have further := ih rest (small.mono (List.subset_cons_self t ts))
    obtain ⟨r, named, first⟩ := first
    simp only [List.mem_cons, List.not_mem_nil, or_false] at named
    rcases named with rfl | rfl <;> obtain ⟨span, us, rfl, inside⟩ := exists_node first rfl <;>
      have inner := Small.inside (small _ List.mem_cons_self)
    · obtain ⟨k, _, keyword, ⟨test, _, isTest, ⟨body, _, statements, rfl, rfl⟩, rfl⟩, rfl⟩ :=
        inside.parts
      obtain ⟨_, _, rfl, -⟩ := exists_word keyword rfl
      rw [List.append_nil] at inner ⊢
      -- the keyword is no statement, so that it is left out
      have judged := judged_statementsOf below (forall_isStatement statements (by decide))
        (inner.mono fun t mem => .tail _ (.tail _ mem))
      exact .bind (below.expression isTest rfl (inner test (by simp))) fun _ =>
        .bind judged fun _ => .bind further fun _ => .pure _
    · obtain ⟨k, _, keyword, ⟨body, _, statements, rfl, rfl⟩, rfl⟩ := inside.parts
      obtain ⟨_, _, rfl, -⟩ := exists_word keyword rfl
      rw [List.append_nil] at inner ⊢
      have judged := judged_statementsOf below (forall_isStatement statements (by decide))
        (inner.mono fun t mem => .tail _ mem)
      exact .bind judged fun _ => .bind further fun _ => .pure _

/-- The variables of a declaration. -/
theorem judged_declaratorsOf (h : ∀ t ∈ ts, t.IsOf scripts .variableDeclaration)
    (small : Small n ts) : Judged (declaratorsOf ts) := by
  induction ts with
  | nil => exact .ok _
  | cons t ts ih =>
    obtain ⟨first, rest⟩ := List.forall_mem_cons.1 h
    have further := ih rest (small.mono (List.subset_cons_self t ts))
    obtain ⟨span, us, rfl, inside⟩ := exists_node first rfl
    have inner := Small.inside (small _ List.mem_cons_self)
    obtain ⟨id, _, isName, ⟨value, _, isValue, rfl, rfl⟩ | rfl, rfl⟩ := inside.parts
    · exact .bind (judged_identifierOf (.inl isName)) fun _ =>
        .bind (below.expression isValue rfl (inner _ (by simp))) fun _ =>
          .bind further fun _ => .pure _
    · exact .bind (judged_identifierOf (.inl isName)) fun _ => .bind further fun _ => .pure _

/-! ## One rule at a time -/

/-- Operands of one level of precedence, where the text of each operator is known. -/
theorem judged_operands {operand operator : Rule}
    (operation : ∀ text, Spells scripts operator.body text.toList →
      ∀ span left right, Judged (ScriptToken.operation operator span text left right))
    (manner : operator.manner = .word) (isExpression : isExpression operand)
    (h : Yields scripts (operands operand operator) ts) (small : Small n ts) :
    ∃ first rest, ts = first :: rest ∧ Judged (do chained (← expressionOf first) rest) := by
  obtain ⟨t, _, is, ⟨us, _, further, rfl, rfl⟩, rfl⟩ := h.parts
  rw [List.append_nil] at small ⊢
  refine ⟨t, us, rfl, .bind (below.expression is isExpression (small t (by simp))) ?_⟩
  exact judged_chained below operation manner isExpression further (small.mono (by simp))

/-- An operation on targets and operands. -/
theorem judged_assignment (h : Yields scripts Rule.assignmentExpression.body ts)
    (small : Small n ts) : Judged (expressionOf (.node .assignmentExpression span ts)) := by
  obtain ⟨left, _, isLeft, ⟨o, _, word, ⟨right, _, isRight, rfl, rfl⟩, rfl⟩ | rfl, rfl⟩ := h.parts
  · obtain ⟨opSpan, text, rfl, spelled⟩ := exists_word word rfl
    obtain ⟨op, known⟩ := Option.isSome_iff_exists.1 (isSome_assignment spelled)
    refine .bind (below.expression isLeft rfl (small left (by simp))) fun target =>
      .bind (judged_requireTarget (by decide)) fun _ => ?_
    rw [known]
    exact .bind (below.expression isRight rfl (small right (by simp))) fun _ => .pure _
  · show Judged (expressionOf left)
    exact below.expression isLeft rfl (small left (by simp))

/-- A conditional expression has either its condition alone or all three parts. -/
theorem judged_conditional (h : Yields scripts Rule.conditionalExpression.body ts)
    (small : Small n ts) : Judged (expressionOf (.node .conditionalExpression span ts)) := by
  obtain ⟨test, _, isTest, ⟨yes, _, isYes, ⟨no, _, isNo, rfl, rfl⟩, rfl⟩ | rfl, rfl⟩ := h.parts
  · exact .bind (below.expression isTest rfl (small test (by simp))) fun _ =>
      .bind (below.expression isYes rfl (small yes (by simp))) fun _ =>
        .bind (below.expression isNo rfl (small no (by simp))) fun _ => .pure _
  · show Judged (expressionOf test)
    exact below.expression isTest rfl (small test (by simp))

/-- A unary expression is a postfix expression or an operator in front of a smaller unary
expression; an increment needs a target. -/
theorem judged_unary (h : Yields scripts Rule.unaryExpression.body ts) (small : Small n ts) :
    Judged (expressionOf (.node .unaryExpression span ts)) := by
  obtain ⟨o, _, word, ⟨operand, _, isOperand, rfl, rfl⟩, rfl⟩ | ⟨operand, _, isOperand, rfl, rfl⟩ :=
    h.parts
  · obtain ⟨opSpan, text, rfl, spelled⟩ := exists_word word rfl
    refine .bind (below.expression isOperand rfl (small operand (by simp))) fun argument => ?_
    cases update : UpdateOperator.ofSymbol? text with
    | some op => exact .bind (judged_requireTarget (by decide)) fun _ => .pure _
    | none =>
      rcases isSome_unary spelled with known | known
      · rw [update] at known
        cases known
      · obtain ⟨op, known⟩ := Option.isSome_iff_exists.1 known
        simp only [known]
        exact .pure _
  · show Judged (expressionOf operand)
    exact below.expression isOperand rfl (small operand (by simp))

/-- A postfix operator stands behind a left-hand side, which has to be a target. -/
theorem judged_postfixed (h : Yields scripts Rule.postfixExpression.body ts) (small : Small n ts) :
    Judged (expressionOf (.node .postfixExpression span ts)) := by
  obtain ⟨operand, _, isOperand, ⟨o, _, word, rfl, rfl⟩ | rfl, rfl⟩ := h.parts
  · obtain ⟨opSpan, text, rfl, spelled⟩ := exists_word word rfl
    obtain ⟨op, known⟩ := Option.isSome_iff_exists.1 (isSome_postfixed spelled)
    refine .bind (below.expression isOperand rfl (small operand (by simp))) fun argument =>
      .bind (judged_requireTarget (by decide)) fun _ => ?_
    rw [known]
    exact .pure _
  · show Judged (expressionOf operand)
    exact below.expression isOperand rfl (small operand (by simp))

/-- A left-hand side has a head and any number of calls and accesses behind it. -/
theorem judged_leftHandSide (h : Yields scripts Rule.leftHandSideExpression.body ts)
    (small : Small n ts) : Judged (expressionOf (.node .leftHandSideExpression span ts)) := by
  obtain ⟨head, _, isHead, ⟨suffixes, _, further, rfl, rfl⟩, rfl⟩ := h.parts
  rw [List.append_nil] at small ⊢
  exact .bind (below.expression isHead rfl (small head (by simp))) fun _ =>
    judged_suffixed below (further.exists_mem (by decide)) (small.mono (by simp)) _

/-- A member expression has a head of one of three kinds and any number of accesses behind it. -/
theorem judged_member (h : Yields scripts Rule.memberExpression.body ts) (small : Small n ts) :
    Judged (expressionOf (.node .memberExpression span ts)) := by
  have ⟨r, head, suffixes, isExpression, isHead, further, same⟩ : ∃ r head suffixes,
      isExpression r ∧ head.IsOf scripts r ∧ Yields scripts
        (.many (.alt (.rule .propertyAccess) (.rule .computedAccess))) suffixes ∧
        ts = head :: suffixes := by
    obtain ⟨t, _, is, ⟨us, _, further, rfl, rfl⟩, rfl⟩ |
      ⟨t, _, is, ⟨us, _, further, rfl, rfl⟩, rfl⟩ |
      ⟨t, _, is, ⟨us, _, further, rfl, rfl⟩, rfl⟩ := h.parts <;>
      exact ⟨_, t, us, rfl, is, further, by rw [List.append_nil]⟩
  subst same
  exact .bind (below.expression isHead isExpression (small head (by simp))) fun _ =>
    judged_suffixed below (further.exists_mem (by decide)) (small.mono (by simp)) _

/-- Behind `new` stand a callee and perhaps its arguments. -/
theorem judged_newMember (h : Yields scripts Rule.newMemberExpression.body ts)
    (small : Small n ts) : Judged (expressionOf (.node .newMemberExpression span ts)) := by
  obtain ⟨k, _, keyword, ⟨callee, _, isCallee, ⟨arguments, _, isArguments, rfl, rfl⟩ | rfl, rfl⟩,
    rfl⟩ := h.parts <;> obtain ⟨_, _, rfl, -⟩ := exists_word keyword rfl
  · have inner := small arguments (by simp)
    obtain ⟨_, us, rfl, inside⟩ := exists_node isArguments rfl
    exact .bind (below.expression isCallee rfl (small callee (by simp))) fun _ =>
      .bind (judged_expressionsOf below (inside.forall_isOf (by decide)) (.inside inner))
        fun _ => .pure _
  · exact .bind (below.expression isCallee rfl (small callee (by simp))) fun _ => .pure _

/-- Each of the six kinds of primary expressions is judged by itself. -/
theorem judged_primary (h : Yields scripts Rule.primaryExpression.body ts) (small : Small n ts) :
    Judged (expressionOf (.node .primaryExpression span ts)) := by
  obtain ⟨t, _, is, rfl, rfl⟩ | ⟨t, _, is, rfl, rfl⟩ | ⟨t, _, is, rfl, rfl⟩ | ⟨t, _, is, rfl, rfl⟩ |
    ⟨t, _, is, rfl, rfl⟩ | ⟨t, _, is, rfl, rfl⟩ := h.parts
  · obtain ⟨_, _, rfl, -⟩ := exists_word is rfl
    exact .ok _
  · have judged := below.expression is rfl (small t (by simp))
    obtain ⟨_, _, rfl, -⟩ := exists_node is rfl
    exact judged
  · have judged := below.expression is rfl (small t (by simp))
    obtain ⟨_, _, rfl, -⟩ := exists_word is rfl
    exact judged
  all_goals
    have judged := below.expression is rfl (small t (by simp))
    obtain ⟨_, _, rfl, -⟩ := exists_node is rfl
    exact judged

/-- Parentheses enclose one expression, which is their tree. -/
theorem judged_parenthesized (h : Yields scripts Rule.parenthesizedExpression.body ts)
    (small : Small n ts) : Judged (expressionOf (.node .parenthesizedExpression span ts)) := by
  obtain ⟨t, _, is, rfl, rfl⟩ := h.parts
  show Judged (expressionOf t)
  exact below.expression is rfl (small t (by simp))

/-- The elements of an array literal are each a gap or an expression. -/
theorem judged_array (h : Yields scripts Rule.arrayLiteral.body ts) (small : Small n ts) :
    Judged (expressionOf (.node .arrayLiteral span ts)) :=
  .map (judged_elementsOf below (h.exists_mem (by decide)) small false)

/-- The entries of an object literal are judged one by one. -/
theorem judged_object (h : Yields scripts Rule.objectLiteral.body ts) (small : Small n ts) :
    Judged (expressionOf (.node .objectLiteral span ts)) :=
  .map (judged_entriesOf below (h.exists_mem (by decide)) small)

/-- A function expression has its parameters and its body. -/
theorem judged_function (h : Yields scripts Rule.functionExpression.body ts)
    (small : Small n ts) : Judged (expressionOf (.node .functionExpression span ts)) := by
  obtain ⟨k, _, keyword,
    ⟨id, _, isName, ⟨ps, _, parameters, ⟨body, _, isBody, rfl, rfl⟩, rfl⟩, rfl⟩ |
    ⟨ps, _, parameters, ⟨body, _, isBody, rfl, rfl⟩, rfl⟩, rfl⟩ := h.parts <;>
    obtain ⟨_, _, rfl, -⟩ := exists_word keyword rfl <;>
    obtain ⟨bodySpan, statements, rfl, judged⟩ :=
      exists_braces below (.inl rfl) isBody (small body (by simp))
  · have judged' := judged_parametersOf parameters
    obtain ⟨_, _, rfl, -⟩ := exists_node parameters rfl
    exact .bind (judged_identifierOf (.inl isName)) fun _ =>
      .bind judged' fun _ => .bind judged fun _ => .pure _
  · exact .bind (judged_parametersOf parameters) fun _ => .bind judged fun _ => .pure _

/-- A sequence has at least one expression. -/
theorem judged_sequence (h : Yields scripts Rule.expression.body ts) (small : Small n ts) :
    Judged (expressionOf (.node .expression span ts)) := by
  have judged := judged_expressionsOf below (h.forall_isOf (by decide)) small
  obtain ⟨t, us, is, -, rfl⟩ := h.parts
  cases us with
  | nil =>
    show Judged (expressionOf t)
    exact below.expression is rfl (small t (by simp))
  | cons => exact .map judged

/-- Every rule of expressions. -/
theorem judged_expression {r : Rule} {t : ScriptToken} (is : t.IsOf scripts r)
    (isExpression : isExpression r) (small : sizeOf t < n + 1) : Judged (expressionOf t) := by
  cases is with
  | @word _ span text manner =>
    -- a name is the only expression that is a word
    obtain rfl : r = .identifier := by
      cases r <;> first | rfl | (cases manner; done) | cases isExpression
    exact .ok _
  | @node _ span ts manner inside =>
    have children : Small n ts := by
      intro t mem
      have := List.sizeOf_lt_of_mem mem
      simp only [Token.node.sizeOf_spec] at small
      omega
    -- every symbol of a level names an operator, which makes the operation
    have known : ∀ {operator : Rule} {text : String}, (BinaryOperator.ofSymbol? text).isSome →
        ∀ span left right, Judged (operation operator span text left right) :=
      fun h => judged_operation (.inr (.inr h))
    cases r <;> try exact absurd isExpression Bool.false_ne_true
    case identifier => cases manner
    case expression => exact judged_sequence below inside children
    case assignmentExpression => exact judged_assignment below inside children
    case conditionalExpression => exact judged_conditional below inside children
    case unaryExpression => exact judged_unary below inside children
    case postfixExpression => exact judged_postfixed below inside children
    case leftHandSideExpression => exact judged_leftHandSide below inside children
    case memberExpression => exact judged_member below inside children
    case newMemberExpression => exact judged_newMember below inside children
    case primaryExpression => exact judged_primary below inside children
    case parenthesizedExpression => exact judged_parenthesized below inside children
    case literal => exact judged_literal inside
    case arrayLiteral => exact judged_array below inside children
    case objectLiteral => exact judged_object below inside children
    case functionExpression => exact judged_function below inside children
    case logicalOrExpression =>
      obtain ⟨first, rest, rfl, judged⟩ := judged_operands below
        (fun text _ => judged_operation (.inl rfl)) rfl rfl inside children
      exact judged
    case logicalAndExpression =>
      obtain ⟨first, rest, rfl, judged⟩ := judged_operands below
        (fun text _ => judged_operation (.inr (.inl rfl))) rfl rfl inside children
      exact judged
    case bitwiseOrExpression =>
      obtain ⟨first, rest, rfl, judged⟩ := judged_operands below
        (fun text h => known (isSome_bitwise (.inr (.inr h)))) rfl rfl inside children
      exact judged
    case bitwiseXorExpression =>
      obtain ⟨first, rest, rfl, judged⟩ := judged_operands below
        (fun text h => known (isSome_bitwise (.inr (.inl h)))) rfl rfl inside children
      exact judged
    case bitwiseAndExpression =>
      obtain ⟨first, rest, rfl, judged⟩ := judged_operands below
        (fun text h => known (isSome_bitwise (.inl h))) rfl rfl inside children
      exact judged
    case equalityExpression =>
      obtain ⟨first, rest, rfl, judged⟩ := judged_operands below
        (fun text h => known (isSome_equality h)) rfl rfl inside children
      exact judged
    case relationalExpression =>
      obtain ⟨first, rest, rfl, judged⟩ := judged_operands below
        (fun text h => known (isSome_relational h)) rfl rfl inside children
      exact judged
    case shiftExpression =>
      obtain ⟨first, rest, rfl, judged⟩ := judged_operands below
        (fun text h => known (isSome_shift h)) rfl rfl inside children
      exact judged
    case additiveExpression =>
      obtain ⟨first, rest, rfl, judged⟩ := judged_operands below
        (fun text h => known (isSome_additive h)) rfl rfl inside children
      exact judged
    case multiplicativeExpression =>
      obtain ⟨first, rest, rfl, judged⟩ := judged_operands below
        (fun text h => known (isSome_multiplicative h)) rfl rfl inside children
      exact judged

/-! ## Statements -/

/-- The declarations after `var`. -/
theorem exists_declarators {t : ScriptToken} (h : t.IsOf scripts .variableDeclarationList)
    (small : sizeOf t < n) :
    ∃ span ts, t = .node .variableDeclarationList span ts ∧ Judged (declaratorsOf ts) := by
  obtain ⟨span, ts, rfl, inside⟩ := exists_node h rfl
  exact ⟨span, ts, rfl, judged_declaratorsOf below (inside.forall_isOf (by decide)) (.inside small)⟩

/-- A variable statement has declarations, each with at most one initial value. -/
theorem judged_variables (h : Yields scripts Rule.variableStatement.body ts) (small : Small n ts) :
    Judged (statementOf (.node .variableStatement span ts)) := by
  have ⟨k, list, keyword, isList, same⟩ : ∃ k list, k.IsOf scripts (.keyword "var") ∧
      list.IsOf scripts .variableDeclarationList ∧ ts = [k, list] := by
    obtain ⟨k, _, keyword, ⟨list, _, isList, rfl | rfl, rfl⟩, rfl⟩ := h.parts <;>
      exact ⟨k, list, keyword, isList, rfl⟩
  subst same
  obtain ⟨_, _, rfl, -⟩ := exists_word keyword rfl
  obtain ⟨_, _, rfl, judged⟩ := exists_declarators below isList (small list (by simp))
  exact .map judged

/-- An expression statement is its expression. -/
theorem judged_expressionStatement (h : Yields scripts Rule.expressionStatement.body ts)
    (small : Small n ts) : Judged (statementOf (.node .expressionStatement span ts)) := by
  obtain ⟨t, _, is, rfl | rfl, rfl⟩ := h.parts <;>
    exact .map (below.expression is rfl (small t (by simp)))

/-- A conditional statement has its condition, one branch and perhaps another. -/
theorem judged_if (h : Yields scripts Rule.ifStatement.body ts) (small : Small n ts) :
    Judged (statementOf (.node .ifStatement span ts)) := by
  replace h := h.parts
  obtain ⟨k, _, keyword, ⟨test, _, isTest, h, rfl⟩, rfl⟩ := h
  obtain ⟨yes, _, ⟨r, isYes, yesOf⟩, further, rfl⟩ :=
    exists_statement (show Leaves _ statement _ _ from h)
  obtain ⟨_, _, rfl, -⟩ := exists_word keyword rfl
  have test := below.expression isTest rfl (small test (by simp))
  have yes := below.statement yesOf isYes (small yes (by simp))
  rcases further with ⟨k', _, keyword', alternate, rfl⟩ | rfl
  · obtain ⟨no, _, ⟨r', isNo, noOf⟩, rfl, rfl⟩ := exists_statement alternate
    obtain ⟨_, _, rfl, -⟩ := exists_word keyword' rfl
    exact .bind test fun _ => .bind yes fun _ =>
      .bind (below.statement noOf isNo (small no (by simp))) fun _ => .pure _
  · exact .bind test fun _ => .bind yes fun _ => .pure _

/-- A `do` loop has its body before the condition. -/
theorem judged_doWhile (h : Yields scripts Rule.doWhileStatement.body ts) (small : Small n ts) :
    Judged (statementOf (.node .doWhileStatement span ts)) := by
  replace h := h.parts
  obtain ⟨k, _, keyword, h, rfl⟩ := h
  obtain ⟨body, _, ⟨r, isBody, bodyOf⟩, further, rfl⟩ := exists_statement h
  obtain ⟨k', _, keyword', ⟨test, _, isTest, last, rfl⟩, rfl⟩ := further
  obtain ⟨_, _, rfl, -⟩ := exists_word keyword rfl
  obtain ⟨_, _, rfl, -⟩ := exists_word keyword' rfl
  rcases last with rfl | rfl <;>
    exact .bind (below.statement bodyOf isBody (small body (by simp))) fun _ =>
      .bind (below.expression isTest rfl (small test (by simp))) fun _ => .pure _

/-- A `while` loop has its condition before the body. -/
theorem judged_while (h : Yields scripts Rule.whileStatement.body ts) (small : Small n ts) :
    Judged (statementOf (.node .whileStatement span ts)) := by
  replace h := h.parts
  obtain ⟨k, _, keyword, ⟨test, _, isTest, h, rfl⟩, rfl⟩ := h
  obtain ⟨body, _, ⟨r, isBody, bodyOf⟩, rfl, rfl⟩ :=
    exists_statement (show Leaves _ statement _ _ from h)
  obtain ⟨_, _, rfl, -⟩ := exists_word keyword rfl
  exact .bind (below.expression isTest rfl (small test (by simp))) fun _ =>
    .bind (below.statement bodyOf isBody (small body (by simp))) fun _ => .pure _

/-- The head of a `for`-`in` loop is a declaration or an expression; only an expression can fail to
be a target. -/
theorem judged_forIn (h : Yields scripts Rule.forInStatement.body ts) (small : Small n ts) :
    Judged (statementOf (.node .forInStatement span ts)) := by
  replace h := h.parts
  obtain ⟨k, _, keyword,
    ⟨left, _, isLeft, ⟨k', _, keyword', ⟨object, _, isObject, h, rfl⟩, rfl⟩, rfl⟩ |
    ⟨left, _, isLeft, ⟨k', _, keyword', ⟨object, _, isObject, h, rfl⟩, rfl⟩, rfl⟩, rfl⟩ := h <;>
    obtain ⟨body, _, ⟨r, isBody, bodyOf⟩, rfl, rfl⟩ :=
      exists_statement (show Leaves _ statement _ _ from h) <;>
    obtain ⟨_, _, rfl, -⟩ := exists_word keyword rfl <;>
    obtain ⟨_, _, rfl, -⟩ := exists_word keyword' rfl <;>
    have object := below.expression isObject rfl (small object (by simp)) <;>
    have body := below.statement bodyOf isBody (small body (by simp))
  -- a declared name, then anything that can be assigned to
  · obtain ⟨_, us, rfl, inside⟩ := exists_node isLeft rfl
    obtain ⟨k'', _, keyword'', ⟨id, _, isName, rfl, rfl⟩, rfl⟩ := inside.parts
    obtain ⟨_, _, rfl, -⟩ := exists_word keyword'' rfl
    exact .bind (judged_identifierOf (.inl isName)) fun _ => .bind object fun _ =>
      .bind body fun _ => .pure _
  · have target := below.expression isLeft rfl (small left (by simp))
    obtain ⟨_, _, rfl, -⟩ := exists_node isLeft rfl
    exact .bind target fun _ => .bind (judged_requireTarget (by decide)) fun _ =>
      .bind object fun _ => .bind body fun _ => .pure _

omit below in
/-- A `continue` statement has at most a label. -/
theorem judged_continue (h : Yields scripts Rule.continueStatement.body ts) :
    Judged (statementOf (.node .continueStatement span ts)) := by
  obtain ⟨k, _, keyword, ⟨id, _, isName, rfl | rfl, rfl⟩ | rfl | rfl, rfl⟩ := h.parts <;>
    obtain ⟨_, _, rfl, -⟩ := exists_word keyword rfl
  · exact .map (.map (judged_identifierOf (.inl isName)))
  · exact .map (.map (judged_identifierOf (.inl isName)))
  · exact .map (.ok _)
  · exact .map (.ok _)

omit below in
/-- A `break` statement has at most a label. -/
theorem judged_break (h : Yields scripts Rule.breakStatement.body ts) :
    Judged (statementOf (.node .breakStatement span ts)) := by
  obtain ⟨k, _, keyword, ⟨id, _, isName, rfl | rfl, rfl⟩ | rfl | rfl, rfl⟩ := h.parts <;>
    obtain ⟨_, _, rfl, -⟩ := exists_word keyword rfl
  · exact .map (.map (judged_identifierOf (.inl isName)))
  · exact .map (.map (judged_identifierOf (.inl isName)))
  · exact .map (.ok _)
  · exact .map (.ok _)

/-- A `return` statement has at most an expression. -/
theorem judged_return (h : Yields scripts Rule.returnStatement.body ts) (small : Small n ts) :
    Judged (statementOf (.node .returnStatement span ts)) := by
  obtain ⟨k, _, keyword, ⟨t, _, is, rfl | rfl, rfl⟩ | rfl | rfl, rfl⟩ := h.parts <;>
    obtain ⟨_, _, rfl, -⟩ := exists_word keyword rfl
  · exact .map (below.expression is rfl (small t (by simp)))
  · exact .map (below.expression is rfl (small t (by simp)))
  · exact .ok _
  · exact .ok _

/-- A `throw` statement has exactly one expression. -/
theorem judged_throw (h : Yields scripts Rule.throwStatement.body ts) (small : Small n ts) :
    Judged (statementOf (.node .throwStatement span ts)) := by
  obtain ⟨k, _, keyword, ⟨t, _, is, rfl | rfl, rfl⟩, rfl⟩ := h.parts <;>
    obtain ⟨_, _, rfl, -⟩ := exists_word keyword rfl <;>
    exact .map (below.expression is rfl (small t (by simp)))

/-- A switch has its operand and its cases. -/
theorem judged_switch (h : Yields scripts Rule.switchStatement.body ts) (small : Small n ts) :
    Judged (statementOf (.node .switchStatement span ts)) := by
  obtain ⟨k, _, keyword, ⟨t, _, is, ⟨cases, _, further, rfl, rfl⟩, rfl⟩, rfl⟩ := h.parts
  obtain ⟨_, _, rfl, -⟩ := exists_word keyword rfl
  rw [List.append_nil] at small ⊢
  exact .bind (below.expression is rfl (small t (by simp))) fun _ =>
    .bind (judged_casesOf below (further.exists_mem (by decide))
      (small.mono fun t mem => .tail _ (.tail _ mem))) fun _ => .pure _

/-- A labelled statement has one label; several are nested. -/
theorem judged_labelled (h : Yields scripts Rule.labelledStatement.body ts) (small : Small n ts) :
    Judged (statementOf (.node .labelledStatement span ts)) := by
  replace h := h.parts
  obtain ⟨label, _, isLabel, h, rfl⟩ := h
  obtain ⟨body, _, ⟨r, isBody, bodyOf⟩, rfl, rfl⟩ :=
    exists_statement (show Leaves _ statement _ _ from h)
  exact .bind (judged_identifierOf (.inl isLabel)) fun _ =>
    .bind (below.statement bodyOf isBody (small body (by simp))) fun _ => .pure _

/-- A `try` statement has a handler, a final block or both. -/
theorem judged_try (h : Yields scripts Rule.tryStatement.body ts) (small : Small n ts) :
    Judged (statementOf (.node .tryStatement span ts)) := by
  -- the handler and the block that is run at last, in tokens
  have handler : ∀ {t : ScriptToken}, t.IsOf scripts .catchClause → sizeOf t < n →
      ∃ span kSpan kText parameter bodySpan body, t = .node .catchClause span
        [.word (.keyword "catch") kSpan kText, parameter, .node .block bodySpan body] ∧
        Judged (identifierOf parameter) ∧ Judged (statementsOf body) := by
    intro t is small
    obtain ⟨span, us, rfl, inside⟩ := exists_node is rfl
    obtain ⟨k, _, keyword, ⟨id, _, isName, ⟨block, _, isBlock, rfl, rfl⟩, rfl⟩, rfl⟩ := inside.parts
    obtain ⟨kSpan, kText, rfl, -⟩ := exists_word keyword rfl
    obtain ⟨bodySpan, body, rfl, judged⟩ := exists_braces below (.inr rfl) isBlock
      (Small.inside small block (by simp))
    exact ⟨span, kSpan, kText, id, bodySpan, body, rfl, judged_identifierOf (.inl isName), judged⟩
  have finalizer : ∀ {t : ScriptToken}, t.IsOf scripts .finallyClause → sizeOf t < n →
      ∃ span kSpan kText bodySpan body, t = .node .finallyClause span
        [.word (.keyword "finally") kSpan kText, .node .block bodySpan body] ∧
        Judged (statementsOf body) := by
    intro t is small
    obtain ⟨span, us, rfl, inside⟩ := exists_node is rfl
    obtain ⟨k, _, keyword, ⟨block, _, isBlock, rfl, rfl⟩, rfl⟩ := inside.parts
    obtain ⟨kSpan, kText, rfl, -⟩ := exists_word keyword rfl
    obtain ⟨bodySpan, body, rfl, judged⟩ := exists_braces below (.inr rfl) isBlock
      (Small.inside small block (by simp))
    exact ⟨span, kSpan, kText, bodySpan, body, rfl, judged⟩
  obtain ⟨k, _, keyword, ⟨block, _, isBlock, ⟨c, _, isCatch, ⟨f, _, isFinal, rfl, rfl⟩ | rfl, rfl⟩ |
    ⟨f, _, isFinal, rfl, rfl⟩, rfl⟩, rfl⟩ := h.parts <;>
    obtain ⟨_, _, rfl, -⟩ := exists_word keyword rfl <;>
    obtain ⟨_, _, rfl, judged⟩ := exists_braces below (.inr rfl) isBlock (small block (by simp))
  · obtain ⟨_, _, _, _, _, _, rfl, judged₁, judged₂⟩ := handler isCatch (small c (by simp))
    obtain ⟨_, _, _, _, _, rfl, judged₃⟩ := finalizer isFinal (small f (by simp))
    exact .bind judged fun _ => .bind judged₁ fun _ => .bind judged₂ fun _ =>
      .bind judged₃ fun _ => .pure _
  · obtain ⟨_, _, _, _, _, _, rfl, judged₁, judged₂⟩ := handler isCatch (small c (by simp))
    exact .bind judged fun _ => .bind judged₁ fun _ => .bind judged₂ fun _ => .pure _
  · obtain ⟨_, _, _, _, _, rfl, judged₃⟩ := finalizer isFinal (small f (by simp))
    exact .bind judged fun _ => .bind judged₃ fun _ => .pure _

/-- A function declaration has a name, parameters and a body. -/
theorem judged_functionDeclaration (h : Yields scripts Rule.functionDeclaration.body ts)
    (small : Small n ts) : Judged (statementOf (.node .functionDeclaration span ts)) := by
  obtain ⟨k, _, keyword,
    ⟨id, _, isName, ⟨ps, _, parameters, ⟨body, _, isBody, rfl, rfl⟩, rfl⟩, rfl⟩, rfl⟩ := h.parts
  obtain ⟨_, _, rfl, -⟩ := exists_word keyword rfl
  obtain ⟨_, _, rfl, judged⟩ := exists_braces below (.inl rfl) isBody (small body (by simp))
  exact .bind (judged_identifierOf (.inl isName)) fun _ =>
    .bind (judged_parametersOf parameters) fun _ => .bind judged fun _ => .pure _

/-- The parts of a `for` statement from some part on are judged, and the body is among them. -/
def Finishes (ts : List ScriptToken) : Prop :=
  ∀ parts, Judged (forPartsOf parts ts) ∧
    ∀ parts', forPartsOf parts ts = .ok parts' → parts'.body.isSome

omit below in
/-- One part of a `for` statement and then the rest. -/
theorem Finishes.cons {α : Type} {t : ScriptToken} {x : Except SyntaxError α}
    {f : ForParts → α → ForParts} (first : Judged x) (rest : Finishes ts)
    (is : ∀ parts, forPartsOf parts (t :: ts) = x >>= fun a => forPartsOf (f parts a) ts) :
    Finishes (t :: ts) := by
  intro parts
  rw [is]
  cases x with
  | error e => exact ⟨.error (first e rfl), nofun⟩
  | ok a => exact rest (f parts a)

omit below in
/-- The part of a `for` statement that is a statement is the body. -/
theorem forPartsOf_statement {t : ScriptToken} (is : IsStatement t) (parts : ForParts) :
    forPartsOf parts [t] = statementOf t >>= fun s => .ok { parts with body := some s } := by
  obtain ⟨r, isStatement, is⟩ := is
  cases is with
  | word manner => cases r <;> first | (cases manner; done) | cases isStatement
  | node manner => cases r <;> first | (cases isStatement; done) | rfl

/-- The body of a `for` statement. -/
theorem finishes_statement {t : ScriptToken} (is : IsStatement t) (small : sizeOf t < n) :
    Finishes [t] := by
  intro parts
  rw [forPartsOf_statement is]
  obtain ⟨r, isStatement, is⟩ := is
  have judged := below.statement is isStatement small
  cases built : statementOf t with
  | error e => exact ⟨.error (judged e built), nofun⟩
  | ok s =>
    refine ⟨.ok _, ?_⟩
    rintro parts' ⟨⟩
    rfl

/-- What a `for` statement does first. -/
theorem finishes_init {t : ScriptToken} (is : t.IsOf scripts .forInit) (small : sizeOf t < n)
    (rest : Finishes ts) : Finishes (t :: ts) := by
  obtain ⟨_, us, rfl, inside⟩ := exists_node is rfl
  have inner := Small.inside small
  obtain ⟨k, _, keyword, ⟨list, _, isList, rfl, rfl⟩, rfl⟩ | ⟨e, _, isExpr, rfl, rfl⟩ :=
    inside.parts
  · obtain ⟨_, _, rfl, -⟩ := exists_word keyword rfl
    obtain ⟨_, _, rfl, judged⟩ := exists_declarators below isList (inner list (by simp))
    exact .cons judged rest fun _ => rfl
  · have judged := below.expression isExpr rfl (inner e (by simp))
    obtain ⟨_, _, rfl, -⟩ := exists_node isExpr rfl
    exact .cons judged rest fun _ => rfl

/-- The test and the update of a `for` statement. -/
theorem finishes_expression {r : Rule} {t : ScriptToken} (part : r = .forTest ∨ r = .forUpdate)
    (is : t.IsOf scripts r) (small : sizeOf t < n) (rest : Finishes ts) : Finishes (t :: ts) := by
  rcases part with rfl | rfl <;> obtain ⟨_, us, rfl, inside⟩ := exists_node is rfl <;>
    obtain ⟨e, _, isExpr, rfl, rfl⟩ := inside.parts <;>
    exact .cons (below.expression isExpr rfl (Small.inside small e (by simp))) rest fun _ => rfl

omit below in
/-- A part that may be left out. -/
theorem finishes_opt {r : Rule} {P : List ScriptToken → Prop}
    (part : ∀ {t us}, t.IsOf scripts r → sizeOf t < n → Finishes us → Finishes (t :: us))
    (rest : ∀ {us}, P us → Small n us → Finishes us) (h : Leaves scripts (.opt (.rule r)) P ts)
    (small : Small n ts) : Finishes ts := by
  rcases h with ⟨t, us, is, h, rfl⟩ | h
  · exact part is (small t List.mem_cons_self) (rest h (small.mono (List.subset_cons_self t us)))
  · exact rest h small

/-- A `for` loop has up to three expressions in its head, told apart by the marks between them. -/
theorem judged_for (h : Yields scripts Rule.forStatement.body ts) (small : Small n ts) :
    Judged (statementOf (.node .forStatement span ts)) := by
  replace h := h.parts
  obtain ⟨k, parts, keyword, h, rfl⟩ := h
  obtain ⟨_, _, rfl, -⟩ := exists_word keyword rfl
  have finishes : Finishes parts := by
    refine finishes_opt (finishes_init below) ?_ h (small.mono (List.subset_cons_self _ parts))
    refine finishes_opt (finishes_expression below (.inl rfl)) ?_
    refine finishes_opt (finishes_expression below (.inr rfl)) fun h small => ?_
    obtain ⟨body, _, is, rfl, rfl⟩ := exists_statement (show Leaves _ statement _ _ from h)
    exact finishes_statement below is (small body (by simp))
  refine .bind_of (finishes _).1 fun parts' built => ?_
  obtain ⟨body, found⟩ := Option.isSome_iff_exists.1 ((finishes _).2 parts' built)
  rw [found]
  exact .pure _

/-- Every rule of statements. -/
theorem judged_statement {r : Rule} {t : ScriptToken} (is : t.IsOf scripts r)
    (isStatement : isStatement r) (small : sizeOf t < n + 1) : Judged (statementOf t) := by
  cases is with
  | word manner =>
    -- no statement is a word
    cases r <;> first | (cases manner; done) | cases isStatement
  | @node _ span ts manner inside =>
    have children : Small n ts := by
      intro t mem
      have := List.sizeOf_lt_of_mem mem
      simp only [Token.node.sizeOf_spec] at small
      omega
    cases r <;> try exact absurd isStatement Bool.false_ne_true
    case block =>
      exact .map (judged_statementsOf below (forall_isStatement inside (by decide)) children)
    case variableStatement => exact judged_variables below inside children
    case emptyStatement =>
      obtain rfl := inside.parts
      exact .ok _
    case expressionStatement => exact judged_expressionStatement below inside children
    case ifStatement => exact judged_if below inside children
    case doWhileStatement => exact judged_doWhile below inside children
    case whileStatement => exact judged_while below inside children
    case forInStatement => exact judged_forIn below inside children
    case forStatement => exact judged_for below inside children
    case continueStatement => exact judged_continue inside
    case breakStatement => exact judged_break inside
    case returnStatement => exact judged_return below inside children
    case switchStatement => exact judged_switch below inside children
    case labelledStatement => exact judged_labelled below inside children
    case throwStatement => exact judged_throw below inside children
    case tryStatement => exact judged_try below inside children
    case debuggerStatement => exact .ok _
    case functionDeclaration => exact judged_functionDeclaration below inside children

end

/-- The builder judges everything. -/
theorem judgedBelow (n : Nat) : JudgedBelow n := by
  induction n with
  | zero => exact ⟨nofun, nofun⟩
  | succ n below => exact ⟨judged_expression below, judged_statement below⟩

/-- The program of a script's token. -/
theorem judged_programOf {t : ScriptToken} (is : t.IsOf scripts .script) (file : String) :
    Judged (programOf file t) := by
  obtain ⟨span, ts, rfl, h⟩ := exists_node is rfl
  have each : ∀ t ∈ ts.filter (fun t => t.rule ≠ .endOfInput), IsStatement t := by
    intro t mem
    obtain ⟨mem, ne⟩ := List.mem_filter.1 mem
    obtain ⟨r, named, is⟩ := h.exists_rule t mem
    have all : ∀ r ∈ Rule.script.body.rules, r ≠ .endOfInput → isStatement r := by decide
    refine ⟨r, all r named ?_, is⟩
    rintro rfl
    obtain ⟨_, _, rfl, -⟩ := exists_word is rfl
    cases ne
  exact .bind (judged_statementsOf (judgedBelow _) each fun t mem => List.sizeOf_lt_of_mem mem)
    fun _ => .pure _

end ScriptToken

/-! ## Sentences that are no programs -/

/-- A sentence of the grammar that has no tree is refused with one of six faults. -/
theorem fault_of_sentence {source file : String} {t : ScriptToken} {e : SyntaxError}
    (h : parseScript source = .ok t) (failed : ScriptToken.programOf file t = .error e) :
    e.fault ∈ SyntaxFault.ofSentences := by
  obtain ⟨ts, c, gives⟩ := gives_of_parse h
  obtain ⟨t', _, is, rfl, same⟩ := (Yields.of_gives gives).parts
  cases same
  exact ScriptToken.judged_programOf is file e failed

/-- The fault of a sentence of the grammar that has no tree. -/
def sentenceFault? (source : String) : Option SyntaxFault :=
  match parseScript source with
  | .ok t =>
    match ScriptToken.programOf "" t with
    | .ok _ => none
    | .error e => some e.fault
  | .error _ => none

/-- The fault does not depend on the name of the file. -/
theorem exists_of_sentenceFault? {source : String} {fault : SyntaxFault}
    (h : sentenceFault? source = some fault) (file : String) :
    ∃ t e, parseScript source = .ok t ∧ ScriptToken.programOf file t = .error e ∧
      e.fault = fault := by
  rw [sentenceFault?] at h
  split at h
  next t parsed =>
    split at h
    · cases h
    next e failed =>
      refine ⟨t, e, parsed, ?_, Option.some.inj h⟩
      cases t with
      | word => exact failed
      | node r span ts =>
        cases r <;> try exact failed
        simp only [ScriptToken.programOf] at failed ⊢
        cases built : ScriptToken.statementsOf (ts.filter fun t => t.rule ≠ .endOfInput) with
        | ok body => rw [built] at failed; cases failed
        | error e' => rw [built] at failed; exact failed
  · cases h

/-- Every one of the six faults is the fault of some sentence. -/
theorem exists_sentence {fault : SyntaxFault} (h : fault ∈ SyntaxFault.ofSentences) :
    ∃ source, sentenceFault? source = some fault := by
  simp only [SyntaxFault.ofSentences, List.mem_cons, List.not_mem_nil, or_false] at h
  rcases h with rfl | rfl | rfl | rfl | rfl | rfl
  · exact ⟨"this=a", by decide +kernel⟩
  · exact ⟨"this++", by decide +kernel⟩
  · exact ⟨"++this", by decide +kernel⟩
  · exact ⟨"for(this in a);", by decide +kernel⟩
  · exact ⟨"[a b]", by decide +kernel⟩
  · exact ⟨"'\\x'", by decide +kernel⟩

/-- **The builder is total on the grammar.** A sentence of the grammar has a tree, or it is refused
with one of six messages; and each of the six is the message of some sentence. -/
theorem sentence_refused_iff (file message : String) :
    (∃ source t e, parseScript source = .ok t ∧ ScriptToken.programOf file t = .error e ∧
        e.fault.message = message) ↔
      message ∈ ["Invalid left-hand side in assignment",
        "Invalid left-hand side expression in postfix operation",
        "Invalid left-hand side expression in prefix operation",
        "Invalid left-hand side in for-in", "Expected ',' in array literal",
        "Invalid hexadecimal escape sequence"] := by
  constructor
  · rintro ⟨source, t, e, parsed, failed, rfl⟩
    exact List.mem_map_of_mem (fault_of_sentence parsed failed)
  · intro mem
    obtain ⟨fault, listed, rfl⟩ : ∃ fault ∈ SyntaxFault.ofSentences, fault.message = message :=
      List.mem_map.1 mem
    obtain ⟨source, is⟩ := exists_sentence listed
    obtain ⟨t, e, parsed, failed, rfl⟩ := exists_of_sentenceFault? is file
    exact ⟨source, t, e, parsed, failed, rfl⟩

end AbstractScript
