import AbstractScript.Proofs.Precedence

/-!
# Fixed tokens

What the grammar says about the keywords, marks and operators that phrases are printed with, found
by runs of the matcher on each of them, and which patterns no name and no numeral can begin.
-/
namespace AbstractScript

open Grammar

/-! ## Tokens -/

/-- The fixed tokens that an operand without a leading operator begins with. -/
def openers : List String := ["this", "new", "("]

/-- The operators before an operand. -/
def leaders : List String := UnaryOperator.all.map (·.symbol) ++ ["++", "--"]

/-- The operators after an operand. -/
def followers : List String :=
  BinaryOperator.all.map (·.symbol) ++ ["||", "&&"] ++ AssignmentOperator.all.map (·.symbol) ++
    ["++", "--"]

/-- The fixed tokens of phrases. -/
def marks : List String :=
  openers ++ leaders ++ followers ++ [")", "[", "]", ".", ",", "?", ":"]

variable {t : String} {tokens : List String} {cs tail : List Char} {p : Pattern Rule} {w : Bool}

/-- The levels from which on a mark continues none. -/
def stoppers : List (Nat × String) :=
  [(0, ")"), (0, "]"), (1, ","), (1, ":"), (2, "?"), (14, "++"), (14, "--"), (15, "("), (16, "["),
    (16, ".")] ++
  BinaryOperator.all.map (fun op => (op.level + 1, op.symbol)) ++
  [LogicalOperator.or, .and].map (fun op => (op.level + 1, op.symbol)) ++
  AssignmentOperator.all.map fun op => (2, op.symbol)

/-! ## Patterns -/

/-- The statements with a first token of their own. -/
def markedStatements : List Rule :=
  [.block, .variableStatement, .emptyStatement, .ifStatement, .doWhileStatement, .whileStatement,
    .forInStatement, .forStatement, .continueStatement, .breakStatement, .returnStatement,
    .switchStatement, .throwStatement, .tryStatement, .debuggerStatement]

/-- What must not begin an expression that is a statement. -/
def declarationStart : Pattern Rule := .alt (.lit "\x7b") (word "function")

/-- What is told from an expression by its first token. -/
def markedPatterns : List (Pattern Rule) :=
  declarationStart :: .rule .functionDeclaration :: markedStatements.map .rule

/-- What must not follow a condition that is no conditional. -/
def choiceTail : Pattern Rule :=
  .all [.lit "?", .rule .assignmentExpression, .lit ":", .rule .assignmentExpression]

/-- What is tried in vain before an operand or a suffix is found. -/
def vain : List (Pattern Rule × String) :=
  [(word "this", "("), (.rule .literal, "("), (.rule .identifier, "("), (.rule .arrayLiteral, "("),
    (.rule .objectLiteral, "("), (.rule .primaryExpression, "new"),
    (.rule .functionExpression, "new"), (.rule .arguments, "."), (.rule .arguments, "["),
    (.rule .propertyAccess, "["), (.rule .assignmentExpression, ")")]

/-- The patterns that begin with none of some tokens. -/
def barred : List (List (Pattern Rule) × List String) :=
  [(.rule .unaryOperator :: .rule .labelledStatement :: markedPatterns, openers),
    (.rule .labelledStatement :: markedPatterns, leaders),
    ([choiceTail], AssignmentOperator.all.map (·.symbol))] ++
  vain.map fun x => ([x.1], [x.2])

/-- Fixed tokens with a pattern of the grammar that they match. -/
def accepted : List (Pattern Rule × String) :=
  BinaryOperator.all.map (fun op => ((levelOperator op.level).body, op.symbol)) ++
  [LogicalOperator.or, .and].map (fun op => ((levelOperator op.level).body, op.symbol)) ++
  AssignmentOperator.all.map (fun op => (Rule.assignmentOperator.body, op.symbol)) ++
  leaders.map (fun t => (Rule.unaryOperator.body, t)) ++
  ["++", "--"].map (fun t => (Rule.postfixOperator.body, t)) ++
  ["this", "new"].map fun t => ((Rule.keyword t).body, t)

/-- True for keywords and identifiers. -/
def isNaming : Rule → Bool
  | .keyword _ | .identifier => true
  | _ => false

/-- They are word rules. -/
theorem manner_of_isNaming {r : Rule} (h : isNaming r = true) : r.manner = .word := by
  cases r <;> first | rfl | cases h

/-- Patterns that no name begins. -/
def nameless : List (Pattern Rule) :=
  .rule .unaryOperator :: word "this" :: .rule .literal :: markedPatterns

/-- Patterns that no numeral begins. -/
def digitless : List (Pattern Rule) :=
  .rule .unaryOperator :: word "this" :: word "null" :: word "true" :: word "false" ::
    .rule .reservedWord :: .rule .identifierName :: markedPatterns

/-- What the matcher makes of the fixed tokens: they are neither blank nor comments, only a colon
begins with a colon, and a stopper continues no level from its own on; what is barred does not begin
with the tokens, and what is accepted matches; and the openings of some patterns are no names or no
digits. -/
theorem marks_hold :
    (∀ t ∈ marks, isSolid t = true ∧ (t = ":" ∨ rejects (.lit ":") t = true)) ∧
    (∀ x ∈ stoppers, stopsAt x.1 x.2 = true) ∧
    (∀ x ∈ barred, ∀ q ∈ x.1, ∀ t ∈ x.2, bars q t = true) ∧
    (∀ x ∈ accepted, accepts x.1 x.2 = true) ∧
    (∀ q ∈ nameless, (q.openings isNaming 60).all Pattern.missesNames = true) ∧
    ∀ q ∈ digitless, (q.openings isNaming 60).all Pattern.missesNumerals = true := by
  decide +kernel

theorem stopsAt_of_mem : ∀ x ∈ stoppers, stopsAt x.1 x.2 = true := marks_hold.2.1

theorem bars_of_mem : ∀ x ∈ barred, ∀ q ∈ x.1, ∀ t ∈ x.2, bars q t = true := marks_hold.2.2.1

theorem accepts_of_mem : ∀ x ∈ accepted, accepts x.1 x.2 = true := marks_hold.2.2.2.1

theorem missesNames_of_mem : ∀ q ∈ nameless,
    (q.openings isNaming 60).all Pattern.missesNames = true := marks_hold.2.2.2.2.1

theorem missesNumerals_of_mem : ∀ q ∈ digitless,
    (q.openings isNaming 60).all Pattern.missesNumerals = true := marks_hold.2.2.2.2.2

/-! ## Refusals -/

/-- Fixed tokens are neither blank nor comments. -/
theorem isSolid_of_mem (t : String) (mem : t ∈ marks) : isSolid t = true := (marks_hold.1 t mem).1

/-- Fixed tokens open a text. -/
theorem opens_mark (mem : t ∈ marks) : Opens (t :: tokens) := .of_isSolid (isSolid_of_mem t mem)

/-- Only a colon begins with a colon. -/
theorem rejects_colon_of_mem (t : String) (mem : t ∈ marks) :
    t = ":" ∨ rejects (.lit ":") t = true := (marks_hold.1 t mem).2

/-- A mark stops the levels that it does not continue. -/
theorem stops_mark {floor : Nat} (mem : (floor, t) ∈ stoppers)
    (mark : t ∈ marks) : Stops floor (t :: tokens) :=
  .of_stopsAt (isSolid_of_mem t mark) (stopsAt_of_mem _ mem)

/-- What no fixed token that begins an operand begins. -/
theorem bars_openers : ∀ q ∈ .rule .unaryOperator :: .rule .labelledStatement :: markedPatterns,
    ∀ t ∈ openers, bars q t = true :=
  bars_of_mem (_, openers) List.mem_cons_self

/-- What no operator before an operand begins. -/
theorem bars_leaders : ∀ q ∈ .rule .labelledStatement :: markedPatterns,
    ∀ t ∈ leaders, bars q t = true :=
  bars_of_mem (_, leaders) (List.mem_cons_of_mem _ List.mem_cons_self)

/-- No operator of an assignment begins the branches of a conditional. -/
theorem bars_choice : ∀ op ∈ AssignmentOperator.all, bars choiceTail op.symbol = true :=
  fun _ mem => bars_of_mem (_, AssignmentOperator.all.map (·.symbol))
    (List.mem_cons_of_mem _ (List.mem_cons_of_mem _ List.mem_cons_self)) _ List.mem_cons_self _
    (List.mem_map_of_mem mem)

/-- All that is tried in vain is refused. -/
theorem bars_vain (x : Pattern Rule × String) (mem : x ∈ vain) : bars x.1 x.2 = true :=
  bars_of_mem ([x.1], [x.2]) (List.mem_append_right _ (List.mem_map_of_mem mem)) _
    List.mem_cons_self _ List.mem_cons_self

/-- What is tried in vain does not match. -/
theorem refuses_vain (mem : (p, t) ∈ vain) (spaced : Spaced (t :: tokens) cs) : Refuses w p cs :=
  refuses_of_bars (bars_vain _ mem) spaced w

/-! ## Operators -/

/-- What the grammar says about the text of a binary operator. -/
theorem BinaryOperator.reads (op : BinaryOperator) (mem : op ∈ BinaryOperator.all) :
    (2 ≤ op.level ∧ op.level < 12) ∧ stopsAt (op.level + 1) op.symbol = true ∧
    accepts (levelOperator op.level).body op.symbol = true := by
  have bounds : ∀ op ∈ BinaryOperator.all, 2 ≤ op.level ∧ op.level < 12 := by decide
  have stops : (op.level + 1, op.symbol) ∈ stoppers := by
    simp only [stoppers, List.mem_append]
    exact .inl (.inl (.inr (List.mem_map_of_mem mem)))
  have listed : ((levelOperator op.level).body, op.symbol) ∈ accepted := by
    simp only [accepted, List.mem_append]
    exact .inl (.inl (.inl (.inl (.inl (List.mem_map_of_mem mem)))))
  exact ⟨bounds op mem, stopsAt_of_mem _ stops, accepts_of_mem _ listed⟩

/-- What the grammar says about the text of a logical operator. -/
theorem LogicalOperator.reads (op : LogicalOperator) (mem : op ∈ [LogicalOperator.or, .and]) :
    (2 ≤ op.level ∧ op.level < 12) ∧ stopsAt (op.level + 1) op.symbol = true ∧
    accepts (levelOperator op.level).body op.symbol = true := by
  have bounds : 2 ≤ op.level ∧ op.level < 12 := by cases op <;> decide
  have stops : (op.level + 1, op.symbol) ∈ stoppers := by
    simp only [stoppers, List.mem_append]
    exact .inl (.inr (List.mem_map_of_mem mem))
  have listed : ((levelOperator op.level).body, op.symbol) ∈ accepted := by
    simp only [accepted, List.mem_append]
    exact .inl (.inl (.inl (.inl (.inr (List.mem_map_of_mem mem)))))
  exact ⟨bounds, stopsAt_of_mem _ stops, accepts_of_mem _ listed⟩

/-- What the grammar says about the text of an assignment operator. -/
theorem AssignmentOperator.reads (op : AssignmentOperator) (mem : op ∈ AssignmentOperator.all) :
    stopsAt 2 op.symbol = true ∧ accepts Rule.assignmentOperator.body op.symbol = true ∧
    AssignmentOperator.ofSymbol? op.symbol = some op ∧ bars choiceTail op.symbol = true := by
  have known : ∀ op ∈ AssignmentOperator.all, AssignmentOperator.ofSymbol? op.symbol = some op := by
    decide
  have stops : (2, op.symbol) ∈ stoppers := List.mem_append_right _ (List.mem_map_of_mem mem)
  have listed : (Rule.assignmentOperator.body, op.symbol) ∈ accepted := by
    simp only [accepted, List.mem_append]
    exact .inl (.inl (.inl (.inr (List.mem_map_of_mem mem))))
  exact ⟨stopsAt_of_mem _ stops, accepts_of_mem _ listed, known op mem, bars_choice op mem⟩

/-- The operators before an operand are unary operators of the grammar. -/
theorem accepts_leaders (t : String) (mem : t ∈ leaders) :
    accepts Rule.unaryOperator.body t = true := by
  refine accepts_of_mem (_, t) ?_
  simp only [accepted, List.mem_append]
  exact .inl (.inl (.inr (List.mem_map_of_mem mem)))

/-- What follows and changes an operand is a postfix operator of the grammar. -/
theorem accepts_postfix_operators (t : String) (mem : t ∈ ["++", "--"]) :
    accepts Rule.postfixOperator.body t = true := by
  refine accepts_of_mem (_, t) ?_
  simp only [accepted, List.mem_append]
  exact .inl (.inr (List.mem_map_of_mem mem))

/-- Keywords of the grammar. -/
theorem accepts_keywords (t : String) (mem : t ∈ ["this", "new"]) :
    accepts (Rule.keyword t).body t = true := by
  refine accepts_of_mem (_, t) ?_
  simp only [accepted, List.mem_append]
  exact .inr (List.mem_map_of_mem mem)

/-- Such a pattern matches at no name. -/
theorem refuses_at_name (mem : p ∈ nameless) (n : Name) (ends : Ends tail) :
    Refuses w p (n.text.toList ++ tail) :=
  refuses_of_openings (n := 60) (fun _ => manner_of_isNaming)
    (fun q opening => refuses_name (List.all_eq_true.1 (missesNames_of_mem p mem) q opening) n ends)
    w

/-- Such a pattern matches at no digit and at no point. -/
theorem refuses_at_digit (mem : p ∈ digitless) {d : Char} (front : d.isDigit = true ∨ d = '.') :
    Refuses w p (d :: cs) :=
  refuses_of_openings (n := 60) (fun _ => manner_of_isNaming)
    (fun q opening =>
      refuses_numeral (List.all_eq_true.1 (missesNumerals_of_mem p mem) q opening) front) w

/-- Such a pattern matches at no integer. -/
theorem refuses_at_numeral (mem : p ∈ digitless) (n : Nat) :
    Refuses w p ((Nat.repr n).toList ++ tail) := by
  obtain ⟨d, ds, same, digit, -, -⟩ := exists_digits n
  rw [same]
  exact refuses_at_digit mem (.inl digit)

end AbstractScript
