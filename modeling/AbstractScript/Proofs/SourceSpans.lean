import AbstractScript.Grammar.Token
import AbstractScript.Syntax.Tree

/-!
# The spans of a syntax tree

Expressions, statements and their parts differ in kind, but as pieces of a source text they are all
alike: each has a span, and its parts have theirs. A `SpanTree` keeps this much of a syntax tree. Its
spans nest if parts stand inside the whole, one after another, and identifiers stand where their
names are written (`SpanTree.Nested`).
-/
namespace AbstractScript

/-- The spans of a syntax tree: where a node is written, the name that is written there if the node
is an identifier, and the parts of the node in the order in which they are written. -/
inductive SpanTree where
  | node (span : Span) (name : Option String) (parts : List SpanTree)

namespace SpanTree

/-- Where the node is written. -/
def span : SpanTree → Span
  | node span _ _ => span

/-- The spans of a tree nest in a source text. -/
inductive Nested (source : String) : SpanTree → Prop
  | node {span : Span} {name : Option String} {parts : List SpanTree}
    (forward : span.start ≤ span.stop)
    (bounded : span.stop ≤ source.utf8ByteSize)
    (inside : ∀ t ∈ parts, span.start ≤ t.span.start ∧ t.span.stop ≤ span.stop)
    (increasing : parts.Pairwise fun t u =>
      t.span.start < u.span.start ∧ t.span.stop ≤ u.span.start)
    (named : ∀ text, name = some text →
      Grammar.Token.slice source span.start span.stop = text)
    (below : ∀ t ∈ parts, Nested source t) : Nested source (node span name parts)

end SpanTree

/-! ## Parts in the order of the source -/

/-- An identifier. -/
def Identifier.spans (id : Identifier) : SpanTree := .node id.span (some id.name) []

mutual

/-- The spans of an expression. -/
def Expression.spans : Expression → SpanTree
  | .literal span _ => .node span none []
  | .identifier id => id.spans
  | .this span => .node span none []
  | .array span xs => .node span none (elementSpans xs)
  | .object span es => .node span none (entrySpans es)
  | .function code => code.spans
  | .unary span _ x => .node span none [x.spans]
  | .update span _ _ x => .node span none [x.spans]
  | .binary span _ x y => .node span none [x.spans, y.spans]
  | .assignment span _ x y => .node span none [x.spans, y.spans]
  | .logical span _ x y => .node span none [x.spans, y.spans]
  | .conditional span test x y => .node span none [test.spans, x.spans, y.spans]
  | .call span f xs => .node span none (f.spans :: expressionSpans xs)
  | .construct span f xs => .node span none (f.spans :: expressionSpans xs)
  | .member span x property => .node span none [x.spans, property.spans]
  | .index span x key => .node span none [x.spans, key.spans]
  | .sequence span xs => .node span none (expressionSpans xs)

/-- The spans of an expression, if there is one. -/
def optionSpans : Option Expression → List SpanTree
  | none => []
  | some x => [x.spans]

/-- The spans of several expressions. -/
def expressionSpans : List Expression → List SpanTree
  | [] => []
  | x :: rest => x.spans :: expressionSpans rest

/-- The spans of the elements of an array literal. A hole takes up no text. -/
def elementSpans : List (Option Expression) → List SpanTree
  | [] => []
  | x :: rest => optionSpans x ++ elementSpans rest

/-- The spans of an entry of an object literal. -/
def Entry.spans : Entry → SpanTree
  | .value span _ x => .node span none [x.spans]
  | .getter span _ code => .node span none [code.spans]
  | .setter span _ code => .node span none [code.spans]

/-- The spans of the entries of an object literal. -/
def entrySpans : List Entry → List SpanTree
  | [] => []
  | e :: rest => e.spans :: entrySpans rest

/-- The spans of a function: its own name, its parameters and its body. -/
def FunctionCode.spans : FunctionCode → SpanTree
  | .mk span id parameters bodySpan body =>
    .node span none (id.toList.map Identifier.spans ++
      (parameters.map Identifier.spans ++ [.node bodySpan none (statementSpans body)]))

/-- The spans of a statement. The test of a `do` loop is written after the body. -/
def Statement.spans : Statement → SpanTree
  | .expression span x => .node span none [x.spans]
  | .block b => b.spans
  | .empty span => .node span none []
  | .debugger span => .node span none []
  | .returns span x => .node span none (optionSpans x)
  | .breaks span label => .node span none (label.toList.map Identifier.spans)
  | .continues span label => .node span none (label.toList.map Identifier.spans)
  | .labeled span label s => .node span none [label.spans, s.spans]
  | .branch span test s t => .node span none (test.spans :: s.spans :: alternateSpans t)
  | .switch span x cs => .node span none (x.spans :: caseSpans cs)
  | .throws span x => .node span none [x.spans]
  | .tryCatch span b handler finalizer =>
    .node span none (b.spans :: (handlerSpans handler ++ finalizerSpans finalizer))
  | .whileLoop span test s => .node span none [test.spans, s.spans]
  | .doWhileLoop span test s => .node span none [s.spans, test.spans]
  | .forLoop span start test update s =>
    .node span none (startSpans start ++ (optionSpans test ++ (optionSpans update ++ [s.spans])))
  | .forInLoop span target x s => .node span none [target.spans, x.spans, s.spans]
  | .varDeclaration span ds => .node span none (declaratorSpans ds)
  | .functionDeclaration code => code.spans

/-- The spans of the second statement of an `if`, if there is one. -/
def alternateSpans : Option Statement → List SpanTree
  | none => []
  | some s => [s.spans]

/-- The spans of several statements. -/
def statementSpans : List Statement → List SpanTree
  | [] => []
  | s :: rest => s.spans :: statementSpans rest

/-- The spans of a block. -/
def Block.spans : Block → SpanTree
  | .mk span body => .node span none (statementSpans body)

/-- The spans of the last block of a `try`, if there is one. -/
def finalizerSpans : Option Block → List SpanTree
  | none => []
  | some b => [b.spans]

/-- The spans of the handler of a `try`. -/
def CatchClause.spans : CatchClause → SpanTree
  | .mk span parameter b => .node span none [parameter.spans, b.spans]

/-- The spans of the handler of a `try`, if there is one. -/
def handlerSpans : Option CatchClause → List SpanTree
  | none => []
  | some handler => [handler.spans]

/-- The spans of a case of a switch. -/
def SwitchCase.spans : SwitchCase → SpanTree
  | .mk span test body => .node span none (optionSpans test ++ statementSpans body)

/-- The spans of the cases of a switch. -/
def caseSpans : List SwitchCase → List SpanTree
  | [] => []
  | c :: rest => c.spans :: caseSpans rest

/-- The spans of what a `for` loop does first. -/
def ForStart.spans : ForStart → SpanTree
  | .varDeclaration span ds => .node span none (declaratorSpans ds)
  | .expression x => x.spans

/-- The spans of what a `for` loop does first, if there is anything. -/
def startSpans : Option ForStart → List SpanTree
  | none => []
  | some start => [start.spans]

/-- The spans of the target of a `for-in` loop. -/
def ForInTarget.spans : ForInTarget → SpanTree
  | .variable span id => .node span none [id.spans]
  | .expression x => x.spans

/-- The spans of a variable of a declaration. -/
def Declarator.spans : Declarator → SpanTree
  | .mk span id x => .node span none (id.spans :: optionSpans x)

/-- The spans of the variables of a declaration. -/
def declaratorSpans : List Declarator → List SpanTree
  | [] => []
  | d :: rest => d.spans :: declaratorSpans rest

end

/-- The spans of a program. -/
def Program.spans (p : Program) : SpanTree := .node p.span none (statementSpans p.body)

/-- The tree of an expression stands where the expression is written. -/
theorem Expression.span_spans (e : Expression) : e.spans.span = e.span := by
  cases e with
  | function code => cases code; rfl
  | _ => rfl

/-! ## Trees one after another -/

namespace SpanTree

variable {source : String} {low mid high : Nat} {ts us : List SpanTree} {span : Span}

/-- The trees stand one after another between two offsets of a source text, and their spans nest.
None of them is empty. -/
inductive LaidOut (source : String) : Nat → Nat → List SpanTree → Prop
  | nil {low high : Nat} (le : low ≤ high) (bounded : high ≤ source.utf8ByteSize) :
    LaidOut source low high []
  | cons {low high : Nat} {t : SpanTree} {ts : List SpanTree} (after : low ≤ t.span.start)
    (nonempty : t.span.start < t.span.stop) (nested : t.Nested source)
    (rest : LaidOut source t.span.stop high ts) : LaidOut source low high (t :: ts)

namespace LaidOut

theorem le (h : LaidOut source low high ts) : low ≤ high := by
  induction h with
  | nil le => exact le
  | cons after nonempty _ _ rest => omega

theorem bounded (h : LaidOut source low high ts) : high ≤ source.utf8ByteSize := by
  induction h with
  | nil _ bounded => exact bounded
  | cons _ _ _ _ rest => exact rest

/-- There may be other text around the trees. -/
theorem mono {low' high' : Nat} (h : LaidOut source low high ts) (before : low' ≤ low)
    (after : high ≤ high') (bounded : high' ≤ source.utf8ByteSize) :
    LaidOut source low' high' ts := by
  induction h generalizing low' with
  | nil le => exact .nil (by omega) bounded
  | cons first nonempty nested _ rest =>
    exact .cons (Nat.le_trans before first) nonempty nested (rest (Nat.le_refl _) after)

/-- Trees and then further trees. -/
theorem append (first : LaidOut source low mid ts) (second : LaidOut source mid high us) :
    LaidOut source low high (ts ++ us) := by
  induction first with
  | nil le => exact second.mono le (Nat.le_refl _) second.bounded
  | cons after nonempty nested _ rest => exact .cons after nonempty nested (rest second)

/-- The trees stand between the offsets. -/
theorem inside (h : LaidOut source low high ts) :
    ∀ t ∈ ts, low ≤ t.span.start ∧ t.span.stop ≤ high := by
  induction h with
  | nil => simp
  | cons after nonempty _ rest ih =>
    have := rest.le
    refine List.forall_mem_cons.2 ⟨by omega, fun t mem => ?_⟩
    have := ih t mem
    omega

/-- The spans of the trees do not overlap, and they increase. -/
theorem increasing (h : LaidOut source low high ts) :
    ts.Pairwise fun t u => t.span.start < u.span.start ∧ t.span.stop ≤ u.span.start := by
  induction h with
  | nil => exact .nil
  | cons _ nonempty _ rest ih =>
    refine .cons (fun u mem => ?_) ih
    have := (rest.inside u mem).1
    omega

theorem nested (h : LaidOut source low high ts) : ∀ t ∈ ts, t.Nested source := by
  induction h with
  | nil => simp
  | cons _ _ nested _ ih => exact List.forall_mem_cons.2 ⟨nested, ih⟩

/-- The spans of a node nest if its parts stand one after another inside it. -/
theorem nested_node (parts : LaidOut source span.start span.stop ts) :
    (SpanTree.node span none ts).Nested source :=
  .node parts.le parts.bounded parts.inside parts.increasing (by simp) parts.nested

/-- A node around its parts. -/
theorem node (parts : LaidOut source span.start span.stop ts) (after : low ≤ span.start)
    (nonempty : span.start < span.stop) (before : span.stop ≤ high)
    (bounded : high ≤ source.utf8ByteSize) : LaidOut source low high [.node span none ts] :=
  .cons after nonempty parts.nested_node (.nil before bounded)

/-- A node that reaches from a tree to the end of a span after it, in which the node's other parts
stand. -/
theorem through {t : SpanTree} (first : LaidOut source low mid [t])
    (others : LaidOut source span.start span.stop ts) (apart : mid ≤ span.start)
    (before : span.stop ≤ high) (bounded : high ≤ source.utf8ByteSize) :
    LaidOut source low high [.node (t.span.through span) none (t :: ts)] := by
  cases first with
  | cons after nonempty nested last =>
    have before_others := last.le
    have others_le := others.le
    have parts :
        LaidOut source (t.span.through span).start (t.span.through span).stop (t :: ts) :=
      .cons (Nat.le_refl _) nonempty nested
        (others.mono (by omega) (Nat.le_refl _) others.bounded)
    have taken : (t.span.through span).start < (t.span.through span).stop := by
      dsimp only [Span.through]
      omega
    exact parts.node after taken before bounded

/-- An identifier where its name is written. -/
theorem identifier {id : Identifier} (after : low ≤ id.span.start)
    (nonempty : id.span.start < id.span.stop) (before : id.span.stop ≤ high)
    (bounded : high ≤ source.utf8ByteSize)
    (named : Grammar.Token.slice source id.span.start id.span.stop = id.name) :
    LaidOut source low high [id.spans] := by
  have nested : id.spans.Nested source := by
    refine .node (by omega) (by omega) (by simp) .nil ?_ (by simp)
    rintro text ⟨⟩
    exact named
  exact .cons after nonempty nested (.nil before bounded)

end LaidOut

end SpanTree

end AbstractScript
