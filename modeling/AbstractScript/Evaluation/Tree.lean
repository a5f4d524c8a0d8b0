import AbstractScript.Evaluation.Statement

/-!
# Evaluation of syntax trees

The meaning of a node is a computation that is put together from the meanings of its parts. Calls of
functions of the program are given as a parameter, since what they do does not depend on the size
of the node.
-/
namespace AbstractScript

open Eval

mutual

/-- Evaluates an expression to its value. -/
def Expression.evaluate (call : ScriptCall) : Expression → Run Completion
  | .literal span v => ruled .literal span (return .normal v.value)
  | .identifier id => ruled .identifier id.span (Rule.read (Rule.resolve id.name)).complete
  | .this span => ruled .thisExpression span (return .normal (← get).this)
  | .array span xs =>
    ruled .arrayExpression span (Rule.arrayLiteral (evaluateElements call xs)).complete
  | .object span es =>
    ruled .objectExpression span (Rule.objectLiteral (Entry.properties call es)).complete
  | .function code =>
    ruled .functionExpression code.span (return .normal (.object (← createFunctionValue code)))
  | .unary span operator x =>
    ruled .unaryExpression span
      (Rule.unary operator x.isTarget (x.refer call) (x.evaluate call)).complete
  | .update span operator leading x =>
    ruled .updateExpression span (Rule.update operator leading (x.refer call)).complete
  | .binary span operator x y =>
    ruled .binaryExpression span (Rule.binary operator (x.evaluate call) (y.evaluate call)).complete
  | .assignment span operator x y =>
    ruled .assignmentExpression span
      (Rule.assignment operator (x.refer call) (y.evaluate call)).complete
  | .logical span operator x y =>
    ruled .logicalExpression span
      (Rule.logical operator span x.span (x.evaluate call) (y.evaluate call)).complete
  | .conditional span test x y =>
    ruled .conditionalExpression span
      (Rule.conditional span test.span (test.evaluate call) (x.evaluate call)
        (y.evaluate call)).complete
  | .call span f xs =>
    ruled .callExpression span
      (Rule.call call f.calleeText (Rule.callee f.isTarget (f.refer call) (f.evaluate call))
        (evaluateAll call xs)).complete
  | .construct span f xs =>
    ruled .newExpression span
      (Rule.new call f.calleeText (f.evaluate call) (evaluateAll call xs)).complete
  | .member span x property =>
    ruled .memberExpression span
      (Rule.read (Rule.memberReference (x.evaluate call) property.name)).complete
  | .index span x key =>
    ruled .memberExpression span
      (Rule.read (Rule.indexReference (x.evaluate call) (key.evaluate call))).complete
  | .sequence span xs =>
    ruled .sequenceExpression span (Rule.sequence (evaluateAll call xs)).complete

/-- Evaluates an expression to what it refers to. The registry of rules is not asked. -/
def Expression.refer (call : ScriptCall) : Expression → Rule Reference
  | .identifier id => Rule.referring .identifier id.span (Rule.resolve id.name)
  | .member span x property =>
    Rule.referring .memberExpression span (Rule.memberReference (x.evaluate call) property.name)
  | .index span x key =>
    Rule.referring .memberExpression span
      (Rule.indexReference (x.evaluate call) (key.evaluate call))
  | x => Rule.referring x.kind x.span (Rule.malformed x.kind x.span)

/-- Evaluates an expression, if there is one. -/
def evaluateOption (call : ScriptCall) : Option Expression → Option (Run Completion)
  | none => none
  | some x => some (x.evaluate call)

/-- Evaluates a test with its span, if there is one. -/
def evaluateTest (call : ScriptCall) : Option Expression → Option (Span × Run Completion)
  | none => none
  | some x => some (x.span, x.evaluate call)

/-- Evaluates each of some expressions. -/
def evaluateAll (call : ScriptCall) : List Expression → List (Run Completion)
  | [] => []
  | x :: rest => x.evaluate call :: evaluateAll call rest

/-- Evaluates each element of an array literal. -/
def evaluateElements (call : ScriptCall) :
    List (Option Expression) → List (Option (Run Completion))
  | [] => []
  | x :: rest => evaluateOption call x :: evaluateElements call rest

/-- What an entry of an object literal defines. -/
def Entry.property (call : ScriptCall) : Entry → Rule.Property
  | .value _ key x => (key, Rule.valueProperty (x.evaluate call))
  | .getter _ key code => (key, Rule.getterProperty code)
  | .setter _ key code => (key, Rule.setterProperty code)

/-- What the entries of an object literal define. -/
def Entry.properties (call : ScriptCall) : List Entry → List Rule.Property
  | [] => []
  | e :: rest => e.property call :: Entry.properties call rest

/-- Evaluates a statement. -/
def Statement.evaluate (call : ScriptCall) : Statement → Run Completion
  | .expression span x =>
    ruled .expressionStatement span (Rule.expression (x.evaluate call)).complete
  | .block b => ruled .blockStatement b.span (b.evaluate call)
  | .empty span => ruled .emptyStatement span (return .empty)
  | .debugger span => ruled .debuggerStatement span (return .empty)
  | .returns span x => ruled .returnStatement span (Rule.returns (evaluateOption call x)).complete
  | .breaks span label => ruled .breakStatement span (return .breaks (label.map (·.name)))
  | .continues span label => ruled .continueStatement span (return .continues (label.map (·.name)))
  | .labeled span label s =>
    ruled .labeledStatement span (labeled label.name s.takesLabels (s.evaluate call))
  | .branch span test s t =>
    ruled .ifStatement span
      (Rule.branch span test.span (test.evaluate call) (s.evaluate call)
        (evaluateAlternate call t)).complete
  | .switch span x cs =>
    ruled .switchStatement span
      (Rule.switch span x.span (x.evaluate call) (SwitchCase.cases call cs)).complete
  | .throws span x => ruled .throwStatement span (Rule.throws (x.evaluate call)).complete
  | .tryCatch span b handler finalizer =>
    ruled .tryStatement span
      (tryBlock (b.evaluate call) (CatchClause.handling call handler)
        (evaluateFinalizer call finalizer))
  | .whileLoop span test s =>
    ruled .whileStatement span
      (Rule.loop true (return)
        ⟨span, some (test.span, test.evaluate call), none, s.evaluate call⟩).complete
  | .doWhileLoop span test s =>
    ruled .doWhileStatement span
      (Rule.loop false (return)
        ⟨span, some (test.span, test.evaluate call), none, s.evaluate call⟩).complete
  | .forLoop span start test update s =>
    ruled .forStatement span
      (Rule.loop true (ForStart.begin call start)
        ⟨span, evaluateTest call test, evaluateOption call update, s.evaluate call⟩).complete
  | .forInLoop span target x s =>
    ruled .forInStatement span
      (Rule.nameLoop
        ⟨span, target.assign call, (x.span, x.evaluate call), s.evaluate call⟩).complete
  | .varDeclaration span ds =>
    ruled .variableDeclaration span (Rule.varDeclaration (Declarator.initials call ds)).complete
  | .functionDeclaration code => ruled .functionDeclaration code.span (return .empty)

/-- Evaluates the second statement of an `if`, if there is one. -/
def evaluateAlternate (call : ScriptCall) : Option Statement → Option (Run Completion)
  | none => none
  | some s => some (s.evaluate call)

/-- The steps of statements. -/
def Statement.steps (call : ScriptCall) : List Statement → List Step
  | [] => []
  | s :: rest => ⟨s.span, s.evaluate call⟩ :: Statement.steps call rest

/-- Evaluates the statements of a block. -/
def Block.evaluate (call : ScriptCall) : Block → Run Completion
  | .mk _ ss => Step.runAll none (Statement.steps call ss)

/-- Evaluates the last block of a `try`, if there is one. -/
def evaluateFinalizer (call : ScriptCall) : Option Block → Option (Run Completion)
  | none => none
  | some b => some (b.evaluate call)

/-- The handler of a `try`, if there is one. -/
def CatchClause.handling (call : ScriptCall) : Option CatchClause → Option Handling
  | none => none
  | some (.mk span id b) => some ⟨span, handle id.name (b.evaluate call)⟩

/-- The computations of the cases of a switch. -/
def SwitchCase.cases (call : ScriptCall) : List SwitchCase → List Case
  | [] => []
  | .mk _ test ss :: rest =>
    ⟨evaluateTest call test, Statement.steps call ss⟩ :: SwitchCase.cases call rest

/-- What a `for` loop does first. -/
def ForStart.begin (call : ScriptCall) : Option ForStart → Rule Unit
  | none => return
  | some (.varDeclaration _ ds) =>
    Rule.discard (Rule.varDeclaration (Declarator.initials call ds)).complete
  | some (.expression x) => Rule.discard (x.evaluate call)

/-- Assigns a name to the target of a `for-in` loop. -/
def ForInTarget.assign (call : ScriptCall) : ForInTarget → Value → Run Completion
  | .variable _ id => Rule.assignName (Rule.resolve id.name)
  | .expression x => Rule.assignName (x.refer call)

/-- The computations of the initial values of variables. -/
def Declarator.initials (call : ScriptCall) :
    List Declarator → List (String × Option (Run Completion))
  | [] => []
  | .mk _ id x :: rest => (id.name, evaluateOption call x) :: Declarator.initials call rest

end

end AbstractScript
