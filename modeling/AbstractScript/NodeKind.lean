import AbstractScript.Syntax.Tree

/-!
# Kinds of syntax nodes

A rule is found by the kind of the node that it evaluates.
-/
namespace AbstractScript

/-- The kinds of nodes that rules evaluate. -/
inductive NodeKind where
  | program
  | expressionStatement
  | blockStatement
  | emptyStatement
  | debuggerStatement
  | returnStatement
  | breakStatement
  | continueStatement
  | labeledStatement
  | ifStatement
  | switchStatement
  | throwStatement
  | tryStatement
  | whileStatement
  | doWhileStatement
  | forStatement
  | forInStatement
  | variableDeclaration
  | functionDeclaration
  | literal
  | identifier
  | thisExpression
  | arrayExpression
  | objectExpression
  | functionExpression
  | unaryExpression
  | updateExpression
  | binaryExpression
  | assignmentExpression
  | logicalExpression
  | conditionalExpression
  | callExpression
  | newExpression
  | memberExpression
  | sequenceExpression
  deriving DecidableEq, Repr, Inhabited

namespace NodeKind

/-- Every kind. -/
def all : List NodeKind :=
  [program, expressionStatement, blockStatement, emptyStatement, debuggerStatement,
    returnStatement, breakStatement, continueStatement, labeledStatement, ifStatement,
    switchStatement, throwStatement, tryStatement, whileStatement, doWhileStatement, forStatement,
    forInStatement, variableDeclaration, functionDeclaration, literal, identifier, thisExpression,
    arrayExpression, objectExpression, functionExpression, unaryExpression, updateExpression,
    binaryExpression, assignmentExpression, logicalExpression, conditionalExpression,
    callExpression, newExpression, memberExpression, sequenceExpression]

/-- The name of a kind. -/
def name : NodeKind → String
  | program => "Program"
  | expressionStatement => "ExpressionStatement"
  | blockStatement => "BlockStatement"
  | emptyStatement => "EmptyStatement"
  | debuggerStatement => "DebuggerStatement"
  | returnStatement => "ReturnStatement"
  | breakStatement => "BreakStatement"
  | continueStatement => "ContinueStatement"
  | labeledStatement => "LabeledStatement"
  | ifStatement => "IfStatement"
  | switchStatement => "SwitchStatement"
  | throwStatement => "ThrowStatement"
  | tryStatement => "TryStatement"
  | whileStatement => "WhileStatement"
  | doWhileStatement => "DoWhileStatement"
  | forStatement => "ForStatement"
  | forInStatement => "ForInStatement"
  | variableDeclaration => "VariableDeclaration"
  | functionDeclaration => "FunctionDeclaration"
  | literal => "Literal"
  | identifier => "Identifier"
  | thisExpression => "ThisExpression"
  | arrayExpression => "ArrayExpression"
  | objectExpression => "ObjectExpression"
  | functionExpression => "FunctionExpression"
  | unaryExpression => "UnaryExpression"
  | updateExpression => "UpdateExpression"
  | binaryExpression => "BinaryExpression"
  | assignmentExpression => "AssignmentExpression"
  | logicalExpression => "LogicalExpression"
  | conditionalExpression => "ConditionalExpression"
  | callExpression => "CallExpression"
  | newExpression => "NewExpression"
  | memberExpression => "MemberExpression"
  | sequenceExpression => "SequenceExpression"

/-- The kind of a given name. -/
def ofName? (s : String) : Option NodeKind := all.find? (·.name = s)

end NodeKind

/-- The kind of a statement. -/
def Statement.kind : Statement → NodeKind
  | .expression .. => .expressionStatement
  | .block _ => .blockStatement
  | .empty _ => .emptyStatement
  | .debugger _ => .debuggerStatement
  | .returns .. => .returnStatement
  | .breaks .. => .breakStatement
  | .continues .. => .continueStatement
  | .labeled .. => .labeledStatement
  | .branch .. => .ifStatement
  | .switch .. => .switchStatement
  | .throws .. => .throwStatement
  | .tryCatch .. => .tryStatement
  | .whileLoop .. => .whileStatement
  | .doWhileLoop .. => .doWhileStatement
  | .forLoop .. => .forStatement
  | .forInLoop .. => .forInStatement
  | .varDeclaration .. => .variableDeclaration
  | .functionDeclaration _ => .functionDeclaration

/-- The kind of an expression. -/
def Expression.kind : Expression → NodeKind
  | .literal .. => .literal
  | .identifier _ => .identifier
  | .this _ => .thisExpression
  | .array .. => .arrayExpression
  | .object .. => .objectExpression
  | .function _ => .functionExpression
  | .unary .. => .unaryExpression
  | .update .. => .updateExpression
  | .binary .. => .binaryExpression
  | .assignment .. => .assignmentExpression
  | .logical .. => .logicalExpression
  | .conditional .. => .conditionalExpression
  | .call .. => .callExpression
  | .construct .. => .newExpression
  | .member .. => .memberExpression
  | .index .. => .memberExpression
  | .sequence .. => .sequenceExpression

end AbstractScript
