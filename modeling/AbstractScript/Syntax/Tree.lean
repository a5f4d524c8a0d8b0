import AbstractScript.Syntax.Operator
import AbstractScript.Syntax.Span

/-!
# Syntax trees

Programs, statements and expressions. Every node knows the span of source text it was read from.
-/
namespace AbstractScript

/-- A name with the place it is written at. -/
structure Identifier where
  span : Span
  name : String
  deriving DecidableEq, Repr, Inhabited

/-- The value of a literal. -/
inductive LiteralValue where
  | null
  | bool (b : Bool)
  | number (x : Float)
  | string (s : String)
  deriving DecidableEq, Repr, Inhabited

mutual

/-- An expression. -/
inductive Expression where
  | literal (span : Span) (value : LiteralValue)
  | identifier (id : Identifier)
  | this (span : Span)
  | array (span : Span) (elements : List (Option Expression))
  | object (span : Span) (entries : List Entry)
  | function (code : FunctionCode)
  | unary (span : Span) (operator : UnaryOperator) (argument : Expression)
  | update (span : Span) (operator : UpdateOperator) (leading : Bool) (argument : Expression)
  | binary (span : Span) (operator : BinaryOperator) (left right : Expression)
  | assignment (span : Span) (operator : AssignmentOperator) (target value : Expression)
  | logical (span : Span) (operator : LogicalOperator) (left right : Expression)
  | conditional (span : Span) (test consequent alternate : Expression)
  | call (span : Span) (callee : Expression) (arguments : List Expression)
  | construct (span : Span) (callee : Expression) (arguments : List Expression)
  | member (span : Span) (object : Expression) (property : Identifier)
  | index (span : Span) (object property : Expression)
  | sequence (span : Span) (expressions : List Expression)

/-- A property of an object literal. -/
inductive Entry where
  | value (span : Span) (key : String) (value : Expression)
  | getter (span : Span) (key : String) (code : FunctionCode)
  | setter (span : Span) (key : String) (code : FunctionCode)

/-- A function: its own name if it has one, its parameters and its body. -/
inductive FunctionCode where
  | mk (span : Span) (id : Option Identifier) (parameters : List Identifier) (bodySpan : Span)
    (body : List Statement)

/-- A statement. -/
inductive Statement where
  | expression (span : Span) (expression : Expression)
  | block (block : Block)
  | empty (span : Span)
  | debugger (span : Span)
  | returns (span : Span) (argument : Option Expression)
  | breaks (span : Span) (label : Option Identifier)
  | continues (span : Span) (label : Option Identifier)
  | labeled (span : Span) (label : Identifier) (body : Statement)
  | branch (span : Span) (test : Expression) (consequent : Statement) (alternate : Option Statement)
  | switch (span : Span) (discriminant : Expression) (cases : List SwitchCase)
  | throws (span : Span) (argument : Expression)
  | tryCatch (span : Span) (block : Block) (handler : Option CatchClause) (finalizer : Option Block)
  | whileLoop (span : Span) (test : Expression) (body : Statement)
  | doWhileLoop (span : Span) (test : Expression) (body : Statement)
  | forLoop (span : Span) (start : Option ForStart) (test update : Option Expression)
    (body : Statement)
  | forInLoop (span : Span) (target : ForInTarget) (object : Expression) (body : Statement)
  | varDeclaration (span : Span) (declarators : List Declarator)
  | functionDeclaration (code : FunctionCode)

/-- Statements between braces. -/
inductive Block where
  | mk (span : Span) (body : List Statement)

/-- A case of a switch; the default case has no test. -/
inductive SwitchCase where
  | mk (span : Span) (test : Option Expression) (consequent : List Statement)

/-- The handler of a `try`. -/
inductive CatchClause where
  | mk (span : Span) (parameter : Identifier) (body : Block)

/-- What a `for` loop does first. -/
inductive ForStart where
  | varDeclaration (span : Span) (declarators : List Declarator)
  | expression (expression : Expression)

/-- What a `for-in` loop assigns the names to. -/
inductive ForInTarget where
  | variable (span : Span) (id : Identifier)
  | expression (expression : Expression)

/-- A variable of a `var` declaration. -/
inductive Declarator where
  | mk (span : Span) (id : Identifier) (value : Option Expression)

end

instance : Inhabited Expression := ⟨.this default⟩

instance : Inhabited Statement := ⟨.empty default⟩

/-- A program and the file it was read from. -/
structure Program where
  span : Span
  file : String
  body : List Statement

namespace FunctionCode

/-- Where the function is written. -/
def span : FunctionCode → Span
  | mk span .. => span

/-- The function's own name. -/
def id : FunctionCode → Option Identifier
  | mk _ id .. => id

/-- The parameters, in order. -/
def parameters : FunctionCode → List Identifier
  | mk _ _ parameters .. => parameters

/-- Where the body is written. -/
def bodySpan : FunctionCode → Span
  | mk _ _ _ bodySpan _ => bodySpan

/-- The statements of the body. -/
def body : FunctionCode → List Statement
  | mk _ _ _ _ body => body

/-- The function's own name, empty if it has none. -/
def name (code : FunctionCode) : String := (code.id.map Identifier.name).getD ""

end FunctionCode

namespace Block

/-- Where the block is written. -/
def span : Block → Span
  | mk span _ => span

/-- The statements of the block. -/
def body : Block → List Statement
  | mk _ body => body

end Block

namespace SwitchCase

/-- Where the case is written. -/
def span : SwitchCase → Span
  | mk span _ _ => span

/-- The test of the case. -/
def test : SwitchCase → Option Expression
  | mk _ test _ => test

/-- The statements of the case. -/
def consequent : SwitchCase → List Statement
  | mk _ _ consequent => consequent

end SwitchCase

namespace CatchClause

/-- Where the clause is written. -/
def span : CatchClause → Span
  | mk span _ _ => span

/-- The name that the exception is bound to. -/
def parameter : CatchClause → Identifier
  | mk _ parameter _ => parameter

/-- The block of the clause. -/
def body : CatchClause → Block
  | mk _ _ body => body

end CatchClause

namespace Declarator

/-- Where the declarator is written. -/
def span : Declarator → Span
  | mk span _ _ => span

/-- The variable. -/
def id : Declarator → Identifier
  | mk _ id _ => id

/-- The initial value. -/
def value : Declarator → Option Expression
  | mk _ _ value => value

end Declarator

namespace Expression

/-- Where the expression is written. -/
def span : Expression → Span
  | literal span _ => span
  | identifier id => id.span
  | this span => span
  | array span _ => span
  | object span _ => span
  | function code => code.span
  | unary span .. => span
  | update span .. => span
  | binary span .. => span
  | assignment span .. => span
  | logical span .. => span
  | conditional span .. => span
  | call span .. => span
  | construct span .. => span
  | member span .. => span
  | index span .. => span
  | sequence span _ => span

/-- True for the forms that can be assigned to: identifiers and members. -/
def isTarget : Expression → Bool
  | identifier _ => true
  | member .. => true
  | index .. => true
  | _ => false

end Expression

namespace Statement

/-- Where the statement is written. -/
def span : Statement → Span
  | expression span _ => span
  | block b => b.span
  | empty span => span
  | debugger span => span
  | returns span _ => span
  | breaks span _ => span
  | continues span _ => span
  | labeled span .. => span
  | branch span .. => span
  | switch span .. => span
  | throws span _ => span
  | tryCatch span .. => span
  | whileLoop span .. => span
  | doWhileLoop span .. => span
  | forLoop span .. => span
  | forInLoop span .. => span
  | varDeclaration span _ => span
  | functionDeclaration code => code.span

/-- True for the statements that a label is passed on to: loops, switches and labelled
statements. -/
def takesLabels : Statement → Bool
  | whileLoop .. => true
  | doWhileLoop .. => true
  | forLoop .. => true
  | forInLoop .. => true
  | switch .. => true
  | labeled .. => true
  | _ => false

end Statement

end AbstractScript
