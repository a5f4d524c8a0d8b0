import AbstractScript.Syntax.Span

/-!
# Syntax errors

A text can be refused by the grammar, or be a sentence of the grammar that is no program.
-/
namespace AbstractScript

/-- What is wrong with a source text. -/
inductive SyntaxFault where
  /-- The text is no sentence of the grammar. -/
  | refused
  | assignmentTarget
  | postfixTarget
  | leadingTarget
  | forInTarget
  | missingComma
  | hexadecimalEscape
  | unterminatedEscape
  | invalidNumber
  /-- A token that does not belong where it stands, or with a text that its rule does not have. No
  source text gives such a token tree. -/
  | misplaced
  deriving DecidableEq, Repr

namespace SyntaxFault

/-- The wording of a fault. -/
def message : SyntaxFault → String
  | refused => "syntax error"
  | assignmentTarget => "Invalid left-hand side in assignment"
  | postfixTarget => "Invalid left-hand side expression in postfix operation"
  | leadingTarget => "Invalid left-hand side expression in prefix operation"
  | forInTarget => "Invalid left-hand side in for-in"
  | missingComma => "Expected ',' in array literal"
  | hexadecimalEscape => "Invalid hexadecimal escape sequence"
  | unterminatedEscape => "Unterminated escape sequence"
  | invalidNumber => "Invalid numeric literal"
  | misplaced => "Unexpected token"

end SyntaxFault

/-- A fault and where it is. -/
structure SyntaxError where
  fault : SyntaxFault
  line : Nat
  column : Nat
  deriving DecidableEq, Repr

namespace SyntaxError

/-- A fault at the start of a span. -/
def atSpan (fault : SyntaxFault) (span : Span) : SyntaxError := ⟨fault, span.line, span.column⟩

/-- The wording of an error, with its place. -/
def text (e : SyntaxError) : String :=
  e.fault.message ++ " (" ++ Nat.repr e.line ++ ":" ++ Nat.repr e.column ++ ")"

end SyntaxError

end AbstractScript
