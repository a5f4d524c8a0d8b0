/-!
# Operators

The operators of expressions, with the text each is written as and the name each is known by.
-/
namespace AbstractScript

/-- An operator before its operand that yields a new value. -/
inductive UnaryOperator where
  | minus
  | plus
  | logicalNot
  | bitwiseNot
  | typeOf
  | void
  | delete
  deriving DecidableEq, Repr

/-- An operator that changes its operand by one. -/
inductive UpdateOperator where
  | increment
  | decrement
  deriving DecidableEq, Repr

/-- An operator between two evaluated operands. -/
inductive BinaryOperator where
  | looselyEqual
  | looselyUnequal
  | strictlyEqual
  | strictlyUnequal
  | lessThan
  | lessThanEqual
  | greaterThan
  | greaterThanEqual
  | leftShift
  | rightShift
  | unsignedRightShift
  | add
  | subtract
  | multiply
  | divide
  | modulo
  | bitwiseOr
  | bitwiseAnd
  | bitwiseXor
  | contains
  | instanceOf
  deriving DecidableEq, Repr

/-- An operator whose right operand is evaluated only if the left one does not decide. -/
inductive LogicalOperator where
  | or
  | and
  deriving DecidableEq, Repr

/-- Plain assignment, or assignment of the result of a binary operator. -/
inductive AssignmentOperator where
  | assign
  | compound (operator : BinaryOperator)
  deriving DecidableEq, Repr

namespace UnaryOperator

/-- Every unary operator. -/
def all : List UnaryOperator := [.minus, .plus, .logicalNot, .bitwiseNot, .typeOf, .void, .delete]

/-- The text of the operator in a program. -/
def symbol : UnaryOperator → String
  | minus => "-"
  | plus => "+"
  | logicalNot => "!"
  | bitwiseNot => "~"
  | typeOf => "typeof"
  | void => "void"
  | delete => "delete"

/-- The name of the operator. -/
def name : UnaryOperator → String
  | minus => "Minus"
  | plus => "Plus"
  | logicalNot => "LogicalNot"
  | bitwiseNot => "BitwiseNot"
  | typeOf => "TypeOf"
  | void => "Void"
  | delete => "Delete"

/-- The operator written as `s`. -/
def ofSymbol? (s : String) : Option UnaryOperator := all.find? (·.symbol = s)

end UnaryOperator

namespace UpdateOperator

/-- The text of the operator in a program. -/
def symbol : UpdateOperator → String
  | increment => "++"
  | decrement => "--"

/-- The name of the operator. -/
def name : UpdateOperator → String
  | increment => "PlusPlus"
  | decrement => "MinusMinus"

/-- The operator written as `s`. -/
def ofSymbol? (s : String) : Option UpdateOperator := [increment, decrement].find? (·.symbol = s)

end UpdateOperator

namespace BinaryOperator

/-- Every binary operator. -/
def all : List BinaryOperator :=
  [looselyEqual, looselyUnequal, strictlyEqual, strictlyUnequal, lessThan, lessThanEqual,
    greaterThan, greaterThanEqual, leftShift, rightShift, unsignedRightShift, add, subtract,
    multiply, divide, modulo, bitwiseOr, bitwiseAnd, bitwiseXor, contains, instanceOf]

/-- The text of the operator in a program. -/
def symbol : BinaryOperator → String
  | looselyEqual => "=="
  | looselyUnequal => "!="
  | strictlyEqual => "==="
  | strictlyUnequal => "!=="
  | lessThan => "<"
  | lessThanEqual => "<="
  | greaterThan => ">"
  | greaterThanEqual => ">="
  | leftShift => "<<"
  | rightShift => ">>"
  | unsignedRightShift => ">>>"
  | add => "+"
  | subtract => "-"
  | multiply => "*"
  | divide => "/"
  | modulo => "%"
  | bitwiseOr => "|"
  | bitwiseAnd => "&"
  | bitwiseXor => "^"
  | contains => "in"
  | instanceOf => "instanceof"

/-- The name of the operator. -/
def name : BinaryOperator → String
  | looselyEqual => "LooselyEqual"
  | looselyUnequal => "LooselyUnequal"
  | strictlyEqual => "StrictlyEqual"
  | strictlyUnequal => "StrictlyUnequal"
  | lessThan => "LessThan"
  | lessThanEqual => "LessThanEqual"
  | greaterThan => "GreaterThan"
  | greaterThanEqual => "GreaterThanEqual"
  | leftShift => "BitwiseLeftShift"
  | rightShift => "BitwiseRightShift"
  | unsignedRightShift => "BitwiseUnsignedRightShift"
  | add => "Add"
  | subtract => "Subtract"
  | multiply => "Multiply"
  | divide => "Divide"
  | modulo => "Modulo"
  | bitwiseOr => "BitwiseOr"
  | bitwiseAnd => "BitwiseAnd"
  | bitwiseXor => "BitwiseXor"
  | contains => "In"
  | instanceOf => "InstanceOf"

/-- The operator written as `s`. -/
def ofSymbol? (s : String) : Option BinaryOperator := all.find? (·.symbol = s)

/-- The operator of a given name. -/
def ofName? (s : String) : Option BinaryOperator := all.find? (·.name = s)

end BinaryOperator

namespace LogicalOperator

/-- The text of the operator in a program. -/
def symbol : LogicalOperator → String
  | or => "||"
  | and => "&&"

/-- The name of the operator. -/
def name : LogicalOperator → String
  | or => "Or"
  | and => "And"

end LogicalOperator

namespace AssignmentOperator

/-- The binary operators that have an assignment form. -/
def compounds : List BinaryOperator :=
  [.add, .subtract, .multiply, .divide, .modulo, .leftShift, .rightShift, .unsignedRightShift,
    .bitwiseOr, .bitwiseAnd, .bitwiseXor]

/-- Every assignment operator. -/
def all : List AssignmentOperator := assign :: compounds.map compound

/-- The text of the operator in a program. -/
def symbol : AssignmentOperator → String
  | assign => "="
  | compound op => op.symbol ++ "="

/-- The name of the operator. -/
def name : AssignmentOperator → String
  | assign => "Equals"
  | compound op => op.name ++ "Equals"

/-- The operator written as `s`. -/
def ofSymbol? (s : String) : Option AssignmentOperator := all.find? (·.symbol = s)

end AssignmentOperator

end AbstractScript
