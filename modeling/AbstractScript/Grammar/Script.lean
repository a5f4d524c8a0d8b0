import AbstractScript.Grammar.Matcher

/-!
# The grammar of scripts

ECMAScript 5 without regular expression literals and `with`. A semicolon at the end of a statement
may be left out anywhere.
-/
namespace AbstractScript.Grammar

/-- The rules that give tokens. -/
inductive Rule where
  | keyword (word : String)
  | identifierName
  | identifier
  | reservedWord
  | numericLiteral
  | stringLiteral
  | literal
  | primaryExpression
  | parenthesizedExpression
  | arrayLiteral
  | arrayComma
  | objectLiteral
  | propertyGetter
  | propertySetter
  | propertyInit
  | propertyName
  | functionExpression
  | formalParameters
  | functionBody
  | memberExpression
  | newMemberExpression
  | propertyAccess
  | computedAccess
  | arguments
  | leftHandSideExpression
  | postfixExpression
  | postfixOperator
  | unaryExpression
  | unaryOperator
  | multiplicativeExpression
  | multiplicativeOperator
  | additiveExpression
  | additiveOperator
  | shiftExpression
  | shiftOperator
  | relationalExpression
  | relationalOperator
  | equalityExpression
  | equalityOperator
  | bitwiseAndExpression
  | bitwiseAndOperator
  | bitwiseXorExpression
  | bitwiseXorOperator
  | bitwiseOrExpression
  | bitwiseOrOperator
  | logicalAndExpression
  | logicalAndOperator
  | logicalOrExpression
  | logicalOrOperator
  | conditionalExpression
  | assignmentExpression
  | assignmentOperator
  | expression
  | block
  | variableStatement
  | variableDeclarationList
  | variableDeclaration
  | emptyStatement
  | expressionStatement
  | ifStatement
  | doWhileStatement
  | whileStatement
  | forInStatement
  | forInVar
  | forStatement
  | forInit
  | forTest
  | forUpdate
  | continueStatement
  | breakStatement
  | returnStatement
  | switchStatement
  | caseClause
  | defaultClause
  | labelledStatement
  | throwStatement
  | tryStatement
  | catchClause
  | finallyClause
  | debuggerStatement
  | functionDeclaration
  | endOfInput
  | script
  deriving DecidableEq, Repr

namespace Rule

/-- The name of a rule in an outline. -/
def name : Rule → String
  | keyword word => "kw_" ++ word
  | identifierName => "identifier_name"
  | identifier => "identifier"
  | reservedWord => "reserved_word"
  | numericLiteral => "numeric_literal"
  | stringLiteral => "string_literal"
  | literal => "literal"
  | primaryExpression => "primary_expression"
  | parenthesizedExpression => "parenthesized_expression"
  | arrayLiteral => "array_literal"
  | arrayComma => "array_comma"
  | objectLiteral => "object_literal"
  | propertyGetter => "property_getter"
  | propertySetter => "property_setter"
  | propertyInit => "property_init"
  | propertyName => "property_name"
  | functionExpression => "function_expression"
  | formalParameters => "formal_parameters"
  | functionBody => "function_body"
  | memberExpression => "member_expression"
  | newMemberExpression => "new_member_expression"
  | propertyAccess => "property_access"
  | computedAccess => "computed_access"
  | arguments => "arguments"
  | leftHandSideExpression => "left_hand_side_expression"
  | postfixExpression => "postfix_expression"
  | postfixOperator => "postfix_operator"
  | unaryExpression => "unary_expression"
  | unaryOperator => "unary_operator"
  | multiplicativeExpression => "multiplicative_expression"
  | multiplicativeOperator => "multiplicative_operator"
  | additiveExpression => "additive_expression"
  | additiveOperator => "additive_operator"
  | shiftExpression => "shift_expression"
  | shiftOperator => "shift_operator"
  | relationalExpression => "relational_expression"
  | relationalOperator => "relational_operator"
  | equalityExpression => "equality_expression"
  | equalityOperator => "equality_operator"
  | bitwiseAndExpression => "bitwise_and_expression"
  | bitwiseAndOperator => "bitwise_and_operator"
  | bitwiseXorExpression => "bitwise_xor_expression"
  | bitwiseXorOperator => "bitwise_xor_operator"
  | bitwiseOrExpression => "bitwise_or_expression"
  | bitwiseOrOperator => "bitwise_or_operator"
  | logicalAndExpression => "logical_and_expression"
  | logicalAndOperator => "logical_and_operator"
  | logicalOrExpression => "logical_or_expression"
  | logicalOrOperator => "logical_or_operator"
  | conditionalExpression => "conditional_expression"
  | assignmentExpression => "assignment_expression"
  | assignmentOperator => "assignment_operator"
  | expression => "expression"
  | block => "block"
  | variableStatement => "variable_statement"
  | variableDeclarationList => "variable_declaration_list"
  | variableDeclaration => "variable_declaration"
  | emptyStatement => "empty_statement"
  | expressionStatement => "expression_statement"
  | ifStatement => "if_statement"
  | doWhileStatement => "do_while_statement"
  | whileStatement => "while_statement"
  | forInStatement => "for_in_statement"
  | forInVar => "for_in_var"
  | forStatement => "for_statement"
  | forInit => "for_init"
  | forTest => "for_test"
  | forUpdate => "for_update"
  | continueStatement => "continue_statement"
  | breakStatement => "break_statement"
  | returnStatement => "return_statement"
  | switchStatement => "switch_statement"
  | caseClause => "case_clause"
  | defaultClause => "default_clause"
  | labelledStatement => "labelled_statement"
  | throwStatement => "throw_statement"
  | tryStatement => "try_statement"
  | catchClause => "catch_clause"
  | finallyClause => "finally_clause"
  | debuggerStatement => "debugger_statement"
  | functionDeclaration => "function_declaration"
  | endOfInput => "EOI"
  | script => "script"

/-- The rules that are matched as words. -/
def manner : Rule → Manner
  | keyword _ | identifierName | identifier | reservedWord | numericLiteral | stringLiteral
  | postfixOperator | unaryOperator | multiplicativeOperator | additiveOperator | shiftOperator
  | relationalOperator | equalityOperator | bitwiseAndOperator | bitwiseXorOperator
  | bitwiseOrOperator | logicalAndOperator | logicalOrOperator | assignmentOperator
  | endOfInput => .word
  | _ => .ordinary

end Rule

open Pattern

/-! ## Characters -/

/-- The end of a line. -/
def lineTerminator : Pattern Rule := oneOfTexts ["\r\n", "\n", "\r", "\u2028", "\u2029"]

/-- One blank character. -/
def whiteSpace : Pattern Rule :=
  .alt (oneOfTexts [" ", "\t", "\x0b", "\x0c", "\u00a0", "\ufeff"]) lineTerminator

/-- Any character that does not begin a match of `p`. -/
def anyBut (p : Pattern Rule) : Pattern Rule := .seq (.unless p) (.char .any)

/-- A comment between `/*` and `*/`, or from `//` to the end of the line. -/
def comment : Pattern Rule :=
  .alt (all [lit "/*", .many (anyBut (lit "*/")), lit "*/"])
    (all [lit "//", .many (anyBut lineTerminator)])

/-- What is skipped between the parts of a statement or an expression. -/
def blank : Pattern Rule := .seq (.many whiteSpace) (.many (.seq comment (.many whiteSpace)))

/-! ## Words -/

/-- The first character of a name. -/
def identifierStart : Pattern Rule := oneOf [.char .asciiLetter, lit "$", lit "_", .char .letter]

/-- A further character of a name. -/
def identifierPart : Pattern Rule :=
  oneOf [identifierStart, .char .digit, .char .number, .char .connector, lit "\u200c", lit "\u200d"]

/-- A word that does not go on. -/
def wholeWord (s : String) : Pattern Rule := notBefore (lit s) identifierPart

/-- The words with a meaning in the grammar, in the order in which they are tried. -/
def keywords : List String :=
  ["break", "case", "catch", "continue", "debugger", "default", "delete", "do", "else", "finally",
    "for", "function", "if", "instanceof", "in", "new", "return", "switch", "this", "throw", "try",
    "typeof", "var", "void", "while", "null", "true", "false"]

/-- Further words that are no identifiers. -/
def unusedWords : List String :=
  ["with", "class", "const", "enum", "export", "extends", "import", "super"]

/-- The keyword `s`. -/
def word (s : String) : Pattern Rule := .rule (.keyword s)

/-- Decimal digits without a superfluous zero. -/
def decimalInteger : Pattern Rule :=
  .alt (lit "0") (.seq (.char .nonzeroDigit) (.many (.char .digit)))

/-- The exponent of a numeral. -/
def exponentPart : Pattern Rule :=
  all [oneOfTexts ["e", "E"], .opt (oneOfTexts ["+", "-"]), some (.char .digit)]

/-- A decimal numeral. A point before the start of a name is not part of it. -/
def decimalLiteral : Pattern Rule :=
  .alt
    (all [decimalInteger,
      .opt (all [lit ".", .unless identifierStart, .many (.char .digit)]),
      .opt exponentPart])
    (all [lit ".", some (.char .digit), .opt exponentPart])

/-- A hexadecimal numeral. -/
def hexInteger : Pattern Rule := .seq (oneOfTexts ["0x", "0X"]) (some (.char .hexDigit))

/-- A string literal between two quotes. -/
def quotedString (mark : String) : Pattern Rule :=
  all [lit mark,
    .many (.alt (.seq (lit "\\") (.alt (lit "\r\n") (.char .any)))
      (anyBut (oneOf [lit mark, lit "\\", lineTerminator]))),
    lit mark]

/-! ## Statements -/

/-- The end of a statement. -/
def endOfStatement : Pattern Rule := .opt (lit ";")

/-- Any statement. -/
def statement : Pattern Rule :=
  oneOf ([.block, .variableStatement, .emptyStatement, .ifStatement, .doWhileStatement,
    .whileStatement, .forInStatement, .forStatement, .continueStatement, .breakStatement,
    .returnStatement, .switchStatement, .throwStatement, .tryStatement, .debuggerStatement,
    .labelledStatement, .expressionStatement].map .rule)

/-- A statement or a function declaration. -/
def sourceElement : Pattern Rule := .alt (.rule .functionDeclaration) statement

/-- An expression in parentheses. -/
def inParentheses (p : Pattern Rule) : List (Pattern Rule) := [lit "(", p, lit ")"]

/-- Operands of one level of precedence with operators between them. -/
def operands (operand operator : Rule) : Pattern Rule :=
  separated (.rule operator) (.rule operand)

/-- A function's parameters and body. -/
def functionRest : List (Pattern Rule) :=
  [lit "(", .rule .formalParameters, lit ")", .rule .functionBody]

/-- Elements between commas, possibly none. -/
def listOf (r : Rule) : Pattern Rule := .opt (separated (lit ",") (.rule r))

/-- What each rule matches. -/
def Rule.body : Rule → Pattern Rule
  | keyword w => wholeWord w
  | identifierName => .seq identifierStart (.many identifierPart)
  | identifier => .seq (.unless (.rule .reservedWord)) (.rule .identifierName)
  | reservedWord =>
    oneOf (keywords.map word ++ [notBefore (oneOfTexts unusedWords) identifierPart])
  | numericLiteral =>
    notBefore (.alt hexInteger decimalLiteral) (.alt identifierStart (.char .digit))
  | stringLiteral => .alt (quotedString "\"") (quotedString "'")
  | literal =>
    oneOf [word "null", word "true", word "false", .rule .numericLiteral, .rule .stringLiteral]
  | primaryExpression =>
    oneOf [word "this", .rule .literal, .rule .identifier, .rule .arrayLiteral,
      .rule .objectLiteral, .rule .parenthesizedExpression]
  | parenthesizedExpression => all (inParentheses (.rule .expression))
  | arrayLiteral =>
    all [lit "[", .many (.alt (.rule .arrayComma) (.rule .assignmentExpression)), lit "]"]
  | arrayComma => lit ","
  | objectLiteral =>
    let entry := oneOf [.rule .propertyGetter, .rule .propertySetter, .rule .propertyInit]
    all [lit "\x7b", .opt (all [entry, .many (.seq (lit ",") entry), .opt (lit ",")]), lit "\x7d"]
  | propertyGetter =>
    all [lit "get", .rule .propertyName, lit "(", lit ")", .rule .functionBody]
  | propertySetter =>
    all [lit "set", .rule .propertyName, lit "(", .rule .identifier, lit ")", .rule .functionBody]
  | propertyInit => all [.rule .propertyName, lit ":", .rule .assignmentExpression]
  | propertyName => oneOf [.rule .stringLiteral, .rule .numericLiteral, .rule .identifierName]
  | functionExpression => all ([word "function", .opt (.rule .identifier)] ++ functionRest)
  | formalParameters => listOf .identifier
  | functionBody => all [lit "\x7b", .many sourceElement, lit "\x7d"]
  | memberExpression =>
    .seq (oneOf [.rule .primaryExpression, .rule .functionExpression, .rule .newMemberExpression])
      (.many (.alt (.rule .propertyAccess) (.rule .computedAccess)))
  | newMemberExpression =>
    all [word "new", .rule .memberExpression, .opt (.rule .arguments)]
  | propertyAccess => .seq (lit ".") (.rule .identifierName)
  | computedAccess => all [lit "[", .rule .expression, lit "]"]
  | arguments => all (inParentheses (listOf .assignmentExpression))
  | leftHandSideExpression =>
    .seq (.rule .memberExpression)
      (.many (oneOf [.rule .arguments, .rule .propertyAccess, .rule .computedAccess]))
  | postfixExpression => .seq (.rule .leftHandSideExpression) (.opt (.rule .postfixOperator))
  | postfixOperator => oneOfTexts ["++", "--"]
  | unaryExpression =>
    .alt (.seq (.rule .unaryOperator) (.rule .unaryExpression)) (.rule .postfixExpression)
  | unaryOperator =>
    oneOf [word "delete", word "void", word "typeof",
      lit "++", lit "--", lit "+", lit "-", lit "~", lit "!"]
  | multiplicativeExpression => operands .unaryExpression .multiplicativeOperator
  | multiplicativeOperator => notBefore (oneOfTexts ["*", "/", "%"]) (lit "=")
  | additiveExpression => operands .multiplicativeExpression .additiveOperator
  | additiveOperator =>
    .alt (notBefore (lit "+") (oneOfTexts ["+", "="]))
      (notBefore (lit "-") (oneOfTexts ["-", "="]))
  | shiftExpression => operands .additiveExpression .shiftOperator
  | shiftOperator => notBefore (oneOfTexts [">>>", ">>", "<<"]) (lit "=")
  | relationalExpression => operands .shiftExpression .relationalOperator
  | relationalOperator =>
    oneOf [lit "<=", lit ">=", notBefore (lit "<") (lit "<"), notBefore (lit ">") (lit ">"),
      word "instanceof", word "in"]
  | equalityExpression => operands .relationalExpression .equalityOperator
  | equalityOperator => oneOfTexts ["===", "!==", "==", "!="]
  | bitwiseAndExpression => operands .equalityExpression .bitwiseAndOperator
  | bitwiseAndOperator => notBefore (lit "&") (oneOfTexts ["&", "="])
  | bitwiseXorExpression => operands .bitwiseAndExpression .bitwiseXorOperator
  | bitwiseXorOperator => notBefore (lit "^") (lit "=")
  | bitwiseOrExpression => operands .bitwiseXorExpression .bitwiseOrOperator
  | bitwiseOrOperator => notBefore (lit "|") (oneOfTexts ["|", "="])
  | logicalAndExpression => operands .bitwiseOrExpression .logicalAndOperator
  | logicalAndOperator => lit "&&"
  | logicalOrExpression => operands .logicalAndExpression .logicalOrOperator
  | logicalOrOperator => lit "||"
  | conditionalExpression =>
    .seq (.rule .logicalOrExpression)
      (.opt (all [lit "?", .rule .assignmentExpression, lit ":", .rule .assignmentExpression]))
  | assignmentExpression =>
    .seq (.rule .conditionalExpression)
      (.opt (.seq (.rule .assignmentOperator) (.rule .assignmentExpression)))
  | assignmentOperator =>
    .alt (notBefore (lit "=") (lit "="))
      (oneOfTexts ["*=", "/=", "%=", "+=", "-=", "<<=", ">>>=", ">>=", "&=", "^=", "|="])
  | expression => separated (lit ",") (.rule .assignmentExpression)
  | block => all [lit "\x7b", .many sourceElement, lit "\x7d"]
  | variableStatement => all [word "var", .rule .variableDeclarationList, endOfStatement]
  | variableDeclarationList => separated (lit ",") (.rule .variableDeclaration)
  | variableDeclaration =>
    .seq (.rule .identifier) (.opt (.seq (lit "=") (.rule .assignmentExpression)))
  | emptyStatement => lit ";"
  | expressionStatement =>
    all [.unless (.alt (lit "\x7b") (word "function")), .rule .expression, endOfStatement]
  | ifStatement =>
    all (word "if" :: inParentheses (.rule .expression) ++
      [statement, .opt (.seq (word "else") statement)])
  | doWhileStatement =>
    all ([word "do", statement, word "while"] ++ inParentheses (.rule .expression) ++
      [endOfStatement])
  | whileStatement => all (word "while" :: inParentheses (.rule .expression) ++ [statement])
  | forInStatement =>
    all [word "for", lit "(", .alt (.rule .forInVar) (.rule .leftHandSideExpression), word "in",
      .rule .expression, lit ")", statement]
  | forInVar => .seq (word "var") (.rule .identifier)
  | forStatement =>
    all [word "for", lit "(", .opt (.rule .forInit), lit ";", .opt (.rule .forTest), lit ";",
      .opt (.rule .forUpdate), lit ")", statement]
  | forInit => .alt (.seq (word "var") (.rule .variableDeclarationList)) (.rule .expression)
  | forTest => .rule .expression
  | forUpdate => .rule .expression
  | continueStatement => all [word "continue", .opt (.rule .identifier), endOfStatement]
  | breakStatement => all [word "break", .opt (.rule .identifier), endOfStatement]
  | returnStatement => all [word "return", .opt (.rule .expression), endOfStatement]
  | switchStatement =>
    all (word "switch" :: inParentheses (.rule .expression) ++
      [lit "\x7b", .many (.alt (.rule .caseClause) (.rule .defaultClause)), lit "\x7d"])
  | caseClause => all [word "case", .rule .expression, lit ":", .many sourceElement]
  | defaultClause => all [word "default", lit ":", .many sourceElement]
  | labelledStatement => all [.rule .identifier, lit ":", statement]
  | throwStatement => all [word "throw", .rule .expression, endOfStatement]
  | tryStatement =>
    all [word "try", .rule .block,
      .alt (.seq (.rule .catchClause) (.opt (.rule .finallyClause))) (.rule .finallyClause)]
  | catchClause => all (word "catch" :: inParentheses (.rule .identifier) ++ [.rule .block])
  | finallyClause => .seq (word "finally") (.rule .block)
  | debuggerStatement => .seq (word "debugger") endOfStatement
  | functionDeclaration => all ([word "function", .rule .identifier] ++ functionRest)
  | endOfInput => .stop
  | script => all [.text [], .many sourceElement, .rule .endOfInput]

/-- The grammar of scripts. -/
def scripts : RuleSet Rule where
  manner := Rule.manner
  body := Rule.body
  blank := blank

/-- The token tree of a script. -/
def parseScript (text : String) : Except Position (Token Rule) := parse scripts .script text

end AbstractScript.Grammar
