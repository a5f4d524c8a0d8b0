import AbstractScript.Grammar.Script
import AbstractScript.Number.Text
import AbstractScript.Syntax.Escape
import AbstractScript.Syntax.SyntaxError
import AbstractScript.Syntax.Tree

/-!
# Syntax trees from token trees

The grammar has a rule for each level of precedence; the syntax tree keeps only the nodes that say
something. Operators of one level group to the left. Some sentences of the grammar are refused
here: assignments to what is no target, array elements without commas between them, and malformed
escape sequences.
-/
namespace AbstractScript

open Grammar

/-- A token of a script. -/
abbrev ScriptToken := Token Rule

namespace ScriptToken

/-- Refuses a token that does not belong where it stands. -/
def misplaced {α : Type} (t : ScriptToken) : Except SyntaxError α :=
  .error (.atSpan .misplaced t.span)

/-! ## Words -/

/-- The number that a numeric literal denotes. A digit that is not hexadecimal behind `0x` is out of
place; a decimal literal that is none is an invalid number. -/
def numberOf (span : Span) (text : String) : Except SyntaxError Float :=
  match text.toList with
  | '0' :: 'x' :: ds => number .misplaced (Number.ofHex? ds)
  | '0' :: 'X' :: ds => number .misplaced (Number.ofHex? ds)
  | cs => number .invalidNumber (Number.ofNumeral? cs)
where
  /-- The number read, or the fault that there is none. -/
  number (fault : SyntaxFault) : Option Float → Except SyntaxError Float
    | some x => .ok x
    | none => .error (.atSpan fault span)

/-- The text that a string literal denotes. A literal has at least its two quotes. -/
def stringOf (span : Span) (text : String) : Except SyntaxError String :=
  if text.utf8ByteSize < 2 then .error (.atSpan .misplaced span)
  else
    match Escape.resolve (text.toList.drop 1).dropLast with
    | .ok cs => .ok (String.ofList cs)
    | .error .invalidHexadecimal => .error (.atSpan .hexadecimalEscape span)
    | .error .unterminated => .error (.atSpan .unterminatedEscape span)

/-- The value of a literal. -/
def literalOf : ScriptToken → Except SyntaxError LiteralValue
  | .word (.keyword "null") _ _ => .ok .null
  | .word (.keyword "true") _ _ => .ok (.bool true)
  | .word (.keyword "false") _ _ => .ok (.bool false)
  | .word .numericLiteral span text => .number <$> numberOf span text
  | .word .stringLiteral span text => .string <$> stringOf span text
  | t => misplaced t

/-- The text of a property name. A number names the property that its own text names. -/
def keyOf : ScriptToken → Except SyntaxError String
  | .node .propertyName _ [.word .stringLiteral span text] => stringOf span text
  | .node .propertyName _ [.word .numericLiteral span text] => Number.text <$> numberOf span text
  | .node .propertyName _ [.word .identifierName _ text] => .ok text
  | t => misplaced t

/-- The identifier of a word. -/
def identifierOf : ScriptToken → Except SyntaxError Identifier
  | .word .identifier span text => .ok ⟨span, text⟩
  | .word .identifierName span text => .ok ⟨span, text⟩
  | t => misplaced t

/-- The identifiers of a parameter list. -/
def parametersOf : ScriptToken → Except SyntaxError (List Identifier)
  | .node .formalParameters _ words => words.mapM identifierOf
  | t => misplaced t

/-- The label after `break` or `continue`. -/
def labelOf (span : Span) : List ScriptToken → Except SyntaxError (Option Identifier)
  | [] => .ok none
  | [t] => some <$> identifierOf t
  | _ => .error (.atSpan .misplaced span)

/-- The rules that group operands to the left. -/
def isChain : Rule → Bool
  | .logicalOrExpression | .logicalAndExpression | .bitwiseOrExpression | .bitwiseXorExpression
  | .bitwiseAndExpression | .equalityExpression | .relationalExpression | .shiftExpression
  | .additiveExpression | .multiplicativeExpression => true
  | _ => false

/-- An operation on two operands. -/
def operation (rule : Rule) (span : Span) (symbol : String) (left right : Expression) :
    Except SyntaxError Expression :=
  let whole := left.span.through right.span
  match rule with
  | .logicalOrOperator => .ok (.logical whole .or left right)
  | .logicalAndOperator => .ok (.logical whole .and left right)
  | _ =>
    match BinaryOperator.ofSymbol? symbol with
    | some op => .ok (.binary whole op left right)
    | none => .error (.atSpan .misplaced span)

/-- Refuses an expression that cannot be assigned to. -/
def requireTarget (fault : SyntaxFault) (span : Span) (e : Expression) : Except SyntaxError Unit :=
  if e.isTarget then .ok () else .error (.atSpan fault span)

/-! ## Expressions and statements -/

/-- The parts of a `for` statement found so far. -/
structure ForParts where
  start : Option ForStart := none
  test : Option Expression := none
  update : Option Expression := none
  body : Option Statement := none

mutual

/-- The expression of a token. -/
def expressionOf : ScriptToken → Except SyntaxError Expression
  | .word .identifier span text => .ok (.identifier ⟨span, text⟩)
  | .word _ span _ => .error (.atSpan .misplaced span)
  | .node rule span children =>
    match rule, children with
    | .expression, [t] => expressionOf t
    | .expression, ts => .sequence span <$> expressionsOf ts
    | .assignmentExpression, [t] => expressionOf t
    | .assignmentExpression, [left, .word .assignmentOperator opSpan symbol, right] => do
      let target ← expressionOf left
      requireTarget .assignmentTarget left.span target
      match AssignmentOperator.ofSymbol? symbol with
      | some op => return .assignment span op target (← expressionOf right)
      | none => .error (.atSpan .misplaced opSpan)
    | .conditionalExpression, [t] => expressionOf t
    | .conditionalExpression, [test, consequent, alternate] => do
      let test ← expressionOf test
      let consequent ← expressionOf consequent
      return .conditional span test consequent (← expressionOf alternate)
    | .unaryExpression, [t] => expressionOf t
    | .unaryExpression, [.word .unaryOperator opSpan symbol, operand] => do
      let argument ← expressionOf operand
      match UpdateOperator.ofSymbol? symbol with
      | some op =>
        requireTarget .leadingTarget operand.span argument
        return .update span op true argument
      | none =>
        match UnaryOperator.ofSymbol? symbol with
        | some op => return .unary span op argument
        | none => .error (.atSpan .misplaced opSpan)
    | .postfixExpression, [t] => expressionOf t
    | .postfixExpression, [operand, .word .postfixOperator opSpan symbol] => do
      let argument ← expressionOf operand
      requireTarget .postfixTarget operand.span argument
      match UpdateOperator.ofSymbol? symbol with
      | some op => return .update span op false argument
      | none => .error (.atSpan .misplaced opSpan)
    | .leftHandSideExpression, head :: suffixes => do
      suffixed (← expressionOf head) suffixes
    | .memberExpression, head :: suffixes => do
      suffixed (← expressionOf head) suffixes
    | .newMemberExpression, [.word (.keyword _) _ _, callee] => do
      return .construct span (← expressionOf callee) []
    | .newMemberExpression, [.word (.keyword _) _ _, callee, .node .arguments _ arguments] => do
      let callee ← expressionOf callee
      return .construct span callee (← expressionsOf arguments)
    | .primaryExpression, [.word (.keyword "this") _ _] => .ok (.this span)
    | .primaryExpression, [t] => expressionOf t
    | .parenthesizedExpression, [t] => expressionOf t
    | .literal, [t] => .literal span <$> literalOf t
    | .arrayLiteral, ts => .array span <$> elementsOf false ts
    | .objectLiteral, ts => .object span <$> entriesOf ts
    | .functionExpression,
        [.word (.keyword _) _ _, parameters, .node .functionBody bodySpan body] => do
      let parameters ← parametersOf parameters
      return .function (.mk span none parameters bodySpan (← statementsOf body))
    | .functionExpression,
        [.word (.keyword _) _ _, id, parameters, .node .functionBody bodySpan body] => do
      let id ← identifierOf id
      let parameters ← parametersOf parameters
      return .function (.mk span (some id) parameters bodySpan (← statementsOf body))
    | rule, first :: rest =>
      if isChain rule then do chained (← expressionOf first) rest
      else .error (.atSpan .misplaced span)
    | _, [] => .error (.atSpan .misplaced span)

/-- The expressions of several tokens. -/
def expressionsOf : List ScriptToken → Except SyntaxError (List Expression)
  | [] => .ok []
  | t :: rest => do
    let e ← expressionOf t
    return e :: (← expressionsOf rest)

/-- An operand followed by operators and operands, grouped to the left. -/
def chained (left : Expression) : List ScriptToken → Except SyntaxError Expression
  | [] => .ok left
  | .word rule span symbol :: t :: rest => do
    let right ← expressionOf t
    chained (← operation rule span symbol left right) rest
  | t :: _ => misplaced t

/-- An expression followed by calls and member accesses. -/
def suffixed (object : Expression) : List ScriptToken → Except SyntaxError Expression
  | [] => .ok object
  | .node .arguments span arguments :: rest => do
    suffixed (.call (object.span.through span) object (← expressionsOf arguments)) rest
  | .node .propertyAccess span [t] :: rest => do
    suffixed (.member (object.span.through span) object (← identifierOf t)) rest
  | .node .computedAccess span [t] :: rest => do
    suffixed (.index (object.span.through span) object (← expressionOf t)) rest
  | t :: _ => misplaced t

/-- The elements of an array literal. A comma after no element leaves a hole; two elements need a
comma between them. -/
def elementsOf (afterElement : Bool) :
    List ScriptToken → Except SyntaxError (List (Option Expression))
  | [] => .ok []
  | .node .arrayComma _ _ :: rest => do
    let elements ← elementsOf false rest
    return if afterElement then elements else none :: elements
  | t :: rest =>
    if afterElement then .error (.atSpan .missingComma t.span)
    else do
      let e ← expressionOf t
      return some e :: (← elementsOf true rest)

/-- The properties of an object literal. -/
def entriesOf : List ScriptToken → Except SyntaxError (List Entry)
  | [] => .ok []
  | .node .propertyInit span [key, t] :: rest => do
    let key ← keyOf key
    let value ← expressionOf t
    return .value span key value :: (← entriesOf rest)
  | .node .propertyGetter span [key, .node .functionBody bodySpan body] :: rest => do
    let key ← keyOf key
    let body ← statementsOf body
    return .getter span key (.mk span none [] bodySpan body) :: (← entriesOf rest)
  | .node .propertySetter span [key, parameter, .node .functionBody bodySpan body] :: rest => do
    let key ← keyOf key
    let parameter ← identifierOf parameter
    let body ← statementsOf body
    return .setter span key (.mk span none [parameter] bodySpan body) :: (← entriesOf rest)
  | t :: _ => misplaced t

/-- The statement of a token. -/
def statementOf : ScriptToken → Except SyntaxError Statement
  | .word _ span _ => .error (.atSpan .misplaced span)
  | .node rule span children =>
    match rule, children with
    | .block, ts => (fun body => .block (.mk span body)) <$> statementsOf ts
    | .variableStatement,
        [.word (.keyword _) _ _, .node .variableDeclarationList _ ts] =>
      .varDeclaration span <$> declaratorsOf ts
    | .emptyStatement, [] => .ok (.empty span)
    | .debuggerStatement, _ => .ok (.debugger span)
    | .expressionStatement, [t] => .expression span <$> expressionOf t
    | .ifStatement, [.word (.keyword _) _ _, test, consequent] => do
      let test ← expressionOf test
      return .branch span test (← statementOf consequent) none
    | .ifStatement,
        [.word (.keyword _) _ _, test, consequent, .word (.keyword _) _ _, alternate] => do
      let test ← expressionOf test
      let consequent ← statementOf consequent
      return .branch span test consequent (some (← statementOf alternate))
    | .doWhileStatement, [.word (.keyword _) _ _, body, .word (.keyword _) _ _, test] => do
      let body ← statementOf body
      return .doWhileLoop span (← expressionOf test) body
    | .whileStatement, [.word (.keyword _) _ _, test, body] => do
      let test ← expressionOf test
      return .whileLoop span test (← statementOf body)
    | .forInStatement, [.word (.keyword _) _ _,
        .node .forInVar varSpan [.word (.keyword _) _ _, id], .word (.keyword _) _ _, object,
        body] => do
      let id ← identifierOf id
      let object ← expressionOf object
      return .forInLoop span (.variable varSpan id) object (← statementOf body)
    | .forInStatement,
        [.word (.keyword _) _ _, left, .word (.keyword _) _ _, object, body] => do
      let target ← expressionOf left
      requireTarget .forInTarget left.span target
      let object ← expressionOf object
      return .forInLoop span (.expression target) object (← statementOf body)
    | .forStatement, .word (.keyword _) _ _ :: parts => do
      let parts ← forPartsOf ⟨none, none, none, none⟩ parts
      match parts.body with
      | some body => return .forLoop span parts.start parts.test parts.update body
      | none => .error (.atSpan .misplaced span)
    | .continueStatement, .word (.keyword _) _ _ :: label => .continues span <$> labelOf span label
    | .breakStatement, .word (.keyword _) _ _ :: label => .breaks span <$> labelOf span label
    | .returnStatement, [.word (.keyword _) _ _] => .ok (.returns span none)
    | .returnStatement, [.word (.keyword _) _ _, t] =>
      (fun e => .returns span (some e)) <$> expressionOf t
    | .throwStatement, [.word (.keyword _) _ _, t] => .throws span <$> expressionOf t
    | .switchStatement, .word (.keyword _) _ _ :: discriminant :: cases => do
      let discriminant ← expressionOf discriminant
      return .switch span discriminant (← casesOf cases)
    | .labelledStatement, [label, body] => do
      let label ← identifierOf label
      return .labeled span label (← statementOf body)
    | .tryStatement, [.word (.keyword _) _ _, .node .block blockSpan ts,
        .node .finallyClause _ [.word (.keyword _) _ _, .node .block finalSpan final]] => do
      let block ← statementsOf ts
      let final ← statementsOf final
      return .tryCatch span (.mk blockSpan block) none (some (.mk finalSpan final))
    | .tryStatement, [.word (.keyword _) _ _, .node .block blockSpan ts,
        .node .catchClause catchSpan
          [.word (.keyword _) _ _, parameter, .node .block bodySpan body]] => do
      let block ← statementsOf ts
      let parameter ← identifierOf parameter
      let body ← statementsOf body
      let handler := CatchClause.mk catchSpan parameter (.mk bodySpan body)
      return .tryCatch span (.mk blockSpan block) (some handler) none
    | .tryStatement, [.word (.keyword _) _ _, .node .block blockSpan ts,
        .node .catchClause catchSpan
          [.word (.keyword _) _ _, parameter, .node .block bodySpan body],
        .node .finallyClause _ [.word (.keyword _) _ _, .node .block finalSpan final]] => do
      let block ← statementsOf ts
      let parameter ← identifierOf parameter
      let body ← statementsOf body
      let handler := CatchClause.mk catchSpan parameter (.mk bodySpan body)
      let final ← statementsOf final
      return .tryCatch span (.mk blockSpan block) (some handler) (some (.mk finalSpan final))
    | .functionDeclaration,
        [.word (.keyword _) _ _, id, parameters, .node .functionBody bodySpan body] => do
      let id ← identifierOf id
      let parameters ← parametersOf parameters
      return .functionDeclaration (.mk span (some id) parameters bodySpan (← statementsOf body))
    | _, _ => .error (.atSpan .misplaced span)

/-- The statements of several tokens. -/
def statementsOf : List ScriptToken → Except SyntaxError (List Statement)
  | [] => .ok []
  | t :: rest => do
    let s ← statementOf t
    return s :: (← statementsOf rest)

/-- The cases of a switch. -/
def casesOf : List ScriptToken → Except SyntaxError (List SwitchCase)
  | [] => .ok []
  | .node .defaultClause span (.word (.keyword _) _ _ :: ts) :: rest => do
    let consequent ← statementsOf ts
    return .mk span none consequent :: (← casesOf rest)
  | .node .caseClause span (.word (.keyword _) _ _ :: test :: ts) :: rest => do
    let test ← expressionOf test
    let consequent ← statementsOf ts
    return .mk span (some test) consequent :: (← casesOf rest)
  | t :: _ => misplaced t

/-- The variables of a declaration. -/
def declaratorsOf : List ScriptToken → Except SyntaxError (List Declarator)
  | [] => .ok []
  | .node .variableDeclaration span [id] :: rest => do
    let id ← identifierOf id
    return .mk span id none :: (← declaratorsOf rest)
  | .node .variableDeclaration span [id, t] :: rest => do
    let id ← identifierOf id
    let value ← expressionOf t
    return .mk span id (some value) :: (← declaratorsOf rest)
  | t :: _ => misplaced t

/-- The parts of a `for` statement, in the order in which they are written. -/
def forPartsOf (parts : ForParts) : List ScriptToken → Except SyntaxError ForParts
  | [] => .ok parts
  | .node .forInit span
      [.word (.keyword _) _ _, .node .variableDeclarationList _ ts] :: rest => do
    let declarators ← declaratorsOf ts
    forPartsOf { parts with start := some (.varDeclaration span declarators) } rest
  | .node .forInit _ [t] :: rest => do
    let e ← expressionOf t
    forPartsOf { parts with start := some (.expression e) } rest
  | .node .forTest _ [t] :: rest => do
    let e ← expressionOf t
    forPartsOf { parts with test := some e } rest
  | .node .forUpdate _ [t] :: rest => do
    let e ← expressionOf t
    forPartsOf { parts with update := some e } rest
  | t :: rest => do
    let s ← statementOf t
    forPartsOf { parts with body := some s } rest

end

/-- The program of a script's token. -/
def programOf (file : String) : ScriptToken → Except SyntaxError Program
  | .node .script span children => do
    let body ← statementsOf (children.filter fun t => t.rule ≠ .endOfInput)
    return ⟨span, file, body⟩
  | t => misplaced t

end ScriptToken

namespace Program

/-- Reads a program from a source text. -/
def ofSource (file source : String) : Except SyntaxError Program :=
  match parseScript source with
  | .ok token => ScriptToken.programOf file token
  | .error p => .error ⟨.refused, p.line, p.column⟩

/-- The outline of the token tree of a source text. -/
def outlineOfSource (source : String) : Except SyntaxError (List String) :=
  match parseScript source with
  | .ok token => .ok (token.outline Rule.name source 0)
  | .error p => .error ⟨.refused, p.line, p.column⟩

end Program

end AbstractScript
