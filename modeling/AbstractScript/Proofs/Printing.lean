import AbstractScript.Syntax.OfTokens
import Mathlib.Data.List.Forall2

/-!
# Printed expressions

Phrases are expressions without places, built from names, integers, `this`, operators, calls and
member accesses. A phrase is printed as a list of tokens, with parentheses only where a part binds
weaker than its place asks for, and the tokens are written with blanks and comments between them.
`Denotes` says that a syntax tree is a phrase, whatever its spans are.
-/
namespace AbstractScript

open Grammar

/-! ## Phrases -/

/-- A character that a name can begin with. -/
def isNameStart (c : Char) : Bool := c.isAlpha || c = '$' || c = '_' || Text.isLetter c

/-- A character that a name can go on with. -/
def isNamePart (c : Char) : Bool :=
  isNameStart c || c.isDigit || Text.isNumber c || Text.isConnector c || c = '\u200c' ||
    c = '\u200d'

/-- What can be written after a point. -/
structure Word where
  first : Char
  others : List Char
  start : isNameStart first = true
  parts : ∀ c ∈ others, isNamePart c = true

/-- The text of a word. -/
def Word.text (w : Word) : String := String.ofList (w.first :: w.others)

/-- A word that is not reserved. -/
structure Name extends Word where
  free : toWord.text ∉ keywords ++ unusedWords

mutual

/-- An expression without places. -/
inductive Phrase where
  | reference (target : Target)
  | numeral (n : Nat)
  | this
  | unary (op : UnaryOperator) (operand : Phrase)
  | update (op : UpdateOperator) (leading : Bool) (target : Target)
  | binary (op : BinaryOperator) (left right : Phrase)
  | logical (op : LogicalOperator) (left right : Phrase)
  | conditional (test consequent alternate : Phrase)
  | assignment (op : AssignmentOperator) (known : op ∈ AssignmentOperator.all) (target : Target)
    (value : Phrase)
  | call (callee : Phrase) (arguments : List Phrase)
  | construct (callee : Phrase) (arguments : List Phrase)
  | sequence (first second : Phrase) (others : List Phrase)

/-- A name, or a member of an object. -/
inductive Target where
  | name (n : Name)
  | member (object : Phrase) (property : Word)
  | index (object property : Phrase)

end

/-! ## Levels of precedence

From the weakest: 0 sequences, 1 assignments and conditionals, 2 to 11 operators with two operands
(`||`, `&&`, `|`, `^`, `&`, equality, comparison, shifts, sums, products), 12 operators before their
operand, 13 operators after it, 14 calls and members of calls, 15 other members, 16 what holds
together by itself. -/

/-- The level of a binary operator. -/
def BinaryOperator.level : BinaryOperator → Nat
  | .bitwiseOr => 4
  | .bitwiseXor => 5
  | .bitwiseAnd => 6
  | .looselyEqual | .looselyUnequal | .strictlyEqual | .strictlyUnequal => 7
  | .lessThan | .lessThanEqual | .greaterThan | .greaterThanEqual | .contains | .instanceOf => 8
  | .leftShift | .rightShift | .unsignedRightShift => 9
  | .add | .subtract => 10
  | .multiply | .divide | .modulo => 11

/-- The level of a logical operator. -/
def LogicalOperator.level : LogicalOperator → Nat
  | .or => 2
  | .and => 3

mutual

/-- The level of a phrase. -/
def Phrase.level : Phrase → Nat
  | .reference target => target.level
  | .numeral _ | .this | .construct .. => 16
  | .unary .. => 12
  | .update _ leading _ => if leading then 12 else 13
  | .binary op .. => op.level
  | .logical op .. => op.level
  | .conditional .. | .assignment .. => 1
  | .call .. => 14
  | .sequence .. => 0

/-- The level of a name or a member. -/
def Target.level : Target → Nat
  | .name _ => 16
  | .member object _ | .index object _ => if object.level = 14 then 14 else 15

end

/-! ## Tokens -/

/-- The tokens of a phrase of level `level` where level `asked` is asked for. -/
def enclosed (asked level : Nat) (tokens : List String) : List String :=
  if level < asked then "(" :: tokens ++ [")"] else tokens

mutual

/-- The tokens of a phrase. -/
def Phrase.tokens : Phrase → List String
  | .reference target => target.tokens
  | .numeral n => [Nat.repr n]
  | .this => ["this"]
  | .unary op operand => op.symbol :: enclosed 12 operand.level operand.tokens
  | .update op leading target =>
    if leading then op.symbol :: target.tokens else target.tokens ++ [op.symbol]
  | .binary op left right =>
    enclosed op.level left.level left.tokens ++
      op.symbol :: enclosed (op.level + 1) right.level right.tokens
  | .logical op left right =>
    enclosed op.level left.level left.tokens ++
      op.symbol :: enclosed (op.level + 1) right.level right.tokens
  | .conditional test consequent alternate =>
    enclosed 2 test.level test.tokens ++
      "?" :: enclosed 1 consequent.level consequent.tokens ++
      ":" :: enclosed 1 alternate.level alternate.tokens
  | .assignment op _ target value =>
    target.tokens ++ op.symbol :: enclosed 1 value.level value.tokens
  | .call callee arguments =>
    enclosed 14 callee.level callee.tokens ++ "(" :: Phrase.listTokens arguments ++ [")"]
  | .construct callee arguments =>
    "new" :: enclosed 15 callee.level callee.tokens ++ "(" :: Phrase.listTokens arguments ++ [")"]
  | .sequence first second others =>
    enclosed 1 first.level first.tokens ++
      "," :: enclosed 1 second.level second.tokens ++ Phrase.furtherTokens others

/-- The tokens of a name or a member. -/
def Target.tokens : Target → List String
  | .name n => [n.text]
  | .member object property => enclosed 14 object.level object.tokens ++ [".", property.text]
  | .index object property =>
    enclosed 14 object.level object.tokens ++ "[" :: property.tokens ++ ["]"]

/-- The tokens of phrases with commas between them. -/
def Phrase.listTokens : List Phrase → List String
  | [] => []
  | e :: others => enclosed 1 e.level e.tokens ++ Phrase.furtherTokens others

/-- The tokens of phrases with a comma before each. -/
def Phrase.furtherTokens : List Phrase → List String
  | [] => []
  | e :: others => "," :: enclosed 1 e.level e.tokens ++ Phrase.furtherTokens others

end

/-- The tokens of a phrase where level `asked` is asked for. -/
def Phrase.print (asked : Nat) (e : Phrase) : List String := enclosed asked e.level e.tokens

example : (Phrase.binary .multiply (.binary .add (.numeral 1) (.numeral 2))
    (.unary .minus .this)).tokens = ["(", "1", "+", "2", ")", "*", "-", "this"] := rfl

/-! ## Text -/

/-- The characters that end a line. -/
def isLineEnd (c : Char) : Bool := c ∈ ['\n', '\r', '\u2028', '\u2029']

/-- The blank characters of a script. -/
def isBlankChar (c : Char) : Bool :=
  c ∈ [' ', '\t', '\x0b', '\x0c', '\u00a0', '\ufeff'] || isLineEnd c

/-- Blank characters and comments up to a blank character. -/
inductive Filling : List Char → Prop
  | last {c} (blank : isBlankChar c) : Filling [c]
  | blank {c cs} (blank : isBlankChar c) (further : Filling cs) : Filling (c :: cs)
  | block {body cs} (inside : ¬['*', '/'] <:+: body) (further : Filling cs) :
    Filling ('/' :: '*' :: (body ++ '*' :: '/' :: cs))
  | line {body c cs} (inside : ∀ x ∈ body, ¬isLineEnd x) (ended : isLineEnd c)
    (further : Filling (c :: cs)) : Filling ('/' :: '/' :: (body ++ c :: cs))

/-- What stands between two tokens: blank characters and comments that begin and end with a blank
character. -/
def IsGap (cs : List Char) : Prop := Filling cs ∧ ∀ c ∈ cs.head?, isBlankChar c

/-- A text of tokens with gaps between them. -/
inductive Spaced : List String → List Char → Prop
  | nil : Spaced [] []
  | last {t} : Spaced [t] t.toList
  | cons {t u tokens gap cs} (apart : IsGap gap) (further : Spaced (u :: tokens) cs) :
    Spaced (t :: u :: tokens) (t.toList ++ (gap ++ cs))

/-! ## Trees -/

mutual

/-- The syntax tree is the phrase, with some spans. -/
inductive Phrase.Denotes : Phrase → Expression → Prop
  | reference {target e} (is : Target.Denotes target e) : Phrase.Denotes (.reference target) e
  | numeral {n span} :
    Phrase.Denotes (.numeral n) (.literal span (.number (Number.ofDecimal n 0)))
  | this {span} : Phrase.Denotes .this (.this span)
  | unary {op operand span e} (is : Phrase.Denotes operand e) :
    Phrase.Denotes (.unary op operand) (.unary span op e)
  | update {op leading target span e} (is : Target.Denotes target e) :
    Phrase.Denotes (.update op leading target) (.update span op leading e)
  | binary {op left right span l r} (first : Phrase.Denotes left l)
    (second : Phrase.Denotes right r) :
    Phrase.Denotes (.binary op left right) (.binary span op l r)
  | logical {op left right span l r} (first : Phrase.Denotes left l)
    (second : Phrase.Denotes right r) :
    Phrase.Denotes (.logical op left right) (.logical span op l r)
  | conditional {test consequent alternate span t c a} (first : Phrase.Denotes test t)
    (second : Phrase.Denotes consequent c) (third : Phrase.Denotes alternate a) :
    Phrase.Denotes (.conditional test consequent alternate) (.conditional span t c a)
  | assignment {op known target value span l r} (first : Target.Denotes target l)
    (second : Phrase.Denotes value r) :
    Phrase.Denotes (.assignment op known target value) (.assignment span op l r)
  | call {callee arguments span f es} (first : Phrase.Denotes callee f)
    (others : List.Forall₂ Phrase.Denotes arguments es) :
    Phrase.Denotes (.call callee arguments) (.call span f es)
  | construct {callee arguments span f es} (first : Phrase.Denotes callee f)
    (others : List.Forall₂ Phrase.Denotes arguments es) :
    Phrase.Denotes (.construct callee arguments) (.construct span f es)
  | sequence {first second others span es}
    (parts : List.Forall₂ Phrase.Denotes (first :: second :: others) es) :
    Phrase.Denotes (.sequence first second others) (.sequence span es)

/-- The syntax tree is the name or the member, with some spans. -/
inductive Target.Denotes : Target → Expression → Prop
  | name {n span} : Target.Denotes (.name n) (.identifier ⟨span, n.text⟩)
  | member {object property span place e} (is : Phrase.Denotes object e) :
    Target.Denotes (.member object property) (.member span e ⟨place, property.text⟩)
  | index {object property span e i} (first : Phrase.Denotes object e)
    (second : Phrase.Denotes property i) :
    Target.Denotes (.index object property) (.index span e i)

end

end AbstractScript
