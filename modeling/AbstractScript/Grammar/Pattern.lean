import AbstractScript.Number.Read
import AbstractScript.Text.Category

/-!
# Parsing expressions

A grammar assigns a pattern to each rule name. Choice is ordered and repetition is greedy, so a
pattern matches a text in at most one way.
-/
namespace AbstractScript.Grammar

/-- A class of characters. -/
inductive CharClass where
  | any
  | asciiLetter
  | digit
  | nonzeroDigit
  | hexDigit
  | letter
  | number
  | connector
  deriving DecidableEq, Repr

namespace CharClass

/-- True if `c` belongs to the class. -/
def holds : CharClass → Char → Bool
  | any, _ => true
  | asciiLetter, c => c.isAlpha
  | digit, c => c.isDigit
  | nonzeroDigit, c => c.isDigit && c ≠ '0'
  | hexDigit, c => (Number.hexDigit? c).isSome
  | letter, c => Text.isLetter c
  | number, c => Text.isNumber c
  | connector, c => Text.isConnector c

end CharClass

/-- A parsing expression over rule names `R`. -/
inductive Pattern (R : Type) where
  /-- A fixed text. -/
  | text (cs : List Char)
  /-- One character of a class. -/
  | char (c : CharClass)
  /-- The end of the input. -/
  | stop
  /-- What the rule `r` matches. -/
  | rule (r : R)
  /-- One pattern and then another. -/
  | seq (a b : Pattern R)
  /-- The first of two patterns that matches. -/
  | alt (a b : Pattern R)
  /-- As many matches of a pattern as there are. -/
  | many (a : Pattern R)
  /-- A match of a pattern if there is one. -/
  | opt (a : Pattern R)
  /-- Nothing, where the pattern does not match. -/
  | unless (a : Pattern R)
  deriving Repr

namespace Pattern

variable {R : Type}

/-- A fixed text. -/
def lit (s : String) : Pattern R := .text s.toList

/-- Patterns one after another. -/
def all : List (Pattern R) → Pattern R
  | [] => .text []
  | a :: rest => rest.foldl .seq a

/-- The first pattern that matches. -/
def oneOf : List (Pattern R) → Pattern R
  | [] => .unless (.text [])
  | [a] => a
  | a :: rest => .alt a (oneOf rest)

/-- One of several fixed texts. -/
def oneOfTexts (texts : List String) : Pattern R := oneOf (texts.map lit)

/-- At least one match, and then as many as there are. -/
def some (a : Pattern R) : Pattern R := .seq a (.many a)

/-- A pattern and then the end of a word: `a` not followed by `b`. -/
def notBefore (a b : Pattern R) : Pattern R := .seq a (.unless b)

/-- One or more matches with separators between them. -/
def separated (separator a : Pattern R) : Pattern R := .seq a (.many (.seq separator a))

end Pattern

/-- How a rule is matched: between the parts of an ordinary rule blanks are skipped and the rules
used inside give tokens of their own; a word is matched as it stands and gives one token. -/
inductive Manner where
  | ordinary
  | word
  deriving DecidableEq, Repr

/-- A pattern for each rule, and what is skipped between the parts of ordinary rules. -/
structure RuleSet (R : Type) where
  manner : R → Manner
  body : R → Pattern R
  blank : Pattern R

end AbstractScript.Grammar
