import AbstractScript.Syntax.Span
import AbstractScript.Text.Printable

/-!
# Token trees

What a grammar finds in a text: words, and nodes made of words and nodes. Blanks and punctuation
leave no tokens.
-/
namespace AbstractScript.Grammar

/-- A token tree over rule names `R`. -/
inductive Token (R : Type) where
  | word (rule : R) (span : Span) (text : String)
  | node (rule : R) (span : Span) (children : List (Token R))
  deriving Repr

namespace Token

variable {R : Type}

/-- The rule that matched. -/
def rule : Token R → R
  | word r .. => r
  | node r .. => r

/-- Where the rule matched. -/
def span : Token R → Span
  | word _ s _ => s
  | node _ s _ => s

/-- The bytes of `source` from one offset to another. -/
def slice (source : String) (start stop : Nat) : String :=
  String.Pos.Raw.extract source ⟨start⟩ ⟨stop⟩

/-- One line of an outline: a rule, the offsets it matched between and the text there. -/
def outlineLine (name : R → String) (source : String) (level : Nat) (r : R) (s : Span) : String :=
  String.ofList (List.replicate (2 * level) ' ') ++ name r ++ " => (" ++ Nat.repr s.start ++ "," ++
    Nat.repr s.stop ++ ") #" ++ Text.quote (slice source s.start s.stop)

mutual

/-- The outline of a tree, a line for each token, children below their parent. -/
def outline (name : R → String) (source : String) (level : Nat) : Token R → List String
  | word r s _ => [outlineLine name source level r s]
  | node r s children =>
    outlineLine name source level r s :: outlines name source (level + 1) children

/-- The outlines of several trees. -/
def outlines (name : R → String) (source : String) (level : Nat) : List (Token R) → List String
  | [] => []
  | t :: rest => outline name source level t ++ outlines name source level rest

end

end Token

end AbstractScript.Grammar
