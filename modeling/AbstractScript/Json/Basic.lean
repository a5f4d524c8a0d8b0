/-!
# JSON documents

A document is a tree of values. Numbers keep the text they were written with, and the members of an
object keep their order, so that nothing a document says is lost.
-/
namespace AbstractScript

/-- A JSON value. -/
inductive Json where
  | null
  | bool (b : Bool)
  | number (literal : String)
  | string (s : String)
  | array (elements : List Json)
  | object (members : List (String × Json))
  deriving Repr, Inhabited

namespace Json

/-- The natural number `n`. -/
def nat (n : Nat) : Json := .number (Nat.repr n)

/-- The value of the first member with the given name. -/
def get? (name : String) : Json → Option Json
  | .object members => members.lookup name
  | _ => none

end Json

end AbstractScript
