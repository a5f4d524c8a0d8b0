import AbstractScript.NodeKind
import AbstractScript.Options
import AbstractScript.Syntax.SyntaxError

/-!
# Errors

Errors that built-in operations raise: they are reported, and the operation's result is unknown. And
errors that end a run without a result.
-/
namespace AbstractScript

/-! ## Native errors -/

/-- The kind of a native error. -/
inductive ErrorKind where
  | reference
  | type
  | range
  | syntactic
  deriving DecidableEq, Repr, Inhabited

namespace ErrorKind

/-- Every kind. -/
def all : List ErrorKind := [reference, type, range, syntactic]

/-- The name of the kind. -/
def name : ErrorKind → String
  | reference => "ReferenceError"
  | type => "TypeError"
  | range => "RangeError"
  | syntactic => "SyntaxError"

/-- The kind of a given name. -/
def ofName? (s : String) : Option ErrorKind := all.find? (·.name = s)

end ErrorKind

/-- An error with its wording. -/
structure NativeError where
  kind : ErrorKind
  message : String
  deriving DecidableEq, Repr, Inhabited

namespace NativeError

/-- A value of the wrong type. -/
def typeError (message : String) : NativeError := ⟨.type, message⟩

/-- A number out of range. -/
def rangeError (message : String) : NativeError := ⟨.range, message⟩

/-- A name without a binding. -/
def notDefined (name : String) : NativeError := ⟨.reference, name ++ " is not defined"⟩

end NativeError

/-! ## Fatal errors -/

/-- Why a run has no result. -/
inductive FatalError where
  | duplicateRule (kind : NodeKind)
  | missingRule (kind : NodeKind)
  /-- A rule was given a node of another kind than its own. -/
  | malformedNode (kind : NodeKind) (line column : Nat)
  | config (fault : ConfigFault)
  | syntactic (error : SyntaxError)
  deriving DecidableEq, Repr

namespace FatalError

/-- The wording of a fatal error. -/
def text : FatalError → String
  | duplicateRule kind => "a rule is already registered for " ++ kind.name
  | missingRule kind => "no rule registered for " ++ kind.name
  | malformedNode kind line column =>
    "malformed " ++ kind.name ++ " node at " ++ Nat.repr line ++ ":" ++ Nat.repr column
  | config fault => fault.text
  | syntactic e => "parse error: " ++ e.text

end FatalError

end AbstractScript
