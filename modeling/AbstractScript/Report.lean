import AbstractScript.Completion
import AbstractScript.Errors
import AbstractScript.NodeKind

/-!
# Reports

What a run tells about itself: diagnostics, and the events that a subscriber sees. Both carry the
stack of rules that are being evaluated, the innermost first.
-/
namespace AbstractScript

/-- A rule that is being evaluated. -/
structure Frame where
  kind : NodeKind
  location : Location
  deriving DecidableEq, Repr

/-- The text of a frame. -/
def Frame.text (f : Frame) : String := f.kind.name ++ " (" ++ f.location.text ++ ")"

/-- What a diagnostic is about. -/
inductive DiagnosticKind where
  | native (kind : ErrorKind)
  | maxIterations
  | maxRecursion
  | uncaught
  /-- A throw in an ambiguous block that no `try` handles. -/
  | possiblyUncaught
  deriving DecidableEq, Repr

namespace DiagnosticKind

/-- The name of a kind. -/
def name : DiagnosticKind → String
  | native kind => "NativeException(" ++ kind.name ++ ")"
  | maxIterations => "MaxIterationsExceeded"
  | maxRecursion => "MaxRecursionLimitReached"
  | uncaught => "UncaughtException"
  | possiblyUncaught => "PossiblyUncaughtException"

/-- A kind in a report. -/
def toJson : DiagnosticKind → Json
  | native kind => .object [("NativeException", .string kind.name)]
  | kind => .string kind.name

end DiagnosticKind

/-- Something to know about a run, with the place where it came up. -/
structure Diagnostic where
  kind : DiagnosticKind
  message : String
  location : Option Location
  stack : List Frame
  deriving DecidableEq, Repr

/-- What a subscriber sees. -/
inductive Event where
  /-- A rule begins, at an ambiguous depth. -/
  | enter (kind : NodeKind) (location : Location) (depth : Nat)
  /-- A rule ends. -/
  | leave (kind : NodeKind) (location : Location) (depth : Nat) (completion : Completion)
  | diagnostic (d : Diagnostic)
  deriving DecidableEq, Repr

/-- An abrupt completion in an ambiguous block. It may or may not have happened, so that it does
not redirect evaluation; it waits for the statement that it is aimed at. -/
structure PossibleExit where
  completion : Completion
  location : Option Location
  stack : List Frame
  deriving DecidableEq, Repr

/-- What happens to the possible exits of a run. -/
inductive LedgerEntry where
  /-- A completion is recorded while the rules of a stack are being evaluated. -/
  | recorded (c : Completion) (stack : List Frame)
  /-- A possible exit is claimed. -/
  | removed (e : PossibleExit)
  /-- The block of a `try` with a handler has ended. The last entries, as many as are given, are from
  its evaluation. -/
  | handled (length : Nat)
  deriving DecidableEq, Repr

end AbstractScript
