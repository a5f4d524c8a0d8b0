import AbstractScript.Builtin.Catalogue
import AbstractScript.Evaluation.Program
import AbstractScript.Json.Printer
import AbstractScript.Number.Dyadic
import AbstractScript.Syntax.OfTokens

/-!
# Analyses

An analyzer holds what a run is given besides the program: options, built-in objects, rules and the
names of globals whose values come from outside. Each analysis starts in a new realm; it gives the
completion of the program, or the fatal error that ended it, and the machine at its end.
-/
namespace AbstractScript

open Eval

namespace Machine

/-- The machine in which a program begins, in the global context of a realm. -/
def start (realm : Realm) : Machine :=
  { realm := { realm with ambiguityLevel := 0 }
    contexts := ⟨[.enter none Realm.globalEnv (.object Realm.globalObject)]⟩
    synced := rfl : Machine }.tick

end Machine

namespace Eval

/-- Binds a global to an unknown value. -/
def defineUnknown (name : String) : Run Unit := do
  match ← (Op.createData Realm.globalObject name .unknown).attempt with
  | .ok _ => return
  | .error e => reportError e

/-- The number of functions that are visited at most after a program. -/
def visitLimit : Nat := Number.twoTo 62

/-- Evaluates a program and reports what may have gone wrong. -/
def analyze (unknownGlobals : List String) (p : Program) : Run Completion := do
  watch
  unknownGlobals.forM defineUnknown
  let c ← p.evaluate
  if ← setup (·.options.processUnvisitedCode) then visitFunctions visitLimit 0
  reportPossibleThrows
  return c

end Eval

/-- What a run is given besides the program. -/
structure Analyzer where
  options : Options := {}
  catalogue : Catalogue := .core
  rules : Rules := .core
  /-- The globals that are bound to unknown values. -/
  unknownGlobals : List String := []
  /-- Events are recorded. -/
  observed : Bool := false

/-- The end of a run. -/
structure Analysis where
  result : Except FatalError Completion
  machine : Machine

namespace Analysis

/-- The value of a global property at the end of a run. That of an accessor is unknown. -/
def global? (a : Analysis) (name : String) : Option Value :=
  ((a.machine.realm.object Realm.globalObject).own? name).map fun
    | .data v .. => v
    | .accessor .. => .unknown

end Analysis

namespace Analyzer

/-- An analyzer whose options are valid. -/
def create (options : Options) : Except FatalError Analyzer :=
  match options.validate with
  | .ok options => .ok { options }
  | .error fault => .error (.config fault)

/-- Binds a further global to an unknown value. -/
def defineUnknownGlobal (a : Analyzer) (name : String) : Analyzer :=
  { a with unknownGlobals := a.unknownGlobals ++ [name] }

/-- The realm in which every run begins. -/
def realm (a : Analyzer) : Realm := .withObjects a.catalogue

/-- Analyzes a program. -/
def analyze (a : Analyzer) (p : Program) : Analysis :=
  let setup : Setup :=
    { options := a.options, rules := a.rules, file := p.file, observed := a.observed }
  match Eval.analyze a.unknownGlobals p setup (.start a.realm) with
  | .ok c machine => ⟨.ok c, machine⟩
  | .error e machine => ⟨.error e, machine⟩

/-- Analyzes the program that a source text holds. -/
def analyzeSource (a : Analyzer) (file source : String) : Except SyntaxError Analysis :=
  (Program.ofSource file source).map a.analyze

end Analyzer

/-! ## Reports as documents

The JSON document that tells how a run ended, under the number of the run.
-/

namespace Json

/-- A value that may be missing. -/
def ofOption {α : Type} (f : α → Json) : Option α → Json
  | some a => f a
  | none => null

end Json

/-- A completion in a document. -/
def Completion.toJson (c : Completion) : Json :=
  .object
    [("completion_type", .string c.kind.name), ("value", .ofOption Value.toJson c.value),
      ("target", .ofOption .string c.target)]

/-- A place in a document. -/
def Location.toJson (l : Location) : Json :=
  .object [("file", .string l.file), ("line", .nat l.line), ("column", .nat l.column)]

/-- A diagnostic in a document. -/
def Diagnostic.toJson (d : Diagnostic) : Json :=
  .object
    [("kind", d.kind.toJson), ("message", .string d.message),
      ("location", .ofOption Location.toJson d.location),
      ("stack_trace", .array (d.stack.map fun f => .string f.text))]

/-- The report of a run that ended with a completion. -/
def Machine.report (m : Machine) (runId : String) (c : Completion) : Json :=
  .object
    [("runId", .string runId), ("completion", c.toJson),
      ("diagnostics", .array (m.diagnostics.toList.map Diagnostic.toJson)),
      ("unknownConditions", .array (m.unknownConditions.toList.map Location.toJson)),
      ("ambiguousBlocks", .array (m.ambiguousBlocks.toList.map Location.toJson))]

end AbstractScript
