import AbstractScript.Analysis.Run

/-!
# The command line

A command names one file, options of the run and globals with unknown values. It prints the report
of the run. The exit code is 0 if the program ends normally, 1 if it does not, and 2 if there is no
report.
-/
namespace AbstractScript

/-- A command. -/
structure Command where
  /-- Options as `key=value` pairs. -/
  pairs : List String := []
  unknownGlobals : List String := []
  file : String
  deriving DecidableEq, Repr

/-- What a command prints, and its exit code. -/
structure Response where
  exitCode : Nat
  output : String := ""
  errors : String := ""
  deriving DecidableEq, Repr

namespace Command

/-- The arguments of a command, after the pairs, the globals and the file that were read so far, the
last one first. -/
def parseFrom (pairs unknownGlobals : List String) (file : Option String) :
    List String → Option Command
  | [] => file.map fun file => ⟨pairs.reverse, unknownGlobals.reverse, file⟩
  | "-h" :: _ | "--help" :: _ => none
  | "-v" :: rest | "--verbose" :: rest => parseFrom pairs unknownGlobals file rest
  | "-c" :: pair :: rest | "--config" :: pair :: rest =>
    parseFrom (pair :: pairs) unknownGlobals file rest
  | "-u" :: name :: rest | "--unknown-global" :: name :: rest =>
    parseFrom pairs (name :: unknownGlobals) file rest
  | argument :: rest =>
    if file.isNone && !argument.startsWith "-" then
      parseFrom pairs unknownGlobals (some argument) rest
    else none

/-- The command that some arguments are. -/
def parse? (arguments : List String) : Option Command := parseFrom [] [] none arguments

/-- How a command is used. -/
def usage : String :=
  "codeprocessor - static processing of ECMAScript 5 programs\n" ++
  "\n" ++
  "Usage:\n" ++
  "  codeprocessor [options] <file.js>\n" ++
  "\n" ++
  "Options:\n" ++
  "  -c, --config key=value       Set a runtime option, e.g. maxLoopIterations=100\n" ++
  "  -u, --unknown-global name    Bind a global to an unknown value\n" ++
  "  -v, --verbose                Log rule processing (overridden by RUST_LOG)\n"

/-- The response to arguments that are no command. -/
def misuse : Response := { exitCode := 2, errors := usage }

/-- The response to a command without a report. -/
def failure (e : FatalError) : Response := { exitCode := 2, errors := e.text ++ "\n" }

/-- The lines of a document, each ended. -/
def document (v : Json) : String := "\n".intercalate v.lines ++ "\n"

/-- The response to a program. -/
def respondTo (c : Command) (options : Options) (runId source : String) : Response :=
  let analyzer : Analyzer := { options, unknownGlobals := c.unknownGlobals }
  match analyzer.analyzeSource c.file source with
  | .error e => failure (.syntactic e)
  | .ok analysis =>
    match analysis.result with
    | .error e => failure e
    | .ok completion =>
      { exitCode := if completion.isNormal then 0 else 1
        output := document (analysis.machine.report runId completion) }

/-- The response to a command, given the contents of its file or the reason why it cannot be read.
Wrong options are noticed first. -/
def respond (c : Command) (runId : String) (source : Except String String) : Response :=
  match Options.ofPairs c.pairs with
  | .error fault => failure (.config fault)
  | .ok options =>
    match source with
    | .error reason => failure (.config (.unreadable c.file reason))
    | .ok source => c.respondTo options runId source

end Command

end AbstractScript
