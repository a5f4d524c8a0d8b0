import AbstractScript.Analysis.CommandLine

/-!
# The program

Reads the file that the arguments name and prints the response.
-/
namespace AbstractScript

/-- The reason why a file cannot be read. -/
def unreadableReason : IO.Error → String
  | .noFileOrDirectory .. => "No such file or directory (os error 2)"
  | .permissionDenied .. => "Permission denied (os error 13)"
  | .inappropriateType .. => "Is a directory (os error 21)"
  | e => e.toString

/-- The text of a file. -/
def readSource (file : String) : IO (Except String String) := do
  try
    let bytes ← IO.FS.readBinFile file
    match String.fromUTF8? bytes with
    | some text => return .ok text
    | none => return .error "stream did not contain valid UTF-8"
  catch e => return .error (unreadableReason e)

/-- A run of hexadecimal digits. -/
def randomDigits : Nat → IO String
  | 0 => return ""
  | n + 1 => do
    let digit := Json.hexDigit (← IO.rand 0 15)
    return (← randomDigits n).push digit

/-- The number of a run. -/
def randomRunId : IO String := do
  let variant := Json.hexDigit (8 + (← IO.rand 0 3))
  return "-".intercalate
    [← randomDigits 8, ← randomDigits 4, "4" ++ (← randomDigits 3),
      String.singleton variant ++ (← randomDigits 3), ← randomDigits 12]

/-- Prints a response and gives the exit code. -/
def Response.print (r : Response) : IO UInt32 := do
  (← IO.getStdout).putStr r.output
  (← IO.getStderr).putStr r.errors
  return r.exitCode.toUInt32

end AbstractScript

open AbstractScript

/-- Responds to the command that the arguments are. -/
def main (arguments : List String) : IO UInt32 := do
  match Command.parse? arguments with
  | none => Command.misuse.print
  | some c =>
    let source ← readSource c.file
    (c.respond (← randomRunId) source).print
