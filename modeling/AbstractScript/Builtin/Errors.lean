import AbstractScript.Builtin.Receiver

/-!
# Functions on errors and functions

Error objects hold a message if they were given one, and inherit a name. Functions show their name
only: code made from text at run time is unknown.
-/
namespace AbstractScript.Builtin

open Eval

/-- An unknown function. -/
def dynamicFunction : Behaviour := fun _ _ => return .unknown

/-- The text of a function. -/
def functionText (f : Callable) : String :=
  let body := if f.isScript then " ... " else " [native code] "
  "function " ++ f.name ++ "() \x7b" ++ body ++ "\x7d"

/-- The text of the receiver, which has to be a function. -/
def functionToString : Behaviour := fun this _ => do
  match this with
  | .unknown => return .unknown
  | .object o =>
    match (← object o).callable with
    | some f => return .string (functionText f)
    | none => notFunction
  | _ => notFunction
where
  /-- Fails, since the receiver cannot be called. -/
  notFunction : Op Value := Op.typeError "Value is not a function"

variable [Natives]

/-- An error object with a given prototype. It has a message if one is passed. -/
def createError (prototype : Intrinsic) : Behaviour := fun _ arguments => do
  let o ← createObject .error (some prototype.id)
  match argument arguments 0 with
  | .undefined => return .object o
  | message =>
    let text ← Op.toText? message
    let _ ← Op.define o "message" ((Definition.plain (.ofString? text)).withEnumerable false) true
    return .object o

/-- The text of a property, or a default if it is undefined. -/
def textOr? (o : ObjectId) (name default : String) : Op (Option String) := do
  match ← Op.get o name with
  | .undefined => return some default
  | v => Op.toText? v

/-- A name and a message in one text, without the one that is empty. -/
def errorText (name message : String) : String :=
  if message.isEmpty then name
  else if name.isEmpty then message
  else name ++ ": " ++ message

/-- The name and the message of the receiver. -/
def errorToString : Behaviour := fun this _ => do
  match this with
  | .unknown => return .unknown
  | .object o =>
    let name ← textOr? o "name" "Error"
    let message ← textOr? o "message" ""
    match name, message with
    | some name, some message => return .string (errorText name message)
    | _, _ => return .unknown
  | _ => Op.typeError "Error.prototype.toString called on non-object"

end AbstractScript.Builtin
