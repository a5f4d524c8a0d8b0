import AbstractScript.Json.Reader
import AbstractScript.Number.Dyadic
import AbstractScript.Text.Range

/-!
# Options of a run

How far loops and calls are followed. Options come from a JSON document or from `key=value` pairs;
both limits must be positive.
-/
namespace AbstractScript

/-- The options of a run. -/
structure Options where
  /-- Loops are iterated. Otherwise the body of every loop is visited once, ambiguously. -/
  evaluateLoops : Bool := true
  maxLoopIterations : Nat := 10000
  maxRecursionLimit : Nat := 500
  /-- Functions that were created but never called are called once the program has ended. -/
  processUnvisitedCode : Bool := false
  deriving DecidableEq, Repr, Inhabited

/-- Why options are refused. -/
inductive ConfigFault where
  /-- The document is no JSON, or names other fields, or gives values of other types. -/
  | malformed
  /-- A limit needs more than 32 bits. -/
  | outOfRange (limit : Nat)
  | noPair (text : String)
  | badValue (value key : String)
  | zeroLimit (name : String)
  | unreadable (file reason : String)
  deriving DecidableEq, Repr

namespace ConfigFault

/-- The wording of a fault, if it has one. -/
def message? : ConfigFault → Option String
  | malformed | outOfRange _ => none
  | noPair text => some ("expected key=value, got '" ++ text ++ "'")
  | badValue value key => some ("invalid value '" ++ value ++ "' for " ++ key)
  | zeroLimit name => some (name ++ " must be greater than 0")
  | unreadable file reason => some ("cannot read '" ++ file ++ "': " ++ reason)

/-- The wording of a fault on the command line, which words every fault. -/
def text (fault : ConfigFault) : String :=
  match fault with
  | malformed => "invalid configuration"
  | outOfRange n =>
    "invalid configuration: invalid value: integer `" ++ Nat.repr n ++ "`, expected u32"
  | fault => "invalid configuration" ++ (fault.message?.elim "" (": " ++ ·))

end ConfigFault

namespace Options

/-- The names of the fields, in order. -/
def fieldNames : List String :=
  ["evaluateLoops", "maxLoopIterations", "maxRecursionLimit", "processUnvisitedCode"]

/-- Refuses limits of zero. -/
def validate (o : Options) : Except ConfigFault Options :=
  if o.maxLoopIterations = 0 then .error (.zeroLimit "maxLoopIterations")
  else if o.maxRecursionLimit = 0 then .error (.zeroLimit "maxRecursionLimit")
  else .ok o

/-- Options are valid if both limits are positive. -/
theorem validate_eq_ok_iff {o p : Options} :
    o.validate = .ok p ↔ p = o ∧ 0 < o.maxLoopIterations ∧ 0 < o.maxRecursionLimit := by
  unfold validate
  split
  · simp_all
  split
  · simp_all
  · simp [eq_comm]
    omega

/-- A switch. -/
def readFlag : Json → Except ConfigFault Bool
  | .bool b => .ok b
  | _ => .error .malformed

/-- A limit: a 32-bit integer written with digits only. -/
def readLimit : Json → Except ConfigFault Nat
  | .number literal =>
    match Number.natOfDigits? literal.toList with
    | some n => if n ≤ Number.maxLength then .ok n else .error (.outOfRange n)
    | none => .error .malformed
  | _ => .error .malformed

/-- Sets the field of a given name. -/
def setField (o : Options) (name : String) (value : Json) : Except ConfigFault Options :=
  if name = "evaluateLoops" then
    (readFlag value).map fun b => { o with evaluateLoops := b }
  else if name = "maxLoopIterations" then
    (readLimit value).map fun n => { o with maxLoopIterations := n }
  else if name = "maxRecursionLimit" then
    (readLimit value).map fun n => { o with maxRecursionLimit := n }
  else if name = "processUnvisitedCode" then
    (readFlag value).map fun b => { o with processUnvisitedCode := b }
  else .error .malformed

/-- Sets several fields, the rest staying as they are. -/
def setFields (o : Options) (fields : List (String × Json)) : Except ConfigFault Options :=
  fields.foldlM (fun o (name, value) => o.setField name value) o

/-- The options that a JSON value describes: an object without repeated members, or an array of the
fields in order. What is missing keeps its default. -/
def ofJson : Json → Except ConfigFault Options
  | .object members =>
    if (members.map (·.1)).Nodup then setFields {} members >>= validate else .error .malformed
  | .array values =>
    if values.length ≤ fieldNames.length then setFields {} (fieldNames.zip values) >>= validate
    else .error .malformed
  | _ => .error .malformed

/-- The options that a JSON document describes. -/
def ofText (text : String) : Except ConfigFault Options :=
  match Json.read? text with
  | some v => ofJson v
  | none => .error .malformed

/-- The largest unsigned 64-bit integer. -/
def maxInteger : Nat := Number.twoTo 64 - 1

/-- The value of a pair: a truth value or an unsigned 64-bit integer. -/
def readValue? (s : String) : Option Json :=
  if s = "true" then some (.bool true)
  else if s = "false" then some (.bool false)
  else
    let digits := match s.toList with
      | '+' :: rest => rest
      | cs => cs
    match Number.natOfDigits? digits with
    | some n => if n ≤ maxInteger then some (.nat n) else none
    | none => none

/-- Splits `key=value` at the first equals sign. -/
def splitPair (pair : String) : Except ConfigFault (String × Json) :=
  let cs := pair.toList
  match cs.dropWhile (· ≠ '=') with
  | [] => .error (.noPair pair)
  | _ :: rest =>
    let key := String.ofList (cs.takeWhile (· ≠ '='))
    let value := Text.trim (String.ofList rest)
    match readValue? value with
    | some v => .ok (Text.trim key, v)
    | none => .error (.badValue value key)

/-- The last pair of each key. -/
def lastOfEach (fields : List (String × Json)) : List (String × Json) :=
  fields.foldl (fun kept field => kept.filter (·.1 ≠ field.1) ++ [field]) []

/-- The options that `key=value` pairs describe. A later pair replaces an earlier one of the same
key, and of several faulty fields the one whose key comes first is refused. -/
def ofPairs (pairs : List String) : Except ConfigFault Options := do
  let fields ← pairs.mapM splitPair
  setFields {} ((lastOfEach fields).mergeSort fun a b => a.1 ≤ b.1) >>= validate

end Options

end AbstractScript
