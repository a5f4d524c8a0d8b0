import AbstractScript.Builtin.Receiver

/-!
# Functions on arrays

The constructor `Array` and methods that work on any object with a length. An unknown length makes
the result unknown; so does a length beyond the limit for loops.
-/
namespace AbstractScript.Builtin

open Eval

/-- True for an array. -/
def isArray : Behaviour := fun _ arguments => do
  match argument arguments 0 with
  | .object o => return .bool ((← object o).cls = .array)
  | .unknown => return .unknown
  | _ => return .bool false

variable [Natives]

/-- Assigns a length. -/
def putLength (o : ObjectId) (n : Nat) : Op Unit := Op.put o "length" (.nat n) true

/-- An array without elements of a given length. -/
def arrayOfLength (x : Float) : Op Value := do
  if Number.ofUInt32 (Number.toUInt32 x) != x then Op.rangeError "Invalid array length"
  let o ← createArray []
  Op.put o "length" (.number x) true
  return .object o

/-- An array of the arguments; a single number is a length. -/
def arrayOf : Behaviour := fun _ arguments =>
  match arguments with
  | [.number x] => arrayOfLength x
  | [.unknown] => return .unknown
  | elements => .object <$> createArray elements

/-- The receiver as an object, with its length. -/
def withLength? (this : Value) : Op (Option (ObjectId × Nat)) := do
  let some o ← Op.toObject? this | return none
  let length ← Op.toNumber? (← Op.get o "length")
  return length.map fun x => (o, (Number.toUInt32 x).toNat)

/-- Assigns values to the indices from one on. -/
def putElements (o : ObjectId) : Nat → List Value → Op Unit
  | _, [] => return
  | index, v :: rest => do
    Op.put o (Nat.repr index) v true
    putElements o (index + 1) rest

/-- Adds elements at the end. -/
def push : Behaviour := fun this arguments => do
  let some (o, length) ← withLength? this | return .unknown
  putElements o length arguments
  putLength o (length + arguments.length)
  return .nat (length + arguments.length)

/-- Removes the last element. -/
def pop : Behaviour := fun this _ => do
  let some (o, length) ← withLength? this | return .unknown
  match length with
  | 0 =>
    putLength o 0
    return .undefined
  | last + 1 =>
    let element ← Op.get o (Nat.repr last)
    let _ ← Op.delete o (Nat.repr last) true
    putLength o last
    return element

/-- The text of an element in a joined array. -/
def elementText? (v : Value) : Op (Option String) :=
  if v.isNullish then return some "" else Op.toText? v

/-- The texts of the elements at some indices, after the texts read so far, the last one first. -/
def elementTexts? (o : ObjectId) : List Nat → List String → Op (Option (List String))
  | [], read => return some read.reverse
  | index :: rest, read => do
    match ← elementText? (← Op.get o (Nat.repr index)) with
    | some s => elementTexts? o rest (s :: read)
    | none => return none

/-- The text between the elements of a joined array. -/
def separator? (v : Value) : Op (Option String) :=
  match v with
  | .undefined => return some ","
  | v => Op.toText? v

/-- The texts of all elements with a separator between them. -/
def join : Behaviour := fun this arguments => do
  let some (o, length) ← withLength? this | return .unknown
  let some separator ← separator? (argument arguments 0) | return .unknown
  if !(← withinLimit length) then return .unknown
  let some texts ← elementTexts? o (List.range length) [] | return .unknown
  return .string (separator.intercalate texts)

/-- The texts of all elements with commas between them. -/
def arrayToString : Behaviour := fun this _ => join this []

end AbstractScript.Builtin
