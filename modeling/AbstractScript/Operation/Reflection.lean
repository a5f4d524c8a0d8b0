import AbstractScript.Operation.Property

/-!
# Property descriptions

Programs see a property as an object with a field for each part of its descriptor. Reading such an
object gives a definition, unless a part of it is unknown.
-/
namespace AbstractScript.Op

open Eval

variable [Natives]

/-- A function of a property, undefined if there is none. -/
def functionValue (f : Option ObjectId) : Value :=
  match f with
  | some f => .object f
  | none => .undefined

/-- Fills in the fields that only one kind of property has. -/
def describeContents (o : ObjectId) : Descriptor → Op Unit
  | .data v w _ _ => do
    let _ ← createData o "value" v
    let _ ← createData o "writable" (.bool w)
  | .accessor g s _ _ => do
    let _ ← createData o "get" (functionValue g)
    let _ ← createData o "set" (functionValue s)

/-- A property as an object. -/
def describe (d : Descriptor) : Op ObjectId := do
  let o ← createPlain
  describeContents o d
  let _ ← createData o "enumerable" (.bool d.isEnumerable)
  let _ ← createData o "configurable" (.bool d.isConfigurable)
  return o

/-- A property as an object, and no property as undefined. -/
def describe? : Option Descriptor → Op Value
  | some d => .object <$> describe d
  | none => return .undefined

/-- Reads a flag of a property description into a definition. -/
def readFlag (o : ObjectId) (name : String) (give : Bool → Definition → Definition)
    (d : Definition) : Op (Option Definition) := do
  if ← hasProperty o name then return (← get o name).toBool?.map (give · d) else return some d

/-- Reads the value of a property description into a definition. -/
def readValue (o : ObjectId) (d : Definition) : Op Definition := do
  if ← hasProperty o "value" then return d.withValue (← get o "value") else return d

/-- A value as the function of a property: the reason against it, or unknown as no answer. -/
def asAccessor? (label : String) (v : Value) : Op (Option (Option ObjectId)) := do
  match v with
  | .unknown => return none
  | .undefined => return some none
  | .object f =>
    if (← object f).isCallable then return some (some f) else notFunction
  | _ => notFunction
where
  /-- Fails, since the value cannot be called. -/
  notFunction : Op (Option (Option ObjectId)) :=
    typeError (label ++ " must be a function: " ++ v.display)

/-- Reads a function of a property description into a definition. -/
def readFunction (o : ObjectId) (name label : String)
    (give : Option ObjectId → Definition → Definition) (d : Definition) :
    Op (Option Definition) := do
  if ← hasProperty o name then
    return (← asAccessor? label (← get o name)).map (give · d)
  else return some d

/-- Reads the fields of a property description. -/
def readDescription (o : ObjectId) : Op (Option Definition) := do
  let some d ← readFlag o "enumerable" .withEnumerable .empty | return none
  let some d ← readFlag o "configurable" .withConfigurable d | return none
  let some d ← readFlag o "writable" .withWritable d | return none
  let d ← readValue o d
  let some d ← readFunction o "get" "Getter" .withGetter d | return none
  readFunction o "set" "Setter" .withSetter d

/-- The definition that a value describes, if all of it is known. -/
def toDefinition? (v : Value) : Op (Option Definition) := do
  match v with
  | .unknown => return none
  | .object o =>
    let some d ← readDescription o | return none
    if d.isAccessor && d.isData then
      typeError ("Invalid property descriptor. Cannot both specify accessors and a value or " ++
        "writable attribute")
    return some d
  | _ => typeError "Property description must be an object"

end AbstractScript.Op
