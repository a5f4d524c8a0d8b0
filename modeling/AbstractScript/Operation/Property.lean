import AbstractScript.Operation.Conversion

/-!
# Properties

Reading, writing, defining and deleting properties. A write that may or may not happen stores an
unknown value. Arrays keep their length above all indices.
-/
namespace AbstractScript.Op

open Eval

/-! ## Defining -/

/-- Defines a property of an ordinary object. The answer tells whether the object admits it. -/
def defineOrdinary (o : ObjectId) (name : String) (d : Definition) (strict : Bool) : Op Bool := do
  match (← object o).accept name d with
  | .ok descriptor =>
    modifyObject o (·.store name descriptor)
    return true
  | .error rejection => if strict then throw (rejection.error name) else return false

/-- Answers that a definition is rejected. -/
def reject (strict : Bool) (name : String) : Op Bool :=
  if strict then typeError ("Cannot define property: " ++ name) else return false

/-- The length of an array and whether it is writable, if the length is known. -/
def arrayLength? (r : ObjectRecord) : Option (Nat × Bool) :=
  match r.own? "length" with
  | some (.data (.number x) w _ _) => some (Number.clampLength x, w)
  | _ => none

/-- The length of an array as a property. -/
def lengthDescriptor (n : Nat) (writable : Bool) : Descriptor := .data (.nat n) writable false false

/-- Stores the length of an array. -/
def setLength (o : ObjectId) (n : Nat) (writable : Bool) : Op Unit :=
  modifyObject o (·.store "length" (lengthDescriptor n writable))

/-- Defines an element of an array. An index beyond the length makes the array longer. -/
def defineElement (o : ObjectId) (index : Nat) (name : String) (d : Definition) (strict : Bool) :
    Op Bool := do
  match arrayLength? (← object o) with
  | none => defineOrdinary o name d strict
  | some (length, writable) =>
    if length ≤ index && !writable then reject strict name
    else if ← defineOrdinary o name d false then
      if length ≤ index then setLength o (index + 1) true
      return true
    else reject strict name

/-- Removes elements from the last one on, until one cannot be removed: its index. -/
def removeElements (o : ObjectId) : List Nat → Op (Option Nat)
  | [] => return none
  | index :: rest => do
    let name := Nat.repr index
    if (← object o).canDelete name then
      modifyObject o (·.remove name)
      removeElements o rest
    else return some index

/-- The indices of an array at or above a length, the greatest first. -/
def indicesFrom (r : ObjectRecord) (length : Nat) : List Nat :=
  ((r.keys.filterMap Number.arrayIndex?).filter (length ≤ ·)).mergeSort (· ≥ ·)

/-- Makes an array shorter. Elements that cannot be removed keep it from getting any shorter; the
length becomes read-only, if that is asked for, in either case. -/
def truncate (o : ObjectId) (length : Nat) (d : Definition) (strict : Bool) : Op Bool := do
  let staysWritable := !d.hasWritable || d.descriptor.isWritable
  let definition := if staysWritable then d else d.withWritable true
  if !(← defineOrdinary o "length" definition strict) then return false
  match ← removeElements o (indicesFrom (← object o) length) with
  | some index =>
    setLength o (index + 1) staysWritable
    reject strict "length"
  | none =>
    if !staysWritable then
      let _ ← defineOrdinary o "length" (Definition.empty.withWritable false) false
    return true

section

variable [Natives]

/-- Defines the length of an array. -/
def defineLength (o : ObjectId) (d : Definition) (strict : Bool) : Op Bool := do
  match d.value? with
  | none => defineOrdinary o "length" d strict
  | some v =>
    match ← toNumber? v with
    | none => defineOrdinary o "length" (d.withValue .unknown) strict
    | some x =>
      let length := (Number.toUInt32 x).toNat
      if Float.ofNat length != x then rangeError "Invalid array length"
      let d := d.withValue (.nat length)
      match arrayLength? (← object o) with
      | none => defineOrdinary o "length" d strict
      | some (old, writable) =>
        if old ≤ length then defineOrdinary o "length" d strict
        else if !writable then reject strict "length"
        else truncate o length d strict

/-- Defines a property. -/
def define (o : ObjectId) (name : String) (d : Definition) (strict : Bool) : Op Bool := do
  if (← object o).cls ≠ .array then defineOrdinary o name d strict
  else if name = "length" then defineLength o d strict
  else match Number.arrayIndex? name with
    | some index => defineElement o index name d strict
    | none => defineOrdinary o name d strict

/-- Defines a property as plain assignment creates it. -/
def createData (o : ObjectId) (name : String) (v : Value) : Op Bool :=
  define o name (.plain v) false

/-! ## Reading -/

/-- Runs a getter or setter. Functions of the program are not run and give an unknown value. -/
def callAccessor (f : ObjectId) (this : Value) (arguments : List Value) : Op Value := do
  match (← object f).callable with
  | some (.native _ (some native) _) => Natives.call native this arguments
  | _ => return .unknown

/-- Reads a property of an object on behalf of a receiver. -/
def getFor (o : ObjectId) (this : Value) (name : String) : Op Value := do
  match ← property? o name with
  | none => return .undefined
  | some (.data v ..) => return v
  | some (.accessor none ..) => return .undefined
  | some (.accessor (some f) ..) => callAccessor f this []

/-- Reads a property of an object. -/
def get (o : ObjectId) (name : String) : Op Value := getFor o (.object o) name

/-- The length or a code unit of a string, read without a wrapper. -/
def stringProperty? (s name : String) : Option Value :=
  if name = "length" then some (.nat (Text.unitCount s))
  else match Number.arrayIndex? name with
    | some index => (Text.units s)[index]?.map fun u => .string (Text.ofUnit u)
    | none => none

/-- Reads a property of a value. -/
def getOf (v : Value) (name : String) : Op Value :=
  match v with
  | .unknown => return .unknown
  | .object o => get o name
  | .string s =>
    match stringProperty? s name with
    | some unit => return unit
    | none => getFor Intrinsic.stringPrototype.id v name
  | _ => do
    match ← toObject? v with
    | some o => getFor o v name
    | none => return .unknown

/-! ## Writing -/

end

end AbstractScript.Op

namespace AbstractScript

/-- True if an assignment to a property can succeed. -/
def Realm.canPut (r : Realm) (o : ObjectId) (name : String) : Bool :=
  let record := r.object o
  match record.own? name with
  | some (.accessor _ setter _ _) => setter.isSome
  | some (.data _ w _ _) => w
  | none =>
    match r.findProperty? (r.prototypes o) name with
    | none => record.extensible
    | some (.accessor _ setter _ _) => setter.isSome
    | some (.data _ w _ _) => record.extensible && w

end AbstractScript

namespace AbstractScript.Op

open Eval

variable [Natives]

/-- The value that an assignment to something created at a level stores. -/
def weaken {ε : Type} (createdLevel : Nat) (v : Value) : Eval ε Value :=
  return if (← MonadState.get).isAmbiguousWrite createdLevel then .unknown else v

/-- Assigns to a property: to an own value, through a setter, or by adding a property. -/
def put (o : ObjectId) (name : String) (v : Value) (strict : Bool) : Op Unit := do
  if !(← MonadState.get).realm.canPut o name then
    if strict then typeError ("Cannot assign to read only property '" ++ name ++ "'")
    return
  let record ← object o
  let v ← weaken record.createdLevel v
  match record.own? name with
  | some (.data ..) =>
    let _ ← define o name (.value v) strict
  | _ =>
    match ← property? o name with
    | some (.accessor _ (some f) _ _) =>
      let _ ← callAccessor f (.object o) [v]
    | _ =>
      let _ ← define o name (.plain v) strict

omit [Natives] in
/-- Removes a property. The answer tells whether it is gone. -/
def delete (o : ObjectId) (name : String) (strict : Bool) : Op Bool := do
  if (← object o).canDelete name then
    modifyObject o (·.remove name)
    return true
  else if strict then typeError ("Cannot delete property '" ++ name ++ "'")
  else return false

end AbstractScript.Op
