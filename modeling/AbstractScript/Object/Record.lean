import AbstractScript.Errors
import AbstractScript.Object.Descriptor
import AbstractScript.Object.Native
import AbstractScript.Syntax.Tree
import AbstractScript.Table

/-!
# Objects

An object has a class, an ordered table of properties, at most one prototype and a flag that tells
whether properties can be added. Functions are objects that can be called. The definition of a
property is checked against what is there; nothing else changes a property's flags.
-/
namespace AbstractScript

/-- The place of an environment in the environment table. -/
@[ext] structure EnvId where
  index : Nat
  deriving DecidableEq, Repr, Inhabited

/-- The class of an object. -/
inductive ObjectClass where
  | object
  | array
  | function
  | error
  | boolean
  | number
  | string
  | arguments
  deriving DecidableEq, Repr, Inhabited

namespace ObjectClass

/-- Every class. -/
def all : List ObjectClass := [object, array, function, error, boolean, number, string, arguments]

/-- The name of a class. -/
def name : ObjectClass → String
  | object => "Object"
  | array => "Array"
  | function => "Function"
  | error => "Error"
  | boolean => "Boolean"
  | number => "Number"
  | string => "String"
  | arguments => "Arguments"

/-- The class of a given name. -/
def ofName? (s : String) : Option ObjectClass := all.find? (·.name = s)

end ObjectClass

/-- Code of the program together with the environment it was created in. -/
structure Closure where
  code : FunctionCode
  scope : EnvId

/-- What calling an object does. -/
inductive Callable where
  | native (name : String) (call construct : Option Native)
  | script (closure : Closure)

namespace Callable

/-- The name of a function. -/
def name : Callable → String
  | native name .. => name
  | script closure => closure.code.name

/-- True for functions that `new` accepts. -/
def isConstructor : Callable → Bool
  | native _ _ construct => construct.isSome
  | script _ => true

/-- True for functions of the program. -/
def isScript : Callable → Bool
  | native .. => false
  | script _ => true

end Callable

/-- An object. -/
structure ObjectRecord where
  cls : ObjectClass
  prototype : Option ObjectId
  properties : Table Descriptor := .empty
  extensible : Bool := true
  /-- The primitive inside a Boolean, Number or String object. -/
  primitive : Option Value := none
  callable : Option Callable := none
  /-- The ambiguity level at which the object was created. A write at a deeper level may or may not
  happen. -/
  createdLevel : Nat := 0

instance : Inhabited ObjectRecord := ⟨{ cls := .object, prototype := none }⟩

/-- Why the definition of a property is rejected. -/
inductive Rejection where
  | notExtensible
  | notConfigurable
  | notWritable
  | getterFixed
  | setterFixed
  deriving DecidableEq, Repr

namespace Rejection

/-- The wording of a rejection. -/
def reason : Rejection → String
  | notExtensible => "object is not extensible"
  | notConfigurable => "property is not configurable"
  | notWritable => "property is not writable"
  | getterFixed => "getter is not configurable"
  | setterFixed => "setter is not configurable"

/-- The error that a rejected definition raises. -/
def error (r : Rejection) (name : String) : NativeError :=
  .typeError ("Cannot redefine property: " ++ name ++ " (" ++ r.reason ++ ")")

end Rejection

namespace Definition

/-- Checks the flags of a property that is not configurable: it stays so, and it stays as listed as
it is. -/
def checkFlags (d : Definition) (current : Descriptor) : Except Rejection Unit :=
  if current.isConfigurable then .ok ()
  else if d.hasConfigurable && d.descriptor.isConfigurable then .error .notConfigurable
  else if d.hasEnumerable && d.descriptor.isEnumerable != current.isEnumerable then
    .error .notConfigurable
  else .ok ()

/-- Checks the contents of a property of the same kind: what is not configurable keeps its
functions, and a value that is not writable either stays the same. -/
def checkContents (d : Definition) (current : Descriptor) : Except Rejection Unit :=
  match current, d.descriptor with
  | .data v false _ false, .data v' w' _ _ =>
    if d.hasWritable && w' then .error .notWritable
    else if d.hasValue && !v'.same v then .error .notWritable
    else .ok ()
  | .accessor g s _ false, .accessor g' s' _ _ =>
    if d.hasGetter && g' != g then .error .getterFixed
    else if d.hasSetter && s' != s then .error .setterFixed
    else .ok ()
  | _, _ => .ok ()

/-- The property that a definition makes of an existing one. -/
def apply (d : Definition) (current : Descriptor) : Except Rejection Descriptor :=
  if d.isEmpty then .ok current
  else do
    d.checkFlags current
    if d.isGeneric then return d.mergeInto current
    if current.isData != d.isData then
      if !current.isConfigurable then throw .notConfigurable
      return d.mergeInto (if current.isData then current.blankAccessor else current.blankData)
    d.checkContents current
    return d.mergeInto current

end Definition

namespace ObjectRecord

/-- True for functions. -/
def isCallable (r : ObjectRecord) : Bool := r.callable.isSome

/-- An own property. -/
def own? (r : ObjectRecord) (name : String) : Option Descriptor := r.properties.get? name

/-- The own property names in order. -/
def keys (r : ObjectRecord) : List String := r.properties.keys

/-- The names of the own properties that are listed, in order. -/
def enumerableKeys (r : ObjectRecord) : List String :=
  r.properties.keysWhere Descriptor.isEnumerable

/-- Stores a property without a check. -/
def store (r : ObjectRecord) (name : String) (d : Descriptor) : ObjectRecord :=
  { r with properties := r.properties.insert name d }

/-- The property that a definition makes, if the object admits it. -/
def accept (r : ObjectRecord) (name : String) (d : Definition) : Except Rejection Descriptor :=
  match r.own? name with
  | none => if r.extensible then .ok d.complete else .error .notExtensible
  | some current => d.apply current

/-- Defines a property of an ordinary object. -/
def define (r : ObjectRecord) (name : String) (d : Definition) : Except Rejection ObjectRecord :=
  (r.accept name d).map (r.store name)

/-- True if a property is absent or can be removed. -/
def canDelete (r : ObjectRecord) (name : String) : Bool :=
  match r.own? name with
  | none => true
  | some d => d.isConfigurable

/-- Removes a property, if there is one. -/
def remove (r : ObjectRecord) (name : String) : ObjectRecord :=
  { r with properties := r.properties.erase name }

@[simp] theorem own?_store (r : ObjectRecord) (name other : String) (d : Descriptor) :
    (r.store name d).own? other = if other = name then some d else r.own? other :=
  Table.get?_insert ..

/-- A stored property keeps its place among the properties, or becomes the last one. -/
theorem keys_store (r : ObjectRecord) (name : String) (d : Descriptor) :
    (r.store name d).keys = if name ∈ r.keys then r.keys else r.keys ++ [name] :=
  Table.keys_insert ..

@[simp] theorem own?_remove (r : ObjectRecord) (name other : String) :
    (r.remove name).own? other = if other = name then none else r.own? other :=
  Table.get?_erase ..

/-- A removal keeps the order of the other properties. -/
theorem keys_remove (r : ObjectRecord) (name : String) :
    (r.remove name).keys = r.keys.filter (· != name) :=
  Table.keys_erase ..

theorem nodup_keys (r : ObjectRecord) : r.keys.Nodup := r.properties.nodup_keys

theorem own?_eq_none_iff {r : ObjectRecord} {name : String} :
    r.own? name = none ↔ name ∉ r.keys :=
  Table.get?_eq_none_iff

/-- A definition that is accepted stores one property and changes nothing else. -/
theorem define_eq_ok_iff {r s : ObjectRecord} {name : String} {d : Definition} :
    r.define name d = .ok s ↔ ∃ p, r.accept name d = .ok p ∧ s = r.store name p := by
  unfold define
  cases r.accept name d <;> simp [Except.map, eq_comm]

/-- Forbids further properties. -/
def preventExtensions (r : ObjectRecord) : ObjectRecord := { r with extensible := false }

end ObjectRecord

end AbstractScript
