import AbstractScript.Number.Read
import AbstractScript.Realm

/-!
# Catalogues of built-in objects

A catalogue lists the objects that are installed into a new realm: the core objects, and objects of
the host. An entry named after an intrinsic constructor, or `global`, adds to the object of that
name; any other entry becomes a new object bound to its name.
-/
namespace AbstractScript

/-- The description of a built-in object. -/
structure BuiltinObject where
  name : String
  /-- Functions of the object itself. -/
  methods : List (String × Native) := []
  /-- Functions of the prototype. -/
  prototypeMethods : List (String × Native) := []
  /-- Values of the object itself, which never change. -/
  constants : List (String × Value) := []
  /-- Values of the prototype. -/
  prototypeValues : List (String × Value) := []
  /-- What a call of the object does. -/
  call : Option Native := none
  /-- What the object does with `new`. -/
  construct : Option Native := none
  deriving DecidableEq, Repr

namespace BuiltinObject

/-- True if a new object of this description is a function. -/
def isFunction (b : BuiltinObject) : Bool := b.call.isSome || b.construct.isSome

/-- True if a new object of this description has a prototype for instances. -/
def hasPrototype (b : BuiltinObject) : Bool :=
  !b.prototypeMethods.isEmpty || !b.prototypeValues.isEmpty

/-- Replaces a function of the object, or adds one. -/
def override (b : BuiltinObject) (method : String) (f : Native) : BuiltinObject :=
  { b with methods := b.methods.filter (·.1 != method) ++ [(method, f)] }

/-- Functions of a core object. -/
def functions (fs : List (String × CoreFunction)) : List (String × Native) :=
  fs.map fun (name, f) => (name, .core f)

/-! ## The core objects -/

/-- The values and functions that are global themselves. -/
def global : BuiltinObject where
  name := "global"
  constants :=
    [("undefined", .undefined), ("NaN", .number Number.nan),
      ("Infinity", .number (Number.infinity false))]
  methods := functions [("isNaN", .isNaN), ("isFinite", .isFinite)]

/-- The constructor of objects. -/
def object : BuiltinObject where
  name := "Object"
  call := some (.core .objectCall)
  construct := some (.core .objectCall)
  methods := functions
    [("getPrototypeOf", .getPrototypeOf), ("getOwnPropertyDescriptor", .getOwnPropertyDescriptor),
      ("getOwnPropertyNames", .getOwnPropertyNames), ("create", .create),
      ("defineProperty", .defineProperty), ("defineProperties", .defineProperties),
      ("seal", .sealObject), ("freeze", .freezeObject), ("preventExtensions", .preventExtensions),
      ("isSealed", .isSealed), ("isFrozen", .isFrozen), ("isExtensible", .isExtensible),
      ("keys", .keys)]
  prototypeMethods := functions
    [("toString", .objectToString), ("valueOf", .objectValueOf),
      ("hasOwnProperty", .hasOwnProperty), ("isPrototypeOf", .isPrototypeOf),
      ("propertyIsEnumerable", .propertyIsEnumerable)]

/-- The constructor of functions. -/
def function : BuiltinObject where
  name := "Function"
  call := some (.core .dynamicFunction)
  construct := some (.core .dynamicFunction)
  prototypeMethods := functions [("toString", .functionToString)]

/-- The constructor of arrays. -/
def array : BuiltinObject where
  name := "Array"
  call := some (.core .arrayConstruct)
  construct := some (.core .arrayConstruct)
  methods := functions [("isArray", .isArray)]
  prototypeMethods := functions
    [("push", .push), ("pop", .pop), ("join", .join), ("toString", .arrayToString)]

/-- The constructor of truth values. -/
def boolean : BuiltinObject where
  name := "Boolean"
  call := some (.core .booleanCall)
  construct := some (.core .booleanConstruct)
  prototypeMethods := functions [("toString", .booleanToString), ("valueOf", .booleanValueOf)]

/-- The constructor of numbers. -/
def number : BuiltinObject where
  name := "Number"
  call := some (.core .numberCall)
  construct := some (.core .numberConstruct)
  constants :=
    [("MAX_VALUE", .number (Float.ofBits 0x7FEFFFFFFFFFFFFF)),
      ("MIN_VALUE", .number (Float.ofBits 1)), ("NaN", .number Number.nan),
      ("POSITIVE_INFINITY", .number (Number.infinity false)),
      ("NEGATIVE_INFINITY", .number (Number.infinity true))]
  prototypeMethods := functions [("toString", .numberToString), ("valueOf", .numberValueOf)]

/-- The constructor of strings. -/
def string : BuiltinObject where
  name := "String"
  call := some (.core .stringCall)
  construct := some (.core .stringConstruct)
  prototypeMethods := functions
    [("toString", .stringValueOf), ("valueOf", .stringValueOf), ("charAt", .charAt),
      ("indexOf", .indexOf)]

/-- The constructor of errors. -/
def error : BuiltinObject where
  name := "Error"
  call := some (.core (.error .errorPrototype))
  construct := some (.core (.error .errorPrototype))
  prototypeValues := [("name", .string "Error"), ("message", .string "")]
  prototypeMethods := functions [("toString", .errorToString)]

/-- The constructor of errors of one kind. -/
def errorOfKind (name : String) (prototype : Intrinsic) : BuiltinObject where
  name := name
  call := some (.core (.error prototype))
  construct := some (.core (.error prototype))
  prototypeValues := [("name", .string name)]

end BuiltinObject

/-- Built-in objects in the order in which they are installed. -/
structure Catalogue where
  objects : List BuiltinObject := []
  deriving DecidableEq, Repr

namespace Catalogue

/-- The catalogue of the core objects. -/
def core : Catalogue where
  objects :=
    [.global, .object, .function, .array, .boolean, .number, .string, .error,
      .errorOfKind "TypeError" .typeErrorPrototype, .errorOfKind "RangeError" .rangeErrorPrototype,
      .errorOfKind "ReferenceError" .referenceErrorPrototype,
      .errorOfKind "SyntaxError" .syntaxErrorPrototype]

/-- Adds an object at the end, in place of one of the same name. -/
def register (c : Catalogue) (b : BuiltinObject) : Catalogue :=
  ⟨c.objects.filter (·.name != b.name) ++ [b]⟩

/-- An object by its name. -/
def get? (c : Catalogue) (name : String) : Option BuiltinObject :=
  c.objects.find? (·.name == name)

/-- True if there is an object of a name. -/
def has (c : Catalogue) (name : String) : Bool := (c.get? name).isSome

/-- A function of an object. -/
def method? (c : Catalogue) (name method : String) : Option Native := do
  let b ← c.get? name
  b.methods.lookup method

/-- Replaces a function of an object, or adds one. Without such an object nothing changes. -/
def override (c : Catalogue) (name method : String) (f : Native) : Catalogue :=
  ⟨c.objects.map fun b => if b.name = name then b.override method f else b⟩

end Catalogue

namespace Realm

/-- Adds a function to an object. -/
def installMethod (o : ObjectId) (r : Realm) (method : String × Native) : Realm :=
  (r.addObject (functionRecord 0 (.native method.1 (some method.2) none))).store o method.1
    (.hidden (.object r.nextObject))

/-- Adds functions to an object. -/
def installMethods (r : Realm) (o : ObjectId) (methods : List (String × Native)) : Realm :=
  methods.foldl (installMethod o) r

/-- Adds values to an object, each as a property of a given form. -/
def installValues (r : Realm) (o : ObjectId) (form : Value → Descriptor)
    (values : List (String × Value)) : Realm :=
  values.foldl (fun r (name, v) => r.store o name (form v)) r

/-- Lets an intrinsic constructor do what a description says. -/
def installBehaviour (r : Realm) (o : ObjectId) (b : BuiltinObject) : Realm :=
  r.modifyObject o fun record =>
    match record.callable with
    | some (.native name call construct) =>
      { record with callable := some (.native name (b.call <|> call) (b.construct <|> construct)) }
    | _ => record

/-- The object that a property holds. -/
def objectAt? (r : Realm) (o : ObjectId) (name : String) : Option ObjectId :=
  match (r.object o).own? name with
  | some (.data (.object p) ..) => some p
  | _ => none

/-- A new object of a description, before it has properties. -/
def hostRecord (b : BuiltinObject) : ObjectRecord :=
  if b.isFunction then functionRecord 0 (.native b.name b.call b.construct) else plainRecord 0

/-- Adds a prototype to a new object. -/
def installPrototype (r : Realm) (o : ObjectId) (b : BuiltinObject) : Realm × Option ObjectId :=
  if b.hasPrototype then
    let prototype := r.nextObject
    ((r.addObject (plainRecord 0)).linkPrototype o prototype, some prototype)
  else (r, none)

/-- Finds or creates the object of a description, and its prototype. -/
def installTarget (r : Realm) (b : BuiltinObject) : Realm × ObjectId × Option ObjectId :=
  if b.name = Intrinsic.global.name then (r, globalObject, none)
  else match Intrinsic.constructorOfName? b.name with
    | some i =>
      let prototype := r.objectAt? i.id "prototype"
      let r := r.installBehaviour i.id b
      (r.store globalObject b.name (.hidden (.object i.id)), i.id, prototype)
    | none =>
      let o := r.nextObject
      let r := (r.addObject (hostRecord b)).store globalObject b.name (.hidden (.object o))
      let (r, prototype) := r.installPrototype o b
      (r, o, prototype)

/-- Installs an object. -/
def installObject (r : Realm) (b : BuiltinObject) : Realm :=
  let (r, o, prototype) := r.installTarget b
  let r := r.installMethods o b.methods
  let r := match prototype with
    | some p => (r.installMethods p b.prototypeMethods).installValues p .hidden b.prototypeValues
    | none => r
  r.installValues o .fixed b.constants

/-- Installs the objects of a catalogue. -/
def install (r : Realm) (c : Catalogue) : Realm := c.objects.foldl installObject r

/-- The realm in which a run begins. -/
def withObjects (c : Catalogue) : Realm := initial.install c

end Realm

end AbstractScript
