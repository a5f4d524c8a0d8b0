import AbstractScript.Errors
import AbstractScript.Value

/-!
# Native functions

The functions of the core objects by name, and the simple behaviours that functions of host objects
have. What each does is defined where it is run.
-/
namespace AbstractScript

/-- Objects that every realm starts with. They are created first and in this order. -/
inductive Intrinsic where
  | objectPrototype
  | functionPrototype
  | arrayPrototype
  | booleanPrototype
  | numberPrototype
  | stringPrototype
  | errorPrototype
  | typeErrorPrototype
  | rangeErrorPrototype
  | referenceErrorPrototype
  | syntaxErrorPrototype
  | object
  | function
  | array
  | boolean
  | number
  | string
  | error
  | typeError
  | rangeError
  | referenceError
  | syntaxError
  | global
  deriving DecidableEq, Repr

namespace Intrinsic

/-- The intrinsic objects in order of creation. -/
def all : List Intrinsic :=
  [objectPrototype, functionPrototype, arrayPrototype, booleanPrototype, numberPrototype,
    stringPrototype, errorPrototype, typeErrorPrototype, rangeErrorPrototype,
    referenceErrorPrototype, syntaxErrorPrototype, object, function, array, boolean, number, string,
    error, typeError, rangeError, referenceError, syntaxError, global]

/-- Each constructor with the prototype of its instances. -/
def constructors : List (Intrinsic × Intrinsic) :=
  [(object, objectPrototype), (function, functionPrototype), (array, arrayPrototype),
    (boolean, booleanPrototype), (number, numberPrototype), (string, stringPrototype),
    (error, errorPrototype), (typeError, typeErrorPrototype), (rangeError, rangeErrorPrototype),
    (referenceError, referenceErrorPrototype), (syntaxError, syntaxErrorPrototype)]

/-- The name of an intrinsic object. -/
def name : Intrinsic → String
  | objectPrototype => "Object.prototype"
  | functionPrototype => "Function.prototype"
  | arrayPrototype => "Array.prototype"
  | booleanPrototype => "Boolean.prototype"
  | numberPrototype => "Number.prototype"
  | stringPrototype => "String.prototype"
  | errorPrototype => "Error.prototype"
  | typeErrorPrototype => "TypeError.prototype"
  | rangeErrorPrototype => "RangeError.prototype"
  | referenceErrorPrototype => "ReferenceError.prototype"
  | syntaxErrorPrototype => "SyntaxError.prototype"
  | object => "Object"
  | function => "Function"
  | array => "Array"
  | boolean => "Boolean"
  | number => "Number"
  | string => "String"
  | error => "Error"
  | typeError => "TypeError"
  | rangeError => "RangeError"
  | referenceError => "ReferenceError"
  | syntaxError => "SyntaxError"
  | global => "global"

/-- The place of an intrinsic object in the object table. -/
def id (i : Intrinsic) : ObjectId := ⟨i.ctorIdx⟩

/-- The intrinsic object of a given name. -/
def ofName? (s : String) : Option Intrinsic := all.find? (·.name = s)

/-- The constructor bound to a given name. -/
def constructorOfName? (s : String) : Option Intrinsic :=
  (constructors.map (·.1)).find? (·.name = s)

end Intrinsic

/-- The functions of the core objects. -/
inductive CoreFunction where
  | isNaN
  | isFinite
  | objectCall
  | getPrototypeOf
  | getOwnPropertyDescriptor
  | getOwnPropertyNames
  | create
  | defineProperty
  | defineProperties
  | sealObject
  | freezeObject
  | preventExtensions
  | isSealed
  | isFrozen
  | isExtensible
  | keys
  | objectToString
  | objectValueOf
  | hasOwnProperty
  | isPrototypeOf
  | propertyIsEnumerable
  | dynamicFunction
  | functionToString
  | arrayConstruct
  | isArray
  | push
  | pop
  | join
  | arrayToString
  | booleanCall
  | booleanConstruct
  | booleanToString
  | booleanValueOf
  | numberCall
  | numberConstruct
  | numberToString
  | numberValueOf
  | stringCall
  | stringConstruct
  | stringValueOf
  | charAt
  | indexOf
  /-- Creates an error that inherits from a given prototype. -/
  | error (prototype : Intrinsic)
  | errorToString
  deriving DecidableEq, Repr

/-- A function that runs no program code. -/
inductive Native where
  | core (f : CoreFunction)
  /-- Returns a fixed value. -/
  | constant (v : Value)
  /-- Fails with a fixed error. -/
  | failure (e : NativeError)
  /-- Returns its receiver. -/
  | receiver
  /-- Returns one of its arguments. -/
  | argument (index : Nat)
  /-- Returns the number of its arguments. -/
  | argumentCount
  /-- Returns a new object. -/
  | freshObject
  deriving DecidableEq, Repr

end AbstractScript
