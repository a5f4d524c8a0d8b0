import AbstractScript.Builtin.Arrays
import AbstractScript.Builtin.Errors
import AbstractScript.Builtin.Objects
import AbstractScript.Builtin.Primitives

/-!
# Running native functions

Each native function with what it does. A native function may convert an object, which runs further
native functions; how deep this can go is limited, since an array that contains itself would be
joined for ever.
-/
namespace AbstractScript

namespace Builtin

open Eval

variable [Natives]

/-- A test of the number that the argument converts to. -/
def testNumber (p : Float → Bool) : Behaviour := fun _ arguments => do
  return .ofBool? ((← Op.toNumber? (argument arguments 0)).map p)

end Builtin

open Builtin

/-- What a function of a core object does. -/
def CoreFunction.run [Natives] : CoreFunction → Behaviour
  | isNaN => testNumber Float.isNaN
  | isFinite => testNumber Number.isFinite
  | objectCall => Builtin.objectCall
  | getPrototypeOf => Builtin.getPrototypeOf
  | getOwnPropertyDescriptor => Builtin.getOwnPropertyDescriptor
  | getOwnPropertyNames => Builtin.getOwnPropertyNames
  | create => createWith
  | defineProperty => Builtin.defineProperty
  | defineProperties => Builtin.defineProperties
  | sealObject => Builtin.sealObject
  | freezeObject => Builtin.freezeObject
  | preventExtensions => Builtin.preventExtensions
  | isSealed => Builtin.isSealed
  | isFrozen => Builtin.isFrozen
  | isExtensible => Builtin.isExtensible
  | keys => Builtin.keys
  | objectToString => Builtin.objectToString
  | objectValueOf => Builtin.objectValueOf
  | hasOwnProperty => Builtin.hasOwnProperty
  | isPrototypeOf => Builtin.isPrototypeOf
  | propertyIsEnumerable => Builtin.propertyIsEnumerable
  | dynamicFunction => Builtin.dynamicFunction
  | functionToString => Builtin.functionToString
  | arrayConstruct => arrayOf
  | isArray => Builtin.isArray
  | push => Builtin.push
  | pop => Builtin.pop
  | join => Builtin.join
  | arrayToString => Builtin.arrayToString
  | booleanCall => Builtin.booleanCall
  | booleanConstruct => Builtin.booleanConstruct
  | booleanToString => Builtin.booleanToString
  | booleanValueOf => valueOf .boolean
  | numberCall => Builtin.numberCall
  | numberConstruct => Builtin.numberConstruct
  | numberToString => Builtin.numberToString
  | numberValueOf => valueOf .number
  | stringCall => Builtin.stringCall
  | stringConstruct => Builtin.stringConstruct
  | stringValueOf => valueOf .string
  | charAt => Builtin.charAt
  | indexOf => Builtin.indexOf
  | error prototype => createError prototype
  | errorToString => Builtin.errorToString

namespace Native

open Eval

/-- What a native function does. -/
def run [Natives] : Native → Behaviour
  | core f => f.run
  | constant v => fun _ _ => return v
  | failure e => fun _ _ => throw e
  | receiver => fun this _ => return this
  | argument index => fun _ arguments => return Builtin.argument arguments index
  | argumentCount => fun _ arguments => return .nat arguments.length
  | freshObject => fun _ _ => .object <$> createPlain

/-- How deep native functions can call each other. -/
def nestingLimit : Nat := 10000

/-- Runs a native function that can call others to a given depth. -/
def callWithin : Nat → Native → Behaviour
  | 0 => fun _ _ _ => Op.rangeError "Maximum call stack size exceeded"
  | depth + 1 => fun f this arguments => do
    modify (·.enterNative f this arguments)
    @run ⟨callWithin depth⟩ f this arguments

/-- Native functions run with the full depth. -/
instance natives : Natives := ⟨callWithin nestingLimit⟩

/-- Runs a native function. -/
def call (f : Native) : Behaviour := Natives.call f

end Native

end AbstractScript
