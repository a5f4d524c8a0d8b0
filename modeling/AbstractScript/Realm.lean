import AbstractScript.Environment
import AbstractScript.Text.Units

/-!
# Realms

The tables of all objects and environments of a run. New entries go to the end, so that an object
has a smaller number than every object created after it. What is found after a change is said by
`object_addObject` and `object_modifyObject`, and by the same two laws of environments.
-/
namespace AbstractScript

/-- The objects and environments of a run. -/
structure Realm where
  objects : Array ObjectRecord := #[]
  environments : Array Environment := #[]
  /-- The ambiguity level at which new objects and environments are created. -/
  ambiguityLevel : Nat := 0

namespace Realm

instance : Inhabited Realm := ⟨{}⟩

/-- The number of the global object. -/
def globalObject : ObjectId := Intrinsic.global.id

/-- The number of the global environment. -/
def globalEnv : EnvId := ⟨0⟩

/-- An object. -/
def object (r : Realm) (o : ObjectId) : ObjectRecord := r.objects.getD o.index default

/-- An environment. -/
def environment (r : Realm) (e : EnvId) : Environment := r.environments.getD e.index default

/-- Changes an object. -/
def modifyObject (r : Realm) (o : ObjectId) (f : ObjectRecord → ObjectRecord) : Realm :=
  { r with objects := r.objects.modify o.index f }

/-- Changes an environment. -/
def modifyEnvironment (r : Realm) (e : EnvId) (f : Environment → Environment) : Realm :=
  { r with environments := r.environments.modify e.index f }

/-- The number of the next object. -/
def nextObject (r : Realm) : ObjectId := ⟨r.objects.size⟩

/-- The number of the next environment. -/
def nextEnvironment (r : Realm) : EnvId := ⟨r.environments.size⟩

/-- Adds an object. -/
def addObject (r : Realm) (record : ObjectRecord) : Realm :=
  { r with objects := r.objects.push record }

/-- Adds an environment. -/
def addEnvironment (r : Realm) (e : Environment) : Realm :=
  { r with environments := r.environments.push e }

/-- An object outside of the table has nothing. -/
theorem object_of_size_le {r : Realm} {o : ObjectId} (outside : r.objects.size ≤ o.index) :
    r.object o = default := by
  rw [object, Array.getD_eq_getD_getElem?, Array.getElem?_eq_none outside]
  rfl

/-- An environment outside of the table has no bindings. -/
theorem environment_of_size_le {r : Realm} {e : EnvId} (outside : r.environments.size ≤ e.index) :
    r.environment e = default := by
  rw [environment, Array.getD_eq_getD_getElem?, Array.getElem?_eq_none outside]
  rfl

/-! ## What is found after a change -/

theorem getD_push {α : Type} (table : Array α) (new default : α) (i : Nat) :
    (table.push new).getD i default = if i = table.size then new else table.getD i default := by
  by_cases h : i = table.size <;> simp [Array.getD_eq_getD_getElem?, Array.getElem?_push, h]

theorem getD_modify {α : Type} (table : Array α) (f : α → α) (default : α) (i j : Nat) :
    (table.modify i f).getD j default =
      if j = i ∧ i < table.size then f (table.getD i default) else table.getD j default := by
  simp only [Array.getD_eq_getD_getElem?, Array.getElem?_modify]
  by_cases hij : j = i
  · subst hij
    by_cases hj : j < table.size <;> simp [hj]
  · simp [hij, Ne.symm hij]

theorem object_addObject (r : Realm) (record : ObjectRecord) (o : ObjectId) :
    (r.addObject record).object o = if o = r.nextObject then record else r.object o := by
  simp only [object, addObject, nextObject, getD_push, ObjectId.ext_iff]

theorem object_modifyObject (r : Realm) (o p : ObjectId) (f : ObjectRecord → ObjectRecord) :
    (r.modifyObject o f).object p =
      if p = o ∧ o.index < r.objects.size then f (r.object o) else r.object p := by
  simp only [object, modifyObject, getD_modify, ObjectId.ext_iff]

@[simp] theorem object_addEnvironment (r : Realm) (e : Environment) (o : ObjectId) :
    (r.addEnvironment e).object o = r.object o := rfl

@[simp] theorem object_modifyEnvironment (r : Realm) (e : EnvId) (f : Environment → Environment)
    (o : ObjectId) : (r.modifyEnvironment e f).object o = r.object o := rfl

theorem environment_addEnvironment (r : Realm) (new : Environment) (e : EnvId) :
    (r.addEnvironment new).environment e =
      if e = r.nextEnvironment then new else r.environment e := by
  simp only [environment, addEnvironment, nextEnvironment, getD_push, EnvId.ext_iff]

theorem environment_modifyEnvironment (r : Realm) (e other : EnvId)
    (f : Environment → Environment) :
    (r.modifyEnvironment e f).environment other =
      if other = e ∧ e.index < r.environments.size then f (r.environment e)
      else r.environment other := by
  simp only [environment, modifyEnvironment, getD_modify, EnvId.ext_iff]

@[simp] theorem environment_addObject (r : Realm) (record : ObjectRecord) (e : EnvId) :
    (r.addObject record).environment e = r.environment e := rfl

@[simp] theorem environment_modifyObject (r : Realm) (o : ObjectId)
    (f : ObjectRecord → ObjectRecord) (e : EnvId) :
    (r.modifyObject o f).environment e = r.environment e := rfl

/-! ## Prototype chains -/

/-- The objects from one to the end of its prototype chain, at most `steps` of them. -/
def chainWithin (r : Realm) : Nat → Option ObjectId → List ObjectId
  | 0, _ => []
  | _, none => []
  | steps + 1, some o => o :: r.chainWithin steps (r.object o).prototype

/-- An object and those on its prototype chain, the nearest first. A chain without a cycle is no
longer than the object table. -/
def chain (r : Realm) (o : ObjectId) : List ObjectId := r.chainWithin r.objects.size (some o)

/-- A property of the nearest of some objects that has it. -/
def findProperty? (r : Realm) (objects : List ObjectId) (name : String) : Option Descriptor :=
  objects.findSome? fun o => (r.object o).own? name

/-- An own property, or the nearest one on the prototype chain. -/
def property? (r : Realm) (o : ObjectId) (name : String) : Option Descriptor :=
  r.findProperty? (r.chain o) name

/-- True if a property is found. -/
def hasProperty (r : Realm) (o : ObjectId) (name : String) : Bool := (r.property? o name).isSome

/-- The objects on the prototype chain, without the object itself. -/
def prototypes (r : Realm) (o : ObjectId) : List ObjectId := (r.chain o).drop 1

/-- True if `p` is on the prototype chain of `o`. -/
def inheritsFrom (r : Realm) (o p : ObjectId) : Bool := p ∈ r.prototypes o

/-- True for a value that can be called. -/
def isCallable (r : Realm) : Value → Bool
  | .object o => (r.object o).isCallable
  | _ => false

/-- The names that `for-in` visits of some objects: listed properties that no object before them
has. -/
def visibleNames (r : Realm) (seen : List String) : List ObjectId → List String
  | [] => []
  | o :: rest =>
    let record := r.object o
    record.enumerableKeys.filter (· ∉ seen) ++ r.visibleNames (seen ++ record.keys) rest

/-- The names that `for-in` visits: the listed properties of the object and its prototypes, except
those that a nearer object has. -/
def enumerableNames (r : Realm) (o : ObjectId) : List String := r.visibleNames [] (r.chain o)

/-- The answer of `typeof`, if the value is known. -/
def typeName? (r : Realm) : Value → Option String
  | .undefined => some "undefined"
  | .null => some "object"
  | .bool _ => some "boolean"
  | .string _ => some "string"
  | .number _ => some "number"
  | .object o => some (if (r.object o).isCallable then "function" else "object")
  | .unknown => none

/-! ## The first objects -/

/-- The class of an intrinsic object and its prototype. -/
def intrinsicShape : Intrinsic → ObjectClass × Option Intrinsic
  | .objectPrototype => (.object, none)
  | .functionPrototype => (.function, some .objectPrototype)
  | .arrayPrototype => (.array, some .objectPrototype)
  | .booleanPrototype => (.boolean, some .objectPrototype)
  | .numberPrototype => (.number, some .objectPrototype)
  | .stringPrototype => (.string, some .objectPrototype)
  | .errorPrototype => (.error, some .objectPrototype)
  | .typeErrorPrototype | .rangeErrorPrototype | .referenceErrorPrototype
  | .syntaxErrorPrototype => (.error, some .errorPrototype)
  | .global => (.object, some .objectPrototype)
  | _ => (.function, some .functionPrototype)

/-- The primitive inside an intrinsic object. -/
def intrinsicPrimitive : Intrinsic → Option Value
  | .booleanPrototype => some (.bool false)
  | .numberPrototype => some (.number 0)
  | .stringPrototype => some (.string "")
  | _ => none

/-- An intrinsic object before it has properties. -/
def intrinsicRecord (i : Intrinsic) : ObjectRecord :=
  let (cls, prototype) := intrinsicShape i
  { cls
    prototype := prototype.map Intrinsic.id
    primitive := intrinsicPrimitive i
    callable := if cls = .function then some (.native i.name none none) else none }

/-- The length of an array as a property. -/
def lengthProperty (n : Nat) : Descriptor := .data (.nat n) true false false

/-- Stores a property of an object without a check. -/
def store (r : Realm) (o : ObjectId) (name : String) (d : Descriptor) : Realm :=
  r.modifyObject o (·.store name d)

/-- Makes one object the prototype of the instances of another. -/
def linkPrototype (r : Realm) (constructor prototype : ObjectId) : Realm :=
  (r.store constructor "prototype" (.fixed (.object prototype))).store prototype "constructor"
    (.hidden (.object constructor))

/-- The realm of the intrinsic objects and the global environment. -/
def initial : Realm :=
  let bare : Realm := { objects := (Intrinsic.all.map intrinsicRecord).toArray }
  let withLength := bare.store Intrinsic.arrayPrototype.id "length" (lengthProperty 0)
  let linked := Intrinsic.constructors.foldl (fun r (c, p) => r.linkPrototype c.id p.id) withLength
  linked.addEnvironment { store := .properties globalObject false, outer := none }

/-! ## New objects -/

/-- An array object with the given elements. -/
def arrayRecord (level : Nat) (elements : List Value) : ObjectRecord :=
  { cls := .array
    prototype := some Intrinsic.arrayPrototype.id
    properties := (Table.indexed (elements.map Descriptor.plain)).insert "length"
      (lengthProperty elements.length)
    createdLevel := level }

/-- A String object: a property for each code unit, and a length. -/
def stringRecord (level : Nat) (s : String) : ObjectRecord :=
  let us := Text.units s
  let letters := us.map fun u => Descriptor.data (.string (Text.ofUnit u)) false true false
  { cls := .string
    prototype := some Intrinsic.stringPrototype.id
    properties := (Table.indexed letters).insert "length" (.fixed (.nat us.length))
    primitive := some (.string s)
    createdLevel := level }

/-- A function object. -/
def functionRecord (level : Nat) (callable : Callable) : ObjectRecord :=
  { cls := .function
    prototype := some Intrinsic.functionPrototype.id
    callable := some callable
    createdLevel := level }

/-- An object without properties that inherits from `Object.prototype`. -/
def plainRecord (level : Nat) : ObjectRecord :=
  { cls := .object, prototype := some Intrinsic.objectPrototype.id, createdLevel := level }

end Realm

end AbstractScript
