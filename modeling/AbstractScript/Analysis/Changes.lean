import AbstractScript.Realm

/-!
# What a run changes

A realm at the end of a run compared with the realm in which the run began. Objects that nothing
leads to any more are not of interest.
-/
namespace AbstractScript

namespace Descriptor

/-- The objects that a property leads to. -/
def targets : Descriptor → List ObjectId
  | data (.object o) .. => [o]
  | data .. => []
  | accessor getter setter _ _ => getter.toList ++ setter.toList

end Descriptor

namespace ObjectRecord

/-- The objects that an object leads to: its prototype and those in its properties. -/
def targets (r : ObjectRecord) : List ObjectId :=
  r.prototype.toList ++ r.properties.toList.flatMap (·.2.targets)

/-- True if two objects have the same properties in the same order and are equally extensible. -/
def sameState (r s : ObjectRecord) : Bool :=
  r.extensible == s.extensible && r.keys == s.keys &&
    (r.properties.toList.zip s.properties.toList).all fun (p, q) => p.2.same q.2

end ObjectRecord

namespace Realm

/-- Marks an object, and lists it if it was not marked before. -/
def visit (found : Array Bool × List ObjectId) (o : ObjectId) : Array Bool × List ObjectId :=
  if found.1.getD o.index true then found else (found.1.set! o.index true, o :: found.2)

/-- Marks what the objects of a list lead to, in a number of steps. -/
def spread (r : Realm) : Nat → Array Bool → List ObjectId → Array Bool
  | 0, marked, _ => marked
  | _, marked, [] => marked
  | steps + 1, marked, o :: rest =>
    let (marked, next) := ((r.object o).targets).foldl visit (marked, rest)
    r.spread steps marked next

/-- The objects that some objects lead to, in order of creation. Each object is listed once, so
that there are no more steps than objects. -/
def reachable (r : Realm) (roots : List ObjectId) : List ObjectId :=
  let (marked, next) := roots.foldl visit (Array.replicate r.objects.size false, [])
  let marked := r.spread r.objects.size marked next
  ((List.range r.objects.size).map ObjectId.mk).filter fun o => marked.getD o.index false

/-- The properties of the global object that are new or changed. -/
def changedGlobals (old new : Realm) : List (String × Descriptor) :=
  (new.object globalObject).properties.toList.filter fun (name, d) =>
    match (old.object globalObject).own? name with
    | some d' => !d.same d'
    | none => true

/-- The names of the global object that are gone. -/
def removedGlobals (old new : Realm) : List String :=
  (old.object globalObject).keys.filter fun name => ((new.object globalObject).own? name).isNone

/-- True for an object that is new or has changed. -/
def isChanged (old new : Realm) (o : ObjectId) : Bool :=
  old.objects.size ≤ o.index || !(old.object o).sameState (new.object o)

/-- The new and changed objects that the global object or a value leads to, except the global
object. -/
def changedObjects (old new : Realm) (v : Value) : List ObjectId :=
  let roots := match v with
    | .object o => [globalObject, o]
    | _ => [globalObject]
  (new.reachable roots).filter fun o => o ≠ globalObject && isChanged old new o

end Realm

end AbstractScript
