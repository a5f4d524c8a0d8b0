import AbstractScript.Analysis.Run

/-!
# Realms with the core objects

A program without calls and without object literals meets only *plain* values: primitives, unknown,
and the functions that the names of core objects stand for. It changes global variables and nothing
else in the realm (`Realm.IsCore`). What holds of the core objects themselves is checked once, on the
realm in which a run begins.
-/
namespace AbstractScript

open Eval

namespace Realm

/-- The realm in which a run with the core objects begins. -/
@[irreducible] def core : Realm := .withObjects .core

/-- True for the functions of the core objects: they inherit from the prototype of all functions. -/
def isCoreFunction (o : ObjectId) : Bool :=
  (core.object o).prototype = some Intrinsic.functionPrototype.id

end Realm

/-! ## Plain values -/

namespace Value

/-- True for primitives, unknown and the functions of the core objects. -/
def isPlain : Value → Bool
  | .object o => Realm.isCoreFunction o
  | _ => true

/-- A plain value that is not unknown. -/
structure IsKnown (v : Value) : Prop where
  plain : v.isPlain = true
  known : v.isUnknown = false

/-- A primitive: a value that is neither an object nor unknown. -/
structure IsPrimitive (v : Value) : Prop where
  notObject : v.isObject = false
  known : v.isUnknown = false

theorem isPlain_of_not_isObject {v : Value} (h : v.isObject = false) : v.isPlain = true := by
  cases v <;> first | rfl | cases h

theorem IsPrimitive.isKnown {v : Value} (h : v.IsPrimitive) : v.IsKnown :=
  ⟨isPlain_of_not_isObject h.notObject, h.known⟩

end Value

namespace Descriptor

/-- The value of a property. That of an accessor is unknown. -/
def content : Descriptor → Value
  | data v .. => v
  | accessor .. => .unknown

/-- True for a property that holds a plain value. -/
def isPlain : Descriptor → Bool
  | data v .. => v.isPlain
  | accessor .. => false

end Descriptor

namespace Realm

/-! ## Facts about the core realm -/

/-- The global names whose values never change. -/
def fixedNames : List String := ["undefined", "NaN", "Infinity"]

/-- The value that a name inherits where the global object has no property of it. -/
def inherited? (name : String) : Option Value :=
  ((core.object Intrinsic.objectPrototype.id).own? name).map Descriptor.content

/-- The function of a core object that a property holds. -/
def nativeAt? (r : Realm) (o : ObjectId) (name : String) : Option Native :=
  match (r.object o).own? name with
  | some (.data (.object f) ..) =>
    if f = globalObject then none
    else match (r.object f).callable with
      | some (.native _ call _) => call
      | _ => none
  | _ => none

/-- The global object holds plain values that can be replaced, or fixed ones that are known. What it
inherits is plain and known and can be hidden. -/
theorem globals_core :
    ((core.object globalObject).properties.toList.all
      fun e => e.2.isPlain && (e.2.isWritable || e.1 ∈ fixedNames)) = true ∧
    (fixedNames.all fun name =>
      match (core.object globalObject).own? name with
      | some (.data v false false false) => !v.isUnknown
      | _ => false) = true ∧
    ((core.object Intrinsic.objectPrototype.id).properties.toList.all
      fun e => e.2.isPlain && !e.2.content.isUnknown && e.2.isWritable) = true := by
  decide +kernel

theorem size_core : core.objects.size = 58 := by decide +kernel

/-- The global object and the functions of the core objects inherit from all objects. -/
theorem chains_core : core.chain globalObject = [globalObject, Intrinsic.objectPrototype.id] ∧
    core.chainWithin 57 (some Intrinsic.functionPrototype.id) =
      [Intrinsic.functionPrototype.id, Intrinsic.objectPrototype.id] := by
  decide +kernel

/-- The functions of the core objects have no conversions of their own. They inherit `toString` from
all functions and `valueOf` from all objects. -/
theorem conversions_core :
    (core.objects.toList.all fun record =>
      record.prototype != some Intrinsic.functionPrototype.id ||
        record.isCallable && (record.own? "valueOf").isNone && (record.own? "toString").isNone) =
      true ∧
    core.nativeAt? Intrinsic.functionPrototype.id "toString" = some (.core .functionToString) ∧
    (core.object Intrinsic.functionPrototype.id).own? "valueOf" = none ∧
    core.nativeAt? Intrinsic.objectPrototype.id "valueOf" = some (.core .objectValueOf) := by
  decide +kernel

/-! ## Realms in which only global variables have changed -/

/-- The realm of a run in which nothing but the properties of the global object has changed, and no
object has been created. -/
structure IsCore (r : Realm) : Prop where
  size : r.objects.size = core.objects.size
  object : ∀ o, o ≠ globalObject → r.object o = core.object o
  shape : r.object globalObject =
    { core.object globalObject with properties := (r.object globalObject).properties }
  plain : ∀ name d, (r.object globalObject).own? name = some d →
    d.isPlain = true ∧ (d.isWritable = true ∨ name ∈ fixedNames)
  fixed : ∀ name ∈ fixedNames,
    (r.object globalObject).own? name = (core.object globalObject).own? name

theorem isCore_core : core.IsCore where
  size := rfl
  object _ _ := rfl
  shape := by cases core.object globalObject; rfl
  plain name d h := by
    have listed := List.all_eq_true.1 globals_core.1 _ (Table.get?_eq_some_iff.1 h)
    simpa using listed
  fixed _ _ := rfl

variable {r : Realm}

theorem IsCore.congr {r' : Realm} (h : r.IsCore) (same : r'.objects = r.objects) : r'.IsCore := by
  have object (o : ObjectId) : r'.object o = r.object o := by rw [Realm.object, same, Realm.object]
  refine ⟨?_, ?_, ?_, ?_, ?_⟩
  · rw [same]
    exact h.size
  · intro o ho
    rw [object]
    exact h.object o ho
  · rw [object]
    exact h.shape
  · rw [object]
    exact h.plain
  · rw [object]
    exact h.fixed

/-- A prototype chain without the global object is that of the core realm. -/
theorem IsCore.chainWithin (h : r.IsCore) (steps : Nat) (o : Option ObjectId)
    (free : globalObject ∉ core.chainWithin steps o) :
    r.chainWithin steps o = core.chainWithin steps o := by
  induction steps generalizing o with
  | zero => rfl
  | succ steps ih =>
    cases o with
    | none => rfl
    | some o =>
      rw [Realm.chainWithin, List.mem_cons, not_or] at free
      have same : r.object o = core.object o := h.object o (Ne.symm free.1)
      rw [Realm.chainWithin, Realm.chainWithin, same, ih _ free.2]

/-- The functions of the core objects inherit from all functions and all objects. -/
theorem chain_of_isCoreFunction {o : ObjectId} (h : isCoreFunction o = true) :
    core.chain o = [o, Intrinsic.functionPrototype.id, Intrinsic.objectPrototype.id] := by
  rw [chain, size_core, Realm.chainWithin, of_decide_eq_true h, chains_core.2]

theorem ne_global_of_isCoreFunction {o : ObjectId} (h : isCoreFunction o = true) :
    o ≠ globalObject := by
  rintro rfl
  have chain := chain_of_isCoreFunction h
  rw [chains_core.1] at chain
  cases chain

theorem findSome?_congr {α β : Type} {f g : α → Option β} {l : List α}
    (h : ∀ a ∈ l, f a = g a) : l.findSome? f = l.findSome? g := by
  induction l with
  | nil => rfl
  | cons a l ih =>
    rw [List.findSome?_cons, List.findSome?_cons, h a List.mem_cons_self,
      ih fun b hb => h b (List.mem_cons_of_mem a hb)]

theorem IsCore.property? (h : r.IsCore) {o : ObjectId}
    (plain : isCoreFunction o = true) (name : String) :
    r.property? o name = core.property? o name := by
  have chain := chain_of_isCoreFunction plain
  have free : globalObject ∉ core.chain o := by
    rw [chain]
    simp only [List.mem_cons, List.not_mem_nil, or_false, not_or]
    exact ⟨Ne.symm (ne_global_of_isCoreFunction plain), by decide, by decide⟩
  have same : r.chain o = core.chain o := by
    rw [Realm.chain, h.size]
    exact h.chainWithin _ _ free
  rw [Realm.property?, Realm.property?, same, findProperty?, findProperty?]
  refine findSome?_congr fun p hp => ?_
  rw [h.object p fun e => free (e ▸ hp)]

/-- The function of a core object is found in every realm with the core objects. -/
theorem IsCore.callable_of_nativeAt? (h : r.IsCore) {o : ObjectId} {name : String} {f : Native}
    (found : core.nativeAt? o name = some f) : ∃ g w e c text construct,
      (core.object o).own? name = some (.data (.object g) w e c) ∧
      (r.object g).callable = some (.native text (some f) construct) := by
  unfold nativeAt? at found
  split at found
  next g w e c own =>
    split at found
    · cases found
    next ne =>
      split at found
      next text call construct callable =>
        subst found
        exact ⟨g, w, e, c, text, construct, own, by rw [h.object g ne, callable]⟩
      · cases found
  · cases found

end Realm

end AbstractScript
