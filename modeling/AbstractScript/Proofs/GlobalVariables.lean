import AbstractScript.Proofs.Store

/-!
# Global variables in the realm

Reading, assigning, declaring and defining a property of the global object, while the core objects
are as they were. A global variable is writable unless its name is fixed, so that each of these
operations stores the value it is given; nothing else in the realm changes.
-/
namespace AbstractScript

open Eval Realm

namespace Realm

theorem core_global : (core.object globalObject).cls = .object ∧
    (core.object globalObject).extensible = true ∧
    (core.object globalObject).createdLevel = 0 ∧
    (core.object globalObject).prototype = some Intrinsic.objectPrototype.id := by
  decide +kernel

theorem prototype_core_objectPrototype :
    (core.object Intrinsic.objectPrototype.id).prototype = none := by
  decide +kernel

variable {r : Realm}

namespace IsCore

theorem cls (h : r.IsCore) : (r.object globalObject).cls = .object := by
  rw [h.shape]
  exact core_global.1

theorem extensible (h : r.IsCore) : (r.object globalObject).extensible = true := by
  rw [h.shape]
  exact core_global.2.1

theorem createdLevel (h : r.IsCore) : (r.object globalObject).createdLevel = 0 := by
  rw [h.shape]
  exact core_global.2.2.1

theorem prototype (h : r.IsCore) :
    (r.object globalObject).prototype = some Intrinsic.objectPrototype.id := by
  rw [h.shape]
  exact core_global.2.2.2

/-- The global object inherits from `Object.prototype` and from nothing else. -/
theorem chain_global (h : r.IsCore) :
    r.chain globalObject = [globalObject, Intrinsic.objectPrototype.id] := by
  have parent : (r.object Intrinsic.objectPrototype.id).prototype = none := by
    rw [h.object _ (by decide)]
    exact prototype_core_objectPrototype
  rw [chain, h.size, size_core, Realm.chainWithin, h.prototype, Realm.chainWithin, parent,
    Realm.chainWithin]
  rintro ⟨⟩

theorem property?_global (h : r.IsCore) (name : String) : r.property? globalObject name =
    ((r.object globalObject).own? name).or
      ((core.object Intrinsic.objectPrototype.id).own? name) := by
  have inherited := h.object Intrinsic.objectPrototype.id (by decide)
  rw [Realm.property?, h.chain_global, findProperty?, List.findSome?_cons, List.findSome?_singleton,
    inherited]
  cases (r.object globalObject).own? name <;> rfl

/-- A property of the global object that is stored anew is plain, and writable unless its name is
fixed. -/
theorem store (h : r.IsCore) {name : String} {d : Descriptor} (free : name ∉ fixedNames)
    (plain : d.isPlain = true) (writable : d.isWritable = true) :
    (r.modifyObject globalObject (·.store name d)).IsCore := by
  have there : globalObject.index < r.objects.size := by
    rw [h.size, size_core]
    decide
  have changed : (r.modifyObject globalObject (·.store name d)).object globalObject =
      (r.object globalObject).store name d := by
    rw [object_modifyObject, if_pos ⟨rfl, there⟩]
  refine ⟨?_, fun o ho => ?_, ?_, fun other d' found => ?_, fun other hother => ?_⟩
  · show (r.objects.modify _ _).size = _
    rw [Array.size_modify]
    exact h.size
  · rw [object_modifyObject, if_neg fun same => ho same.1]
    exact h.object o ho
  · rw [changed, ObjectRecord.store, h.shape]
  · rw [changed, ObjectRecord.own?_store] at found
    split at found
    · cases found
      exact ⟨plain, .inl writable⟩
    · exact h.plain other d' found
  · have ne : other ≠ name := fun same => free (same ▸ hother)
    rw [changed, ObjectRecord.own?_store, if_neg ne]
    exact h.fixed other hother

end IsCore

/-- A global variable that never changes is a known value that cannot be replaced. -/
theorem IsCore.own?_of_mem_fixedNames (h : r.IsCore) {name : String} (fixed : name ∈ fixedNames) :
    ∃ v, (r.object globalObject).own? name = some (.data v false false false) := by
  have checked := List.all_eq_true.1 globals_core.2.1 name fixed
  rw [h.fixed name fixed]
  split at checked
  next v own => exact ⟨v, own⟩
  next => cases checked

/-- Every other property of the global object can be replaced. -/
theorem IsCore.own?_of_not_mem_fixedNames (h : r.IsCore) {name : String}
    (free : name ∉ fixedNames) {d : Descriptor} (own : (r.object globalObject).own? name = some d) :
    ∃ v e c, d = .data v true e c := by
  obtain ⟨plain, writable | fixed⟩ := h.plain name d own
  · cases d with
    | data v w e c =>
      obtain rfl : w = true := writable
      exact ⟨v, e, c, rfl⟩
    | accessor => cases plain
  · exact absurd fixed free

/-- What the global object inherits is data that an assignment may hide. -/
theorem own?_objectPrototype {name : String} {d : Descriptor}
    (own : (core.object Intrinsic.objectPrototype.id).own? name = some d) :
    ∃ v e c, d = .data v true e c ∧ v.isPlain = true := by
  have checked := List.all_eq_true.1 globals_core.2.2 _ (Table.get?_eq_some_iff.1 own)
  simp only [Bool.and_eq_true] at checked
  cases d with
  | data v w e c =>
    obtain rfl : w = true := checked.2
    exact ⟨v, e, c, rfl, checked.1.1⟩
  | accessor => cases checked.1.1

theorem IsCore.canPut (h : r.IsCore) {name : String} (free : name ∉ fixedNames) :
    r.canPut globalObject name = true := by
  have found : r.findProperty? (r.prototypes globalObject) name =
      (core.object Intrinsic.objectPrototype.id).own? name := by
    rw [prototypes, h.chain_global]
    show List.findSome? _ [_] = _
    rw [List.findSome?_singleton, h.object _ (by decide)]
  cases own : (r.object globalObject).own? name with
  | some d =>
    obtain ⟨v, e, c, rfl⟩ := h.own?_of_not_mem_fixedNames free own
    simp only [Realm.canPut, own]
  | none =>
    cases inherited : (core.object Intrinsic.objectPrototype.id).own? name with
    | none => simp only [Realm.canPut, own, found, inherited, h.extensible]
    | some d =>
      obtain ⟨v, e, c, rfl, -⟩ := own?_objectPrototype inherited
      simp only [Realm.canPut, own, found, inherited, h.extensible, Bool.and_self]

end Realm

/-! ## Operations -/

namespace Machine

/-- Stores a property of the global object. -/
def storeGlobal (m : Machine) (name : String) (d : Descriptor) : Machine :=
  m.modifyObject Realm.globalObject (·.store name d)

end Machine

namespace Op

variable {s : Setup} {m : Machine} {name : String}

theorem object_apply {ε : Type} (o : ObjectId) (s : Setup) (m : Machine) :
    (Eval.object o : Eval ε ObjectRecord) s m = .ok (m.realm.object o) m := rfl

/-- A definition that the global object admits is stored. -/
theorem define_global (h : m.realm.IsCore) {d : Definition} {p : Descriptor}
    (accepted : (m.realm.object globalObject).accept name d = .ok p) (strict : Bool) :
    define globalObject name d strict s m = .ok true (m.storeGlobal name p) := by
  rw [define, bind_apply, object_apply]
  show (if (m.realm.object globalObject).cls ≠ .array then _ else _ : Op Bool) s m = _
  rw [if_pos (by simp [h.cls]), defineOrdinary, bind_apply, object_apply]
  simp only [accepted]
  rfl

theorem weaken_eq_ok {ε : Type} (created : Nat) (v : Value) (s : Setup) (m : Machine) :
    (weaken created v : Eval ε Value) s m = .ok (v.weakened created m.level) m := by
  simp [weaken, bind_apply, Machine.isAmbiguousWrite, Value.weakened]

/-- An assignment to a global variable stores the value, weakened if it may or may not happen. -/
theorem put_global (h : m.realm.IsCore) (free : name ∉ fixedNames) (v : Value) :
    ∃ p, p.content = v.weakened 0 m.level ∧ p.isWritable = true ∧
      put globalObject name v false s m = .ok () (m.storeGlobal name p) := by
  have allowed := h.canPut free
  have weakens : (weaken (m.realm.object globalObject).createdLevel v : Op Value) s m =
      .ok (v.weakened 0 m.level) m := by
    rw [weaken_eq_ok, h.createdLevel]
  have looked : (Op.property? globalObject name : Op _) s m =
      .ok (m.realm.property? globalObject name) m := rfl
  -- an own property is assigned, any other becomes an own one
  cases own : (m.realm.object globalObject).own? name with
  | some d =>
    obtain ⟨old, e, c, rfl⟩ := h.own?_of_not_mem_fixedNames free own
    refine ⟨.data (v.weakened 0 m.level) true e c, rfl, rfl, ?_⟩
    have accepted : (m.realm.object globalObject).accept name (.value (v.weakened 0 m.level)) =
        .ok (.data (v.weakened 0 m.level) true e c) := by
      rw [ObjectRecord.accept, own]
      cases c <;> rfl
    simp only [put, bind_apply, get_apply, allowed, Bool.not_true, Bool.false_eq_true, if_false,
      object_apply, weakens, own, define_global h accepted, pure_apply]
  | none =>
    refine ⟨.plain (v.weakened 0 m.level), rfl, rfl, ?_⟩
    have accepted : (m.realm.object globalObject).accept name (.plain (v.weakened 0 m.level)) =
        .ok (.plain (v.weakened 0 m.level)) := by
      rw [ObjectRecord.accept, own]
      simp only [h.extensible, if_true]
      rfl
    have found := h.property?_global name
    rw [own, Option.none_or] at found
    -- nothing that is inherited is an accessor, so that it does not matter
    cases inherited : (core.object Intrinsic.objectPrototype.id).own? name with
    | none =>
      rw [inherited] at found
      simp only [put, bind_apply, get_apply, allowed, Bool.not_true, Bool.false_eq_true, if_false,
        object_apply, weakens, own, looked, found, define_global h accepted, pure_apply]
    | some d =>
      obtain ⟨old, e, c, rfl, -⟩ := own?_objectPrototype inherited
      rw [inherited] at found
      simp only [put, bind_apply, get_apply, allowed, Bool.not_true, Bool.false_eq_true, if_false,
        object_apply, weakens, own, looked, found, define_global h accepted, pure_apply]

/-- An assignment to a global variable that never changes is ignored. -/
theorem put_global_fixed (h : m.realm.IsCore) (fixed : name ∈ fixedNames) (v : Value) :
    put globalObject name v false s m = .ok () m := by
  obtain ⟨old, own⟩ := h.own?_of_mem_fixedNames fixed
  have refused : m.realm.canPut globalObject name = false := by
    simp only [Realm.canPut, own]
  simp only [put, bind_apply, get_apply, refused, Bool.not_false, Bool.false_eq_true, if_true,
    if_false, pure_apply]

/-- A global variable reads as its own value or the inherited one. -/
theorem get_global (h : m.realm.IsCore) (name : String) :
    get globalObject name s m = .ok (((((m.realm.object globalObject).own? name).map
      Descriptor.content).or (inherited? name)).getD .undefined) m := by
  have looked : (Op.property? globalObject name : Op _) s m =
      .ok (m.realm.property? globalObject name) m := rfl
  have found := h.property?_global name
  rw [get, getFor, bind_apply, looked, inherited?]
  cases own : (m.realm.object globalObject).own? name with
  | some d =>
    rw [own, Option.some_or] at found
    obtain ⟨plain, -⟩ := h.plain name d own
    cases d with
    | data v => simp [found, Descriptor.content]
    | accessor => cases plain
  | none =>
    rw [own, Option.none_or] at found
    cases inherited : (core.object Intrinsic.objectPrototype.id).own? name with
    | none =>
      rw [inherited] at found
      simp [found]
    | some d =>
      obtain ⟨v, e, c, rfl, -⟩ := own?_objectPrototype inherited
      rw [inherited] at found
      simp [found, Descriptor.content]

end Op

end AbstractScript
