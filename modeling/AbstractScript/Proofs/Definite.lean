import AbstractScript.Proofs.CoreRealm
import AbstractScript.Proofs.Fragments

/-!
# Definite machines

A machine is *definite* if nothing in it is unknown or may or may not happen: no property, no
binding, no completion that was shown, no context, no possible exit, at present and at every earlier
moment (`Machine.Definite`). Direct code gets hold of few of the core objects, and calls of these give
definite values (`Value.isHarmless`); other core objects it meets only when objects are converted.
-/
namespace AbstractScript

open Eval

/-! ## Values -/

namespace CoreFunction

/-- True for a function that a name stands for, and that makes no unknown value of definite ones. -/
def isHarmless : CoreFunction → Bool
  | isNaN | isFinite | objectCall | objectToString | objectValueOf | hasOwnProperty | isPrototypeOf
  | propertyIsEnumerable | arrayConstruct | booleanCall | numberCall | stringCall => true
  | error prototype => prototype ≠ .global
  | _ => false

/-- True for a function that converts its receiver to a primitive. -/
def isConversion : CoreFunction → Bool
  | objectToString | objectValueOf | functionToString | arrayToString | booleanToString
  | booleanValueOf | numberToString | numberValueOf | stringValueOf | errorToString => true
  | _ => false

end CoreFunction

namespace Realm

/-- The core function that a core object is when it is called. -/
def coreFunction? (o : ObjectId) : Option CoreFunction :=
  match (core.object o).callable with
  | some (.native _ (some (.core f)) _) => some f
  | _ => none

/-- True for a core object whose call gives definite values. -/
def isHarmless (o : ObjectId) : Bool := (coreFunction? o).any CoreFunction.isHarmless

/-- True for a core object whose call converts its receiver. -/
def isConversion (o : ObjectId) : Bool := (coreFunction? o).any CoreFunction.isConversion

end Realm

namespace Value

/-- True for a value that is neither unknown nor the global object. -/
def isDefinite : Value → Bool
  | unknown => false
  | object o => o ≠ Realm.globalObject
  | _ => true

/-- True for a value that is not unknown, and that is no core object but a harmless one. -/
def isHarmless : Value → Bool
  | unknown => false
  | object o => Realm.core.objects.size ≤ o.index || Realm.isHarmless o
  | _ => true

end Value

/-- The global object is no function, so it is neither harmless nor a conversion. -/
theorem Realm.notFunction_global :
    isHarmless globalObject = false ∧ isConversion globalObject = false := by
  decide +kernel

/-- An object that is newer than the core objects is not the global object. -/
theorem Realm.ne_global_of_new {o : ObjectId} (new : core.objects.size ≤ o.index) :
    o ≠ globalObject := by
  rintro rfl
  rw [size_core] at new
  exact absurd new (by decide)

namespace Value

/-- A harmless value is definite, as the global object is not harmless. -/
theorem isDefinite_of_isHarmless {v : Value} (h : v.isHarmless = true) : v.isDefinite = true := by
  cases v with
  | object o =>
    rw [isHarmless, Bool.or_eq_true, decide_eq_true_iff] at h
    refine decide_eq_true fun same => ?_
    rcases h with new | harmless
    · exact Realm.ne_global_of_new new same
    · rw [same, Realm.notFunction_global.1] at harmless
      cases harmless
  | unknown => cases h
  | _ => rfl

/-- Objects that a run creates are harmless. -/
theorem isHarmless_of_new {o : ObjectId} (new : Realm.core.objects.size ≤ o.index) :
    (object o).isHarmless = true := by
  rw [isHarmless, decide_eq_true new, Bool.true_or]

/-- A definite value is known. -/
theorem isUnknown_of_isDefinite {v : Value} (h : v.isDefinite = true) : v.isUnknown = false := by
  cases v <;> first | rfl | cases h

/-- A value that is not unknown has a truth value. -/
theorem exists_toBool? {v : Value} (h : v.isDefinite = true) : ∃ b, v.toBool? = some b := by
  cases v <;> first | exact ⟨_, rfl⟩ | cases h

/-- A definite value is a primitive unless it is an object. -/
theorem isPrimitive_of_isDefinite {v : Value} (h : v.isDefinite = true)
    (notObject : v.isObject = false) : v.IsPrimitive :=
  ⟨notObject, isUnknown_of_isDefinite h⟩

/-- Primitives are harmless. -/
theorem isHarmless_of_isPrimitive {v : Value} (h : v.IsPrimitive) : v.isHarmless = true := by
  cases v with
  | object o => cases h.notObject
  | unknown => cases h.known
  | _ => rfl

end Value

/-! ## Objects -/

namespace Descriptor

/-- True for a property that holds a definite value. -/
def isDefinite : Descriptor → Bool
  | data v .. => v.isDefinite
  | accessor .. => false

/-- True for a property that holds a harmless value. -/
def isHarmless : Descriptor → Bool
  | data v .. => v.isHarmless
  | accessor .. => false

/-- True for a property that holds a function that converts objects. -/
def isConversion : Descriptor → Bool
  | data (.object f) .. => Realm.isConversion f
  | _ => false

end Descriptor

/-- A property that holds a harmless value holds a definite one. -/
theorem Descriptor.isDefinite_of_isHarmless {d : Descriptor} (h : d.isHarmless = true) :
    d.isDefinite = true := by
  cases d with
  | data v w e c => exact Value.isDefinite_of_isHarmless h
  | accessor g s e c => cases h

/-- True for the name of a method by which objects are converted. -/
def isMethodName (name : String) : Bool := name ∈ ["valueOf", "toString"]

/-- True for the primitive that an object of a class has inside. An object of another class than the
three of primitives may have any or none. -/
def ObjectClass.wraps : ObjectClass → Option Value → Bool
  | .boolean, some (.bool _) | .number, some (.number _) | .string, some (.string _) => true
  | .boolean, _ | .number, _ | .string, _ => false
  | _, _ => true

namespace ObjectRecord

/-- An object of which no property is unknown, and that has usual conversions. -/
structure Definite (r : ObjectRecord) : Prop where
  values : ∀ name d, r.own? name = some d → d.isDefinite = true
  methods : ∀ name d, isMethodName name = true → r.own? name = some d → d.isConversion = true
  prototype : r.prototype ≠ some Realm.globalObject
  primitive : r.cls.wraps r.primitive = true

/-- A definite object that a run has created: if it can be called, it is a function of the program,
and its code is direct. -/
structure Fresh (r : ObjectRecord) : Prop extends Definite r where
  callable : ∀ f, r.callable = some f →
    ∃ closure, f = .script closure ∧ closure.code.isIn .direct = true

/-- What is stored keeps an object definite. -/
theorem Definite.store {r : ObjectRecord} (h : r.Definite) {name : String} {d : Descriptor}
    (definite : d.isDefinite = true) (plain : isMethodName name = false) :
    (r.store name d).Definite where
  values other d' found := by
    rw [own?_store] at found
    split at found
    · cases found
      exact definite
    · exact h.values other d' found
  methods other d' method found := by
    rw [own?_store, if_neg] at found
    · exact h.methods other d' method found
    · rintro rfl
      rw [plain] at method
      cases method
  prototype := h.prototype
  primitive := h.primitive

/-- To remove a property leaves an object definite. -/
theorem Definite.remove {r : ObjectRecord} (h : r.Definite) (name : String) :
    (r.remove name).Definite where
  values other d found := by
    rw [own?_remove] at found
    split at found
    · cases found
    · exact h.values other d found
  methods other d method found := by
    rw [own?_remove] at found
    split at found
    · cases found
    · exact h.methods other d method found
  prototype := h.prototype
  primitive := h.primitive

/-- A definite value under any other name than that of a method keeps a fresh object fresh. -/
theorem Fresh.store {r : ObjectRecord} (h : r.Fresh) {name : String} {d : Descriptor}
    (definite : d.isDefinite = true) (plain : isMethodName name = false) : (r.store name d).Fresh :=
  ⟨h.toDefinite.store definite plain, h.callable⟩

/-- To remove a property keeps a fresh object fresh. -/
theorem Fresh.remove {r : ObjectRecord} (h : r.Fresh) (name : String) : (r.remove name).Fresh :=
  ⟨h.toDefinite.remove name, h.callable⟩

/-- A new object is fresh. -/
theorem fresh_default : (default : ObjectRecord).Fresh where
  values _ _ found := nomatch found
  methods _ _ _ found := nomatch found
  prototype := by simp [default]
  primitive := rfl
  callable _ found := nomatch found

end ObjectRecord

/-! ## Environments and realms -/

namespace Bindings

/-- Bindings that hold harmless values only. -/
def IsHarmless (b : Bindings) : Prop :=
  ∀ name binding v, b.table.get? name = some binding → binding.value = some v → v.isHarmless = true

variable {b : Bindings} {name : String}

/-- A binding without a value, or with a harmless one, may be added. -/
theorem IsHarmless.insert (h : b.IsHarmless) {binding : Binding}
    (harmless : ∀ v, binding.value = some v → v.isHarmless = true) :
    IsHarmless ⟨b.table.insert name binding⟩ := by
  intro other found v bound value
  rw [Table.get?_insert] at bound
  split at bound
  · cases bound
    exact harmless v value
  · exact h other found v bound value

/-- A variable begins as undefined, which is harmless. -/
theorem IsHarmless.create (h : b.IsHarmless) (name : String) (deletable : Bool) :
    (b.create name deletable).IsHarmless := h.insert fun v hv => by cases hv; rfl

/-- An immutable binding begins without a value. -/
theorem IsHarmless.createImmutable (h : b.IsHarmless) (name : String) :
    (b.createImmutable name).IsHarmless := h.insert nofun

/-- A binding may be given a harmless value, if it takes one. -/
theorem IsHarmless.give (h : b.IsHarmless) (takes : Binding → Bool) (name : String) {v : Value}
    (hv : v.isHarmless = true) : (b.give takes name v).IsHarmless := by
  unfold Bindings.give
  split
  · split
    · exact h.insert fun w hw => by cases hw; exact hv
    · exact h
  · exact h

/-- What a binding gives is harmless. -/
theorem IsHarmless.get (h : b.IsHarmless) {v : Value} (found : b.get name = .ok v) :
    v.isHarmless = true := by
  unfold Bindings.get at found
  split at found
  next binding bound =>
    cases found
    cases value : binding.value with
    | none => rfl
    | some v => exact h name binding v bound value
  next => cases found

end Bindings

/-- An environment whose bindings hold harmless values, or that binds the properties of the global
object. -/
def Environment.Definite (e : Environment) : Prop :=
  match e.store with
  | .own b => b.IsHarmless
  | .properties o providesReceiver => o = Realm.globalObject ∧ providesReceiver = false

/-- A new environment binds nothing. -/
theorem Environment.definite_fresh (outer : Option EnvId) : (Environment.fresh outer).Definite :=
  fun _ _ _ bound => nomatch bound

/-- The bindings of a definite environment are harmless. -/
theorem Environment.Definite.own {e : Environment} (h : e.Definite) {b : Bindings}
    (store : e.store = .own b) : b.IsHarmless := by
  rw [Environment.Definite, store] at h
  exact h

/-- A definite environment over an object is that of the global object, and lends no receiver. -/
theorem Environment.Definite.properties {e : Environment} (h : e.Definite) {o : ObjectId}
    {providesReceiver : Bool} (store : e.store = .properties o providesReceiver) :
    o = Realm.globalObject ∧ providesReceiver = false := by
  rw [Environment.Definite, store] at h
  exact h

namespace Realm

/-- A realm of which only the properties of the global object and what a run has created differ from
the core realm, and in which everything is definite. Names stand for harmless values, except the
name of the constructor of functions. -/
structure Definite (r : Realm) : Prop where
  size : core.objects.size ≤ r.objects.size
  same : ∀ o, o.index < core.objects.size → o ≠ globalObject → r.object o = core.object o
  fresh : ∀ o, core.objects.size ≤ o.index → (r.object o).Fresh
  cls : (r.object globalObject).cls = .object
  prototype : (r.object globalObject).prototype = some Intrinsic.objectPrototype.id
  globals : ∀ name d, (r.object globalObject).own? name = some d →
    d.isDefinite = true ∧ (name ≠ "Function" → d.isHarmless = true)
  environments : ∀ e, (r.environment e).Definite

/-- What objects may hold under a name if no value there is unknown. -/
structure Fits (o : ObjectId) (name : String) (d : Descriptor) : Prop where
  definite : d.isDefinite = true
  harmless : o = globalObject → name ≠ "Function" → d.isHarmless = true

/-- True if a run of direct code may store something under a name of an object. -/
def IsOpenAt (o : ObjectId) (name : String) : Prop :=
  o = globalObject ∨ core.objects.size ≤ o.index ∧ isMethodName name = false

/-! ### The core realm -/

/-- What is checked of a core object. -/
def isDefiniteAt (i : Nat) : Bool :=
  let record := core.object ⟨i⟩
  i = globalObject.index ||
    (record.properties.toList.all (fun e => e.2.isDefinite && (!isMethodName e.1 || e.2.isConversion)) &&
      (record.prototype != some globalObject && record.cls.wraps record.primitive))

/-- All core objects pass the check. -/
theorem isDefinite_core : (List.range 58).all isDefiniteAt = true := by decide +kernel

/-- All but one of the properties of the global object are harmless, and so is what it inherits. -/
theorem isHarmless_core :
    ((core.object globalObject).properties.toList.all
      fun e => e.2.isDefinite && (e.1 == "Function" || e.2.isHarmless)) = true ∧
    ((core.object Intrinsic.objectPrototype.id).properties.toList.all fun e => e.2.isHarmless) =
      true := by
  decide +kernel

/-- Every core object but the global one is definite. -/
theorem definite_coreObject {o : ObjectId} (there : o.index < core.objects.size)
    (other : o ≠ globalObject) : (core.object o).Definite := by
  rw [size_core] at there
  have checked := List.all_eq_true.1 isDefinite_core o.index (List.mem_range.2 there)
  simp only [isDefiniteAt, Bool.or_eq_true, decide_eq_true_iff, Bool.and_eq_true,
    List.all_eq_true, bne_iff_ne] at checked
  rcases checked with same | ⟨properties, prototype, primitive⟩
  · exact absurd (ObjectId.ext same) other
  · constructor
    case values => exact fun name d found => (properties _ (Table.get?_eq_some_iff.1 found)).1
    case methods =>
      intro name d method found
      have either := (properties _ (Table.get?_eq_some_iff.1 found)).2
      simpa [method] using either
    case prototype => exact prototype
    case primitive => exact primitive

/-- The global object is a plain one whose chain ends after one step. -/
theorem shape_core : (core.object globalObject).cls = .object ∧
    (core.object globalObject).prototype = some Intrinsic.objectPrototype.id ∧
    (core.object Intrinsic.objectPrototype.id).prototype = none := by
  decide +kernel

/-- True for an environment that binds the properties of the global object. -/
def bindsGlobals (e : Environment) : Bool :=
  match e.store with
  | .own _ => false
  | .properties o providesReceiver => o = globalObject && !providesReceiver

/-- The environments of the core realm bind the global object. -/
theorem bindsGlobals_core : core.environments.toList.all bindsGlobals = true := by decide +kernel

/-- So they are definite. -/
theorem definite_bindsGlobals {e : Environment} (h : bindsGlobals e = true) : e.Definite := by
  rw [bindsGlobals] at h
  rw [Environment.Definite]
  split at h
  next => cases h
  next o providesReceiver store => simpa using h

/-- The core realm is definite. -/
theorem definite_core : core.Definite where
  size := Nat.le_refl _
  same _ _ _ := rfl
  -- outside of the table stands the default record
  fresh o new := by
    rw [object_of_size_le new]
    exact ObjectRecord.fresh_default
  cls := shape_core.1
  prototype := shape_core.2.1
  globals name d found := by
    have checked := List.all_eq_true.1 isHarmless_core.1 _ (Table.get?_eq_some_iff.1 found)
    simp only [Bool.and_eq_true, Bool.or_eq_true, beq_iff_eq] at checked
    exact ⟨checked.1, fun other => checked.2.resolve_left other⟩
  environments e := by
    rw [environment, Array.getD_eq_getD_getElem?]
    cases found : core.environments[e.index]? with
    | none => rintro name binding v ⟨⟩
    | some env =>
      have listed : env ∈ core.environments.toList :=
        Array.mem_toList_iff.2 (Array.mem_of_getElem? found)
      exact definite_bindsGlobals (List.all_eq_true.1 bindsGlobals_core env listed)

/-! ### Properties -/

variable {r : Realm}

namespace Definite

/-- Objects other than the global object are definite. -/
theorem object (h : r.Definite) {o : ObjectId} (other : o ≠ globalObject) :
    (r.object o).Definite := by
  by_cases new : core.objects.size ≤ o.index
  · exact (h.fresh o new).toDefinite
  · rw [h.same o (Nat.lt_of_not_le new) other]
    exact definite_coreObject (Nat.lt_of_not_le new) other

/-- The global object is on no other prototype chain. -/
theorem ne_of_mem_chainWithin (h : r.Definite) (steps : Nat) {o : Option ObjectId}
    (other : o ≠ some globalObject) : ∀ p ∈ r.chainWithin steps o, p ≠ globalObject := by
  induction steps generalizing o with
  | zero => exact fun p hp => nomatch hp
  | succ steps ih =>
    cases o with
    | none => exact fun p hp => nomatch hp
    | some o =>
      have ne : o ≠ globalObject := fun same => other (congrArg some same)
      intro p hp
      rcases List.mem_cons.1 hp with rfl | later
      · exact ne
      · exact ih (h.object ne).prototype p later

/-- What is found on an object other than the global object is definite. -/
theorem property (h : r.Definite) {o : ObjectId} (other : o ≠ globalObject) {name : String}
    {d : Descriptor} (found : r.property? o name = some d) :
    d.isDefinite = true ∧ (isMethodName name = true → d.isConversion = true) := by
  obtain ⟨p, hp, own⟩ := List.exists_of_findSome?_eq_some found
  have ne : p ≠ globalObject :=
    h.ne_of_mem_chainWithin _ (fun same => other (Option.some.inj same)) p hp
  exact ⟨(h.object ne).values name d own, fun method => (h.object ne).methods name d method own⟩

/-- The prototype of the global object is still the core one. -/
theorem prototype_same (h : r.Definite) :
    r.object Intrinsic.objectPrototype.id = core.object Intrinsic.objectPrototype.id := by
  refine h.same _ ?_ (by decide)
  rw [size_core]
  decide

/-- The chain of the global object is the one it had. -/
theorem chain_global (h : r.Definite) :
    r.chain globalObject = [globalObject, Intrinsic.objectPrototype.id] := by
  have size : 58 ≤ r.objects.size := size_core ▸ h.size
  obtain ⟨more, size⟩ := Nat.exists_eq_add_of_le' (show 3 ≤ r.objects.size by omega)
  rw [Realm.chain, size, chainWithin, h.prototype, chainWithin, h.prototype_same,
    shape_core.2.2, chainWithin]
  rintro ⟨⟩

/-- What is found on the global object is its own, or harmless. -/
theorem property_global (h : r.Definite) {name : String} {d : Descriptor}
    (found : r.property? globalObject name = some d) :
    (r.object globalObject).own? name = some d ∨ d.isHarmless = true := by
  rw [property?, h.chain_global, findProperty?, List.findSome?_cons] at found
  split at found
  next own =>
    cases found
    exact .inl own
  next =>
    simp only [List.findSome?_cons, h.prototype_same] at found
    split at found
    next own =>
      cases found
      exact .inr (List.all_eq_true.1 isHarmless_core.2 _ (Table.get?_eq_some_iff.1 own))
    next => cases found

/-- What a name stands for in the global environment is harmless. -/
theorem global (h : r.Definite) {name : String} (plain : name ≠ "Function") {d : Descriptor}
    (found : r.property? globalObject name = some d) : d.isHarmless = true := by
  rcases h.property_global found with own | harmless
  · exact (h.globals name d own).2 plain
  · exact harmless

/-- Whatever is found is definite. -/
theorem isDefinite (h : r.Definite) {o : ObjectId} {name : String} {d : Descriptor}
    (found : r.property? o name = some d) : d.isDefinite = true := by
  by_cases same : o = globalObject
  · subst same
    rcases h.property_global found with own | harmless
    · exact (h.globals name d own).1
    · exact Descriptor.isDefinite_of_isHarmless harmless
  · exact (h.property same found).1

/-- A function that converts objects is what it was in the core realm. -/
theorem callable_of_isConversion (h : r.Definite) {f : ObjectId} (conversion : isConversion f = true) :
    ∃ name g construct, (r.object f).callable = some (.native name (some (.core g)) construct) ∧
      g.isConversion = true := by
  obtain ⟨g, found, converts⟩ := (Option.any_eq_true _ _).1 conversion
  have other : f ≠ globalObject := by
    rintro rfl
    rw [notFunction_global.2] at conversion
    cases conversion
  have there : f.index < core.objects.size := by
    refine Nat.lt_of_not_le fun outside => ?_
    rw [coreFunction?, object_of_size_le outside] at found
    cases found
  rw [coreFunction?] at found
  split at found
  next name g' construct callable =>
    cases found
    exact ⟨name, g, construct, by rw [h.same f there other, callable], converts⟩
  next => cases found

/-- What a call of a harmless object does: it runs direct code or a harmless core function. -/
theorem callable_of_isHarmless (h : r.Definite) {f : ObjectId}
    (harmless : (Value.object f).isHarmless = true) {c : Callable}
    (callable : (r.object f).callable = some c) :
    (∃ closure, c = .script closure ∧ closure.code.isIn .direct = true) ∨
      ∃ name g construct, c = .native name (some (.core g)) construct ∧ g.isHarmless = true := by
  rw [Value.isHarmless, Bool.or_eq_true, decide_eq_true_iff] at harmless
  -- what the program has created is called as a function of the program, all else as one of the
  -- core
  by_cases new : core.objects.size ≤ f.index
  · exact .inl ((h.fresh f new).callable c callable)
  · have harmless := harmless.resolve_left new
    have other : f ≠ globalObject := by
      rintro rfl
      rw [notFunction_global.1] at harmless
      cases harmless
    obtain ⟨g, found, harmless⟩ := (Option.any_eq_true _ _).1 harmless
    rw [coreFunction?, ← h.same f (Nat.lt_of_not_le new) other, callable] at found
    split at found
    next name g' construct same =>
      cases found
      exact .inr ⟨name, g, construct, Option.some.inj same, harmless⟩
    next => cases found

/-! ### Changes -/

/-- A fresh object may be added. -/
theorem addObject (h : r.Definite) {record : ObjectRecord} (fresh : record.Fresh) :
    (r.addObject record).Definite := by
  -- the new object is none of the core
  have other {o : ObjectId} (old : o.index < core.objects.size) : o ≠ r.nextObject := by
    rintro rfl
    exact Nat.not_le.2 old h.size
  have global : (r.addObject record).object globalObject = r.object globalObject := by
    rw [object_addObject, if_neg (other (by rw [size_core]; decide))]
  constructor
  case size =>
    have more : r.objects.size ≤ (r.addObject record).objects.size := by simp [Realm.addObject]
    exact Nat.le_trans h.size more
  case same =>
    intro o old ne
    rw [object_addObject, if_neg (other old)]
    exact h.same o old ne
  case fresh =>
    intro o new
    rw [object_addObject]
    split
    · exact fresh
    · exact h.fresh o new
  case cls => rw [global]; exact h.cls
  case prototype => rw [global]; exact h.prototype
  case globals => rw [global]; exact h.globals
  case environments => exact h.environments

/-- An object that a run has created may change into another such object. -/
theorem modifyNew (h : r.Definite) {o : ObjectId} (new : core.objects.size ≤ o.index)
    {f : ObjectRecord → ObjectRecord} (keeps : ∀ record : ObjectRecord, record.Fresh → (f record).Fresh) :
    (r.modifyObject o f).Definite := by
  have other {p : ObjectId} (ne : p ≠ o) : (r.modifyObject o f).object p = r.object p := by
    rw [object_modifyObject, if_neg fun h => ne h.1]
  -- no object of the core changes
  have old {p : ObjectId} (lt : p.index < core.objects.size) : p ≠ o := by
    rintro rfl
    exact Nat.not_le.2 lt new
  have global : (r.modifyObject o f).object globalObject = r.object globalObject :=
    other (old (by rw [size_core]; decide))
  constructor
  case size => simpa [Realm.modifyObject] using h.size
  case same => exact fun p lt ne => (other (old lt)).trans (h.same p lt ne)
  case fresh =>
    intro p hp
    rw [object_modifyObject]
    split
    · exact keeps _ (h.fresh o new)
    · exact h.fresh p hp
  case cls => rw [global]; exact h.cls
  case prototype => rw [global]; exact h.prototype
  case globals => rw [global]; exact h.globals
  case environments => exact h.environments

/-- What an object holds under an open name fits there. -/
theorem fits_own (h : r.Definite) {o : ObjectId} {name : String} (isOpen : IsOpenAt o name)
    {d : Descriptor} (own : (r.object o).own? name = some d) : Fits o name d := by
  rcases isOpen with rfl | ⟨new, -⟩
  · exact ⟨(h.globals name d own).1, fun _ => (h.globals name d own).2⟩
  · exact ⟨(h.fresh o new).values name d own, fun same => absurd same (ne_global_of_new new)⟩

/-- What fits may be stored in the global object. -/
theorem storeGlobal (h : r.Definite) {name : String} {d : Descriptor}
    (fits : Fits globalObject name d) :
    (r.modifyObject globalObject (·.store name d)).Definite := by
  have there : globalObject.index < r.objects.size := by
    refine Nat.lt_of_lt_of_le ?_ h.size
    rw [size_core]
    decide
  -- only the global object changes
  have other {p : ObjectId} (ne : p ≠ globalObject) :
      (r.modifyObject globalObject (·.store name d)).object p = r.object p := by
    rw [object_modifyObject, if_neg fun h => ne h.1]
  have global : (r.modifyObject globalObject (·.store name d)).object globalObject =
      (r.object globalObject).store name d := by
    rw [object_modifyObject, if_pos ⟨rfl, there⟩]
  constructor
  case size => simpa [Realm.modifyObject] using h.size
  case same => exact fun p lt ne => (other ne).trans (h.same p lt ne)
  case fresh =>
    intro p hp
    rw [other (ne_global_of_new hp)]
    exact h.fresh p hp
  case cls => rw [global]; exact h.cls
  case prototype => rw [global]; exact h.prototype
  case globals =>
    intro name' d' found
    rw [global, ObjectRecord.own?_store] at found
    split at found
    next same =>
      cases found
      exact ⟨fits.definite, same ▸ fits.harmless rfl⟩
    next => exact h.globals name' d' found
  case environments => exact h.environments

/-- What fits may be stored. -/
theorem store (h : r.Definite) {o : ObjectId} {name : String} (isOpen : IsOpenAt o name)
    {d : Descriptor} (fits : Fits o name d) : (r.modifyObject o (·.store name d)).Definite := by
  rcases isOpen with rfl | ⟨new, plain⟩
  · exact h.storeGlobal fits
  · exact h.modifyNew new fun record fresh => fresh.store fits.definite plain

/-- A definite environment may be added. -/
theorem addEnvironment (h : r.Definite) {e : Environment} (definite : e.Definite) :
    (r.addEnvironment e).Definite := by
  refine ⟨h.size, h.same, h.fresh, h.cls, h.prototype, h.globals, fun p => ?_⟩
  rw [environment_addEnvironment]
  split
  · exact definite
  · exact h.environments p

/-- An environment may be changed by what keeps environments definite. -/
theorem modifyEnvironment (h : r.Definite) (e : EnvId) {f : Environment → Environment}
    (keeps : ∀ env : Environment, env.Definite → (f env).Definite) :
    (r.modifyEnvironment e f).Definite := by
  refine ⟨h.size, h.same, h.fresh, h.cls, h.prototype, h.globals, fun p => ?_⟩
  rw [environment_modifyEnvironment]
  split
  · exact keeps _ (h.environments e)
  · exact h.environments p

/-- The level at which things are created does not matter. -/
theorem withLevel (h : r.Definite) (level : Nat) : { r with ambiguityLevel := level }.Definite :=
  ⟨h.size, h.same, h.fresh, h.cls, h.prototype, h.globals, h.environments⟩

end Definite

end Realm

/-! ## Machines -/

/-- A completion whose value is harmless, if it has one. -/
def Completion.IsHarmless (c : Completion) : Prop := ∀ v, c.value = some v → v.isHarmless = true

/-- A moment at which nothing is unknown, and nothing may or may not happen. -/
structure Moment.Definite (μ : Moment) : Prop where
  realm : μ.realm.Definite
  contexts : ∀ c ∈ μ.contexts.contexts, c.ambiguity = 0
  exits : μ.exits = #[]

/-- An event outside of ambiguous blocks that shows a harmless completion, if it shows one. -/
def Event.Definite : Event → Prop
  | .enter _ _ depth => depth = 0
  | .leave _ _ depth c => depth = 0 ∧ c.IsHarmless
  | .diagnostic _ => True

namespace Machine

/-- A machine that is definite, and was so at every earlier moment. -/
structure Definite (m : Machine) : Prop where
  now : m.moment.Definite
  before : ∀ μ, m.course μ μ → μ.Definite
  events : ∀ e ∈ m.events, e.Definite
  unknownConditions : m.unknownConditions = #[]
  ambiguousBlocks : m.ambiguousBlocks = #[]
  passed : ∀ r level r', ¬ m.history.passed r level r'

variable {m n : Machine}

/-- What is changed since a definite machine makes another one, if what is there now is definite. -/
theorem Definite.tick (h : m.Definite) (now : n.moment.Definite) (course : n.course = m.course)
    (events : n.events = m.events) (unknownConditions : n.unknownConditions = m.unknownConditions)
    (ambiguousBlocks : n.ambiguousBlocks = m.ambiguousBlocks) (history : n.history = m.history) :
    n.tick.Definite where
  now := now
  before μ := by
    rintro (earlier | ⟨rfl, -⟩)
    · rw [course] at earlier
      exact h.before μ earlier
    · exact now
  events := events ▸ h.events
  unknownConditions := unknownConditions.trans h.unknownConditions
  ambiguousBlocks := ambiguousBlocks.trans h.ambiguousBlocks
  passed := history ▸ h.passed

/-- Other contexts that are in no ambiguous block leave a machine definite. -/
theorem Definite.withContexts (h : m.Definite) {s : ContextStack}
    (plain : ∀ c ∈ s.contexts, c.ambiguity = 0) : (m.withContexts s).Definite := by
  let n : Machine :=
    { m with contexts := s, realm := { m.realm with ambiguityLevel := s.level }, synced := rfl }
  have now : n.moment.Definite := ⟨h.now.realm.withLevel s.level, plain, h.now.exits⟩
  exact h.tick now rfl rfl rfl rfl rfl

/-- Another environment for the look-up of names leaves a machine definite. -/
theorem Definite.setLexicalEnv (h : m.Definite) (e : EnvId) : (m.setLexicalEnv e).Definite := by
  have plain : ∀ c ∈ (m.contexts.setLexicalEnv e).contexts, c.ambiguity = 0 := by
    have contexts : ∀ c ∈ m.contexts.contexts, c.ambiguity = 0 := h.now.contexts
    rw [ContextStack.setLexicalEnv, ContextStack.modifyRunning]
    split
    · exact contexts
    next c rest same =>
      rw [same] at contexts
      obtain ⟨first, others⟩ := List.forall_mem_cons.1 contexts
      exact List.forall_mem_cons.2 ⟨first, others⟩
  exact h.tick ⟨h.now.realm, plain, h.now.exits⟩ rfl rfl rfl rfl rfl

/-- What is only recorded leaves a definite machine definite if the shown completions are. -/
theorem Definite.record (h : m.Definite) (now : n.moment = m.moment) (course : n.course = m.course)
    (unknownConditions : n.unknownConditions = m.unknownConditions)
    (ambiguousBlocks : n.ambiguousBlocks = m.ambiguousBlocks)
    (passed : n.history.passed = m.history.passed) (events : ∀ e ∈ n.events, e.Definite) :
    n.Definite where
  now := now ▸ h.now
  before := course ▸ h.before
  events := events
  unknownConditions := unknownConditions.trans h.unknownConditions
  ambiguousBlocks := ambiguousBlocks.trans h.ambiguousBlocks
  passed := passed ▸ h.passed

/-- In a definite machine no write may or may not happen. -/
theorem Definite.level_eq_zero (h : m.Definite) : m.level = 0 := by
  have sum (cs : List Context) (zero : ∀ c ∈ cs, c.ambiguity = 0) :
      cs.foldr (fun c level => c.ambiguity + level) 0 = 0 := by
    induction cs with
    | nil => rfl
    | cons c cs ih =>
      rw [List.foldr_cons, zero c List.mem_cons_self,
        ih fun d hd => zero d (List.mem_cons_of_mem c hd)]
  exact sum _ h.now.contexts

/-- A definite machine is in no ambiguous block. -/
theorem Definite.depth_eq_zero (h : m.Definite) : m.contexts.depth = 0 := by
  rw [ContextStack.depth, ContextStack.running?]
  cases contexts : m.contexts.contexts with
  | nil => rfl
  | cons c rest =>
    have zero : c.ambiguity = 0 := h.now.contexts c (contexts ▸ List.mem_cons_self)
    rw [Context.ambiguity] at zero
    show c.depth = 0
    omega

/-- In a definite machine no context is ambiguous. -/
theorem Definite.isAmbiguous (h : m.Definite) : m.contexts.isAmbiguous = false := by
  rw [ContextStack.isAmbiguous, h.depth_eq_zero]
  rfl

/-- In a definite machine no context may have returned. -/
theorem Definite.returnUnknown (h : m.Definite) : m.returnUnknown = false := by
  rw [Machine.returnUnknown, ContextStack.running?]
  cases contexts : m.contexts.contexts with
  | nil => rfl
  | cons c rest =>
    have zero : c.ambiguity = 0 := h.now.contexts c (contexts ▸ List.mem_cons_self)
    rw [Context.ambiguity] at zero
    show c.returnUnknown = false
    cases returned : c.returnUnknown with
    | false => rfl
    | true =>
      rw [returned, if_pos rfl] at zero
      omega

/-- In a definite machine every write is certain. -/
theorem Definite.isAmbiguousWrite (h : m.Definite) (level : Nat) :
    m.isAmbiguousWrite level = false := by
  rw [Machine.isAmbiguousWrite, h.level_eq_zero]
  exact decide_eq_false (Nat.not_lt_zero level)

end Machine

end AbstractScript
