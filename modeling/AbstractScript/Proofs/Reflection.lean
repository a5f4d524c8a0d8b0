import AbstractScript.Builtin.Objects
import AbstractScript.Proofs.IntactReferences
import AbstractScript.Proofs.OrdinaryAssignment

/-!
# Descriptions of properties

A program sees a property as an object with one field for each part of its descriptor. The fields are
created as own properties and read through the prototype chain; flags are read as truth values, and
functions only if they can be called. As long as `Object.prototype` has none of the fields, the
description of a property is read as the definition that gives all of it. What is defined by that is
the property itself, so that its description changes nothing (`Builtin.describe_and_define`).
-/
namespace AbstractScript

open Eval Number

/-! ## Properties and their descriptions -/

namespace Op

/-- The names of the fields of a description. -/
def fieldNames : List String := ["value", "writable", "get", "set", "enumerable", "configurable"]

end Op

namespace Descriptor

/-- The functions of the property can be called. -/
def HasFunctions (r : Realm) : Descriptor → Prop
  | data .. => True
  | accessor g f _ _ =>
    (∀ h ∈ g, (r.object h).isCallable = true) ∧ ∀ h ∈ f, (r.object h).isCallable = true

/-- The description of a property that is created at an ambiguity level. -/
def described (level : Nat) : Descriptor → ObjectRecord
  | data v w e c =>
    ((((Realm.plainRecord level).store "value" (.plain v)).store "writable" (.plain (.bool w))).store
      "enumerable" (.plain (.bool e))).store "configurable" (.plain (.bool c))
  | accessor g f e c =>
    ((((Realm.plainRecord level).store "get" (.plain (Op.functionValue g))).store "set"
      (.plain (Op.functionValue f))).store "enumerable" (.plain (.bool e))).store "configurable"
        (.plain (.bool c))

end Descriptor

namespace Realm

/-- `Object.prototype` has no property with the name of a field of a description. -/
def HasNoFields (r : Realm) : Prop :=
  ∀ name ∈ Op.fieldNames, r.hasProperty Intrinsic.objectPrototype.id name = false

@[simp] theorem own?_plainRecord (level : Nat) (name : String) :
    (plainRecord level).own? name = none := rfl

/-- Nothing is older than `Object.prototype`, so that it has no prototype. -/
theorem Intact.prototype_objectPrototype {r : Realm} (intact : r.Intact) :
    (r.object Intrinsic.objectPrototype.id).prototype = none := by
  rw [Option.eq_none_iff_forall_ne_some]
  intro p inherits
  have older := (intact.prototype _ p inherits).2
  exact absurd older (Nat.not_lt_zero _)

end Realm

namespace Op

variable {q : ObjectId} {r : ObjectRecord} {name : String} {s : Setup} {m n : Machine}

/-! ## What describes -/

/-- An object is added, and all others stay as they are. -/
structure Adds (q : ObjectId) (r : ObjectRecord) (m n : Machine) : Prop where
  fresh : q = m.realm.nextObject
  size : n.realm.objects.size = m.realm.objects.size + 1
  others : ∀ p, p ≠ q → n.realm.object p = m.realm.object p
  object : n.realm.object q = r

theorem adds_plain (s : Setup) (m : Machine) : ∃ q n, (createPlain : Op _) s m = .ok q n ∧
    Adds q (Realm.plainRecord m.realm.ambiguityLevel) m n := by
  refine ⟨_, _, rfl, rfl, Array.size_push .., fun p ne => ?_, ?_⟩
  · exact (Realm.object_addObject ..).trans (if_neg ne)
  · exact (Realm.object_addObject ..).trans (if_pos rfl)

/-- An object that is added is in the table. -/
theorem Adds.there (h : Adds q r m n) : q.index < n.realm.objects.size := by
  rw [h.size, h.fresh]
  exact Nat.lt_succ_self _

/-- An object that is in the table before is another one. -/
theorem Adds.ne (h : Adds q r m n) {p : ObjectId} (there : p.index < m.realm.objects.size) :
    p ≠ q := by
  rintro rfl
  rw [h.fresh] at there
  exact Nat.lt_irrefl _ there

variable [Natives]

/-- A field of a description is created. -/
theorem Adds.createData (h : Adds q r m n) (ordinary : r.cls = .object)
    (more : r.extensible = true) (name : String) (absent : r.own? name = none) (v : Value)
    (s : Setup) :
    ∃ k, createData q name v s n = .ok true k ∧ Adds q (r.store name (.plain v)) m k := by
  have accepted : (n.realm.object q).accept name (.plain v) = .ok (.plain v) := by
    rw [h.object, ObjectRecord.accept, absent]
    exact if_pos more
  refine ⟨n.modifyObject q (·.store name (.plain v)), ?_, h.fresh, ?_, fun p ne => ?_, ?_⟩
  · have cls : (n.realm.object q).cls ≠ .array := by
      rw [h.object, ordinary]
      decide
    rw [Op.createData, define_of_ne_array cls, defineOrdinary_apply, accepted]
  · rw [← h.size]
    exact Array.size_modify ..
  · refine .trans ?_ (h.others p ne)
    exact (Realm.object_modifyObject ..).trans (if_neg fun same => ne same.1)
  · rw [object_modifyObject h.there, h.object]

/-- A property is described by a new object. -/
theorem adds_describe (d : Descriptor) (s : Setup) (m : Machine) :
    ∃ q n, describe d s m = .ok q n ∧ Adds q (d.described m.realm.ambiguityLevel) m n := by
  obtain ⟨q, m₀, run₀, h₀⟩ := adds_plain s m
  cases d with
  | data v w e c =>
    obtain ⟨m₁, run₁, h₁⟩ := h₀.createData rfl rfl "value" (by simp) v s
    obtain ⟨m₂, run₂, h₂⟩ := h₁.createData rfl rfl "writable" (by simp) (.bool w) s
    obtain ⟨m₃, run₃, h₃⟩ := h₂.createData rfl rfl "enumerable" (by simp) (.bool e) s
    obtain ⟨m₄, run₄, h₄⟩ := h₃.createData rfl rfl "configurable" (by simp) (.bool c) s
    refine ⟨q, m₄, ?_, h₄⟩
    simp only [describe, describeContents, bind_apply, run₀, run₁, run₂, pure_apply,
      Descriptor.isEnumerable, run₃, Descriptor.isConfigurable, run₄]
  | accessor g f e c =>
    obtain ⟨m₁, run₁, h₁⟩ := h₀.createData rfl rfl "get" (by simp) (functionValue g) s
    obtain ⟨m₂, run₂, h₂⟩ := h₁.createData rfl rfl "set" (by simp) (functionValue f) s
    obtain ⟨m₃, run₃, h₃⟩ := h₂.createData rfl rfl "enumerable" (by simp) (.bool e) s
    obtain ⟨m₄, run₄, h₄⟩ := h₃.createData rfl rfl "configurable" (by simp) (.bool c) s
    refine ⟨q, m₄, ?_, h₄⟩
    simp only [describe, describeContents, bind_apply, run₀, run₁, run₂, pure_apply,
      Descriptor.isEnumerable, run₃, Descriptor.isConfigurable, run₄]

/-! ## What is read of a description -/

omit [Natives] in
/-- A field that a description does not have is not found: its only prototype is `Object.prototype`. -/
theorem Adds.hasProperty_of_absent (h : Adds q r m n) (intact : m.realm.Intact)
    (bare : m.realm.HasNoFields) (field : name ∈ fieldNames)
    (inherits : r.prototype = some Intrinsic.objectPrototype.id) (absent : r.own? name = none) :
    n.realm.hasProperty q name = false := by
  have own : (n.realm.object q).own? name = none := by rw [h.object, absent]
  rw [Realm.hasProperty, Realm.property?_of_absent h.there own, Realm.prototypes, Realm.chain, h.size,
    Realm.chainWithin, List.drop_one, List.tail_cons, h.object, inherits]
  cases size : m.realm.objects.size with
  | zero => rfl
  | succ k =>
    -- the prototype is the last object of the chain
    have old : Intrinsic.objectPrototype.id.index < m.realm.objects.size := by
      rw [size]
      exact Nat.succ_pos k
    have same := h.others _ (h.ne old)
    have last : n.realm.chainWithin k none = [] := by cases k <;> rfl
    have without : (m.realm.object Intrinsic.objectPrototype.id).own? name = none := by
      rw [Option.eq_none_iff_forall_ne_some]
      intro d found
      have none := bare name field
      rw [Realm.hasProperty_of_own found] at none
      cases none
    rw [Realm.chainWithin, same, intact.prototype_objectPrototype, last]
    show (List.findSome? _ [_]).isSome = false
    rw [List.findSome?_singleton, same, without]
    rfl

/-- A flag that is there is read, and any other is left out. -/
theorem readFlag_apply {b : Bool} (give : Bool → Definition → Definition) (d : Definition)
    (own : (n.realm.object q).own? name = some (.plain (.bool b))) :
    readFlag q name give d s n = .ok (some (give b d)) n := by
  have has : (hasProperty q name : Op _) s n = .ok true n := by
    rw [← Realm.hasProperty_of_own own]
    rfl
  simp only [readFlag, bind_apply, has, if_true, get_of_own own, pure_apply]
  rfl

theorem readFlag_of_absent (give : Bool → Definition → Definition) (d : Definition)
    (absent : n.realm.hasProperty q name = false) :
    readFlag q name give d s n = .ok (some d) n := by
  have has : (hasProperty q name : Op _) s n = .ok false n := by
    rw [← absent]
    rfl
  simp only [readFlag, bind_apply, has, Bool.false_eq_true, if_false, pure_apply]

theorem readValue_apply {v : Value} (d : Definition)
    (own : (n.realm.object q).own? "value" = some (.plain v)) :
    readValue q d s n = .ok (d.withValue v) n := by
  have has : (hasProperty q "value" : Op _) s n = .ok true n := by
    rw [← Realm.hasProperty_of_own own]
    rfl
  simp only [readValue, bind_apply, has, if_true, get_of_own own, pure_apply]

theorem readValue_of_absent (d : Definition) (absent : n.realm.hasProperty q "value" = false) :
    readValue q d s n = .ok d n := by
  have has : (hasProperty q "value" : Op _) s n = .ok false n := by
    rw [← absent]
    rfl
  simp only [readValue, bind_apply, has, Bool.false_eq_true, if_false, pure_apply]

omit [Natives] in
/-- A function that can be called is read, and undefined stands for no function. -/
theorem asAccessor?_apply {f : Option ObjectId} (label : String)
    (callable : ∀ h ∈ f, (n.realm.object h).isCallable = true) :
    asAccessor? label (functionValue f) s n = .ok (some f) n := by
  cases f with
  | none => rfl
  | some f =>
    show (if (n.realm.object f).isCallable = true then _ else _ : Op _) s n = _
    rw [if_pos (callable f rfl)]
    rfl

theorem readFunction_apply {f : Option ObjectId} (label : String)
    (give : Option ObjectId → Definition → Definition) (d : Definition)
    (callable : ∀ h ∈ f, (n.realm.object h).isCallable = true)
    (own : (n.realm.object q).own? name = some (.plain (functionValue f))) :
    readFunction q name label give d s n = .ok (some (give f d)) n := by
  have has : (hasProperty q name : Op _) s n = .ok true n := by
    rw [← Realm.hasProperty_of_own own]
    rfl
  simp only [readFunction, bind_apply, has, if_true, get_of_own own, asAccessor?_apply label callable,
    pure_apply]
  rfl

theorem readFunction_of_absent (label : String) (give : Option ObjectId → Definition → Definition)
    (d : Definition) (absent : n.realm.hasProperty q name = false) :
    readFunction q name label give d s n = .ok (some d) n := by
  have has : (hasProperty q name : Op _) s n = .ok false n := by
    rw [← absent]
    rfl
  simp only [readFunction, bind_apply, has, Bool.false_eq_true, if_false, pure_apply]

/-- **The description of a property is read as the definition that gives all of it.** -/
theorem toDefinition?_described {d : Descriptor} {level : Nat} (h : Adds q (d.described level) m n)
    (intact : m.realm.Intact) (bare : m.realm.HasNoFields) (functions : d.HasFunctions m.realm) :
    toDefinition? (.object q) s n = .ok (some (.ofDescriptor d)) n := by
  -- a field is an own property of the description, or it is found nowhere
  have missing (name : String) (field : name ∈ fieldNames)
      (absent : (d.described level).own? name = none) : n.realm.hasProperty q name = false :=
    h.hasProperty_of_absent intact bare field (by cases d <;> rfl) absent
  have own (name : String) (p : Descriptor) (there : (d.described level).own? name = some p) :
      (n.realm.object q).own? name = some p := by rw [h.object, there]
  cases d with
  | data v w e c =>
    have enumerable := readFlag_apply (s := s) .withEnumerable .empty
      (own "enumerable" (.plain (.bool e)) (by simp [Descriptor.described]))
    have configurable (d : Definition) := readFlag_apply (s := s) .withConfigurable d
      (own "configurable" (.plain (.bool c)) (by simp [Descriptor.described]))
    have writable (d : Definition) := readFlag_apply (s := s) .withWritable d
      (own "writable" (.plain (.bool w)) (by simp [Descriptor.described]))
    have value (d : Definition) := readValue_apply (s := s) d
      (own "value" (.plain v) (by simp [Descriptor.described]))
    have getter (d : Definition) := readFunction_of_absent (s := s) "Getter" .withGetter d
      (missing "get" (by decide) (by simp [Descriptor.described]))
    have setter (d : Definition) := readFunction_of_absent (s := s) "Setter" .withSetter d
      (missing "set" (by decide) (by simp [Descriptor.described]))
    simp only [toDefinition?, readDescription, bind_apply, enumerable, configurable, writable, value,
      getter, setter]
    rfl
  | accessor g f e c =>
    -- what could be called still can be
    have old (x : Option ObjectId) (callable : ∀ h ∈ x, (m.realm.object h).isCallable = true) :
        ∀ h ∈ x, (n.realm.object h).isCallable = true := by
      intro p hp
      have there : p.index < m.realm.objects.size := by
        refine Nat.lt_of_not_le fun outside => ?_
        have none := callable p hp
        rw [Realm.object_of_size_le outside] at none
        cases none
      rw [h.others p (h.ne there)]
      exact callable p hp
    have enumerable := readFlag_apply (s := s) .withEnumerable .empty
      (own "enumerable" (.plain (.bool e)) (by simp [Descriptor.described]))
    have configurable (d : Definition) := readFlag_apply (s := s) .withConfigurable d
      (own "configurable" (.plain (.bool c)) (by simp [Descriptor.described]))
    have writable (d : Definition) := readFlag_of_absent (s := s) .withWritable d
      (missing "writable" (by decide) (by simp [Descriptor.described]))
    have value (d : Definition) := readValue_of_absent (s := s) d
      (missing "value" (by decide) (by simp [Descriptor.described]))
    have getter (d : Definition) := readFunction_apply (s := s) "Getter" .withGetter d
      (old g functions.1) (own "get" (.plain (functionValue g)) (by simp [Descriptor.described]))
    have setter (d : Definition) := readFunction_apply (s := s) "Setter" .withSetter d
      (old f functions.2) (own "set" (.plain (functionValue f)) (by simp [Descriptor.described]))
    simp only [toDefinition?, readDescription, bind_apply, enumerable, configurable, writable, value,
      getter, setter]
    rfl

/-! ## What is defined by its own description -/

end Op

/-- What is defined by all of itself stays as it is. -/
theorem Definition.apply_ofDescriptor (d : Descriptor) : (ofDescriptor d).apply d = .ok d := by
  cases d with
  | data v w e c =>
    have same : v.same v = true := Value.same_iff.2 rfl
    have contents : (ofDescriptor (.data v w e c)).checkContents (.data v w e c) = .ok () := by
      cases w <;> cases c <;> simp [checkContents, ofDescriptor, same]
    rw [apply_eq, contents]
    cases c <;> cases e <;> rfl
  | accessor g f e c =>
    have contents : (ofDescriptor (.accessor g f e c)).checkContents (.accessor g f e c) = .ok () := by
      cases c <;> simp [checkContents, ofDescriptor]
    rw [apply_eq, contents]
    cases c <;> cases e <;> rfl

namespace ObjectRecord

/-- The length of an array is unknown or a length. -/
def HasSoundLength (r : ObjectRecord) : Prop :=
  r.cls = .array → ∀ v w e c, r.own? "length" = some (.data v w e c) →
    v = .unknown ∨ ∃ n ≤ maxLength, v = .nat n

end ObjectRecord

/-- A change that does not change the object does not change anything. -/
theorem Machine.realm_modifyObject_of_eq {m : Machine} {o : ObjectId}
    {f : ObjectRecord → ObjectRecord} (same : f (m.realm.object o) = m.realm.object o)
    (other : ObjectId) : (m.modifyObject o f).realm.object other = m.realm.object other := by
  rw [Machine.modifyObject, Realm.object_modifyObject]
  split
  next h => rw [same, h.1]
  next => rfl

namespace Op

variable [Natives] {o : ObjectId} {name : String} {d : Descriptor} {strict : Bool} {s : Setup}
  {m : Machine}

/-- **A property that is defined by all of itself** is accepted, and stored as it is. -/
theorem define_ofDescriptor (fits : (m.realm.object o).IsFitting)
    (sound : (m.realm.object o).HasSoundLength) (own : (m.realm.object o).own? name = some d) :
    define o name (.ofDescriptor d) strict s m = .ok true (m.modifyObject o (·.store name d)) := by
  have accepted : (m.realm.object o).accept name (.ofDescriptor d) = .ok d := by
    rw [ObjectRecord.accept, own]
    exact Definition.apply_ofDescriptor d
  have listed := ObjectRecord.mem_keys_iff.2 ⟨d, own⟩
  by_cases length : name = "length" → (Definition.ofDescriptor d).value? = none
  · exact define_of_isFitting fits listed length accepted
  · -- the value of the length is given once more
    rw [Classical.not_imp] at length
    obtain ⟨rfl, given⟩ := length
    by_cases array : (m.realm.object o).cls = .array
    · have ordinary : defineOrdinary o "length" (.ofDescriptor d) strict s m =
          .ok true (m.modifyObject o (·.store "length" d)) := by
        rw [defineOrdinary_apply, accepted]
      have read : (Eval.object o : Op _) s m = .ok (m.realm.object o) m := rfl
      cases d with
      | accessor g f e c => exact absurd rfl given
      | data v w e c =>
        have value : (Definition.ofDescriptor (.data v w e c)).value? = some v := rfl
        have again : (Definition.ofDescriptor (.data v w e c)).withValue v =
          .ofDescriptor (.data v w e c) := rfl
        rcases sound array v w e c own with rfl | ⟨n, small, rfl⟩
        · have unknown : toNumber? .unknown s m = .ok none m := rfl
          simp only [define, bind_apply, read, array, ne_eq, not_true_eq_false, if_false, if_true,
            defineLength, value, unknown, again, ordinary]
        · have number : toNumber? (.nat n) s m = .ok (some (Float.ofNat n)) m := rfl
          have equal := beq_ofNat (Nat.lt_of_le_of_lt small (by decide))
          have whole := toNat_toUInt32 small equal
          have length : arrayLength? (m.realm.object o) = some (n, w) := by
            rw [arrayLength?, own]
            show some (clampLength (Float.ofNat n), w) = _
            rw [clampLength_ofNat, Nat.min_eq_left small]
          simp only [define, bind_apply, read, array, ne_eq, not_true_eq_false, if_false, if_true,
            defineLength, value, number, whole, bne, equal, Bool.not_true, Bool.false_eq_true,
            again, length, Nat.le_refl, ordinary]
    · rw [define_of_ne_array array, defineOrdinary_apply, accepted]

end Op

namespace Builtin

section

variable [Natives] {m : Machine}

/-- **Descriptions are faithful.** As long as `Object.prototype` has none of the fields of a
description, every property is described by a new object that is read as the definition that gives
exactly what the property has. So a property of an object that is defined by its own description
stays as it is, and so does every object that was there: the definition succeeds whatever the
property is, unless the object is an array with an index that is not below its length. The length of
an array is unknown or an integer below 2 ^ 32, since no other length can be defined. -/
theorem describe_and_define (intact : m.realm.Intact) (bare : m.realm.HasNoFields) (s : Setup) :
    (∀ d : Descriptor, d.HasFunctions m.realm →
      ∃ q n, Op.describe d s m = .ok q n ∧
        (∀ other, other ≠ q → n.realm.object other = m.realm.object other) ∧
        Op.toDefinition? (.object q) s n = .ok (some (.ofDescriptor d)) n) ∧
    ∀ (o : ObjectId) (name : String) (d : Descriptor), o.index < m.realm.objects.size →
      (m.realm.object o).IsFitting → (m.realm.object o).HasSoundLength →
      (m.realm.object o).own? name = some d → d.HasFunctions m.realm →
      ∃ q n k,
        getOwnPropertyDescriptor .undefined [.object o, .string name] s m = .ok (.object q) n ∧
        defineProperty .undefined [.object o, .string name, .object q] s n = .ok (.object o) k ∧
        k.realm.object o = m.realm.object o ∧
        ∀ other, other ≠ q → k.realm.object other = m.realm.object other := by
  constructor
  · intro d functions
    obtain ⟨q, n, run, adds⟩ := Op.adds_describe d s m
    exact ⟨q, n, run, adds.others, Op.toDefinition?_described adds intact bare functions⟩
  · intro o name d there fits sound own functions
    obtain ⟨q, n, run, adds⟩ := Op.adds_describe d s m
    have read := Op.toDefinition?_described (s := s) adds intact bare functions
    -- the description is another object, so that the property is as it was
    have old := adds.others o (adds.ne there)
    rw [← old] at fits sound own
    have defined : Op.define o name (.ofDescriptor d) true s n =
        .ok true (n.modifyObject o (·.store name d)) := Op.define_ofDescriptor fits sound own
    have same (other : ObjectId) :
        (n.modifyObject o (·.store name d)).realm.object other = n.realm.object other :=
      Machine.realm_modifyObject_of_eq (f := (·.store name d)) (ObjectRecord.store_of_own? own) other
    refine ⟨q, n, _, ?_, ?_, (same o).trans old, fun other ne => (same other).trans (adds.others other ne)⟩
    · rw [old] at own
      refine bind_eq_ok_iff.2 ⟨o, m, rfl, bind_eq_ok_iff.2 ⟨some name, m, rfl,
        bind_eq_ok_iff.2 ⟨m.realm.object o, m, rfl, ?_⟩⟩⟩
      rw [own]
      show (Op.describe d >>= fun q => pure (Value.object q)) s m = _
      rw [bind_apply, run]
      rfl
    · exact bind_eq_ok_iff.2 ⟨o, n, rfl, bind_eq_ok_iff.2 ⟨some name, n, rfl,
        bind_eq_ok_iff.2 ⟨some (.ofDescriptor d), n, read, bind_eq_ok_iff.2 ⟨true, _, defined, rfl⟩⟩⟩⟩

end

/-- The length of `Array.prototype` is defined by its own description. -/
theorem describe_and_define_length :
    let m := Machine.start Realm.core
    let o := Intrinsic.arrayPrototype.id
    m.realm.Intact ∧ m.realm.HasNoFields ∧ (m.realm.object o).IsFitting ∧
      ∃ q n k,
        getOwnPropertyDescriptor .undefined [.object o, .string "length"] ⟨{}, .core, "", false⟩ m =
          .ok (.object q) n ∧
        defineProperty .undefined [.object o, .string "length", .object q] ⟨{}, .core, "", false⟩ n =
          .ok (.object o) k ∧
        (k.realm.object o).own? "length" = some (Op.lengthDescriptor 0 true) := by
  intro m o
  have intact : m.realm.Intact := (Machine.sound_start_core.intact
    (L := Analyzer.plain.law Analyzer.calledFunction True) trivial).realm
  have bare : m.realm.HasNoFields := by
    have core : ∀ name ∈ Op.fieldNames,
        Realm.core.hasProperty Intrinsic.objectPrototype.id name = false := by decide +kernel
    intro name field
    have objects : m.realm.objects = Realm.core.objects := rfl
    rw [← core name field, Realm.hasProperty, Realm.hasProperty, Realm.property?_congr objects]
  have there : o.index < m.realm.objects.size := by
    show _ < Realm.core.objects.size
    rw [Realm.size_core]
    decide
  have own : (m.realm.object o).own? "length" = some (Op.lengthDescriptor 0 true) := by
    show (Realm.core.object o).own? "length" = _
    decide +kernel
  have none : (m.realm.object o).keys.filterMap arrayIndex? = [] := by
    show (Realm.core.object o).keys.filterMap arrayIndex? = []
    decide +kernel
  have fits : (m.realm.object o).IsFitting := by
    intro array n w known index small listed
    have := List.mem_filterMap.2 ⟨_, listed, arrayIndex?_eq_some_iff.2 ⟨rfl, small⟩⟩
    rw [none] at this
    cases this
  have sound : (m.realm.object o).HasSoundLength := by
    intro array v w e c own'
    rw [own] at own'
    cases own'
    exact .inr ⟨0, Nat.zero_le _, rfl⟩
  obtain ⟨q, n, k, described, defined, same, -⟩ :=
    (describe_and_define intact bare ⟨{}, .core, "", false⟩).2 o "length" _ there fits sound own trivial
  exact ⟨intact, bare, fits, q, n, k, described, defined, by rw [same, own]⟩

end Builtin

end AbstractScript
