import AbstractScript.Proofs.PossibleAssignment

/-!
# The definition of an own property

`[[DefineOwnProperty]]` of ECMAScript 5 works on property descriptors any field of which may be
absent. `Fields` are such descriptors; `Standard.rejects` and `Standard.result` follow the steps of
the standard. A definition gives those fields of its descriptor that it is said to give. All of them
are there if it was put together field by field and does not mix those of data with those of
accessors (`Definition.isShaped_of_built`). It is accepted exactly when the standard accepts it, and
makes of the property what the standard makes of it (`Op.defineOrdinary_standard`).
-/
namespace AbstractScript

/-! ## Descriptors with absent fields -/

/-- A property descriptor in the sense of the standard. -/
structure Fields where
  value : Option Value
  writable : Option Bool
  getter : Option (Option ObjectId)
  setter : Option (Option ObjectId)
  enumerable : Option Bool
  configurable : Option Bool

namespace Fields

/-- True if it is a data descriptor. -/
def isData (f : Fields) : Bool := f.value.isSome || f.writable.isSome

/-- True if it is an accessor descriptor. -/
def isAccessor (f : Fields) : Bool := f.getter.isSome || f.setter.isSome

/-- True if it is neither. -/
def isGeneric (f : Fields) : Bool := !f.isData && !f.isAccessor

/-- True if every field is absent. -/
def isAbsent (f : Fields) : Bool :=
  f.isGeneric && f.enumerable.isNone && f.configurable.isNone

/-- True if every field that is given is also there, with the same value. -/
def agrees (given there : Fields) : Bool :=
  given.value.all (fun v => there.value.any (v.same ·)) &&
  given.writable.all (there.writable == some ·) && given.getter.all (there.getter == some ·) &&
  given.setter.all (there.setter == some ·) && given.enumerable.all (there.enumerable == some ·) &&
  given.configurable.all (there.configurable == some ·)

/-- The fields that are given, and for the others those of a base. -/
def withBase (given base : Fields) : Fields where
  value := given.value <|> base.value
  writable := given.writable <|> base.writable
  getter := given.getter <|> base.getter
  setter := given.setter <|> base.setter
  enumerable := given.enumerable <|> base.enumerable
  configurable := given.configurable <|> base.configurable

end Fields

/-- All fields of a property. -/
def Descriptor.fields : Descriptor → Fields
  | data v w e c => ⟨some v, some w, none, none, some e, some c⟩
  | accessor g s e c => ⟨none, none, some g, some s, some e, some c⟩

/-- The fields that a definition gives. -/
def Definition.fields (d : Definition) : Fields :=
  let all := d.descriptor.fields
  { value := if d.hasValue then all.value else none
    writable := if d.hasWritable then all.writable else none
    getter := if d.hasGetter then all.getter else none
    setter := if d.hasSetter then all.setter else none
    enumerable := if d.hasEnumerable then all.enumerable else none
    configurable := if d.hasConfigurable then all.configurable else none }

/-! ## The standard -/

namespace Standard

/-- The default values of the fields of a data property or of an accessor property. -/
def defaults (data : Bool) : Fields :=
  if data then ⟨some .undefined, some false, none, none, some false, some false⟩
  else ⟨none, none, some none, some none, some false, some false⟩

/-- A property that becomes an accessor property, or a data property if it is one: its flags stay,
and the rest is as by default. -/
def converted (current : Descriptor) : Fields :=
  { defaults (!current.isData) with
    enumerable := some current.isEnumerable
    configurable := some current.isConfigurable }

/-- True if the contents of a property of the same kind may not be replaced by those given. -/
def keepsContents (current : Descriptor) (given : Fields) : Bool :=
  match current with
  | .data v w _ c =>
    !c && !w && (given.writable == some true || given.value.any (!·.same v))
  | .accessor g s _ c => !c && (given.getter.any (· != g) || given.setter.any (· != s))

/-- True if the flags of a property may not be replaced by those given. -/
def keepsFlags (current : Descriptor) (given : Fields) : Bool :=
  !current.isConfigurable &&
    (given.configurable == some true || given.enumerable == some !current.isEnumerable)

/-- True if the definition of a property is rejected. -/
def rejects (extensible : Bool) (current : Option Descriptor) (given : Fields) : Bool :=
  match current with
  | none => !extensible
  | some current =>
    if given.isAbsent || given.agrees current.fields then false
    else if keepsFlags current given then true
    else if given.isGeneric then false
    else if current.isData != given.isData then !current.isConfigurable
    else keepsContents current given

/-- The property after a definition that is not rejected. -/
def result (current : Option Descriptor) (given : Fields) : Fields :=
  match current with
  | none => given.withBase (defaults (!given.isAccessor))
  | some current =>
    if given.isGeneric || current.isData == given.isData then given.withBase current.fields
    else given.withBase (converted current)

end Standard

/-! ## Definitions with the fields that they give -/

namespace Definition

/-- A definition as it is put together: from nothing or from a whole property, field by field. -/
inductive Built : Definition → Prop
  | empty : Built empty
  | ofDescriptor (p : Descriptor) : Built (ofDescriptor p)
  | withValue {d : Definition} (v : Value) : Built d → Built (d.withValue v)
  | withWritable {d : Definition} (w : Bool) : Built d → Built (d.withWritable w)
  | withGetter {d : Definition} (g : Option ObjectId) : Built d → Built (d.withGetter g)
  | withSetter {d : Definition} (s : Option ObjectId) : Built d → Built (d.withSetter s)
  | withEnumerable {d : Definition} (e : Bool) : Built d → Built (d.withEnumerable e)
  | withConfigurable {d : Definition} (c : Bool) : Built d → Built (d.withConfigurable c)

/-- The fields that are given are fields of the descriptor. -/
structure IsShaped (d : Definition) : Prop where
  data : d.isData = true → d.descriptor.isData = true
  accessor : d.isAccessor = true → d.descriptor.isData = false

/-- What gives a field of data is a definition of data, and mixed if functions are given as well. -/
theorem isShaped_of_data {d : Definition} (data : d.isData = true)
    (kind : d.descriptor.isData = true) : (d.isData && d.isAccessor) = true ∨ d.IsShaped := by
  cases accessor : d.isAccessor with
  | true => exact .inl (by rw [data]; rfl)
  | false =>
    exact .inr ⟨fun _ => kind, fun given =>
      absurd (accessor.symm.trans given) Bool.false_ne_true⟩

/-- What gives a function is a definition of an accessor, and mixed if data is given as well. -/
theorem isShaped_of_accessor {d : Definition} (accessor : d.isAccessor = true)
    (kind : d.descriptor.isData = false) : (d.isData && d.isAccessor) = true ∨ d.IsShaped := by
  cases data : d.isData with
  | true => exact .inl accessor
  | false =>
    exact .inr ⟨fun given => absurd (data.symm.trans given) Bool.false_ne_true, fun _ => kind⟩

/-- Flags are fields of both kinds. -/
theorem isShaped_of_flags {d d' : Definition} (data : d'.isData = d.isData)
    (accessor : d'.isAccessor = d.isAccessor) (kind : d'.descriptor.isData = d.descriptor.isData)
    (h : (d.isData && d.isAccessor) = true ∨ d.IsShaped) :
    (d'.isData && d'.isAccessor) = true ∨ d'.IsShaped := by
  refine h.imp (fun mixed => by rw [data, accessor, mixed]) fun shaped => ⟨fun given => ?_, fun given => ?_⟩
  · exact kind.trans (shaped.data (data ▸ given))
  · exact kind.trans (shaped.accessor (accessor ▸ given))

/-- What is put together without mixing the two kinds gives fields that it has. -/
theorem isShaped_of_built {d : Definition} (built : d.Built)
    (pure : (d.isData && d.isAccessor) = false) : d.IsShaped := by
  -- what is built has contents of both kinds, or is shaped
  have shaped : (d.isData && d.isAccessor) = true ∨ d.IsShaped := by
    clear pure
    induction built with
    | empty => exact .inr ⟨nofun, nofun⟩
    | ofDescriptor p =>
      cases p with
      | data => exact isShaped_of_data rfl rfl
      | accessor => exact isShaped_of_accessor rfl rfl
    | @withValue d v => exact isShaped_of_data (by simp [withValue, isData]) (by
        cases is : d.descriptor <;> simp [withValue, is, Descriptor.asData, Descriptor.blankData,
          Descriptor.setValue, Descriptor.isData])
    | @withWritable d w => exact isShaped_of_data (by simp [withWritable, isData]) (by
        cases is : d.descriptor <;> simp [withWritable, is, Descriptor.asData, Descriptor.blankData,
          Descriptor.setWritable, Descriptor.isData])
    | @withGetter d g => exact isShaped_of_accessor (by simp [withGetter, isAccessor]) (by
        cases is : d.descriptor <;> simp [withGetter, is, Descriptor.asAccessor,
          Descriptor.blankAccessor, Descriptor.setGetter, Descriptor.isData])
    | @withSetter d f => exact isShaped_of_accessor (by simp [withSetter, isAccessor]) (by
        cases is : d.descriptor <;> simp [withSetter, is, Descriptor.asAccessor,
          Descriptor.blankAccessor, Descriptor.setSetter, Descriptor.isData])
    | @withEnumerable d e _ ih =>
      refine isShaped_of_flags (d := d) rfl rfl ?_ ih
      cases is : d.descriptor <;> simp [withEnumerable, is, Descriptor.withEnumerable, Descriptor.isData]
    | @withConfigurable d c _ ih =>
      refine isShaped_of_flags (d := d) rfl rfl ?_ ih
      cases is : d.descriptor <;>
        simp [withConfigurable, is, Descriptor.withConfigurable, Descriptor.isData]
  exact shaped.resolve_left (by simp [pure])

/-! ## The fields of a definition -/

theorem configurable_fields (d : Definition) :
    d.fields.configurable =
      if d.hasConfigurable then some d.descriptor.isConfigurable else none := by
  unfold fields
  cases d.descriptor <;> rfl

theorem enumerable_fields (d : Definition) :
    d.fields.enumerable = if d.hasEnumerable then some d.descriptor.isEnumerable else none := by
  unfold fields
  cases d.descriptor <;> rfl

namespace IsShaped

variable {d : Definition} (shaped : d.IsShaped)

include shaped

/-- A definition that has a value gives no functions. -/
theorem isAccessor_eq_false (kind : d.descriptor.isData = true) : d.isAccessor = false :=
  Bool.eq_false_iff.2 fun accessor => Bool.noConfusion (kind.symm.trans (shaped.accessor accessor))

/-- A definition that has functions gives no data. -/
theorem isData_eq_false (kind : d.descriptor.isData = false) : d.isData = false :=
  Bool.eq_false_iff.2 fun data => Bool.noConfusion ((shaped.data data).symm.trans kind)

theorem isData_fields : d.fields.isData = d.isData := by
  cases is : d.descriptor with
  | data v w e c =>
    cases value : d.hasValue <;> cases writable : d.hasWritable <;>
      simp [fields, Fields.isData, isData, Descriptor.fields, is, value, writable]
  | accessor g f e c =>
    rw [shaped.isData_eq_false (by rw [is]; rfl)]
    simp [fields, Fields.isData, Descriptor.fields, is]

theorem isAccessor_fields : d.fields.isAccessor = d.isAccessor := by
  cases is : d.descriptor with
  | data v w e c =>
    rw [shaped.isAccessor_eq_false (by rw [is]; rfl)]
    simp [fields, Fields.isAccessor, Descriptor.fields, is]
  | accessor g f e c =>
    cases getter : d.hasGetter <;> cases setter : d.hasSetter <;>
      simp [fields, Fields.isAccessor, isAccessor, Descriptor.fields, is, getter, setter]

theorem isGeneric_fields : d.fields.isGeneric = d.isGeneric := by
  rw [Fields.isGeneric, shaped.isData_fields, shaped.isAccessor_fields, isGeneric]

/-- A new property has the fields that are given, and the others by default. -/
theorem fields_complete :
    d.complete.fields = d.fields.withBase (Standard.defaults (!d.fields.isAccessor)) := by
  rw [shaped.isAccessor_fields]
  obtain ⟨value, writable, getter, setter, enumerable, configurable, descriptor⟩ := d
  cases descriptor with
  | data v w e c =>
    have none := shaped.isAccessor_eq_false rfl
    simp only [isAccessor, Bool.or_eq_false_iff] at none
    obtain ⟨rfl, rfl⟩ := none
    cases value <;> cases writable <;> cases enumerable <;> cases configurable <;> rfl
  | accessor g f e c =>
    have none := shaped.isData_eq_false rfl
    simp only [isData, Bool.or_eq_false_iff] at none
    obtain ⟨rfl, rfl⟩ := none
    cases getter <;> cases setter <;> cases enumerable <;> cases configurable <;> rfl

/-- A property of the same kind has the fields that are given, and keeps the others. -/
theorem fields_mergeInto {base : Descriptor} (kind : d.isGeneric = true ∨ base.isData = d.isData) :
    (d.mergeInto base).fields = d.fields.withBase base.fields := by
  obtain ⟨value, writable, getter, setter, enumerable, configurable, descriptor⟩ := d
  cases descriptor with
  | data v w e c =>
    have none := shaped.isAccessor_eq_false rfl
    simp only [isAccessor, Bool.or_eq_false_iff] at none
    obtain ⟨rfl, rfl⟩ := none
    cases base with
    | data =>
      cases value <;> cases writable <;> cases enumerable <;> cases configurable <;> rfl
    | accessor =>
      -- What is not generic here gives a value or its flag, and the property has none.
      have none : (value || writable) = false := by
        simpa [isGeneric, isData, isAccessor, Descriptor.isData, ← Bool.or_eq_false_iff] using kind
      obtain ⟨rfl, rfl⟩ := Bool.or_eq_false_iff.1 none
      cases enumerable <;> cases configurable <;> rfl
  | accessor g f e c =>
    have none := shaped.isData_eq_false rfl
    simp only [isData, Bool.or_eq_false_iff] at none
    obtain ⟨rfl, rfl⟩ := none
    cases base with
    | data =>
      have none : (getter || setter) = false := by
        simpa [isGeneric, isData, isAccessor, Descriptor.isData, ← Bool.or_eq_false_iff] using kind
      obtain ⟨rfl, rfl⟩ := Bool.or_eq_false_iff.1 none
      cases enumerable <;> cases configurable <;> rfl
    | accessor =>
      cases getter <;> cases setter <;> cases enumerable <;> cases configurable <;> rfl

end IsShaped

/-! ## The checks -/

variable {d : Definition} {current p : Descriptor} {r : Rejection}

theorem checkFlags_eq_ok_iff :
    d.checkFlags current = .ok () ↔ Standard.keepsFlags current d.fields = false := by
  unfold checkFlags Standard.keepsFlags
  rw [configurable_fields, enumerable_fields]
  cases current.isConfigurable <;> cases d.hasConfigurable <;> cases d.hasEnumerable <;>
    cases d.descriptor.isConfigurable <;> cases d.descriptor.isEnumerable <;>
    cases current.isEnumerable <;> simp

theorem checkContents_eq_ok_iff (kind : current.isData = d.descriptor.isData) :
    d.checkContents current = .ok () ↔ Standard.keepsContents current d.fields = false := by
  obtain ⟨value, writable, getter, setter, enumerable, configurable, descriptor⟩ := d
  cases current with
  | data v w e c =>
    cases descriptor with
    | accessor => cases kind
    | data v' w' e' c' =>
      cases w <;> cases c <;> cases value <;> cases writable <;> cases w' <;>
        simp [checkContents, Standard.keepsContents, fields, Descriptor.fields]
  | accessor g f e c =>
    cases descriptor with
    | data => cases kind
    | accessor g' f' e' c' =>
      by_cases g' = g <;> by_cases f' = f <;> cases c <;> cases getter <;> cases setter <;>
        simp [checkContents, Standard.keepsContents, fields, Descriptor.fields, *]

end Definition

namespace Fields

variable {given : Fields} {current : Descriptor}

theorem isGeneric_of_isAbsent (h : given.isAbsent = true) : given.isGeneric = true := by
  simp only [isAbsent, Bool.and_eq_true] at h
  exact h.1.1

/-- Flags that are not given are kept. -/
theorem keepsFlags_of_isAbsent (h : given.isAbsent = true) :
    Standard.keepsFlags current given = false := by
  simp only [isAbsent, Bool.and_eq_true, Option.isNone_iff_eq_none] at h
  simp [Standard.keepsFlags, h.1.2, h.2]

/-- What agrees with a property has the flags that the property has. -/
theorem keepsFlags_of_agrees (h : given.agrees current.fields = true) :
    Standard.keepsFlags current given = false := by
  simp only [agrees, Bool.and_eq_true] at h
  obtain ⟨⟨-, enumerable⟩, configurable⟩ := h
  obtain ⟨value, writable, getter, setter, e, c⟩ := given
  cases current <;> cases e <;> cases c <;>
    simp_all [Standard.keepsFlags, Descriptor.fields, Descriptor.isConfigurable,
      Descriptor.isEnumerable]

/-- What agrees with a property and is not generic is of the same kind. -/
theorem isData_of_agrees (h : given.agrees current.fields = true) (h' : given.isGeneric = false) :
    current.isData = given.isData := by
  simp only [agrees, Bool.and_eq_true] at h
  obtain ⟨value, writable, getter, setter, e, c⟩ := given
  cases current <;> cases value <;> cases writable <;> cases getter <;> cases setter <;>
    simp_all [Descriptor.fields, Descriptor.isData, isData, isAccessor, isGeneric]

theorem keepsContents_of_agrees (h : given.agrees current.fields = true) :
    Standard.keepsContents current given = false := by
  simp only [agrees, Bool.and_eq_true] at h
  obtain ⟨value, writable, getter, setter, e, c⟩ := given
  cases current <;> cases value <;> cases writable <;> cases getter <;> cases setter <;>
    simp_all [Descriptor.fields, Standard.keepsContents]

end Fields

namespace Standard

/-- What gives nothing, or nothing new, passes the other checks as well. -/
theorem rejects_some (extensible : Bool) (current : Descriptor) (given : Fields) :
    rejects extensible (some current) given =
      (keepsFlags current given || (!given.isGeneric &&
        (if current.isData != given.isData then !current.isConfigurable
        else keepsContents current given))) := by
  simp only [rejects]
  split
  next early =>
    rw [Bool.or_eq_true] at early
    rcases early with absent | agrees
    · rw [Fields.keepsFlags_of_isAbsent absent, Fields.isGeneric_of_isAbsent absent]
      rfl
    · rw [Fields.keepsFlags_of_agrees agrees, Fields.keepsContents_of_agrees agrees]
      cases generic : given.isGeneric with
      | true => rfl
      | false => simp [Fields.isData_of_agrees agrees generic]
  next => cases keepsFlags current given <;> cases given.isGeneric <;> simp

end Standard

/-! ## Definitions -/

namespace Definition

variable {d : Definition}

theorem fields_of_isEmpty (h : d.isEmpty = true) :
    d.fields = ⟨none, none, none, none, none, none⟩ := by
  simp only [isEmpty, Bool.and_eq_true, Bool.not_eq_true'] at h
  simp [fields, h]

theorem fields_converted (current : Descriptor) :
    (if current.isData then current.blankAccessor else current.blankData).fields =
      Standard.converted current := by
  cases current <;> rfl

theorem isData_converted (current : Descriptor) :
    (if current.isData then current.blankAccessor else current.blankData).isData =
      !current.isData := by
  cases current <;> rfl

/-- The checks in their order. -/
theorem apply_eq (d : Definition) (current : Descriptor) :
    d.apply current =
      if d.isEmpty then .ok current
      else match d.checkFlags current with
      | .error rejection => .error rejection
      | .ok () =>
        if d.isGeneric then .ok (d.mergeInto current)
        else if current.isData = d.isData then
          match d.checkContents current with
          | .error rejection => .error rejection
          | .ok () => .ok (d.mergeInto current)
        else if current.isConfigurable then
          .ok (d.mergeInto (if current.isData then current.blankAccessor else current.blankData))
        else .error .notConfigurable := by
  unfold apply
  cases d.checkFlags current with
  | error => rfl
  | ok =>
    cases d.isGeneric with
    | true => rfl
    | false =>
      cases d.checkContents current <;> cases current.isData <;> cases d.isData <;>
        cases current.isConfigurable <;> rfl

/-- What is not generic and is of the kind of a property has the fields of that kind. -/
theorem IsShaped.isData_descriptor (shaped : d.IsShaped) (generic : d.isGeneric = false) :
    d.descriptor.isData = d.isData := by
  cases data : d.isData with
  | true => exact shaped.data data
  | false => exact shaped.accessor (by simpa [isGeneric, data] using generic)

/-- A definition of an existing property is accepted exactly when the standard accepts it, and makes
of the property what the standard makes of it. -/
theorem IsShaped.apply_standard (shaped : d.IsShaped) (extensible : Bool) (current : Descriptor) :
    match d.apply current with
    | .ok p => Standard.rejects extensible (some current) d.fields = false ∧
        p.fields = Standard.result (some current) d.fields
    | .error _ => Standard.rejects extensible (some current) d.fields = true := by
  rw [Standard.rejects_some, apply_eq]
  by_cases empty : d.isEmpty = true
  · rw [if_pos empty, fields_of_isEmpty empty]
    refine ⟨?_, ?_⟩
    · simp [Standard.keepsFlags, Fields.isGeneric, Fields.isData, Fields.isAccessor]
    · cases current <;> rfl
  simp only [if_neg empty, Standard.result, shaped.isGeneric_fields, shaped.isData_fields]
  cases flags : d.checkFlags current with
  | error rejection =>
    -- the flags are what the standard rejects
    have kept : Standard.keepsFlags current d.fields = true := by
      rw [← Bool.not_eq_false, ← checkFlags_eq_ok_iff, flags]
      exact fun same => nomatch same
    rw [kept]
    rfl
  | ok =>
    rw [checkFlags_eq_ok_iff.1 flags]
    cases generic : d.isGeneric with
    | true => exact ⟨rfl, shaped.fields_mergeInto (.inl generic)⟩
    | false =>
      by_cases kind : current.isData = d.isData
      · have ofContents := checkContents_eq_ok_iff (kind.trans (shaped.isData_descriptor generic).symm)
        cases checked : d.checkContents current with
        | error rejection =>
          -- the contents are what the standard rejects
          have kept : Standard.keepsContents current d.fields = true := by
            rw [← Bool.not_eq_false, ← ofContents, checked]
            exact fun same => nomatch same
          simp [kind, kept]
        | ok => simp [kind, ofContents.1 checked, shaped.fields_mergeInto (.inr kind)]
      -- a property of the other kind is converted first, which only a configurable one can be
      · have converted := shaped.fields_mergeInto (.inr ((isData_converted current).trans
          (Bool.not_eq.2 kind)))
        rw [fields_converted] at converted
        cases configurable : current.isConfigurable with
        | true => simp [kind, converted]
        | false => simp [kind]

end Definition

/-! ## Objects -/

namespace ObjectRecord

/-- What the definition of a property leaves of an object: the property has the fields that are
asked for, a new one comes last, and everything else is as before. -/
structure Redefined (r : ObjectRecord) (name : String) (fields : Fields) (r' : ObjectRecord) :
    Prop where
  own : ∃ p, r'.own? name = some p ∧ p.fields = fields
  others : ∀ other, other ≠ name → r'.own? other = r.own? other
  keys : r'.keys = if name ∈ r.keys then r.keys else r.keys ++ [name]
  nodup : r'.keys.Nodup
  inStep : ∀ key, key ∈ r'.keys ↔ (r'.own? key).isSome = true
  rest : r' = { r with properties := r'.properties }

theorem redefined_store (r : ObjectRecord) (name : String) (p : Descriptor) :
    r.Redefined name p.fields (r.store name p) where
  own := ⟨p, by simp, rfl⟩
  others other ne := by simp [ne]
  keys := r.keys_store name p
  nodup := nodup_keys _
  inStep key := by
    rw [← Option.ne_none_iff_isSome, ne_eq, own?_eq_none_iff, Classical.not_not]
  rest := rfl

/-- An object admits a definition exactly when the standard does. -/
theorem accept_standard {d : Definition} (shaped : d.IsShaped) (r : ObjectRecord) (name : String) :
    match r.accept name d with
    | .ok p => Standard.rejects r.extensible (r.own? name) d.fields = false ∧
        p.fields = Standard.result (r.own? name) d.fields
    | .error _ => Standard.rejects r.extensible (r.own? name) d.fields = true := by
  unfold accept
  cases r.own? name with
  | some current => exact shaped.apply_standard r.extensible current
  | none =>
    cases extensible : r.extensible with
    | true => exact ⟨rfl, shaped.fields_complete⟩
    | false => rfl

end ObjectRecord

namespace Op

/-- The definition of an own property is that of the standard. What the standard rejects leaves
everything as it is, and the answer is no or a TypeError. What it accepts makes of the property what
the standard makes of it, and leaves the rest of the object and the other objects. -/
theorem defineOrdinary_standard {d : Definition} (shaped : d.IsShaped) {m : Machine} {o : ObjectId}
    (there : o.index < m.realm.objects.size) (name : String) (strict : Bool) (s : Setup) :
    if Standard.rejects (m.realm.object o).extensible ((m.realm.object o).own? name) d.fields then
      if strict then
        ∃ reason, defineOrdinary o name d strict s m =
          .error (.typeError ("Cannot redefine property: " ++ name ++ " (" ++ reason ++ ")")) m
      else defineOrdinary o name d strict s m = .ok false m
    else
      ∃ n, defineOrdinary o name d strict s m = .ok true n ∧
        (m.realm.object o).Redefined name (Standard.result ((m.realm.object o).own? name) d.fields)
          (n.realm.object o) ∧
        ∀ other, other ≠ o → n.realm.object other = m.realm.object other := by
  have standard := ObjectRecord.accept_standard shaped (m.realm.object o) name
  rw [defineOrdinary_apply]
  cases accepted : (m.realm.object o).accept name d with
  | error rejection =>
    rw [accepted] at standard
    rw [if_pos standard]
    cases strict with
    | true => exact ⟨rejection.reason, rfl⟩
    | false => rfl
  | ok p =>
    rw [accepted] at standard
    obtain ⟨admitted, fields⟩ := standard
    rw [if_neg (Bool.not_eq_true _ ▸ admitted)]
    refine ⟨_, rfl, ?_, fun other ne => ?_⟩
    · rw [object_modifyObject there, ← fields]
      exact ObjectRecord.redefined_store ..
    · rw [Machine.modifyObject, Realm.object_modifyObject, if_neg fun same => ne same.1]

/-- A new property of a plain object that is to be listed. Its other flags are off by default. -/
theorem defineOrdinary_standard_listed :
    ∃ n, defineOrdinary Realm.initial.nextObject "x"
        ((Definition.empty.withValue .null).withEnumerable true) true ⟨{}, .core, "", false⟩
        (withRecord (Realm.plainRecord 0)) = .ok true n ∧
      (Realm.plainRecord 0).Redefined "x" ⟨some .null, some false, none, none, some true, some false⟩
        (n.realm.object Realm.initial.nextObject) := by
  have shaped : ((Definition.empty.withValue .null).withEnumerable true).IsShaped :=
    Definition.isShaped_of_built (.withEnumerable true (.withValue .null .empty)) rfl
  have there :
      Realm.initial.nextObject.index < (withRecord (Realm.plainRecord 0)).realm.objects.size := by
    simp [withRecord, Machine.start, Realm.addObject, Realm.nextObject]
  have record : (withRecord (Realm.plainRecord 0)).realm.object Realm.initial.nextObject =
      Realm.plainRecord 0 := by
    change (Realm.initial.addObject (Realm.plainRecord 0)).object Realm.initial.nextObject = _
    rw [Realm.object_addObject, if_pos rfl]
  generalize withRecord (Realm.plainRecord 0) = m at there record ⊢
  generalize Realm.initial.nextObject = o at there record ⊢
  have standard := defineOrdinary_standard shaped there "x" true ⟨{}, .core, "", false⟩
  rw [record, if_neg (by decide)] at standard
  obtain ⟨n, run, redefined, -⟩ := standard
  exact ⟨n, run, redefined⟩

end Op

end AbstractScript
