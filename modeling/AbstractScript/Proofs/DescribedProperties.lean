import AbstractScript.Proofs.EnumeratedNames
import AbstractScript.Proofs.Reflection

/-!
# Properties that an object describes

`Object.defineProperties` reads the descriptions of all properties before it defines the first one.
As long as no built-in getter is read, reading changes nothing, so that a description that is not
valid keeps every property from being defined, and so does one with an unknown flag or function.
Otherwise the properties are defined in order up to the first that the standard rejects
(`Builtin.defineProperties_described`). An unknown value keeps nothing from being defined: the
property holds it then (`Builtin.defineProperties_unknownValue`).
-/
namespace AbstractScript

open Eval

/-! ## Descriptions as they are read -/

/-- What reading a property gives. A getter of the program is not run. -/
def Descriptor.reading : Descriptor → Value
  | data v .. => v
  | accessor none .. => .undefined
  | accessor (some _) .. => .unknown

/-- The function that a field of a description gives. -/
def Value.function? : Value → Option ObjectId
  | object f => some f
  | _ => none

namespace Realm

variable (r : Realm)

/-- What reading a property of an object gives, if it is found. -/
def field? (o : ObjectId) (name : String) : Option Value :=
  (r.property? o name).map Descriptor.reading

/-- The fields of a property that an object describes. -/
def described (d : ObjectId) : Fields where
  value := r.field? d "value"
  writable := (r.field? d "writable").bind Value.toBool?
  getter := (r.field? d "get").map Value.function?
  setter := (r.field? d "set").map Value.function?
  enumerable := (r.field? d "enumerable").bind Value.toBool?
  configurable := (r.field? d "configurable").bind Value.toBool?

/-- A field of a description is a function if it is there: it is undefined or can be called. -/
def FunctionFits (d : ObjectId) (name : String) : Prop :=
  ∀ v, r.field? d name = some v → v = .undefined ∨ r.isCallable v = true

/-- The flags that an object describes are known, and so are the functions. -/
structure HasFittingParts (d : ObjectId) : Prop where
  flags : ∀ name ∈ ["enumerable", "configurable", "writable"], r.field? d name ≠ some .unknown
  functions : ∀ name ∈ ["get", "set"], r.FunctionFits d name

/-- An object describes a property: its parts fit, and it does not mix functions with the fields of
data. -/
structure IsDescription (d : ObjectId) : Prop extends r.HasFittingParts d where
  unmixed : (r.described d).isAccessor = false ∨ (r.described d).isData = false

/-- A value describes a property with some fields. -/
def Describes (v : Value) (fields : Fields) : Prop :=
  ∃ d, v = .object d ∧ r.IsDescription d ∧ fields = r.described d

/-- No accessor of an object itself has a built-in getter. -/
def RunsNoNative (o : ObjectId) : Prop :=
  ∀ name g f e c, (r.object o).own? name = some (.accessor (some g) f e c) →
    ¬ (r.object g).IsNative

/-- Reading a property of an object runs no built-in getter. -/
def ReadsSilently (o : ObjectId) : Prop :=
  ∀ name g f e c, r.property? o name = some (.accessor (some g) f e c) → ¬ (r.object g).IsNative

/-- An object that holds descriptions of properties: no accessor of it, of the descriptions and of
what these inherit from has a built-in getter. -/
structure IsPlainBag (bag : ObjectId) : Prop where
  own : r.RunsNoNative bag
  descriptions : ∀ name d w e c, (r.object bag).own? name = some (.data (.object d) w e c) →
    ∀ p ∈ r.chain d, r.RunsNoNative p

end Realm

/-- The definition that gives some fields. -/
def Fields.definition (f : Fields) : Definition :=
  let d := f.enumerable.elim Definition.empty fun e => Definition.empty.withEnumerable e
  let d := f.configurable.elim d fun c => d.withConfigurable c
  let d := f.writable.elim d fun w => d.withWritable w
  let d := f.value.elim d fun v => d.withValue v
  let d := f.getter.elim d fun g => d.withGetter g
  f.setter.elim d fun s => d.withSetter s

namespace Fields

variable (f : Fields)

/-- Fields make a definition that is built field by field. -/
theorem built_definition : f.definition.Built := by
  obtain ⟨v, w, g, s, e, c⟩ := f
  cases v <;> cases w <;> cases g <;> cases s <;> cases e <;> cases c <;>
    repeat constructor

/-- The definition is one of data if the fields are. -/
theorem isData_definition : f.definition.isData = f.isData := by
  obtain ⟨v, w, g, s, e, c⟩ := f
  cases v <;> cases w <;> cases g <;> cases s <;> cases e <;> cases c <;> rfl

/-- The definition is one of an accessor if the fields are. -/
theorem isAccessor_definition : f.definition.isAccessor = f.isAccessor := by
  obtain ⟨v, w, g, s, e, c⟩ := f
  cases v <;> cases w <;> cases g <;> cases s <;> cases e <;> cases c <;> rfl

variable {f}

/-- The definition gives the fields that are asked for, if they go together. -/
theorem fields_definition (unmixed : f.isAccessor = false ∨ f.isData = false) :
    f.definition.fields = f := by
  obtain ⟨v, w, g, s, e, c⟩ := f
  rcases unmixed with none | none
  · rw [isAccessor, Bool.or_eq_false_iff] at none
    obtain ⟨rfl, rfl⟩ : g = Option.none ∧ s = Option.none := by simpa using none
    cases v <;> cases w <;> cases e <;> cases c <;> rfl
  · rw [isData, Bool.or_eq_false_iff] at none
    obtain ⟨rfl, rfl⟩ : v = Option.none ∧ w = Option.none := by simpa using none
    cases g <;> cases s <;> cases e <;> cases c <;> rfl

/-- The definition has a shape if its fields go together. -/
theorem isShaped_definition (unmixed : f.isAccessor = false ∨ f.isData = false) :
    f.definition.IsShaped := by
  refine Definition.isShaped_of_built f.built_definition ?_
  rw [f.isData_definition, f.isAccessor_definition]
  rcases unmixed with none | none
  · rw [none, Bool.and_false]
  · rw [none, Bool.false_and]

end Fields

/-! ## Reading -/

namespace Realm

variable {r : Realm} {o : ObjectId}

/-- An own property gives what reading it gives. -/
theorem field?_of_own {name : String} {d : Descriptor} (own : (r.object o).own? name = some d) :
    r.field? o name = some d.reading := by
  rw [field?, property?_of_own own, Option.map_some]

/-- A property is there if reading it gives something. -/
theorem hasProperty_eq_isSome (name : String) :
    r.hasProperty o name = (r.field? o name).isSome := by
  rw [hasProperty, field?, Option.isSome_map]

/-- Without built-in getters along the chain no property runs one when it is read. -/
theorem readsSilently_of_chain (plain : ∀ p ∈ r.chain o, r.RunsNoNative p) : r.ReadsSilently o := by
  intro name g f e c found
  obtain ⟨p, hp, own⟩ := List.exists_of_findSome?_eq_some found
  exact plain p hp name g f e c own

end Realm

namespace Op

variable {s : Setup} {m : Machine} {o : ObjectId}

/-- Reading a property that is found by a getter of the program, or by none. On whose behalf it is
read makes no difference. -/
theorem getFor_of_property [Natives] {name : String}
    (silent : ∀ g f e c, m.realm.property? o name = some (.accessor (some g) f e c) →
      ¬ (m.realm.object g).IsNative) (this : Value) :
    getFor o this name s m = .ok ((m.realm.field? o name).getD .undefined) m := by
  have looked : (property? o name : Op _) s m = .ok (m.realm.property? o name) m := rfl
  rw [getFor, bind_apply, looked, Realm.field?]
  cases found : m.realm.property? o name with
  | none => rfl
  | some d =>
    cases d with
    | data v w e c => rfl
    | accessor g f e c =>
      cases g with
      | none => rfl
      | some g => exact callAccessor_apply (silent g f e c found) ..

/-- To read a property without a built-in getter gives its field and changes nothing. -/
theorem get_of_property {name : String}
    (silent : ∀ g f e c, m.realm.property? o name = some (.accessor (some g) f e c) →
      ¬ (m.realm.object g).IsNative) :
    get o name s m = .ok ((m.realm.field? o name).getD .undefined) m :=
  getFor_of_property silent (.object o)

/-- To ask for a property is to ask whether its field is there. -/
theorem hasProperty_eq_isSome_field? (name : String) :
    (hasProperty o name : Op _) s m = .ok (m.realm.field? o name).isSome m := by
  rw [← Realm.hasProperty_eq_isSome]
  rfl

/-- Nothing is read and nothing changes. -/
def Refuses {α : Type} (x : Op (Option α)) (s : Setup) (m : Machine) : Prop :=
  x s m = .ok none m ∨ ∃ e, x s m = .error e m

/-- What comes after a refusal does not happen, if it stops there. -/
theorem Refuses.bind {α β : Type} {x : Op (Option α)} {f : Option α → Op (Option β)}
    (h : Refuses x s m) (stops : f none = Pure.pure none) : Refuses (x >>= f) s m := by
  rcases h with ran | ⟨e, ran⟩
  · refine .inl ?_
    rw [bind_apply, ran]
    show f none s m = _
    rw [stops]
    rfl
  · exact .inr ⟨e, by rw [bind_apply, ran]⟩

/-- A refusal may come after a step that changes nothing. -/
theorem Refuses.of_bind {α β : Type} {x : Op α} {f : α → Op (Option β)} {a : α}
    (ran : x s m = .ok a m) (h : Refuses (f a) s m) : Refuses (x >>= f) s m := by
  rw [Refuses, bind_apply, ran]
  exact h

variable (silent : m.realm.ReadsSilently o)

include silent

/-- Where nothing built in is read, every property gives its field. -/
theorem get_of_readsSilently (name : String) :
    get o name s m = .ok ((m.realm.field? o name).getD .undefined) m :=
  get_of_property (silent name)

/-- An unknown flag stops the reading. -/
theorem readFlag_of_unknown {name : String} (unknown : m.realm.field? o name = some .unknown)
    (give : Bool → Definition → Definition) (d : Definition) :
    readFlag o name give d s m = .ok none m := by
  rw [readFlag, bind_apply, hasProperty_eq_isSome_field?, unknown]
  simp only [Option.isSome_some, if_true, bind_apply, get_of_readsSilently silent, unknown]
  rfl

/-- A flag that is known is taken over if it is there. -/
theorem readFlag_of_known {name : String} (known : m.realm.field? o name ≠ some .unknown)
    (give : Bool → Definition → Definition) (d : Definition) : readFlag o name give d s m = .ok
      (some (((m.realm.field? o name).bind Value.toBool?).elim d fun b => give b d)) m := by
  rw [readFlag, bind_apply, hasProperty_eq_isSome_field?]
  cases found : m.realm.field? o name with
  | none => rfl
  | some v =>
    simp only [Option.isSome_some, if_true, bind_apply, get_of_readsSilently silent, found]
    cases v with
    | unknown => exact absurd found known
    | _ => rfl

/-- A value is taken over as it is, unknown or not. -/
theorem readValue_of_readsSilently (d : Definition) : readValue o d s m = .ok
    ((m.realm.field? o "value").elim d fun v => d.withValue v) m := by
  rw [readValue, bind_apply, hasProperty_eq_isSome_field?]
  cases found : m.realm.field? o "value" with
  | none => rfl
  | some v =>
    simp only [Option.isSome_some, if_true, bind_apply, get_of_readsSilently silent, found]
    rfl

omit silent in
/-- A function of a description is read if it is undefined or can be called. -/
theorem asAccessor?_cases (label : String) (v : Value) :
    if v = .undefined ∨ m.realm.isCallable v = true then
      asAccessor? label v s m = .ok (some v.function?) m
    else Refuses (asAccessor? label v) s m := by
  cases v with
  | undefined => exact rfl
  | unknown => exact .inl rfl
  | object f =>
    have read : asAccessor? label (.object f) s m =
        (if m.realm.isCallable (.object f) = true then Pure.pure (some (some f))
          else asAccessor?.notFunction label (.object f) : Op _) s m := rfl
    split
    next fits =>
      rw [read, if_pos (fits.resolve_left nofun)]
      rfl
    next fails =>
      rw [Refuses, read, if_neg fun callable => fails (.inr callable)]
      exact .inr ⟨_, rfl⟩
  | _ => exact .inr ⟨_, rfl⟩

/-- A function that is found is looked at before it is taken over. -/
theorem readFunction_eq {name : String} {v : Value} (found : m.realm.field? o name = some v)
    (label : String) (give : Option ObjectId → Definition → Definition) (d : Definition) :
    readFunction o name label give d s m =
      (asAccessor? label v >>= fun f => Pure.pure (f.map (give · d)) : Op _) s m := by
  rw [readFunction, bind_apply, hasProperty_eq_isSome_field?, found]
  simp only [Option.isSome_some, if_true, bind_apply, get_of_readsSilently silent, found]
  rfl

/-- A function that fits is taken over if it is there. -/
theorem readFunction_of_fits {name : String} (fits : m.realm.FunctionFits o name) (label : String)
    (give : Option ObjectId → Definition → Definition) (d : Definition) :
    readFunction o name label give d s m = .ok
      (some (((m.realm.field? o name).map Value.function?).elim d fun f => give f d)) m := by
  cases found : m.realm.field? o name with
  | none =>
    rw [readFunction, bind_apply, hasProperty_eq_isSome_field?, found]
    rfl
  | some v =>
    have accessor := asAccessor?_cases (s := s) (m := m) label v
    rw [if_pos (fits v found)] at accessor
    rw [readFunction_eq silent found, bind_apply, accessor]
    rfl

/-- Anything else than a function raises, and an unknown one stops the reading. -/
theorem readFunction_refuses {name : String} (fails : ¬ m.realm.FunctionFits o name)
    (label : String) (give : Option ObjectId → Definition → Definition) (d : Definition) :
    Refuses (readFunction o name label give d) s m := by
  rw [Realm.FunctionFits, Classical.not_forall] at fails
  obtain ⟨v, fails⟩ := fails
  rw [Classical.not_imp] at fails
  have accessor := asAccessor?_cases (s := s) (m := m) label v
  rw [if_neg fails.2] at accessor
  rw [Refuses, readFunction_eq silent fails.1]
  exact accessor.bind rfl

/-! ## Descriptions -/

/-- A description is read as its fields. -/
theorem readDescription_of_hasFittingParts (h : m.realm.HasFittingParts o) :
    readDescription o s m = .ok (some (m.realm.described o).definition) m := by
  simp only [readDescription, bind_apply,
    readFlag_of_known silent (h.flags "enumerable" (by decide)),
    readFlag_of_known silent (h.flags "configurable" (by decide)),
    readFlag_of_known silent (h.flags "writable" (by decide)), readValue_of_readsSilently silent,
    readFunction_of_fits silent (h.functions "get" (by decide)),
    readFunction_of_fits silent (h.functions "set" (by decide))]
  rfl

/-- An object is read as a description only if its flags are known and its functions fit. -/
theorem readDescription_refuses (refused : ¬ m.realm.HasFittingParts o) :
    Refuses (readDescription o) s m := by
  rw [readDescription]
  -- The parts in the order in which they are read: the first that does not fit stops the reading.
  by_cases enumerable : m.realm.field? o "enumerable" = some .unknown
  · exact .bind (.inl (readFlag_of_unknown silent enumerable ..)) rfl
  refine .of_bind (readFlag_of_known silent enumerable ..) ?_
  by_cases configurable : m.realm.field? o "configurable" = some .unknown
  · exact .bind (.inl (readFlag_of_unknown silent configurable ..)) rfl
  refine .of_bind (readFlag_of_known silent configurable ..) ?_
  by_cases writable : m.realm.field? o "writable" = some .unknown
  · exact .bind (.inl (readFlag_of_unknown silent writable ..)) rfl
  refine .of_bind (readFlag_of_known silent writable ..) ?_
  refine .of_bind (readValue_of_readsSilently silent _) ?_
  by_cases getter : m.realm.FunctionFits o "get"
  · -- Everything before the setter fits, so it is the setter that does not.
    refine .of_bind (readFunction_of_fits silent getter ..) ?_
    have setter : ¬ m.realm.FunctionFits o "set" := fun setter =>
      refused ⟨by simp [enumerable, configurable, writable], by simp [getter, setter]⟩
    exact readFunction_refuses silent setter ..
  · exact .bind (readFunction_refuses silent getter ..) rfl

/-- What is read is a definition if it does not mix functions with the fields of data. -/
theorem toDefinition?_of_hasFittingParts (h : m.realm.HasFittingParts o) :
    toDefinition? (.object o) s m =
      ((if (m.realm.described o).isAccessor && (m.realm.described o).isData then
        typeError ("Invalid property descriptor. Cannot both specify accessors and a value or " ++
          "writable attribute")
      else Pure.pure (some (m.realm.described o).definition) : Op _) s m) := by
  rw [toDefinition?, bind_apply, readDescription_of_hasFittingParts silent h]
  simp only [Fields.isAccessor_definition, Fields.isData_definition]
  split <;> rfl

omit silent in
/-- A value is read as the fields that it describes. -/
theorem toDefinition?_of_describes {v : Value} {fields : Fields} (h : m.realm.Describes v fields)
    (silent : ∀ d, v = .object d → m.realm.ReadsSilently d) :
    toDefinition? v s m = .ok (some fields.definition) m := by
  obtain ⟨d, rfl, describes, rfl⟩ := h
  have unmixed : ¬ ((m.realm.described d).isAccessor && (m.realm.described d).isData) = true := by
    rcases describes.unmixed with none | none <;> simp [none]
  rw [toDefinition?_of_hasFittingParts (silent d rfl) describes.toHasFittingParts, if_neg unmixed]
  rfl

omit silent in
/-- A value that describes no property changes nothing. -/
theorem toDefinition?_refuses {v : Value} (h : ∀ fields, ¬ m.realm.Describes v fields)
    (silent : ∀ d, v = .object d → m.realm.ReadsSilently d) : Refuses (toDefinition? v) s m := by
  cases v with
  | unknown => exact .inl rfl
  | object d =>
    by_cases fits : m.realm.HasFittingParts d
    · have mixed : ((m.realm.described d).isAccessor && (m.realm.described d).isData) = true := by
        by_contra unmixed
        refine h _ ⟨d, rfl, ⟨fits, ?_⟩, rfl⟩
        rwa [Bool.not_eq_true, Bool.and_eq_false_iff] at unmixed
      rw [Refuses, toDefinition?_of_hasFittingParts (silent d rfl) fits, if_pos mixed]
      exact .inr ⟨_, rfl⟩
    · exact .bind (readDescription_refuses (silent d rfl) fits) rfl
  | _ => exact .inr ⟨_, rfl⟩

end Op

/-! ## The descriptions that an object holds -/

/-- An object holds the description of a property. -/
def Realm.HoldsDescription (r : Realm) (bag : ObjectId) (name : String) (fields : Fields) : Prop :=
  ∃ p, (r.object bag).own? name = some p ∧ r.Describes p.reading fields

namespace Builtin

open Op

variable {s : Setup} {m : Machine} {bag : ObjectId} {asked : String → Fields} {names : List String}

/-- To read what an object describes changes nothing. -/
theorem get_of_isPlainBag (plain : m.realm.IsPlainBag bag) {name : String} {p : Descriptor}
    (own : (m.realm.object bag).own? name = some p) : get bag name s m = .ok p.reading m := by
  rw [get_of_property fun g f e c found => ?_, Realm.field?_of_own own, Option.getD_some]
  rw [Realm.property?_of_own own] at found
  exact plain.own name g f e c (own.trans found)

/-- Neither does reading the descriptions it holds. -/
theorem readsSilently_of_isPlainBag (plain : m.realm.IsPlainBag bag) {name : String}
    {p : Descriptor} (own : (m.realm.object bag).own? name = some p) :
    ∀ d, p.reading = .object d → m.realm.ReadsSilently d := by
  intro d is
  match p, is with
  | .data _ w e c, rfl =>
    exact Realm.readsSilently_of_chain (plain.descriptions name d w e c own)

/-- The descriptions are read in order, and nothing changes. -/
theorem readDefinitions_of_holds (plain : m.realm.IsPlainBag bag)
    (holds : ∀ name ∈ names, m.realm.HoldsDescription bag name (asked name)) :
    readDefinitions bag names s m =
      .ok (some (names.map fun name => (name, (asked name).definition))) m := by
  induction names with
  | nil => rfl
  | cons name rest ih =>
    obtain ⟨p, own, describes⟩ := holds name List.mem_cons_self
    have first :=
      toDefinition?_of_describes (s := s) describes (readsSilently_of_isPlainBag plain own)
    rw [readDefinitions, bind_apply, get_of_isPlainBag plain own]
    simp only [bind_apply, first, ih fun name h => holds name (.tail _ h)]
    rfl

/-- One value that is no description is enough for nothing to be read. -/
theorem readDefinitions_refuses (plain : m.realm.IsPlainBag bag)
    (own : ∀ name ∈ names, ∃ p, (m.realm.object bag).own? name = some p)
    (refused : ∃ name ∈ names, ∀ fields, ¬ m.realm.HoldsDescription bag name fields) :
    Refuses (readDefinitions bag names) s m := by
  -- by induction on the names: the first description that is refused ends the reading
  induction names with
  | nil =>
    obtain ⟨name, h, -⟩ := refused
    cases h
  | cons name rest ih =>
    obtain ⟨p, found⟩ := own name List.mem_cons_self
    have silent := readsSilently_of_isPlainBag plain found
    rw [readDefinitions]
    refine .of_bind (get_of_isPlainBag plain found) ?_
    by_cases describes : ∃ fields, m.realm.Describes p.reading fields
    · obtain ⟨fields, describes⟩ := describes
      refine .of_bind (toDefinition?_of_describes describes silent) (.bind ?_ rfl)
      refine ih (fun name h => own name (.tail _ h)) ?_
      obtain ⟨other, listed, refused⟩ := refused
      rcases List.mem_cons.1 listed with rfl | listed
      · exact absurd ⟨p, found, describes⟩ (refused fields)
      · exact ⟨other, listed, refused⟩
    · exact .bind (toDefinition?_refuses (fun fields h => describes ⟨fields, h⟩) silent) rfl

end Builtin

/-! ## Definitions in order -/

/-- What the definitions of properties leave of an object: each has the fields that the standard
gives it, new ones come last in their order, and everything else is as before. -/
structure ObjectRecord.DefinedAs (r : ObjectRecord) (asked : String → Fields) (names : List String)
    (r' : ObjectRecord) : Prop where
  own : ∀ name ∈ names, ∃ p, r'.own? name = some p ∧
    p.fields = Standard.result (r.own? name) (asked name)
  others : ∀ name, name ∉ names → r'.own? name = r.own? name
  keys : r'.keys = r.keys ++ names.filter (· ∉ r.keys)
  rest : r' = { r with properties := r'.properties }

namespace ObjectRecord.DefinedAs

variable {r r' : ObjectRecord} {asked : String → Fields} {names : List String}

/-- Without names nothing is defined. -/
theorem nil (r : ObjectRecord) (asked : String → Fields) : r.DefinedAs asked [] r where
  own _ h := by cases h
  others _ _ := rfl
  keys := (List.append_nil _).symm
  rest := rfl

/-- One name after the other is defined as the standard says. -/
theorem cons {name : String} {p : Descriptor} (fresh : name ∉ names)
    (fields : p.fields = Standard.result (r.own? name) (asked name))
    (h : (r.store name p).DefinedAs asked names r') : r.DefinedAs asked (name :: names) r' where
  own other listed := by
    rcases List.mem_cons.1 listed with rfl | listed
    · refine ⟨p, ?_, fields⟩
      rw [h.others other fresh, own?_store, if_pos rfl]
    · have ne : other ≠ name := fun same => fresh (same ▸ listed)
      have := h.own other listed
      rwa [own?_store, if_neg ne] at this
  others other absent := by
    rw [List.mem_cons, not_or] at absent
    rw [h.others other absent.2, own?_store, if_neg absent.1]
  keys := by
    -- storing the first property does not add any of the others
    have rest : names.filter (· ∉ (r.store name p).keys) = names.filter (· ∉ r.keys) := by
      refine List.filter_congr fun other listed => ?_
      have ne : other ≠ name := fun same => fresh (same ▸ listed)
      rw [keys_store]
      split <;> simp [ne]
    rw [h.keys, rest, keys_store, List.filter_cons]
    by_cases old : name ∈ r.keys <;> simp [old]
  rest := h.rest

end ObjectRecord.DefinedAs

namespace Builtin

open Op

variable {s : Setup} {m : Machine} {o : ObjectId} {asked : String → Fields} {names : List String}

/-- The definitions are made in order up to the first that the standard rejects. -/
theorem defineAll_standard {rejected : String → Bool} (there : o.index < m.realm.objects.size)
    (ordinary : (m.realm.object o).cls ≠ .array) (nodup : names.Nodup)
    (unmixed : ∀ name ∈ names, (asked name).isAccessor = false ∨ (asked name).isData = false)
    (decides : ∀ name ∈ names, rejected name =
      Standard.rejects (m.realm.object o).extensible ((m.realm.object o).own? name) (asked name)) :
    ∃ n, (match names.find? rejected with
        | none => defineAll o (names.map fun name => (name, (asked name).definition)) s m = .ok () n
        | some name => ∃ reason,
          defineAll o (names.map fun name => (name, (asked name).definition)) s m =
            .error (.typeError ("Cannot redefine property: " ++ name ++ " (" ++ reason ++ ")")) n) ∧
      (m.realm.object o).DefinedAs asked (names.takeWhile (!rejected ·)) (n.realm.object o) ∧
      ∀ other, other ≠ o → n.realm.object other = m.realm.object other := by
  induction names generalizing m with
  | nil => exact ⟨m, rfl, .nil .., fun _ _ => rfl⟩
  | cons name rest ih =>
    rw [List.nodup_cons] at nodup
    have shaped := Fields.isShaped_definition (unmixed name List.mem_cons_self)
    have standard := ObjectRecord.accept_standard shaped (m.realm.object o) name
    rw [Fields.fields_definition (unmixed name List.mem_cons_self),
      ← decides name List.mem_cons_self] at standard
    have first : defineAll o ((name :: rest).map fun name => (name, (asked name).definition)) s m =
        (define o name (asked name).definition true >>= fun _ =>
          defineAll o (rest.map fun name => (name, (asked name).definition)) : Op _) s m := by
      show ((define o name (asked name).definition true >>= fun _ => Pure.pure ()) >>= fun _ =>
        defineAll o (rest.map fun name => (name, (asked name).definition)) : Op _) s m = _
      rw [bind_assoc]
      rfl
    rw [first, bind_apply, define_of_ne_array ordinary, defineOrdinary_apply]
    cases accepted : (m.realm.object o).accept name (asked name).definition with
    | error rejection =>
      -- The first rejected name: it is the one found, and nothing is defined from here on.
      rw [accepted] at standard
      rw [List.find?_cons, List.takeWhile_cons, standard]
      exact ⟨m, ⟨rejection.reason, rfl⟩, .nil .., fun _ _ => rfl⟩
    | ok p =>
      rw [accepted] at standard
      obtain ⟨admitted, fields⟩ := standard
      rw [List.find?_cons, List.takeWhile_cons, admitted]
      have record : (m.modifyObject o (·.store name p)).realm.object o =
          (m.realm.object o).store name p := object_modifyObject there _
      -- The names differ, so that the standard decides about the others as before this definition.
      obtain ⟨n, run, defined, others⟩ := ih (m := m.modifyObject o (·.store name p))
        (Nat.lt_of_lt_of_eq there Array.size_modify.symm) (record ▸ ordinary) nodup.2
        (fun other listed => unmixed other (.tail _ listed)) fun other listed => by
          have ne : other ≠ name := fun same => nodup.1 (same ▸ listed)
          rw [record, ObjectRecord.own?_store, if_neg ne, decides other (.tail _ listed)]
          rfl
      rw [record] at defined
      have fresh : name ∉ rest.takeWhile (!rejected ·) := fun listed =>
        nodup.1 ((List.takeWhile_prefix _).subset listed)
      refine ⟨n, run, defined.cons fresh fields, fun other ne => ?_⟩
      rw [others other ne]
      exact (Realm.object_modifyObject ..).trans (if_neg fun same => ne same.1)

variable {bag : ObjectId}

/-- **Descriptions are read before properties are defined.** If one of the listed values of an
object is not the description of a property, with flags and functions that are known, nothing
changes at all. Otherwise the properties are defined in order, up to the first that the standard
rejects. -/
theorem defineProperties_described (there : o.index < m.realm.objects.size)
    (ordinary : (m.realm.object o).cls ≠ .array) (plain : m.realm.IsPlainBag bag) (this : Value)
    (more : List Value) (s : Setup) :
    let r := m.realm
    let names := (r.object bag).enumerableKeys
    let call := defineProperties this (.object o :: .object bag :: more)
    ((∃ name ∈ names, ∀ fields, ¬ r.HoldsDescription bag name fields) →
      call s m = .ok .unknown m ∨ ∃ e, call s m = .error e m) ∧
    ∀ asked : String → Fields, (∀ name ∈ names, r.HoldsDescription bag name (asked name)) →
      let rejected := fun name =>
        Standard.rejects (r.object o).extensible ((r.object o).own? name) (asked name)
      ∃ n, (match names.find? rejected with
          | none => call s m = .ok (.object o) n
          | some name => ∃ reason, call s m =
            .error (.typeError ("Cannot redefine property: " ++ name ++ " (" ++ reason ++ ")")) n) ∧
        (r.object o).DefinedAs asked (names.takeWhile (!rejected ·)) (n.realm.object o) ∧
        ∀ other, other ≠ o → n.realm.object other = r.object other := by
  intro r names call
  -- all descriptions are read before the first property is defined
  have called : call s m = (readDefinitions bag names >>= fun
      | some ds => defineAll o ds >>= fun _ => Pure.pure (Value.object o)
      | none => Pure.pure .unknown : Op Value) s m := by
    have required :
        requireObject (argument (.object o :: .object bag :: more) 0) s m = .ok o m := rfl
    have found : Op.toObject? (argument (.object o :: .object bag :: more) 1) s m =
        .ok (some bag) m := rfl
    have looked : (object bag : Op _) s m = .ok (r.object bag) m := rfl
    simp only [call, defineProperties, applyDescriptions, bind_apply, required, found, looked]
    cases readDefinitions bag names s m with
    | ok ds? k => cases ds? <;> rfl
    | error e k => rfl
  constructor
  · intro refused
    have own : ∀ name ∈ names, ∃ p, (r.object bag).own? name = some p := fun name listed =>
      let ⟨p, found, _⟩ := ObjectRecord.mem_enumerableKeys.1 listed
      ⟨p, found⟩
    rw [called, bind_apply]
    rcases readDefinitions_refuses (s := s) plain own refused with ran | ⟨e, ran⟩
    · exact .inl (by rw [ran]; rfl)
    · exact .inr ⟨e, by rw [ran]⟩
  · intro asked holds rejected
    -- no description has fields of both kinds
    have unmixed (name : String) (listed : name ∈ names) :
        (asked name).isAccessor = false ∨ (asked name).isData = false := by
      obtain ⟨p, -, d, -, describes, same⟩ := holds name listed
      rw [same]
      exact describes.unmixed
    have nodup : names.Nodup := ObjectRecord.nodup_enumerableKeys
    have decides : ∀ name ∈ names, rejected name =
        Standard.rejects (r.object o).extensible ((r.object o).own? name) (asked name) :=
      fun _ _ => rfl
    obtain ⟨n, ran, defined, others⟩ :=
      defineAll_standard (s := s) there ordinary nodup unmixed decides
    refine ⟨n, ?_, defined, others⟩
    rw [called, bind_apply, readDefinitions_of_holds plain holds]
    simp only [bind_apply]
    cases first : names.find? rejected with
    | none =>
      rw [first] at ran
      simp only [ran]
      rfl
    | some name =>
      rw [first] at ran
      obtain ⟨reason, ran⟩ := ran
      exact ⟨reason, by simp only [ran]⟩

/-! ### A few objects -/

/-- A machine with an object, an object that holds a description under some names, and the
description. -/
def describing (record : ObjectRecord) (names : List String) (description : ObjectRecord) :
    Machine :=
  let bag := names.foldl (fun r name => r.store name (.plain (.object ⟨3⟩))) (Realm.plainRecord 0)
  { realm := { objects := #[{ cls := .object, prototype := none }, record, bag, description] }
    synced := rfl }

/-- An object that has one property of its own and gets no further ones. -/
def closedRecord : ObjectRecord :=
  ((Realm.plainRecord 0).store "a" (.plain (.bool true))).preventExtensions

/-- The description of a value. -/
def descriptionOf (v : Value) : ObjectRecord := (Realm.plainRecord 0).store "value" (.plain v)

/-- Objects whose properties are all data describe without running anything. -/
theorem isPlainBag_describing {record description : ObjectRecord} {names : List String}
    {bag : ObjectId} (data : (describing record names description).realm.objects.all fun r =>
      r.properties.toList.all (·.2.isData)) :
    (describing record names description).realm.IsPlainBag bag := by
  have all (o : ObjectId) : (describing record names description).realm.RunsNoNative o := by
    intro name g f e c own
    by_cases there : o.index < (describing record names description).realm.objects.size
    · have listed := Array.all_eq_true.1 data o.index there
      rw [Realm.object, Array.getD_eq_getD_getElem?, Array.getElem?_eq_getElem there,
        Option.getD_some] at own
      cases List.all_eq_true.1 listed _ (Table.get?_eq_some_iff.1 own)
    · rw [Realm.object_of_size_le (Nat.le_of_not_lt there)] at own
      cases own
  exact ⟨all bag, fun _ _ _ _ _ _ p _ => all p⟩

/-- The first of two properties is defined, and the second is rejected. -/
theorem defineProperties_described_rejected :
    let m := describing closedRecord ["a", "b"] (descriptionOf .null)
    let s : Setup := ⟨{}, .core, "", false⟩
    m.realm.IsPlainBag ⟨2⟩ ∧
      (∀ name ∈ ["a", "b"], m.realm.HoldsDescription ⟨2⟩ name (m.realm.described ⟨3⟩)) ∧
      ∃ n reason, defineProperties .undefined [.object ⟨1⟩, .object ⟨2⟩] s m =
          .error (.typeError ("Cannot redefine property: b (" ++ reason ++ ")")) n ∧
        ((n.realm.object ⟨1⟩).own? "a").map Descriptor.fields =
          some (Descriptor.plain .null).fields ∧
        (n.realm.object ⟨1⟩).keys = ["a"] := by
  intro m s
  have plain : m.realm.IsPlainBag ⟨2⟩ := isPlainBag_describing (by decide +kernel)
  have absent : ∀ name ∈ ["get", "set", "writable", "enumerable", "configurable"],
      m.realm.field? ⟨3⟩ name = none := by decide +kernel
  have described : m.realm.IsDescription ⟨3⟩ := by
    refine ⟨⟨by decide +kernel, fun name listed v found => ?_⟩, by decide +kernel⟩
    have none := absent name
      (List.mem_append_left ["writable", "enumerable", "configurable"] listed)
    cases none.symm.trans found
  have holds : ∀ name ∈ ["a", "b"], m.realm.HoldsDescription ⟨2⟩ name (m.realm.described ⟨3⟩) := by
    have own : ∀ name ∈ ["a", "b"],
        (m.realm.object ⟨2⟩).own? name = some (.plain (.object ⟨3⟩)) := by decide +kernel
    exact fun name listed => ⟨_, own name listed, _, rfl, described, rfl⟩
  refine ⟨plain, holds, ?_⟩
  have names : (m.realm.object ⟨2⟩).enumerableKeys = ["a", "b"] := by decide +kernel
  have there : (⟨1⟩ : ObjectId).index < m.realm.objects.size := by decide +kernel
  have ordinary : (m.realm.object ⟨1⟩).cls ≠ .array := by decide +kernel
  obtain ⟨n, ran, defined, -⟩ := (defineProperties_described there ordinary plain .undefined [] s).2
    (fun _ => m.realm.described ⟨3⟩) (by rw [names]; exact holds)
  rw [names, show (["a", "b"].find? _) = some "b" from by decide +kernel] at ran
  rw [names, show (["a", "b"].takeWhile _) = ["a"] from by decide +kernel] at defined
  obtain ⟨reason, ran⟩ := ran
  obtain ⟨p, own, fields⟩ := defined.own "a" List.mem_cons_self
  refine ⟨n, reason, ran, ?_, ?_⟩
  · have value : m.realm.field? ⟨3⟩ "value" = some .null := by decide +kernel
    have before : (m.realm.object ⟨1⟩).own? "a" = some (.plain (.bool true)) := by decide +kernel
    rw [own, Option.map_some, fields, before, Realm.described, value, absent "writable" (by decide),
      absent "get" (by decide), absent "set" (by decide), absent "enumerable" (by decide),
      absent "configurable" (by decide)]
    rfl
  · rw [defined.keys]
    decide +kernel

/-- The value that a description gives may be unknown. The property is defined with it. -/
theorem defineProperties_unknownValue :
    let m := describing (Realm.plainRecord 0) ["a"] (descriptionOf .unknown)
    let call := defineProperties .undefined [.object ⟨1⟩, .object ⟨2⟩]
    m.realm.IsPlainBag ⟨2⟩ ∧ (m.realm.object ⟨1⟩).cls ≠ .array ∧
      "a" ∈ (m.realm.object ⟨2⟩).enumerableKeys ∧
      (m.realm.object ⟨2⟩).own? "a" = some (.plain (.object ⟨3⟩)) ∧
      m.realm.field? ⟨3⟩ "value" = some .unknown ∧
      (m.realm.object ⟨1⟩).own? "a" = none ∧
      ((call.after ⟨{}, .core, "", false⟩ m).realm.object ⟨1⟩).own? "a" =
        some (.data .unknown false false false) :=
  ⟨isPlainBag_describing (by decide +kernel), by decide +kernel, by decide +kernel,
    by decide +kernel, by decide +kernel, by decide +kernel, by decide +kernel⟩

end Builtin

end AbstractScript
