import AbstractScript.Proofs.Deciding
import AbstractScript.Proofs.PlainOperators

/-!
# Operations decide

Conversions, operators, properties and bindings decide for the values that direct code gets hold of.
Objects are converted by core functions only, and these decide by assumption (`DecidingNatives`).
-/
namespace AbstractScript

open Eval Realm

/-- The core functions that convert objects decide for definite objects. -/
class DecidingNatives [Natives] (s : Setup) : Prop extends QuietNatives where
  convert : ∀ f o, Decides s
    ((∃ g : CoreFunction, f = .core g ∧ g.isConversion = true) ∧ o ≠ globalObject)
    (Natives.call f (.object o) []) fun v => v.isDefinite = true

variable {s : Setup} {P : Prop} {ε α : Type}

/-! ## Reading and creating -/

namespace Eval.Decides

/-- What is read off the realm is read off a definite realm. -/
theorem look (f : Realm → α) : Decides s P (do return f (← MonadState.get).realm : Eval ε α)
    fun a => ∃ r : Realm, r.Definite ∧ a = f r :=
  Decides.get.bind fun m => .pure fun given => ⟨m.realm, given.2.now.realm, rfl⟩

/-- An object that is read is one of a definite realm. -/
theorem object (o : ObjectId) : Decides s P (object o : Eval ε ObjectRecord) fun record =>
    ∃ r : Realm, r.Definite ∧ record = r.object o := .look (·.object o)

/-- What is created is a new object, and may be created if its record is fresh. -/
theorem create {record : Nat → ObjectRecord} (fresh : P → ∀ level, (record level).Fresh) :
    Decides s P (create record : Eval ε ObjectId) fun o => core.objects.size ≤ o.index := by
  refine .modifyGet (fun _ => rfl) fun given m hm => ⟨hm.now.realm.size, ?_⟩
  have now : (m.addObject (record m.realm.ambiguityLevel)).moment.Definite :=
    ⟨hm.now.realm.addObject (fresh given _), hm.now.contexts, hm.now.exits⟩
  exact hm.tick now rfl rfl rfl rfl rfl

/-- A definite environment may be created. -/
theorem createEnvironment {e : Environment} (definite : P → e.Definite) :
    Decides s P (createEnvironment e : Eval ε EnvId) fun _ => True := by
  refine .modifyGet (fun _ => rfl) fun given m hm => ⟨trivial, ?_⟩
  let created : Environment := { e with createdLevel := m.realm.ambiguityLevel }
  have now : (m.addEnvironment created).moment.Definite :=
    ⟨hm.now.realm.addEnvironment (definite given), hm.now.contexts, hm.now.exits⟩
  exact hm.tick now rfl rfl rfl rfl rfl

/-- What fits may be stored. -/
theorem store {o : ObjectId} {name : String} {d : Descriptor}
    (h : P → IsOpenAt o name ∧ Fits o name d) :
    Decides s P (modifyObject o (·.store name d) : Eval ε Unit) fun _ => True := by
  refine .modify (fun _ => rfl) fun given m hm => ?_
  have now : (m.modifyObject o (·.store name d)).moment.Definite :=
    ⟨hm.now.realm.store (h given).1 (h given).2, hm.now.contexts, hm.now.exits⟩
  exact hm.tick now rfl rfl rfl rfl rfl

/-- An object that the run has created may change into another such object. -/
theorem modifyNew {o : ObjectId} {f : ObjectRecord → ObjectRecord}
    (new : P → core.objects.size ≤ o.index)
    (keeps : P → ∀ record : ObjectRecord, record.Fresh → (f record).Fresh) :
    Decides s P (modifyObject o f : Eval ε Unit) fun _ => True := by
  refine .modify (fun _ => rfl) fun given m hm => ?_
  have now : (m.modifyObject o f).moment.Definite :=
    ⟨hm.now.realm.modifyNew (new given) (keeps given), hm.now.contexts, hm.now.exits⟩
  exact hm.tick now rfl rfl rfl rfl rfl

end Eval.Decides

/-! ## New objects -/

/-- The number of an element is not the name of a method. -/
theorem isMethodName_repr (i : Nat) : isMethodName (Nat.repr i) = false := by
  have digits := Number.natOfDigits?_repr i
  have none : ∀ name ∈ ["valueOf", "toString"], Number.natOfDigits? name.toList = none := by decide
  refine decide_eq_false fun method => ?_
  rw [none _ method] at digits
  cases digits

/-- Of the intrinsic objects only the one of that name is the global object. -/
theorem Intrinsic.ne_global {i : Intrinsic} (other : i ≠ .global) : some i.id ≠ some globalObject := by
  cases i <;> first | decide | exact absurd rfl other

namespace ObjectRecord

variable {i : Intrinsic}

/-- A new object without properties. -/
theorem fresh_bare {r : ObjectRecord} (properties : r.properties = .empty)
    (prototype : r.prototype = some i.id) (other : i ≠ .global)
    (primitive : r.cls.wraps r.primitive = true)
    (callable : ∀ f, r.callable = some f → ∃ closure, f = .script closure ∧
      closure.code.isIn .direct = true) : r.Fresh where
  values name d found := by
    rw [own?, properties] at found
    cases found
  methods name d _ found := by
    rw [own?, properties] at found
    cases found
  prototype := prototype ▸ Intrinsic.ne_global other
  primitive := primitive
  callable := callable

/-- A new object without properties that cannot be called. -/
theorem fresh_passive {r : ObjectRecord} (properties : r.properties = .empty)
    (prototype : r.prototype = some i.id) (other : i ≠ .global)
    (primitive : r.cls.wraps r.primitive = true) (callable : r.callable = none) : r.Fresh :=
  fresh_bare properties prototype other primitive fun _ hf => nomatch callable.symm.trans hf

/-- A new object with numbered properties and a length. -/
theorem fresh_indexed {r : ObjectRecord} {ds : List Descriptor} {length : Descriptor}
    (properties : r.properties = (Table.indexed ds).insert "length" length)
    (definite : ∀ d ∈ ds, d.isDefinite = true) (sized : length.isDefinite = true)
    (prototype : r.prototype = some i.id) (other : i ≠ .global)
    (primitive : r.cls.wraps r.primitive = true) (callable : r.callable = none) : r.Fresh := by
  -- what is found is the length or one of the elements
  have entry {name : String} {d : Descriptor} (found : r.own? name = some d) :
      name = "length" ∧ d = length ∨ ∃ i, name = Nat.repr i ∧ d ∈ ds := by
    rw [own?, properties, Table.get?_insert] at found
    split at found
    next same => exact .inl ⟨same, (Option.some.inj found).symm⟩
    next =>
      rw [Table.get?_eq_some_iff] at found
      simp only [Table.indexed, Table.toList, List.mem_mapIdx, Prod.mk.injEq] at found
      obtain ⟨i, _, name, rfl⟩ := found
      exact .inr ⟨i, name.symm, List.getElem_mem _⟩
  constructor
  case toDefinite =>
    constructor
    case values =>
      intro name d found
      rcases entry found with ⟨-, rfl⟩ | ⟨i, -, listed⟩
      · exact sized
      · exact definite d listed
    case methods =>
      intro name d method found
      rcases entry found with ⟨rfl, -⟩ | ⟨i, rfl, -⟩
      · cases method
      · rw [isMethodName_repr] at method
        cases method
    case prototype => exact prototype ▸ Intrinsic.ne_global other
    case primitive => exact primitive
  case callable =>
    intro f called
    rw [callable] at called
    cases called

/-- A plain object begins fresh. -/
theorem fresh_plainRecord (level : Nat) : (plainRecord level).Fresh :=
  fresh_passive rfl rfl (by decide) rfl rfl

/-- An array of definite elements begins fresh. -/
theorem fresh_arrayRecord (level : Nat) {elements : List Value}
    (h : ∀ v ∈ elements, v.isDefinite = true) : (arrayRecord level elements).Fresh := by
  refine fresh_indexed rfl (fun d hd => ?_) rfl rfl (by decide) rfl rfl
  obtain ⟨v, hv, rfl⟩ := List.mem_map.1 hd
  exact h v hv

/-- So does an arguments object. -/
theorem fresh_argumentsRecord (level : Nat) {arguments : List Value}
    (h : ∀ v ∈ arguments, v.isDefinite = true) : (argumentsRecord level arguments).Fresh := by
  refine fresh_indexed rfl (fun d hd => ?_) rfl rfl (by decide) rfl rfl
  obtain ⟨v, hv, rfl⟩ := List.mem_map.1 hd
  exact h v hv

/-- So does an object that wraps a text. -/
theorem fresh_stringRecord (level : Nat) (text : String) : (stringRecord level text).Fresh := by
  refine fresh_indexed rfl (fun d hd => ?_) rfl rfl (by decide) rfl rfl
  obtain ⟨u, -, rfl⟩ := List.mem_map.1 hd
  rfl

/-- So does a function whose code is direct. -/
theorem fresh_functionRecord (level : Nat) {closure : Closure}
    (direct : closure.code.isIn .direct = true) :
    (functionRecord level (.script closure)).Fresh := by
  refine fresh_bare rfl rfl (by decide) rfl fun f hf => ⟨closure, ?_, direct⟩
  exact (Option.some.inj hf).symm

end ObjectRecord

/-! ## Conversions -/

namespace Op

section

variable [Natives] [DecidingNatives s]

/-- Objects other than the global object have core functions that convert them. -/
theorem convertBy_decides {o : ObjectId} {methods : List String} (other : P → o ≠ globalObject)
    (names : ∀ name ∈ methods, isMethodName name = true) :
    Decides s P (convertBy o methods) Value.IsPrimitive := by
  -- by induction on the methods that are left to be tried
  induction methods with
  | nil => exact .throw _
  | cons method rest ih =>
    have later : Decides s P (convertBy o rest) Value.IsPrimitive :=
      ih fun name hname => names name (List.mem_cons_of_mem method hname)
    have conversion {r : Realm} {d : Descriptor} (given : P) (hr : r.Definite)
        (found : some d = r.property? o method) : d.isDefinite = true ∧ d.isConversion = true := by
      obtain ⟨definite, converts⟩ := hr.property (other given) found.symm
      exact ⟨definite, converts (names method List.mem_cons_self)⟩
    refine (Decides.look (·.property? o method)).bind fun d => ?_
    split
    · exact later.of And.left
    · refine .pure fun ⟨given, r, hr, found⟩ => ?_
      cases (conversion given hr found).1
    · refine .pure fun ⟨given, r, hr, found⟩ => ?_
      cases (conversion given hr found).1
    next f _ _ _ =>
      -- the method is a conversion of the core, in this realm and in every later one
      have core {r r' : Realm} (given : P) (hr : r.Definite) (hr' : r'.Definite) {w e c : Bool}
          (found : some (.data (.object f) w e c) = r.property? o method) :
          ∃ name g construct,
            (r'.object f).callable = some (.native name (some (.core g)) construct) ∧
              g.isConversion = true :=
        hr'.callable_of_isConversion (conversion given hr found).2
      refine (Decides.object f).bind fun record => ?_
      split
      next callable =>
        refine Decides.bind ((DecidingNatives.convert _ o).of ?_) fun v => ?_
        · rintro ⟨⟨given, r, hr, found⟩, r', hr', rfl⟩
          obtain ⟨name, g, construct, same, converts⟩ := core given hr hr' found
          rw [callable] at same
          cases same
          exact ⟨⟨g, rfl, converts⟩, other given⟩
        · split
          · exact later.of fun given => given.1.1.1
          next notObject =>
            exact .pure fun given =>
              Value.isPrimitive_of_isDefinite given.2 (Bool.eq_false_iff.2 notObject)
      next callable native =>
        refine .pure ?_
        rintro ⟨⟨given, r, hr, found⟩, r', hr', rfl⟩
        obtain ⟨name, g, construct, same, -⟩ := core given hr hr' found
        exact absurd (native.symm.trans same) (by rintro ⟨⟩; exact callable _ _ _ rfl)
      · exact later.of fun given => given.1.1
    · exact later.of And.left

/-- A definite value converts to a primitive, as only core functions are asked to convert it. -/
theorem toPrimitive_decides {v : Value} (definite : P → v.isDefinite = true) (hint : Hint) :
    Decides s P (toPrimitive v hint) Value.IsPrimitive := by
  cases v with
  | object o =>
    refine convertBy_decides (fun given => of_decide_eq_true (definite given)) ?_
    cases hint <;> decide
  | unknown => exact .pure fun given => nomatch definite given
  | _ => exact .pure fun _ => ⟨rfl, rfl⟩

/-- So it converts to a number that is known. -/
theorem toNumber?_decides {v : Value} (definite : P → v.isDefinite = true) :
    Decides s P (toNumber? v) fun x => ∃ y, x = some y :=
  (toPrimitive_decides definite .number).bind fun _ => .pure fun given => given.2.primitiveToNumber?

/-- So it converts to a text that is known. -/
theorem toText?_decides {v : Value} (definite : P → v.isDefinite = true) :
    Decides s P (toText? v) fun text => ∃ t, text = some t :=
  (toPrimitive_decides definite .string).bind fun _ => .pure fun given => given.2.primitiveToString?

end

/-- A value converts to an object that is no core object, unless it is one itself. -/
theorem toObject?_decides {v : Value} (definite : P → v.isDefinite = true) :
    Decides s P (toObject? v) fun o =>
      ∃ p, o = some p ∧ p ≠ globalObject ∧ (v.isHarmless = true → (Value.object p).isHarmless = true) := by
  have wrapped {record : Nat → ObjectRecord} (fresh : ∀ level, (record level).Fresh) :
      Decides s P (some <$> create record : Op (Option ObjectId)) fun o =>
        ∃ p, o = some p ∧ p ≠ globalObject ∧
          (v.isHarmless = true → (Value.object p).isHarmless = true) :=
    (Decides.create fun _ => fresh).map fun o _ new =>
      ⟨o, rfl, ne_global_of_new new, fun _ => Value.isHarmless_of_new new⟩
  cases v with
  | object o => exact .pure fun given => ⟨o, rfl, of_decide_eq_true (definite given), id⟩
  | unknown => exact .pure fun given => nomatch definite given
  | bool b => exact wrapped fun level => ObjectRecord.fresh_passive rfl rfl (by decide) rfl rfl
  | number x => exact wrapped fun level => ObjectRecord.fresh_passive rfl rfl (by decide) rfl rfl
  | string text => exact wrapped fun level => ObjectRecord.fresh_stringRecord level text
  | undefined | null => exact .throw _

end Op

/-! ## Definitions of properties -/

namespace Definition

variable {d : Definition} {o : ObjectId} {name : String} {current p : Descriptor} {v : Value}

/-- A definition of a property that holds a harmless value. -/
structure IsHarmless (d : Definition) : Prop where
  descriptor : d.descriptor.isHarmless = true
  data : d.isAccessor = false

/-- A definition of a harmless value only is harmless. -/
theorem isHarmless_value (h : v.isHarmless = true) : (value v).IsHarmless := ⟨h, rfl⟩

/-- A plain data property with a harmless value is a harmless definition. -/
theorem isHarmless_plain (h : v.isHarmless = true) : (plain v).IsHarmless := ⟨h, rfl⟩

/-- The value may be replaced by another harmless one. -/
theorem IsHarmless.withValue (h : d.IsHarmless) (hv : v.isHarmless = true) :
    (d.withValue v).IsHarmless := by
  have set : ∀ p : Descriptor, p.isHarmless = true → (p.asData.setValue v).isHarmless = true
    | .data .., _ => hv
  exact ⟨set _ h.descriptor, h.data⟩

/-- Whether the property is writable plays no part. -/
theorem IsHarmless.withWritable (h : d.IsHarmless) (w : Bool) : (d.withWritable w).IsHarmless := by
  have set : ∀ p : Descriptor, p.isHarmless = true → (p.asData.setWritable w).isHarmless = true
    | .data .., harmless => harmless
  exact ⟨set _ h.descriptor, h.data⟩

/-- A harmless property fits everywhere. -/
theorem fits_of_isHarmless (h : p.isHarmless = true) : Fits o name p :=
  ⟨p.isDefinite_of_isHarmless h, fun _ _ => h⟩

/-- Filled up with the defaults, a harmless definition makes a harmless property. -/
theorem IsHarmless.complete (h : d.IsHarmless) : d.complete.isHarmless = true := by
  have harmless := h.descriptor
  rw [Definition.complete]
  cases given : d.descriptor with
  | data v w e c =>
    rw [given] at harmless
    cases d.hasValue
    · rfl
    · exact harmless
  | accessor =>
    rw [given] at harmless
    cases harmless

/-- Merged into what fits, a harmless definition makes what fits. -/
theorem IsHarmless.mergeInto (h : d.IsHarmless) (fits : Fits o name current) :
    Fits o name (d.mergeInto current) := by
  have new : Fits o name d.descriptor := fits_of_isHarmless h.descriptor
  cases current with
  | accessor => cases fits.definite
  | data v w e c =>
    unfold Definition.mergeInto
    cases given : d.descriptor with
    | accessor =>
      rw [given] at new
      cases new.definite
    | data v' w' e' c' =>
      rw [given] at new
      cases d.hasValue <;> cases d.hasEnumerable <;> cases d.hasConfigurable <;>
        first
        | exact ⟨fits.definite, fits.harmless⟩
        | exact ⟨new.definite, new.harmless⟩

/-- The value that a harmless definition gives is definite. -/
theorem IsHarmless.value? (h : d.IsHarmless) (given : d.value? = some v) : v.isDefinite = true := by
  have harmless := h.descriptor
  unfold Definition.value? at given
  split at given
  next v' _ _ _ same =>
    rw [same] at harmless
    split at given
    · cases given
      exact Value.isDefinite_of_isHarmless harmless
    · cases given
  · cases given

/-- A definition of a value changes a property that holds a value in no other way than by merging. -/
theorem apply_data (data : d.isAccessor = false) (holds : current.isData = true)
    (accepted : d.apply current = .ok p) : p = current ∨ p = d.mergeInto current := by
  unfold apply at accepted
  split at accepted
  · cases accepted
    exact .inl rfl
  cases checked : d.checkFlags current with
  | error rejection =>
    rw [checked] at accepted
    cases accepted
  | ok u =>
    rw [checked] at accepted
    change (if d.isGeneric then _ else _) = _ at accepted
    split at accepted
    · cases accepted
      exact .inr rfl
    next specific =>
      -- the property stays a data property, since the definition has no getter and no setter
      have same : d.isData = true := by simpa [isGeneric, data] using specific
      rw [if_neg (by simp [holds, same])] at accepted
      cases contents : d.checkContents current with
      | error rejection =>
        rw [contents] at accepted
        cases accepted
      | ok u =>
        rw [contents] at accepted
        cases accepted
        exact .inr rfl

/-- What an object makes of the definition of a harmless value fits. -/
theorem IsHarmless.accept (h : d.IsHarmless) {r : ObjectRecord}
    (fits : ∀ current, r.own? name = some current → Fits o name current)
    (accepted : r.accept name d = .ok p) : Fits o name p := by
  unfold ObjectRecord.accept at accepted
  split at accepted
  · split at accepted
    · cases accepted
      exact fits_of_isHarmless h.complete
    · cases accepted
  next current own =>
    have holds : current.isData = true := by
      cases current with
      | data => rfl
      | accessor => cases (fits _ own).definite
    rcases apply_data h.data holds accepted with rfl | rfl
    · exact fits _ own
    · exact h.mergeInto (fits _ own)

end Definition

/-! ## Properties -/

/-- Where a name is open, the length is open too. -/
theorem Realm.IsOpenAt.length {o : ObjectId} {name : String} (h : IsOpenAt o name) :
    IsOpenAt o "length" := h.imp_right fun new => ⟨new.1, rfl⟩

namespace Op

variable {o : ObjectId} {name : String} {v : Value}

/-- An open property may be defined by a harmless definition. -/
theorem defineOrdinary_decides {d : Definition} (h : P → IsOpenAt o name ∧ d.IsHarmless)
    (strict : Bool) : Decides s P (defineOrdinary o name d strict) fun _ => True := by
  refine (Decides.object o).bind fun record => ?_
  split
  next p accepted =>
    refine Decides.bind (.store ?_) fun _ => .pure fun _ => trivial
    rintro ⟨given, r, hr, rfl⟩
    have open' := (h given).1
    exact ⟨open', (h given).2.accept (fun _ own => hr.fits_own open' own) accepted⟩
  · split
    · exact .throw _
    · exact .pure fun _ => trivial

/-- A refusal throws or does nothing. -/
theorem reject_decides (strict : Bool) (name : String) :
    Decides s P (reject strict name) fun _ => True := by
  unfold reject
  split
  · exact .throw _
  · exact .pure fun _ => trivial

/-- The length of an array is a number, which fits wherever the length is open. -/
theorem setLength_decides (h : P → IsOpenAt o "length") (n : Nat) (writable : Bool) :
    Decides s P (setLength o n writable) fun _ => True :=
  .store fun given => ⟨h given, Definition.fits_of_isHarmless rfl⟩

/-- An open element may be defined, with the length that it requires. -/
theorem defineElement_decides {d : Definition} (h : P → IsOpenAt o name ∧ d.IsHarmless)
    (index : Nat) (strict : Bool) :
    Decides s P (defineElement o index name d strict) fun _ => True := by
  refine (Decides.object o).bind fun record => ?_
  split
  · exact defineOrdinary_decides (fun given => h given.1) strict
  · split
    · exact reject_decides ..
    · refine (defineOrdinary_decides (fun given => h given.1) false).bind fun defined => ?_
      split
      · split
        · refine (setLength_decides (fun given => ?_) ..).bind fun _ => .pure fun _ => trivial
          exact (h given.1.1).1.length
        · exact .pure fun _ => trivial
      · exact reject_decides ..

/-- Elements of a new array may be removed. -/
theorem removeElements_decides (new : P → core.objects.size ≤ o.index) (indices : List Nat) :
    Decides s P (removeElements o indices) fun _ => True := by
  induction indices with
  | nil => exact .pure fun _ => trivial
  | cons index rest ih =>
    refine (Decides.object o).bind fun record => ?_
    split
    · refine Decides.bind (.modifyNew (fun given => new given.1) ?_) fun _ => ?_
      · exact fun _ record fresh => fresh.remove _
      · exact ih.of fun given => given.1.1
    · exact .pure fun _ => trivial

/-- So it may be cut off at a length. -/
theorem truncate_decides {d : Definition} (new : P → core.objects.size ≤ o.index)
    (harmless : P → d.IsHarmless) (length : Nat) (strict : Bool) :
    Decides s P (truncate o length d strict) fun _ => True := by
  have isOpen (given : P) : IsOpenAt o "length" := .inr ⟨new given, rfl⟩
  unfold truncate
  extract_lets staysWritable definition
  have harmless (given : P) : definition.IsHarmless := by
    unfold definition
    split
    · exact harmless given
    · exact (harmless given).withWritable true
  refine (defineOrdinary_decides (fun given => ⟨isOpen given, harmless given⟩) strict).bind
    fun defined => ?_
  split
  · exact .pure fun _ => trivial
  · refine (Decides.object o).bind fun record => ?_
    refine (removeElements_decides (fun given => new given.1.1) _).bind fun left => ?_
    split
    · refine (setLength_decides (fun given => isOpen given.1.1.1) ..).bind fun _ => ?_
      exact reject_decides ..
    · split
      · refine (defineOrdinary_decides (fun given => ⟨isOpen given.1.1.1, ?_⟩) false).bind fun _ => ?_
        · exact ⟨rfl, rfl⟩
        · exact .pure fun _ => trivial
      · exact .pure fun _ => trivial

section

variable [Natives] [DecidingNatives s]

/-- The length of a new array may be defined by a harmless definition. -/
theorem defineLength_decides {d : Definition} (new : P → core.objects.size ≤ o.index)
    (harmless : P → d.IsHarmless) (strict : Bool) :
    Decides s P (defineLength o d strict) fun _ => True := by
  have isOpen (given : P) : IsOpenAt o "length" := .inr ⟨new given, rfl⟩
  unfold defineLength
  split
  · exact defineOrdinary_decides (fun given => ⟨isOpen given, harmless given⟩) strict
  next v given =>
    refine (toNumber?_decides fun h => (harmless h).value? given).bind fun x => ?_
    split
    · exact .absurd (built_defineOrdinary ..).keeps fun ⟨_, y, same⟩ => nomatch same
    · extract_lets length d rest
      -- what follows the check of the new length
      have rest_decides (u : Unit) : Decides s P (rest u) fun _ => True := by
        have harmless (h : P) : d.IsHarmless := (harmless h).withValue rfl
        have ordinary : Decides s P (defineOrdinary o "length" d strict) fun _ => True :=
          defineOrdinary_decides (fun h => ⟨isOpen h, harmless h⟩) strict
        refine (Decides.object o).bind fun record => ?_
        split
        · exact ordinary.of And.left
        · split
          · exact ordinary.of And.left
          · split
            · exact reject_decides ..
            · exact (truncate_decides new harmless ..).of And.left
      split
      · exact Decides.bind (R := fun _ => True) (.throw _) fun u => (rest_decides u).of (·.1.1)
      · exact (rest_decides ()).of And.left

/-- An open property of any object may be defined by a harmless definition. -/
theorem define_decides {d : Definition} (h : P → IsOpenAt o name ∧ d.IsHarmless) (strict : Bool) :
    Decides s P (define o name d strict) fun _ => True := by
  refine (Decides.object o).bind fun record => ?_
  have ordinary {Q : Prop} : Decides s ((P ∧ Q)) (defineOrdinary o name d strict) fun _ => True :=
    defineOrdinary_decides (fun given => h given.1) strict
  split
  · exact ordinary
  next array =>
    -- the global object is no array, so that the program has created the object
    have new (given : P ∧ ∃ r : Realm, r.Definite ∧ record = r.object o) :
        core.objects.size ≤ o.index := by
      obtain ⟨given, r, hr, rfl⟩ := given
      rcases (h given).1 with rfl | new
      · rw [hr.cls] at array
        exact absurd (by decide) array
      · exact new.1
    split
    · exact defineLength_decides new (fun given => (h given.1).2) strict
    · split
      · exact defineElement_decides (fun given => h given.1) ..
      · exact ordinary

/-! ### Reading -/

/-- To read a property decides if it is data, whatever is known of the data. -/
theorem getFor_decides {Q : Value → Prop} (undefined : Q .undefined)
    (found : P → ∀ (r : Realm) d, r.Definite → r.property? o name = some d →
      ∃ v w e c, d = .data v w e c ∧ Q v) (this : Value) :
    Decides s P (getFor o this name) Q := by
  refine (Decides.look (·.property? o name)).bind fun d => ?_
  have holds {d' : Descriptor} (given : P ∧ ∃ r : Realm, r.Definite ∧ some d' = r.property? o name) :
      ∃ v w e c, d' = .data v w e c ∧ Q v := by
    obtain ⟨given, r, hr, same⟩ := given
    exact found given r d' hr same.symm
  split
  · exact .pure fun _ => undefined
  · refine .pure fun given => ?_
    obtain ⟨v, w, e, c, ⟨⟩, hv⟩ := holds given
    exact hv
  · exact .pure fun _ => undefined
  · refine .absurd (reports_callAccessor ..) fun given => ?_
    obtain ⟨v, w, e, c, same, -⟩ := holds given
    cases same

/-- Objects other than the global object have definite properties. -/
theorem get_decides (other : P → o ≠ globalObject) :
    Decides s P (get o name) fun v => v.isDefinite = true := by
  refine getFor_decides (Q := fun v => v.isDefinite = true) rfl (fun given r d hr found => ?_) _
  have definite := (hr.property (other given) found).1
  cases d with
  | data v w e c => exact ⟨v, w, e, c, rfl, definite⟩
  | accessor => cases definite

/-- What a name stands for in the global environment is harmless. -/
theorem getGlobal_decides (plain : P → name ≠ "Function") :
    Decides s P (get globalObject name) fun v => v.isHarmless = true := by
  refine getFor_decides (Q := fun v => v.isHarmless = true) rfl (fun given r d hr found => ?_) _
  have harmless := hr.global (plain given) found
  cases d with
  | data v w e c => exact ⟨v, w, e, c, rfl, harmless⟩
  | accessor => cases harmless

/-! ### Writing -/

omit [Natives] [DecidingNatives s] in
/-- No assignment may or may not happen. -/
theorem weaken_decides (level : Nat) (v : Value) :
    Decides s P (weaken level v : Eval ε Value) fun w => w = v := by
  refine Decides.get.bind fun m => .pure fun given => ?_
  rw [given.2.isAmbiguousWrite]
  rfl

/-- A harmless value may be written where a name is open. -/
theorem put_decides (h : P → IsOpenAt o name ∧ v.isHarmless = true) (strict : Bool) :
    Decides s P (put o name v strict) fun _ => True := by
  refine Decides.get.bind fun m => ?_
  split
  · split
    · exact Decides.bind (R := fun _ => True) (.throw _) fun _ => .pure fun _ => trivial
    · exact .pure fun _ => trivial
  · refine (Decides.object o).bind fun record => (weaken_decides ..).bind fun w => ?_
    split
    · refine (define_decides ?_ strict).bind fun _ => .pure fun _ => trivial
      rintro ⟨⟨⟨given, -⟩, -⟩, rfl⟩
      exact ⟨(h given).1, Definition.isHarmless_value (h given).2⟩
    · refine (Decides.look (·.property? o name)).bind fun d => ?_
      split
      -- no property of a definite realm is an accessor
      · refine .absurd (.bind (reports_callAccessor ..) fun _ => .pure _) ?_
        rintro ⟨-, r, hr, found⟩
        cases hr.isDefinite found.symm
      · refine (define_decides ?_ strict).bind fun _ => .pure fun _ => trivial
        rintro ⟨⟨⟨⟨given, -⟩, -⟩, rfl⟩, -⟩
        exact ⟨(h given).1, Definition.isHarmless_plain (h given).2⟩

end

end Op

end AbstractScript
