import AbstractScript.Builtin.Dispatch
import AbstractScript.Proofs.LawfulOperations

/-!
# Native functions are lawful

Each native function is put together from operations, so that it is lawful if those that it runs in
turn are. How deep native functions run each other is bounded, and by induction on this depth all of
them are lawful (`Native.lawful_callWithin`).
-/
namespace AbstractScript

open Eval World

variable {L : Law} {w : World} {c : Nat} {this : Value} {arguments : List Value} {o : ObjectId}
  {v : Value} {d : Definition}

/-! ## Property descriptions -/

namespace Op

variable [Natives] [LawfulNatives L]

omit [Natives] [LawfulNatives L] in
/-- A getter or setter is as much there as the function that it is. -/
theorem holds_functionValue {f : Option ObjectId} (hf : w.Holds f) :
    w.Holds (functionValue f) := by
  cases f with
  | none => trivial
  | some f => exact hf

/-- The value or the functions of a property are put into its description. -/
theorem lawful_describeContents {p : Descriptor} (ho : w.Holds o) (hp : w.Holds p) :
    (describeContents o p).Lawful L c w := by
  cases p with
  | data v _ _ _ =>
    refine .bind (lawful_createData ho hp) fun grows _ _ => ?_
    exact .bind (lawful_createData (grows.lift ho) trivial) fun _ _ _ => .pure trivial
  | accessor g s =>
    refine .bind (lawful_createData ho (holds_functionValue hp.1)) fun grows _ _ => ?_
    refine .bind (lawful_createData (grows.lift ho) ?_) fun _ _ _ => .pure trivial
    exact grows.lift (holds_functionValue hp.2)

/-- A description is a new object with the contents and the flags of a property. -/
theorem lawful_describe {p : Descriptor} (hp : w.Holds p) : (describe p).Lawful L c w := by
  refine .bind lawful_createPlain fun grows o ho => ?_
  refine .bind (lawful_describeContents ho (grows.lift hp)) fun grows _ _ => ?_
  have ho := grows.lift ho
  refine .bind (lawful_createData ho trivial) fun grows _ _ => ?_
  have ho := grows.lift ho
  exact .bind (lawful_createData ho trivial) fun grows _ _ => .pure (grows.lift ho)

/-- A property that is missing has no description. -/
theorem lawful_describe? {p : Option Descriptor} (hp : w.Holds p) :
    (describe? p).Lawful L c w := by
  cases p with
  | none => exact .pure trivial
  | some p => exact .map (lawful_describe hp) fun _ _ ho => ho

/-- A flag is read from a description if the description has it. -/
theorem lawful_readFlag {give : Bool → Definition → Definition} {name : String} (ho : w.Holds o)
    (hd : w.Holds d)
    (given : ∀ {w' : World} {d : Definition}, w'.Holds d → ∀ b, w'.Holds (give b d)) :
    (readFlag o name give d).Lawful L c w := by
  refine .bind (lawful_hasProperty ..) fun grows found _ => ?_
  have hd := grows.lift hd
  split
  · refine .bind (lawful_get (grows.lift ho)) fun grows v _ => .pure ?_
    cases v.toBool? with
    | none => trivial
    | some b => exact given (grows.lift hd) b
  · exact .pure hd

/-- The value is read from a description if the description has one. -/
theorem lawful_readValue (ho : w.Holds o) (hd : w.Holds d) :
    (readValue o d).Lawful L c w := by
  refine .bind (lawful_hasProperty ..) fun grows found _ => ?_
  have hd := grows.lift hd
  split
  · refine .bind (lawful_get (grows.lift ho)) fun grows v hv => .pure ?_
    exact Definition.holds_withValue (grows.lift hd) hv
  · exact .pure hd

omit [Natives] [LawfulNatives L] in
/-- An accessor is a function, or none, or it is an error. -/
theorem lawful_asAccessor? (label : String) (hv : w.Holds v) :
    (asAccessor? label v).Lawful L c w := by
  unfold asAccessor?
  split
  · exact .pure trivial
  · exact .pure trivial
  · refine .bind (.object _) fun grows record _ => ?_
    split
    · exact .pure (grows.lift hv)
    · exact .throw _
  · exact .throw _

/-- A getter or setter is read from a description if the description has one. -/
theorem lawful_readFunction {give : Option ObjectId → Definition → Definition}
    {name label : String} (ho : w.Holds o) (hd : w.Holds d)
    (given : ∀ {w' : World} {d : Definition}, w'.Holds d → ∀ {f : Option ObjectId}, w'.Holds f →
      w'.Holds (give f d)) : (readFunction o name label give d).Lawful L c w := by
  refine .bind (lawful_hasProperty ..) fun grows found _ => ?_
  have hd := grows.lift hd
  split
  · refine .bind (lawful_get (grows.lift ho)) fun grows v hv => ?_
    have hd := grows.lift hd
    refine .bind (lawful_asAccessor? label hv) fun grows f hf => .pure ?_
    cases f with
    | none => trivial
    | some f => exact given (grows.lift hd) hf
  · exact .pure hd

/-- A description is read part by part, each on top of the definition so far. -/
theorem lawful_readDescription (ho : w.Holds o) : (readDescription o).Lawful L c w := by
  refine .bind (lawful_readFlag ho Definition.holds_empty Definition.holds_withEnumerable) ?_
  intro _ grows d hd
  have ho := grows.lift ho
  -- a field that cannot be read ends the reading
  split
  next d =>
    refine .bind (lawful_readFlag ho hd Definition.holds_withConfigurable) fun grows d hd => ?_
    have ho := grows.lift ho
    split
    next d =>
      refine .bind (lawful_readFlag ho hd Definition.holds_withWritable) fun grows d hd => ?_
      have ho := grows.lift ho
      split
      next d =>
        refine .bind (lawful_readValue ho hd) fun grows d hd => ?_
        have ho := grows.lift ho
        refine .bind (lawful_readFunction ho hd Definition.holds_withGetter) fun grows d hd => ?_
        have ho := grows.lift ho
        split
        next d => exact lawful_readFunction ho hd Definition.holds_withSetter
        next => exact .pure trivial
      next => exact .pure trivial
    next => exact .pure trivial
  next => exact .pure trivial

/-- Only objects are descriptions. -/
theorem lawful_toDefinition? (hv : w.Holds v) : (toDefinition? v).Lawful L c w := by
  unfold toDefinition?
  split
  · exact .pure trivial
  · refine .bind (lawful_readDescription hv) fun grows d hd => ?_
    split
    next d => exact .join (.throw _) (fun grows _ _ => .pure (grows.lift hd)) (.pure hd)
    next => exact .pure trivial
  · exact .throw _

end Op

namespace Builtin

open Op

/-! ## Receivers and arguments -/

/-- An argument that is missing is undefined. -/
theorem holds_argument (h : w.Holds arguments) (index : Nat) :
    w.Holds (argument arguments index) := by
  rw [argument, List.getD_eq_getElem?_getD]
  refine holds_getD ?_ trivial
  cases found : arguments[index]? with
  | none => trivial
  | some v => exact h v (List.mem_of_getElem? found)

/-- What is no object is an error. -/
theorem lawful_requireObject (hv : w.Holds v) : (requireObject v).Lawful L c w := by
  unfold requireObject
  split
  · exact .pure hv
  · exact .throw _

/-- A primitive value is wrapped in a new object. -/
theorem lawful_wrap (hv : w.Holds v) : (wrap v).Lawful L c w := by
  refine .bind (lawful_toObject? hv) fun _ o ho => ?_
  split
  next o => exact .pure ho
  next => exact .pure trivial

/-- A primitive value is its own receiver, or it is taken out of its object. -/
theorem lawful_primitiveOf? (cls : ObjectClass) (hthis : w.Holds this) :
    (primitiveOf? cls this).Lawful L c w := by
  unfold primitiveOf?
  split
  · exact .pure trivial
  · exact .pure trivial
  · exact .pure trivial
  · exact .pure trivial
  · refine .bind (.object _) fun _ record hr => ?_
    split
    · exact .pure hr.primitive
    · exact .throw _
  · exact .throw _

theorem lawful_valueOf (cls : ObjectClass) (hthis : w.Holds this) (arguments : List Value) :
    (valueOf cls this arguments).Lawful L c w :=
  .bind (lawful_primitiveOf? cls hthis) fun _ _ hv => .pure (holds_getD hv trivial)

/-- A length is refused without a change. -/
theorem lawful_withinLimit (length : Nat) : (withinLimit length).Lawful L c w := by
  refine .setup_bind ?_
  split
  · exact .bind (.of_unmoved reportMaxIterations_unmoved) fun _ _ _ => .free _
  · exact .free _

section

variable [Natives] [LawfulNatives L]

/-- An integer is what a value converts to. -/
theorem lawful_toInteger? (hv : w.Holds v) : (toInteger? v).Lawful L c w :=
  .bind (lawful_toNumber? hv) fun _ _ _ => .free _

end

/-! ## Functions on objects -/

/-- `Object` gives the object that it is given, or a new one. -/
theorem lawful_objectCall (this : Value) (harguments : w.Holds arguments) :
    (objectCall this arguments).Lawful L c w := by
  unfold objectCall
  extract_lets v
  split
  · exact .bind lawful_createPlain fun _ _ ho => .pure ho
  · exact lawful_wrap (holds_argument harguments 0)

/-- A prototype is one that its object refers to. -/
theorem lawful_getPrototypeOf (this : Value) (harguments : w.Holds arguments) :
    (getPrototypeOf this arguments).Lawful L c w := by
  refine .bind (lawful_requireObject (holds_argument harguments 0)) fun _ o _ => ?_
  refine .bind (.object o) fun _ record hr => ?_
  have prototype := hr.prototype
  split
  next p found => exact .pure (prototype.of_some found)
  next => exact .pure trivial

/-- Names refer to nothing, and the array of them is new. -/
theorem lawful_nameArray (names : List String) : (nameArray names).Lawful L c w := by
  refine .map (lawful_createArray fun v hv => ?_) fun _ _ ho => ho
  obtain ⟨name, -, rfl⟩ := List.mem_map.1 hv
  trivial

/-- A function of what is read off an object. -/
theorem lawful_inspect {f : ObjectId → ObjectRecord → Op Value} (harguments : w.Holds arguments)
    (h : ∀ {w' : World} o r, (f o r).Lawful L c w') :
    Eval.Lawful L c w (do
      let o ← requireObject (argument arguments 0)
      f o (← object o) : Op Value) :=
  .bind (lawful_requireObject (holds_argument harguments 0)) fun _ o _ =>
    .bind (.object o) fun _ r _ => h o r

/-- A text refers to nothing. -/
theorem lawful_objectToString (hthis : w.Holds this) (arguments : List Value) :
    (objectToString this arguments).Lawful L c w := by
  unfold objectToString
  split
  · exact .pure trivial
  · exact .pure trivial
  · refine .bind (lawful_toObject? hthis) fun _ o _ => ?_
    split
    · exact .bind (.object _) fun _ _ _ => .pure trivial
    · exact .pure trivial

/-- The walk along prototypes changes nothing. -/
theorem lawful_isPrototypeOf (hthis : w.Holds this) (arguments : List Value) :
    (isPrototypeOf this arguments).Lawful L c w := by
  unfold isPrototypeOf
  split
  · refine .bind (lawful_toObject? hthis) fun _ p _ => ?_
    split
    · exact .get_bind fun _ => .pure trivial
    · exact .pure trivial
  · exact .pure trivial

/-- A prototype is an object that is given, or none. -/
theorem lawful_asPrototype (hv : w.Holds v) : (asPrototype v).Lawful L c w := by
  unfold asPrototype
  split
  · exact .pure hv
  · exact .pure trivial
  · exact .throw _

/-- An object forbids further properties. -/
theorem lawful_forbidExtensions (o : ObjectId) :
    (modifyObject o (·.preventExtensions) : Op Unit).Lawful L c w :=
  ⟨fun _ valid _ => .modifyObject valid (ObjectRecord.Held.preventExtensions (valid.object o))
    fun _ => .preventExtensions _⟩

/-- An object that is closed is the one that is given. -/
theorem lawful_preventExtensions (this : Value) (harguments : w.Holds arguments) :
    (preventExtensions this arguments).Lawful L c w :=
  .bind (lawful_requireObject (holds_argument harguments 0)) fun _ o ho =>
    .bind (lawful_forbidExtensions o) fun grows _ _ => .pure (grows.lift ho)

section

variable [Natives] [LawfulNatives L]

/-- A test of an own property gives a truth value. -/
theorem lawful_testOwn (p : Option Descriptor → Bool) (hthis : w.Holds this)
    (harguments : w.Holds arguments) : (testOwn p this arguments).Lawful L c w := by
  refine .bind (lawful_toText? (holds_argument harguments 0)) fun grows name _ => ?_
  split
  · exact .pure trivial
  · refine .bind (lawful_toObject? (grows.lift hthis)) fun _ o _ => ?_
    split
    · exact .bind (.object _) fun _ _ _ => .pure trivial
    · exact .pure trivial

/-- What describes a property is new. -/
theorem lawful_getOwnPropertyDescriptor (this : Value) (harguments : w.Holds arguments) :
    (getOwnPropertyDescriptor this arguments).Lawful L c w := by
  refine .bind (lawful_requireObject (holds_argument harguments 0)) fun grows o _ => ?_
  refine .bind (lawful_toText? (holds_argument (grows.lift harguments) 1)) fun _ name _ => ?_
  split
  · exact .bind (.object o) fun _ _ hr => lawful_describe? (ObjectRecord.Held.own? hr _)
  · exact .pure trivial

/-- A definition holds what the description holds that it is read from. -/
theorem lawful_defineProperty (this : Value) (harguments : w.Holds arguments) :
    (defineProperty this arguments).Lawful L c w := by
  refine .bind (lawful_requireObject (holds_argument harguments 0)) fun grows o ho => ?_
  have harguments := grows.lift harguments
  refine .bind (lawful_toText? (holds_argument harguments 1)) fun grows name _ => ?_
  have ho := grows.lift ho
  split
  · refine .bind (lawful_toDefinition? (holds_argument (grows.lift harguments) 2)) ?_
    intro _ grows d hd
    have ho := grows.lift ho
    split
    next d => exact .bind (lawful_define ho hd) fun grows _ _ => .pure (grows.lift ho)
    next => exact .pure trivial
  · exact .pure trivial

/-- The definitions are those of the descriptions that the object has. -/
theorem lawful_readDefinitions {bag : ObjectId} (hbag : w.Holds bag) (names : List String) :
    (readDefinitions bag names).Lawful L c w := by
  induction names generalizing w c with
  | nil => exact .pure fun _ hd => absurd hd List.not_mem_nil
  | cons name rest ih =>
    refine .bind (lawful_get hbag) fun grows v hv => ?_
    have hbag := grows.lift hbag
    refine .bind (lawful_toDefinition? hv) fun grows d hd => ?_
    have hbag := grows.lift hbag
    split
    next d =>
      refine .bind (ih hbag) fun grows ds hds => ?_
      split
      next ds =>
        have held : World.Holds _ (name, d) := ⟨Unlocated.holds _ name, grows.lift hd⟩
        exact .pure (List.forall_mem_cons.2 ⟨held, hds⟩)
      next => exact .pure trivial
    next => exact .pure trivial

/-- Definitions are applied to an object one after another. -/
theorem lawful_defineAll {ds : List (String × Definition)} (ho : w.Holds o) (hds : w.Holds ds) :
    (defineAll o ds).Lawful L c w :=
  .forM hds fun grows _ _ hd =>
    .bind (lawful_define (grows.lift ho) hd.2) fun _ _ _ => .pure trivial

/-- An object may get all properties that another one describes. -/
theorem lawful_applyDescriptions (ho : w.Holds o) (hv : w.Holds v) :
    (applyDescriptions o v).Lawful L c w := by
  refine .bind (lawful_toObject? hv) fun grows bag hbag => ?_
  have ho := grows.lift ho
  split
  next bag =>
    refine .bind (.object _) fun grows record _ => ?_
    have ho := grows.lift ho
    refine .bind (lawful_readDefinitions (grows.lift hbag) _) fun grows ds hds => ?_
    have ho := grows.lift ho
    split
    next ds => exact .bind (lawful_defineAll ho hds) fun grows _ _ => .pure (grows.lift ho)
    next => exact .pure trivial
  next => exact .pure trivial

/-- The descriptions are those of the second argument. -/
theorem lawful_defineProperties (this : Value) (harguments : w.Holds arguments) :
    (defineProperties this arguments).Lawful L c w :=
  .bind (lawful_requireObject (holds_argument harguments 0)) fun grows _ ho =>
    lawful_applyDescriptions ho (holds_argument (grows.lift harguments) 1)

/-- The object is new, with the prototype that is given. -/
theorem lawful_createWith (this : Value) (harguments : w.Holds arguments) :
    (createWith this arguments).Lawful L c w := by
  refine .bind (lawful_asPrototype (holds_argument harguments 0)) fun grows p hp => ?_
  have harguments := grows.lift harguments
  refine .bind (lawful_createObject hp nofun) fun grows o ho => ?_
  have described := holds_argument (grows.lift harguments) 1
  split
  · exact .pure ho
  · exact lawful_applyDescriptions ho described

omit [Natives] [LawfulNatives L] in
/-- A restriction of a property refers to nothing. -/
theorem holds_freezing (p : Descriptor) : w.Holds (freezing p) := by
  have sealing_held : w.Holds sealing :=
    Definition.holds_withConfigurable Definition.holds_empty false
  unfold freezing
  split
  · exact Definition.holds_withWritable sealing_held false
  · exact sealing_held

/-- The properties of a closed object are restricted one after another. -/
theorem lawful_close {restrict : Descriptor → Definition}
    (h : ∀ {w' : World} p, w'.Holds (restrict p)) (this : Value) (harguments : w.Holds arguments) :
    (close restrict this arguments).Lawful L c w := by
  refine .bind (lawful_requireObject (holds_argument harguments 0)) fun _ o ho => ?_
  refine .bind (.object o) fun grows record _ => ?_
  have ho := grows.lift ho
  refine .bind (.forM (Unlocated.holds _ _) fun grows name _ _ => ?_) fun grows _ _ => ?_
  · have ho := grows.lift ho
    refine .bind (.object o) fun grows record _ => ?_
    split
    · exact .bind (lawful_define (grows.lift ho) (h _)) fun _ _ _ => .pure trivial
    · exact .pure trivial
  · have ho := grows.lift ho
    exact .bind (lawful_forbidExtensions o) fun grows _ _ => .pure (grows.lift ho)

end

/-! ## Functions on arrays -/

/-- That something is an array says nothing of what it refers to. -/
theorem lawful_isArray (this : Value) (arguments : List Value) :
    (isArray this arguments).Lawful L c w := by
  unfold isArray
  split
  · exact .bind (.object _) fun _ _ _ => .pure trivial
  · exact .pure trivial
  · exact .pure trivial

section

variable [Natives] [LawfulNatives L]

/-- A length refers to nothing. -/
theorem lawful_putLength (ho : w.Holds o) (n : Nat) : (putLength o n).Lawful L c w :=
  lawful_put ho trivial

/-- An array holds the arguments, or as many holes as the one argument says. -/
theorem lawful_arrayOf (this : Value) (harguments : w.Holds arguments) :
    (arrayOf this arguments).Lawful L c w := by
  unfold arrayOf
  split
  · have created {w : World} {x : Float} : Eval.Lawful L c w (do
        let o ← createArray []
        put o "length" (.number x) true
        return Value.object o : Op Value) := by
      refine .bind (lawful_createArray nofun) fun _ o ho => ?_
      exact .bind (lawful_put ho trivial) fun grows _ _ => .pure (grows.lift ho)
    exact .join (.throw _) (fun _ _ _ => created) created
  · exact .pure trivial
  · exact .map (lawful_createArray harguments) fun _ _ ho => ho

/-- The receiver is an object if it has a length that is known. -/
theorem lawful_withLength? (hthis : w.Holds this) : (withLength? this).Lawful L c w := by
  refine .bind (lawful_toObject? hthis) fun _ o ho => ?_
  split
  next o =>
    refine .bind (lawful_get ho) fun grows v hv => ?_
    have ho := grows.lift ho
    refine .bind (lawful_toNumber? hv) fun grows x _ => .pure ?_
    cases x with
    | none => trivial
    | some x => exact ⟨grows.lift (a := o) ho, trivial⟩
  next => exact .pure trivial

/-- Values are assigned to the elements of an object one after another. -/
theorem lawful_putElements {vs : List Value} (ho : w.Holds o) (hvs : w.Holds vs) (index : Nat) :
    (putElements o index vs).Lawful L c w := by
  induction vs generalizing index w with
  | nil => exact .pure trivial
  | cons v rest ih =>
    refine .bind (lawful_put ho (hvs v List.mem_cons_self)) fun grows _ _ => ?_
    exact ih (grows.lift ho) (fun u hu => grows.lift (hvs u (List.mem_cons_of_mem v hu))) _

/-- What is pushed is what is given. -/
theorem lawful_push (hthis : w.Holds this) (harguments : w.Holds arguments) :
    (push this arguments).Lawful L c w := by
  refine .bind (lawful_withLength? hthis) fun grows found hfound => ?_
  split
  next o length =>
    have ho : World.Holds _ o := hfound.1
    refine .bind (lawful_putElements ho (grows.lift harguments) _) fun grows _ _ => ?_
    exact .bind (lawful_putLength (grows.lift ho) _) fun _ _ _ => .pure trivial
  next => exact .pure trivial

/-- What is popped is what the last element was. -/
theorem lawful_pop (hthis : w.Holds this) (arguments : List Value) :
    (pop this arguments).Lawful L c w := by
  refine .bind (lawful_withLength? hthis) fun grows found hfound => ?_
  split
  next o length =>
    have ho : World.Holds _ o := hfound.1
    split
    · exact .bind (lawful_putLength ho 0) fun _ _ _ => .pure trivial
    · refine .bind (lawful_get ho) fun grows element held => ?_
      have ho := grows.lift ho
      refine .bind (lawful_delete ..) fun grows _ _ => ?_
      have held := grows.lift held
      exact .bind (lawful_putLength (grows.lift ho) _) fun grows _ _ => .pure (grows.lift held)
  next => exact .pure trivial

/-- An element is a text, or it is converted to one. -/
theorem lawful_elementText? (hv : w.Holds v) : (elementText? v).Lawful L c w := by
  unfold elementText?
  split
  · exact .pure trivial
  · exact lawful_toText? hv

/-- The elements are read one after another. -/
theorem lawful_elementTexts? (ho : w.Holds o) (indices : List Nat) (read : List String) :
    (elementTexts? o indices read).Lawful L c w := by
  induction indices generalizing read w with
  | nil => exact .free _
  | cons index rest ih =>
    refine .bind (lawful_get ho) fun grows v hv => ?_
    have ho := grows.lift ho
    refine .bind (lawful_elementText? hv) fun grows text _ => ?_
    split
    · exact ih (grows.lift ho) _
    · exact .pure trivial

/-- A separator that is missing is a comma. -/
theorem lawful_separator? (hv : w.Holds v) : (separator? v).Lawful L c w := by
  unfold separator?
  split
  · exact .pure trivial
  · exact lawful_toText? hv

/-- A joined text refers to nothing. -/
theorem lawful_join (hthis : w.Holds this) (harguments : w.Holds arguments) :
    (join this arguments).Lawful L c w := by
  refine .bind (lawful_withLength? hthis) fun grows found hfound => ?_
  split
  next o length =>
    have ho : World.Holds _ o := hfound.1
    have first := holds_argument (grows.lift harguments) 0
    refine .bind (lawful_separator? first) fun grows separator _ => ?_
    have ho := grows.lift ho
    split
    · refine .bind (lawful_withinLimit _) fun grows within => ?_
      intro _
      split
      · exact .pure trivial
      · refine .bind (lawful_elementTexts? (grows.lift ho) _ _) fun _ texts _ => ?_
        split <;> exact .pure trivial
    · exact .pure trivial
  next => exact .pure trivial

end

/-! ## Functions on primitives -/

/-- The text of a truth value refers to nothing. -/
theorem lawful_booleanToString (hthis : w.Holds this) (arguments : List Value) :
    (booleanToString this arguments).Lawful L c w := by
  refine .bind (lawful_primitiveOf? _ hthis) fun _ v _ => ?_
  split <;> exact .pure trivial

/-- The units of a text are those of the receiver. -/
theorem lawful_unitsOf? (hthis : w.Holds this) : (unitsOf? this).Lawful L c w := by
  refine .bind (lawful_primitiveOf? _ hthis) fun _ v _ => ?_
  split <;> exact .free _

section

variable [Natives] [LawfulNatives L]

/-- A number refers to nothing. -/
theorem lawful_numberCall (this : Value) (harguments : w.Holds arguments) :
    (numberCall this arguments).Lawful L c w := by
  unfold numberCall
  split
  · exact .pure trivial
  next v _ =>
    refine .bind (lawful_toNumber? (harguments v List.mem_cons_self)) fun _ _ _ => ?_
    exact .pure (Value.holds_ofNumber? _)

/-- A base that is missing is ten. -/
theorem lawful_radix? (hv : w.Holds v) : (radix? v).Lawful L c w := by
  unfold radix?
  split
  · exact .free _
  · exact lawful_toInteger? hv

/-- The text of a number refers to nothing. -/
theorem lawful_numberToString (hthis : w.Holds this) (harguments : w.Holds arguments) :
    (numberToString this arguments).Lawful L c w := by
  refine .bind (lawful_primitiveOf? _ hthis) fun grows v _ => ?_
  split
  · refine .bind (lawful_radix? (holds_argument (grows.lift harguments) 0)) fun _ radix _ => ?_
    split
    · refine .join (.throw _) (fun _ _ _ => ?_) ?_ <;> split <;> exact .pure trivial
    · exact .pure trivial
  · exact .pure trivial

/-- Nor does a text that something is converted to. -/
theorem lawful_stringCall (this : Value) (harguments : w.Holds arguments) :
    (stringCall this arguments).Lawful L c w := by
  unfold stringCall
  split
  · exact .pure trivial
  next v _ =>
    refine .bind (lawful_toText? (harguments v List.mem_cons_self)) fun _ _ _ => ?_
    exact .pure (Value.holds_ofString? _)

/-- A character is a text. -/
theorem lawful_charAt (hthis : w.Holds this) (harguments : w.Holds arguments) :
    (charAt this arguments).Lawful L c w := by
  refine .bind (lawful_unitsOf? hthis) fun grows units _ => ?_
  split
  · refine .bind (lawful_toInteger? (holds_argument (grows.lift harguments) 0)) ?_
    intro _ _ position _
    split <;> exact .pure trivial
  · exact .pure trivial

/-- An index is a number. -/
theorem lawful_indexOf (hthis : w.Holds this) (harguments : w.Holds arguments) :
    (indexOf this arguments).Lawful L c w := by
  refine .bind (lawful_unitsOf? hthis) fun grows units _ => ?_
  have harguments := grows.lift harguments
  split
  · refine .bind (lawful_toText? (holds_argument harguments 0)) fun grows search _ => ?_
    split
    · refine .bind (lawful_toInteger? (holds_argument (grows.lift harguments) 1)) ?_
      intro _ _ start _
      split
      · refine .pure ?_
        unfold indexIn
        split <;> trivial
      · exact .pure trivial
    · exact .pure trivial
  · exact .pure trivial

end

/-! ## Functions on errors and functions -/

/-- A function is told to be native or not by its text alone. -/
theorem lawful_functionToString (this : Value) (arguments : List Value) :
    (functionToString this arguments).Lawful L c w := by
  unfold functionToString
  split
  · exact .pure trivial
  · refine .bind (.object _) fun _ record _ => ?_
    split
    · exact .pure trivial
    · exact .throw _
  · exact .throw _

section

variable [Natives] [LawfulNatives L]

/-- An error is a new object with the message that is given. -/
theorem lawful_createError (prototype : Intrinsic) (this : Value) (harguments : w.Holds arguments) :
    (createError prototype this arguments).Lawful L c w := by
  refine ⟨fun m valid grows => Lawful.at_machine ?_ valid⟩
  have harguments := grows.lift harguments
  refine .bind (lawful_createObject (valid.intrinsic prototype) nofun) fun grows o ho => ?_
  have message := holds_argument (grows.lift harguments) 0
  split
  · exact .pure ho
  · refine .bind (lawful_toText? message) fun grows text _ => ?_
    have ho := grows.lift ho
    refine .bind (lawful_define ho ?_) fun grows _ _ => .pure (grows.lift ho)
    exact Definition.holds_withEnumerable (Definition.holds_plain (Value.holds_ofString? text)) _

/-- A text that is missing is replaced by another one. -/
theorem lawful_textOr? (ho : w.Holds o) (name default : String) :
    (textOr? o name default).Lawful L c w := by
  refine .bind (lawful_get ho) fun _ v hv => ?_
  split
  · exact .free _
  · exact lawful_toText? hv

/-- The text of an error is put together from its name and its message. -/
theorem lawful_errorToString (hthis : w.Holds this) (arguments : List Value) :
    (errorToString this arguments).Lawful L c w := by
  unfold errorToString
  split
  · exact .pure trivial
  · refine .bind (lawful_textOr? hthis _ _) fun grows name _ => ?_
    refine .bind (lawful_textOr? (grows.lift (a := Value.object _) hthis) _ _) fun _ message _ => ?_
    split <;> exact .pure trivial
  · exact .throw _

end

end Builtin

/-! ## All native functions -/

section

variable [Natives] [LawfulNatives L]

open Builtin Op

/-- Each of the functions of the catalogue is lawful. -/
theorem CoreFunction.lawful_run (f : CoreFunction) (hthis : w.Holds this)
    (harguments : w.Holds arguments) : (f.run this arguments).Lawful L c w := by
  have first := holds_argument harguments 0
  cases f
  case isNaN | isFinite =>
    exact .bind (lawful_toNumber? first) fun _ _ _ => .pure (Value.holds_ofBool? _)
  case objectCall => exact lawful_objectCall this harguments
  case getPrototypeOf => exact lawful_getPrototypeOf this harguments
  case getOwnPropertyDescriptor => exact lawful_getOwnPropertyDescriptor this harguments
  case getOwnPropertyNames => exact lawful_inspect harguments fun _ _ => lawful_nameArray _
  case create => exact lawful_createWith this harguments
  case defineProperty => exact lawful_defineProperty this harguments
  case defineProperties => exact lawful_defineProperties this harguments
  case sealObject =>
    refine lawful_close (fun _ => ?_) this harguments
    exact Definition.holds_withConfigurable Definition.holds_empty false
  case freezeObject => exact lawful_close holds_freezing this harguments
  case preventExtensions => exact lawful_preventExtensions this harguments
  case isSealed | isFrozen | isExtensible =>
    exact lawful_inspect harguments fun _ _ => .pure trivial
  case keys => exact lawful_inspect harguments fun _ _ => lawful_nameArray _
  case objectToString => exact lawful_objectToString hthis arguments
  case objectValueOf => exact lawful_wrap hthis
  case hasOwnProperty | propertyIsEnumerable => exact lawful_testOwn _ hthis harguments
  case isPrototypeOf => exact lawful_isPrototypeOf hthis arguments
  case dynamicFunction => exact .pure trivial
  case functionToString => exact lawful_functionToString this arguments
  case arrayConstruct => exact lawful_arrayOf this harguments
  case isArray => exact lawful_isArray this arguments
  case push => exact lawful_push hthis harguments
  case pop => exact lawful_pop hthis arguments
  case join => exact lawful_join hthis harguments
  case arrayToString => exact lawful_join hthis nofun
  case booleanCall => exact .pure (Value.holds_ofBool? _)
  case booleanConstruct =>
    exact .bind (.pure (Value.holds_ofBool? _)) fun _ _ hv => lawful_wrap hv
  case booleanToString => exact lawful_booleanToString hthis arguments
  case booleanValueOf | numberValueOf | stringValueOf => exact lawful_valueOf _ hthis arguments
  case numberCall => exact lawful_numberCall this harguments
  case numberConstruct =>
    exact .bind (lawful_numberCall this harguments) fun _ _ hv => lawful_wrap hv
  case numberToString => exact lawful_numberToString hthis harguments
  case stringCall => exact lawful_stringCall this harguments
  case stringConstruct =>
    exact .bind (lawful_stringCall this harguments) fun _ _ hv => lawful_wrap hv
  case charAt => exact lawful_charAt hthis harguments
  case indexOf => exact lawful_indexOf hthis harguments
  case error prototype => exact lawful_createError prototype this harguments
  case errorToString => exact lawful_errorToString hthis arguments

/-- A native function of a realm is lawful if the objects that it is bound to are there. -/
theorem Native.lawful_run {f : Native} (hf : w.Holds f) (hthis : w.Holds this)
    (harguments : w.Holds arguments) : (f.run this arguments).Lawful L c w := by
  cases f with
  | core f => exact f.lawful_run hthis harguments
  | constant v => exact .pure hf
  | failure e => exact .throw e
  | receiver => exact .pure hthis
  | argument index => exact .pure (holds_argument harguments index)
  | argumentCount => exact .pure trivial
  | freshObject => exact .map lawful_createPlain fun _ _ ho => ho

end

/-- Native functions are lawful, however deep they run each other. -/
theorem Native.lawful_callWithin (depth : Nat) {f : Native} (hf : w.Holds f) (hthis : w.Holds this)
    (harguments : w.Holds arguments) : (callWithin depth f this arguments).Lawful L c w := by
  induction depth generalizing f this arguments w c with
  | zero => exact .throw _
  | succ depth ih =>
    let natives : Natives := ⟨callWithin depth⟩
    have lawful : LawfulNatives L := ⟨ih⟩
    have entered : (modify (·.enterNative f this arguments) : Op Unit).Lawful L 0 w :=
      .of_unmoved (.modify fun m => ⟨rfl, rfl, rfl⟩)
    exact entered.bind fun more _ _ =>
      Native.lawful_run (more.lift hf) (more.lift hthis) (more.lift harguments)

instance : LawfulNatives L := ⟨Native.lawful_callWithin Native.nestingLimit⟩

end AbstractScript
