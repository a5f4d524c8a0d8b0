import AbstractScript.Proofs.Operations

/-!
# What native functions are built of

Each native function reads, and defines, deletes and assigns properties of objects: it is built of
reading and of such steps (`Native.built_run`).
-/
namespace AbstractScript

open Eval Op

variable [Natives] {S : Steps} {K : Realm → Prop}

/-! ## Functions that only read -/

namespace Op

/-! ### Property descriptions -/

/-- A flag is read if the description has it. -/
theorem built_readFlag (o : ObjectId) (name : String) (give : Bool → Definition → Definition)
    (d : Definition) : Built S K (readFlag o name give d) := by
  refine .bind (built_hasProperty ..) fun found => ?_
  split
  · exact .bind (built_get ..) fun _ => .pure _
  · exact .pure _

theorem built_readValue (o : ObjectId) (d : Definition) : Built S K (readValue o d) := by
  refine .bind (built_hasProperty ..) fun found => ?_
  split
  · exact .bind (built_get ..) fun _ => .pure _
  · exact .pure _

/-- A function is looked at to tell whether it can be called. -/
theorem built_asAccessor? (label : String) (v : Value) : Built S K (asAccessor? label v) := by
  unfold asAccessor?
  split
  · exact .pure _
  · exact .pure _
  · refine .bind (.object _) fun record => ?_
    split
    · exact .pure _
    · exact .throw _
  · exact .throw _

theorem built_readFunction (o : ObjectId) (name label : String)
    (give : Option ObjectId → Definition → Definition) (d : Definition) :
    Built S K (readFunction o name label give d) := by
  refine .bind (built_hasProperty ..) fun found => ?_
  split
  · exact .bind (built_get ..) fun _ => .bind (built_asAccessor? ..) fun _ => .pure _
  · exact .pure _

/-- The fields of a description are read one after the other, up to one that is unknown. -/
theorem built_readDescription (o : ObjectId) : Built S K (readDescription o) := by
  refine .bind (built_readFlag ..) fun d => ?_
  split
  · refine .bind (built_readFlag ..) fun d => ?_
    split
    · refine .bind (built_readFlag ..) fun d => ?_
      split
      · refine .bind (built_readValue ..) fun d => ?_
        refine .bind (built_readFunction ..) fun d => ?_
        split
        · exact built_readFunction ..
        · exact .pure _
      · exact .pure _
    · exact .pure _
  · exact .pure _

/-- A description of both a value and a function is refused. -/
theorem built_toDefinition? (v : Value) : Built S K (toDefinition? v) := by
  unfold toDefinition?
  split
  · exact .pure _
  · refine .bind (built_readDescription _) fun d => ?_
    split
    · exact .join (.throw _) (fun _ => .pure _) (.pure _)
    · exact .pure _
  · exact .throw _

end Op

namespace Builtin

/-! ### Receivers and arguments -/

/-- Nothing but an object is accepted. -/
theorem built_requireObject (v : Value) : Built S K (requireObject v) := by
  unfold requireObject
  split
  · exact .pure _
  · exact .throw _

/-- The receiver is a primitive of the class, or an object that may hold one. -/
theorem built_primitiveOf? (cls : ObjectClass) (this : Value) :
    Built S K (primitiveOf? cls this) := by
  unfold primitiveOf?
  split
  · exact .pure _
  · exact .pure _
  · exact .pure _
  · exact .pure _
  · refine .bind (.object _) fun record => ?_
    split
    · exact .pure _
    · exact .throw _
  · exact .throw _

theorem built_valueOf (cls : ObjectClass) (this : Value) (arguments : List Value) :
    Built S K (valueOf cls this arguments) :=
  .bind (built_primitiveOf? ..) fun _ => .pure _

/-- A length above the limit for loops is reported. -/
theorem built_withinLimit (length : Nat) : Built S K (withinLimit length) := by
  refine .bind (.options _) fun limit => ?_
  split
  · exact .bind .report fun _ => .pure _
  · exact .pure _

/-- A prototype is an object or null. -/
theorem built_asPrototype (v : Value) : Built S K (asPrototype v) := by
  unfold asPrototype
  split
  · exact .pure _
  · exact .pure _
  · exact .throw _

/-- What wraps a value is the value as an object. -/
theorem built_wrap (v : Value) : Built S K (wrap v) := by
  refine .bind (built_toObject? v) fun o => ?_
  split <;> exact .pure _

theorem built_toInteger? (v : Value) : Built S K (toInteger? v) :=
  .bind (built_toNumber? v) fun _ => .pure _

/-! ### Functions on objects -/

/-- The argument is wrapped, if there is one. -/
theorem built_objectCall (this : Value) (arguments : List Value) :
    Built S K (objectCall this arguments) := by
  unfold objectCall
  extract_lets v
  split
  · exact .bind .createPlain fun _ => .pure _
  · exact built_wrap v

theorem built_getPrototypeOf (this : Value) (arguments : List Value) :
    Built S K (getPrototypeOf this arguments) := by
  refine .bind (built_requireObject _) fun o => .bind (.object o) fun record => ?_
  split <;> exact .pure _

/-- Names are listed in a new array. -/
theorem built_nameArray (names : List String) : Built S K (nameArray names) :=
  .map _ (.createArray _)

theorem built_getOwnPropertyNames (this : Value) (arguments : List Value) :
    Built S K (getOwnPropertyNames this arguments) :=
  .bind (built_requireObject _) fun o => .bind (.object o) fun _ => built_nameArray _

theorem built_keys (this : Value) (arguments : List Value) : Built S K (keys this arguments) :=
  .bind (built_requireObject _) fun o => .bind (.object o) fun _ => built_nameArray _

/-- The own properties are looked at one by one. -/
theorem built_isClosed (p : Descriptor → Bool) (this : Value) (arguments : List Value) :
    Built S K (isClosed p this arguments) :=
  .bind (built_requireObject _) fun o => .bind (.object o) fun _ => .pure _

theorem built_isExtensible (this : Value) (arguments : List Value) :
    Built S K (isExtensible this arguments) :=
  .bind (built_requireObject _) fun o => .bind (.object o) fun _ => .pure _

/-- The class is that of the receiver as an object. -/
theorem built_objectToString (this : Value) (arguments : List Value) :
    Built S K (objectToString this arguments) := by
  unfold objectToString
  split
  · exact .pure _
  · exact .pure _
  · refine .bind (built_toObject? this) fun o => ?_
    split
    · exact .bind (.object _) fun _ => .pure _
    · exact .pure _

/-- The argument is looked at before the receiver is converted. -/
theorem built_isPrototypeOf (this : Value) (arguments : List Value) :
    Built S K (isPrototypeOf this arguments) := by
  unfold isPrototypeOf
  split
  · refine .bind (built_toObject? this) fun o => ?_
    split
    · exact .look (fun _ _ same _ => by rw [same]) fun _ => .pure _
    · exact .pure _
  · exact .pure _

/-- The name is converted before the receiver is. -/
theorem built_testOwn (p : Option Descriptor → Bool) (this : Value) (arguments : List Value) :
    Built S K (testOwn p this arguments) := by
  refine .bind (built_toText? _) fun name => ?_
  split
  · exact .pure _
  · refine .bind (built_toObject? this) fun o => ?_
    split
    · exact .bind (.object _) fun _ => .pure _
    · exact .pure _

/-- By induction on the names whose descriptions are read. -/
theorem built_readDefinitions (bag : ObjectId) (names : List String) :
    Built S K (readDefinitions bag names) := by
  induction names generalizing K with
  | nil => exact .pure _
  | cons name rest ih =>
    refine .bind (built_get ..) fun v => .bind (built_toDefinition? v) fun d => ?_
    split
    · refine .bind ih fun ds => ?_
      split <;> exact .pure _
    · exact .pure _

/-! ### Functions on arrays -/

theorem built_isArray (this : Value) (arguments : List Value) :
    Built S K (isArray this arguments) := by
  unfold isArray
  split
  · exact .bind (.object _) fun _ => .pure _
  · exact .pure _
  · exact .pure _

/-- The length is converted to a number. -/
theorem built_withLength? (this : Value) : Built S K (withLength? this) := by
  refine .bind (built_toObject? this) fun o => ?_
  split
  · exact .bind (built_get ..) fun _ => .bind (built_toNumber? _) fun _ => .pure _
  · exact .pure _

/-- By induction on the indices of the elements that are read. -/
theorem built_elementTexts? (o : ObjectId) (indices : List Nat) (read : List String) :
    Built S K (elementTexts? o indices read) := by
  induction indices generalizing read K with
  | nil => exact .pure _
  | cons index rest ih =>
    refine .bind (built_get ..) fun v => .bind ?_ fun text => ?_
    · unfold elementText?
      split
      · exact .pure _
      · exact built_toText? v
    · split
      · exact ih _
      · exact .pure _

/-- Without an argument the texts are separated by commas. -/
theorem built_separator? (v : Value) : Built S K (separator? v) := by
  unfold separator?
  split
  · exact .pure _
  · exact built_toText? v

/-- The texts of the elements are read one after the other, unless there are too many. -/
theorem built_join (this : Value) (arguments : List Value) : Built S K (join this arguments) := by
  refine .bind (built_withLength? this) fun found => ?_
  split
  · refine .bind (built_separator? _) fun separator => ?_
    split
    · refine .bind (built_withinLimit _) fun within => ?_
      split
      · exact .pure _
      · refine .bind (built_elementTexts? ..) fun texts => ?_
        split <;> exact .pure _
    · exact .pure _
  · exact .pure _

/-! ### Functions on primitives -/

theorem built_booleanToString (this : Value) (arguments : List Value) :
    Built S K (booleanToString this arguments) := by
  refine .bind (built_primitiveOf? ..) fun v => ?_
  split <;> exact .pure _

theorem built_numberCall (this : Value) (arguments : List Value) :
    Built S K (numberCall this arguments) := by
  unfold numberCall
  split
  · exact .pure _
  · exact .bind (built_toNumber? _) fun _ => .pure _

theorem built_radix? (v : Value) : Built S K (radix? v) := by
  unfold radix?
  split
  · exact .pure _
  · exact built_toInteger? v

/-- The radix is converted only if the receiver is a number. -/
theorem built_numberToString (this : Value) (arguments : List Value) :
    Built S K (numberToString this arguments) := by
  refine .bind (built_primitiveOf? ..) fun v => ?_
  split
  · refine .bind (built_radix? _) fun radix => ?_
    split
    · refine .join (.throw _) (fun _ => ?_) ?_ <;> split <;> exact .pure _
    · exact .pure _
  · exact .pure _

theorem built_stringCall (this : Value) (arguments : List Value) :
    Built S K (stringCall this arguments) := by
  unfold stringCall
  split
  · exact .pure _
  · exact .bind (built_toText? _) fun _ => .pure _

theorem built_unitsOf? (this : Value) : Built S K (unitsOf? this) := by
  refine .bind (built_primitiveOf? ..) fun v => ?_
  split <;> exact .pure _

/-- The position is converted after the receiver. -/
theorem built_charAt (this : Value) (arguments : List Value) :
    Built S K (charAt this arguments) := by
  refine .bind (built_unitsOf? this) fun units => ?_
  split
  · refine .bind (built_toInteger? _) fun position => ?_
    split <;> exact .pure _
  · exact .pure _

/-- The text is converted before the position is. -/
theorem built_indexOf (this : Value) (arguments : List Value) :
    Built S K (indexOf this arguments) := by
  refine .bind (built_unitsOf? this) fun units => ?_
  split
  · refine .bind (built_toText? _) fun search => ?_
    split
    · refine .bind (built_toInteger? _) fun start => ?_
      split <;> exact .pure _
    · exact .pure _
  · exact .pure _

/-! ### Functions on errors and functions -/

/-- The receiver is looked at to tell whether it can be called. -/
theorem built_functionToString (this : Value) (arguments : List Value) :
    Built S K (functionToString this arguments) := by
  unfold functionToString
  split
  · exact .pure _
  · refine .bind (.object _) fun record => ?_
    split
    · exact .pure _
    · exact .throw _
  · exact .throw _

/-- What is read is converted to a text. -/
theorem built_textOr? (o : ObjectId) (name default : String) :
    Built S K (textOr? o name default) := by
  refine .bind (built_get ..) fun v => ?_
  split
  · exact .pure _
  · exact built_toText? _

/-- The name is read before the message is. -/
theorem built_errorToString (this : Value) (arguments : List Value) :
    Built S K (errorToString this arguments) := by
  unfold errorToString
  split
  · exact .pure _
  · refine .bind (built_textOr? ..) fun name => .bind (built_textOr? ..) fun message => ?_
    split <;> exact .pure _
  · exact .throw _

end Builtin

variable [∀ o, Defines o S]

/-! ## Functions that define and assign -/

namespace Op

/-! ### Property descriptions -/

/-- A description is a new object, whose properties are then created. -/
theorem built_describe (d : Descriptor) : Built S K (describe d) := by
  refine .bind .createPlain fun o => ?_
  refine .bind ?_ fun _ => ?_
  · cases d with
    | data | accessor =>
      exact .bind (built_createData ..) fun _ => .bind (built_createData ..) fun _ => .pure _
  · exact .bind (built_createData ..) fun _ => .bind (built_createData ..) fun _ => .pure _

theorem built_describe? (d : Option Descriptor) : Built S K (describe? d) := by
  cases d with
  | none => exact .pure _
  | some d => exact .map _ (built_describe d)

end Op

namespace Builtin

/-! ### Functions on objects -/

/-- An own property is described by a new object. -/
theorem built_getOwnPropertyDescriptor (this : Value) (arguments : List Value) :
    Built S K (getOwnPropertyDescriptor this arguments) := by
  refine .bind (built_requireObject _) fun o => .bind (built_toText? _) fun name => ?_
  split
  · exact .bind (.object o) fun _ => built_describe? _
  · exact .pure _

/-- The name is converted and the description read before the property is defined. -/
theorem built_defineProperty (this : Value) (arguments : List Value) :
    Built S K (defineProperty this arguments) := by
  refine .bind (built_requireObject _) fun o => .bind (built_toText? _) fun name => ?_
  split
  · refine .bind (built_toDefinition? _) fun d => ?_
    split
    · exact .bind (built_define ..) fun _ => .pure _
    · exact .pure _
  · exact .pure _

/-- All descriptions are read before the first property is defined. -/
theorem built_applyDescriptions (o : ObjectId) (descriptions : Value) :
    Built S K (applyDescriptions o descriptions) := by
  refine .bind (built_toObject? _) fun bag => ?_
  split
  · refine .bind (.object _) fun record => .bind (built_readDefinitions ..) fun ds => ?_
    split
    · refine .bind (.forM fun d _ => ?_) fun _ => .pure _
      exact .bind (built_define ..) fun _ => .pure _
    · exact .pure _
  · exact .pure _

theorem built_defineProperties (this : Value) (arguments : List Value) :
    Built S K (defineProperties this arguments) :=
  .bind (built_requireObject _) fun _ => built_applyDescriptions ..

/-- The properties are defined of a new object. -/
theorem built_createWith (this : Value) (arguments : List Value) :
    Built S K (createWith this arguments) := by
  refine .bind (built_asPrototype _) fun p =>
    .bind (.createObject (by decide) p) fun o => ?_
  split
  · exact .pure _
  · exact built_applyDescriptions ..

theorem built_preventExtensions (this : Value) (arguments : List Value) :
    Built S K (preventExtensions this arguments) :=
  .bind (built_requireObject _) fun _ => .bind Op.built_preventExtensions fun _ => .pure _

/-- Every property is restricted before the object is closed. -/
theorem built_close (restrict : Descriptor → Definition) (this : Value)
    (arguments : List Value) : Built S K (close restrict this arguments) := by
  refine .bind (built_requireObject _) fun o => .bind (.object o) fun record => ?_
  refine .bind (.forM fun name _ => ?_) fun _ =>
    .bind Op.built_preventExtensions fun _ => .pure _
  refine .bind (.object o) fun record => ?_
  split
  · exact .bind (built_define ..) fun _ => .pure _
  · exact .pure _

/-! ### Functions on arrays -/

/-- A number alone is the length of the new array. -/
theorem built_arrayOf (this : Value) (arguments : List Value) :
    Built S K (arrayOf this arguments) := by
  unfold arrayOf
  split
  · refine .join (.throw _) (fun _ => ?_) ?_ <;>
      exact .bind (.createArray _) fun o => .bind (built_put ..) fun _ => .pure _
  · exact .pure _
  · exact .map _ (.createArray _)

/-- By induction on the values that are stored. -/
theorem built_putElements (o : ObjectId) (index : Nat) (vs : List Value) :
    Built S K (putElements o index vs) := by
  induction vs generalizing index K with
  | nil => exact .pure _
  | cons v rest ih => exact .bind (built_put ..) fun _ => ih _

/-- The elements are stored before the length is. -/
theorem built_push (this : Value) (arguments : List Value) : Built S K (push this arguments) := by
  refine .bind (built_withLength? this) fun found => ?_
  split
  · exact .bind (built_putElements ..) fun _ => .bind (built_put ..) fun _ => .pure _
  · exact .pure _

/-- The last element is read and deleted before the length is stored. -/
theorem built_pop (this : Value) (arguments : List Value) : Built S K (pop this arguments) := by
  refine .bind (built_withLength? this) fun found => ?_
  split
  · split
    · exact .bind (built_put ..) fun _ => .pure _
    · refine .bind (built_get ..) fun element => .bind (built_delete ..) fun _ => ?_
      exact .bind (built_put ..) fun _ => .pure _
  · exact .pure _

/-! ### Functions on errors and functions -/

/-- The message is converted after the error is created. -/
theorem built_createError (prototype : Intrinsic) (this : Value) (arguments : List Value) :
    Built S K (createError prototype this arguments) := by
  refine .bind (.createObject (by decide) _) fun o => ?_
  split
  · exact .pure _
  · exact .bind (built_toText? _) fun _ => .bind (built_define ..) fun _ => .pure _

end Builtin

/-! ## All native functions -/

open Builtin Op in
/-- Every function of a core object is built of what it does to objects. -/
theorem CoreFunction.built_run (f : CoreFunction) (this : Value) (arguments : List Value) :
    Built S K (f.run this arguments) := by
  cases f
  case isNaN | isFinite => exact .bind (built_toNumber? _) fun _ => .pure _
  case objectCall => exact built_objectCall this arguments
  case getPrototypeOf => exact built_getPrototypeOf this arguments
  case getOwnPropertyDescriptor => exact built_getOwnPropertyDescriptor this arguments
  case getOwnPropertyNames => exact built_getOwnPropertyNames this arguments
  case create => exact built_createWith this arguments
  case defineProperty => exact built_defineProperty this arguments
  case defineProperties => exact built_defineProperties this arguments
  case sealObject | freezeObject => exact built_close _ this arguments
  case preventExtensions => exact built_preventExtensions this arguments
  case isSealed => exact built_isClosed (fun d => !d.isConfigurable) this arguments
  case isFrozen =>
    exact built_isClosed (fun d => !d.isConfigurable && !d.isWritable) this arguments
  case isExtensible => exact built_isExtensible this arguments
  case keys => exact built_keys this arguments
  case objectToString => exact built_objectToString this arguments
  case objectValueOf => exact built_wrap this
  case hasOwnProperty | propertyIsEnumerable => exact built_testOwn _ this arguments
  case isPrototypeOf => exact built_isPrototypeOf this arguments
  case dynamicFunction => exact .pure _
  case functionToString => exact built_functionToString this arguments
  case arrayConstruct => exact built_arrayOf this arguments
  case isArray => exact built_isArray this arguments
  case push => exact built_push this arguments
  case pop => exact built_pop this arguments
  case join => exact built_join this arguments
  case arrayToString => exact built_join this []
  case booleanCall => exact .pure _
  case booleanConstruct => exact .bind (.pure _) fun v => built_wrap v
  case booleanToString => exact built_booleanToString this arguments
  case booleanValueOf | numberValueOf | stringValueOf => exact built_valueOf _ this arguments
  case numberCall => exact built_numberCall this arguments
  case numberConstruct => exact .bind (built_numberCall ..) fun v => built_wrap v
  case numberToString => exact built_numberToString this arguments
  case stringCall => exact built_stringCall this arguments
  case stringConstruct => exact .bind (built_stringCall ..) fun v => built_wrap v
  case charAt => exact built_charAt this arguments
  case indexOf => exact built_indexOf this arguments
  case error prototype => exact built_createError prototype this arguments
  case errorToString => exact built_errorToString this arguments

/-- Every native function is built of what it does to objects. -/
theorem Native.built_run (f : Native) (this : Value) (arguments : List Value) :
    Built S K (f.run this arguments) := by
  cases f with
  | core f => exact f.built_run this arguments
  | constant v => exact .pure v
  | failure e => exact .throw e
  | receiver => exact .pure this
  | argument index => exact .pure _
  | argumentCount => exact .pure _
  | freshObject => exact .map _ .createPlain

end AbstractScript
