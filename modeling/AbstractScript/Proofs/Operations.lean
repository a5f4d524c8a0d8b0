import AbstractScript.Proofs.Quiet

/-!
# What operations are built of

An operation that reads, converts, compares or computes looks at the realm and at the contexts, and
beyond that it does three things only: it reports, it adds objects that cannot be called, and it runs
native functions that the realm has, none of them with unknown operands. Other operations also change
objects or environments, by *steps* of a few kinds. That an operation is *built* of reading and of
steps of some kind is shown once for each operation (`Op.Built`); what holds of all that is built of
such steps then holds of every operation.
-/
namespace AbstractScript

open Eval

/-! ## New objects and native functions -/

/-- An object as it is created at a level. It cannot be called, and an array has the elements that it
is created with. -/
structure ObjectRecord.IsNew (level : Nat) (r : ObjectRecord) : Prop where
  callable : r.callable = none
  createdLevel : r.createdLevel = level
  array : r.cls = .array → ∃ elements, r = Realm.arrayRecord level elements

/-- A new array has the elements that it is created with. -/
theorem ObjectRecord.IsNew.arrayRecord (level : Nat) (elements : List Value) :
    (Realm.arrayRecord level elements).IsNew level := ⟨rfl, rfl, fun _ => ⟨elements, rfl⟩⟩

/-- A call of some object runs the native function. -/
def Realm.Provides (r : Realm) (f : Native) : Prop :=
  ∃ o text construct, (r.object o).callable = some (.native text (some f) construct)

namespace NativeEntry

/-- The native function is the setter of a property of its receiver, and is to store one value. -/
def IsAssignment (e : NativeEntry) : Prop :=
  e.arguments.length = 1 ∧ ∃ o name getter f listed configurable text construct,
    e.receiver = .object o ∧
    e.realm.property? o name = some (.accessor getter (some f) listed configurable) ∧
    (e.realm.object f).callable = some (.native text (some e.function) construct)

/-- The receiver is known, and so are the arguments, unless a setter is to store one. -/
structure IsProper (e : NativeEntry) : Prop where
  receiver : e.receiver.isUnknown = false
  arguments : Value.anyUnknown e.arguments = true → e.IsAssignment

/-- A native function is entered with known operands. -/
theorem IsProper.of_known {r : Realm} {f : Native} {this : Value} {arguments : List Value}
    (receiver : this.isUnknown = false) (known : Value.anyUnknown arguments = false) :
    IsProper ⟨r, f, this, arguments⟩ :=
  ⟨receiver, fun unknown => absurd (known.symm.trans unknown) nofun⟩

end NativeEntry

/-- To store a property is to leave the rest of a record as it is. -/
theorem ObjectRecord.Alike.store (r : ObjectRecord) (name : String) (d : Descriptor) :
    r.Alike (r.store name d) := ⟨rfl, rfl, rfl, rfl, rfl⟩

/-- So is to remove one. -/
theorem ObjectRecord.Alike.remove (r : ObjectRecord) (name : String) :
    r.Alike (r.remove name) := ⟨rfl, rfl, rfl, rfl, rfl⟩

namespace Op

/-- A kind of steps that an operation may take besides reading. -/
abbrev Steps := (α : Type) → Op α → Prop

/-- An operation is built of reading and of steps of a kind, if it begins in a realm of which
something is known. What is known of the realm is lost with the first thing that is done. -/
inductive Built [Natives] (S : Steps) : (Realm → Prop) → {α : Type} → Op α → Prop where
  | pure {K : Realm → Prop} {α : Type} (a : α) : Built S K (Pure.pure a : Op α)
  | throw {K : Realm → Prop} {α : Type} (e : NativeError) :
    Built S K (MonadExcept.throw e : Op α)
  | bind {K : Realm → Prop} {α β : Type} {x : Op α} {f : α → Op β} (first : Built S K x)
    (rest : ∀ a, Built S (fun _ => True) (f a)) : Built S K (x >>= f)
  /-- A look at the machine sees its realm and its contexts. -/
  | look {K : Realm → Prop} {α : Type} {f : Machine → Op α}
    (same : ∀ m n : Machine, m.realm = n.realm → m.contexts = n.contexts → f m = f n)
    (rest : ∀ m, Built S (fun r => K r ∧ r = m.realm) (f m)) : Built S K (MonadState.get >>= f)
  | options {K : Realm → Prop} {α : Type} (f : Options → α) :
    Built S K (Eval.setup fun s => f s.options)
  | report {K : Realm → Prop} : Built S K (reportMaxIterations : Op Unit)
  | create {K : Realm → Prop} {record : Nat → ObjectRecord}
    (new : ∀ level, (record level).IsNew level) : Built S K (Eval.create record : Op ObjectId)
  | native {K : Realm → Prop} {f : Native} {this : Value} {arguments : List Value}
    (proper : ∀ r, K r → r.Provides f ∧ NativeEntry.IsProper ⟨r, f, this, arguments⟩) :
    Built S K (Natives.call f this arguments)
  | step {K : Realm → Prop} {α : Type} {x : Op α} (taken : S α x) : Built S K x

/-! ## Compositions -/

variable [Natives] {S : Steps} {K : Realm → Prop}

namespace Built

variable {α β : Type}

/-- What follows a look at an object may rely on what the object is like. -/
theorem object_bind {o : ObjectId} {f : ObjectRecord → Op α}
    (rest : ∀ r : Realm, Built S (fun r' => K r' ∧ r' = r) (f (r.object o))) :
    Built S K (Eval.object o >>= f) :=
  .look (f := fun m => f (m.realm.object o)) (fun _ _ same _ => by rw [same]) fun m => rest m.realm

/-- A look at an object depends on the realm. -/
theorem object (o : ObjectId) : Built S K (Eval.object o : Op ObjectRecord) :=
  .look (fun _ _ same _ => by rw [same]) fun _ => .pure _

theorem map (f : α → β) {x : Op α} (h : Built S K x) : Built S K (f <$> x) := by
  rw [map_eq_pure_bind]
  exact .bind h fun a => .pure (f a)

/-- A loop over a list is built of its steps, whatever is known. -/
theorem forM {xs : List α} {f : α → Op Unit} (h : ∀ a ∈ xs, ∀ {K}, Built S K (f a)) :
    Built S K (xs.forM f) := by
  induction xs generalizing K with
  | nil => exact .pure ()
  | cons a xs ih =>
    exact .bind (h a List.mem_cons_self) fun _ => ih fun b hb => h b (List.mem_cons_of_mem a hb)

/-- What is done before the rest if a condition holds. -/
theorem join {p : Prop} [Decidable p] {x : Op α} {rest : α → Op β} {rest' : Op β}
    (hx : Built S K x) (h : ∀ a, Built S (fun _ => True) (rest a)) (h' : Built S K rest') :
    Built S K (if p then x >>= rest else rest') := by
  split
  · exact .bind hx h
  · exact h'

/-- A new object that is no array. -/
theorem createObject {cls : ObjectClass} (other : cls ≠ .array) (prototype : Option ObjectId) :
    Built S K (Eval.createObject cls prototype : Op ObjectId) :=
  .create fun _ => ⟨rfl, rfl, fun array => absurd array other⟩

theorem createPlain : Built S K (Eval.createPlain : Op ObjectId) :=
  .create fun _ => ⟨rfl, rfl, nofun⟩

/-- A new array with its elements. -/
theorem createArray (elements : List Value) :
    Built S K (Eval.createArray elements : Op ObjectId) :=
  .create fun level => .arrayRecord level elements

end Built

/-! ## Conversions -/

omit [Natives] in
/-- A look for a property sees what the object and its prototypes have. -/
theorem property?_apply (o : ObjectId) (name : String) (s : Setup) (m : Machine) :
    property? o name s m = .ok (m.realm.property? o name) m := rfl

/-- What follows a look for a property may rely on what there is. -/
theorem built_property?_bind {α : Type} {o : ObjectId} {name : String}
    {f : Option Descriptor → Op α}
    (rest : ∀ r : Realm, Built S (fun r' => K r' ∧ r' = r) (f (r.property? o name))) :
    Built S K (property? o name >>= f) :=
  .look (f := fun m => f (m.realm.property? o name)) (fun _ _ same _ => by rw [same])
    fun m => rest m.realm

theorem built_property? (o : ObjectId) (name : String) : Built S K (property? o name) :=
  .look (fun _ _ same _ => by rw [same]) fun _ => .pure _

theorem built_hasProperty (o : ObjectId) (name : String) : Built S K (hasProperty o name) :=
  .look (fun _ _ same _ => by rw [same]) fun _ => .pure _

/-- An object is converted by the native functions among its methods, with the object itself for
their receiver. -/
theorem built_convertBy (o : ObjectId) (methods : List String) :
    Built S K (convertBy o methods) := by
  induction methods generalizing K with
  | nil => exact .throw _
  | cons method rest ih =>
    refine .bind (built_property? o method) fun d => ?_
    split
    · exact ih
    · exact .pure _
    · exact .pure _
    · refine .object_bind fun r => ?_
      split
      next native _ provided =>
        refine .bind (.native ?_) fun v => ?_
        · rintro r ⟨-, rfl⟩
          exact ⟨⟨_, _, _, provided⟩, .of_known rfl rfl⟩
        · split
          · exact ih
          · exact .pure v
      · exact .pure _
      · exact ih
    · exact ih

/-- An object is converted by its methods, and a primitive value is what it is. -/
theorem built_toPrimitive (v : Value) (hint : Hint) : Built S K (toPrimitive v hint) := by
  unfold toPrimitive
  split
  · exact built_convertBy ..
  · exact .pure v

/-- A number is what a primitive value says. -/
theorem built_toNumber? (v : Value) : Built S K (toNumber? v) :=
  .bind (built_toPrimitive v _) fun _ => .pure _

/-- A text is what a primitive value says. -/
theorem built_toText? (v : Value) : Built S K (toText? v) :=
  .bind (built_toPrimitive v _) fun _ => .pure _

/-- A primitive is converted to a new object, which cannot be called. -/
theorem built_toObject? (v : Value) : Built S K (toObject? v) := by
  unfold toObject?
  split
  · exact .pure _
  · exact .pure _
  · exact .map _ (.create fun _ => ⟨rfl, rfl, nofun⟩)
  · exact .map _ (.create fun _ => ⟨rfl, rfl, nofun⟩)
  · exact .map _ (.create fun _ => ⟨rfl, rfl, nofun⟩)
  · exact .throw _
  · exact .throw _

/-! ## Reading properties and bindings -/

/-- An accessor runs the native function behind it, if there is one. -/
theorem built_callAccessor {f : ObjectId} {this : Value} {arguments : List Value}
    (proper : ∀ r, K r → ∀ text native construct,
      (r.object f).callable = some (.native text (some native) construct) →
        NativeEntry.IsProper ⟨r, native, this, arguments⟩) :
    Built S K (callAccessor f this arguments) := by
  refine .object_bind fun r => ?_
  split
  next provided =>
    refine .native ?_
    rintro r ⟨known, rfl⟩
    exact ⟨⟨_, _, _, provided⟩, proper r known _ _ _ provided⟩
  · exact .pure _

/-- A property is read for a receiver that is known, since its getter may be run. -/
theorem built_getFor (o : ObjectId) {this : Value} (receiver : this.isUnknown = false)
    (name : String) : Built S K (getFor o this name) := by
  refine .bind (built_property? o name) fun d => ?_
  split
  · exact .pure _
  · exact .pure _
  · exact .pure _
  · exact built_callAccessor fun _ _ _ _ _ _ => .of_known receiver rfl

theorem built_get (o : ObjectId) (name : String) : Built S K (get o name) :=
  built_getFor o rfl name

/-- Of an unknown value nothing is read; all other receivers are known. -/
theorem built_getOf (v : Value) (name : String) : Built S K (getOf v name) := by
  unfold getOf
  split
  · exact .pure _
  · exact built_get ..
  · split
    · exact .pure _
    · exact built_getFor _ rfl name
  next unknown _ _ =>
    have known : v.isUnknown = false := by
      cases v with
      | unknown => exact absurd rfl unknown
      | _ => rfl
    refine .bind (built_toObject? v) fun o => ?_
    split
    · exact built_getFor _ known name
    · exact .pure _

/-- A result that is there already is given, or the error is. -/
theorem built_ofExcept {α : Type} (x : Except NativeError α) : Built S K (ofExcept x) := by
  cases x with
  | ok a => exact .pure a
  | error e => exact .throw e

theorem built_environment (e : EnvId) : Built S K (environment e : Op Environment) :=
  .look (fun _ _ same _ => by rw [same]) fun _ => .pure _

/-- A binding is one of the environment, or a property of the object behind it. -/
theorem built_getBinding (e : EnvId) (name : String) : Built S K (getBinding e name) := by
  refine .bind (built_environment e) fun env => ?_
  split
  · exact built_ofExcept _
  · exact built_get ..

/-- What is referred to is read as the property of a value or as a binding. -/
theorem built_getValue (r : Reference) : Built S K (getValue r) := by
  unfold getValue
  split
  · exact built_getOf ..
  · exact built_getBinding ..
  · exact .throw _
  · exact .pure _

/-! ## Operators -/

/-- Both operands are converted before the operator is applied. -/
theorem built_numeric (f : Float → Float → Float) (a b : Value) : Built S K (numeric f a b) := by
  refine .bind (built_toNumber? a) fun x => ?_
  refine .bind (built_toNumber? b) fun y => ?_
  split <;> exact .pure _

/-- The first operand is converted first. -/
theorem built_compare (a b : Value) : Built S K (compare a b) :=
  .bind (built_toPrimitive a _) fun _ => .bind (built_toPrimitive b _) fun _ => .pure _

/-- What cannot be compared is unknown. -/
theorem built_ordered (test : Ordering → Bool) (a b : Value) : Built S K (ordered test a b) := by
  refine .bind (built_compare a b) fun c => ?_
  split <;> exact .pure _

/-- A text among the operands makes the sum a text. -/
theorem built_addPrimitives (a b : Value) : Built S K (addPrimitives a b) := by
  unfold addPrimitives
  split
  · exact .pure _
  · exact .pure _
  · split <;> exact .pure _
  · split <;> exact .pure _
  · exact built_numeric ..

theorem built_add (a b : Value) : Built S K (add a b) :=
  .bind (built_toPrimitive a _) fun _ => .bind (built_toPrimitive b _) fun _ =>
    built_addPrimitives ..

/-- An object is converted if the other operand is none. -/
theorem built_looselyEqual? (a b : Value) : Built S K (looselyEqual? a b) := by
  unfold looselyEqual?
  split
  · exact .pure _
  · split
    · exact .bind (built_toPrimitive _ _) fun _ => .pure _
    · exact .pure _
  · split
    · exact .bind (built_toPrimitive _ _) fun _ => .pure _
    · exact .pure _
  · exact .pure _

/-- `in` asks for a property of an object, and anything else is an error. -/
theorem built_contains (key target : Value) : Built S K (contains key target) := by
  unfold contains
  split
  · refine .bind (built_toText? key) fun name => ?_
    split
    · exact .bind (built_hasProperty ..) fun _ => .pure _
    · exact .pure _
  · exact .throw _

/-- `instanceof` reads the prototype of a constructor and looks for it among those of a value. -/
theorem built_instanceOf (v constructor : Value) : Built S K (instanceOf v constructor) := by
  unfold instanceOf
  split
  · refine .bind (.object _) fun record => ?_
    extract_lets rest
    have built_rest (u : Unit) : Built S (fun _ => True) (rest u) := by
      unfold rest
      split
      · refine .bind (built_get ..) fun p => ?_
        split
        · exact .look (fun _ _ same _ => by rw [same]) fun _ => .pure _
        · exact .pure _
        · exact .throw _
      · exact .pure _
    exact .join (.throw _) built_rest (built_rest ())
  · exact .throw _

/-- Each operator of known operands is built of conversions and reading. -/
theorem built_applyKnown (operator : BinaryOperator) (a b : Value) :
    Built S K (applyKnown operator a b) := by
  cases operator
  case strictlyEqual | strictlyUnequal => exact .pure _
  case looselyEqual | looselyUnequal =>
    exact .bind (built_looselyEqual? a b) fun _ => .pure _
  case lessThan | lessThanEqual | greaterThan | greaterThanEqual => exact built_ordered ..
  case add => exact built_add a b
  case contains => exact built_contains a b
  case instanceOf => exact built_instanceOf a b
  all_goals exact built_numeric ..

/-- An operator is not applied to an unknown operand. -/
theorem built_apply (operator : BinaryOperator) (a b : Value) :
    Built S K (apply operator a b) := by
  unfold apply
  split
  · exact .pure _
  · exact built_applyKnown ..

theorem built_numericUnary (f : Float → Float) (v : Value) : Built S K (numericUnary f v) :=
  .bind (built_toNumber? v) fun _ => .pure _

/-- The type of a value depends on the realm. -/
theorem built_typeOf (v : Value) : Built S K (typeOf v) :=
  .look (fun _ _ same _ => by rw [same]) fun _ => .pure _

/-! ## Changes of one object

To define or to delete a property is to read and to change the properties of the object.
-/

/-- Steps of a kind may change the properties of an object. -/
class Changes (o : ObjectId) (S : Steps) : Prop where
  modifyObject : ∀ {f}, (∀ r : ObjectRecord, r.Alike (f r)) → S Unit (Eval.modifyObject o f)

/-- A refusal is an error or a result, by strictness. -/
theorem built_reject (strict : Bool) (name : String) : Built S K (reject strict name) := by
  unfold reject
  split
  · exact .throw _
  · exact .pure _

section

variable {o : ObjectId} [Changes o S]

theorem built_store (name : String) (d : Descriptor) :
    Built S K (modifyObject o (·.store name d) : Op Unit) :=
  .step (Changes.modifyObject fun r => .store r name d)

theorem built_remove (name : String) : Built S K (modifyObject o (·.remove name) : Op Unit) :=
  .step (Changes.modifyObject fun r => .remove r name)

/-- A length is stored as a property. -/
theorem built_setLength (n : Nat) (writable : Bool) : Built S K (setLength o n writable) :=
  built_store ..

/-- What a record accepts is stored in it. -/
theorem built_defineOrdinary (name : String) (d : Definition) (strict : Bool) :
    Built S K (defineOrdinary o name d strict) := by
  refine .bind (.object o) fun record => ?_
  split
  · exact .bind (built_store ..) fun _ => .pure _
  · split
    · exact .throw _
    · exact .pure _

/-- A new element may make its array longer. -/
theorem built_defineElement (index : Nat) (name : String) (d : Definition) (strict : Bool) :
    Built S K (defineElement o index name d strict) := by
  refine .bind (.object o) fun record => ?_
  split
  · exact built_defineOrdinary ..
  · split
    · exact built_reject ..
    · refine .bind (built_defineOrdinary ..) fun defined => ?_
      split
      · exact .join (built_setLength ..) (fun _ => .pure _) (.pure _)
      · exact built_reject ..

/-- By induction on the elements, they are removed from the last on. -/
theorem built_removeElements (indices : List Nat) : Built S K (removeElements o indices) := by
  induction indices generalizing K with
  | nil => exact .pure _
  | cons index rest ih =>
    refine .bind (.object o) fun record => ?_
    split
    · exact .bind (built_remove ..) fun _ => ih
    · exact .pure _

/-- A shorter length is accepted before elements are removed. -/
theorem built_truncate (length : Nat) (d : Definition) (strict : Bool) :
    Built S K (truncate o length d strict) := by
  unfold truncate
  refine .bind (built_defineOrdinary ..) fun defined => ?_
  split
  · exact .pure _
  · refine .bind (.object o) fun record => ?_
    refine .bind (built_removeElements ..) fun left => ?_
    split
    · exact .bind (built_setLength ..) fun _ => built_reject ..
    · exact .join (built_defineOrdinary ..) (fun _ => .pure _) (.pure _)

/-- A new length is converted to a number, and it removes elements if it is less than the old one. -/
theorem built_defineLength (d : Definition) (strict : Bool) :
    Built S K (defineLength o d strict) := by
  unfold defineLength
  split
  · exact built_defineOrdinary ..
  · refine .bind (built_toNumber? _) fun x => ?_
    split
    · exact built_defineOrdinary ..
    · extract_lets length d rest
      have built_rest (u : Unit) : Built S (fun _ => True) (rest u) := by
        refine .bind (.object o) fun record => ?_
        split
        · exact built_defineOrdinary ..
        · split
          · exact built_defineOrdinary ..
          · split
            · exact built_reject ..
            · exact built_truncate ..
      exact .join (.throw _) built_rest (built_rest ())

/-- To define a property is to change the properties of its object, after conversions. -/
theorem built_define_of_changes (name : String) (d : Definition) (strict : Bool) :
    Built S K (define o name d strict) := by
  refine .bind (.object o) fun record => ?_
  split
  · exact built_defineOrdinary ..
  · split
    · exact built_defineLength ..
    · split
      · exact built_defineElement ..
      · exact built_defineOrdinary ..

/-- What can be deleted is removed. -/
theorem built_delete_of_changes (name : String) (strict : Bool) :
    Built S K (delete o name strict) := by
  refine .bind (.object o) fun record => ?_
  split
  · exact .bind (built_remove ..) fun _ => .pure _
  · split
    · exact .throw _
    · exact .pure _

end

/-! ## Definitions and assignments -/

/-- Steps of a kind may define and delete properties of an object, and close it. -/
class Defines (o : ObjectId) (S : Steps) : Prop where
  define : ∀ name d strict, S Bool (Op.define o name d strict)
  delete : ∀ name strict, S Bool (Op.delete o name strict)
  preventExtensions : S Unit (modifyObject o (·.preventExtensions))

omit [Natives] in
/-- The same writes are ambiguous in the same contexts. -/
theorem isAmbiguousWrite_of_contexts {m n : Machine} (same : m.contexts = n.contexts) :
    m.isAmbiguousWrite = n.isAmbiguousWrite := by
  funext level
  rw [Machine.isAmbiguousWrite, Machine.isAmbiguousWrite, Machine.level, Machine.level, same]

section

variable {o : ObjectId} [Defines o S]

theorem built_define (name : String) (d : Definition) (strict : Bool) :
    Built S K (define o name d strict) := .step (Defines.define name d strict)

theorem built_delete (name : String) (strict : Bool) : Built S K (delete o name strict) :=
  .step (Defines.delete name strict)

theorem built_preventExtensions : Built S K (modifyObject o (·.preventExtensions) : Op Unit) :=
  .step Defines.preventExtensions

theorem built_createData (name : String) (v : Value) : Built S K (createData o name v) :=
  built_define ..

omit [Defines o S] in
/-- Whether a write is ambiguous depends on the contexts. -/
theorem built_weaken (level : Nat) (v : Value) : Built S K (weaken level v : Op Value) :=
  .look (fun _ _ _ same => by rw [isAmbiguousWrite_of_contexts same]) fun _ => .pure _

/-- An assignment defines a property or runs a setter, perhaps for an unknown value. -/
theorem built_put (name : String) (v : Value) (strict : Bool) : Built S K (put o name v strict) := by
  refine .look (fun _ _ same _ => by rw [same]) fun m => ?_
  split
  · split
    · exact .bind (.throw _) fun _ => .pure _
    · exact .pure _
  · refine .bind (.object o) fun record => ?_
    refine .bind (built_weaken ..) fun v => ?_
    split
    · exact .bind (built_define ..) fun _ => .pure _
    · refine built_property?_bind fun r => ?_
      split
      next found =>
        refine .bind (built_callAccessor ?_) fun _ => .pure _
        rintro r ⟨-, rfl⟩ text native construct provided
        exact ⟨rfl, fun _ => ⟨rfl, o, name, _, _, _, _, text, construct, rfl, found, provided⟩⟩
      · exact .bind (built_define ..) fun _ => .pure _

end

/-! ## Bindings -/

/-- Steps of a kind may change objects and the bindings of environments. -/
class Rebinds (S : Steps) : Prop where
  defines : ∀ o, Defines o S
  modifyBindings : ∀ e f, S Unit (Op.modifyBindings e f)

attribute [instance] Rebinds.defines

section

variable [Rebinds S]

theorem built_modifyBindings (e : EnvId) (f : Bindings → Bindings) :
    Built S K (modifyBindings e f : Op Unit) := .step (Rebinds.modifyBindings e f)

/-- A binding of a global name is a property. -/
theorem built_deleteBinding (e : EnvId) (name : String) : Built S K (deleteBinding e name) := by
  refine .bind (built_environment e) fun env => ?_
  split
  · exact .bind (built_modifyBindings ..) fun _ => .pure _
  · exact built_delete ..

/-- An assignment to a name changes a binding or a property. -/
theorem built_setBinding (e : EnvId) (name : String) (v : Value) :
    Built S K (setBinding e name v) := by
  refine .bind (built_environment e) fun env => ?_
  refine .bind (built_weaken ..) fun v => ?_
  refine .bind (built_environment e) fun env => ?_
  split
  · split
    · exact built_modifyBindings ..
    · exact .throw _
  · exact built_put ..

/-- A name is created as a binding or as a property. -/
theorem built_createBinding (e : EnvId) (name : String) (deletable : Bool) :
    Built S K (createBinding e name deletable) := by
  refine .bind (built_environment e) fun env => ?_
  split
  · exact built_modifyBindings ..
  · exact .bind (built_define ..) fun _ => .pure _

/-- What is referred to is assigned as the property of an object or as a binding. -/
theorem built_putValue (r : Reference) (v : Value) : Built S K (putValue r v) := by
  unfold putValue
  split
  · exact built_put ..
  · exact built_setBinding ..
  · exact built_put ..
  · exact .throw _
  · exact .throw _
  · exact .pure _
  · exact .pure _

end

/-! ## Declarations -/

/-- Steps of a kind may bind names in an environment and create functions of the program. -/
structure Declares (e : EnvId) (P : FunctionCode → Prop) (S : Steps) : Prop where
  createBinding : ∀ name deletable, S Unit (Op.createBinding e name deletable)
  setBinding : ∀ name v, S Unit (Op.setBinding e name v)
  createScript : ∀ {code}, P code → ∀ scope, S ObjectId (Eval.createScript code scope)

section

variable {e : EnvId} {P : FunctionCode → Prop} (h : Declares e P S)

include h

/-- A name that is bound already is not bound again. -/
theorem built_declare (name : String) : Built S K (declare e name) := by
  refine .look (fun _ _ same _ => by rw [same]) fun m => ?_
  split
  · exact .step (h.createBinding name false)
  · exact .pure _

/-- A function is created before its name is bound to it. -/
theorem built_declareFunction {code : FunctionCode} (hcode : P code) :
    Built S K (declareFunction e code) := by
  refine .look (fun _ _ _ same => by rw [Machine.lexicalEnv, Machine.lexicalEnv, same]) fun m => ?_
  exact .bind (.step (h.createScript hcode _)) fun f =>
    .bind (built_declare h _) fun _ => .step (h.setBinding ..)

/-- `arguments` is not bound if the name is taken. -/
theorem built_declareArguments (o : ObjectId) : Built S K (declareArguments e o) := by
  refine .look (fun _ _ same _ => by rw [same]) fun m => ?_
  split
  · exact .bind (.step (h.createBinding ..)) fun _ => .step (h.setBinding ..)
  · exact .pure _

/-- A body declares the functions that are hoisted out of it, `arguments` and its variables. -/
theorem built_instantiate {body : List Statement} (hbody : ∀ code ∈ hoistedFunctions body, P code)
    (arguments : Option ObjectId) : Built S K (instantiate e body arguments) := by
  have declared {K : Realm → Prop} : Built S K (declareAll e (varNames body)) :=
    .forM fun name _ {_} => built_declare h name
  refine .bind (.forM fun code hcode {_} => built_declareFunction h (hbody code hcode)) fun _ => ?_
  split
  · exact .bind (built_declareArguments h _) fun _ => declared
  · exact declared

/-- By induction on the parameters, each is bound and assigned. -/
theorem built_bindParameters (parameters : List Identifier) (arguments : List Value) :
    Built S K (bindParameters e parameters arguments) := by
  induction parameters generalizing K arguments with
  | nil => exact .pure _
  | cons p rest ih =>
    exact .bind (built_declare h _) fun _ => .bind (.step (h.setBinding ..)) fun _ => ih _

end

end Op

/-! ## Deletion -/

namespace Rule

open Op

variable {S : Steps} {K : Realm → Prop}

/-- A property that may or may not be removed is assigned an unknown value instead. -/
theorem built_deleteProperty {o : ObjectId} [Defines o S] (name : String) :
    Built S K (deleteProperty o name) := by
  refine .look (fun _ _ _ same => by rw [isAmbiguousWrite_of_contexts same]) fun m => ?_
  refine .bind (.object o) fun record => ?_
  split
  · refine .bind (.object o) fun record => ?_
    split
    · exact .bind (built_put name .unknown false) fun _ => .pure _
    · exact .pure _
  · exact .bind (built_delete name false) fun _ => .pure _

/-- What is referred to is removed as a property or as a binding. -/
theorem built_deleteReference [Rebinds S] (r : Reference) : Built S K (deleteReference r) := by
  unfold deleteReference
  split
  · exact .pure _
  · exact .pure _
  · exact .pure _
  · exact built_deleteProperty ..
  · exact .pure _
  · exact .bind (built_deleteBinding ..) fun _ => .pure _

end Rule

end AbstractScript
