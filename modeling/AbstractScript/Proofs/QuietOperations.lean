import AbstractScript.Proofs.NativeFunctions

/-!
# Relations that operations keep

What an operation is built of decides what it keeps (`Op.Built.keeps`): an operation that only reads
keeps every relation that reports, new objects and native functions keep (`Reading`), and one that
changes objects or bindings keeps the relation if these changes do (`Changing`, `Defining`,
`Rebinding`). How deep native functions run each other is bounded, and by induction on this depth all
of them keep every relation that operations on objects keep (`Native.keeps_callWithin`).

In particular operations and native functions are *quiet*: whatever they do, they do to objects and
environments.
-/
namespace AbstractScript

open Eval

/-! ## Reading -/

/-- A relation between machines that reports, new objects that cannot be called, and the native
functions of the machine keep. -/
class Reading [Natives] (R : Machine → Machine → Prop) : Prop extends IsPreorder Machine R where
  aside : ∀ {m n}, m.Aside n → R m n
  addObject : ∀ (m : Machine) (record : ObjectRecord), record.IsNew m.realm.ambiguityLevel →
    R m (m.addObject record)
  native : ∀ {s m} {f : ObjectId} {name native construct},
    (m.realm.object f).callable = some (.native name (some native) construct) →
    ∀ this arguments, NativeEntry.IsProper ⟨m.realm, native, this, arguments⟩ →
      R m ((Natives.call native this arguments).after s m)

section

variable [Natives] {R : Machine → Machine → Prop} [Reading R] {ε : Type}

instance (m : Machine) : Reading (Machine.Since R m) where
  aside h hm := IsTrans.trans _ _ _ hm (Reading.aside h)
  addObject k record new hm := IsTrans.trans _ _ _ hm (Reading.addObject k record new)
  native found this arguments proper hm :=
    IsTrans.trans _ _ _ hm (Reading.native found this arguments proper)

namespace Eval

/-- What only touches the records aside is kept. -/
theorem Keeps.aside {α : Type} {x : Eval ε α} (h : Keeps Machine.Aside x) : Keeps R x :=
  h.mono fun _ _ => Reading.aside

/-- The creation of an object that cannot be called is kept. -/
theorem keeps_create {record : Nat → ObjectRecord} (h : ∀ level, (record level).IsNew level) :
    Keeps R (create record : Eval ε ObjectId) where
  after _ m := Reading.addObject m _ (h _)

theorem keeps_createObject {cls : ObjectClass} (other : cls ≠ .array)
    (prototype : Option ObjectId) : Keeps R (createObject cls prototype : Eval ε ObjectId) :=
  keeps_create fun _ => ⟨rfl, rfl, fun array => absurd array other⟩

theorem keeps_createPlain : Keeps R (createPlain : Eval ε ObjectId) :=
  keeps_create fun _ => ⟨rfl, rfl, nofun⟩

theorem keeps_createArray (elements : List Value) :
    Keeps R (createArray elements : Eval ε ObjectId) :=
  keeps_create fun level => .arrayRecord level elements

end Eval

namespace Op

/-- The steps that keep a relation. -/
abbrev keeping (R : Machine → Machine → Prop) : Steps := fun _ x => Keeps R x

/-- What is built of steps that keep a relation leaves a related machine, from any machine of whose
realm what the operation relies on is true. -/
theorem Built.after {α : Type} {x : Op α} {K : Realm → Prop} (h : Built (keeping R) K x) (s : Setup)
    {m : Machine} (known : K m.realm) : R m (x.after s m) := by
  induction h generalizing s m with
  | pure | throw | options => exact refl m
  | bind _ _ first rest =>
    exact Keeps.bind_at (first s known) fun a => ⟨fun s _ => rest a s trivial⟩
  | look _ _ rest => exact rest m s ⟨known, rfl⟩
  | report => exact (Keeps.aside reportMaxIterations_keeps).after s m
  | create new => exact (keeps_create new).after s m
  | native proper =>
    obtain ⟨⟨_, _, _, provided⟩, proper⟩ := proper _ known
    exact Reading.native provided _ _ proper
  | step taken => exact taken.after s m

/-- What is built of steps that keep a relation keeps it. -/
theorem Built.keeps {α : Type} {x : Op α} (h : Built (keeping R) (fun _ => True) x) : Keeps R x :=
  ⟨fun s _ => h.after s trivial⟩

omit [Reading R] in
/-- An accessor does what the native function behind it does. -/
theorem callAccessor_at [IsPreorder Machine R] {f : ObjectId} {this : Value} {arguments : List Value}
    {s : Setup} {m : Machine} (h : ∀ text native construct,
      (m.realm.object f).callable = some (.native text (some native) construct) →
        R m ((Natives.call native this arguments).after s m)) :
    R m ((callAccessor f this arguments).after s m) := by
  rw [callAccessor, after_object_bind]
  split
  next hc => exact h _ _ _ hc
  next => exact (Keeps.pure _).after s m

end Op

end

/-! ## Changing objects and bindings

A definition keeps every relation that changes of the properties of its object keep. An assignment
keeps every relation that reading and defining keep, even if single changes of the object do not.
-/

/-- A relation between machines that a change of the properties of an object keeps. -/
class Changing (o : ObjectId) (R : Machine → Machine → Prop) : Prop where
  modifyObject : ∀ m {f}, (∀ r : ObjectRecord, r.Alike (f r)) → R m (m.modifyObject o f)

variable {R : Machine → Machine → Prop} {o : ObjectId}

theorem Eval.keeps_modifyObject {ε : Type} [Changing o R] {f : ObjectRecord → ObjectRecord}
    (h : ∀ r : ObjectRecord, r.Alike (f r)) : Keeps R (modifyObject o f : Eval ε Unit) :=
  .modify fun m => Changing.modifyObject m h

instance [Changing o R] : Op.Changes o (Op.keeping R) := ⟨keeps_modifyObject⟩

theorem Op.keeps_reject [IsPreorder Machine R] (strict : Bool) (name : String) :
    Keeps R (reject strict name) := by
  unfold reject
  split
  · exact .throw _
  · exact .pure _

/-- A relation between machines that is kept when a property of an object is defined or deleted, and
when the object is closed. -/
class Defining [Natives] (o : ObjectId) (R : Machine → Machine → Prop) : Prop where
  define : ∀ name d strict, Keeps R (Op.define o name d strict)
  delete : ∀ name strict, Keeps R (Op.delete o name strict)
  preventExtensions : Keeps R (modifyObject o (·.preventExtensions) : Op Unit)

/-- A relation between machines that all operations on objects keep. -/
class Operating [Natives] (R : Machine → Machine → Prop) : Prop extends Reading R where
  defining : ∀ o, Defining o R

attribute [instance] Operating.defining

/-- Other bindings leave the rest of an environment as it is. -/
theorem Op.alike_withBindings (f : Bindings → Bindings) (env : Environment) :
    env.Alike (match env.store with
      | .own bindings => { env with store := .own (f bindings) }
      | .properties .. => env) := by
  split
  next own => exact ⟨rfl, rfl, by simp [own]⟩
  next => exact .refl env

/-- A relation between machines that is kept by operations on objects and when the bindings of an
environment change. -/
class Rebinding [Natives] (R : Machine → Machine → Prop) : Prop extends Operating R where
  modifyEnvironment : ∀ m e {f}, (∀ env : Environment, env.Alike (f env)) →
    R m (m.modifyEnvironment e f)

section

variable [Natives]

instance [Defining o R] : Op.Defines o (Op.keeping R) :=
  ⟨Defining.define, Defining.delete, Defining.preventExtensions⟩

instance [Reading R] [Changing o R] : Defining o R where
  define name d strict := (Op.built_define_of_changes name d strict).keeps
  delete name strict := (Op.built_delete_of_changes name strict).keeps
  preventExtensions := keeps_modifyObject fun _ => ⟨rfl, rfl, rfl, rfl, rfl⟩

instance [Reading R] [∀ o, Changing o R] : Operating R where
  defining _ := inferInstance

theorem Op.keeps_modifyBindings {ε : Type} [Rebinding R] (e : EnvId) (f : Bindings → Bindings) :
    Keeps R (modifyBindings e f : Eval ε Unit) :=
  .modify fun m => Rebinding.modifyEnvironment m e (alike_withBindings f)

instance [Rebinding R] : Op.Rebinds (Op.keeping R) where
  defines _ := inferInstance
  modifyBindings := Op.keeps_modifyBindings

end

/-! ## Native functions that run each other -/

/-- Native functions keep every relation that is kept by what they do to objects and by the record of
those that may be entered, however deep they run each other. -/
theorem Native.callWithin_at {R : Machine → Machine → Prop} [IsPreorder Machine R]
    (defining : ∀ [Natives] [Reading R] o, Defining o R)
    (aside : ∀ {m n : Machine}, m.Aside n → R m n)
    (addObject : ∀ (m : Machine) (record : ObjectRecord), record.IsNew m.realm.ambiguityLevel →
      R m (m.addObject record))
    {P : NativeEntry → Prop} (proper : ∀ e : NativeEntry, e.IsProper → P e)
    (enter : ∀ (m : Machine) f this arguments, P ⟨m.realm, f, this, arguments⟩ →
      R m (m.enterNative f this arguments))
    (depth : Nat) {f : Native} {this : Value} {arguments : List Value} {s : Setup} {m : Machine}
    (admitted : P ⟨m.realm, f, this, arguments⟩) :
    R m ((callWithin depth f this arguments).after s m) := by
  induction depth generalizing f this arguments s m with
  | zero => exact (Keeps.throw _).after s m
  | succ depth ih =>
    let natives : Natives := ⟨callWithin depth⟩
    have reading : Reading R :=
      { aside, addObject, native := fun _ _ _ h => ih (proper _ h) }
    have operating : Operating R := { defining := defining }
    exact Keeps.bind_at (enter m f this arguments admitted) fun _ => (f.built_run this arguments).keeps

/-- A relation that does not depend on what is entered is kept by native functions with any
operands. -/
theorem Native.keeps_callWithin_of_defining {R : Machine → Machine → Prop} [IsPreorder Machine R]
    (defining : ∀ [Natives] [Reading R] o, Defining o R)
    (aside : ∀ {m n : Machine}, m.Aside n → R m n)
    (addObject : ∀ (m : Machine) (record : ObjectRecord), record.IsNew m.realm.ambiguityLevel →
      R m (m.addObject record))
    (enter : ∀ (m : Machine) f this arguments, R m (m.enterNative f this arguments))
    (depth : Nat) (f : Native) (this : Value) (arguments : List Value) :
    Keeps R (callWithin depth f this arguments) :=
  ⟨fun _ _ => callWithin_at (P := fun _ => True) defining aside addObject (fun _ _ => trivial)
    (fun m f this arguments _ => enter m f this arguments) depth trivial⟩

theorem Native.keeps_callWithin {R : Machine → Machine → Prop} [IsPreorder Machine R]
    [∀ o, Changing o R] (aside : ∀ {m n : Machine}, m.Aside n → R m n)
    (addObject : ∀ (m : Machine) (record : ObjectRecord), record.IsNew m.realm.ambiguityLevel →
      R m (m.addObject record))
    (enter : ∀ (m : Machine) f this arguments, R m (m.enterNative f this arguments))
    (depth : Nat) (f : Native) (this : Value) (arguments : List Value) :
    Keeps R (callWithin depth f this arguments) :=
  keeps_callWithin_of_defining (fun _ => inferInstance) aside addObject enter depth f this arguments

/-! ## Quiet operations -/

/-- A quiet computation. -/
abbrev Eval.IsQuiet {ε α : Type} (x : Eval ε α) : Prop := Keeps Machine.Quiet x

/-- The native functions are quiet. -/
class QuietNatives [Natives] : Prop where
  call : ∀ f this arguments, IsQuiet (Natives.call f this arguments)

instance [Natives] [QuietNatives] : Reading Machine.Quiet where
  aside := Machine.Aside.quiet
  addObject m record _ := ⟨rfl, rfl, rfl, rfl, .addObject m.realm record, .of_eq rfl rfl, .of_eq⟩
  native := fun _ this arguments _ => (QuietNatives.call _ this arguments).after _ _

instance (o : ObjectId) : Changing o Machine.Quiet := ⟨fun m _ h => .modifyObject m o h⟩

namespace Eval

variable {ε : Type}

theorem isQuiet_create (record : Nat → ObjectRecord) : IsQuiet (create record : Eval ε ObjectId) :=
  .modifyGet fun m => ⟨rfl, rfl, rfl, rfl, .addObject m.realm _, .of_eq rfl rfl, .of_eq⟩

theorem isQuiet_createEnvironment (e : Environment) :
    IsQuiet (createEnvironment e : Eval ε EnvId) :=
  .modifyGet fun m => ⟨rfl, rfl, rfl, rfl, .addEnvironment m.realm _, .of_eq rfl rfl, .of_eq⟩

theorem isQuiet_createScript (code : FunctionCode) (scope : EnvId) :
    IsQuiet (createScript code scope : Eval ε ObjectId) := by
  refine ⟨fun s m => ?_⟩
  let k := m.addObject (Realm.functionRecord m.realm.ambiguityLevel (.script ⟨code, scope⟩))
  have made : m.Quiet k := ⟨rfl, rfl, rfl, rfl, .addObject m.realm _, .of_eq rfl rfl, .of_eq⟩
  have script : k.realm.IsScript m.realm.nextObject := by
    refine ⟨by simp [k, Machine.addObject, Realm.addObject, Realm.nextObject], ⟨code, scope⟩, ?_⟩
    show ((m.realm.addObject _).object _).callable = _
    rw [Realm.object_addObject, if_pos rfl]
    rfl
  have first : (createFunction (.script ⟨code, scope⟩) : Eval ε ObjectId) s m =
      .ok m.realm.nextObject k := rfl
  rw [createScript, after_bind_ok first]
  refine IsTrans.trans _ _ _ made (Keeps.start (R := Machine.Quiet) ?_ s)
  refine .bind ((isQuiet_create _).since k) fun p => ?_
  refine .bind ((keeps_modifyObject fun r => ?_).since k) fun _ => ?_
  · exact (ObjectRecord.Alike.store ..).trans (.store ..)
  refine .bind ((keeps_modifyObject fun r => .store ..).since k) fun _ => ?_
  refine .bind (.modify fun n hn => ?_) fun _ => .pure _
  -- the function was there before its properties were stored, and it is one still
  have added : n.Logs (n.addScript m.realm.nextObject) := by
    refine ⟨by simp [Machine.addScript], List.prefix_refl _, fun f hf => ?_⟩
    rcases Array.mem_push.1 hf with earlier | rfl
    · exact .inl earlier
    · exact .inr (script.grow hn.grows)
  exact IsTrans.trans _ _ _ hn ⟨rfl, rfl, rfl, rfl, .refl n.realm, added, .of_eq⟩

end Eval

section

variable [Natives] [QuietNatives]

namespace Op

instance : Rebinding Machine.Quiet where
  modifyEnvironment m e _ h := .modifyEnvironment m e h

theorem isQuiet_setBinding (e : EnvId) (name : String) (v : Value) :
    IsQuiet (setBinding e name v) := (built_setBinding e name v).keeps

theorem isQuiet_createBinding (e : EnvId) (name : String) (deletable : Bool) :
    IsQuiet (createBinding e name deletable) :=
  (built_createBinding e name deletable).keeps

theorem isQuiet_putValue (r : Reference) (v : Value) : IsQuiet (putValue r v) :=
  (built_putValue r v).keeps

theorem declares_quiet (e : EnvId) : Declares e (fun _ => True) (keeping Machine.Quiet) where
  createBinding := isQuiet_createBinding e
  setBinding := isQuiet_setBinding e
  createScript _ scope := isQuiet_createScript _ scope

theorem isQuiet_instantiate (e : EnvId) (body : List Statement) (arguments : Option ObjectId) :
    IsQuiet (instantiate e body arguments) :=
  (built_instantiate (declares_quiet e) (fun _ _ => trivial) arguments).keeps

theorem isQuiet_bindParameters (e : EnvId) (parameters : List Identifier)
    (arguments : List Value) : IsQuiet (bindParameters e parameters arguments) :=
  (built_bindParameters (declares_quiet e) parameters arguments).keeps

end Op

end

theorem Eval.isQuiet_createFunctionValue {ε : Type} (code : FunctionCode) :
    IsQuiet (createFunctionValue code : Eval ε ObjectId) := by
  refine .bind .get fun m => ?_
  split
  · exact isQuiet_createScript ..
  · refine .bind (isQuiet_createEnvironment _) fun e => ?_
    refine .bind (isQuiet_createScript ..) fun f => ?_
    exact .bind (.modify fun m => .modifyEnvironment m e (Op.alike_withBindings _)) fun _ => .pure f

/-- Native functions are quiet, however deep they run each other. -/
theorem Native.isQuiet_callWithin (depth : Nat) (f : Native) (this : Value)
    (arguments : List Value) : IsQuiet (callWithin depth f this arguments) :=
  keeps_callWithin Machine.Aside.quiet
    (fun m record _ => ⟨rfl, rfl, rfl, rfl, .addObject m.realm record, .of_eq rfl rfl, .of_eq⟩)
    (fun m _ _ _ => ⟨rfl, rfl, rfl, rfl, .refl m.realm, .of_eq rfl rfl, .of_eq⟩) depth f this arguments

instance : QuietNatives := ⟨Native.isQuiet_callWithin Native.nestingLimit⟩

/-! ## Deletion -/

namespace Rule

theorem isQuiet_deleteReference (r : Reference) : IsQuiet (deleteReference r) :=
  (built_deleteReference r).keeps

end Rule

end AbstractScript
