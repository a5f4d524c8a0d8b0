import AbstractScript.Proofs.ArrayLength
import AbstractScript.Proofs.Blurring

/-!
# Functions that are called are run

A function of the program counts as called when the call begins, and runs when its body is entered in
a context of its own. In between the call may be refused: too many contexts are there already. This
is the only reason for a function that was called not to run, and it is reported
(`Machine.Serves`).

With `new` a function is asked for the prototype of its instances first. This never fails, since the
property that holds it stays a value for ever (`ObjectRecord.HasInstances`).
-/
namespace AbstractScript

open Eval Machine

/-! ## Prototypes of instances -/

namespace ObjectRecord

variable {r r' : ObjectRecord}

/-- The object is no array, and its property `prototype` is a value that stays one. -/
def HasInstances (r : ObjectRecord) : Prop :=
  r.cls ≠ .array ∧ ∃ d, r.own? "prototype" = some d ∧ d.isData = true ∧ d.isConfigurable = false

/-- What lasts of an object keeps its instances. -/
theorem HasInstances.lasting (h : r.HasInstances) (last : r.Lasting r') : r'.HasInstances := by
  obtain ⟨other, d, own, data, fixed⟩ := h
  obtain ⟨d', own', lasting⟩ := last.property "prototype" d own fixed
  exact ⟨last.cls ▸ other, d', own', lasting.kind.trans data, lasting.configurable⟩

/-- A property that is stored keeps the instances unless it is `prototype` and may go. -/
theorem HasInstances.store (h : r.HasInstances) {name : String} {d : Descriptor}
    (given : name = "prototype" → d.isData = true ∧ d.isConfigurable = false) :
    (r.store name d).HasInstances := by
  obtain ⟨other, p, own, data, fixed⟩ := h
  refine ⟨other, ?_⟩
  rw [own?_store]
  split
  next same => exact ⟨d, rfl, given same.symm⟩
  next => exact ⟨p, own, data, fixed⟩

/-- The prototype of instances is looked up without a look at other objects. -/
theorem HasInstances.exists_apply {m : Machine} {f : ObjectId}
    (h : (m.realm.object f).HasInstances) (s : Setup) :
    ∃ p, instancePrototype f s m = .ok p m := by
  obtain ⟨-, d, own, data, -⟩ := h
  have found : m.realm.property? f "prototype" = some d := Realm.property?_of_own own
  cases d with
  | accessor => cases data
  | data v w e c =>
    have read : Op.get f "prototype" s m = .ok v m := by
      rw [Op.get, Op.getFor, bind_apply, Op.property?_apply]
      dsimp only
      rw [found]
      rfl
    cases v <;> exact ⟨_, bind_eq_ok_iff.2 ⟨_, _, read, rfl⟩⟩

end ObjectRecord

/-! ## Calls that are followed -/

/-- The function is the running one. -/
def Moment.Runs (x : Moment) (f : ObjectId) : Prop :=
  x.contexts.running?.bind Context.function = some f

namespace Machine

variable {m n k : Machine} {f : ObjectId}

/-- The function was the running one at a moment of the run so far: its body was entered. -/
def HasRun (m : Machine) (f : ObjectId) : Prop := ∃ x, m.course x x ∧ x.Runs f

/-- The function was called, but has not run. -/
def Awaits (m : Machine) (f : ObjectId) : Prop := f ∈ m.invoked ∧ ¬ m.HasRun f

/-- No call was refused. -/
def AllFollowed (m : Machine) : Prop := ∀ d ∈ m.diagnostics, d.kind ≠ .maxRecursion

/-- The functions of the program can be called, also with `new`, and what was called is there. -/
structure Sane (m : Machine) : Prop where
  script : ∀ f ∈ m.scripts, m.realm.IsScript f
  instances : ∀ f ∈ m.scripts, (m.realm.object f).HasInstances
  invoked : ∀ f ∈ m.invoked, f.index < m.realm.objects.size

/-- The run goes on, and the functions of the program that were called run, unless a call is
refused or it was so before. -/
structure Serves (m n : Machine) : Prop where
  grows : m.realm.Grows n.realm
  course : ∀ x y, m.course x y → n.course x y
  diagnostics : ∀ d ∈ m.diagnostics, d ∈ n.diagnostics
  invoked : ∀ f ∈ m.invoked, f ∈ n.invoked
  /-- What is added to the functions of the program is new. -/
  fresh : ∀ f ∈ n.scripts, f.index < m.realm.objects.size → f ∈ m.scripts
  instances : ∀ f, (m.realm.object f).HasInstances → (n.realm.object f).HasInstances
  sane : m.Sane → n.Sane
  served : m.Sane → n.AllFollowed → ∀ f ∈ n.scripts, n.Awaits f → m.Awaits f

/-- What has run by one moment has run by a later one. -/
theorem HasRun.later (h : m.HasRun f) (course : ∀ x y, m.course x y → n.course x y) :
    n.HasRun f := by
  obtain ⟨x, before, runs⟩ := h
  exact ⟨x, course x x before, runs⟩

/-- No call was refused earlier if none was refused later. -/
theorem AllFollowed.earlier (h : n.AllFollowed) (diagnostics : ∀ d ∈ m.diagnostics, d ∈ n.diagnostics) :
    m.AllFollowed := fun d hd => h d (diagnostics d hd)

instance : IsPreorder Machine Serves where
  refl m :=
    { grows := .refl _
      course := fun _ _ => id
      diagnostics := fun _ => id
      invoked := fun _ => id
      fresh := fun _ hf _ => hf
      instances := fun _ => id
      sane := id
      served := fun _ _ _ _ => id }
  trans m n k h h' :=
    { grows := h.grows.trans h'.grows
      course := fun x y => h'.course x y ∘ h.course x y
      diagnostics := fun _ => h'.diagnostics _ ∘ h.diagnostics _
      invoked := fun _ => h'.invoked _ ∘ h.invoked _
      fresh := fun f hf there =>
        h.fresh f (h'.fresh f hf (Nat.lt_of_lt_of_le there h.grows.objects)) there
      instances := fun _ => h'.instances _ ∘ h.instances _
      sane := h'.sane ∘ h.sane
      served := fun sane followed f hf awaits => by
        have awaited : n.Awaits f := h'.served (h.sane sane) followed f hf awaits
        have there : f ∈ n.scripts := h'.fresh f hf ((h.sane sane).invoked f awaited.1)
        exact h.served sane (followed.earlier h'.diagnostics) f there awaited }

namespace Serves

/-- No function is created or called. -/
theorem of_same (grows : m.realm.Grows n.realm) (course : ∀ x y, m.course x y → n.course x y)
    (instances : ∀ f, (m.realm.object f).HasInstances → (n.realm.object f).HasInstances)
    (invoked : n.invoked = m.invoked) (scripts : n.scripts = m.scripts)
    (diagnostics : ∀ d ∈ m.diagnostics, d ∈ n.diagnostics) :
    m.Serves n where
  grows := grows
  course := course
  diagnostics := diagnostics
  invoked _ hf := invoked ▸ hf
  fresh _ hf _ := scripts ▸ hf
  instances := instances
  sane h :=
    { script := fun f hf => (h.script f (scripts ▸ hf)).grow grows
      instances := fun f hf => instances f (h.instances f (scripts ▸ hf))
      invoked := fun f hf => Nat.lt_of_lt_of_le (h.invoked f (invoked ▸ hf)) grows.objects }
  served _ _ _ _ awaits := ⟨invoked ▸ awaits.1, fun ran => awaits.2 (ran.later course)⟩

/-- No object changes. -/
theorem of_realm (realm : n.realm.objects = m.realm.objects) (grows : m.realm.Grows n.realm)
    (course : ∀ x y, m.course x y → n.course x y)
    (invoked : n.invoked = m.invoked) (scripts : n.scripts = m.scripts)
    (diagnostics : ∀ d ∈ m.diagnostics, d ∈ n.diagnostics) :
    m.Serves n := by
  refine of_same grows course (fun f h => ?_) invoked scripts diagnostics
  rw [Realm.object, realm]
  exact h

/-- Records aside from the run serve no function, and let none wait. -/
theorem of_aside (h : m.Aside n) : m.Serves n :=
  of_realm (congrArg Realm.objects h.realm) (h.realm ▸ .refl _) (fun _ _ => h.course ▸ id)
    (congrArg Moment.invoked h.moment) (congrArg Moment.scripts h.moment)
    fun _ hd => Array.mem_toList_iff.1 (h.logs.diagnostics.subset (Array.mem_toList_iff.2 hd))

/-- Nothing changes that is told of functions and calls. -/
theorem of_eq (realm : n.realm = m.realm) (course : n.course = m.course)
    (invoked : n.invoked = m.invoked) (scripts : n.scripts = m.scripts)
    (diagnostics : n.diagnostics = m.diagnostics) : m.Serves n :=
  of_realm (congrArg Realm.objects realm) (realm ▸ .refl _) (fun _ _ => course ▸ id) invoked scripts
    fun _ => diagnostics ▸ id

/-- An object that is new has not been called. -/
theorem addObject (m : Machine) (record : ObjectRecord) : m.Serves (m.addObject record) := by
  refine of_same (.addObject _ _) (fun _ _ => .inl) (fun f h => ?_) rfl rfl fun _ => id
  have there : f.index < m.realm.objects.size := by
    refine Nat.lt_of_not_le fun outside => ?_
    obtain ⟨-, d, own, -⟩ := h
    rw [Realm.object_of_size_le outside] at own
    cases own
  show ((m.realm.addObject record).object f).HasInstances
  rw [Realm.object_addObject, if_neg]
  · exact h
  · rintro rfl
    exact Nat.lt_irrefl _ there

/-- An object may be changed in a way that keeps its instances. -/
theorem modifyObject (m : Machine) (o : ObjectId) {f : ObjectRecord → ObjectRecord}
    (alike : ∀ r : ObjectRecord, r.Alike (f r))
    (instances : (m.realm.object o).HasInstances → (f (m.realm.object o)).HasInstances) :
    m.Serves (m.modifyObject o f) := by
  refine of_same (.modifyObject _ _ alike) (fun _ _ => .inl) (fun p h => ?_) rfl rfl fun _ => id
  show ((m.realm.modifyObject o f).object p).HasInstances
  rw [Realm.object_modifyObject]
  split
  next same => exact same.1 ▸ instances (same.1 ▸ h)
  next => exact h

/-- Contexts may change: what has run has run. -/
theorem withContexts (m : Machine) (s : ContextStack) : m.Serves (m.withContexts s) :=
  of_realm rfl (m.grows_withContexts s) (fun _ _ => .inl) rfl rfl fun _ => id

/-- A new environment serves and calls nobody. -/
theorem addEnvironment (m : Machine) (e : Environment) : m.Serves (m.addEnvironment e) :=
  of_realm rfl (.addEnvironment _ _) (fun _ _ => .inl) rfl rfl fun _ => id

/-- Neither does a change of one. -/
theorem modifyEnvironment (m : Machine) (e : EnvId) {f : Environment → Environment}
    (alike : ∀ env : Environment, env.Alike (f env)) : m.Serves (m.modifyEnvironment e f) :=
  of_realm rfl (.modifyEnvironment _ _ alike) (fun _ _ => .inl) rfl rfl fun _ => id

/-- Neither does a change of scope. -/
theorem setLexicalEnv (m : Machine) (e : EnvId) : m.Serves (m.setLexicalEnv e) :=
  of_realm rfl (.refl _) (fun _ _ => .inl) rfl rfl fun _ => id

/-- Nor the mark that the running context may have returned. -/
theorem markReturnUnknown (m : Machine) : m.Serves m.markReturnUnknown := by
  unfold Machine.markReturnUnknown
  split
  · exact withContexts m _
  · exact IsTrans.trans _ _ _ (withContexts m _)
      (modifyEnvironment _ _ fun env => ⟨rfl, rfl, fun _ _ => .rfl⟩)

/-- Nor a completion that is noted. -/
theorem noteExit (m : Machine) (c : Completion) : m.Serves (m.noteExit c) := by
  unfold Machine.noteExit
  split
  · exact refl m
  · exact markReturnUnknown m
  all_goals exact of_realm rfl (.refl _) (fun _ _ => .inl) rfl rfl fun _ => id

/-- Nor a claim of possible exits. -/
theorem dropClaimed (m : Machine) (mark : Nat) (p : Completion → Bool) :
    m.Serves (m.dropClaimed mark p) := by
  unfold Machine.dropClaimed
  split
  · exact refl m
  · exact of_realm rfl (.refl _) (fun _ _ => .inl) rfl rfl fun _ => id

/-- Nor the end of a block. -/
theorem exitBlock (m : Machine) (index : Option Nat) : m.Serves (m.exitBlock index) := by
  unfold Machine.exitBlock
  split
  · exact withContexts m _
  · exact refl m

/-- Nor an event. -/
theorem fire (m : Machine) (e : Event) : m.Serves (m.fire e) :=
  of_eq rfl rfl rfl rfl rfl

/-- The rules in progress play no part. -/
theorem popFrame {f : Frame} (h : (m.pushFrame f).Serves n) : m.Serves n.popFrame :=
  IsTrans.trans _ _ _ (of_eq rfl rfl rfl rfl rfl : m.Serves (m.pushFrame f))
    (IsTrans.trans _ _ _ h (of_eq rfl rfl rfl rfl rfl : n.Serves n.popFrame))

/-- A function of the program is created. Nothing was called that is new. -/
theorem addScript (h : m.Serves n) {f : ObjectId} (new : m.realm.objects.size ≤ f.index)
    (script : n.realm.IsScript f) (instances : (n.realm.object f).HasInstances)
    (invoked : n.invoked = m.invoked) : m.Serves (n.addScript f) where
  grows := h.grows
  course x y before := .inl (h.course x y before)
  diagnostics := h.diagnostics
  invoked := h.invoked
  fresh g hg there := by
    rcases Array.mem_push.1 hg with earlier | rfl
    · exact h.fresh g earlier there
    · exact absurd there (Nat.not_lt.2 new)
  instances := h.instances
  sane sane := by
    have sane := h.sane sane
    refine ⟨fun g hg => ?_, fun g hg => ?_, sane.invoked⟩
    · rcases Array.mem_push.1 hg with earlier | rfl
      · exact sane.script g earlier
      · exact script
    · rcases Array.mem_push.1 hg with earlier | rfl
      · exact sane.instances g earlier
      · exact instances
  -- the new function cannot have been called before
  served sane followed g hg awaits := by
    obtain ⟨called, idle⟩ := awaits
    rcases Array.mem_push.1 hg with earlier | rfl
    · exact h.served sane followed g earlier ⟨called, fun ran => idle (ran.later fun _ _ => .inl)⟩
    · exact absurd (sane.invoked g (invoked ▸ called)) (Nat.not_lt.2 new)

end Serves

/-! ### Calls -/

/-- To mark a function adds it to those that were called. -/
theorem mem_invoked_markInvoked {g : ObjectId} :
    g ∈ (m.markInvoked f).invoked ↔ g = f ∨ g ∈ m.invoked := by
  unfold Machine.markInvoked
  split
  next listed => exact ⟨.inr, fun h => h.elim (fun same => same ▸ listed) id⟩
  next => exact List.mem_cons

/-- What can be called is an object that is there. -/
theorem lt_size_of_isCallable (callable : (m.realm.object f).isCallable = true) :
    f.index < m.realm.objects.size := by
  refine Nat.lt_of_not_le fun outside => ?_
  rw [Realm.object_of_size_le outside] at callable
  cases callable

/-- The function is called, and runs if it is one of the program and no call is refused. -/
structure Calls (f : ObjectId) (m n : Machine) : Prop where
  serves : m.Serves n
  called : f ∈ n.invoked

/-- A call that marks its function and then serves others has done its part if the function has run.
-/
theorem Calls.of_run (callable : (m.realm.object f).isCallable = true)
    (h : (m.markInvoked f).Serves n)
    (ran : (m.markInvoked f).Sane → n.AllFollowed → f ∈ n.scripts → n.HasRun f) : m.Calls f n := by
  -- marking a function as called changes no object, and the course of the run only grows by it
  have realm := m.realm_markInvoked f
  have course : ∀ x y, m.course x y → (m.markInvoked f).course x y := by
    unfold Machine.markInvoked
    split
    · exact fun _ _ => id
    · exact fun _ _ => .inl
  have scripts := m.scripts_markInvoked f
  have diagnostics := m.diagnostics_markInvoked f
  have sane (sane : m.Sane) : (m.markInvoked f).Sane := by
    refine ⟨?_, ?_, fun g hg => ?_⟩
    · rw [realm, scripts]
      exact sane.script
    · rw [realm, scripts]
      exact sane.instances
    · rw [realm]
      rcases mem_invoked_markInvoked.1 hg with rfl | earlier
      · exact lt_size_of_isCallable callable
      · exact sane.invoked g earlier
  refine ⟨?_, h.invoked f (mem_invoked_markInvoked.2 (.inl rfl))⟩
  exact
    { grows := realm ▸ h.grows
      course := fun x y before => h.course x y (course x y before)
      diagnostics := diagnostics ▸ h.diagnostics
      invoked := fun g hg => h.invoked g (mem_invoked_markInvoked.2 (.inr hg))
      fresh := fun g hg there => scripts ▸ h.fresh g hg (realm.symm ▸ there)
      instances := realm ▸ h.instances
      sane := h.sane ∘ sane
      served := fun before followed g hg awaits => by
        -- the function itself has run after the call, and all others are as before
        obtain ⟨called, idle⟩ := h.served (sane before) followed g hg awaits
        rcases mem_invoked_markInvoked.1 called with rfl | earlier
        · exact absurd (ran (sane before) followed hg) awaits.2
        · exact ⟨earlier, fun ran => idle (ran.later course)⟩ }

/-- A call of what is no function of the program. -/
theorem Calls.of_native {name : String} {call construct : Option Native}
    (native : (m.realm.object f).callable = some (.native name call construct))
    (h : (m.markInvoked f).Serves n) : m.Calls f n := by
  have callable : (m.realm.object f).isCallable = true := Option.isSome_of_eq_some native
  refine .of_run callable h fun sane _ listed => ?_
  have there : f.index < (m.markInvoked f).realm.objects.size := by
    rw [m.realm_markInvoked f]
    exact lt_size_of_isCallable callable
  obtain ⟨-, closure, script⟩ := sane.script f (h.fresh f listed there)
  rw [m.realm_markInvoked f, native] at script
  cases script

end Machine

/-! ## Operations -/

section

variable [Natives] [Reading Serves]

namespace Op

variable {o : ObjectId} {name : String} {d : Definition} {strict : Bool} {m : Machine}

omit [Natives] [Reading Serves] in
/-- What is defined of an object that is no array lasts. -/
theorem serves_defineOrdinary : Keeps Serves (defineOrdinary o name d strict) where
  after s m := by
    rw [Eval.after, defineOrdinary_apply]
    cases accepted : (m.realm.object o).accept name d with
    | ok p => exact .modifyObject m o (.store · name p) fun h => h.lasting (.accept accepted)
    | error rejection => cases strict <;> exact refl m

omit [Natives] [Reading Serves] in
/-- Only properties that may go are deleted, so instances are kept. -/
theorem serves_delete : Keeps Serves (delete o name strict) := by
  refine .object_bind fun s m => ?_
  split
  next removable =>
    refine Keeps.bind_at ?_ fun _ => .pure _
    exact .modifyObject m o (.remove · name) fun h => h.lasting (.remove removable)
  next =>
    split
    · exact (KeepsBy.throw (R := fun _ => Serves) _).after s m
    · exact (KeepsBy.pure (R := fun _ => Serves) _).after s m

/-- Whatever is done to an array, it has no instances. -/
def ServesArray (o : ObjectId) (m n : Machine) : Prop :=
  (m.realm.object o).cls = .array → m.Serves n

instance : IsPreorder Machine (ServesArray o) where
  refl m _ := refl m
  trans _ _ _ h h' array := IsTrans.trans _ _ _ (h array) (h' ((h array).grows.cls_eq_array array))

instance : Reading (ServesArray o) where
  aside h _ := .of_aside h
  addObject m record _ _ := .addObject m record
  native found this arguments proper _ := Reading.native found this arguments proper

instance : Changing o (ServesArray o) where
  modifyObject m _ alike array := .modifyObject m o alike fun h => absurd array h.1

/-- The definition of a property keeps instances; an array has none to begin with. -/
theorem serves_define : Keeps Serves (define o name d strict) where
  after s m := by
    by_cases array : (m.realm.object o).cls = .array
    · exact (Built.keeps (R := ServesArray o) (built_define_of_changes name d strict)).after s m array
    · rw [define, after_object_bind, if_pos array]
      exact serves_defineOrdinary.after s m

end Op

instance (o : ObjectId) : Defining o Serves where
  define _ _ _ := Op.serves_define
  delete _ _ := Op.serves_delete
  preventExtensions := .modify fun m =>
    .modifyObject m o (fun _ => ⟨rfl, rfl, rfl, rfl, rfl⟩) fun h => h.lasting (.preventExtensions _)

end

/-- A native function calls no function of the program. -/
theorem Native.serves_callWithin (depth : Nat) (f : Native) (this : Value) (arguments : List Value) :
    Keeps Serves (callWithin depth f this arguments) :=
  keeps_callWithin_of_defining (fun _ => inferInstance) Serves.of_aside
    (fun m record _ => .addObject m record)
    (fun _ _ _ _ => .of_eq rfl rfl rfl rfl rfl) depth f this arguments

instance : Reading Serves where
  aside := Serves.of_aside
  addObject m record _ := .addObject m record
  native _ this arguments _ := (Native.serves_callWithin _ _ this arguments).after _ _

instance : Rebinding Serves where
  defining _ := inferInstance
  modifyEnvironment m e _ alike := .modifyEnvironment m e alike

/-- A function of the program is created with a prototype for its instances. -/
theorem Eval.serves_createScript {ε : Type} (code : FunctionCode) (scope : EnvId) :
    Keeps Serves (createScript code scope : Eval ε ObjectId) where
  after s m := by
    rw [createScript, createFunction, after_bind_ok (create_apply ..), createPlain,
      after_bind_ok (create_apply ..)]
    let function := Realm.functionRecord m.realm.ambiguityLevel (.script ⟨code, scope⟩)
    let f := m.realm.nextObject
    let k := m.addObject function
    let p := k.realm.nextObject
    let j := k.addObject (Realm.plainRecord k.realm.ambiguityLevel)
    let named (r : ObjectRecord) : ObjectRecord :=
      (r.store "length" (.fixed (.nat code.parameters.length))).store "prototype"
        (.data (.object p) true false false)
    let i := j.modifyObject f named
    let n := i.modifyObject p (·.store "constructor" (.hidden (.object f)))
    -- the steps: the function, its prototype, the properties of both, and the entry in the list
    show m.Serves (n.addScript f)
    have first : m.Serves k := .addObject m function
    have second : k.Serves j := .addObject k _
    have third : j.Serves i := by
      refine .modifyObject j f (fun r => (ObjectRecord.Alike.store ..).trans (.store ..)) fun h => ?_
      exact (h.store fun same => absurd same (by decide)).store fun _ => ⟨rfl, rfl⟩
    have fourth : i.Serves n :=
      .modifyObject i p (fun r => .store ..) fun h => h.store fun same => absurd same (by decide)
    have made : k.realm.object f = function := by
      show (m.realm.addObject function).object f = function
      rw [Realm.object_addObject, if_pos rfl]
    have there : f.index < k.realm.objects.size := by
      simp [k, f, Machine.addObject, Realm.addObject, Realm.nextObject]
    have script : k.realm.IsScript f := ⟨there, _, congrArg ObjectRecord.callable made⟩
    have later : k.realm.Grows i.realm := second.grows.trans third.grows
    -- the property of the instances is found where it has been stored
    have instances : (i.realm.object f).HasInstances := by
      have cls : (i.realm.object f).cls = .function :=
        (later.object f there).cls.trans (congrArg ObjectRecord.cls made)
      refine ⟨by rw [cls]; exact ne_of_beq_false rfl, ?_⟩
      show ∃ d, ((j.realm.modifyObject f named).object f).own? "prototype" = some d ∧ _
      rw [Realm.object_modifyObject, if_pos ⟨rfl, Nat.lt_of_lt_of_le there second.grows.objects⟩]
      refine ⟨.data (.object p) true false false, ?_, rfl, rfl⟩
      rw [ObjectRecord.own?_store, if_pos rfl]
    have all : m.Serves n := by
      refine IsTrans.trans _ _ _ first (IsTrans.trans _ _ _ second ?_)
      exact IsTrans.trans _ _ _ third fourth
    exact all.addScript (Nat.le_refl _) (script.grow (later.trans fourth.grows))
      (fourth.instances f instances) rfl

instance : Entering True Serves where
  addEnvironment := Serves.addEnvironment
  modifyBindings _ f := (Op.keeps_modifyBindings _ f).since _
  createBinding _ name deletable := (Op.built_createBinding _ name deletable).keeps.since _
  setBinding e name v := (Op.built_setBinding e name v).keeps
  createScript _ := serves_createScript _
  dropClaimed h mark p := IsTrans.trans _ _ _ h (.dropClaimed _ mark p)
  popContext _ h :=
    IsTrans.trans _ _ _ (.withContexts _ _) (IsTrans.trans _ _ _ h (.withContexts _ _))
  setLexicalEnv h :=
    IsTrans.trans _ _ _ (.setLexicalEnv _ _) (IsTrans.trans _ _ _ h (.setLexicalEnv _ _))

instance : Evaluating True fun _ => Serves where
  leave := leave_of Serves.fire Serves.popFrame
  abandon := abandon_of Serves.fire Serves.popFrame
  pass {_ m n} h :=
    have passed : m.Serves (n.exitBlock m.contexts.enterIndex?) :=
      IsTrans.trans _ _ _ (.withContexts m _) (IsTrans.trans _ _ _ h (.exitBlock n _))
    IsTrans.trans _ _ _ passed (.of_eq rfl rfl rfl rfl rfl)
  note := Serves.noteExit
  claim _ h := IsTrans.trans _ _ _ h (.dropClaimed _ _ _)
  handled {_ n} h :=
    have closed : n.Serves (n.enterLedger true _) := .of_eq rfl rfl rfl rfl rfl
    IsTrans.trans _ _ _ h (IsTrans.trans _ _ _ closed (.dropClaimed _ _ _))
  overtaken _ _ := .of_eq rfl rfl rfl rfl rfl
  handle h name thrown := keeps_handle name h thrown
  createScript _ := serves_createScript _
  functionValue names := keeps_createFunctionValue names
  arrayLiteral := Rule.keeps_arrayLiteral
  objectLiteral := Rule.keeps_objectLiteral
  putValue r v := (Op.built_putValue r v).keeps
  deleteReference _ := (Rule.built_deleteReference _).keeps

/-! ## Calls -/

/-- Whatever happens in calls of functions of the program is served, and each of them lets the function
run unless it is refused. -/
structure ScriptCall.Follows (call : ScriptCall) : Prop where
  serves : ∀ f closure this arguments, Eval.Keeps Serves (call f closure this arguments)
  runs : ∀ f closure this arguments s m,
    ((call f closure this arguments).after s m).AllFollowed →
      ((call f closure this arguments).after s m).HasRun f

namespace ScriptCall.Follows

variable {call : ScriptCall}

/-- A function of the program that is called is run, and a native function calls none. -/
theorem calls_callFunction (h : call.Follows) {f : ObjectId} {s : Setup} {m : Machine}
    (callable : (m.realm.object f).isCallable = true) (this : Value) (arguments : List Value) :
    m.Calls f ((callFunction call f this arguments).after s m) := by
  rw [callFunction, after_bind_ok (x := markInvoked f) rfl, after_object_bind, realm_markInvoked]
  split
  next name native _ found =>
    refine .of_native found ?_
    split
    · exact refl _
    -- no operand is unknown, so that the native function is run
    next known =>
      obtain ⟨receiver, known⟩ := Bool.or_eq_false_iff.1 (Bool.eq_false_iff.2 known)
      refine recover_at (R := fun _ => Serves) ?_
      rw [after_map]
      exact Reading.native ((m.realm_markInvoked f).symm ▸ found) this arguments
        (.of_known receiver known)
  next name _ found =>
    exact .of_native found ((keeps_recover (R := fun _ => Serves) (.throw _)).after s _)
  next closure _ =>
    exact .of_run callable ((h.serves f closure this arguments).after s _) fun _ followed _ =>
      h.runs f closure this arguments s _ followed
  next none =>
    rw [ObjectRecord.isCallable, none] at callable
    cases callable

/-- A function of the program that `new` is applied to is run, since the prototype of its instances
is there. -/
theorem calls_construct (h : call.Follows) {f : ObjectId} {s : Setup} {m : Machine}
    {callable : Callable} (found : (m.realm.object f).callable = some callable)
    (constructor : callable.isConstructor = true) (arguments : List Value) :
    m.Calls f ((construct call f arguments).after s m) := by
  rw [construct, after_bind_ok (x := markInvoked f) rfl, after_object_bind, realm_markInvoked]
  let k := m.markInvoked f
  split
  next native found =>
    refine .of_native found ?_
    split
    · exact refl _
    next known =>
      refine recover_at (R := fun _ => Serves) ?_
      rw [after_map]
      exact (Native.serves_callWithin _ native .undefined arguments).after s k
  next closure _ =>
    let rest (p : ObjectId) : Rule Completion := do
      let o ← Rule.lift (createObject .object (some p))
      return constructResult o (← Rule.lift (call f closure (.object o) arguments))
    have prototype : Eval.Keeps Serves (instancePrototype f) := by
      refine .bind (Op.built_get f "prototype").keeps fun v => ?_
      split <;> exact .pure _
    have creates (p : ObjectId) : Rule.Keeps Serves (rest p) :=
      .bind (.lift (keeps_createObject (by decide) _)) fun o =>
        .bind (.lift (h.serves f closure _ arguments)) fun _ => .pure _
    have whole : k.Serves ((Rule.native (instancePrototype f) >>= rest).complete.after s k) :=
      (Rule.KeepsBy.complete (.bind (Rule.keeps_native prototype) creates)).after s k
    have callable : (m.realm.object f).isCallable = true := Option.isSome_of_eq_some found
    refine .of_run callable whole fun sane followed listed => ?_
    have there : f.index < k.realm.objects.size := by
      rw [m.realm_markInvoked f]
      exact lt_size_of_isCallable callable
    obtain ⟨p, known⟩ := (sane.instances f (whole.fresh f listed there)).exists_apply s
    -- what is left of the rule is the call
    let o := k.realm.nextObject
    let j := k.addObject { cls := .object, prototype := some p, createdLevel := k.realm.ambiguityLevel }
    have left : (Rule.native (instancePrototype f) >>= rest).complete s k =
        (Rule.lift (call f closure (.object o) arguments) >>= fun c =>
          pure (constructResult o c)).complete s j :=
      (Rule.complete_native_bind known).trans (Rule.complete_lift_bind (create_apply _ s k))
    have last : (Rule.native (instancePrototype f) >>= rest).complete.after s k =
        (call f closure (.object o) arguments).after s j := by
      rw [Eval.after, left]
      exact Rule.after_complete_lift_pure _ (constructResult o) s j
    have runs := h.runs f closure (.object o) arguments s j
    rw [← last] at runs
    exact runs followed
  next other script =>
    rw [found] at other script
    cases callable with
    | native name call native =>
      cases native with
      | none => cases constructor
      | some native => exact absurd rfl (other name call native)
    | script closure => exact absurd rfl (script closure)

/-- Calls that are followed serve all functions. -/
theorem keeps (h : call.Follows) : call.Keeps fun _ => Serves where
  function callable this arguments := (h.calls_callFunction callable this arguments).serves
  construct found constructor arguments := (h.calls_construct found constructor arguments).serves

end ScriptCall.Follows

namespace Eval

/-- A body is entered in a context of its own. -/
theorem hasRun_callScript {body : Run Completion} (h : Keeps Serves body) (f : ObjectId)
    (closure : Closure) (this : Value) (arguments : List Value) (s : Setup) (m : Machine) :
    ((callScript body f closure this arguments).after s m).HasRun f := by
  obtain ⟨receiver, n, found⟩ := exists_scriptReceiver this s m
  let e := n.realm.nextEnvironment
  let k := n.addEnvironment { Environment.fresh (some closure.scope) with
    createdLevel := n.realm.ambiguityLevel }
  let entered := k.pushContext (.enter (some f) e receiver)
  have begun : entered.HasRun f := ⟨entered.moment, (isAhead_tick _).present, rfl⟩
  rw [after_callScript found]
  refine begun.later (Serves.course (IsTrans.trans _ _ _ ?_ (.dropClaimed _ _ _)))
  have names : ¬ True → closure.code.keepsNames = true := fun no => absurd trivial no
  exact IsTrans.trans _ _ _ (body_at names h f receiver arguments s n) (.withContexts _ _)

/-- At every depth calls are followed; at depth zero they are refused and reported. -/
theorem callWithin_follows (depth : Nat) : (callWithin depth).Follows := by
  induction depth with
  | zero =>
    constructor
    · exact fun f closure this arguments => .bind (.aside reportMaxRecursion_keeps) fun _ => .pure _
    · -- the refusal is reported
      intro f closure this arguments s m followed
      exact absurd rfl (followed _ Array.mem_push_self)
  | succ depth ih =>
    have body (code : FunctionCode) : Keeps Serves
        (Step.runAll none (Statement.steps (callWithin depth) code.body)) :=
      Step.keeps_runAll (Statement.keeps_steps ih.keeps _ fun no => absurd trivial no) none
    constructor
    · exact fun f closure this arguments =>
        keeps_callScript (fun no => absurd trivial no) (body closure.code) f this arguments
    · exact fun f closure this arguments s m _ =>
        hasRun_callScript (body closure.code) f closure this arguments s m

/-- Calls are served, however deep they are. -/
theorem callWithin_serves (depth : Nat) : (callWithin depth).Keeps fun _ => Serves :=
  (callWithin_follows depth).keeps

end Eval

end AbstractScript
