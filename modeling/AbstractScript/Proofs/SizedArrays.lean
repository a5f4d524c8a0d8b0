import AbstractScript.Proofs.ArrayLength
import AbstractScript.Proofs.Beginning
import AbstractScript.Proofs.Blurring
import AbstractScript.Proofs.Soundness

/-!
# Arrays are as long as their length says

In a run with the core objects every array whose length has been known all the time has a length
above all its indices, whenever an event is fired and at the end (`Analyzer.array_sized`). It is the
length of *measured* machines that is looked at (`Machine.Measured`), and every step of an evaluation
leaves a measured machine measured (`Machine.Measures`).

A length that has been unknown is replaced by a known one without a look at the elements
(`Analyzer.array_longer_lengthAgain`).
-/
namespace AbstractScript

open Eval Machine Number

/-- What is created has the length that it is created with. -/
theorem ObjectRecord.IsNew.isSized {level : Nat} {r : ObjectRecord} (h : r.IsNew level) :
    r.IsSized := by
  by_cases array : r.cls = .array
  · obtain ⟨elements, rfl⟩ := h.array array
    exact isSized_arrayRecord level elements
  · exact .of_cls array

instance (r : ObjectRecord) : Decidable r.HasKnownLength :=
  decidable_of_iff (r.cls = .array → (match r.own? "length" with
    | some (.data (.number _) _ _ _) => true
    | _ => false) = true) <| imp_congr_right fun _ => by
      split
      next found => simp [found]
      next other => simpa using fun x w e c found => other x w e c found

/-! ## Measured machines -/

namespace Machine

/-- What is true of the moments so far and of the present one is true of all. -/
theorem forall_course_tick {P : Moment → Prop} {m : Machine} (before : ∀ x y, m.course x y → P x)
    (now : P m.moment) : ∀ x y, m.tick.course x y → P x := by
  rintro x y (earlier | ⟨-, earlier | rfl⟩)
  · exact before x y earlier
  · exact before x x earlier
  · exact now

/-- Arrays whose length has been known up to now have a length above their indices, and so had those
whose length had been known up to an event. -/
structure Measured (m : Machine) : Prop where
  ahead : m.IsAhead
  now : ∀ o, (∀ x, m.course x x → (x.realm.object o).HasKnownLength) → (m.realm.object o).IsSized
  seen : ∀ y, m.seen y → ∀ o, (∀ x, m.course x y → (x.realm.object o).HasKnownLength) →
    (y.realm.object o).IsSized

variable {m n k : Machine}

/-- The run goes on, and arrays whose length is right have a right length again, if it is known. -/
theorem Measured.onward (h : m.Measured) (onward : m.Onward n)
    (objects : ∀ o, (m.realm.object o).IsSized → (n.realm.object o).HasKnownLength →
      (n.realm.object o).IsSized) : n.Measured where
  ahead := onward.ahead h.ahead
  now o known :=
    objects o (h.now o fun x hx => known x (onward.course x x hx))
      (known n.moment (onward.ahead h.ahead).present)
  seen y hy o known :=
    h.seen y (onward.seen ▸ hy) o fun x hx => known x (onward.course x y hx)

/-- A machine stays measured when the length of one object is set to what it should be. -/
theorem Measured.resizes (h : m.Measured) {o : ObjectId} (resizes : m.Resizes o n) : n.Measured :=
  h.onward resizes.onward fun p sized known => by
    by_cases same : p = o
    · subst same
      exact resizes.sized sized known
    · rw [resizes.others p same]
      exact sized

/-- What is seen besides is the present moment. -/
theorem Measured.congr (h : m.Measured) (moment : n.moment = m.moment) (course : n.course = m.course)
    (seen : ∀ y, n.seen y → m.seen y ∨ y = m.moment) : n.Measured where
  ahead := ⟨by rw [moment, course]; exact h.ahead.present, by rw [moment, course]; exact h.ahead.last⟩
  now o known := by
    rw [course] at known
    have same : n.realm = m.realm := congrArg Moment.realm moment
    rw [same]
    exact h.now o known
  seen y hy o known := by
    rw [course] at known
    rcases seen y hy with earlier | rfl
    · exact h.seen y earlier o known
    · exact h.now o fun x hx => known x (h.ahead.last x hx)

/-- Objects keep their nature, and a measured machine stays one. -/
structure Measures (m n : Machine) : Prop where
  grows : m.realm.Grows n.realm
  measured : m.Measured → n.Measured

instance : IsPreorder Machine Measures where
  refl _ := ⟨.refl _, id⟩
  trans _ _ _ h h' := ⟨h.grows.trans h'.grows, h'.measured ∘ h.measured⟩

namespace Measures

/-- Nothing is changed that is measured, and at most the present moment is seen besides. -/
theorem of_same (moment : n.moment = m.moment) (course : n.course = m.course)
    (seen : ∀ y, n.seen y → m.seen y ∨ y = m.moment) : m.Measures n where
  grows := by
    rw [show n.realm = m.realm from congrArg Moment.realm moment]
    exact .refl _
  measured h := h.congr moment course seen

/-- Changes aside from the run are not measured. -/
theorem of_aside (h : m.Aside n) : m.Measures n := .of_same h.moment h.course h.seen

/-- Something other than objects changes. -/
theorem tick (m n : Machine) (grows : m.realm.Grows n.realm) (course : n.course = m.course)
    (seen : n.seen = m.seen) (objects : ∀ o, n.realm.object o = m.realm.object o) :
    m.Measures n.tick where
  grows := grows
  measured h := h.onward (.tick m n course seen) fun o sized _ => by
    show (n.realm.object o).IsSized
    rw [objects]
    exact sized

/-- A new object is measured if its length is right. -/
theorem addObject (m : Machine) (record : ObjectRecord) (sized : record.IsSized) :
    m.Measures (m.addObject record) where
  grows := .addObject _ _
  measured h := h.onward (.tick m _) fun o before _ => by
    show ((m.realm.addObject record).object o).IsSized
    rw [Realm.object_addObject]
    split
    · exact sized
    · exact before

/-- An object may be resized. -/
theorem of_resizes {o : ObjectId} (grows : m.realm.Grows n.realm) (h : m.Resizes o n) :
    m.Measures n := ⟨grows, fun before => before.resizes h⟩

/-- What is no array stays none. -/
theorem modifyObject (h : m.Measures n) {o : ObjectId} (there : o.index < m.realm.objects.size)
    (other : (m.realm.object o).cls ≠ .array) {f : ObjectRecord → ObjectRecord}
    (alike : ∀ r : ObjectRecord, r.Alike (f r)) : m.Measures (n.modifyObject o f) := by
  have other : (n.realm.object o).cls ≠ .array := by
    rw [(h.grows.object o there).cls]
    exact other
  exact IsTrans.trans _ _ _ h (.of_resizes (.modifyObject _ _ alike) (.modify other alike))

/-- Contexts are not measured. -/
theorem withContexts (m : Machine) (s : ContextStack) : m.Measures (m.withContexts s) :=
  .tick m _ (m.grows_withContexts s) rfl rfl fun _ => rfl

/-- A new environment changes no array. -/
theorem addEnvironment (m : Machine) (e : Environment) : m.Measures (m.addEnvironment e) :=
  .tick m _ (.addEnvironment _ _) rfl rfl fun _ => rfl

/-- Neither does a change of one. -/
theorem modifyEnvironment (m : Machine) (e : EnvId) {f : Environment → Environment}
    (alike : ∀ env : Environment, env.Alike (f env)) : m.Measures (m.modifyEnvironment e f) :=
  .tick m _ (.modifyEnvironment _ _ alike) rfl rfl fun _ => rfl

/-- Neither does a change of scope. -/
theorem setLexicalEnv (m : Machine) (e : EnvId) : m.Measures (m.setLexicalEnv e) :=
  .tick m _ (.refl _) rfl rfl fun _ => rfl

/-- Nor does the mark that the running context may have returned. -/
theorem markReturnUnknown (m : Machine) : m.Measures m.markReturnUnknown := by
  unfold Machine.markReturnUnknown
  split
  · exact withContexts m _
  · exact IsTrans.trans _ _ _ (withContexts m _)
      (modifyEnvironment _ _ fun env => ⟨rfl, rfl, fun _ _ => .rfl⟩)

/-- A completion that is noted changes no array. -/
theorem noteExit (m : Machine) (c : Completion) : m.Measures (m.noteExit c) := by
  unfold Machine.noteExit
  split
  · exact refl m
  · exact markReturnUnknown m
  all_goals exact tick m _ (.refl _) rfl rfl fun _ => rfl

/-- Neither does the mark of a function as invoked. -/
theorem markInvoked (m : Machine) (f : ObjectId) : m.Measures (m.markInvoked f) := by
  unfold Machine.markInvoked
  split
  · exact refl m
  · exact tick m _ (.refl _) rfl rfl fun _ => rfl

/-- Neither does a claim of possible exits. -/
theorem dropClaimed (m : Machine) (mark : Nat) (p : Completion → Bool) :
    m.Measures (m.dropClaimed mark p) := by
  unfold Machine.dropClaimed
  split
  · exact refl m
  · exact tick m _ (.refl _) rfl rfl fun _ => rfl

/-- Neither does the end of a block. -/
theorem exitBlock (m : Machine) (index : Option Nat) : m.Measures (m.exitBlock index) := by
  unfold Machine.exitBlock
  split
  · exact withContexts m _
  · exact refl m

/-- At an event the present moment is seen, and it was measured already. -/
theorem fire (m : Machine) (e : Event) : m.Measures (m.fire e) := .of_same rfl rfl fun _ => id

/-- The rules in progress are no part of a moment. -/
theorem popFrame {f : Frame} (h : (m.pushFrame f).Measures n) : m.Measures n.popFrame :=
  IsTrans.trans _ _ _ (.of_same rfl rfl fun _ => .inl : m.Measures (m.pushFrame f))
    (IsTrans.trans _ _ _ h (.of_same rfl rfl fun _ => .inl : n.Measures n.popFrame))

end Measures

end Machine

/-! ## Operations -/

section

variable [Natives] [Reading Measures]

/-- What reads lets realms grow, if it keeps machines measured. -/
theorem Reading.grows : Reading (fun m n : Machine => m.realm.Grows n.realm) where
  refl _ := .refl _
  trans _ _ _ := .trans
  aside h := h.realm ▸ .refl _
  addObject m record _ := .addObject m.realm record
  native found this arguments proper :=
    (Reading.native (R := Measures) found this arguments proper).grows

namespace Op

variable {o : ObjectId} {name : String} {d : Definition} {strict : Bool} {m : Machine}

/-- To define a property keeps the nature of all objects. -/
theorem grows_define : Keeps (fun m n : Machine => m.realm.Grows n.realm) (define o name d strict) :=
  have := Reading.grows
  have : Changing o (fun m n : Machine => m.realm.Grows n.realm) :=
    ⟨fun _ _ alike => .modifyObject _ _ alike⟩
  (built_define ..).keeps

/-- So does a deletion. -/
theorem grows_delete : Keeps (fun m n : Machine => m.realm.Grows n.realm) (delete o name strict) :=
  have : Changing o (fun m n : Machine => m.realm.Grows n.realm) :=
    ⟨fun _ _ alike => .modifyObject _ _ alike⟩
  have := Reading.grows
  (built_delete ..).keeps

/-- The value that is given for a length is converted first, which may run native functions. -/
theorem measured_defineLength (h : m.Measured) (array : (m.realm.object o).cls = .array) (s : Setup) :
    ((defineLength o d strict).after s m).Measured := by
  unfold defineLength
  split
  -- without a value only flags are defined
  next none =>
    refine h.resizes (resizes_defineOrdinary_length array fun _ v given => ?_)
    cases none.symm.trans given
  next v _ =>
    -- converting the value may run a program, which keeps the measure
    have kept : m.Measures ((toNumber? v).after s m) := (built_toNumber? v).keeps.after s m
    rw [after_bind]
    rw [Eval.after] at kept
    cases run : toNumber? v s m with
    | error e k =>
      rw [run] at kept
      exact kept.measured h
    | ok x k =>
      rw [run] at kept
      have h := kept.measured h
      have array : (k.realm.object o).cls = .array := kept.grows.cls_eq_array array
      dsimp only
      split
      · refine h.resizes (resizes_defineOrdinary_length array fun _ v given => .inl ?_)
        rw [Definition.value?_withValue] at given
        exact (Option.some.inj given).symm
      · split
        · exact h
        · exact h.resizes (resizes_replaceLength array (Definition.value?_withValue ..))

/-- A definition keeps arrays measured. -/
theorem measured_define (h : m.Measured) (s : Setup) :
    ((define o name d strict).after s m).Measured := by
  rw [define, after_object_bind]
  split
  next other => exact h.resizes (resizes_defineOrdinary_of_cls other)
  next array =>
    have array := Decidable.not_not.1 array
    split
    · exact measured_defineLength h array s
    next other =>
      split
      next element => exact h.resizes (resizes_defineElement array element)
      next none => exact h.resizes (resizes_defineOther array other none)

end Op

instance (o : ObjectId) : Defining o Measures where
  define _ _ _ := ⟨fun s m => ⟨Op.grows_define.after s m, fun h => Op.measured_define h s⟩⟩
  delete _ _ := ⟨fun s m => ⟨Op.grows_delete.after s m, fun h => h.resizes Op.resizes_delete⟩⟩
  preventExtensions := .modify fun m =>
    .of_resizes (.modifyObject _ _ fun _ => ⟨rfl, rfl, rfl, rfl, rfl⟩) (Op.resizes_preventExtensions o m)

end

/-! ## Every rule -/

/-- Native functions keep machines measured. -/
theorem Native.measures_callWithin (depth : Nat) (f : Native) (this : Value) (arguments : List Value) :
    Keeps Measures (callWithin depth f this arguments) :=
  keeps_callWithin_of_defining (fun _ => inferInstance) Measures.of_aside
    (fun m record new => .addObject m record new.isSized)
    (fun _ _ _ _ => .of_same rfl rfl fun _ => .inl) depth f this arguments

instance : Reading Measures where
  aside := Measures.of_aside
  addObject m record new := .addObject m record new.isSized
  native _ this arguments _ := (Native.measures_callWithin _ _ this arguments).after _ _

instance : Rebinding Measures where
  defining _ := inferInstance
  modifyEnvironment m e _ alike := .modifyEnvironment m e alike

/-- A function and its prototype are no arrays. -/
theorem Eval.measures_createScript {ε : Type} (code : FunctionCode) (scope : EnvId) :
    Keeps Measures (createScript code scope : Eval ε ObjectId) where
  after s m := by
    rw [createScript, createFunction, after_bind_ok (create_apply ..), createPlain,
      after_bind_ok (create_apply ..)]
    let function := Realm.functionRecord m.realm.ambiguityLevel (.script ⟨code, scope⟩)
    let k := m.addObject function
    let plain := Realm.plainRecord k.realm.ambiguityLevel
    let j := k.addObject plain
    -- neither the function nor its prototype is an array
    have made : m.Measures j :=
      IsTrans.trans _ _ _ (.addObject m function (.of_cls (ne_of_beq_false rfl)))
        (.addObject k plain (.of_cls (ne_of_beq_false rfl)))
    have sizes : j.realm.objects.size = m.realm.objects.size + 2 := by
      simp [j, k, Machine.addObject, Realm.addObject]
    have first : j.realm.object m.realm.nextObject = function := by
      show ((m.realm.addObject function).addObject plain).object _ = _
      rw [Realm.object_addObject, if_neg, Realm.object_addObject, if_pos rfl]
      simp [Realm.nextObject, Realm.addObject]
    have second : j.realm.object k.realm.nextObject = plain := by
      show (k.realm.addObject plain).object _ = _
      rw [Realm.object_addObject, if_pos rfl]
    refine IsTrans.trans _ _ _ made (Keeps.start (R := Measures) ?_ s)
    refine .bind (.modify fun n hn => hn.modifyObject ?_ ?_ fun r => ?_) fun _ => ?_
    · exact Nat.lt_of_lt_of_eq (Nat.lt_add_of_pos_right (by decide)) sizes.symm
    · rw [first]
      exact ne_of_beq_false rfl
    · exact (ObjectRecord.Alike.store ..).trans (.store ..)
    refine .bind (.modify fun n hn => hn.modifyObject ?_ ?_ fun r => .store ..) fun _ => ?_
    · show k.realm.objects.size < _
      simp [j, k, Machine.addObject, Realm.addObject]
    · rw [second]
      exact ne_of_beq_false rfl
    · exact .bind (.modify fun n hn =>
        IsTrans.trans _ _ _ hn (.tick n _ (.refl _) rfl rfl fun _ => rfl)) fun _ => .pure _

instance : Entering True Measures where
  addEnvironment := Measures.addEnvironment
  modifyBindings _ f := (Op.keeps_modifyBindings _ f).since _
  createBinding _ name deletable := (Op.built_createBinding _ name deletable).keeps.since _
  setBinding e name v := (Op.built_setBinding e name v).keeps
  createScript _ := measures_createScript _
  dropClaimed h mark p := IsTrans.trans _ _ _ h (.dropClaimed _ mark p)
  popContext _ h :=
    IsTrans.trans _ _ _ (.withContexts _ _) (IsTrans.trans _ _ _ h (.withContexts _ _))
  setLexicalEnv h :=
    IsTrans.trans _ _ _ (.setLexicalEnv _ _) (IsTrans.trans _ _ _ h (.setLexicalEnv _ _))

instance : Stepwise True fun _ => Measures where
  leave := leave_of Measures.fire Measures.popFrame
  abandon := abandon_of Measures.fire Measures.popFrame
  markInvoked := Measures.markInvoked
  pass {_ m n} h :=
    have passed : m.Measures (n.exitBlock m.contexts.enterIndex?) :=
      IsTrans.trans _ _ _ (.withContexts m _) (IsTrans.trans _ _ _ h (.exitBlock n _))
    IsTrans.trans _ _ _ passed (.of_same rfl rfl fun _ => .inl)
  note := Measures.noteExit
  claim _ h := IsTrans.trans _ _ _ h (.dropClaimed _ _ _)
  handled {_ n} h :=
    have closed : n.Measures (n.enterLedger true _) := .of_same rfl rfl fun _ => .inl
    IsTrans.trans _ _ _ h (IsTrans.trans _ _ _ closed (.dropClaimed _ _ _))
  overtaken _ _ := .of_same rfl rfl fun _ => .inl
  construct _ arguments _ := (Native.measures_callWithin _ _ .undefined arguments).after _ _
  closure _ := .inl fun no => absurd trivial no
  script names h f this arguments := keeps_callScript names h f this arguments
  handle h name thrown := keeps_handle name h thrown
  createScript _ := measures_createScript _
  functionValue names := keeps_createFunctionValue names
  arrayLiteral := Rule.keeps_arrayLiteral
  objectLiteral := Rule.keeps_objectLiteral
  putValue r v := (Op.built_putValue r v).keeps
  deleteReference _ := (Rule.built_deleteReference _).keeps

/-! ## Runs -/

namespace Eval

/-- To define an unknown global keeps a machine measured. -/
theorem measures_defineUnknown (name : String) : Keeps Measures (defineUnknown name) := by
  refine .bind (.attempt (Op.built_createData ..).keeps) fun result => ?_
  split
  · exact .pure _
  · exact .aside (reportError_keeps _)

/-- So does the report of what may have been thrown. -/
theorem measures_reportPossibleThrows : Keeps Measures reportPossibleThrows := by
  refine .bind (.modifyGet fun m => .tick m _ (.refl _) rfl rfl fun _ => rfl) fun exits =>
    .forM fun e _ => ?_
  exact .when (.bind .get fun _ => ⟨fun _ m => .of_same rfl rfl fun _ => id⟩)

/-- A whole run keeps a machine measured. -/
theorem measures_analyze {p : Program} {s : Setup} {m : Machine} (zero : m.level = 0)
    (unknownGlobals : List String) : m.Measures ((analyze unknownGlobals p).after s m) :=
  analyze_at (fun no => absurd trivial no) zero (.of_same rfl rfl fun _ => .inl)
    (fun k _ name => (measures_defineUnknown name).since k) measures_reportPossibleThrows
    unknownGlobals

end Eval

/-! ## Beginnings -/

namespace ObjectRecord

/-- What is checked of the objects that a run begins with: an array has no elements. -/
def isEmptyArray (r : ObjectRecord) : Bool :=
  r.own? "length" = some (.data (.nat 0) true false false) && r.keys.all (arrayIndex? · == none)

/-- A length of zero is right for an array without elements. -/
theorem isSized_of_isEmptyArray {r : ObjectRecord}
    (h : (r.cls != .array || r.isEmptyArray) = true) : r.IsSized := by
  intro array
  rw [array, isEmptyArray] at h
  simp only [bne_self_eq_false, Bool.false_or, Bool.and_eq_true, decide_eq_true_eq,
    List.all_eq_true, beq_iff_eq] at h
  refine ⟨0, true, h.1, fun index small listed => ?_⟩
  have found := h.2 _ listed
  rw [arrayIndex?_eq_some_iff.2 ⟨rfl, small⟩] at found
  cases found

end ObjectRecord

/-- The core arrays pass the check. -/
theorem Realm.isSized_core_objects :
    core.objects.toList.all (fun r => r.cls != .array || r.isEmptyArray) = true := by
  decide +kernel

/-- So their lengths are right. -/
theorem Realm.isSized_core (o : ObjectId) : (core.object o).IsSized := by
  refine ObjectRecord.isSized_of_isEmptyArray ?_
  rw [object, Array.getD_eq_getD_getElem?]
  cases found : core.objects[o.index]? with
  | none => rfl
  | some r =>
    exact List.all_eq_true.1 isSized_core_objects r
      (Array.mem_toList_iff.2 (Array.mem_of_getElem? found))

/-- A run begins in a measured machine if the length of each array is right. -/
theorem Machine.measured_start {realm : Realm} (sized : ∀ o, (realm.object o).IsSized) :
    (start realm).Measured where
  ahead := isAhead_tick _
  now o _ := sized o
  seen := nofun

namespace Analyzer

/-- **Array lengths over whole runs.** Whenever an event is fired in a run with the core objects, and
at its end, every array whose length has been known at all moments so far has a length that is a
number above all its indices. -/
theorem array_sized {a : Analyzer} (core : a.catalogue = .core) (p : Program) {y : Moment}
    (state : (a.analyze p).machine.seen y ∨ y = (a.analyze p).machine.moment) {o : ObjectId}
    (known : ∀ x, (a.analyze p).machine.course x y → (x.realm.object o).HasKnownLength)
    (array : (y.realm.object o).cls = .array) :
    ∃ n w e c, (y.realm.object o).own? "length" = some (.data (.nat n) w e c) ∧
      ∀ key ∈ (y.realm.object o).keys, ∀ index, arrayIndex? key = some index → index < n := by
  have begun : (start a.realm).Measured := measured_start fun o => by
    rw [realm_eq_core core]
    exact Realm.isSized_core o
  have measured : (a.analyze p).machine.Measured := by
    -- the realm begins with arrays whose lengths are right, and the analysis keeps them so
    rw [machine_analyze]
    exact (measures_analyze rfl _).measured begun
  have sized : (y.realm.object o).IsSized := by
    rcases state with seen | rfl
    · exact measured.seen y seen o known
    · exact measured.now o fun x hx => known x (measured.ahead.last x hx)
  obtain ⟨n, w, own, below⟩ := sized array
  refine ⟨n, w, false, false, own, fun key listed index is => ?_⟩
  obtain ⟨rfl, small⟩ := arrayIndex?_eq_some_iff.1 is
  exact below index small listed

/-- The program `[true]`. -/
def arrayOfTrue : Program where
  span := default
  file := ""
  body := [.expression default (.array default [some (boolAt true)])]

/-- The first object that a program creates. -/
def firstObject : ObjectId := Realm.core.nextObject

set_option maxRecDepth 10000 in
/-- The array that a literal creates has a length above its index at the end. -/
theorem array_sized_arrayOfTrue :
    let y := (withUnknown.analyze arrayOfTrue).machine.moment
    (∀ x, (withUnknown.analyze arrayOfTrue).machine.course x y →
        (x.realm.object firstObject).HasKnownLength) ∧
      (y.realm.object firstObject).cls = .array ∧ "0" ∈ (y.realm.object firstObject).keys ∧
      ∃ n w e c, (y.realm.object firstObject).own? "length" = some (.data (.nat n) w e c) ∧
        ∀ key ∈ (y.realm.object firstObject).keys, ∀ index,
          arrayIndex? key = some index → index < n := by
  have known : ∀ x y, (withUnknown.analyze arrayOfTrue).machine.course x y →
      (x.realm.object firstObject).HasKnownLength := by
    -- the moments: at first, with the unknown global, with the array, and after the last reports
    with_unfolding_all
      refine forall_course_tick (forall_course_tick (forall_course_tick (forall_course_tick
        (fun _ _ h => False.elim h) ?_) ?_) ?_) ?_
    all_goals decide +kernel
  have array : ((withUnknown.analyze arrayOfTrue).machine.moment.realm.object firstObject).cls =
      .array := by decide +kernel
  exact ⟨fun x => known x _, array, by decide +kernel,
    array_sized rfl arrayOfTrue (.inr rfl) (fun x => known x _) array⟩

/-- The program `var a = [true]; if (u) a.length = 0; a.length = 0;`. -/
def lengthAgain : Program where
  span := default
  file := ""
  body :=
    let empty : Statement := .expression default
      (.assignment default .assign (.member default (nameAt "a") ⟨default, "length"⟩)
        (.literal default (.number 0)))
    [.varDeclaration default [.mk default ⟨default, "a"⟩
      (some (.array default [some (boolAt true)]))],
    .branch default (nameAt "u") empty none, empty]

/-- After the length may or may not have been set it is unknown. Setting it then to zero does not
remove the element, although there is none left whatever `u` is. -/
theorem array_longer_lengthAgain :
    let record := (withUnknown.analyze lengthAgain).machine.realm.object firstObject
    let other (b : Bool) := (withUnknown.analyzeWith [("u", .bool b)] lengthAgain).machine.realm.object
      firstObject
    record.cls = .array ∧ record.own? "length" = some (.data (.nat 0) true false false) ∧
      record.own? "0" = some (.plain (.bool true)) ∧
      ∀ b, (other b).own? "length" = some (.data (.nat 0) true false false) ∧
        (other b).own? "0" = none := by
  decide +kernel

end Analyzer

end AbstractScript
