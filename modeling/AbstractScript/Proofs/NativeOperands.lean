import AbstractScript.Proofs.FrameLaw
import AbstractScript.Proofs.Soundness

/-!
# The operands of native functions

A native function is entered by a call, by `new`, as an accessor or to convert its receiver. Calls
and `new` look at their operands first, and the other ways have a known receiver; but an assignment
that may or may not happen gives an unknown value to a native setter. So whatever is entered in a run
has known operands, or it is a setter with the value that is assigned
(`Analyzer.native_operands_known`).
-/
namespace AbstractScript

open Eval Machine

/-! ## Entries of a machine -/

namespace Machine

/-- Every native function was entered with known operands, or to store a value in a property. -/
def Proper (m : Machine) : Prop := ∀ e, m.entered e → e.IsProper

/-- Proper machines stay so. -/
def KeepsProper (m n : Machine) : Prop := m.Proper → n.Proper

instance : IsPreorder Machine KeepsProper where
  refl _ := id
  trans _ _ _ h h' := h' ∘ h

variable {m n : Machine}

@[simp] theorem entered_dropClaimed (mark : Nat) (p : Completion → Bool) :
    (m.dropClaimed mark p).entered = m.entered := by
  unfold dropClaimed
  split <;> rfl

@[simp] theorem entered_markReturnUnknown : m.markReturnUnknown.entered = m.entered := by
  unfold markReturnUnknown
  split <;> rfl

@[simp] theorem entered_noteExit (c : Completion) : (m.noteExit c).entered = m.entered := by
  unfold noteExit
  split
  case h_2 => exact entered_markReturnUnknown
  all_goals rfl

@[simp] theorem entered_markInvoked (f : ObjectId) : (m.markInvoked f).entered = m.entered := by
  unfold markInvoked
  split <;> rfl

@[simp] theorem entered_exitBlock (index : Option Nat) : (m.exitBlock index).entered = m.entered := by
  unfold exitBlock
  split <;> rfl

namespace KeepsProper

/-- Something other than the record of native functions changes. -/
theorem of_same (same : n.entered = m.entered) : m.KeepsProper n :=
  fun proper e entered => proper e (same ▸ entered)

/-- Between two machines with the records of two others nothing else matters. -/
theorem congr {k j : Machine} (h : k.KeepsProper j) (first : k.entered = m.entered)
    (last : n.entered = j.entered) : m.KeepsProper n :=
  fun proper e entered => h (fun e entered => proper e (first ▸ entered)) e (last ▸ entered)

theorem enterNative {f : Native} {this : Value} {arguments : List Value}
    (proper : NativeEntry.IsProper ⟨m.realm, f, this, arguments⟩) :
    m.KeepsProper (m.enterNative f this arguments) := by
  rintro before e (earlier | rfl)
  · exact before e earlier
  · exact proper

end KeepsProper

end Machine

/-! ## Native functions -/

instance (o : ObjectId) : Changing o KeepsProper := ⟨fun _ _ _ => .of_same rfl⟩

/-- What a native function enters in turn is proper if its own operands are. -/
theorem Native.proper_callWithin (depth : Nat) {f : Native} {this : Value} {arguments : List Value}
    {m : Machine} (proper : NativeEntry.IsProper ⟨m.realm, f, this, arguments⟩) (s : Setup) :
    m.KeepsProper ((callWithin depth f this arguments).after s m) :=
  callWithin_at (fun _ => inferInstance) (fun aside => .of_same aside.entered)
    (fun _ _ _ => .of_same rfl) (fun _ => id) (fun _ _ _ _ => .enterNative) depth proper

instance : Reading KeepsProper where
  aside h := .of_same h.entered
  addObject _ _ _ := .of_same rfl
  native _ _ _ proper := Native.proper_callWithin _ proper _

instance : Rebinding KeepsProper where
  defining _ := inferInstance
  modifyEnvironment _ _ _ _ := .of_same rfl

/-! ## Every rule -/

namespace Eval

/-- A step that leaves the record of native functions as it is. -/
theorem proper_modify {ε : Type} {f : Machine → Machine} (h : ∀ m, (f m).entered = m.entered) :
    Keeps KeepsProper (modify f : Eval ε Unit) := .modify fun m => .of_same (h m)

theorem proper_createScript {ε : Type} (code : FunctionCode) (scope : EnvId) :
    Keeps KeepsProper (createScript code scope : Eval ε ObjectId) :=
  .bind (.modifyGet fun _ => .of_same rfl) fun _ => .bind (.modifyGet fun _ => .of_same rfl) fun _ =>
    .bind (proper_modify fun _ => rfl) fun _ => .bind (proper_modify fun _ => rfl) fun _ =>
      .bind (proper_modify fun _ => rfl) fun _ => .pure _

end Eval

instance : Entering True KeepsProper where
  addEnvironment _ _ := .of_same rfl
  modifyBindings _ f := (Op.keeps_modifyBindings _ f).since _
  createBinding _ name deletable := (Op.built_createBinding _ name deletable).keeps.since _
  setBinding e name v := (Op.built_setBinding e name v).keeps
  createScript _ := proper_createScript _
  dropClaimed h mark p := h.congr rfl (entered_dropClaimed mark p)
  popContext _ h := h.congr rfl rfl
  setLexicalEnv h := h.congr rfl rfl

instance : Stepwise True fun _ => KeepsProper where
  leave h _ := h.congr rfl rfl
  abandon h := h.congr rfl rfl
  markInvoked _ f := .of_same (entered_markInvoked f)
  pass h := h.congr rfl (entered_exitBlock _)
  note _ c := .of_same (entered_noteExit c)
  claim _ h := h.congr rfl (entered_dropClaimed _ _)
  handled h := h.congr rfl (entered_dropClaimed _ _)
  overtaken _ _ := .of_same rfl
  construct _ _ known := Native.proper_callWithin _ (.of_known rfl known) _
  closure _ := .inl fun no => absurd trivial no
  script names h f this arguments := keeps_callScript names h f this arguments
  handle h name thrown := keeps_handle name h thrown
  createScript _ := proper_createScript _
  functionValue names := keeps_createFunctionValue names
  arrayLiteral := Rule.keeps_arrayLiteral
  objectLiteral := Rule.keeps_objectLiteral
  putValue r v := (Op.built_putValue r v).keeps
  deleteReference _ := (Rule.built_deleteReference _).keeps

/-! ## Runs -/

namespace Eval

variable {s : Setup} {m : Machine}

theorem proper_defineUnknown (name : String) : Keeps KeepsProper (defineUnknown name) := by
  refine .bind (.attempt (Op.built_createData ..).keeps) fun result => ?_
  split
  · exact .pure _
  · exact .aside (reportError_keeps _)

theorem proper_reportPossibleThrows : Keeps KeepsProper reportPossibleThrows := by
  refine .bind (.modifyGet fun _ => .of_same rfl) fun exits => .forM fun e _ => ?_
  exact .when (.bind .get fun _ => ⟨fun _ _ => .of_same rfl⟩)

theorem proper_analyze {p : Program} (zero : m.level = 0) (unknownGlobals : List String) :
    m.KeepsProper ((analyze unknownGlobals p).after s m) :=
  analyze_at (fun no => absurd trivial no) zero (.of_same rfl)
    (fun k _ name => (proper_defineUnknown name).since k) proper_reportPossibleThrows unknownGlobals

end Eval

/-! ## Unknown operands -/

namespace Eval

/-- The result is unknown, nothing is reported, and no object and no environment changes. -/
def IsLostAt (x : Run Completion) (s : Setup) (m : Machine) : Prop :=
  ∃ n, x s m = .ok .unknown n ∧ n.realm = m.realm ∧ n.diagnostics = m.diagnostics

variable {s : Setup} {m : Machine} {f : ObjectId} {text : String} {arguments : List Value}

/-- A call of a native function is lost if the receiver or an argument is unknown. -/
theorem isLostAt_callFunction {native : Native} {construct : Option Native}
    (callable : (m.realm.object f).callable = some (.native text (some native) construct))
    {this : Value} (unknown : (this.isUnknown || Value.anyUnknown arguments) = true)
    (script : ScriptCall) : IsLostAt (callFunction script f this arguments) s m := by
  refine ⟨m.markInvoked f, ?_, m.realm_markInvoked f, m.diagnostics_markInvoked f⟩
  rw [← m.realm_markInvoked f] at callable
  rw [callFunction, markInvoked, bind_apply, modify_apply]
  simp only [object, bind_apply, get_apply, pure_apply, callable, unknown, if_true]

/-- A native function creates nothing from an unknown argument. -/
theorem isLostAt_construct {call : Option Native} {native : Native}
    (callable : (m.realm.object f).callable = some (.native text call (some native)))
    (unknown : Value.anyUnknown arguments = true) (script : ScriptCall) :
    IsLostAt (construct script f arguments) s m := by
  refine ⟨m.markInvoked f, ?_, m.realm_markInvoked f, m.diagnostics_markInvoked f⟩
  rw [← m.realm_markInvoked f] at callable
  rw [construct, markInvoked, bind_apply, modify_apply]
  simp only [object, bind_apply, get_apply, pure_apply, callable, unknown, if_true]

/-- What is done with an unknown operand is lost. -/
structure LosesUnknown (s : Setup) (m : Machine) : Prop where
  call : ∀ {f text native construct},
    (m.realm.object f).callable = some (.native text (some native) construct) →
    ∀ {this arguments}, (this.isUnknown || Value.anyUnknown arguments) = true →
    ∀ script, IsLostAt (callFunction script f this arguments) s m
  new : ∀ {f text call native},
    (m.realm.object f).callable = some (.native text call (some native)) →
    ∀ {arguments}, Value.anyUnknown arguments = true →
    ∀ script, IsLostAt (construct script f arguments) s m
  operator : ∀ operator {a b}, Value.anyUnknown [a, b] = true →
    Op.apply operator a b s m = .ok .unknown m
  unary : ∀ f, Op.numericUnary f .unknown s m = .ok .unknown m
  read : ∀ name, Op.getValue (.property .unknown name) s m = .ok .unknown m
  write : ∀ name v, Op.putValue (.property .unknown name) v s m = .ok () m
  delete : ∀ name, Rule.deleteReference (.property .unknown name) s m = .ok .unknown m

theorem losesUnknown (s : Setup) (m : Machine) : LosesUnknown s m where
  call callable _ _ unknown script := isLostAt_callFunction callable unknown script
  new callable _ unknown script := isLostAt_construct callable unknown script
  operator operator a b unknown := by
    rw [Op.apply, if_pos unknown]
    rfl
  unary _ := rfl
  read _ := rfl
  write _ _ := rfl
  delete _ := rfl

end Eval

/-! ## Native setters -/

/-- The native function that an assignment to a property runs. -/
def Realm.nativeSetter? (r : Realm) (o : ObjectId) (name : String) : Option Native :=
  match r.canPut o name, (r.object o).own? name, r.property? o name with
  | false, _, _ | _, some (.data ..), _ => none
  | _, _, some (.accessor _ (some f) _ _) =>
    match (r.object f).callable with
    | some (.native _ (some native) _) => some native
    | _ => none
  | _, _, _ => none

/-- What was entered stays so. -/
def Machine.EntersMore (m n : Machine) : Prop := ∀ e, m.entered e → n.entered e

instance : IsPreorder Machine EntersMore where
  refl _ _ := id
  trans _ _ _ h h' e := h' e ∘ h e

instance (o : ObjectId) : Changing o EntersMore := ⟨fun _ _ _ _ => id⟩

/-- A native function that is run has been entered. -/
theorem Native.entered_call (f : Native) (this : Value) (arguments : List Value) (s : Setup)
    (m : Machine) : ((f.call this arguments).after s m).entered ⟨m.realm, f, this, arguments⟩ := by
  let natives : Natives := ⟨callWithin (nestingLimit - 1)⟩
  have more : Keeps EntersMore (f.run this arguments) :=
    have reading : Reading EntersMore :=
      { aside := fun aside e entered => aside.entered ▸ entered
        addObject := fun _ _ _ _ => id
        native := fun _ this arguments _ => (keeps_callWithin (fun aside e entered =>
          aside.entered ▸ entered) (fun _ _ _ _ => id) (fun _ _ _ _ _ => .inl) _ _ this
            arguments).after _ _ }
    (f.built_run this arguments).keeps
  exact more.after s (m.enterNative f this arguments) _ (.inr rfl)

/-- A native setter is entered with the value, or with an unknown one. -/
theorem Op.put_enters {m : Machine} {o : ObjectId} {name : String} {native : Native}
    (found : m.realm.nativeSetter? o name = some native) (v : Value) (strict : Bool) (s : Setup) :
    ((put o name v strict).after s m).entered ⟨m.realm, native, .object o,
      [if m.isAmbiguousWrite (m.realm.object o).createdLevel then .unknown else v]⟩ := by
  unfold Realm.nativeSetter? at found
  split at found
  case h_1 => cases found
  case h_2 => cases found
  case h_3 f _ _ accessor allowed own =>
    -- only an accessor with a setter is called by an assignment
    have allowed : m.realm.canPut o name = true := by simpa using allowed
    split at found
    next text native' construct callable =>
      obtain rfl := Option.some.inj found
      rw [put, after_get_bind, if_neg (by simp [allowed]), after_object_bind,
        after_bind_ok (weaken_apply ..)]
      split
      next data => exact absurd data (own _ _ _ _)
      next =>
        rw [after_bind_ok (property?_apply ..), accessor]
        refine (after_bind_pure ..).symm ▸ ?_
        rw [callAccessor, after_object_bind, callable]
        exact Native.entered_call ..
    next => cases found
  case h_4 => cases found

namespace Analyzer

/-- **The operands of native functions.** In every run the native functions that are entered have
known operands, unless the value is assigned to a property with a native setter; and whatever else is
done with an unknown operand gives an unknown value, reports nothing and changes no object. -/
theorem native_operands_known (a : Analyzer) (p : Program) :
    (∀ e, (a.analyze p).machine.entered e → e.receiver.isUnknown = false ∧
      (Value.anyUnknown e.arguments = false ∨ e.IsAssignment)) ∧
    ∀ s m, LosesUnknown s m := by
  refine ⟨fun e entered => ?_, losesUnknown⟩
  have begun : (start a.realm).Proper := fun _ no => no.elim
  have proper : (a.analyze p).machine.Proper := by
    rw [machine_analyze]
    exact proper_analyze rfl _ begun
  obtain ⟨receiver, arguments⟩ := proper e entered
  refine ⟨receiver, ?_⟩
  cases unknown : Value.anyUnknown e.arguments with
  | false => exact .inl rfl
  | true => exact .inr (arguments unknown)

/-- The program `var o = Object.defineProperty({}, "x", {set: Object.preventExtensions});`, and then
more. -/
def withNativeSetter (more : List Statement) : Program where
  span := default
  file := ""
  body :=
    let member (name : String) : Expression := .member default (nameAt "Object") ⟨default, name⟩
    .varDeclaration default [.mk default ⟨default, "o"⟩ (some (.call default
      (member "defineProperty") [.object default [], .literal default (.string "x"),
        .object default [.value default "set" (member "preventExtensions")]]))] :: more

/-- The statement `o.x = u;`. -/
def storeUnknown : Statement :=
  .expression default (.assignment default .assign (.member default (nameAt "o") ⟨default, "x"⟩)
    (nameAt "u"))

/-- An assignment runs the native setter with the unknown value, which reports an error. -/
theorem native_operands_unknown_setter :
    let m := (withUnknown.analyze (withNativeSetter [])).machine
    (∀ s, ∃ e, ((Op.put Realm.core.nextObject "x" .unknown false).after s m).entered e ∧
      Value.anyUnknown e.arguments = true) ∧
    (withUnknown.analyze (withNativeSetter [storeUnknown])).machine.diagnostics.toList.map
      (·.message) = ["Value is not an object"] := by
  have enters {m : Machine} {o : ObjectId} (setter : (m.realm.nativeSetter? o "x").isSome = true)
      (s : Setup) : ∃ e, ((Op.put o "x" .unknown false).after s m).entered e ∧
        Value.anyUnknown e.arguments = true := by
    obtain ⟨native, found⟩ := Option.isSome_iff_exists.1 setter
    have entered := Op.put_enters found .unknown false s
    rw [ite_self] at entered
    exact ⟨_, entered, rfl⟩
  exact ⟨enters (by decide +kernel), by decide +kernel⟩

end Analyzer

end AbstractScript
