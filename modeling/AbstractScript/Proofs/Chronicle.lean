import AbstractScript.Proofs.DirectPrograms
import AbstractScript.Proofs.FrameLaw

/-!
# Chronicles of runs that succeed

Events, diagnostics and the ledger record what happens in a run. A run that fails may stop in the
middle of a record, so that what a record says as a whole is said of successes only: a *chronicle* is
a relation between the machines before and after a success that holds of all that leaves the records
alone, of a rule if it holds of what the rule does between its events, and of a `try` if it holds of
its block (`Chronicle`). It holds of everything that is evaluated (`Eval.recounts_evaluate`), and of
the visits to functions that were never called.
-/
namespace AbstractScript

open Eval Machine

/-! ## What leaves the records alone -/

namespace Machine

/-- The rules in progress and the possible exits are the same, and what is reported is told. -/
structure Apart (m n : Machine) : Prop where
  frames : n.frames = m.frames
  exits : n.exits = m.exits
  told : m.Told n

theorem Quiet.apart {m n : Machine} (h : m.Quiet n) : m.Apart n := ⟨h.frames, h.exits, h.told⟩

namespace Apart

theorem withContexts (m : Machine) (s : ContextStack) : m.Apart (m.withContexts s) :=
  ⟨rfl, rfl, .of_eq⟩

theorem setLexicalEnv (m : Machine) (e : EnvId) : m.Apart (m.setLexicalEnv e) :=
  ⟨rfl, rfl, .of_eq⟩

theorem exitBlock (m : Machine) (index : Option Nat) : m.Apart (m.exitBlock index) := by
  cases index with
  | none => exact ⟨rfl, rfl, .of_eq⟩
  | some i => exact .withContexts m _

theorem markReturnUnknown (m : Machine) : m.Apart m.markReturnUnknown := by
  unfold Machine.markReturnUnknown
  split
  · exact .withContexts m _
  · exact ⟨rfl, rfl, .of_eq⟩

theorem markInvoked (m : Machine) (f : ObjectId) : m.Apart (m.markInvoked f) := by
  unfold Machine.markInvoked
  split <;> exact ⟨rfl, rfl, .of_eq⟩

theorem recordPass {m n : Machine} (h : m.Apart n) (k : Machine) : m.Apart (k.recordPass n) :=
  ⟨h.frames, h.exits, h.told.observed, h.told.ledger, h.told.reported⟩

end Apart

end Machine

/-! ## Chronicles -/

/-- A relation between the machines before and after a success that the steps of an evaluation keep:
those that add no record, and those that add a rule, a possible exit or a claim to the records. -/
class Chronicle (S : Machine → Machine → Prop) : Prop extends IsPreorder Machine S where
  apart : ∀ {m n}, m.Apart n → S m n
  /-- A rule is left at the ambiguous depth that it was begun at. -/
  rule : ∀ {m n f}, n.contexts.depth = m.contexts.depth → S (m.beginRule f) n →
    ∀ c, S m (n.endRule f c)
  addExit : ∀ m c, S m (m.addExit c)
  claim : ∀ {p}, (∀ c : Completion, c.isThrow = true → p c = false) →
    ∀ m mark, S m (m.dropClaimed mark p)
  /-- The block of a `try` with a handler is left. -/
  handled : ∀ {m n}, m.Steady n → S m n → S m (m.endHandled n)

/-- What is steady and, if it succeeds, recounted by a chronicle. -/
def Machine.Recounts (S : Machine → Machine → Prop) (b : Bool) (m n : Machine) : Prop :=
  m.Steady n ∧ (b = true → S m n)

variable {S : Machine → Machine → Prop} [Chronicle S]

namespace Machine.Recounts

variable {m n : Machine} {b : Bool}

omit [Chronicle S] in
theorem of_success (steady : m.Steady n) (h : S m n) : m.Recounts S b n := ⟨steady, fun _ => h⟩

theorem of_quiet (h : m.Quiet n) : m.Recounts S b n := of_success h.steady (Chronicle.apart h.apart)

theorem of_apart (steady : m.Steady n) (h : m.Apart n) : m.Recounts S b n :=
  of_success steady (Chronicle.apart h)

/-- What happens between two steps that leave the records alone is recounted as it is. -/
theorem between {m' n' : Machine} (steady : m.Steady n') (before : m.Apart m')
    (h : m'.Recounts S b n) (after : n.Apart n') : m.Recounts S b n' :=
  ⟨steady, fun ok => IsTrans.trans _ _ _ (Chronicle.apart before)
    (IsTrans.trans _ _ _ (h.2 ok) (Chronicle.apart after))⟩

end Machine.Recounts

instance : Composes (Recounts S) where
  same _ m := .of_success (refl m) (refl m)
  step h h' := ⟨IsTrans.trans _ _ _ h.1 h'.1, fun ok => IsTrans.trans _ _ _ (h.2 rfl) (h'.2 ok)⟩

namespace Eval

variable {ε α : Type} {x : Eval ε α}

/-- What is quiet is recounted as a success, even if it fails. -/
theorem IsQuiet.recounted (h : IsQuiet x) : Keeps (Recounts S true) x :=
  h.mono fun _ _ => .of_quiet

theorem IsQuiet.recounts (h : IsQuiet x) : KeepsBy (Recounts S) x := .of_keeps h.recounted

end Eval

instance : Reading (Recounts S true) where
  refl m := Composes.same true m
  trans _ _ _ := Composes.step
  aside h := .of_quiet h.quiet
  addObject m record _ :=
    .of_quiet ⟨rfl, rfl, rfl, rfl, .addObject m.realm record, .of_eq rfl rfl, .of_eq⟩
  native := fun _ this arguments _ => .of_quiet ((QuietNatives.call _ this arguments).after _ _)

instance (o : ObjectId) : Changing o (Recounts S true) :=
  ⟨fun m _ h => .of_quiet (Quiet.modifyObject m o h)⟩

namespace Eval

theorem recounts_inScope (e : EnvId) {x : Run Completion} (h : KeepsBy (Recounts S) x) :
    KeepsBy (Recounts S) (inScope e x) where
  after s m := by
    unfold inScope
    rw [after_bind_ok (get_apply ..), after_bind_ok (modify_apply ..), after_ensuring,
      succeeds_bind_ok (get_apply ..), succeeds_bind_ok (modify_apply ..), succeeds_ensuring]
    have inside := h.after s (m.setLexicalEnv e)
    exact inside.between inside.1.setLexicalEnv (.setLexicalEnv m e) (.setLexicalEnv _ _)

theorem recounts_handle (name : String) {body : Run Completion} (h : KeepsBy (Recounts S) body)
    (thrown : Value) : KeepsBy (Recounts S) (handle name body thrown) := by
  refine Rule.KeepsBy.complete (.bind .get fun m => ?_)
  refine .bind (.lift (isQuiet_createEnvironment _).recounts) fun e => ?_
  refine .bind (Rule.keeps_native (Op.isQuiet_createBinding ..).recounted) fun _ => ?_
  refine .bind (Rule.keeps_native (Op.isQuiet_setBinding ..).recounted) fun _ => ?_
  exact .lift (recounts_inScope e h)

/-- Of the possible exits in a context none is claimed that is a throw. -/
theorem recounts_inContext {α : Type} (c : Context) {x : Run α} (h : KeepsBy (Recounts S) x) :
    KeepsBy (Recounts S) (inContext c x) where
  after s m := by
    unfold inContext
    rw [after_bind_ok (x := mark) (a := m.exits.size) (n := m) rfl,
      after_bind_ok (modify_apply ..), after_ensuring,
      succeeds_bind_ok (x := mark) (a := m.exits.size) (n := m) rfl,
      succeeds_bind_ok (modify_apply ..), succeeds_ensuring]
    have inside := h.after s (m.pushContext c)
    refine ⟨inside.1.popContext _, fun ok => ?_⟩
    have entered : S m (m.pushContext c) := Chronicle.apart (.withContexts m _)
    have left (n : Machine) : S n n.popContext := Chronicle.apart (.withContexts n _)
    refine IsTrans.trans _ _ _ (IsTrans.trans _ _ _ entered (inside.2 ok)) ?_
    exact IsTrans.trans _ _ _ (left _) (Chronicle.claim (fun c throws => by rw [throws]; rfl) _ _)

theorem recounts_callScript {body : Run Completion} (h : KeepsBy (Recounts S) body) (f : ObjectId)
    (closure : Closure) (this : Value) (arguments : List Value) :
    KeepsBy (Recounts S) (callScript body f closure this arguments) := by
  refine .bind (keeps_scriptReceiver this) fun receiver => ?_
  refine .bind (isQuiet_createEnvironment _).recounts fun e => recounts_inContext _ ?_
  exact .bind (isQuiet_enterBody ..).recounts fun _ => .bind h fun c => .bind .get fun _ => .pure _

end Eval

instance : Stepwise True (Recounts S) where
  leave {m n f} h c := by
    have depth : n.contexts.depth = m.contexts.depth := h.1.contexts.depth_eq
    exact .of_success (leave_of Steady.fire Steady.popFrame h.1 c) (Chronicle.rule depth (h.2 rfl) c)
  abandon h := ⟨abandon_of Steady.fire Steady.popFrame h.1, nofun⟩
  markInvoked m f := .of_apart (.markInvoked m f) (.markInvoked m f)
  pass {b m n} h :=
    h.between h.1.exitBlock.recordPass (.withContexts m _) ((Apart.exitBlock n _).recordPass m)
  note m c := by
    refine .of_success (.noteExit m c) ?_
    unfold Machine.noteExit
    split
    · exact refl m
    · exact Chronicle.apart (.markReturnUnknown m)
    · exact Chronicle.addExit m c
    · exact Chronicle.addExit m c
    · exact Chronicle.addExit m c
  claim others h :=
    .of_success (h.1.dropClaimed _) (IsTrans.trans _ _ _ (h.2 rfl) (Chronicle.claim others _ _))
  handled h := .of_success ((IsTrans.trans _ _ _ h.1 (Steady.enterLedger ..)).dropClaimed _)
    (Chronicle.handled h.1 (h.2 rfl))
  overtaken m p := .of_apart (.recordOvertaken m p) ⟨rfl, rfl, .of_eq⟩
  construct := fun _ _ _ => .of_quiet ((Native.isQuiet_callWithin ..).after _ _)
  closure _ := .inl fun h => absurd trivial h
  script _ h f this arguments := recounts_callScript h f _ this arguments
  handle h name thrown := recounts_handle name h thrown
  createScript _ scope := (isQuiet_createScript _ scope).recounted
  functionValue _ := (isQuiet_createFunctionValue _).recounted
  arrayLiteral := Rule.keeps_arrayLiteral
  objectLiteral := Rule.keeps_objectLiteral
  putValue r v := (Op.isQuiet_putValue r v).recounted
  deleteReference _ := (Rule.isQuiet_deleteReference _).recounted

/-! ## Runs -/

namespace Eval

/-- What a run evaluates between its beginning and its last reports. -/
def evaluateAll (unknownGlobals : List String) (p : Program) : Run Completion := do
  unknownGlobals.forM defineUnknown
  let c ← p.evaluate
  if ← setup (·.options.processUnvisitedCode) then visitFunctions visitLimit 0
  return c

theorem analyze_eq_evaluateAll (unknownGlobals : List String) (p : Program) :
    analyze unknownGlobals p = do
      watch
      let c ← evaluateAll unknownGlobals p
      reportPossibleThrows
      return c := by
  simp only [analyze, evaluateAll, bind_assoc]
  refine bind_congr fun _ => bind_congr fun _ => bind_congr fun c => bind_congr fun visits => ?_
  split
  · simp only [bind_assoc, pure_bind]
  · simp only [pure_bind]

/-- **Every chronicle recounts a run.** -/
theorem recounts_evaluateAll (unknownGlobals : List String) (p : Program) :
    KeepsBy (Recounts S) (evaluateAll unknownGlobals p) := by
  refine .bind (.forM fun name _ => (isQuiet_defineUnknown name).recounts) fun _ => ?_
  have body : KeepsBy (Recounts S) (runProgram p.body) := ⟨fun s m => runProgram_at (R := Recounts S)
    ((isQuiet_enterProgram p.body).recounts.after s m) fun h => absurd trivial h⟩
  refine .bind (keeps_ruled _ _ body) fun c => .bind (.setup _) fun visits => ?_
  exact .join (keeps_visitFunctions ..) (fun _ => .pure c) (.pure c)

end Eval

theorem Analysis.exists_result {b : Analysis} (h : b.result.isOk = true) : ∃ c, b.result = .ok c := by
  cases ends : b.result with
  | ok c => exact ⟨c, rfl⟩
  | error e => rw [ends] at h; cases h

namespace Analyzer

variable {a : Analyzer} {p : Program} {c : Completion}

/-- The machine in which a run begins to evaluate. -/
def begun (a : Analyzer) : Machine := { Machine.start a.realm with observed := a.observed }

theorem run_of_result (h : (a.analyze p).result = .ok c) :
    Eval.analyze a.unknownGlobals p (a.setup p) (.start a.realm) = .ok c (a.analyze p).machine := by
  cases run : Eval.analyze a.unknownGlobals p (a.setup p) (.start a.realm) with
  | ok d m =>
    rw [analyze_of_ok run] at h ⊢
    rw [← Except.ok.inj h]
  | error e m =>
    rw [analyze_of_error run] at h
    cases h

/-- A run that succeeds evaluates all there is, which every chronicle recounts, and then reports. -/
theorem recounts_analyze (h : (a.analyze p).result = .ok c) : ∃ m, a.begun.Steady m ∧ S a.begun m ∧
    (reportPossibleThrows : Run Unit) (a.setup p) m = .ok () (a.analyze p).machine := by
  have run := run_of_result h
  rw [analyze_eq_evaluateAll, bind_eq_ok_iff] at run
  obtain ⟨_, _, watched, run⟩ := run
  cases watched
  obtain ⟨d, m, evaluated, run⟩ := bind_eq_ok_iff.1 run
  obtain ⟨_, n, reported, ends⟩ := bind_eq_ok_iff.1 run
  rw [pure_apply] at ends
  injection ends with _ same
  obtain ⟨steady, recounted⟩ := (recounts_evaluateAll (S := S) _ _).of_ok evaluated
  exact ⟨m, steady, recounted rfl, same ▸ reported⟩

end Analyzer

end AbstractScript
