import AbstractScript.Analysis.Run
import AbstractScript.Proofs.FramedOperations
import AbstractScript.Proofs.Installation

/-!
# The frame law of ambiguous passes

Whatever is evaluated as something that may or may not happen is framed: what existed before at the
ambiguity level around it or below is at most weakened by it (`Analyzer.analyze_framed`). Evaluation
frames every machine, since it writes by assignments and by what it does to objects and environments
of its own.
-/
namespace AbstractScript

open Eval Machine

/-! ## Functions -/

namespace Eval

variable {ε : Type} {m : Machine}

theorem create_apply (record : Nat → ObjectRecord) (s : Setup) (m : Machine) :
    (create record : Eval ε ObjectId) s m =
      .ok m.realm.nextObject (m.addObject (record m.realm.ambiguityLevel)) := rfl

theorem frames_modifyObject {o : ObjectId} (free : m.IsFree o) {f : ObjectRecord → ObjectRecord}
    (alike : ∀ r : ObjectRecord, r.Alike (f r)) :
    KeepsSince Frames m (modifyObject o f : Eval ε Unit) :=
  have := free.changing
  keeps_modifyObject alike

/-- The function and its prototype are new, and free to change. -/
theorem frames_createScript {code : FunctionCode} (names : code.keepsNames = true)
    (scope : EnvId) : Keeps Frames (createScript code scope : Eval ε ObjectId) where
  after s m := by
    rw [createScript, createFunction, after_bind_ok (create_apply ..), createPlain,
      after_bind_ok (create_apply ..)]
    have made : m.Frames (((m.addObject (Realm.functionRecord m.realm.ambiguityLevel
        (.script ⟨code, scope⟩))).addObject (Realm.plainRecord m.realm.ambiguityLevel))) :=
      ((refl m : m.Frames m).addObject (.of_script names _ scope)).addObject (.of_not_callable rfl)
    have later : m.IsFree (m.addObject (Realm.functionRecord m.realm.ambiguityLevel
        (.script ⟨code, scope⟩))).realm.nextObject :=
      .of_size_le (by simp [Machine.addObject, Realm.addObject, Realm.nextObject])
    refine Keeps.after (R := Since Frames m) ?_ s _ made
    refine .bind (frames_modifyObject (.of_size_le (Nat.le_refl _)) fun r => ?_) fun _ => ?_
    · exact (ObjectRecord.Alike.store ..).trans (.store ..)
    · refine .bind (frames_modifyObject later fun r => .store ..) fun _ => ?_
      exact .bind (.modify fun k hk => hk.congr rfl rfl rfl) fun _ => .pure _

end Eval

/-! ## Contexts and blocks -/

namespace ContextStack

variable {s : ContextStack}

theorem enterIndex?_of_running (h : s.isEmpty = false) : ∃ index, s.enterIndex? = some index := by
  rcases s with ⟨_ | ⟨c, rest⟩⟩
  · cases h
  · exact ⟨rest.length, rfl⟩

theorem running_enterBlock (h : s.isEmpty = false) : s.enterBlock.isEmpty = false := by
  rcases s with ⟨_ | ⟨c, rest⟩⟩
  · cases h
  · rfl

theorem running_setLexicalEnv (h : s.isEmpty = false) {e : EnvId} :
    (s.setLexicalEnv e).isEmpty = false := by
  rcases s with ⟨_ | ⟨c, rest⟩⟩
  · cases h
  · rfl

end ContextStack

namespace Machine

variable {m n : Machine}

theorem Frames.dropClaimed (h : m.Frames n) (mark : Nat) (p : Completion → Bool) :
    m.Frames (n.dropClaimed mark p) := by
  obtain ⟨contexts, -, realm, history⟩ := n.dropClaimed_unchanged mark p
  exact h.congr contexts (congrArg History.passed history) realm

theorem Frames.withContexts (h : m.Frames n) {s : ContextStack} (kept : m.contexts.Kept s) :
    m.Frames (n.withContexts s) := fun tame =>
  have h := h tame
  { contexts := kept
    grows := h.grows.trans (n.grows_withContexts s)
    tame := h.tame
    framed := fun level lt => ⟨(h.framed level lt).object, (h.framed level lt).environment⟩
    history := h.history }

theorem Frames.markReturnUnknown (m : Machine) : m.Frames m.markReturnUnknown := by
  unfold Machine.markReturnUnknown
  split
  · exact (refl m : m.Frames m).withContexts (.refl _)
  · refine ((refl m : m.Frames m).withContexts (.markReturned _)).modifyEnvironment ?_ ?_
    · exact fun env => ⟨rfl, rfl, fun _ _ => .rfl⟩
    · exact fun _ _ _ _ => Environment.Weakened.refl _

theorem Frames.noteExit (m : Machine) (c : Completion) : m.Frames (m.noteExit c) := by
  unfold Machine.noteExit
  split
  · exact refl m
  · exact .markReturnUnknown m
  all_goals exact (refl m : m.Frames m).congr rfl rfl rfl

/-- What frames a machine in an ambiguous block is a framed pass. -/
theorem Frames.recordPass (h : m.enterBlock.Frames n) :
    m.Frames (m.recordPass (n.exitBlock m.contexts.enterIndex?)) := by
  intro tame
  obtain ⟨index, entered⟩ := ContextStack.enterIndex?_of_running tame.running
  have level : m.enterBlock.level = m.level + 1 := ContextStack.level_enterBlock tame.running
  have h := h ⟨ContextStack.running_enterBlock tame.running, tame.realm⟩
  -- the level of the machine is below that of the block
  have framed (l : Nat) (le : l ≤ m.level) : m.realm.Framed l n.realm :=
    have framed := h.framed l (level ▸ Nat.lt_succ_of_le le)
    ⟨framed.object, framed.environment⟩
  rw [entered]
  exact
    { contexts := h.contexts.exitBlock entered
      grows := ((m.grows_withContexts _).trans h.grows).trans (n.grows_withContexts _)
      tame := h.tame
      framed := fun l lt =>
        have framed := framed l (Nat.le_of_lt lt)
        ⟨framed.object, framed.environment⟩
      history := fun before l after passed => by
        rcases passed with earlier | ⟨rfl, rfl, rfl⟩
        · exact h.history before l after earlier
        · have framed := framed m.level (Nat.le_refl _)
          exact .inr ⟨framed.object, framed.environment⟩ }

/-- What frames a machine in another context of the same level frames it without the context. -/
theorem Frames.popContext {c : Context} (unambiguous : c.ambiguity = 0)
    (h : (m.pushContext c).Frames n) : m.Frames n.popContext := by
  intro tame
  have level : (m.pushContext c).level = m.level := by
    show c.ambiguity + m.level = m.level
    rw [unambiguous, Nat.zero_add]
  have h := h ⟨rfl, tame.realm⟩
  exact
    { contexts := .inl h.contexts.pop
      grows := ((m.grows_withContexts _).trans h.grows).trans (n.grows_withContexts _)
      tame := h.tame
      framed := fun l lt =>
        have framed := h.framed l (level ▸ lt)
        ⟨framed.object, framed.environment⟩
      history := h.history }

theorem Frames.setLexicalEnv {e : EnvId} (h : (m.setLexicalEnv e).Frames n) :
    m.Frames (n.setLexicalEnv m.lexicalEnv) := by
  intro tame
  have h := h ⟨ContextStack.running_setLexicalEnv tame.running, tame.realm⟩
  have level : (m.setLexicalEnv e).level = m.level := ContextStack.level_setLexicalEnv ..
  exact
    { contexts := h.contexts.setLexicalEnv fun c running => by simp [lexicalEnv, running]
      grows := h.grows
      tame := h.tame
      framed := fun l lt => h.framed l (level ▸ lt)
      history := h.history }

end Machine

/-! ## Every rule -/

instance : Entering False Frames where
  addEnvironment m e := (refl m : m.Frames m).addEnvironment e
  modifyBindings free f := Op.frames_modifyBindings free f
  createBinding free := Op.frames_createBinding free
  setBinding := Op.frames_setBinding
  createScript names scope := frames_createScript (names not_false) scope
  dropClaimed h := h.dropClaimed
  popContext unambiguous h := h.popContext unambiguous
  setLexicalEnv h := h.setLexicalEnv

namespace Rule

/-- The object of a literal is new, and free to change. -/
theorem frames_literal {record : Nat → ObjectRecord} (plain : ∀ level, (record level).callable = none)
    {rest : ObjectId → Rule Completion}
    (h : ∀ m o, m.IsFree o → Keeps (Since Frames m) (rest o)) :
    Keeps Frames (lift (create record) >>= rest) where
  after s m := by
    have created : (lift (create record)).run s m =
      .ok (.ok m.realm.nextObject) (m.addObject (record m.realm.ambiguityLevel)) := rfl
    rw [ExceptT.run_bind, after_bind_ok created]
    exact (h m m.realm.nextObject (.of_size_le (Nat.le_refl _))).after s _
      ((refl m : m.Frames m).addObject (.of_not_callable (plain _)))

theorem frames_arrayLiteral {xs : List (Option (Run Completion))}
    (h : ∀ x, some x ∈ xs → Eval.Keeps Frames x) : Keeps Frames (arrayLiteral xs) := by
  refine .bind (keeps_elements h) fun vs => frames_literal (fun _ => rfl) fun m o free => ?_
  refine .bind (.forM fun name _ => ?_) fun _ => .pure _
  exact .bind (keeps_native (Op.frames_delete free name false)) fun _ => .pure _

theorem frames_objectLiteral {ps : List Property} (h : ∀ p ∈ ps, Keeps Frames p.2) :
    Keeps Frames (objectLiteral ps) := by
  refine frames_literal (fun _ => rfl) fun m o free => ?_
  refine .bind (.forM fun p hp => ?_) fun _ => .pure _
  refine .bind ((h p hp).since m) fun d => ?_
  exact .bind (keeps_native (Op.frames_define free p.1 d false)) fun _ => .pure _

/-- A deletion that may or may not happen assigns an unknown value instead. -/
theorem frames_deleteProperty (o : ObjectId) (name : String) :
    Eval.Keeps Frames (deleteProperty o name) where
  after s m := by
    rw [deleteProperty, after_get_bind, after_object_bind]
    split
    · rw [after_object_bind]
      exact (Keeps.join (Op.frames_put ..) (fun _ => .pure _) (.pure _)).after s m
    next certain =>
      refine Keeps.start (R := Frames) ?_ s
      exact .bind (Op.frames_delete (.of_not_isAmbiguousWrite certain) name false) fun _ => .pure _

theorem frames_deleteReference {r : Reference} (h : ∀ e, r.base ≠ .environment e) :
    Eval.Keeps Frames (deleteReference r) := by
  unfold deleteReference
  split
  · exact .pure _
  · exact .pure _
  · exact .pure _
  · exact frames_deleteProperty ..
  · exact .pure _
  next e base => exact absurd base (h e)

end Rule

theorem Machine.Frames.fire (m : Machine) (e : Event) : m.Frames (m.fire e) :=
  (refl m : m.Frames m).congr rfl rfl rfl

theorem Machine.Frames.popFrame {m n : Machine} {f : Frame} (h : (m.pushFrame f).Frames n) :
    m.Frames n.popFrame := fun tame =>
  have h := h ⟨tame.running, tame.realm⟩
  ⟨h.contexts, h.grows, h.tame, h.framed, h.history⟩

instance : Stepwise False fun _ => Frames where
  leave := leave_of Frames.fire Frames.popFrame
  abandon := abandon_of Frames.fire Frames.popFrame
  markInvoked m f := by
    unfold Machine.markInvoked
    split
    · exact refl m
    · exact (refl m : m.Frames m).congr rfl rfl rfl
  pass := Frames.recordPass
  note := Frames.noteExit
  claim _ h := h.dropClaimed _ _
  handled {m n} h :=
    have closed : m.Frames (n.enterLedger true _) := Frames.congr h rfl rfl rfl
    closed.dropClaimed _ _
  overtaken m p := (refl m : m.Frames m).congr rfl rfl rfl
  construct {_ _ f _ _ _} found _ _ := fun tame => nomatch ((tame.realm f).native _ _ _ found).2
  closure {m f closure} found := by
    by_cases tame : m.Tame
    · exact .inl fun _ => (tame.realm f).script closure found
    · exact .inr fun _ _ h => absurd h tame
  script names h f this arguments := keeps_callScript names h f this arguments
  handle h name thrown := keeps_handle name h thrown
  createScript names scope := frames_createScript (names not_false) scope
  functionValue names := keeps_createFunctionValue names
  arrayLiteral := Rule.frames_arrayLiteral
  objectLiteral := Rule.frames_objectLiteral
  putValue := Op.frames_putValue
  deleteReference h := Rule.frames_deleteReference (h not_false)

/-! ## Runs -/

namespace Eval

theorem isQuiet_defineUnknown (name : String) : IsQuiet (defineUnknown name) := by
  refine .bind (.attempt (Op.built_createData ..).keeps) fun result => ?_
  split
  · exact .pure _
  · exact .aside (reportError_keeps _)

section

variable {deletes : Prop} {R : Machine → Machine → Prop} [Entering deletes R]
  [Stepwise deletes fun _ => R] {p : Program} {s : Setup} {m : Machine}

omit [Stepwise deletes fun _ => R] in
/-- Where nothing is ambiguous every environment is free. -/
theorem enterProgram_at {body : List Statement} (names : ¬ deletes → bodyKeepsNames body = true)
    (zero : m.level = 0) : R m ((enterProgram body).after s m) := by
  refine Keeps.start (R := R) (.bind .get fun k => ?_) s
  refine .bind (.attempt (Op.keeps_instantiate (.inl zero) names none)) fun result => ?_
  split
  · exact .pure _
  · exact .aside (reportError_keeps _)

theorem evaluateProgram_at (names : ¬ deletes → p.keepsNames = true) (zero : m.level = 0) :
    R m (p.evaluate.after s m) :=
  ruled_at (R := fun _ => R) _ _ fun n hn => runProgram_at
    (enterProgram_at names (by rw [Machine.level, hn]; exact zero)) names

/-- A run in which nothing is ambiguous at first keeps what its evaluation keeps, if its beginning
and its last reports do so. -/
theorem analyze_at (names : ¬ deletes → p.keepsNames = true) (zero : m.level = 0)
    (watched : R m { m with observed := s.observed })
    (unknown : ∀ k : Machine, k.level = 0 → ∀ name, KeepsSince R k (defineUnknown name))
    (reports : Keeps R reportPossibleThrows) (unknownGlobals : List String) :
    R m ((analyze unknownGlobals p).after s m) := by
  let begun : Machine := { m with observed := s.observed }
  have defined : R begun ((unknownGlobals.forM defineUnknown).after s begun) :=
    Keeps.start (R := R) (.forM fun name _ => unknown begun zero name) s
  have quiet : begun.Quiet ((unknownGlobals.forM defineUnknown).after s begun) :=
    (KeepsBy.forM fun name _ => isQuiet_defineUnknown name).after s begun
  -- what is left to be run once the unknown globals are defined
  have rest (n : Machine) (zero : n.level = 0) : R n ((do
      let c ← p.evaluate
      if ← setup (·.options.processUnvisitedCode) then visitFunctions visitLimit 0
      reportPossibleThrows
      return c : Run Completion).after s n) := by
    refine Keeps.bind_at (evaluateProgram_at names zero) fun c => .bind (.setup _) fun visits => ?_
    have reported : Keeps R (do
        reportPossibleThrows
        return c) := .bind reports fun _ => .pure c
    exact .join (keeps_visitFunctions ..) (fun _ => reported) reported
  rw [analyze, after_bind_ok (show watch s m = .ok () begun from rfl), after_bind]
  refine IsTrans.trans _ _ _ watched ?_
  rw [Eval.after] at defined quiet
  cases h : unknownGlobals.forM defineUnknown s begun with
  | error e n =>
    rw [h] at defined
    exact defined
  | ok u n =>
    rw [h] at defined quiet
    refine IsTrans.trans _ _ _ defined (rest n ?_)
    rw [Machine.level, quiet.contexts]
    exact zero

end

/-! ## Runs without native functions -/

variable {s : Setup} {m : Machine}

theorem frames_defineUnknown (zero : m.level = 0) (name : String) :
    KeepsSince Frames m (defineUnknown name) := by
  refine .bind (.attempt (Op.frames_define (.of_level_eq_zero zero _) ..)) fun result => ?_
  split
  · exact .pure _
  · exact .aside (reportError_keeps _)

theorem frames_reportPossibleThrows : Keeps Frames reportPossibleThrows := by
  refine .bind (.modifyGet fun m => (refl m : m.Frames m).congr rfl rfl rfl) fun exits => ?_
  refine .forM fun e _ => ?_
  exact .when (.bind .get fun _ => ⟨fun _ m => (refl m : m.Frames m).congr rfl rfl rfl⟩)

/-- A run in which nothing is ambiguous at first frames the machine that it begins with. -/
theorem frames_analyze {p : Program} (names : p.keepsNames = true) (zero : m.level = 0)
    (unknownGlobals : List String) : m.Frames ((analyze unknownGlobals p).after s m) :=
  analyze_at (fun _ => names) zero ((refl m : m.Frames m).congr rfl rfl rfl)
    (fun _ => frames_defineUnknown) frames_reportPossibleThrows unknownGlobals

end Eval

namespace Analyzer

/-- Without native functions a run begins in a tame machine. -/
theorem tame_start {a : Analyzer} (free : a.realm.NativeFree) : (Machine.start a.realm).Tame where
  running := rfl
  realm := fun o => {
    native := free o
    script := fun closure found =>
      absurd found ((Realm.scriptFree_withObjects a.catalogue).object o closure) }

/-- **The frame law of ambiguous passes.** If no native function can be called and the program
deletes no plain name, then everything that the run evaluates as something that may or may not happen
leaves the realm before it framed at the ambiguity level around it. -/
theorem analyze_framed (a : Analyzer) (p : Program) (free : a.realm.NativeFree)
    (names : p.keepsNames = true) (before : Realm) (level : Nat) (after : Realm)
    (passed : (a.analyze p).machine.history.passed before level after) :
    before.Framed level after := by
  have framing (s : Setup) := frames_analyze (s := s) names rfl a.unknownGlobals (tame_start free)
  rw [machine_analyze] at passed
  rcases (framing _).history before level after passed with earlier | framed
  · exact earlier.elim
  · exact framed

/-- An analyzer without built-in objects, for which one global is unknown. -/
def bare : Analyzer := { catalogue := {}, unknownGlobals := ["u"] }

/-- The program `u && (x = true)`. -/
def guardedAssignment : Program where
  span := default
  file := ""
  body :=
    [.expression default (.logical default .and (.identifier ⟨default, "u"⟩)
      (.assignment default .assign (.identifier ⟨default, "x"⟩) (.literal default (.bool true))))]

set_option maxRecDepth 10000 in
/-- The assignment behind an unknown operand is a framed pass. -/
theorem analyze_framed_guardedAssignment : ∃ before level after,
    (bare.analyze guardedAssignment).machine.history.passed before level after ∧
      before.Framed level after := by
  obtain ⟨before, level, after, passed⟩ : ∃ before level after,
      (bare.analyze guardedAssignment).machine.history.passed before level after := by
    with_unfolding_all exact ⟨_, _, _, .inr ⟨rfl, rfl, rfl⟩⟩
  exact ⟨before, level, after, passed,
    analyze_framed bare guardedAssignment Realm.nativeFree_initial rfl before level after passed⟩

end Analyzer

end AbstractScript
