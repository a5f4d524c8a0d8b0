import AbstractScript.Proofs.CompositionTree
import AbstractScript.Proofs.Stepwise

/-!
# Rules keep stepwise relations

What is made of parts keeps every relation that the parts and the steps outside of calls keep
(`Eval.MadeSince.keeps`), and so do all nodes if calls keep it. By induction over the depth of calls,
calls keep every stepwise relation (`callWithin_keeps`), so that whole programs do.
-/
namespace AbstractScript

open Eval

variable {R : Bool → Machine → Machine → Prop} {deletes : Prop} [evaluating : Evaluating deletes R]

include evaluating

/-! ## What is made of parts -/

namespace Eval

/-- The block of a `try` with a handler ends when its throws are claimed. -/
theorem keeps_handled {block : Run Completion} (hblock : KeepsBy R block) {h : Handling}
    (hh : ∀ v, KeepsBy R (h.run v)) : KeepsBy R (do
      let mark ← mark
      handleThrows mark (← guarded true block) h) where
  after s m := by
    show KeepsAt R _ s m m
    cases run : block s m with
    | ok c n =>
      let closed := n.enterLedger true (.handled (n.ledger.size - m.ledger.size))
      have closes : guarded true block s m = .ok c closed := by
        show (block >>= _) s m = _
        rw [bind_apply, run]
        rfl
      -- what the block threw is taken out of the exits before the handler runs
      have claimed : KeepsAt R (claim m.exits.size Completion.isThrow : Run _) s m closed :=
        .of_ok rfl (Evaluating.handled (hblock.of_ok run))
      refine .congr (y := handleThrows m.exits.size c h) (j := closed) ?_
        (KeepsBy.bind_at claimed fun possible => ?_)
      · show (guarded true block >>= _) s m = _
        rw [bind_apply, closes]
      · split
        · exact hh _
        · exact .join (keeps_ambiguously _ (hh _)) (fun _ => .pure _) (.pure _)
    | error e n =>
      have fails : guarded true block s m = .error e n := by
        show (block >>= _) s m = _
        rw [bind_apply, run]
      refine .of_error (e := e) ?_ (hblock.of_error run)
      show (guarded true block >>= _) s m = _
      rw [bind_apply, fails]

theorem keeps_finish (c : Completion) {finalizer : Run Completion} (h : KeepsBy R finalizer) :
    KeepsBy R (finish c finalizer) :=
  .bind (.bind .get fun _ => .pure _) fun _ => .bind h fun _ =>
    .bind (.modify fun m => Evaluating.overtaken m _) fun _ => .pure _

theorem keeps_unguarded {block : Run Completion} (h : KeepsBy R block) :
    KeepsBy R (guarded false block) :=
  .bind (.bind .get fun _ => .pure _) fun _ => .bind h fun _ =>
    .bind (.modify fun m => Composes.same true m) fun _ => .pure _

/-- What a computation that is made of parts keeps: a relation, or the relation of the machine at its
mark to a later one. -/
def KeepsFrom (R : Bool → Machine → Machine → Prop) {α : Type} (x : Run α) : Option Nat → Prop
  | none => KeepsBy R x
  | some k => ∀ m : Machine, m.exits.size = k → KeepsBySince R m x

/-- What is made of parts that keep a relation keeps it. -/
theorem MadeSince.keepsFrom {S : Parts} (parts : ∀ {α : Type} {x : Run α}, S α x → KeepsBy R x)
    {since : Option Nat} {α : Type} {x : Run α} (h : MadeSince deletes S since x) :
    KeepsFrom R x since := by
  induction h with
  | part given => exact parts given
  | @pure since _ a =>
    cases since with
    | none => exact KeepsBy.pure a
    | some k => exact fun _ _ => .pure a
  | throw e => exact KeepsBy.throw e
  | @bind_of since _ _ _ _ _ _ gives _ first rest =>
    cases since with
    | none => exact KeepsBy.bind_of first gives rest
    | some k => exact fun m hm => .bind_of (first m hm) gives fun a ha => rest a ha m hm
  | look _ _ rest => exact KeepsBy.bind .get rest
  | options f => exact KeepsBy.setup _
  | operation reads => exact KeepsBy.attempt reads.keeps
  | putValue r v => exact KeepsBy.attempt (Evaluating.putValue r v)
  | deleteReference names => exact KeepsBy.attempt (Evaluating.deleteReference names)
  | reportError e => exact KeepsBy.aside (reportError_keeps e)
  | reportMaxIterations => exact KeepsBy.aside reportMaxIterations_keeps
  | markUnknown span => exact KeepsBy.aside (markUnknown_keeps span)
  | note c => exact keeps_note c
  | takeLabels => exact keeps_takeLabels
  | giveLabels f => exact KeepsBy.modify fun _ => Reading.aside .of_eq
  | createScript names scope => exact KeepsBy.of_keeps (Evaluating.createScript names scope)
  | createFunctionValue names => exact KeepsBy.of_keeps (Evaluating.functionValue names)
  | arrayLiteral _ elements => exact Evaluating.arrayLiteral elements
  | objectLiteral _ definitions => exact Evaluating.objectLiteral definitions
  | ambiguously span _ made => exact keeps_ambiguously span made
  | mark _ rest => exact keeps_mark fun m => rest m.exits.size m rfl
  | since _ made => exact fun m _ => KeepsBy.since made m
  | claim others _ _ rest =>
    rintro m rfl
    exact .bind (keepsSince_claim m others) fun es => rest es m rfl
  | ruled kind span _ made => exact keeps_ruled kind span made
  | referring _ span _ made => exact keeps_bracket _ span _ made
  | malformed kind kind' span span' => exact keeps_bracket kind span _ (Rule.keeps_malformed ..)
  | handle _ name thrown made => exact Evaluating.handle made name thrown
  | handled _ _ made handler => exact keeps_handled made handler
  | unguarded _ made => exact keeps_unguarded made
  | finish c _ made => exact keeps_finish c made

theorem MadeSince.keeps_of {S : Parts} {α : Type} {x : Run α} (h : Made deletes S x)
    (parts : ∀ {α : Type} {x : Run α}, S α x → KeepsBy R x) : KeepsBy R x := h.keepsFrom parts

/-- The computations that keep a relation, as parts of others. -/
abbrev keeping (R : Bool → Machine → Machine → Prop) : Parts := fun _ x => KeepsBy R x

theorem MadeSince.keeps {α : Type} {x : Run α} (h : Made deletes (keeping R) x) : KeepsBy R x :=
  h.keeps_of id

end Eval

omit evaluating

/-! ## Parts that keep a relation -/

/-- The computations of a loop keep a relation. -/
structure Loop.Keeps (R : Bool → Machine → Machine → Prop) (l : Loop) : Prop where
  test : ∀ t, l.test = some t → KeepsBy R t.2
  update : ∀ x, l.update = some x → KeepsBy R x
  body : KeepsBy R l.body

/-- The computations of a loop over names keep a relation. -/
structure NameLoop.Keeps (R : Bool → Machine → Machine → Prop) (l : NameLoop) : Prop where
  assign : ∀ v, KeepsBy R (l.assign v)
  object : KeepsBy R l.object.2
  body : KeepsBy R l.body

/-- The test and the body of a case keep a relation. -/
structure Case.Keeps (R : Bool → Machine → Machine → Prop) (c : Case) : Prop where
  test : ∀ t, c.test = some t → KeepsBy R t.2
  body : ∀ step ∈ c.body, KeepsBy R step.run

/-- Calls and `new` keep a relation, for what can be called and for constructors. -/
structure ScriptCall.Keeps (R : Bool → Machine → Machine → Prop) (call : ScriptCall) : Prop where
  function : ∀ {s m} {f : ObjectId}, (m.realm.object f).isCallable = true → ∀ this arguments,
    Eval.KeepsAt R (callFunction call f this arguments) s m m
  construct : ∀ {s m} {f : ObjectId} {callable}, (m.realm.object f).callable = some callable →
    callable.isConstructor = true → ∀ arguments, Eval.KeepsAt R (construct call f arguments) s m m

theorem Loop.Keeps.made {l : Loop} (h : l.Keeps R) : l.Made deletes (keeping R) where
  test t found := .part (h.test t found)
  update x found := .part (h.update x found)
  body := .part h.body

theorem Case.Keeps.made {c : Case} (h : c.Keeps R) : c.Made deletes (keeping R) where
  test t found := .part (h.test t found)
  body step found := .part (h.body step found)

include evaluating

/-- Steps keep a relation if each of them does. -/
theorem Step.keeps_runAll {steps : List Step} (h : ∀ step ∈ steps, KeepsBy R step.run)
    (value : Option Value) : KeepsBy R (runAll value steps) :=
  (Step.made_runAll (fun step found => .part (h step found)) value).keeps

/-! ## Nodes -/

variable {call : ScriptCall}

/-- The calls that rules make are kept if calls are. -/
theorem ScriptCall.Keeps.calls (h : call.Keeps R) {α : Type} {x : Run α} (made : call.Calls α x) :
    KeepsBy R x := by
  cases made with
  | function text f this arguments =>
    refine Rule.KeepsBy.object_bind fun s m => ?_
    split
    next callable => exact Rule.KeepsBy.lift_at (h.function callable ..)
    next => exact (Rule.keeps_native (.throw _)).after s m
  | construct text f arguments =>
    refine Rule.KeepsBy.object_bind fun s m => ?_
    split
    next constructor =>
      rw [Option.getD_eq_iff] at constructor
      obtain found | none := constructor
      · obtain ⟨callable, is, found⟩ := Option.map_eq_some_iff.1 found
        exact Rule.KeepsBy.lift_at (h.construct is found _)
      · cases none.2
    next => exact (Rule.keeps_native (.throw _)).after s m

section

variable (calls : call.Keeps R)

include calls

/-- Expressions keep every relation that calls keep. -/
theorem Expression.keeps_evaluate (x : Expression) (h : ¬ deletes → x.keepsNames = true) :
    KeepsBy R (x.evaluate call) := (x.made_evaluate h).keeps_of calls.calls

/-- Statements keep every relation that calls keep. -/
theorem Statement.keeps_evaluate (st : Statement) (h : ¬ deletes → st.keepsNames = true) :
    KeepsBy R (st.evaluate call) := (st.made_evaluate h).keeps_of calls.calls

theorem Statement.keeps_steps (ss : List Statement) (h : ¬ deletes → bodyKeepsNames ss = true) :
    ∀ step ∈ Statement.steps call ss, KeepsBy R step.run :=
  fun step found => (Statement.made_steps ss h step found).keeps_of calls.calls

theorem SwitchCase.keeps_cases (cs : List SwitchCase) (h : ¬ deletes → casesKeepNames cs = true) :
    ∀ c ∈ SwitchCase.cases call cs, c.Keeps R := fun c found =>
  have made := SwitchCase.made_cases cs h c found
  ⟨fun t test => (made.test t test).keeps_of calls.calls,
    fun step body => (made.body step body).keeps_of calls.calls⟩

end

/-! ## Calls and programs -/

/-- A machine is related to the one after a program if it is to the one after its declarations. -/
theorem Eval.runProgram_at_of_calls (calls : ∀ depth, (callWithin depth).Keeps R)
    {body : List Statement} {s : Setup} {m : Machine}
    (declared : KeepsAt R (enterProgram body) s m m)
    (h : ¬ deletes → bodyKeepsNames body = true) : KeepsAt R (runProgram body) s m m := by
  refine KeepsBy.bind_at declared fun _ => ?_
  refine .bind (.bind (.setup _) fun _ => .bind .get fun _ => .pure _) fun depth => ?_
  refine .bind (Step.keeps_runAll (Statement.keeps_steps (calls depth) body h) none) fun c => ?_
  exact .join .get (fun _ => .bind (.aside (reportHere_keeps (by simp) _)) fun _ => .pure _)
    (.pure _)

/-- The functions that were never called are called as something that may or may not happen. -/
theorem Eval.keeps_visitFunction (calls : ∀ depth, (callWithin depth).Keeps R) (f : ObjectId) :
    KeepsBy R (visitFunction f) := by
  refine .bind .get fun k => ?_
  split
  · exact .pure _
  · refine .object_bind fun s m => ?_
    split
    next closure found =>
      refine KeepsBy.bind_at (ambiguously_at _ fun n same => ?_) fun _ => .pure _
      refine (calls _).function ?_ ..
      rw [ObjectRecord.isCallable, Realm.object, same]
      exact Option.isSome_of_eq_some found
    · exact (KeepsBy.pure _).after s m

theorem Eval.keeps_visitFunctions_of_calls (calls : ∀ depth, (callWithin depth).Keeps R)
    (steps index : Nat) : KeepsBy R (visitFunctions steps index) := by
  induction steps generalizing index with
  | zero => exact .pure _
  | succ steps ih =>
    refine .bind .get fun m => ?_
    split
    · exact .pure _
    · exact .bind (keeps_visitFunction calls _) fun _ => ih _

/-- Functions whose code may be evaluated keep a relation when they are run. -/
def ScriptCall.Runs (deletes : Prop) (R : Bool → Machine → Machine → Prop) (call : ScriptCall) : Prop :=
  ∀ f closure this arguments, (¬ deletes → closure.code.keepsNames = true) →
    Eval.KeepsBy R (call f closure this arguments)

omit evaluating

variable [stepwise : Stepwise deletes R]

include stepwise

theorem Eval.keeps_markInvoked (f : ObjectId) : KeepsBy R (markInvoked f) :=
  .modify fun m => Stepwise.markInvoked m f

namespace ScriptCall.Runs

variable {call : ScriptCall}

theorem keeps_callFunction (h : call.Runs deletes R) (f : ObjectId) (this : Value)
    (arguments : List Value) : KeepsBy R (callFunction call f this arguments) := by
  refine .bind (keeps_markInvoked f) fun _ => .object_bind fun s m => ?_
  split
  next native _ found =>
    split
    · exact (KeepsBy.pure _).after s m
    next known =>
      obtain ⟨receiver, known⟩ := Bool.or_eq_false_iff.1 (Bool.eq_false_iff.2 known)
      refine recover_at ?_
      rw [after_map]
      exact Reading.native found this arguments (.of_known receiver known)
  · exact (keeps_recover (.throw _)).after s m
  next closure found =>
    rcases Stepwise.closure (R := R) found with names | foreign
    · exact (h f closure this arguments names).after s m
    · exact foreign _ _
  · exact (keeps_recover (.throw _)).after s m

theorem keeps_construct (h : call.Runs deletes R) (f : ObjectId) (arguments : List Value) :
    KeepsBy R (construct call f arguments) := by
  refine .bind (keeps_markInvoked f) fun _ => .object_bind fun s m => ?_
  split
  next native found =>
    split
    · exact (KeepsBy.pure _).after s m
    next known =>
      -- calling a native function may fail, which recovering makes a warning
      refine recover_at ?_
      rw [after_map]
      exact Stepwise.construct found arguments (Bool.eq_false_iff.2 known)
  next closure found =>
    rcases Stepwise.closure (R := R) found with names | foreign
    · have prototype := (built_instancePrototype f).keeps (R := R true)
      refine (Rule.KeepsBy.complete (.bind (Rule.keeps_native prototype) fun p => ?_)).after s m
      exact .bind (.lift (.of_keeps (keeps_createObject (by decide) _))) fun o =>
        .bind (.lift (h f closure _ arguments names)) fun _ => .pure _
    · exact foreign _ _
  · exact (keeps_recover (.throw _)).after s m

theorem keeps (h : call.Runs deletes R) : call.Keeps R where
  function _ this arguments := (h.keeps_callFunction _ this arguments).after _ _
  construct _ _ arguments := (h.keeps_construct _ arguments).after _ _

end ScriptCall.Runs

/-- Functions of the program keep every stepwise relation, however deep their calls are. -/
theorem Eval.callWithin_runs (depth : Nat) : (callWithin depth).Runs deletes R := by
  induction depth with
  | zero =>
    intro f closure this arguments names
    exact .bind (.aside reportMaxRecursion_keeps) fun _ => .pure _
  | succ depth ih =>
    rintro f ⟨⟨span, id, parameters, bodySpan, body⟩, scope⟩ this arguments names
    have steps := Statement.keeps_steps ih.keeps body names
    exact Stepwise.script names (Step.keeps_runAll steps none) f this arguments

/-- Calls keep every stepwise relation, however deep they are. -/
theorem Eval.callWithin_keeps (depth : Nat) : (callWithin depth).Keeps R :=
  (callWithin_runs depth).keeps

theorem Eval.runProgram_at {body : List Statement} {s : Setup} {m : Machine}
    (declared : KeepsAt R (enterProgram body) s m m)
    (h : ¬ deletes → bodyKeepsNames body = true) : KeepsAt R (runProgram body) s m m :=
  runProgram_at_of_calls callWithin_keeps declared h

theorem Eval.keeps_visitFunctions (steps index : Nat) : KeepsBy R (visitFunctions steps index) :=
  keeps_visitFunctions_of_calls callWithin_keeps steps index

end AbstractScript
