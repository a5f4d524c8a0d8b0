import AbstractScript.Proofs.CatchParameter
import AbstractScript.Proofs.LoopPlan
import AbstractScript.Proofs.PossibleReturn
import AbstractScript.Proofs.SwitchPlan

/-!
# Constructors that may return

Every statement that has statements in it is evaluated by a plan (`Statement.evaluate_of_plan?`).
The statements that a statement list reaches, also deep inside of others, are found by following
these plans (`Statement.Reaches`). A return that is reached in an ambiguous block marks the running
context, whatever it returns, and the mark stays until the call ends
(`Statement.MayReturn.returnUnknown`). The call then gives an unknown value, which `new` replaces by
the object that it has created: a constructor that may return another object never gives an unknown
value (`Eval.construct_possibleReturn`).
-/
namespace AbstractScript

open Eval

/-! ## Statements as plans -/

namespace Plan

variable {P : Type}

/-- A statement with a label. -/
def labeled (label : String) (passesOn : Bool) (body : P) : Plan P Completion := do
  .act (modify fun m => { m with labels := if passesOn then m.labels ++ [label] else [] })
    (.modify fun m => refl (r := Machine.InPlace) m)
  let mark ← mark
  let c ← .part body
  let _ ← claim mark (Completion.leavesLabel label)
  return if c.leavesLabel label then .finished c.value else c

/-- One of two statements, or both as something that may or may not happen. -/
def branch (span testSpan : Span) (test consequent alternate : P) : Plan P Completion := do
  let c ← .part test
  if c.isAbrupt then return c
  match c.getValue.toBool? with
  | some true => .part consequent
  | some false => .part alternate
  | none =>
    Plan.markUnknown testSpan
    .ambiguously span do
      let d ← .part consequent
      Plan.note d
      .part alternate

/-- What comes first in a loop, and then the loop with its labels. -/
def loop (start : P) (k : List String → Plan P Completion) : Plan P Completion := do
  let labels ← Plan.takeLabels
  let c ← .part start
  if c.isAbrupt then return c
  k labels

variable {parts : P → Run Completion}

theorem run_labeled (label : String) (passesOn : Bool) (body : P) :
    (labeled label passesOn body).run parts = Eval.labeled label passesOn (parts body) := rfl

/-- An `if` without a second statement does nothing in its place. -/
theorem run_branch (span testSpan : Span) (test consequent alternate : P)
    {other : Option (Run Completion)} (same : parts alternate = other.getD (return .empty)) :
    (branch span testSpan test consequent alternate).run parts =
      (Rule.branch span testSpan (parts test) (parts consequent) other).complete := by
  unfold Rule.branch
  rw [Rule.complete_value_bind]
  refine run_bind rfl fun c => ?_
  cases c.isAbrupt with
  | true => rfl
  | false =>
    rw [if_neg Bool.false_ne_true, if_neg Bool.false_ne_true]
    rcases c.getValue.toBool? with _ | _ | _
    · -- the test is unknown: both statements are parts of one ambiguous block
      dsimp only
      rw [Rule.complete_bind_lift]
      refine run_bind rfl fun _ => ?_
      rw [Rule.complete_lift]
      exact congrArg (Eval.ambiguously span) (run_bind rfl fun d => run_bind rfl fun _ => same)
    · exact same.trans (Rule.complete_lift _).symm
    · exact (Rule.complete_lift _).symm

/-- A loop after an expression or a declaration that ends it if it does not complete normally. -/
theorem run_loop {start : P} {k : List String → Plan P Completion} {first : Rule Unit}
    (begins : ∀ f : Unit → Rule Completion, (first >>= f).complete = parts start >>= fun c =>
      if c.isAbrupt then return c else (f ()).complete)
    {testFirst : Bool} {l : Loop}
    (same : ∀ labels, (k labels).run parts = l.evaluate labels testFirst) :
    (loop start k).run parts = (Rule.loop testFirst first l).complete := by
  unfold Rule.loop
  rw [Rule.complete_bind_lift]
  refine run_bind rfl fun labels => ?_
  rw [begins]
  refine run_bind rfl fun c => ?_
  cases c.isAbrupt with
  | true => rfl
  | false => exact (same labels).trans (Rule.complete_lift _).symm

end Plan

namespace Statement

/-- What a call evaluates of the syntax tree of its function: a statement, a statement list, or the
block of a handler with the exception. -/
inductive Body where
  | one (st : Statement)
  | list (ss : List Statement)
  | handler (name : String) (ss : List Statement) (thrown : Value)

/-- What a statement evaluates. -/
inductive Part where
  | nothing
  | expression (x : Expression)
  /-- What a `for` loop does first. -/
  | start (start : ForStart)
  /-- Assigns a value to the variable of a `for-in` loop. -/
  | assign (target : ForInTarget) (v : Value)
  | body (b : Body)

/-- An expression, if there is one. -/
def Part.option : Option Expression → Part
  | none => .nothing
  | some x => .expression x

/-- A statement list, if there is one. -/
def Part.block : Option Block → Part
  | none => .nothing
  | some b => .body (.list b.body)

/-- The parts of a loop. -/
def loopPart (test update : Option Expression) (body : Statement) : Loop.Part → Part
  | .test => .option test
  | .body => .body (.one body)
  | .update => .option update

/-- The parts of a loop over names. -/
def nameLoopPart (target : ForInTarget) (x : Expression) (body : Statement) : NameLoop.Part → Part
  | .object => .expression x
  | .assign v => .assign target v
  | .body => .body (.one body)

/-- The parts of a switch. -/
def switchPart (x : Expression) (cs : List SwitchCase) : Switch.Part → Part
  | .input => .expression x
  | .test i _ => .option (cs[i]?.bind SwitchCase.test)
  | .body i _ => .body (.list ((cs[i]?.map SwitchCase.consequent).getD []))

/-- The parts of a `try`. -/
def tryPart (b : Block) (handler : Option CatchClause) (finalizer : Option Block) : TryPart → Part
  | .block => .body (.list b.body)
  | .handler thrown =>
    match handler with
    | none => .nothing
    | some h => .body (.handler h.parameter.name h.body.body thrown)
  | .finalizer => .block finalizer

/-- What a statement does with its parts, if there are statements among them. -/
def plan? (call : ScriptCall) : Statement → Option (Plan Part Completion)
  | .block b => some (.part (.body (.list b.body)))
  | .labeled _ label st => some (.labeled label.name st.takesLabels (.body (.one st)))
  | .branch span test st other => some <|
    .branch span test.span (.expression test) (.body (.one st))
      ((other.map fun st => .body (.one st)).getD .nothing)
  | .switch span x cs =>
    some ((Switch.evaluate span x.span (SwitchCase.cases call cs)).map (switchPart x cs))
  | .tryCatch _ b handler finalizer => some <|
    (TryShape.plan ⟨handler.map CatchClause.span, finalizer.isSome⟩).map
      (tryPart b handler finalizer)
  | .whileLoop span test st => some <| .loop .nothing fun labels =>
    (Loop.Shape.evaluate ⟨span, some test.span, false⟩ labels true).map
      (loopPart (some test) none st)
  | .doWhileLoop span test st => some <| .loop .nothing fun labels =>
    (Loop.Shape.evaluate ⟨span, some test.span, false⟩ labels false).map
      (loopPart (some test) none st)
  | .forLoop span start test update st => some <|
    .loop ((start.map Part.start).getD .nothing) fun labels =>
      (Loop.Shape.evaluate ⟨span, test.map Expression.span, update.isSome⟩ labels true).map
        (loopPart test update st)
  | .forInLoop span target x st => some do
    let labels ← Plan.takeLabels
    (NameLoop.Shape.evaluate ⟨span, x.span⟩ labels).map (nameLoopPart target x st)
  | _ => none

variable (call : ScriptCall)

/-- What a body does. -/
def Body.evaluate : Body → Run Completion
  | .one st => st.evaluate call
  | .list ss => Step.runAll none (steps call ss)
  | .handler name ss thrown => handle name (Step.runAll none (steps call ss)) thrown

/-- What a part does. -/
def Part.evaluate : Part → Run Completion
  | .nothing => return .empty
  | .expression x => x.evaluate call
  | .start (.varDeclaration _ ds) => (Rule.varDeclaration (Declarator.initials call ds)).complete
  | .start (.expression x) => x.evaluate call
  | .assign target v => target.assign call v
  | .body b => b.evaluate call

/-! ### The plan is the evaluation of the statement -/

theorem evaluate_block (b : Block) :
    (Part.body (.list b.body)).evaluate call = b.evaluate call := by
  cases b
  rfl

theorem evaluate_option (x : Option Expression) :
    (Part.option x).evaluate call = (evaluateOption call x).getD (return .empty) := by
  cases x <;> rfl

/-- The cases of a switch are found by the same numbers as what they are evaluated to. -/
theorem getElem?_cases (cs : List SwitchCase) (i : Nat) : (SwitchCase.cases call cs)[i]? =
    cs[i]?.map fun c => ⟨evaluateTest call c.test, steps call c.consequent⟩ := by
  induction cs generalizing i with
  | nil => rfl
  | cons c rest ih =>
    cases c
    cases i with
    | zero => rfl
    | succ i => exact ih i

theorem evaluate_switchPart {x : Expression} {cs : List SwitchCase} {p : Switch.Part}
    (listed : p.Listed (SwitchCase.cases call cs)) :
    (switchPart x cs p).evaluate call = Switch.parts (x.evaluate call) p := by
  cases p with
  | input => rfl
  | test i c =>
    rw [Switch.Part.Listed, getElem?_cases] at listed
    obtain ⟨⟨span, test, ss⟩, found, rfl⟩ := Option.map_eq_some_iff.1 listed
    rw [switchPart, found, evaluate_option]
    cases test <;> rfl
  | body i c =>
    rw [Switch.Part.Listed, getElem?_cases] at listed
    obtain ⟨⟨span, test, ss⟩, found, rfl⟩ := Option.map_eq_some_iff.1 listed
    rw [switchPart, found]
    rfl

theorem run_branchPart (span : Span) (test : Expression) (st : Statement)
    (other : Option Statement) :
    (Plan.branch span test.span (.expression test) (.body (.one st))
        ((other.map fun st => .body (.one st)).getD .nothing)).run (Part.evaluate call) =
      (Rule.branch span test.span (test.evaluate call) (st.evaluate call)
        (evaluateAlternate call other)).complete := by
  have same : ((other.map fun st => Part.body (.one st)).getD .nothing).evaluate call =
      (evaluateAlternate call other).getD (return .empty) := by
    cases other <;> rfl
  rw [Plan.run_branch span test.span _ _ _ same]
  rfl

theorem run_switchPart (span : Span) (x : Expression) (cs : List SwitchCase) :
    ((Switch.evaluate span x.span (SwitchCase.cases call cs)).map (switchPart x cs)).run
        (Part.evaluate call) =
      (Rule.switch span x.span (x.evaluate call) (SwitchCase.cases call cs)).complete := by
  rw [Plan.run_map ((Switch.only_evaluate ..).mono fun p => evaluate_switchPart call),
    Switch.run_evaluate]

theorem run_tryPart (b : Block) (handler : Option CatchClause) (finalizer : Option Block) :
    ((TryShape.plan ⟨handler.map CatchClause.span, finalizer.isSome⟩).map
        (tryPart b handler finalizer)).run (Part.evaluate call) =
      tryBlock (b.evaluate call) (CatchClause.handling call handler)
        (evaluateFinalizer call finalizer) := by
  rw [Plan.run_map_comp, TryShape.run_plan]
  obtain ⟨span, ss⟩ := b
  rcases handler with _ | ⟨_, _, ⟨_, _⟩⟩ <;> rcases finalizer with _ | ⟨_, _⟩ <;> rfl

theorem run_loopPart (test update : Option Expression) (body : Statement) (span : Span)
    (testFirst : Bool) (labels : List String) :
    ((Loop.Shape.evaluate ⟨span, test.map Expression.span, update.isSome⟩ labels testFirst).map
        (loopPart test update body)).run (Part.evaluate call) =
      Loop.evaluate ⟨span, evaluateTest call test, evaluateOption call update, body.evaluate call⟩
        labels testFirst := by
  rw [Plan.run_map_comp, Loop.Shape.run_evaluate]
  cases test <;> cases update <;> rfl

theorem begin_bind (start : Option ForStart) (f : Unit → Rule Completion) :
    (ForStart.begin call start >>= f).complete =
      ((start.map Part.start).getD .nothing).evaluate call >>= fun c =>
        if c.isAbrupt then return c else (f ()).complete := by
  have discarded (x : Run Completion) : (Rule.discard x >>= f).complete = x >>= fun c =>
      if c.isAbrupt then return c else (f ()).complete := by
    unfold Rule.discard
    rw [bind_assoc, Rule.complete_value_bind]
    rfl
  rcases start with _ | ⟨_, ds⟩ | x
  · rfl
  · exact discarded _
  · exact discarded _

/-- A statement that has statements in it does with its parts what its plan says. -/
theorem evaluate_of_plan? {st : Statement} {x : Plan Part Completion} (h : st.plan? call = some x) :
    st.evaluate call = ruled st.kind st.span (x.run (Part.evaluate call)) := by
  -- nothing comes first in a loop without a start
  have nothing := begin_bind call none
  cases st <;> cases h
  case block b => exact congrArg (ruled .blockStatement b.span) (evaluate_block call b).symm
  case labeled span label st =>
    exact congrArg (ruled .labeledStatement span)
      (Plan.run_labeled label.name st.takesLabels _).symm
  case branch span test st other =>
    exact congrArg (ruled .ifStatement span) (run_branchPart call span test st other).symm
  case switch span x cs =>
    exact congrArg (ruled .switchStatement span) (run_switchPart call span x cs).symm
  case tryCatch span b handler finalizer =>
    exact congrArg (ruled .tryStatement span) (run_tryPart call b handler finalizer).symm
  case whileLoop span test st =>
    exact congrArg (ruled .whileStatement span)
      (Plan.run_loop nothing (run_loopPart call (some test) none st span true)).symm
  case doWhileLoop span test st =>
    exact congrArg (ruled .doWhileStatement span)
      (Plan.run_loop nothing (run_loopPart call (some test) none st span false)).symm
  case forLoop span start test update st =>
    exact congrArg (ruled .forStatement span)
      (Plan.run_loop (begin_bind call start) (run_loopPart call test update st span true)).symm
  case forInLoop span target x st =>
    refine congrArg (ruled .forInStatement span) (Eq.symm ?_)
    unfold Rule.nameLoop
    rw [Rule.complete_bind_lift]
    refine Plan.run_bind rfl fun labels => ?_
    rw [Plan.run_map_comp, NameLoop.Shape.run_evaluate]
    rfl

end Statement

/-! ## Statements that are reached -/

theorem Eval.after_handle (name : String) (body : Run Completion) (thrown : Value) (s : Setup)
    (m : Machine) : (handle name body thrown).after s m =
      (body.after s
        ((m.withVariable name thrown).setLexicalEnv m.realm.nextEnvironment)).setLexicalEnv
        (m.withVariable name thrown).lexicalEnv := by
  rw [Eval.after, handle_apply]
  show (inScope _ body).after s (m.withVariable name thrown) = _
  rw [inScope, after_bind_ok (get_apply ..), after_bind_ok (modify_apply ..), after_ensuring]

/-- The rule of a node leaves the contexts that the core rule of the node does. -/
theorem Eval.contexts_ruled {kind : NodeKind} (span : Span) (core : Run Completion) {s : Setup}
    {m : Machine} (handler : s.rules.handler? kind = some (.core kind)) :
    ((ruled kind span core).after s m).contexts =
      (core.after s (m.beginRule ⟨kind, span.location s.file⟩)).contexts := by
  rw [ruled, after_bind_ok (setup_apply ..), handler]
  show ((bracket kind span id ((Handler.core kind).apply kind span core)).after s m).contexts = _
  rw [Handler.apply, if_pos rfl, Eval.after, bracket_apply, Eval.after]
  cases core s (m.beginRule ⟨kind, span.location s.file⟩) <;> rfl

namespace Visit

/-- The machine in which the core rule for a visited statement begins, if the registry has it. -/
def core? (s : Setup) (v : Visit Statement) : Option Machine :=
  if s.rules.handler? v.part.kind = some (.core v.part.kind) then
    some (v.before.beginRule ⟨v.part.kind, v.part.span.location s.file⟩)
  else none

/-- What the core rule for a visited statement evaluates, in order. -/
def inner (call : ScriptCall) (s : Setup) (v : Visit Statement) : List (Visit Statement.Part) :=
  match v.core? s, v.part.plan? call with
  | some n, some x => x.visits (·.evaluate call) s n
  | _, _ => []

/-- The value that a visited statement returns, if it is a return whose argument has a value. -/
def returned? (call : ScriptCall) (s : Setup) (v : Visit Statement) : Option Value :=
  match v.core? s, v.part with
  | some n, .returns _ argument =>
    match (evaluateOption call argument).getD (return .normal .undefined) s n with
    | .ok c _ => if c.isAbrupt then none else some c.getValue
    | .error _ _ => none
  | _, _ => none

/-- The statement that a visited part is, if it is one. -/
def statement? (u : Visit Statement.Part) : Option (Visit Statement) :=
  match u.part with
  | .body (.one st) => some ⟨st, u.before, u.result⟩
  | _ => none

variable {call : ScriptCall} {s : Setup} {v : Visit Statement} {n : Machine}

theorem core?_eq_some (h : v.core? s = some n) :
    s.rules.handler? v.part.kind = some (.core v.part.kind) ∧
      n = v.before.beginRule ⟨v.part.kind, v.part.span.location s.file⟩ := by
  unfold core? at h
  split at h
  next handler => exact ⟨handler, (Option.some.inj h).symm⟩
  next => cases h

/-- A visited statement leaves the contexts that its core rule does. -/
theorem contexts_after {core : Run Completion}
    (result : v.result = v.part.evaluate call s v.before)
    (rule : v.part.evaluate call = ruled v.part.kind v.part.span core)
    (begins : v.core? s = some n) : v.after.contexts = (core.after s n).contexts := by
  obtain ⟨handler, rfl⟩ := core?_eq_some begins
  rw [after_of_result result, rule]
  exact contexts_ruled _ core handler

theorem exists_of_mem_inner {u : Visit Statement.Part} (h : u ∈ v.inner call s) :
    ∃ n x, v.core? s = some n ∧ v.part.plan? call = some x ∧
      u ∈ x.visits (·.evaluate call) s n := by
  unfold inner at h
  split at h
  next n x begins plan => exact ⟨n, x, begins, plan, h⟩
  next => cases h

theorem exists_of_returned? {x : Value} (h : v.returned? call s = some x) :
    ∃ n span argument c k, v.core? s = some n ∧ v.part = .returns span argument ∧
      (evaluateOption call argument).getD (return .normal .undefined) s n = .ok c k ∧
      c.isAbrupt = false ∧ c.getValue = x := by
  unfold returned? at h
  split at h
  next n span argument begins part =>
    split at h
    next c k ran =>
      split at h
      next => cases h
      next normal =>
        exact ⟨n, span, argument, c, k, begins, part, ran, Bool.not_eq_true _ ▸ normal,
          Option.some.inj h⟩
    next => cases h
  next => cases h

end Visit

namespace Statement

/-- The statements that a body evaluates, with the machines they begin in. What is evaluated by the
calls in it is not among them. -/
inductive Reaches (call : ScriptCall) (s : Setup) : Body → Machine → Visit Statement → Prop where
  | one (st : Statement) (m : Machine) : Reaches call s (.one st) m ⟨st, m, st.evaluate call s m⟩
  | list {ss : List Statement} {m : Machine} {v : Visit Statement}
    (visited : v ∈ visits call ss s m) : Reaches call s (.list ss) m v
  | handler {name : String} {ss : List Statement} {thrown : Value} {m : Machine}
    {v : Visit Statement} (reached : Reaches call s (.list ss)
      ((m.withVariable name thrown).setLexicalEnv m.realm.nextEnvironment) v) :
    Reaches call s (.handler name ss thrown) m v
  /-- A statement evaluates a body, which evaluates a statement. -/
  | inside {b inner : Body} {m : Machine} {w v : Visit Statement} {u : Visit Part}
    (outer : Reaches call s b m w) (visited : u ∈ w.inner call s) (part : u.part = .body inner)
    (reached : Reaches call s inner u.before v) : Reaches call s b m v

/-- When a statement list is evaluated, a return is reached in an ambiguous block of the running
context, and it returns a value. -/
def MayReturn (call : ScriptCall) (s : Setup) (ss : List Statement) (m : Machine) (v : Value) :
    Prop :=
  ∃ w, Reaches call s (.list ss) m w ∧ w.before.contexts.isAmbiguous = true ∧
    w.returned? call s = some v

variable {call : ScriptCall} {s : Setup} {m n : Machine}

/-- What is reached is evaluated. -/
theorem Reaches.result {b : Body} {v : Visit Statement} (h : Reaches call s b m v) :
    v.result = v.part.evaluate call s v.before := by
  induction h with
  | one st m => rfl
  | list visited => exact Plan.result_of_mem_visits visited
  | handler reached ih => exact ih
  | inside outer visited part reached ihOuter ih => exact ih

/-- A statement inside of a statement of a list is reached. -/
theorem reaches_inner {ss : List Statement} {v w : Visit Statement} {u : Visit Part}
    (visited : v ∈ visits call ss s m) (inner : u ∈ v.inner call s) (statement : w ∈ u.statement?) :
    Reaches call s (.list ss) m w := by
  unfold Visit.statement? at statement
  split at statement
  next st part =>
    obtain rfl := Option.some.inj statement
    obtain ⟨n, y, -, -, evaluated⟩ := Visit.exists_of_mem_inner inner
    have result : u.result = st.evaluate call s u.before := by
      rw [Plan.result_of_mem_visits evaluated, part]
      rfl
    refine .inside (.list visited) inner part ?_
    rw [result]
    exact .one st u.before
  next => cases statement

end Statement

/-! ## Contexts that may have returned -/

/-- If a part of a plan leaves a context that may have returned, then so does the plan. -/
theorem Plan.returnUnknown_of_mem_visits {P α : Type} {parts : P → Run Completion} {s : Setup}
    (place : ∀ p, Keeps Machine.InPlace (parts p)) {x : Plan P α} {m : Machine} {v : Visit P}
    (visited : v ∈ x.visits parts s m) (marked : v.after.returnUnknown = true) :
    ((x.run parts).after s m).returnUnknown = true := by
  induction x generalizing m with
  | pure a => cases visited
  | act x h => cases visited
  | part p =>
    obtain rfl := List.mem_singleton.1 visited
    rwa [Visit.after_of_result (x := parts p) rfl] at marked
  | bind x f ihx ihf =>
    show ((x.run parts >>= fun a => (f a).run parts).after s m).returnUnknown = true
    rcases mem_visits_bind.1 visited with first | ⟨a, n, ran, later⟩
    · have so : ((x.run parts).after s m).returnUnknown = true := ihx first
      rw [after_bind]
      cases ran : x.run parts s m with
      | ok a n =>
        -- what follows does not leave the context
        rw [Eval.after, ran] at so
        exact ((inPlace_run place (f a)).after s n).returnUnknown so
      | error e n =>
        rw [Eval.after, ran] at so
        exact so
    · rw [after_bind_ok ran]
      exact ihf a later
  | ambiguously span x ih =>
    have inside := ih (m := (m.markBlock (span.location s.file)).enterBlock) visited
    show ((Eval.ambiguously span (x.run parts)).after s m).returnUnknown = true
    rw [(ambiguously_eq span (x.run parts) s m).1]
    show (Machine.exitBlock _ _).returnUnknown = true
    rw [Machine.returnUnknown_exitBlock, after_bind]
    cases ran : x.run parts s (m.markBlock (span.location s.file)).enterBlock with
    | ok c n =>
      rw [Eval.after, ran] at inside
      exact (Machine.Steady.noteExit n c).inPlace.returnUnknown inside
    | error e n =>
      rw [Eval.after, ran] at inside
      exact inside

/-- A return whose argument has a value marks the running context if it may not happen. -/
theorem Rule.complete_returns {argument : Option (Run Completion)} {s : Setup} {m n : Machine}
    {c : Completion} (ran : argument.getD (return .normal .undefined) s m = .ok c n)
    (normal : c.isAbrupt = false) (ambiguous : n.contexts.isAmbiguous = true) :
    (Rule.returns argument).complete s m = .ok (.normal .undefined) n.markReturnUnknown := by
  have first : Rule.returns argument =
      Rule.value (argument.getD (return .normal .undefined)) >>= fun v => do
        if (← get).contexts.isAmbiguous then
          modify (·.markReturnUnknown)
          return .normal .undefined
        else return .returns v := by
    cases argument <;> rfl
  rw [first, Rule.complete_value_bind, bind_apply, ran]
  dsimp only
  rw [if_neg (ne_true_of_eq_false normal)]
  show (Rule.lift get >>= _ : Rule Completion).complete s n = _
  rw [Rule.complete_lift_bind (get_apply ..), if_pos ambiguous]
  rfl

section

open Statement

variable {call : ScriptCall} (calls : call.Keeps fun _ => Machine.Steady) {s : Setup}
  {m n : Machine}

include calls

theorem Statement.steady_part (p : Part) : Keeps Machine.Steady (p.evaluate call) := by
  have names {p : Prop} (h : ¬ True) : p := absurd trivial h
  rcases p with _ | x | (⟨span, ds⟩ | x) | ⟨target, v⟩ | b
  · exact .pure _
  · exact Expression.keeps_evaluate calls x names
  · have initials : ∀ d ∈ Declarator.initials call ds, _ := Declarator.made_initials ds names
    exact (MadeSince.complete (Rule.made_varDeclaration initials)).keeps_of calls.calls
  · exact Expression.keeps_evaluate calls x names
  · exact (target.made_assign names v).keeps_of calls.calls
  · rcases b with st | ss | ⟨name, ss, thrown⟩
    · exact steady_evaluate calls st
    · exact steady_runAll calls ss
    · exact Evaluating.handle (steady_runAll calls ss) name thrown

/-- A return that may not happen leaves a context that may have returned. -/
theorem Visit.returnUnknown_of_returned? {v : Visit Statement} {x : Value}
    (result : v.result = v.part.evaluate call s v.before)
    (ambiguous : v.before.contexts.isAmbiguous = true) (returned : v.returned? call s = some x) :
    v.after.returnUnknown = true := by
  obtain ⟨n, span, argument, c, k, begins, part, ran, normal, -⟩ := exists_of_returned? returned
  have steady : Keeps Machine.Steady
      ((evaluateOption call argument).getD (return .normal .undefined)) := by
    cases argument with
    | none => exact .pure _
    | some x => exact Expression.keeps_evaluate calls x fun h => absurd trivial h
  -- the argument leaves the blocks that the return is in
  have inside : k.contexts.isAmbiguous = true := by
    rw [ContextStack.isAmbiguous, (steady.of_ok ran).contexts.depth_eq, (core?_eq_some begins).2]
    exact ambiguous
  have rule : v.part.evaluate call = ruled v.part.kind v.part.span
      (Rule.returns (evaluateOption call argument)).complete := by
    rw [part]
    rfl
  have marked := Rule.complete_returns ran normal inside
  rw [Machine.returnUnknown_congr (contexts_after result rule begins), Eval.after, marked]
  exact Machine.returnUnknown_markReturnUnknown (ContextStack.isEmpty_of_isAmbiguous inside)

/-- If a reached statement leaves a context that may have returned, then so does the body. -/
theorem Statement.Reaches.returnUnknown {b : Body} {v : Visit Statement}
    (h : Reaches call s b m v) (marked : v.after.returnUnknown = true) :
    ((b.evaluate call).after s m).returnUnknown = true := by
  have place (p : Part) : Keeps Machine.InPlace (p.evaluate call) :=
    (steady_part calls p).mono fun _ _ h => h.inPlace
  induction h with
  | one st m => rwa [Visit.after_of_result (x := st.evaluate call) rfl] at marked
  | @list ss m v visited =>
    rw [Body.evaluate, ← run_listPlan]
    exact Plan.returnUnknown_of_mem_visits
      (Plan.inPlace_of_steady (steady_evaluate calls)) visited marked
  | @handler name ss thrown m v reached ih =>
    show ((handle name (Step.runAll none (steps call ss)) thrown).after s m).returnUnknown = true
    rw [after_handle, Machine.returnUnknown_setLexicalEnv]
    exact ih marked
  | inside outer visited part reached ihOuter ih =>
    -- from the inner body to the plan that evaluates it, and from there to the outer statement
    obtain ⟨n, x, begins, plan, visited⟩ := Visit.exists_of_mem_inner visited
    refine ihOuter ?_
    rw [Machine.returnUnknown_congr
      (Visit.contexts_after outer.result (evaluate_of_plan? call plan) begins)]
    refine Plan.returnUnknown_of_mem_visits place visited ?_
    have result := Plan.result_of_mem_visits visited
    rw [part] at result
    rw [Visit.after_of_result result]
    exact ih marked

/-- If a statement list may return, then the running context may have returned afterwards. -/
theorem Statement.MayReturn.returnUnknown {ss : List Statement} {v : Value}
    (h : MayReturn call s ss m v) {c : Completion}
    (ended : Step.runAll none (steps call ss) s m = .ok c n) : n.returnUnknown = true := by
  obtain ⟨w, reached, ambiguous, returned⟩ := h
  have marked := reached.returnUnknown calls
    (Visit.returnUnknown_of_returned? calls reached.result ambiguous returned)
  rwa [Body.evaluate, Eval.after, ended] at marked

end

/-! ## Constructors -/

/-- A value that takes the place of the object that `new` has created, or may do so: another object,
or an unknown value. -/
def Value.replaces (o : ObjectId) : Value → Bool
  | .unknown => true
  | .object q => q != o
  | _ => false

/-- A call of a function of the program by `new`: the function with its scope, the object that is
created for the call, and the machine in which the call begins. -/
structure NewCall where
  closure : Closure
  object : ObjectId
  start : Machine

namespace Eval

open Statement

/-- The call that `new` makes of a function, if it is one of the program and its prototype can be
read. -/
def newCall? (f : ObjectId) (s : Setup) (m : Machine) : Option NewCall :=
  let create : Op ObjectId := do
    let p ← instancePrototype f
    createObject .object (some p)
  match ((m.markInvoked f).realm.object f).callable, create s (m.markInvoked f) with
  | some (.script closure), .ok o n => some ⟨closure, o, n⟩
  | _, _ => none

variable {s : Setup} {m n k : Machine} {f : ObjectId} {new : NewCall} {arguments : List Value}
  {c d : Completion}

/-- `new` ends as the call of the function does, except for what is no object. -/
theorem construct_of_call {call : ScriptCall} (makes : newCall? f s m = some new)
    (called : call f new.closure (.object new.object) arguments s new.start = .ok d k) :
    construct call f arguments s m = .ok (constructResult new.object d) k := by
  unfold newCall? at makes
  dsimp only at makes
  split at makes
  next closure o start callable created =>
    obtain rfl := Option.some.inj makes
    obtain ⟨p, j, prototype, made⟩ := bind_eq_ok_iff.1 created
    have made : (createObject .object (some p) : Run ObjectId) s j = .ok o start := by
      cases made
      rfl
    have invoked : markInvoked f s m = .ok () (m.markInvoked f) := rfl
    have found : (object f : Run ObjectRecord) s (m.markInvoked f) =
        .ok ((m.markInvoked f).realm.object f) (m.markInvoked f) := rfl
    unfold construct
    rw [bind_apply, invoked]
    dsimp only
    rw [bind_apply, found]
    dsimp only
    rw [callable]
    dsimp only
    rw [Rule.complete_native_bind prototype, Rule.complete_lift_bind made,
      Rule.complete_lift_bind called]
    rfl
  next => cases makes

/-- `new` makes an object of a call that does not throw. -/
theorem exists_constructResult (o : ObjectId) (certain : c.isThrow = false) (mayReturn : Bool) :
    ∃ q, constructResult o (callResult c mayReturn) = .normal (.object q) := by
  have normal (v : Value) : ∃ q, constructResult o (.normal v) = .normal (.object q) := by
    cases v <;> exact ⟨_, rfl⟩
  unfold callResult
  rw [if_neg (ne_true_of_eq_false certain)]
  split
  · exact normal .unknown
  · split <;> exact normal _

end Eval

namespace NewCall

open Eval Statement

/-- The machine in which the body of the function begins. -/
def bodyStart (new : NewCall) (f : ObjectId) (arguments : List Value) (s : Setup) : Machine :=
  Eval.bodyStart f new.closure (.object new.object) arguments s new.start

/-- How the body of the function ends. -/
def body (new : NewCall) (calls : Nat) (f : ObjectId) (arguments : List Value) (s : Setup) :
    EStateM.Result FatalError Machine Completion :=
  Step.runAll none (steps (callWithin calls) new.closure.code.body) s (new.bodyStart f arguments s)

/-- A return is reached in an ambiguous block of the call, and it returns a value. -/
def MayReturn (new : NewCall) (calls : Nat) (f : ObjectId) (arguments : List Value) (s : Setup)
    (v : Value) : Prop :=
  Statement.MayReturn (callWithin calls) s new.closure.code.body (new.bodyStart f arguments s) v

end NewCall

namespace Eval

variable {s : Setup} {m n : Machine} {f : ObjectId} {new : NewCall} {c : Completion}

/-- **A constructor that may return another object never gives an unknown value**: if a return is
reached in an ambiguous block of a call that does not throw, then `new` gives the object that it has
created, whatever the return returns. So it gives an unknown value for each such return of an
unknown value or of another object exactly if there is no such return. -/
theorem construct_possibleReturn (calls : Nat) (arguments : List Value)
    (makes : newCall? f s m = some new) (ended : new.body calls f arguments s = .ok c n)
    (certain : c.isThrow = false) :
    ∃ d k, construct (callWithin (calls + 1)) f arguments s m = .ok d k ∧
      (∃ q, d = .normal (.object q)) ∧
      ((∃ v, new.MayReturn calls f arguments s v) → d = .normal (.object new.object)) ∧
      ((∀ v, new.MayReturn calls f arguments s v → v.replaces new.object = true → d = .unknown) ↔
        ∀ v, new.MayReturn calls f arguments s v → v.replaces new.object = false) := by
  obtain ⟨q, built⟩ := exists_constructResult new.object certain n.returnUnknown
  refine ⟨_, _, construct_of_call makes (callScript_of_body ended), ⟨q, built⟩, ?_, ?_⟩
  · -- the call gives an unknown value, since its context may have returned
    rintro ⟨v, may⟩
    have marked : n.returnUnknown = true := may.returnUnknown (callWithin_keeps calls) ended
    have called : callResult c n.returnUnknown = .unknown := by
      rw [marked, callResult, if_neg (ne_true_of_eq_false certain), if_pos rfl]
    rw [called]
    rfl
  · rw [built]
    constructor
    · intro unknown v may
      by_contra replaces
      cases unknown v may (Bool.not_eq_false _ ▸ replaces)
    · intro kept v may replaces
      rw [kept v may] at replaces
      cases replaces

/-! ### Constructors that may return another object -/

open Analyzer

/-- The use of a new object: `function F() { body } var x = new F().a;`. -/
def creating (body : List Statement) : Program where
  span := default
  file := "new.js"
  body :=
    [functionAt "F" body,
    .varDeclaration default [.mk default ⟨default, "x"⟩
      (some (.member default (.construct default (nameAt "F") []) ⟨default, "a"⟩))]]

/-- What a run with the program is given. -/
def newSetup (body : List Statement) : Setup := withUnknown.setup (creating body)

/-- The machine in which `new` begins. -/
def newStart (body : List Statement) : Machine := withUnknown.machineAfter (creating body) []

/-- The function of the program. -/
def newFunction (body : List Statement) : ObjectId := ((newStart body).scripts[0]?).getD default

/-- The call does not throw, and a return in a statement of the body may return something else than
the new object. -/
def ReturnsAnother (body : List Statement) (new : NewCall) : Prop :=
  let s := newSetup body
  let start := new.bodyStart (newFunction body) [] s
  (Step.runAll none (Statement.steps (callWithin 0) new.closure.code.body)).succeedsWith
      (fun c => !c.isThrow) s start = true ∧
    ∃ v ∈ Statement.visits (callWithin 0) new.closure.code.body s start,
      ∃ u ∈ v.inner (callWithin 0) s, ∃ w ∈ u.statement?,
        w.before.contexts.isAmbiguous = true ∧
          ∃ x ∈ w.returned? (callWithin 0) s, x.replaces new.object = true

instance (body : List Statement) (new : NewCall) : Decidable (ReturnsAnother body new) :=
  inferInstanceAs (Decidable (_ ∧ _))

/-- What is checked is a return that is reached. -/
theorem ReturnsAnother.exists {body : List Statement} (h : ReturnsAnother body new) :
    (∃ c n, new.body 0 (newFunction body) [] (newSetup body) = .ok c n ∧ c.isThrow = false) ∧
      ∃ v, new.MayReturn 0 (newFunction body) [] (newSetup body) v ∧
        v.replaces new.object = true := by
  obtain ⟨ends, v, visited, u, inner, w, statement, ambiguous, x, returned, replaces⟩ := h
  obtain ⟨c, n, ended, certain⟩ := exists_of_succeedsWith ends
  have reached := Statement.reaches_inner visited inner statement
  exact ⟨⟨c, n, ended, by simpa using certain⟩, x, ⟨w, reached, ambiguous, returned⟩, replaces⟩

/-- `if (u) return u;` -/
def returnUnknownValue : List Statement :=
  [.branch default (nameAt "u") (.returns default (some (nameAt "u"))) none]

/-- The constructor may return an unknown value, and `new` gives the new object for certain. -/
theorem construct_possibleReturn_unknownValue :
    ∃ new ∈ newCall? (newFunction returnUnknownValue) (newSetup returnUnknownValue)
        (newStart returnUnknownValue),
      (∃ v, new.MayReturn 0 (newFunction returnUnknownValue) [] (newSetup returnUnknownValue) v ∧
        v.replaces new.object = true) ∧
      ∃ k, construct (callWithin 1) (newFunction returnUnknownValue) []
        (newSetup returnUnknownValue) (newStart returnUnknownValue) =
          .ok (.normal (.object new.object)) k := by
  have found : ∃ new ∈ newCall? (newFunction returnUnknownValue) (newSetup returnUnknownValue)
      (newStart returnUnknownValue), ReturnsAnother returnUnknownValue new := by decide +kernel
  obtain ⟨new, makes, another⟩ := found
  obtain ⟨⟨c, n, ended, certain⟩, v, may, replaces⟩ := another.exists
  obtain ⟨d, k, built, -, created, -⟩ := construct_possibleReturn 0 [] makes ended certain
  exact ⟨new, makes, ⟨v, may, replaces⟩, k, created ⟨v, may⟩ ▸ built⟩

/-- `this.a = true; if (u) return {};` -/
def markedOrOther : List Statement :=
  [.expression default (.assignment default .assign
    (.member default (.this default) ⟨default, "a"⟩) (boolAt true)),
  .branch default (nameAt "u") (.returns default (some (.object default []))) none]

/-- The constructor may return another object, and `new` gives the new one for certain. The analysis
takes it for granted that the property is found, which the other object does not have: the variable
is undefined if `u` is true. -/
theorem construct_certain_markedOrOther :
    (∃ new ∈ newCall? (newFunction markedOrOther) (newSetup markedOrOther)
        (newStart markedOrOther),
      (∃ c n, new.body 0 (newFunction markedOrOther) [] (newSetup markedOrOther) = .ok c n ∧
        c.isThrow = false) ∧
      (∃ v, new.MayReturn 0 (newFunction markedOrOther) [] (newSetup markedOrOther) v ∧
        v.replaces new.object = true) ∧
      ∃ k, construct (callWithin 1) (newFunction markedOrOther) [] (newSetup markedOrOther)
        (newStart markedOrOther) = .ok (.normal (.object new.object)) k) ∧
      (withUnknown.analyze (creating markedOrOther)).global? "x" = some (.bool true) ∧
      (withUnknown.analyzeWith [("u", .bool true)] (creating markedOrOther)).global? "x" =
        some .undefined := by
  have found : ∃ new ∈ newCall? (newFunction markedOrOther) (newSetup markedOrOther)
      (newStart markedOrOther), ReturnsAnother markedOrOther new ∧
        (construct (callWithin 1) (newFunction markedOrOther) []).succeedsWith
          (fun d => decide (d = .normal (.object new.object))) (newSetup markedOrOther)
          (newStart markedOrOther) = true := by
    decide +kernel
  obtain ⟨new, makes, another, succeeds⟩ := found
  obtain ⟨ended, may⟩ := another.exists
  obtain ⟨d, k, built, same⟩ := exists_of_succeedsWith succeeds
  obtain rfl := of_decide_eq_true same
  exact ⟨⟨new, makes, ended, may, k, built⟩, by decide +kernel, by decide +kernel⟩

end Eval

end AbstractScript
