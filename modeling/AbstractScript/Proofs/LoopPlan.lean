import AbstractScript.Proofs.Plan

/-!
# Loops as plans

A `while`, `do` or `for` loop evaluates its test, its body and its update by a plan that only depends
on the *shape* of the loop: on its place, on whether it has a test and on whether it has an update.
With the parts of a loop the plan is the evaluation of the loop (`Loop.Shape.run_evaluate`).
-/
namespace AbstractScript

namespace Loop

/-- What a loop evaluates. -/
inductive Part where
  | test
  | body
  | update
  deriving DecidableEq, Repr

/-- A loop, except for what its parts do. -/
structure Shape where
  span : Span
  /-- The span of the test, if there is one. -/
  test : Option Span
  /-- True if there is an update. -/
  updates : Bool

/-- The shape of a loop. -/
def shape (l : Loop) : Shape := ⟨l.span, l.test.map (·.1), l.update.isSome⟩

/-- The parts of a loop. A part that the loop does not have does nothing. -/
def parts (l : Loop) : Part → Run Completion
  | .test => (l.test.map (·.2)).getD (return .empty)
  | .body => l.body
  | .update => l.update.getD (return .empty)

namespace Shape

/-- The loop of a shape with given parts. -/
def loop (k : Shape) (parts : Part → Run Completion) : Loop where
  span := k.span
  test := k.test.map (·, parts .test)
  update := if k.updates then some (parts .update) else none
  body := parts .body

theorem loop_shape (l : Loop) : l.shape.loop l.parts = l := by
  obtain ⟨span, _ | test, _ | update, body⟩ := l <;> rfl

theorem keeps_loop {R : Bool → Machine → Machine → Prop} (k : Shape)
    {parts : Part → Run Completion} (h : ∀ p, Eval.KeepsBy R (parts p)) : (k.loop parts).Keeps R where
  test := by
    intro t found
    obtain ⟨span, -, rfl⟩ := Option.map_eq_some_iff.1 found
    exact h .test
  update := by
    intro x found
    obtain ⟨-, rfl⟩ : k.updates = true ∧ parts .update = x := by simpa [loop] using found
    exact h .update
  body := h .body

/-! ## The plan of a loop -/

variable (k : Shape)

/-- Evaluates the test. -/
def check : Plan Part LoopTest := do
  match k.test with
  | none => return .goOn
  | some span =>
    let c ← .part .test
    if c.isAbrupt then return .abrupt c
    match c.getValue.toBool? with
    | some true => return .goOn
    | some false => return .stop
    | none =>
      Plan.markUnknown span
      return .unknown

/-- The body and then the update, unless the body ends the pass. -/
def bodyAndUpdate : Plan Part Completion := do
  let c ← .part .body
  if c.isAbrupt then return c
  if k.updates then
    let _ ← .part .update
  return .empty

/-- Evaluates the body once as something that may or may not happen. -/
def representative (labels : List String) : Plan Part Unit := do
  let mark ← Plan.mark
  let _ ← .ambiguously k.span k.bodyAndUpdate
  Plan.claimPasses labels mark

/-- Evaluates parts in order, up to one that does not complete normally. -/
def inOrder : List Part → Plan Part Completion
  | [] => return .empty
  | p :: rest => do
    let c ← .part p
    if c.isAbrupt then return c else inOrder rest

/-- The update and the test. -/
def updateAndTest : List Part :=
  (if k.updates then [.update] else []) ++ (if k.test.isSome then [.test] else [])

/-- Evaluates what is left of a loop that may have ended. -/
def remainder (labels : List String) : Plan Part Unit := do
  let _ ← .ambiguously k.span (inOrder k.updateAndTest)
  k.representative labels

/-- Gives the loop up after evaluating its body once more. -/
def giveUp (labels : List String) (value : Option Value) : Plan Part Completion := do
  k.representative labels
  return .finished value

/-- The end of the loop before a pass: the test, unless it is skipped, may end it. -/
def beforeBody (labels : List String) (tested : Bool) (value : Option Value) :
    Plan Part (Option Completion) := do
  if !tested then return none
  match ← k.check with
  | .goOn => return none
  | .stop => return some (.finished value)
  | .unknown => return some (← k.giveUp labels value)
  | .abrupt c => return some c

/-- Reports that the loop has reached the limit, and gives it up. -/
def exceed (labels : List String) (value : Option Value) : Plan Part Completion := do
  Plan.reportMaxIterations
  k.giveUp labels value

/-- The body and the update of one pass. -/
def pass (labels : List String) (mark : Nat) (value : Option Value) : Plan Part Pass := do
  let c ← .part .body
  match ← Plan.afterBody labels mark value c (k.remainder labels) with
  | .ended c => return .ended c
  | .next value =>
    if k.updates then
      let c ← .part .update
      return if c.isAbrupt then .ended c else .next value
    else return .next value

/-- Evaluates a loop that can make a number of further passes. -/
def iterate (labels : List String) : Nat → Bool → Option Value → Plan Part Completion
  | 0, tested, value => do
    match ← k.beforeBody labels tested value with
    | some c => return c
    | none => k.exceed labels value
  | passes + 1, tested, value => do
    let mark ← Plan.mark
    match ← k.beforeBody labels tested value with
    | some c => return c
    | none =>
      match ← k.pass labels mark value with
      | .ended c => return c
      | .next value => iterate labels passes true value

/-- Evaluates the test and then the body once as something that may or may not happen. -/
def visitOnce (labels : List String) : Plan Part Completion := do
  match k.test with
  | none => k.giveUp labels none
  | some span =>
    let c ← .part .test
    if c.isAbrupt then return c
    Plan.markUnknown span
    k.giveUp labels none

/-- Evaluates a loop. -/
def evaluate (labels : List String) (testFirst : Bool) : Plan Part Completion := do
  let options ← Plan.options
  if options.evaluateLoops then k.iterate labels options.maxLoopIterations testFirst none
  else k.visitOnce labels

/-! ## The plan is the evaluation of the loop -/

variable (parts : Part → Run Completion) (labels : List String)

theorem run_check : k.check.run parts = (k.loop parts).check := by
  obtain ⟨span, _ | test, updates⟩ := k
  · rfl
  · refine Plan.run_bind rfl fun c => ?_
    cases c.isAbrupt
    · rcases c.getValue.toBool? with _ | _ | _ <;> rfl
    · rfl

theorem run_bodyAndUpdate : k.bodyAndUpdate.run parts = (k.loop parts).bodyAndUpdate := by
  obtain ⟨span, test, updates⟩ := k
  refine Plan.run_bind rfl fun c => ?_
  cases c.isAbrupt <;> cases updates <;> rfl

theorem run_representative :
    (k.representative labels).run parts = (k.loop parts).representative labels := by
  refine Plan.run_bind rfl fun mark => Plan.run_bind ?_ fun _ => rfl
  exact congrArg (Eval.ambiguously k.span) (k.run_bodyAndUpdate parts)

theorem run_inOrder (ps : List Part) : (inOrder ps).run parts = Loop.inOrder (ps.map parts) := by
  induction ps with
  | nil => rfl
  | cons p rest ih =>
    refine Plan.run_bind rfl fun c => ?_
    cases c.isAbrupt
    · exact ih
    · rfl

theorem map_updateAndTest : k.updateAndTest.map parts = (k.loop parts).updateAndTest := by
  obtain ⟨span, _ | test, _ | _⟩ := k <;> rfl

theorem run_remainder : (k.remainder labels).run parts = (k.loop parts).remainder labels := by
  refine Plan.run_bind ?_ fun _ => k.run_representative parts labels
  have inside : (inOrder k.updateAndTest).run parts = Loop.inOrder (k.loop parts).updateAndTest := by
    rw [run_inOrder, map_updateAndTest]
  exact congrArg (Eval.ambiguously k.span) inside

theorem run_giveUp (value : Option Value) :
    (k.giveUp labels value).run parts = (k.loop parts).giveUp labels value :=
  Plan.run_bind (k.run_representative parts labels) fun _ => rfl

theorem run_beforeBody (tested : Bool) (value : Option Value) :
    (k.beforeBody labels tested value).run parts = (k.loop parts).beforeBody labels tested value := by
  cases tested with
  | false => rfl
  | true =>
    refine Plan.run_bind (k.run_check parts) fun t => ?_
    cases t with
    | unknown => exact Plan.run_bind (k.run_giveUp parts labels value) fun _ => rfl
    | goOn | stop | abrupt => rfl

theorem run_exceed (value : Option Value) :
    (k.exceed labels value).run parts = (k.loop parts).exceed labels value :=
  Plan.run_bind rfl fun _ => k.run_giveUp parts labels value

theorem run_pass (mark : Nat) (value : Option Value) :
    (k.pass labels mark value).run parts = (k.loop parts).pass labels mark value := by
  have after (c : Completion) :
      (Plan.afterBody labels mark value c (k.remainder labels)).run parts =
        Eval.afterBody labels mark value c ((k.loop parts).remainder labels) := by
    rw [Plan.run_afterBody, run_remainder]
  refine Plan.run_bind rfl fun c => Plan.run_bind (after c) fun p => ?_
  obtain ⟨span, test, _ | _⟩ := k <;> cases p <;> rfl

theorem run_iterate (passes : Nat) (tested : Bool) (value : Option Value) :
    (k.iterate labels passes tested value).run parts =
      (k.loop parts).iterate labels passes tested value := by
  induction passes generalizing tested value with
  | zero =>
    refine Plan.run_bind (k.run_beforeBody parts labels tested value) fun ended => ?_
    cases ended with
    | some c => rfl
    | none => exact k.run_exceed parts labels value
  | succ passes ih =>
    refine Plan.run_bind rfl fun mark => ?_
    refine Plan.run_bind (k.run_beforeBody parts labels tested value) fun ended => ?_
    cases ended with
    | some c => rfl
    | none =>
      refine Plan.run_bind (k.run_pass parts labels mark value) fun p => ?_
      cases p with
      | ended c => rfl
      | next value => exact ih true value

theorem run_visitOnce : (k.visitOnce labels).run parts = (k.loop parts).visitOnce labels := by
  obtain ⟨span, _ | test, updates⟩ := k
  · exact run_giveUp _ parts labels none
  · refine Plan.run_bind rfl fun c => ?_
    cases c.isAbrupt
    · exact Plan.run_bind rfl fun _ => run_giveUp _ parts labels none
    · rfl

/-- With the parts of a loop, the plan of its shape is the evaluation of the loop. -/
theorem run_evaluate (testFirst : Bool) :
    (k.evaluate labels testFirst).run parts = (k.loop parts).evaluate labels testFirst := by
  refine Plan.run_bind rfl fun options => ?_
  cases options.evaluateLoops
  · exact k.run_visitOnce parts labels
  · exact k.run_iterate parts labels _ testFirst none

end Shape

/-- The evaluations of the parts of a loop, in order. -/
def visits (l : Loop) (labels : List String) (testFirst : Bool) (s : Setup) (m : Machine) :
    List (Visit Part) :=
  (l.shape.evaluate labels testFirst).visits l.parts s m

/-- The plan that gives the visits of a loop is its evaluation. -/
theorem run_shape (l : Loop) (labels : List String) (testFirst : Bool) :
    (l.shape.evaluate labels testFirst).run l.parts = l.evaluate labels testFirst := by
  rw [Shape.run_evaluate, Shape.loop_shape]

theorem keeps_parts {R : Bool → Machine → Machine → Prop} [Composes R] {l : Loop}
    (h : l.Keeps R) (p : Part) : Eval.KeepsBy R (l.parts p) := by
  obtain ⟨span, test, update, body⟩ := l
  cases p with
  | test =>
    cases test with
    | none => exact .pure _
    | some t => exact h.test t rfl
  | body => exact h.body
  | update =>
    cases update with
    | none => exact .pure _
    | some x => exact h.update x rfl

end Loop

/-! ## Loop statements -/

/-- The loop of a `while`, `do` or `for` statement, and whether its test comes first. -/
def Statement.loop? (call : ScriptCall) : Statement → Option (Bool × Loop)
  | .whileLoop span test body =>
    some (true, ⟨span, some (test.span, test.evaluate call), none, body.evaluate call⟩)
  | .doWhileLoop span test body =>
    some (false, ⟨span, some (test.span, test.evaluate call), none, body.evaluate call⟩)
  | .forLoop span _ test update body =>
    some (true,
      ⟨span, evaluateTest call test, evaluateOption call update, body.evaluate call⟩)
  | _ => none

/-- What a loop statement does is to evaluate its loop after what comes first. -/
theorem Statement.evaluate_loop {call : ScriptCall} {st : Statement} {testFirst : Bool} {l : Loop}
    (h : st.loop? call = some (testFirst, l)) :
    ∃ kind start, st.evaluate call = Eval.ruled kind st.span (Rule.loop testFirst start l).complete := by
  cases st <;> cases h
  case whileLoop => exact ⟨_, _, rfl⟩
  case doWhileLoop => exact ⟨_, _, rfl⟩
  case forLoop => exact ⟨_, _, rfl⟩

/-- The parts of the loops of a program keep what its other parts keep. -/
theorem Statement.keeps_loop? {deletes : Prop} {R : Bool → Machine → Machine → Prop}
    [Evaluating deletes R] {call : ScriptCall} (calls : call.Keeps R) {st : Statement}
    (names : ¬ deletes → st.keepsNames = true) {testFirst : Bool} {l : Loop}
    (h : st.loop? call = some (testFirst, l)) : l.Keeps R := by
  cases st <;> cases h
  case whileLoop span test body | doWhileLoop span test body =>
    obtain ⟨htest, hbody⟩ := both names
    refine ⟨fun t found => ?_, (fun _ none => by cases none),
      Statement.keeps_evaluate calls body hbody⟩
    obtain rfl := Option.some.inj found
    exact Expression.keeps_evaluate calls test htest
  case forLoop span start test update body =>
    obtain ⟨names, hbody⟩ := both names
    obtain ⟨names, hupdate⟩ := both names
    obtain ⟨-, htest⟩ := both names
    exact ⟨fun t found => (made_evaluateTest test htest t found).keeps_of calls.calls,
      fun x found => (made_evaluateOption update hupdate x found).keeps_of calls.calls,
      Statement.keeps_evaluate calls body hbody⟩

end AbstractScript
