import AbstractScript.Proofs.Plan

/-!
# Loops over names as plans

A `for-in` loop evaluates its object once, and then assigns names to its variable and evaluates its
body, by a plan that only depends on the *shape* of the loop: on its place and on that of its object.
With the parts of a loop the plan is the evaluation of the loop (`NameLoop.run_shape`).
-/
namespace AbstractScript

open Eval

theorem Rule.complete_value_bind (x : Run Completion) (f : Value → Rule Completion) :
    (Rule.value x >>= f).complete = x >>= fun c =>
      if c.isAbrupt then return c else (f c.getValue).complete := by
  rw [complete_bind, value, run_lift_bind, bind_assoc]
  refine bind_congr fun c => ?_
  cases c.isAbrupt <;> simp

/-! ## Looks at the setup and the realm -/

namespace Plan

variable {P α : Type}

/-- What the setup says. -/
def setting (f : Setup → α) : Plan P α := .act (setup f) (.setup _)

/-- What a look at the realm gives. -/
def ofRealm (f : Realm → α) : Plan P α :=
  .act (do return f (← get).realm) (.bind .get fun _ => .pure _)

/-- A plan that looks at the realm does so where the computation does. -/
theorem run_ofRealm_bind {β : Type} {parts : P → Run Completion} {f : Realm → α}
    {g : α → Plan P β} {y : α → Run β} (h : ∀ a, (g a).run parts = y a) :
    (ofRealm f >>= g).run parts = (get >>= fun m => y (f m.realm) : Run β) := by
  have looks : (ofRealm f : Plan P α).run parts = (do return f (← get).realm : Run α) := rfl
  show ((ofRealm f).run parts >>= fun a => (g a).run parts) = _
  rw [looks, bind_assoc]
  refine bind_congr fun m => ?_
  rw [pure_bind, h]

/-- The object that a value converts to, or the completion of the rule if there is a native error. -/
def toObject? (v : Value) : Plan P (Except Completion (Option ObjectId)) :=
  have steady : Rule.Keeps Machine.Steady (Rule.native (Op.toObject? v)) :=
    Rule.keeps_native (Op.built_toObject? v).keeps
  .act (Rule.native (Op.toObject? v)).run (Eval.Keeps.mono (fun _ _ h => h.inPlace) steady)

end Plan

namespace NameLoop

/-- What a loop over names evaluates. -/
inductive Part where
  | object
  /-- Assigns a value to the variable of the loop. -/
  | assign (v : Value)
  | body

/-- A loop over names, except for what its parts do. -/
structure Shape where
  span : Span
  /-- The span of the object. -/
  object : Span

/-- The shape of a loop. -/
def shape (l : NameLoop) : Shape := ⟨l.span, l.object.1⟩

/-- The parts of a loop. -/
def parts (l : NameLoop) : Part → Run Completion
  | .object => l.object.2
  | .assign v => l.assign v
  | .body => l.body

namespace Shape

/-- The loop of a shape with given parts. -/
def loop (k : Shape) (parts : Part → Run Completion) : NameLoop where
  span := k.span
  assign v := parts (.assign v)
  object := (k.object, parts .object)
  body := parts .body

theorem loop_shape (l : NameLoop) : l.shape.loop l.parts = l := rfl

/-! ## The plan of a loop -/

variable (k : Shape)

/-- Assigns an unknown name and evaluates the body. -/
def assignAndBody : Plan Part Completion := do
  let c ← .part (.assign .unknown)
  if c.isAbrupt then return c else .part .body

/-- Evaluates the body once for an unknown name as something that may or may not happen. -/
def representative (labels : List String) : Plan Part Unit := do
  let mark ← Plan.mark
  let _ ← .ambiguously k.span assignAndBody
  Plan.claimPasses labels mark

/-- One pass for a name. -/
def pass (labels : List String) (value : Option Value) (name : String) : Plan Part Pass := do
  let mark ← Plan.mark
  let c ← .part (.assign (.string name))
  if c.isAbrupt then return .ended c
  let c ← .part .body
  Plan.afterBody labels mark value c (k.representative labels)

/-- Reports that the loop has reached the limit, and gives it up. -/
def exceed (labels : List String) (value : Option Value) : Plan Part Completion := do
  Plan.reportMaxIterations
  k.representative labels
  return .finished value

/-- One pass for each name that the object still has, up to a number of passes. -/
def visit (labels : List String) (o : ObjectId) :
    Nat → Option Value → List String → Plan Part Completion
  | _, value, [] => return .finished value
  | passes, value, name :: rest => do
    if !(← Plan.ofRealm (·.hasProperty o name)) then visit labels o passes value rest
    else match passes with
      | 0 => k.exceed labels value
      | passes + 1 =>
        match ← k.pass labels value name with
        | .ended c => return c
        | .next value => visit labels o passes value rest

/-- Visits the names of an object. -/
def visitObject (labels : List String) (o : ObjectId) : Plan Part Completion := do
  let limit ← Plan.setting (·.options.maxLoopIterations)
  let names ← Plan.ofRealm (·.enumerableNames o)
  k.visit labels o limit none names

/-- Gives the loop up, since nothing is known of its names. -/
def giveUp (labels : List String) : Plan Part Completion := do
  k.representative labels
  return .empty

/-- Visits the names of what a value is converted to. -/
def visitFound (labels : List String) :
    Except Completion (Option ObjectId) → Plan Part Completion
  | .error c => return c
  | .ok none => return .empty
  | .ok (some o) => k.visitObject labels o

/-- Visits the names of a value. -/
def visitValue (labels : List String) (v : Value) : Plan Part Completion := do
  match v with
  | .undefined | .null => return .empty
  | .unknown =>
    Plan.markUnknown k.object
    k.giveUp labels
  | _ =>
    let found ← Plan.toObject? v
    k.visitFound labels found

/-- Evaluates a loop. -/
def evaluate (labels : List String) : Plan Part Completion := do
  let c ← .part .object
  if c.isAbrupt then return c
  if ← Plan.setting (·.options.evaluateLoops) then k.visitValue labels c.getValue
  else k.giveUp labels

/-! ## The plan is the evaluation of the loop -/

variable (parts : Part → Run Completion) (labels : List String)

theorem run_representative :
    (k.representative labels).run parts = (k.loop parts).representative labels := by
  refine Plan.run_bind rfl fun mark => Plan.run_bind ?_ fun _ => rfl
  refine congrArg (Eval.ambiguously k.span) (Plan.run_bind rfl fun c => ?_)
  cases c.isAbrupt <;> rfl

theorem run_pass (value : Option Value) (name : String) :
    (k.pass labels value name).run parts = (k.loop parts).pass labels value name := by
  refine Plan.run_bind rfl fun mark => Plan.run_bind rfl fun c => ?_
  cases c.isAbrupt with
  | true => rfl
  | false =>
    refine Plan.run_bind rfl fun c => ?_
    rw [Plan.run_afterBody, run_representative]

theorem run_visit (o : ObjectId) (passes : Nat) (value : Option Value) (names : List String) :
    (k.visit labels o passes value names).run parts =
      (k.loop parts).visit labels o passes value names := by
  induction names generalizing passes value with
  | nil => cases passes <;> rfl
  | cons name rest ih =>
    unfold visit NameLoop.visit
    refine Plan.run_ofRealm_bind (y := fun has => if !has then _ else _) fun has => ?_
    cases has with
    | false => exact ih passes value
    | true =>
      cases passes with
      | zero =>
        exact Plan.run_bind rfl fun _ =>
          Plan.run_bind (k.run_representative parts labels) fun _ => rfl
      | succ passes =>
        refine Plan.run_bind (k.run_pass parts labels value name) fun p => ?_
        cases p with
        | ended c => rfl
        | next value => exact ih passes value

theorem run_giveUp : (k.giveUp labels).run parts = Rule.complete (do
    Rule.lift ((k.loop parts).representative labels)
    return .empty) := by
  rw [Rule.complete_bind_lift]
  exact Plan.run_bind (k.run_representative parts labels) fun _ => rfl

theorem run_visitObject (o : ObjectId) : (k.visitObject labels o).run parts = Rule.complete (do
    let limit ← Rule.lift (setup (·.options.maxLoopIterations))
    let names := (← get).realm.enumerableNames o
    Rule.lift ((k.loop parts).visit labels o limit none names)) := by
  rw [Rule.complete_bind_lift]
  refine Plan.run_bind rfl fun limit => ?_
  have looks : Rule.complete (do
      let names := (← get).realm.enumerableNames o
      Rule.lift ((k.loop parts).visit labels o limit none names)) =
      (get >>= fun m => (k.loop parts).visit labels o limit none (m.realm.enumerableNames o) :
        Run Completion) := by
    show (Rule.lift get >>= fun m => Rule.lift _).complete = _
    rw [Rule.complete_bind_lift]
    exact bind_congr fun m => Rule.complete_lift _
  rw [looks]
  exact Plan.run_ofRealm_bind fun names => k.run_visit parts labels o limit none names

theorem run_visitValue (v : Value) :
    (k.visitValue labels v).run parts = ((k.loop parts).visitValue labels v).complete := by
  cases v with
  | undefined => rfl
  | null => rfl
  | unknown =>
    unfold NameLoop.visitValue
    rw [Rule.complete_bind_lift]
    exact Plan.run_bind rfl fun _ => k.run_giveUp parts labels
  | _ =>
    unfold NameLoop.visitValue
    rw [Rule.complete_bind]
    refine Plan.run_bind rfl fun found => ?_
    cases found with
    | error c => rfl
    | ok o =>
      cases o with
      | none => rfl
      | some o => exact k.run_visitObject parts labels o

/-- With the parts of a loop, the plan of its shape is the evaluation of the loop. -/
theorem run_evaluate :
    (k.evaluate labels).run parts = ((k.loop parts).evaluate labels).complete := by
  unfold NameLoop.evaluate
  rw [Rule.complete_value_bind]
  refine Plan.run_bind rfl fun c => ?_
  cases c.isAbrupt with
  | true => rfl
  | false =>
    rw [if_neg Bool.false_ne_true, if_neg Bool.false_ne_true, Rule.complete_bind_lift]
    refine Plan.run_bind rfl fun loops => ?_
    cases loops with
    | true => exact k.run_visitValue parts labels c.getValue
    | false => exact k.run_giveUp parts labels

end Shape

/-- The plan of a loop is its evaluation. -/
theorem run_shape (l : NameLoop) (labels : List String) :
    (l.shape.evaluate labels).run l.parts = (l.evaluate labels).complete := by
  rw [Shape.run_evaluate, Shape.loop_shape]

theorem keeps_parts {R : Bool → Machine → Machine → Prop} {l : NameLoop} (h : l.Keeps R)
    (p : Part) : Eval.KeepsBy R (l.parts p) := by
  cases p with
  | object => exact h.object
  | assign v => exact h.assign v
  | body => exact h.body

end NameLoop

/-! ## Loop statements -/

/-- The loop of a `for-in` statement. -/
def Statement.nameLoop? (call : ScriptCall) : Statement → Option NameLoop
  | .forInLoop span target x body =>
    some ⟨span, target.assign call, (x.span, x.evaluate call), body.evaluate call⟩
  | _ => none

/-- What a `for-in` statement does is to evaluate its loop. -/
theorem Statement.evaluate_nameLoop {call : ScriptCall} {st : Statement} {l : NameLoop}
    (h : st.nameLoop? call = some l) :
    st.evaluate call = ruled .forInStatement st.span (Rule.nameLoop l).complete := by
  cases st <;> cases h
  rfl

/-- The parts of the loops over names of a program keep what its other parts keep. -/
theorem Statement.keeps_nameLoop? {deletes : Prop} {R : Bool → Machine → Machine → Prop}
    [Evaluating deletes R] {call : ScriptCall} (calls : call.Keeps R) {st : Statement}
    (names : ¬ deletes → st.keepsNames = true) {l : NameLoop} (h : st.nameLoop? call = some l) :
    l.Keeps R := by
  cases st <;> cases h
  case forInLoop span target x body =>
    obtain ⟨names, hbody⟩ := both names
    obtain ⟨htarget, hx⟩ := both names
    exact ⟨fun v => (target.made_assign htarget v).keeps_of calls.calls,
      Expression.keeps_evaluate calls x hx,
      Statement.keeps_evaluate calls body hbody⟩

end AbstractScript
