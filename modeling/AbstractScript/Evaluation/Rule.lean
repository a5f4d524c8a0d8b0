import AbstractScript.Machine

/-!
# Rules

A rule evaluates a node to a completion. A part of a rule may end the whole rule with a completion:
a subexpression that does not complete normally does so, and a native error, which is reported, ends
the rule with an unknown value. Each rule is surrounded by two events, and while it runs it is on
the stack of rules.
-/
namespace AbstractScript

open Eval

/-- A part of a rule, which may end the rule with a completion. -/
abbrev Rule := ExceptT Completion Run

namespace Rule

variable {α : Type}

/-- The completion of a rule. -/
def complete (r : Rule Completion) : Run Completion := do
  match ← r.run with
  | .ok c => return c
  | .error c => return c

/-- A computation that does not end the rule. -/
def lift (x : Run α) : Rule α := ExceptT.lift x

/-- The value of a subexpression. A completion that is not normal ends the rule. -/
def value (x : Run Completion) : Rule Value := do
  let c ← lift x
  if c.isAbrupt then throw c else return c.getValue

/-- The values of subexpressions, evaluated in order. -/
def values : List (Run Completion) → Rule (List Value)
  | [] => return []
  | x :: rest => do
    let v ← value x
    return v :: (← values rest)

/-- The result of an operation. A native error is reported and ends the rule. -/
def native (op : Op α) : Rule α := do
  match ← lift op.attempt with
  | .ok a => return a
  | .error e =>
    lift (reportError e)
    throw .unknown

end Rule

/-- The completion of an operation. A native error is reported and makes the value unknown. -/
def Eval.recover (op : Op Completion) : Run Completion := (Rule.native op).complete

/-! ### Rules whose first step is known -/

namespace Rule

variable {α : Type} {f : α → Rule Completion} {a : α} {s : Setup} {m n : Machine}

/-- A rule is complete when its first part has ended it, or when the rest is. -/
theorem complete_bind (r : Rule α) :
    (r >>= f).complete = r.run >>= fun
      | .ok a => (f a).complete
      | .error c => return c := by
  rw [complete, ExceptT.run_bind, bind_assoc]
  refine bind_congr fun a => ?_
  cases a with
  | ok a => rfl
  | error c => exact pure_bind ..

theorem complete_bind_run {r : Rule α} (run : r.run s m = .ok (.ok a) n) :
    (r >>= f).complete s m = (f a).complete s n := by
  rw [complete_bind, bind_apply, run]

theorem complete_lift (x : Run Completion) : (lift x).complete = x := by
  show ((Except.ok <$> x : Run (Except Completion Completion)) >>= _) = x
  rw [map_eq_pure_bind, bind_assoc]
  exact bind_pure x

theorem run_lift_bind {β : Type} (x : Run α) (g : α → Rule β) :
    (lift x >>= g).run = x >>= fun a => (g a).run := by
  show ((Except.ok <$> x : Run (Except Completion α)) >>= _) = _
  rw [map_eq_pure_bind, bind_assoc]
  rfl

theorem complete_bind_lift (x : Run α) :
    (lift x >>= f).complete = x >>= fun a => (f a).complete := by
  rw [complete, run_lift_bind, bind_assoc]
  rfl

theorem complete_lift_bind {x : Run α} (run : x s m = .ok a n) :
    (lift x >>= f).complete s m = (f a).complete s n := by
  rw [complete_bind_lift, bind_apply, run]

theorem value_apply {x : Run Completion} {v : Value} (run : x s m = .ok (.normal v) n) :
    (value x).run s m = .ok (.ok v) n := by
  rw [value, run_lift_bind, bind_apply, run]
  rfl

theorem native_apply (op : Op α) (s : Setup) (m : Machine) :
    (native op).run s m = match op s m with
      | .ok a n => .ok (.ok a) n
      | .error e n => (do lift (reportError e); throw .unknown : Rule α).run s n := by
  rw [native, run_lift_bind, bind_apply, Op.attempt]
  cases op s m <;> rfl

theorem complete_native_bind {op : Op α} (run : op s m = .ok a n) :
    (native op >>= f).complete s m = (f a).complete s n :=
  complete_bind_run (by rw [native_apply, run])

end Rule

/-! ## Events and the stack of rules -/

/-- Surrounds a rule with its events. The last event shows the outcome of the rule; there is none if
the rule fails. -/
def Eval.bracket {α : Type} (kind : NodeKind) (span : Span) (outcome : α → Completion)
    (body : Run α) : Run α := do
  let file ← setup Setup.file
  let location := span.location file
  let depth := (← get).contexts.depth
  modify (·.pushFrame ⟨kind, location⟩)
  emit (.enter kind location depth)
  let a ← ensuring body Machine.popFrame
  emit (.leave kind location (← get).contexts.depth (outcome a))
  return a

/-- Fails, since a rule was given a node of another kind than its own. -/
def Rule.malformed {α : Type} (kind : NodeKind) (span : Span) : Rule α :=
  lift (throw (.malformedNode kind span.line span.column))

/-- What the core rule of a kind does with a node that is not its own. -/
def Rule.onForeignNode (kind : NodeKind) (span : Span) : Run Completion :=
  match kind with
  | .emptyStatement | .debuggerStatement => return .empty
  | .thisExpression => return .normal (← get).this
  | kind => (Rule.malformed kind span).complete

/-- What a handler does with a node, given the core rule of the node's kind. -/
def Handler.apply (h : Handler) (kind : NodeKind) (span : Span) (core : Run Completion) :
    Run Completion :=
  match h with
  | .idle => return .empty
  | .core k => if k = kind then core else Rule.onForeignNode k span

/-- Evaluates a node as the registry says. -/
def Eval.ruled (kind : NodeKind) (span : Span) (core : Run Completion) : Run Completion := do
  match ← setup (·.rules.handler? kind) with
  | some h => bracket kind span id (h.apply kind span core)
  | none => throw (.missingRule kind)

/-- The completion that the last event of a reference shows. -/
def Rule.referenceOutcome : Except Completion Reference → Completion
  | .ok _ => .empty
  | .error c => c

/-- Evaluates a node to a reference, with the events of its kind. -/
def Rule.referring (kind : NodeKind) (span : Span) (r : Rule Reference) : Rule Reference :=
  ExceptT.mk (bracket kind span referenceOutcome r.run)

end AbstractScript
