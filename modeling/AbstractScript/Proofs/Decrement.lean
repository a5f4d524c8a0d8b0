import AbstractScript.Proofs.ObliviousRules
import AbstractScript.Proofs.Soundness

/-!
# Decrement and subtraction

`--t` and `t -= 1` have rules of their own. Both read what `t` refers to and convert it to a number.
If that number can be determined, both assign the number less one and have it as their value, so that
they come to the same from every state (`Expression.decrement_eq_subtract`). If it cannot, `t -= 1`
assigns an unknown value, whereas `--t` leaves what `t` refers to as it is.
-/
namespace AbstractScript

open Eval

namespace Op

/-- Of the operands of a subtraction of one only the first needs a conversion. -/
theorem apply_subtract_one [Natives] (v : Value) :
    apply .subtract v (.number 1) =
      (do return .ofNumber? ((← toNumber? v).map (· - 1)) : Op Value) := by
  have one : (toNumber? (.number 1) : Op (Option Float)) = pure (some 1) := rfl
  cases v with
  | unknown => rfl
  | _ =>
    rw [apply, if_neg (by simp [Value.anyUnknown, Value.isUnknown]), applyKnown, numeric, one]
    simp only [pure_bind]
    refine bind_congr fun x => ?_
    cases x <;> rfl

end Op

namespace Rule

variable {α β : Type}

theorem native_map (g : α → β) (op : Op α) :
    native (do return g (← op) : Op β) = (do return g (← native op) : Rule β) := by
  refine ExceptT.ext (funext fun s => funext fun m => ?_)
  rw [native_apply, bind_apply, ExceptT.run_bind, bind_apply, native_apply]
  cases op s m <;> rfl

variable {s : Setup} {reference : Rule Reference}

/-- What an operand refers to, and the number that it converts to, if that can be determined. -/
def operand (reference : Rule Reference) : Rule (Reference × Option Float) := do
  let r ← reference
  let v ← native (Op.getValue r)
  return (r, ← native (Op.toNumber? v))

/-- Assigns a value, which is the value of the assignment. -/
def store (r : Reference) (v : Value) : Rule Completion := do
  native (Op.putValue r v)
  return .normal v

theorem isOblivious_store (r : Reference) (v : Value) : IsOblivious (store r v) :=
  .bind (.native (Op.built_putValue r v).isOblivious) fun _ => .pure _

/-- A decrement assigns the number less one, if it can be determined. -/
theorem update_decrement (reference : Rule Reference) :
    update .decrement true reference =
      operand reference >>= fun
        | (_, none) => return .unknown
        | (r, some x) => store r (.number (x - 1)) := by
  simp only [update, operand, bind_assoc, pure_bind]
  refine bind_congr fun r => bind_congr fun v => bind_congr fun x => ?_
  cases x <;> rfl

/-- Subtracting one assigns the number less one, or an unknown value if it cannot be determined. -/
theorem alike_assignment_subtract (h : IsOblivious reference) {x : Run Completion}
    (one : ∀ m, ∃ n, x s m = .ok (.normal (.number 1)) n ∧ n.standing = m.standing) :
    Alike s (assignment (.compound .subtract) reference x).run
      (operand reference >>= fun (r, x) => store r (.ofNumber? (x.map (· - 1)))).run := by
  have right : ∀ m, ∃ n, (value x).run s m = .ok (.ok (.number 1)) n ∧
      n.standing = m.standing := fun m => by
    obtain ⟨n, run, standing⟩ := one m
    exact ⟨n, value_apply run, standing⟩
  simp only [assignment, assigned, operand, bind_assoc, pure_bind]
  refine alike_bind (h.run.alike s) fun r => alike_bind ?_ fun v => ?_
  · exact (IsOblivious.native (Op.built_getValue r).isOblivious).run.alike s
  · refine .of_records right ?_
    show Alike s (native (Op.apply .subtract v (.number 1)) >>= store r).run _
    rw [Op.apply_subtract_one, native_map, bind_assoc]
    simp only [pure_bind]
    refine IsOblivious.run (.bind ?_ fun y => isOblivious_store r _) |>.alike s
    exact .native (Op.built_toNumber? v).isOblivious

end Rule

/-! ## Expressions -/

namespace Expression

variable {call : ScriptCall} {s : Setup} {t : Expression}

/-- A decrement, the events around it left out. -/
theorem outcome_decrement (calls : call.IsOblivious)
    (update : s.rules.handler? .updateExpression = some (.core .updateExpression)) (span : Span)
    (t : Expression) (m : Machine) :
    ((Expression.update span .decrement true t).evaluate call).outcome s m =
      (Rule.operand (t.refer call) >>= fun
        | (_, none) => return .unknown
        | (r, some x) => Rule.store r (.number (x - 1))).complete.outcome s m := by
  have target : Rule.Made True call.Calls (t.refer call) := made_refer t (absurd trivial)
  have decrement := MadeSince.complete (Rule.made_update .decrement true target)
  obtain ⟨k, standing, run⟩ := exists_outcome_ruled update span
    (Rule.update .decrement true (t.refer call)).complete m
  rw [← Rule.update_decrement]
  exact run.trans ((decrement.isOblivious calls.calls).alike s k m standing)

/-- A subtraction of one, the events around it left out. -/
theorem outcome_subtract (calls : call.IsOblivious)
    (assignment : s.rules.handler? .assignmentExpression = some (.core .assignmentExpression))
    (literal : s.rules.handler? .literal = some (.core .literal)) (span one : Span)
    (t : Expression) (m : Machine) :
    ((Expression.assignment span (.compound .subtract) t (.literal one (.number 1))).evaluate
        call).outcome s m =
      (Rule.operand (t.refer call) >>= fun (r, x) =>
        Rule.store r (.ofNumber? (x.map (· - 1)))).complete.outcome s m := by
  have given (m : Machine) : ∃ n, (Expression.literal one (.number 1)).evaluate call s m =
      .ok (.normal (.number 1)) n ∧ n.standing = m.standing := by
    obtain ⟨k, standing, run⟩ := exists_outcome_ruled literal one (return .normal (.number 1)) m
    obtain ⟨n, ran, left⟩ := exists_of_outcome_ok (run.trans (outcome_ok (pure_apply _ s k)))
    exact ⟨n, ran, left.trans standing⟩
  obtain ⟨k, standing, run⟩ := exists_outcome_ruled assignment span
    (Rule.assignment (.compound .subtract) (t.refer call)
      ((Expression.literal one (.number 1)).evaluate call)).complete m
  refine run.trans (outcome_bind_congr ?_ fun c k l _ same => ?_)
  · have target : Rule.Made True call.Calls (t.refer call) := made_refer t (absurd trivial)
    exact Rule.alike_assignment_subtract ⟨MadeSince.isOblivious target calls.calls⟩ given k m standing
  · cases c <;> exact (IsOblivious.pure _).alike s k l same

/-- **Decrementing is subtracting one.** Unless the number that the operand converts to cannot be
determined, `--t` and `t -= 1` come to the same from every state: the same value or failure, and the
same objects, environments and contexts. -/
theorem decrement_eq_subtract (depth : Nat) (t : Expression) (span span' one : Span) {s : Setup}
    (update : s.rules.handler? .updateExpression = some (.core .updateExpression))
    (assignment : s.rules.handler? .assignmentExpression = some (.core .assignmentExpression))
    (literal : s.rules.handler? .literal = some (.core .literal)) {m : Machine}
    (determined : ∀ r n,
      (Rule.operand (t.refer (callWithin depth))).run s m ≠ .ok (.ok (r, none)) n) :
    ((Expression.update span .decrement true t).evaluate (callWithin depth)).outcome s m =
      ((Expression.assignment span' (.compound .subtract) t (.literal one (.number 1))).evaluate
        (callWithin depth)).outcome s m := by
  have calls := isOblivious_callWithin depth
  rw [outcome_decrement calls update, outcome_subtract calls assignment literal]
  refine outcome_bind_congr (Rule.outcome_bind_congr rfl ?_) fun c k l _ same => ?_
  · rintro ⟨r, none | x⟩ k l run same
    · exact absurd run (determined r k)
    · exact (Rule.isOblivious_store r _).run.alike s k l same
  · cases c <;> exact (IsOblivious.pure _).alike s k l same

/-- If the number cannot be determined, both are unknown; `t -= 1` has assigned an unknown value, and
`--t` has assigned nothing. -/
theorem decrement_undetermined (depth : Nat) (t : Expression) (span span' one : Span) {s : Setup}
    (update : s.rules.handler? .updateExpression = some (.core .updateExpression))
    (assignment : s.rules.handler? .assignmentExpression = some (.core .assignmentExpression))
    (literal : s.rules.handler? .literal = some (.core .literal)) {m n : Machine} {r : Reference}
    (undetermined :
      (Rule.operand (t.refer (callWithin depth))).run s m = .ok (.ok (r, none)) n) :
    ((Expression.update span .decrement true t).evaluate (callWithin depth)).outcome s m =
        (.ok .unknown, n.standing) ∧
      ((Expression.assignment span' (.compound .subtract) t (.literal one (.number 1))).evaluate
          (callWithin depth)).outcome s m = (Rule.store r .unknown).complete.outcome s n := by
  have calls := isOblivious_callWithin depth
  rw [outcome_decrement calls update, outcome_subtract calls assignment literal]
  refine ⟨outcome_ok ?_, ?_⟩
  · rw [Rule.complete_bind_run undetermined]
    rfl
  · rw [outcome, Rule.complete_bind_run undetermined]
    rfl

/-! ## A value that a function of the program converts -/

open Analyzer

/-- `var x = ...;` -/
def declaration (x : Expression) : Program where
  span := default
  file := "decrement.js"
  body := [.varDeclaration default [.mk default ⟨default, "x"⟩ (some x)]]

/-- The setup for the declaration of a variable. -/
def declarationSetup (x : Expression) : Setup := ({} : Analyzer).setup (declaration x)

/-- The machine after the declaration of a variable. -/
def declared (x : Expression) : Machine :=
  machineAfter {} (declaration x) (declaration x).body

/-- `{valueOf: function () { return true; }}` -/
def convertedByScript : Expression :=
  .object default [.value default "valueOf"
    (.function (.mk default none [] default [.returns default (some (boolAt true))]))]

/-- `--x` -/
def decrementVariable : Expression := .update default .decrement true (nameAt "x")

/-- `x -= 1` -/
def subtractFromVariable : Expression :=
  .assignment default (.compound .subtract) (nameAt "x") (.literal default (.number 1))

/-- The number of a truth value can be determined. -/
theorem decrement_eq_subtract_truthValue :
    (declarationSetup (boolAt true)).rules.handler? .updateExpression =
        some (.core .updateExpression) ∧
      (declarationSetup (boolAt true)).rules.handler? .assignmentExpression =
        some (.core .assignmentExpression) ∧
      (declarationSetup (boolAt true)).rules.handler? .literal = some (.core .literal) ∧
      (∀ r n, (Rule.operand ((nameAt "x").refer (callWithin 1))).run (declarationSetup (boolAt true))
        (declared (boolAt true)) ≠ .ok (.ok (r, none)) n) ∧
      (decrementVariable.evaluate (callWithin 1)).outcome (declarationSetup (boolAt true))
          (declared (boolAt true)) =
        (subtractFromVariable.evaluate (callWithin 1)).outcome (declarationSetup (boolAt true))
          (declared (boolAt true)) := by
  have determined : ∀ r n, (Rule.operand ((nameAt "x").refer (callWithin 1))).run
      (declarationSetup (boolAt true)) (declared (boolAt true)) ≠ .ok (.ok (r, none)) n := by
    -- the operand is evaluated, and its number is known
    have seen : ((EStateM.run' ((Rule.operand ((nameAt "x").refer (callWithin 1))).run
        (declarationSetup (boolAt true))) (declared (boolAt true))).bind Except.toOption).any
          (·.2.isSome) = true := by
      decide +kernel
    intro r n run
    delta EStateM.run' EStateM.run at seen
    rw [run] at seen
    cases seen
  exact ⟨rfl, rfl, rfl, determined,
    decrement_eq_subtract 1 (nameAt "x") default default default rfl rfl rfl determined⟩

/-- The number of an object with a `valueOf` of the program cannot be determined. After `--x` the
variable still holds the object, after `x -= 1` it is unknown. -/
theorem decrement_ne_subtract_convertedByScript :
    ∃ o, ((declared convertedByScript).realm.object Realm.globalObject).own? "x" =
        some (.data (.object o) true true false) ∧
      (((decrementVariable.evaluate (callWithin 1)).after (declarationSetup convertedByScript)
          (declared convertedByScript)).realm.object Realm.globalObject).own? "x" =
        some (.data (.object o) true true false) ∧
      (((subtractFromVariable.evaluate (callWithin 1)).after (declarationSetup convertedByScript)
          (declared convertedByScript)).realm.object Realm.globalObject).own? "x" =
        some (.data .unknown true true false) :=
  ⟨⟨58⟩, by decide +kernel, by decide +kernel, by decide +kernel⟩

end Expression

end AbstractScript
