import AbstractScript.Proofs.DecidingBindings

/-!
# Rules for expressions decide

Rule by rule: if the parts of an expression decide, then its rule decides. The branches for unknown
operands are never reached. A call enters a context that is in no ambiguous block, and runs direct
code or a harmless core function.
-/
namespace AbstractScript

open Eval Realm

variable {s : Setup} {P : Prop}

/-- The evaluation of a part of a node decides, with a harmless completion. -/
abbrev Eval.Harmless (s : Setup) (x : Run Completion) : Prop :=
  Decides s True x Completion.IsHarmless

/-! ## Expressions -/

namespace Rule

variable {x y : Run Completion} {reference : Rule Reference}

theorem read_decides (plain : Decides s True reference Reference.IsPlain) :
    Decides s True (read reference) Completion.IsHarmless := by
  refine .bind plain fun r => .bind (.native (Op.getValue_decides And.right)) fun v => ?_
  exact .pure fun given => .normal given.2

theorem typeOfReference_decides (plain : Decides s True reference Reference.IsPlain) :
    Decides s True (typeOfReference reference) Completion.IsHarmless := by
  refine .bind plain fun r => ?_
  split
  · exact .pure fun _ => .normal rfl
  · refine .bind (.native (Op.getValue_decides And.right)) fun v => ?_
    refine .bind (.native (Op.typeOf_decides fun given => ?_)) fun w => ?_
    · exact Value.isDefinite_of_isHarmless given.2
    · exact .pure fun given => .normal (Value.isHarmless_of_isPrimitive given.2)

theorem unary_decides {operator : UnaryOperator} (allowed : operator ≠ .delete) (isTarget : Bool)
    (plain : Decides s True reference Reference.IsPlain) (hx : Eval.Harmless s x) :
    Decides s True (unary operator isTarget reference x) Completion.IsHarmless := by
  cases operator
  case delete => exact (allowed rfl).elim
  case typeOf =>
    simp only [unary]
    split
    · exact typeOfReference_decides plain
    · refine .bind (.value hx) fun v => ?_
      refine .bind (.native (Op.typeOf_decides fun given => ?_)) fun w => ?_
      · exact Value.isDefinite_of_isHarmless given.2
      · exact .pure fun given => .normal (Value.isHarmless_of_isPrimitive given.2)
  case void => exact .bind (.value hx) fun _ => .pure fun _ => .normal rfl
  case logicalNot =>
    refine .bind (.value hx) fun v => .pure fun given => .normal ?_
    obtain ⟨b, hb⟩ := Value.exists_toBool? (Value.isDefinite_of_isHarmless given.2)
    rw [hb]
    rfl
  case minus | plus | bitwiseNot =>
    refine .bind (.value hx) fun v => ?_
    refine .bind (.native (Op.numericUnary_decides _ fun given => ?_)) fun w => ?_
    · exact Value.isDefinite_of_isHarmless given.2
    · exact .pure fun given => .normal (Value.isHarmless_of_isPrimitive given.2)

theorem update_decides (operator : UpdateOperator) (leading : Bool)
    (plain : Decides s True reference Reference.IsPlain) :
    Decides s True (update operator leading reference) Completion.IsHarmless := by
  refine .bind plain fun r => .bind (.native (Op.getValue_decides And.right)) fun v => ?_
  refine .bind (.native (Op.toNumber?_decides fun given => ?_)) fun n => ?_
  · exact Value.isDefinite_of_isHarmless given.2
  · split
    · exact .pure fun ⟨_, m, same⟩ => nomatch same
    · refine .bind (.native (Op.putValue_decides (fun given => given.1.1.2.named) fun _ => rfl)) fun _ => ?_
      exact .pure fun _ => .normal rfl

theorem binary_decides {operator : BinaryOperator} (allowed : operator.needsObject = false)
    (hx : Eval.Harmless s x) (hy : Eval.Harmless s y) :
    Decides s True (binary operator x y) Completion.IsHarmless := by
  refine .bind (.value hx) fun a => .bind (.value hy.always) fun b => ?_
  refine .bind (.native (Op.apply_decides allowed (fun given => ?_) fun given => ?_)) fun v => ?_
  · exact Value.isDefinite_of_isHarmless given.1.2
  · exact Value.isDefinite_of_isHarmless given.2
  · exact .pure fun given => .normal (Value.isHarmless_of_isPrimitive given.2)

theorem assignment_decides {operator : AssignmentOperator}
    (allowed : ∀ op, operator = .compound op → op.needsObject = false)
    (plain : Decides s True reference Reference.IsPlain) (hx : Eval.Harmless s x) :
    Decides s True (assignment operator reference x) Completion.IsHarmless := by
  refine .bind plain fun r => ?_
  have value : Decides s (True ∧ r.IsPlain) (assigned operator r x) fun v => v.isHarmless = true := by
    cases operator with
    | assign => exact .value hx.always
    | compound op =>
      refine .bind (.native (Op.getValue_decides And.right)) fun old => ?_
      refine .bind (.value hx.always) fun v => ?_
      refine .native ((Op.apply_decides (allowed op rfl) (fun given => ?_) fun given => ?_).gives
        fun _ _ => Value.isHarmless_of_isPrimitive)
      · exact Value.isDefinite_of_isHarmless given.1.2
      · exact Value.isDefinite_of_isHarmless given.2
  refine .bind value fun v => ?_
  refine .bind (.native (Op.putValue_decides (fun given => given.1.2.named) And.right)) fun _ => ?_
  exact .pure fun given => .normal given.1.2

theorem logical_decides (operator : LogicalOperator) (span leftSpan : Span)
    (hx : Eval.Harmless s x) (hy : Eval.Harmless s y) :
    Decides s True (logical operator span leftSpan x y) Completion.IsHarmless := by
  refine .bind (.value hx) fun v => ?_
  split
  · split
    · exact .pure fun given => .normal given.2
    · exact .bind (.value hy.always) fun w => .pure fun given => .normal given.2
  next unknown =>
    refine .absurd (.bind (.lift (.aside (markUnknown_keeps leftSpan))) fun _ =>
      .bind (.lift (keeps_ambiguously span hy.keeps)) fun _ => .pure _) fun given => ?_
    obtain ⟨b, hb⟩ := Value.exists_toBool? (Value.isDefinite_of_isHarmless given.2)
    exact nomatch unknown.symm.trans hb

theorem conditional_decides (span testSpan : Span) {test : Run Completion}
    (htest : Eval.Harmless s test) (hx : Eval.Harmless s x) (hy : Eval.Harmless s y) :
    Decides s True (conditional span testSpan test x y) Completion.IsHarmless := by
  refine .bind (.value htest) fun v => ?_
  split
  · exact .lift hx.always
  · exact .lift hy.always
  next unknown =>
    refine .absurd (.bind (.lift (.aside (markUnknown_keeps testSpan))) fun _ =>
      .bind (.lift (keeps_ambiguously span (.bind hx.keeps fun _ => hy.keeps))) fun _ => .pure _)
      fun given => ?_
    obtain ⟨b, hb⟩ := Value.exists_toBool? (Value.isDefinite_of_isHarmless given.2)
    exact nomatch unknown.symm.trans hb

theorem sequence_decides {xs : List (Run Completion)} (h : ∀ x ∈ xs, Eval.Harmless s x) :
    Decides s True (sequence xs) Completion.IsHarmless := by
  refine .bind (.values h) fun vs => .pure fun given => .normal ?_
  rw [List.getLastD_eq_getLast?]
  cases last : vs.getLast? with
  | none => rfl
  | some v => exact given.2 v (List.mem_of_getLast? last)

/-- What is called has no receiver. -/
theorem callee_decides (isTarget : Bool) (plain : Decides s True reference Reference.IsPlain)
    (hx : Eval.Harmless s x) : Decides s True (callee isTarget reference x) fun f =>
      f.1.isHarmless = true ∧ f.2 = .undefined := by
  unfold callee
  split
  · refine .bind plain fun r => .bind (.native (Op.getValue_decides And.right)) fun f => ?_
    refine .bind (receiver_decides fun given => given.1.2.named) fun this => ?_
    exact .pure fun given => ⟨given.1.2, given.2⟩
  · exact .bind (.value hx) fun f => .pure fun given => ⟨given.2, rfl⟩

end Rule

/-! ## Calls -/

/-- Calls of direct code without a receiver decide. -/
structure ScriptCall.Decides (s : Setup) (call : ScriptCall) : Prop where
  runs : call.Runs True fun _ => Machine.Reports
  decides : ∀ (P : Prop) (f : ObjectId) (closure : Closure) (arguments : List Value),
    (P → closure.code.isIn .direct = true) → (P → ∀ v ∈ arguments, v.isHarmless = true) →
      Eval.Decides s P (call f closure .undefined arguments) Completion.IsHarmless

namespace Eval

variable {f : ObjectId} {arguments : List Value} {call : ScriptCall}

theorem recover_decides {op : Op Completion} (h : Decides s P op Completion.IsHarmless) :
    Decides s P (recover op) Completion.IsHarmless := Rule.Decides.complete (.native h)

theorem markInvoked_decides (f : ObjectId) : Decides s P (markInvoked f) fun _ => True := by
  refine .modify (fun m => ?_) fun _ m hm => ?_
  · unfold Machine.markInvoked
    split <;> rfl
  · unfold Machine.markInvoked
    split
    · exact hm
    · exact hm.tick ⟨hm.now.realm, hm.now.contexts, hm.now.exits⟩ rfl rfl rfl rfl rfl

theorem callFunction_decides (calls : call.Decides s)
    (harmless : P → (Value.object f).isHarmless = true)
    (known : P → ∀ v ∈ arguments, v.isHarmless = true) :
    Decides s P (callFunction call f .undefined arguments) Completion.IsHarmless := by
  refine (markInvoked_decides f).bind fun _ => (Decides.object f).bind fun record => ?_
  -- what is called is a function of the program or a harmless one of the core
  have does {c : Callable} (callable : record.callable = some c)
      (given : (P ∧ True) ∧ ∃ r : Realm, r.Definite ∧ record = r.object f) :
      (∃ closure, c = .script closure ∧ closure.code.isIn .direct = true) ∨
        ∃ name g construct, c = .native name (some (.core g)) construct ∧ g.isHarmless = true := by
    obtain ⟨⟨given, -⟩, r, hr, rfl⟩ := given
    exact hr.callable_of_isHarmless (harmless given) callable
  split
  next name native construct callable =>
    split
    next unknown =>
      refine .pure fun given => ?_
      rw [Bool.or_eq_true, Value.anyUnknown, List.any_eq_true] at unknown
      rcases unknown with this | ⟨v, hv, unknown⟩
      · cases this
      · rw [Value.isUnknown_of_isDefinite (Value.isDefinite_of_isHarmless (known given.1.1 v hv))]
          at unknown
        cases unknown
    next =>
      by_cases h : ∃ g : CoreFunction, native = .core g ∧ g.isHarmless = true
      · obtain ⟨g, rfl, hg⟩ := h
        exact recover_decides ((Native.call_decides hg fun given => known given.1.1).map
          fun v _ hv => .normal hv)
      -- no other native function is called
      · refine .absurd (keeps_recover (.map _ (Native.isQuiet_callWithin ..).reports)) fun given => h ?_
        rcases does callable given with ⟨closure, same, -⟩ | ⟨_, g, _, same, hg⟩
        · cases same
        · cases same
          exact ⟨g, rfl, hg⟩
  · exact recover_decides (.throw _)
  next closure callable =>
    refine calls.decides _ f closure arguments (fun given => ?_) fun given => known given.1.1
    rcases does callable given with ⟨closure, same, direct⟩ | ⟨_, g, _, same, -⟩
    · cases same
      exact direct
    · cases same
  · exact recover_decides (.throw _)

/-- A call is left with the contexts from before it, and there are no possible exits to keep. -/
theorem inContext_decides {c : Context} (plain : c.ambiguity = 0) {x : Run Completion}
    (h : Decides s P x Completion.IsHarmless) :
    Decides s P (inContext c x) Completion.IsHarmless := by
  refine Decides.mark.bind fun mark => ?_
  refine Decides.bind (R := fun _ => True) (.modify (fun _ => rfl) fun _ m hm => ?_) fun _ => ?_
  · exact hm.withContexts (List.forall_mem_cons.2 ⟨plain, hm.now.contexts⟩)
  · refine .ensuring (h.of fun given => given.1.1) (fun m => ?_) fun _ m hm => ?_
    · exact Machine.diagnostics_dropClaimed m.popContext mark _
    · have popped : m.popContext.Definite :=
        hm.withContexts fun c hc => hm.now.contexts c (List.mem_of_mem_tail hc)
      have none : m.exits = #[] := hm.now.exits
      rw [Machine.dropClaimed, if_pos]
      · exact popped
      · show m.exits.size ≤ mark
        simp [none]

theorem enterBody_decides {code : FunctionCode} (e : EnvId)
    (direct : P → code.isIn .direct = true) (known : P → ∀ v ∈ arguments, v.isHarmless = true) :
    Decides s P (enterBody code e arguments) fun _ => True := by
  refine Decides.bind (.create fun given level => ?_) fun o => ?_
  · exact ObjectRecord.fresh_argumentsRecord level fun v hv =>
      Value.isDefinite_of_isHarmless (known given v hv)
  · refine Decides.bind (.attempt (Q := fun _ => True) ?_) fun result => ?_
    · refine (Op.bindParameters_decides e _ fun given => known given.1).bind fun _ => ?_
      refine Op.instantiate_decides e (fun given => ?_) fun given p hp => ?_
      · exact code.isIn_eq ▸ direct given.1.1
      · cases hp
        exact given.1.2
    · split
      · exact .pure fun _ => trivial
      · exact reportError_diagnosed _

theorem isHarmless_callResult {c : Completion} (h : c.IsHarmless) :
    (callResult c false).IsHarmless := by
  unfold callResult
  split
  · exact h
  · rw [if_neg (by simp)]
    split
    · exact .normal h.getValue
    · exact .normal rfl

theorem callScript_decides {body : Run Completion} {closure : Closure}
    (direct : P → closure.code.isIn .direct = true)
    (known : P → ∀ v ∈ arguments, v.isHarmless = true)
    (h : Decides s P body Completion.IsHarmless) :
    Decides s P (callScript body f closure .undefined arguments) Completion.IsHarmless := by
  have receiver : Decides s P (scriptReceiver .undefined) fun _ => True := .pure fun _ => trivial
  refine receiver.bind fun this => ?_
  refine Decides.bind (.createEnvironment fun _ => Environment.definite_fresh _) fun e => ?_
  refine inContext_decides rfl ?_
  refine (enterBody_decides e (fun given => direct given.1.1) fun given => known given.1.1).bind
    fun _ => ?_
  refine (h.of fun given => given.1.1.1).bind fun c => Decides.get.bind fun m => ?_
  refine .pure fun given => ?_
  rw [given.2.returnUnknown]
  exact isHarmless_callResult given.1.2

end Eval

namespace Rule

theorem call_decides {script : ScriptCall} (calls : script.Decides s) (text : String)
    {callee : Rule (Value × Value)} {arguments : List (Run Completion)}
    (hf : Decides s True callee fun f => f.1.isHarmless = true ∧ f.2 = .undefined)
    (hxs : ∀ x ∈ arguments, Eval.Harmless s x) :
    Decides s True (call script text callee arguments) Completion.IsHarmless := by
  refine .bind hf fun f => .bind (.values fun x hx => (hxs x hx).always) fun vs => ?_
  obtain ⟨f, this⟩ := f
  split
  next unknown =>
    refine .pure fun given => ?_
    rw [Value.isUnknown_of_isDefinite (Value.isDefinite_of_isHarmless given.1.2.1)] at unknown
    cases unknown
  · split
    next o same =>
      obtain rfl : f = .object o := same
      refine .bind (.lift (.object o)) fun record => ?_
      split
      -- the functions of a direct program are called without a receiver
      · by_cases none : this = .undefined
        · subst none
          exact .lift (callFunction_decides calls (fun given => given.1.1.2.1) (·.1.2))
        · exact .absurd (.lift (calls.runs.keeps_callFunction ..)) fun given => none given.1.1.2.2
      · exact .native (.throw _)
    · exact .native (.throw _)

end Rule

end AbstractScript
