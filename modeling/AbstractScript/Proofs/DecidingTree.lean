import AbstractScript.Proofs.DecidingStatements

/-!
# Direct code decides

By induction over syntax trees, the evaluation of every node of direct code decides, and by induction
over the depth of calls so does every call of a function with direct code
(`callWithin_decides`). A call that is too deep is reported.
-/
namespace AbstractScript

open Eval

/-! ## Expressions -/

/-- A literal is a primitive. -/
theorem LiteralValue.isHarmless_value (v : LiteralValue) : v.value.isHarmless = true := by
  cases v <;> rfl

variable {s : Setup} {call : ScriptCall} (rules : s.rules = .core)
  (evaluated : s.options.evaluateLoops = true) (calls : call.Decides s)

include rules calls

set_option linter.unusedSectionVars false

mutual

theorem Expression.evaluate_decides (x : Expression) (h : x.isIn .direct = true) :
    Harmless s (x.evaluate call) := by
  cases x with
  | literal span v => exact .ruled rules (.pure fun _ => .normal v.isHarmless_value) ..
  | identifier id =>
    have plain : id.name ≠ "Function" := of_decide_eq_true h
    exact .ruled rules (Rule.Decides.complete (Rule.read_decides (Rule.resolve_isPlain plain))) ..
  | function code =>
    have direct : code.isIn .direct = true := h
    refine .ruled rules (.bind (createFunctionValue_decides fun _ => direct) fun f => ?_) ..
    exact .pure fun given => .normal (Value.isHarmless_of_new given.2)
  | unary span operator x =>
    simp only [Expression.isIn, Bool.and_eq_true] at h
    obtain ⟨allowed, hx⟩ := h
    exact .ruled rules (Rule.Decides.complete (Rule.unary_decides (of_decide_eq_true allowed) _
      (Expression.refer_decides x hx) (Expression.evaluate_decides x hx))) ..
  | update span operator leading x =>
    have hx : x.isIn .direct = true := h
    exact .ruled rules (Rule.Decides.complete
      (Rule.update_decides operator leading (Expression.refer_decides x hx))) ..
  | binary span operator x y =>
    simp only [Expression.isIn, Bool.and_eq_true] at h
    obtain ⟨allowed, hx, hy⟩ := h
    exact .ruled rules (Rule.Decides.complete (Rule.binary_decides ((Bool.not_eq_true' _).mp allowed)
      (Expression.evaluate_decides x hx) (Expression.evaluate_decides y hy))) ..
  | assignment span operator x y =>
    simp only [Expression.isIn, Bool.and_eq_true] at h
    obtain ⟨allowed, hx, hy⟩ := h
    refine .ruled rules (Rule.Decides.complete (Rule.assignment_decides ?_
      (Expression.refer_decides x hx) (Expression.evaluate_decides y hy))) ..
    rintro op rfl
    exact (Bool.not_eq_true' _).mp allowed
  | logical span operator x y =>
    simp only [Expression.isIn, Bool.and_eq_true] at h
    obtain ⟨-, hx, hy⟩ := h
    exact .ruled rules (Rule.Decides.complete (Rule.logical_decides operator _ _
      (Expression.evaluate_decides x hx) (Expression.evaluate_decides y hy))) ..
  | conditional span test x y =>
    simp only [Expression.isIn, Bool.and_eq_true] at h
    obtain ⟨-, htest, hx, hy⟩ := h
    exact .ruled rules (Rule.Decides.complete (Rule.conditional_decides _ _
      (Expression.evaluate_decides test htest) (Expression.evaluate_decides x hx)
      (Expression.evaluate_decides y hy))) ..
  | call span f xs =>
    simp only [Expression.isIn, Bool.and_eq_true] at h
    obtain ⟨-, hf, hxs⟩ := h
    exact .ruled rules (Rule.Decides.complete (Rule.call_decides calls _
      (Rule.callee_decides _ (Expression.refer_decides f hf) (Expression.evaluate_decides f hf))
      (evaluateAll_decides xs hxs))) ..
  | sequence span xs =>
    exact .ruled rules (Rule.Decides.complete (Rule.sequence_decides (evaluateAll_decides xs h))) ..
  -- other expressions are not direct
  | _ => cases h

/-- Direct code refers to nothing but names. -/
theorem Expression.refer_decides (x : Expression) (h : x.isIn .direct = true) :
    Rule.Decides s True (x.refer call) Reference.IsPlain := by
  cases x with
  | identifier id =>
    have plain : id.name ≠ "Function" := of_decide_eq_true h
    exact .referring (Rule.resolve_isPlain plain) ..
  | member | index => cases h
  | _ => exact .referring (.lift (.throw _)) ..

theorem evaluateAll_decides (xs : List Expression) (h : allAreIn .direct xs = true) :
    ∀ y ∈ evaluateAll call xs, Harmless s y := by
  cases xs with
  | nil => exact fun y hy => nomatch hy
  | cons x rest =>
    obtain ⟨hx, hrest⟩ := Bool.and_eq_true_iff.1 h
    exact List.forall_mem_cons.2 ⟨Expression.evaluate_decides x hx, evaluateAll_decides rest hrest⟩

end

theorem evaluateOption_decides (x : Option Expression) (h : optionIsIn .direct x = true) :
    ∀ y, evaluateOption call x = some y → Harmless s y := by
  cases x with
  | none => rintro y ⟨⟩
  | some x =>
    rintro y ⟨⟩
    exact Expression.evaluate_decides rules calls x h

theorem evaluateTest_decides (x : Option Expression) (h : optionIsIn .direct x = true) :
    ∀ t, evaluateTest call x = some t → Harmless s t.2 := by
  cases x with
  | none => exact fun t ht => nomatch ht
  | some x =>
    rintro t ⟨⟩
    exact Expression.evaluate_decides rules calls x h

theorem Declarator.initials_decide (ds : List Declarator)
    (h : declaratorsAreIn .direct ds = true) :
    ∀ d ∈ Declarator.initials call ds, ∀ x, d.2 = some x → Harmless s x := by
  induction ds with
  | nil => exact fun d hd => nomatch hd
  | cons d rest ih =>
    obtain ⟨span, id, x⟩ := d
    obtain ⟨hx, hrest⟩ := Bool.and_eq_true_iff.1 h
    exact List.forall_mem_cons.2 ⟨evaluateOption_decides rules calls x hx, ih hrest⟩

theorem ForStart.begin_decides (start : Option ForStart) (h : startIsIn .direct start = true) :
    Rule.Decides s True (ForStart.begin call start) fun _ => True := by
  rcases start with _ | ⟨span, ds⟩ | x
  · exact .pure fun _ => trivial
  · exact Rule.discard_decides (Rule.Decides.complete
      (Rule.varDeclaration_decides (Declarator.initials_decide rules calls ds h)))
  · exact Rule.discard_decides (Expression.evaluate_decides rules calls x h)

/-! ## Statements -/

include evaluated

mutual

theorem Statement.evaluate_decides (st : Statement) (h : st.isIn .direct = true) :
    Harmless s (st.evaluate call) := by
  cases st with
  | expression span x =>
    exact .ruled rules (Rule.Decides.complete
      (Rule.expression_decides (Expression.evaluate_decides rules calls x h))) ..
  | block b => exact .ruled rules (Block.evaluate_decides b h) ..
  | empty span | debugger span => exact .ruled rules (.pure fun _ => .empty rfl) ..
  | returns span x =>
    exact .ruled rules (Rule.Decides.complete
      (Rule.returns_decides (evaluateOption_decides rules calls x h))) ..
  | breaks span label | continues span label => exact .ruled rules (.pure fun _ => .empty rfl) ..
  | labeled span label body =>
    exact .ruled rules (labeled_decides _ _ (Statement.evaluate_decides body h)) ..
  | branch span test consequent alternate =>
    simp only [Statement.isIn, Bool.and_eq_true] at h
    obtain ⟨-, htest, hconsequent, halternate⟩ := h
    exact .ruled rules (Rule.Decides.complete (Rule.branch_decides _ _
      (Expression.evaluate_decides rules calls test htest)
      (Statement.evaluate_decides consequent hconsequent)
      (evaluateAlternate_decides alternate halternate))) ..
  | switch span x cs =>
    simp only [Statement.isIn, Bool.and_eq_true] at h
    obtain ⟨-, hx, hcs⟩ := h
    exact .ruled rules (Rule.Decides.complete (Rule.switch_decides _ _
      (Expression.evaluate_decides rules calls x hx) (SwitchCase.cases_decide cs hcs))) ..
  | throws span x =>
    exact .ruled rules (Rule.Decides.complete
      (Rule.throws_decides (Expression.evaluate_decides rules calls x h))) ..
  | tryCatch span b handler finalizer =>
    simp only [Statement.isIn, Bool.and_eq_true] at h
    obtain ⟨-, hb, hhandler, hfinalizer⟩ := h
    exact .ruled rules (tryBlock_decides (Block.evaluate_decides b hb)
      (CatchClause.handling_decides handler hhandler)
      (evaluateFinalizer_decides finalizer hfinalizer)) ..
  | whileLoop span test body | doWhileLoop span test body =>
    simp only [Statement.isIn, Bool.and_eq_true] at h
    obtain ⟨-, htest, hbody⟩ := h
    refine .ruled rules (Rule.Decides.complete (Rule.loop_decides evaluated _
      (.pure fun _ => trivial) ⟨?_, ?_, ?_⟩)) ..
    · rintro t ⟨⟩
      exact Expression.evaluate_decides rules calls test htest
    · exact fun x hx => nomatch hx
    · exact Statement.evaluate_decides body hbody
  | forLoop span start test update body =>
    simp only [Statement.isIn, Bool.and_eq_true] at h
    obtain ⟨-, hstart, htest, hupdate, hbody⟩ := h
    exact .ruled rules (Rule.Decides.complete (Rule.loop_decides evaluated _
      (ForStart.begin_decides rules calls start hstart)
      ⟨evaluateTest_decides rules calls test htest, evaluateOption_decides rules calls update hupdate,
        Statement.evaluate_decides body hbody⟩)) ..
  -- the names of an object are not visited by a direct program
  | forInLoop span target x body => cases h
  | varDeclaration span ds =>
    exact .ruled rules (Rule.Decides.complete
      (Rule.varDeclaration_decides (Declarator.initials_decide rules calls ds h))) ..
  | functionDeclaration code => exact .ruled rules (.pure fun _ => .empty rfl) ..

theorem evaluateAlternate_decides (st : Option Statement) (h : alternateIsIn .direct st = true) :
    ∀ y, evaluateAlternate call st = some y → Harmless s y := by
  cases st with
  | none => exact fun y hy => nomatch hy
  | some st =>
    rintro y ⟨⟩
    exact Statement.evaluate_decides st h

theorem Statement.steps_decide (ss : List Statement) (h : bodyIsIn .direct ss = true) :
    ∀ step ∈ Statement.steps call ss, Harmless s step.run := by
  cases ss with
  | nil => exact fun step hstep => nomatch hstep
  | cons st rest =>
    obtain ⟨hst, hrest⟩ := Bool.and_eq_true_iff.1 h
    exact List.forall_mem_cons.2
      ⟨Statement.evaluate_decides st hst, Statement.steps_decide rest hrest⟩

theorem Block.evaluate_decides (b : Block) (h : b.isIn .direct = true) :
    Harmless s (b.evaluate call) := by
  cases b with
  | mk span ss => exact Step.runAll_decides (Statement.steps_decide ss h) fun _ => .empty rfl

theorem evaluateFinalizer_decides (b : Option Block) (h : finalizerIsIn .direct b = true) :
    ∀ y, evaluateFinalizer call b = some y → Harmless s y := by
  cases b with
  | none => exact fun y hy => nomatch hy
  | some b =>
    rintro y ⟨⟩
    exact Block.evaluate_decides b h

theorem CatchClause.handling_decides (clause : Option CatchClause)
    (h : handlerIsIn .direct clause = true) :
    ∀ y, CatchClause.handling call clause = some y → Handling.Decides s y := by
  rcases clause with _ | ⟨span, id, b⟩
  · exact fun y hy => nomatch hy
  · rintro y ⟨⟩
    have body := Block.evaluate_decides b h
    exact ⟨fun v => reports_handle id.name body.keeps v, fun P v => handle_decides id.name body⟩

theorem SwitchCase.cases_decide (cs : List SwitchCase) (h : casesAreIn .direct cs = true) :
    ∀ c ∈ SwitchCase.cases call cs, c.Decides s := by
  rcases cs with _ | ⟨⟨span, test, ss⟩, rest⟩
  · exact fun c hc => nomatch hc
  · obtain ⟨htest, h⟩ := Bool.and_eq_true_iff.1 h
    obtain ⟨hss, hrest⟩ := Bool.and_eq_true_iff.1 h
    exact List.forall_mem_cons.2
      ⟨⟨evaluateTest_decides rules calls test htest, Statement.steps_decide ss hss⟩,
        SwitchCase.cases_decide rest hrest⟩

end

omit calls

/-! ## Calls -/

/-- Calls of direct code decide, however deep they are. -/
theorem Eval.callWithin_decides (depth : Nat) : (callWithin depth).Decides s := by
  induction depth with
  | zero =>
    refine ⟨callWithin_runs 0, fun P f closure arguments direct known => ?_⟩
    refine Decides.bind (R := fun _ => False) reportMaxRecursion_diagnosed fun _ => ?_
    exact .absurd (.pure _) And.right
  | succ depth ih =>
    refine ⟨callWithin_runs (depth + 1), fun P f closure arguments direct known => ?_⟩
    by_cases code : closure.code.isIn .direct = true
    · refine callScript_decides direct known (Step.runAll_decides ?_ fun _ => .empty rfl)
      exact Statement.steps_decide rules evaluated ih _ (closure.code.isIn_eq ▸ code)
    · exact .absurd (callWithin_runs (depth + 1) f closure _ _ fun h => absurd trivial h)
        fun given => code (direct given)

end AbstractScript
