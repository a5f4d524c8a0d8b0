import AbstractScript.Evaluation.Program
import AbstractScript.Proofs.Cost
import AbstractScript.Proofs.LawfulStatements

/-!
# Evaluation is lawful

By induction over syntax trees, the evaluation of every node is lawful at its cost, if the functions
that are written in it may be evaluated. By induction over the depth of calls so is every call of a
function of the program (`Eval.lawful_callWithin`), as long as there is room for the contexts.
-/
namespace AbstractScript

open Eval World

variable {L : Law} {w : World} {k : Nat} {call : ScriptCall}

/-- Functions of two parts may be evaluated if all of them may. -/
theorem World.holds_append {codes more : List FunctionCode} (h : w.Holds (codes ++ more)) :
    w.Holds codes ∧ w.Holds more :=
  ⟨fun code hcode => h code (List.mem_append_left more hcode),
    fun code hcode => h code (List.mem_append_right codes hcode)⟩

theorem World.holds_code {code : FunctionCode} (h : w.Holds code.functions) : w.Holds code :=
  h code code.mem_functions

variable (calls : call.Lawful L k w)

include calls

set_option linter.unusedSectionVars false

mutual

theorem Expression.lawful_evaluate (x : Expression) (h : w.Holds x.functions) :
    (x.evaluate call).Lawful L (x.cost L.loops k) w := by
  cases x with
  | literal span v => exact lawful_ruled _ _ (.pure (by cases v <;> trivial))
  | identifier id =>
    exact lawful_ruled _ _ (Rule.Lawful.complete (Rule.lawful_read (Rule.lawful_resolve _)))
  | this span =>
    exact lawful_ruled _ _ (.get_bind_at fun _ valid _ => .pure valid valid.holds_this)
  | array span xs =>
    exact lawful_ruled _ _ (Rule.Lawful.complete (Rule.lawful_arrayLiteral (lawful_elements xs h)))
  | object span es =>
    exact lawful_ruled _ _ (Rule.Lawful.complete (Rule.lawful_objectLiteral (lawful_properties es h)))
  | function code =>
    exact lawful_ruled _ _ (.bind (lawful_createFunctionValue (holds_code h)) fun _ _ hf => .pure hf)
  | unary span operator x =>
    exact lawful_ruled _ _ (Rule.Lawful.complete (Rule.lawful_unary operator _
      (Expression.lawful_refer x h) (Expression.lawful_evaluate x h)))
  | update span operator leading x =>
    exact lawful_ruled _ _ (Rule.Lawful.complete
      (Rule.lawful_update operator leading (Expression.lawful_refer x h)))
  | binary span operator x y =>
    obtain ⟨hx, hy⟩ := holds_append h
    exact lawful_ruled _ _ (Rule.Lawful.complete (Rule.lawful_binary operator
      (Expression.lawful_evaluate x hx) (Expression.lawful_evaluate y hy)))
  | assignment span operator x y =>
    obtain ⟨hx, hy⟩ := holds_append h
    exact lawful_ruled _ _ (Rule.Lawful.complete (Rule.lawful_assignment operator
      (Expression.lawful_refer x hx) (Expression.lawful_evaluate y hy)))
  | logical span operator x y =>
    obtain ⟨hx, hy⟩ := holds_append h
    exact lawful_ruled _ _ (Rule.Lawful.complete (Rule.lawful_logical operator _ _
      (Expression.lawful_evaluate x hx) (Expression.lawful_evaluate y hy)))
  | conditional span test x y =>
    obtain ⟨htest, h⟩ := holds_append h
    obtain ⟨hx, hy⟩ := holds_append h
    exact lawful_ruled _ _ (Rule.Lawful.complete (Rule.lawful_conditional _ _
      (Expression.lawful_evaluate test htest) (Expression.lawful_evaluate x hx)
      (Expression.lawful_evaluate y hy)))
  | call span f xs =>
    obtain ⟨hf, hxs⟩ := holds_append h
    exact lawful_ruled _ _ (Rule.Lawful.complete (Rule.lawful_call calls
      (Rule.lawful_callee _ (Expression.lawful_refer f hf) (Expression.lawful_evaluate f hf))
      (lawful_values xs hxs)))
  | construct span f xs =>
    obtain ⟨hf, hxs⟩ := holds_append h
    exact lawful_ruled _ _ (Rule.Lawful.complete (Rule.lawful_new calls
      (Expression.lawful_evaluate f hf) (lawful_values xs hxs)))
  | member span x property =>
    exact lawful_ruled _ _ (Rule.Lawful.complete
      (Rule.lawful_read (Rule.lawful_memberReference (Expression.lawful_evaluate x h) _)))
  | index span x key =>
    obtain ⟨hx, hkey⟩ := holds_append h
    exact lawful_ruled _ _ (Rule.Lawful.complete (Rule.lawful_read (Rule.lawful_indexReference
      (Expression.lawful_evaluate x hx) (Expression.lawful_evaluate key hkey))))
  | sequence span xs =>
    exact lawful_ruled _ _ (Rule.Lawful.complete (Rule.lawful_sequence (lawful_values xs h)))

theorem Expression.lawful_refer (x : Expression) (h : w.Holds x.functions) :
    (x.refer call).Lawful L (x.cost L.loops k) w := by
  cases x with
  | identifier id => exact Rule.lawful_referring _ _ (Rule.lawful_resolve _)
  | member span x property =>
    exact Rule.lawful_referring _ _ (Rule.lawful_memberReference (Expression.lawful_evaluate x h) _)
  | index span x key =>
    obtain ⟨hx, hkey⟩ := holds_append h
    exact Rule.lawful_referring _ _ (Rule.lawful_indexReference (Expression.lawful_evaluate x hx)
      (Expression.lawful_evaluate key hkey))
  -- Nothing is evaluated of an expression that cannot be assigned to.
  | _ => exact Rule.lawful_referring _ _ (Rule.lawful_malformed ..)

theorem lawful_evaluateOption (x : Option Expression) (h : w.Holds (optionFunctions x)) :
    ∀ y, evaluateOption call x = some y →
      y.Lawful L (optionCost L.loops k x) w := by
  cases x with
  | none => exact fun y hy => nomatch hy
  | some x =>
    rintro y ⟨⟩
    exact Expression.lawful_evaluate x h

theorem lawful_values (xs : List Expression) (h : w.Holds (allFunctions xs)) :
    (Rule.values (evaluateAll call xs)).Lawful L
      (allCost L.loops k xs) w := by
  cases xs with
  | nil => exact .pure (fun v hv => nomatch hv)
  | cons x rest =>
    obtain ⟨hx, hrest⟩ := holds_append h
    exact Rule.lawful_values_cons (Expression.lawful_evaluate x hx) (lawful_values rest hrest)

theorem lawful_elements (xs : List (Option Expression)) (h : w.Holds (elementsFunctions xs)) :
    (Rule.elements (evaluateElements call xs)).Lawful L
      (elementsCost L.loops k xs) w := by
  rcases xs with _ | ⟨_ | x, rest⟩
  · exact .pure (fun v hv => nomatch hv)
  · obtain ⟨-, hrest⟩ := holds_append h
    exact (Rule.lawful_elements_none (lawful_elements rest hrest)).mono (Nat.le_add_left _ _)
  · obtain ⟨hx, hrest⟩ := holds_append h
    exact Rule.lawful_elements_some (Expression.lawful_evaluate x hx) (lawful_elements rest hrest)

theorem Entry.lawful_property (e : Entry) (h : w.Holds e.functions) :
    (e.property call).2.Lawful L (e.cost L.loops k) w := by
  cases e with
  | value span key x => exact Rule.lawful_valueProperty (Expression.lawful_evaluate x h)
  | getter span key code => exact Rule.lawful_getterProperty (holds_code h)
  | setter span key code => exact Rule.lawful_setterProperty (holds_code h)

theorem lawful_properties (es : List Entry) (h : w.Holds (entriesFunctions es)) :
    Rule.PropertiesLawful L (entriesCost L.loops k es) w
      (Entry.properties call es) := by
  cases es with
  | nil => exact .nil
  | cons e rest =>
    obtain ⟨he, hrest⟩ := holds_append h
    exact .cons (Entry.lawful_property e he) (lawful_properties rest hrest)

end

theorem lawful_evaluateTest (x : Option Expression) (h : w.Holds (optionFunctions x)) :
    ∀ t, evaluateTest call x = some t →
      t.2.Lawful L (optionCost L.loops k x) w := by
  cases x with
  | none => exact fun t ht => nomatch ht
  | some x =>
    rintro t ⟨⟩
    exact Expression.lawful_evaluate calls x h

theorem Declarator.lawful_initials (ds : List Declarator)
    (h : w.Holds (declaratorsFunctions ds)) :
    (Rule.declarators (Declarator.initials call ds)).Lawful L
      (declaratorsCost L.loops k ds) w := by
  induction ds with
  | nil => exact .pure trivial
  | cons d rest ih =>
    obtain ⟨span, id, x⟩ := d
    obtain ⟨hx, hrest⟩ := holds_append h
    cases x with
    | none => exact (Rule.lawful_declarators_none (ih hrest)).mono (Nat.le_add_left _ _)
    | some x =>
      exact Rule.lawful_declarators_some (Expression.lawful_evaluate calls x hx) (ih hrest)

theorem ForStart.lawful_begin (start : Option ForStart) (h : w.Holds (startFunctions start)) :
    (ForStart.begin call start).Lawful L (startCost L.loops k start) w := by
  rcases start with _ | ⟨span, ds⟩ | x
  · exact .pure trivial
  · exact Rule.lawful_discard
      (Rule.Lawful.complete (Rule.lawful_varDeclaration (Declarator.lawful_initials calls ds h)))
  · exact Rule.lawful_discard (Expression.lawful_evaluate calls x h)

theorem ForInTarget.lawful_assign (target : ForInTarget) (h : w.Holds target.functions) {w' : World}
    {v : Value} (grows : w.Grows w') (hv : w'.Holds v) :
    (target.assign call v).Lawful L (target.cost L.loops k) w' := by
  rcases target with ⟨span, id⟩ | x
  · exact Rule.lawful_assignName (Rule.lawful_resolve _) hv
  · exact Rule.lawful_assignName ((Expression.lawful_refer calls x h).grow grows) hv

mutual

theorem Statement.lawful_evaluate (st : Statement) (h : w.Holds st.functions) :
    (st.evaluate call).Lawful L (st.cost L.loops k) w := by
  cases st with
  | expression span x =>
    exact lawful_ruled _ _ (Rule.Lawful.complete
      (Rule.lawful_expression (Expression.lawful_evaluate calls x h)))
  | block b => exact lawful_ruled _ _ (Block.lawful_evaluate b h)
  | empty span | debugger span => exact lawful_ruled _ _ (.pure trivial)
  | returns span x =>
    exact lawful_ruled _ _ (Rule.Lawful.complete
      (Rule.lawful_returns (lawful_evaluateOption calls x h)))
  | breaks span label | continues span label => exact lawful_ruled _ _ (.pure trivial)
  | labeled span label body =>
    exact lawful_ruled _ _ (lawful_labeled _ _ (Statement.lawful_evaluate body h))
  | branch span test consequent alternate =>
    obtain ⟨htest, h⟩ := holds_append h
    obtain ⟨hconsequent, halternate⟩ := holds_append h
    exact lawful_ruled _ _ (Rule.Lawful.complete (Rule.lawful_branch _ _
      (Expression.lawful_evaluate calls test htest)
      (Statement.lawful_evaluate consequent hconsequent)
      (lawful_evaluateAlternate alternate halternate)))
  | switch span x cs =>
    obtain ⟨hx, hcs⟩ := holds_append h
    exact lawful_ruled _ _ (Rule.Lawful.complete (Rule.lawful_switch _ _
      (Expression.lawful_evaluate calls x hx) (SwitchCase.lawful_cases cs hcs)))
  | throws span x =>
    exact lawful_ruled _ _ (Rule.Lawful.complete
      (Rule.lawful_throws (Expression.lawful_evaluate calls x h)))
  | tryCatch span b handler finalizer =>
    obtain ⟨hb, h⟩ := holds_append h
    obtain ⟨hhandler, hfinalizer⟩ := holds_append h
    exact lawful_ruled _ _ (lawful_tryBlock (Block.lawful_evaluate b hb)
      (CatchClause.lawful_handling handler hhandler) (lawful_evaluateFinalizer finalizer hfinalizer))
  | whileLoop span test body | doWhileLoop span test body =>
    obtain ⟨htest, hbody⟩ := holds_append h
    have loop : Loop.Lawful L _ 0 _ w
        ⟨span, some (test.span, test.evaluate call), none, body.evaluate call⟩ :=
      { test := by
          rintro t ⟨⟩
          exact Expression.lawful_evaluate calls test htest
        update := fun x hx => nomatch hx
        body := Statement.lawful_evaluate body hbody }
    have nothing : Rule.Lawful L 0 w (pure ()) := .pure trivial
    refine (lawful_ruled _ _ (Rule.Lawful.complete (Rule.lawful_loop _ nothing loop))).mono ?_
    simp [Statement.cost, loopCost]
  | forLoop span start test update body =>
    obtain ⟨hstart, h⟩ := holds_append h
    obtain ⟨htest, h⟩ := holds_append h
    obtain ⟨hupdate, hbody⟩ := holds_append h
    exact lawful_ruled _ _ (Rule.Lawful.complete (Rule.lawful_loop _
      (ForStart.lawful_begin calls start hstart)
      ⟨lawful_evaluateTest calls test htest, lawful_evaluateOption calls update hupdate,
        Statement.lawful_evaluate body hbody⟩))
  | forInLoop span target x body =>
    obtain ⟨htarget, h⟩ := holds_append h
    obtain ⟨hx, hbody⟩ := holds_append h
    exact lawful_ruled _ _ (Rule.Lawful.complete (Rule.lawful_nameLoop
      ⟨ForInTarget.lawful_assign calls target htarget, Statement.lawful_evaluate body hbody⟩
      (Expression.lawful_evaluate calls x hx)))
  | varDeclaration span ds =>
    exact lawful_ruled _ _ (Rule.Lawful.complete
      (Rule.lawful_varDeclaration (Declarator.lawful_initials calls ds h)))
  | functionDeclaration code => exact lawful_ruled _ _ (.pure trivial)

theorem lawful_evaluateAlternate (st : Option Statement) (h : w.Holds (alternateFunctions st)) :
    ∀ y, evaluateAlternate call st = some y →
      y.Lawful L (alternateCost L.loops k st) w := by
  cases st with
  | none => exact fun y hy => nomatch hy
  | some st =>
    rintro y ⟨⟩
    exact Statement.lawful_evaluate st h

theorem Statement.lawful_steps (ss : List Statement) (h : w.Holds (bodyFunctions ss)) :
    Step.Lawful L (bodyCost L.loops k ss) w
      (Statement.steps call ss) := by
  cases ss with
  | nil => exact .nil
  | cons st rest =>
    obtain ⟨hst, hrest⟩ := holds_append h
    exact .cons (Statement.lawful_evaluate st hst) (Statement.lawful_steps rest hrest)

theorem Block.lawful_evaluate (b : Block) (h : w.Holds b.functions) :
    (b.evaluate call).Lawful L (b.cost L.loops k) w := by
  cases b with
  | mk span ss => exact (Statement.lawful_steps ss h).fresh

theorem lawful_evaluateFinalizer (b : Option Block) (h : w.Holds (finalizerFunctions b)) :
    ∀ y, evaluateFinalizer call b = some y →
      y.Lawful L (finalizerCost L.loops k b) w := by
  cases b with
  | none => exact fun y hy => nomatch hy
  | some b =>
    rintro y ⟨⟩
    exact Block.lawful_evaluate b h

theorem CatchClause.lawful_handling (clause : Option CatchClause)
    (h : w.Holds (handlerFunctions clause)) :
    ∀ y, CatchClause.handling call clause = some y →
      y.Lawful L (handlerCost L.loops k clause) w := by
  rcases clause with _ | ⟨span, id, b⟩
  · exact fun y hy => nomatch hy
  · rintro y ⟨⟩
    exact ⟨fun grows hthrown =>
      lawful_handle id.name hthrown ((Block.lawful_evaluate b h).grow grows)⟩

theorem SwitchCase.lawful_cases (cs : List SwitchCase) (h : w.Holds (casesFunctions cs)) :
    Case.AllLawful L w (casesCost L.loops k cs)
      (SwitchCase.cases call cs) := by
  rcases cs with _ | ⟨⟨span, test, ss⟩, rest⟩
  · exact .nil
  · obtain ⟨htest, h⟩ := holds_append h
    obtain ⟨hss, hrest⟩ := holds_append h
    exact .cons (lawful_evaluateTest calls test htest) (Statement.lawful_steps ss hss)
      (SwitchCase.lawful_cases rest hrest) (Nat.le_refl _)

end

omit calls

/-! ## Calls -/

/-- Calls of functions of the program are lawful, however deep they are, if there is room for all of
their contexts. -/
theorem Eval.lawful_callWithin {codes : List FunctionCode} (code : L.code = (· ∈ codes))
    (closed : Closed codes) (depth : Nat)
    (room : w.contexts + depth ≤ L.limit) :
    (callWithin depth).Lawful L (callCost L.loops codes depth) w := by
  induction depth generalizing w with
  | zero =>
    refine ⟨fun _ _ _ _ _ => ?_⟩
    exact .bind (.of_unmoved reportMaxRecursion_unmoved) fun _ _ _ => .pure trivial
  | succ depth ih =>
    refine ⟨fun {w' f closure _ _} grows hf hclosure hthis harguments => ⟨fun m valid more => ?_⟩⟩
    -- In a machine it is known which code may be evaluated.
    have known : closure.code ∈ codes := by
      have held : L.code closure.code := (more.lift hclosure).1
      rwa [code] at held
    have written : (m.world L).Holds (bodyFunctions closure.code.body) := by
      intro inner hinner
      show L.code inner
      rw [code]
      exact closed _ known hinner
    have size : (m.world L).contexts = w.contexts := more.contexts.trans grows.contexts
    -- Inside the call there is one context more, and room for one less.
    have calls : (callWithin depth).Lawful L (callCost L.loops codes depth) (m.world L).entered :=
      ih (by rw [World.contexts_entered, size]; omega)
    have body := (Statement.lawful_steps calls closure.code.body written).fresh
    refine Lawful.at_machine (lawful_callScript (by omega) ?_ (more.lift hf) (more.lift hclosure)
      (more.lift hthis) (more.lift harguments) ?_) valid
    · exact fun inner hinner => written inner (hoistedFunctions_subset _ hinner)
    · exact body.mono (bodyCost_le_callCost L.loops known depth)

end AbstractScript
