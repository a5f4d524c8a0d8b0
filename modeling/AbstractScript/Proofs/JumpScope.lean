import AbstractScript.Analysis.Run
import AbstractScript.Proofs.JumpStatements

/-!
# Jumps stay in their scopes

By induction over syntax trees, expressions end with values or throws and statements with their free
jumps, and by induction over the depth of calls so do the bodies of functions, of which a call lets
only values and throws out. So no jump gets out of its scope (`Program.jumps_stay`).
-/
namespace AbstractScript

open Eval Completion

variable {call : ScriptCall} (calls : call.EndsValued)

include calls

set_option linter.unusedSectionVars false

/-! ## Expressions -/

mutual

theorem Expression.ends_evaluate (x : Expression) : EndsValued (x.evaluate call) := by
  have ruled {kind : NodeKind} {span : Span} {r : Rule Completion} (h : r.EndsValued) :
      EndsValued (ruled kind span r.complete) :=
    fun depth => ends_ruled kind span (h.complete depth)
  cases x with
  | literal span v => exact fun depth => ends_ruled _ _ (.pure (valued_normal _))
  | identifier id => exact ruled (Rule.ends_read (Rule.passes_resolve _))
  | this span => exact fun depth => ends_ruled _ _ (.bind .get fun _ _ => .pure (valued_normal _))
  | array span xs => exact ruled (Rule.ends_arrayLiteral (ends_evaluateElements xs))
  | object span es => exact ruled (Rule.ends_objectLiteral (Entry.passes_properties es))
  | function code =>
    exact fun depth => ends_ruled _ _
      (.bind (.of_steady (isQuiet_createFunctionValue code).steady) fun _ _ =>
        .pure (valued_normal _))
  | unary span operator x =>
    exact ruled (Rule.ends_unary operator _ (Expression.passes_refer x) (Expression.ends_evaluate x))
  | update span operator leading x =>
    exact ruled (Rule.ends_update operator leading (Expression.passes_refer x))
  | binary span operator x y =>
    exact ruled (Rule.ends_binary operator (Expression.ends_evaluate x) (Expression.ends_evaluate y))
  | assignment span operator x y =>
    exact ruled
      (Rule.ends_assignment operator (Expression.passes_refer x) (Expression.ends_evaluate y))
  | logical span operator x y =>
    exact ruled
      (Rule.ends_logical operator _ _ (Expression.ends_evaluate x) (Expression.ends_evaluate y))
  | conditional span test x y =>
    exact ruled (Rule.ends_conditional _ _ (Expression.ends_evaluate test)
      (Expression.ends_evaluate x) (Expression.ends_evaluate y))
  | call span f xs =>
    exact ruled (Rule.ends_call calls _
      (Rule.passes_callee _ (Expression.passes_refer f) (Expression.ends_evaluate f))
      (ends_evaluateAll xs))
  | construct span f xs =>
    exact ruled (Rule.ends_new calls _ (Expression.ends_evaluate f) (ends_evaluateAll xs))
  | member span x property =>
    exact ruled (Rule.ends_read (Rule.passes_memberReference (Expression.ends_evaluate x) _))
  | index span x key =>
    exact ruled (Rule.ends_read
      (Rule.passes_indexReference (Expression.ends_evaluate x) (Expression.ends_evaluate key)))
  | sequence span xs => exact ruled (Rule.ends_sequence (ends_evaluateAll xs))

theorem Expression.passes_refer (x : Expression) : (x.refer call).Passes := by
  cases x with
  | identifier id => exact Rule.passes_referring _ _ (Rule.passes_resolve _)
  | member span x property =>
    exact Rule.passes_referring _ _ (Rule.passes_memberReference (Expression.ends_evaluate x) _)
  | index span x key =>
    exact Rule.passes_referring _ _
      (Rule.passes_indexReference (Expression.ends_evaluate x) (Expression.ends_evaluate key))
  | _ => exact Rule.passes_referring _ _ (Rule.passes_malformed _ _)

theorem ends_evaluateOption (x : Option Expression) :
    ∀ y, evaluateOption call x = some y → EndsValued y := by
  cases x with
  | none => exact nofun
  | some x =>
    rintro y ⟨⟩
    exact Expression.ends_evaluate x

theorem ends_evaluateAll (xs : List Expression) : ∀ y ∈ evaluateAll call xs, EndsValued y := by
  cases xs with
  | nil => exact nofun
  | cons x rest =>
    exact List.forall_mem_cons.2 ⟨Expression.ends_evaluate x, ends_evaluateAll rest⟩

theorem ends_evaluateElements (xs : List (Option Expression)) :
    ∀ y, some y ∈ evaluateElements call xs → EndsValued y := by
  cases xs with
  | nil => exact nofun
  | cons x rest =>
    intro y hy
    rcases List.mem_cons.1 hy with first | later
    · exact ends_evaluateOption x y first.symm
    · exact ends_evaluateElements rest y later

theorem Entry.passes_property (e : Entry) : (e.property call).2.Passes := by
  cases e with
  | value span key x =>
    exact .bind (Rule.passes_value (Expression.ends_evaluate x)) fun _ => .pure _
  | getter span key code | setter span key code =>
    exact .bind Rule.passes_get fun _ =>
      .bind (Rule.passes_steady (isQuiet_createScript code _).steady) fun _ => .pure _

theorem Entry.passes_properties (es : List Entry) :
    ∀ p ∈ Entry.properties call es, p.2.Passes := by
  cases es with
  | nil => exact nofun
  | cons e rest =>
    exact List.forall_mem_cons.2 ⟨Entry.passes_property e, Entry.passes_properties rest⟩

end

/-! ## Statements -/

theorem ends_evaluateTest (x : Option Expression) :
    ∀ t, evaluateTest call x = some t → EndsValued t.2 := by
  cases x with
  | none => exact nofun
  | some x =>
    rintro t ⟨⟩
    exact Expression.ends_evaluate calls x

theorem Declarator.ends_initials (ds : List Declarator) :
    ∀ d ∈ Declarator.initials call ds, ∀ x, d.2 = some x → EndsValued x := by
  induction ds with
  | nil => exact nofun
  | cons d rest ih =>
    obtain ⟨span, id, x⟩ := d
    exact List.forall_mem_cons.2 ⟨ends_evaluateOption calls x, ih⟩

theorem ForStart.passes_begin (start : Option ForStart) : (ForStart.begin call start).Passes := by
  rcases start with _ | ⟨span, ds⟩ | x
  · exact .pure _
  · exact Rule.passes_discardDeclaration (Declarator.ends_initials calls ds)
  · exact Rule.passes_discard (Expression.ends_evaluate calls x)

theorem ForInTarget.ends_assign (target : ForInTarget) (v : Value) :
    Eval.EndsIn [] [] (target.assign call v) := by
  rcases target with ⟨span, id⟩ | x
  · exact Rule.ends_assignName (Rule.passes_resolve _) v []
  · exact Rule.ends_assignName (Expression.passes_refer calls x) v []

mutual

theorem Statement.ends_evaluate (labels : List String) (st : Statement) :
    Eval.EndsIn labels (st.jumps labels) (st.evaluate call) := by
  have ruled {kind : NodeKind} {span : Span} {free : List Jump} {x : Run Completion}
      (h : Eval.EndsIn labels free x) : Eval.EndsIn labels free (ruled kind span x) :=
    fun depth => ends_ruled kind span (h depth)
  cases st with
  | expression span x =>
    exact ruled (Rule.EndsValued.endsIn
      (Rule.ends_expression (Expression.ends_evaluate calls x))).complete.given
  | block b => exact ruled (Block.ends_evaluate b).given
  | empty span | debugger span => exact ruled (Eval.EndsIn.finished none).given
  | returns span x =>
    exact ruled (Rule.ends_returns (ends_evaluateOption calls x)).complete.given
  | breaks span label | continues span label =>
    -- the end of the statement is the jump itself
    refine ruled (Eval.EndsIn.given fun depth => .pure ⟨fun j hj => ?_, nofun, nofun⟩)
    cases hj
    exact List.mem_singleton_self _
  | labeled span label body => exact ruled (ends_labeled _ _ (Statement.ends_evaluate _ body))
  | branch span test consequent alternate =>
    exact ruled (Rule.ends_branch _ _ (Expression.ends_evaluate calls test)
      (Statement.ends_evaluate [] consequent) (ends_evaluateAlternate alternate)).complete.given
  | switch span x cs =>
    exact ruled (Rule.ends_switch _ _ (Expression.ends_evaluate calls x)
      (SwitchCase.ends_cases cs)).complete
  | throws span x =>
    exact ruled (Rule.EndsValued.endsIn
      (Rule.ends_throws (Expression.ends_evaluate calls x))).complete.given
  | tryCatch span b handler finalizer =>
    exact ruled (ends_tryBlock (Block.ends_evaluate b) (CatchClause.ends_handling handler)
      (ends_evaluateFinalizer finalizer)).given
  | whileLoop span test body | doWhileLoop span test body =>
    refine ruled (Rule.ends_loop _ (.pure _) ⟨?_, ?_, Statement.ends_evaluate [] body⟩).complete
    · rintro t ⟨⟩
      exact Expression.ends_evaluate calls test
    · exact nofun
  | forLoop span start test update body =>
    exact ruled (Rule.ends_loop _ (ForStart.passes_begin calls start)
      ⟨ends_evaluateTest calls test, ends_evaluateOption calls update,
        Statement.ends_evaluate [] body⟩).complete
  | forInLoop span target x body =>
    exact ruled (Rule.ends_nameLoop
      ⟨ForInTarget.ends_assign calls target, Expression.ends_evaluate calls x,
        Statement.ends_evaluate [] body⟩).complete
  | varDeclaration span ds =>
    exact ruled (Rule.ends_varDeclaration (Declarator.ends_initials calls ds)).complete.given
  | functionDeclaration code => exact ruled (Eval.EndsIn.finished none).given

theorem ends_evaluateAlternate (st : Option Statement) :
    ∀ y, evaluateAlternate call st = some y → Eval.EndsIn [] (alternateJumps st) y := by
  cases st with
  | none => exact nofun
  | some st =>
    rintro y ⟨⟩
    exact Statement.ends_evaluate [] st

theorem Statement.ends_steps (ss : List Statement) :
    ∀ step ∈ Statement.steps call ss, Eval.EndsIn [] (bodyJumps ss) step.run := by
  cases ss with
  | nil => exact nofun
  | cons st rest =>
    refine List.forall_mem_cons.2 ⟨?_, fun step hstep => ?_⟩
    · exact (Statement.ends_evaluate [] st).mono (List.subset_append_left _ _)
    · exact (Statement.ends_steps rest step hstep).mono (List.subset_append_right _ _)

theorem Block.ends_evaluate (b : Block) : Eval.EndsIn [] b.jumps (b.evaluate call) := by
  cases b with
  | mk span ss => exact Step.ends_runAll (Statement.ends_steps ss) none

theorem ends_evaluateFinalizer (b : Option Block) :
    ∀ y, evaluateFinalizer call b = some y → Eval.EndsIn [] (finalizerJumps b) y := by
  cases b with
  | none => exact nofun
  | some b =>
    rintro y ⟨⟩
    exact Block.ends_evaluate b

theorem CatchClause.ends_handling (clause : Option CatchClause) :
    ∀ y, CatchClause.handling call clause = some y →
      ∀ v, Eval.EndsIn [] (handlerJumps clause) (y.run v) := by
  rcases clause with _ | ⟨span, id, b⟩
  · exact nofun
  · rintro y ⟨⟩ v
    exact ends_handle id.name (Block.ends_evaluate b) v

theorem SwitchCase.ends_cases (cs : List SwitchCase) :
    ∀ c ∈ SwitchCase.cases call cs, c.EndsIn (casesJumps cs) := by
  rcases cs with _ | ⟨⟨span, test, ss⟩, rest⟩
  · exact nofun
  · refine List.forall_mem_cons.2 ⟨⟨ends_evaluateTest calls test, fun step hstep => ?_⟩,
      fun c hc => ?_⟩
    · exact (Statement.ends_steps ss step hstep).mono (List.subset_append_left _ _)
    · have ends := SwitchCase.ends_cases rest c hc
      exact ⟨ends.test, fun step hstep => (ends.body step hstep).mono (List.subset_append_right _ _)⟩

end

omit calls

/-! ## Calls and programs -/

/-- However deep calls are, they end with values or throws. -/
theorem Eval.callWithin_ends (depth : Nat) : (callWithin depth).EndsValued := by
  induction depth with
  | zero =>
    intro f closure this arguments depth
    exact .bind (.of_steady (.aside reportMaxRecursion_keeps)) fun _ _ => .pure valued_unknown
  | succ depth ih =>
    intro f closure this arguments
    exact ends_callScript (Step.ends_runAll (Statement.ends_steps ih closure.code.body) none) f
      closure this arguments

theorem Program.ends_evaluate (p : Program) : Eval.EndsIn [] (bodyJumps p.body) p.evaluate := by
  have body : Eval.EndsIn [] (bodyJumps p.body) (runProgram p.body) := by
    refine .bind (passes_steady (isQuiet_enterProgram p.body).steady) fun _ => ?_
    refine .bind (passes_steady (.bind (.setup _) fun _ => .bind .get fun _ => .pure _))
      fun limit => fun depth => ?_
    refine .bind (Step.ends_runAll (Statement.ends_steps (callWithin_ends limit) p.body) none depth)
      fun c fits => ?_
    split
    · exact .bind .get fun m _ => .bind (passes_aside (reportHere_keeps (by simp) _) depth) fun _ _ =>
        .pure fits
    · exact .pure fits
  exact fun depth => ends_ruled _ _ (body depth)

/-- Only outside of ambiguous blocks a node can end with a return. -/
theorem Node.ne_returns {s : Setup} (core : s.rules = .core) (calls : Nat) {m n : Machine}
    {c : Completion} (node : Node) (run : node.evaluate (callWithin calls) s m = .ok c n)
    (ambiguous : 0 < m.contexts.depth) : c.kind ≠ .returns := by
  have begins : Begins m.contexts.depth [] s m := ⟨core, rfl, List.nil_subset _⟩
  have ended {free : List Jump} {x : Run Completion} (h : Eval.EndsIn [] free x)
      (run : x s m = .ok c n) : c.kind ≠ .returns := by
    intro returns
    have zero : m.contexts.depth = 0 := ((h _).result begins run).returns returns
    omega
  cases node with
  | program p => exact ended p.ends_evaluate run
  | statement st => exact ended (Statement.ends_evaluate (callWithin_ends calls) [] st) run
  | expression x =>
    have valued : Eval.EndsIn [] [] (x.evaluate (callWithin calls)) :=
      (Expression.ends_evaluate (callWithin_ends calls) x).endsIn
    exact ended valued run

/-- **Jumps never escape their scope.** From every machine, with any number of calls left: an
expression, a call and the creation of an object end with a value or with a throw of a value; no
node ends with a return in an ambiguous block; a statement ends only with a jump that is free in it;
and a program whose jumps are well scoped ends normally or with a throw. -/
theorem Program.jumps_stay {p : Program} (well : p.WellScoped) {s : Setup} (core : s.rules = .core)
    (calls : Nat) (m n : Machine) (c : Completion) :
    (∀ x : Expression, x.evaluate (callWithin calls) s m = .ok c n → c.Valued) ∧
      (∀ f this arguments, callFunction (callWithin calls) f this arguments s m = .ok c n →
        c.Valued) ∧
      (∀ f arguments, construct (callWithin calls) f arguments s m = .ok c n → c.Valued) ∧
      (∀ node : Node, node.evaluate (callWithin calls) s m = .ok c n → 0 < m.contexts.depth →
        c.kind ≠ .returns) ∧
      (∀ st : Statement, st.evaluate (callWithin calls) s m = .ok c n →
        ∀ j, c.jump? = some j → j ∈ st.jumps m.labels) ∧
      (p.evaluate s m = .ok c n → c.kind = .normal ∨ c.kind = .throws) := by
  have begins : Begins m.contexts.depth m.labels s m := ⟨core, rfl, List.Subset.refl _⟩
  have valued {x : Run Completion} (h : EndsValued x) (run : x s m = .ok c n) : c.Valued :=
    (h _).given.result begins run
  have script : (callWithin calls).EndsValued := callWithin_ends calls
  refine ⟨fun x => valued (Expression.ends_evaluate script x),
    fun f this arguments => valued (ends_callFunction script f this arguments),
    fun f arguments => valued (ends_construct script f arguments),
    fun node => node.ne_returns core calls, fun st run j hj => ?_, fun run => ?_⟩
  · have fits := (Statement.ends_evaluate script m.labels st m.contexts.depth).result begins run
    exact fits.jump j hj
  · -- no jump is free in the program, so that its end is none
    have fits := (p.ends_evaluate m.contexts.depth).given.result begins run
    rw [well.body] at fits
    cases kind : c.kind with
    | normal => exact .inl rfl
    | throws => exact .inr rfl
    | returns | breaks | continues =>
      have jump := fits.jump _ (by rw [Completion.jump?, kind])
      cases jump

/-- `L: while (true) { break L; } function f() { return true; }` -/
def labelledBreak : Program where
  span := default
  file := "break.js"
  body :=
    [.labeled default ⟨default, "L"⟩ (.whileLoop default (.literal default (.bool true))
      (.block (.mk default [.breaks default (some ⟨default, "L"⟩)]))),
    .functionDeclaration (.mk default (some ⟨default, "f"⟩) [] default
      [.returns default (some (.literal default (.bool true)))])]

theorem ends_labelledBreak : (match labelledBreak.evaluate
    { options := {}, rules := .core, file := "break.js" } (.start (Analyzer.realm {})) with
    | .ok _ _ => true
    | .error _ _ => false) = true := by
  decide +kernel

/-- The program ends, and not with its break or its return. -/
theorem Program.jumps_stay_labelledBreak :
    labelledBreak.WellScoped ∧ ∃ c n,
      labelledBreak.evaluate { options := {}, rules := .core, file := "break.js" }
        (.start (Analyzer.realm {})) = .ok c n ∧ (c.kind = .normal ∨ c.kind = .throws) := by
  have well : labelledBreak.WellScoped := ⟨by decide, by decide⟩
  refine ⟨well, ?_⟩
  cases run : labelledBreak.evaluate { options := {}, rules := .core, file := "break.js" }
      (.start (Analyzer.realm {})) with
  | ok c n => exact ⟨c, n, rfl, (Program.jumps_stay well rfl 0 _ n c).2.2.2.2.2 run⟩
  | error e n =>
    have ends := ends_labelledBreak
    rw [run] at ends
    cases ends

end AbstractScript
