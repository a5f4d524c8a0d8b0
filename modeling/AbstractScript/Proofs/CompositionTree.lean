import AbstractScript.Proofs.Composition

/-!
# What evaluation is made of

By induction over syntax trees, the evaluation of every node is made of looks, operations, blocks,
claims and of the calls that its rules make: `Expression.made_evaluate` and
`Statement.made_evaluate`. A node that deletes no plain names keeps names.
-/
namespace AbstractScript

open Eval

/-! ## Nodes -/

/-- Both of two facts are true if their conjunction is, under a condition. -/
theorem both {p : Prop} {a b : Bool} (h : p → (a && b) = true) :
    (p → a = true) ∧ (p → b = true) :=
  ⟨fun hp => (Bool.and_eq_true_iff.1 (h hp)).1, fun hp => (Bool.and_eq_true_iff.1 (h hp)).2⟩

/-- A member is never a binding of an environment. -/
theorem Rule.propertyOf_gives (base : Value) (name : Option String) :
    Rule.Gives (∀ e, ·.base ≠ .environment e) (Rule.propertyOf base name) := by
  unfold Rule.propertyOf
  split
  · exact .bind fun _ => .pure fun e => by simp [Reference.unknown]
  · split
    · exact .pure fun e => by simp [Reference.property]
    · exact .pure fun e => by simp [Reference.unknown]

variable {deletes : Prop} {call : ScriptCall}

/-- What a rule gives with its events is what it gives without them. -/
theorem Rule.referring_gives {P : Reference → Prop} {r : Rule Reference} (h : Rule.Gives P r)
    (kind : NodeKind) (span : Span) : Rule.Gives P (Rule.referring kind span r) := by
  intro s m a n ha
  change bracket kind span Rule.referenceOutcome r.run s m = .ok (.ok a) n at ha
  unfold bracket at ha
  simp only [bind_eq_ok_iff] at ha
  obtain ⟨_, _, -, _, _, -, _, _, -, _, k, -, b, l, hb, _, _, -, _, _, -, result⟩ := ha
  cases result
  rw [ensuring_apply] at hb
  cases body : r.run s k with
  | ok b l =>
    rw [body] at hb
    cases hb
    exact h s k _ _ body
  | error e l =>
    rw [body] at hb
    cases hb

/-- An expression that is not a plain name never refers to a binding of an environment. -/
theorem Expression.refer_gives {x : Expression} (h : x.isName = false) :
    Rule.Gives (∀ e, ·.base ≠ .environment e) (x.refer call) := by
  cases x with
  | identifier id => cases h
  | member span x property =>
    exact Rule.referring_gives (.bind fun base => Rule.propertyOf_gives base _) _ _
  | index span x key =>
    exact Rule.referring_gives
      (.bind fun base => .bind fun key => .bind fun name => Rule.propertyOf_gives base name) _ _
  | _ =>
    refine Rule.referring_gives ?_ _ _
    intro s m a n ha
    cases ha

mutual

/-- An expression is made of its parts by the rule of its kind. -/
theorem Expression.made_evaluate (x : Expression) (h : ¬ deletes → x.keepsNames = true) :
    Made deletes call.Calls (x.evaluate call) := by
  cases x with
  | literal span v => exact .ruled _ _ (.pure _)
  | identifier id => exact .ruled _ _ (.complete (Rule.made_read (Rule.made_resolve _)))
  | this span =>
    refine .ruled _ _ (.look (fun _ _ same => ?_) fun _ => .pure _)
    rw [Machine.this, Machine.this, same.contexts]
  | array span xs =>
    exact .ruled _ _ (.complete (MadeSince.arrayLiteral (made_evaluateElements xs h)))
  | object span es =>
    exact .ruled _ _ (.complete (MadeSince.objectLiteral (made_properties es h)))
  | function code => exact .ruled _ _ (.bind (.createFunctionValue h) fun _ => .pure _)
  | unary span operator x =>
    obtain ⟨plain, hx⟩ := both h
    -- only `delete` asks what its reference may be
    refine .ruled _ _ (.complete (Rule.made_unary operator _
      (Expression.made_refer x hx) (Expression.made_evaluate x hx) fun hdelete names => ?_))
    exact Expression.refer_gives (by simpa [hdelete] using plain names)
  | update span operator leading x =>
    exact .ruled _ _ (.complete (Rule.made_update operator leading (Expression.made_refer x h)))
  | binary span operator x y =>
    obtain ⟨hx, hy⟩ := both h
    exact .ruled _ _ (.complete (Rule.made_binary operator
      (Expression.made_evaluate x hx) (Expression.made_evaluate y hy)))
  | assignment span operator x y =>
    obtain ⟨hx, hy⟩ := both h
    exact .ruled _ _ (.complete (Rule.made_assignment operator
      (Expression.made_refer x hx) (Expression.made_evaluate y hy)))
  | logical span operator x y =>
    obtain ⟨hx, hy⟩ := both h
    exact .ruled _ _ (.complete (Rule.made_logical operator _ _
      (Expression.made_evaluate x hx) (Expression.made_evaluate y hy)))
  | conditional span test x y =>
    obtain ⟨h, hy⟩ := both h
    obtain ⟨htest, hx⟩ := both h
    exact .ruled _ _ (.complete (Rule.made_conditional _ _ (Expression.made_evaluate test htest)
      (Expression.made_evaluate x hx) (Expression.made_evaluate y hy)))
  | call span f xs =>
    obtain ⟨hf, hxs⟩ := both h
    exact .ruled _ _ (.complete (Rule.made_call _
      (Rule.made_callee _ (Expression.made_refer f hf) (Expression.made_evaluate f hf))
      (made_evaluateAll xs hxs)))
  | construct span f xs =>
    obtain ⟨hf, hxs⟩ := both h
    exact .ruled _ _ (.complete (Rule.made_new _ (Expression.made_evaluate f hf)
      (made_evaluateAll xs hxs)))
  | member span x property =>
    exact .ruled _ _ (.complete
      (Rule.made_read (Rule.made_memberReference (Expression.made_evaluate x h) _)))
  | index span x key =>
    obtain ⟨hx, hkey⟩ := both h
    exact .ruled _ _ (.complete (Rule.made_read (Rule.made_indexReference
      (Expression.made_evaluate x hx) (Expression.made_evaluate key hkey))))
  | sequence span xs =>
    exact .ruled _ _ (.complete (Rule.made_sequence (made_evaluateAll xs h)))

/-- What refers to nothing is malformed. -/
theorem Expression.made_refer (x : Expression) (h : ¬ deletes → x.keepsNames = true) :
    Rule.Made deletes call.Calls (x.refer call) := by
  cases x with
  | identifier id => exact .referring rfl _ (Rule.made_resolve _)
  | member span x property =>
    exact .referring rfl _ (Rule.made_memberReference (Expression.made_evaluate x h) _)
  | index span x key =>
    obtain ⟨hx, hkey⟩ := both h
    exact .referring rfl _ (Rule.made_indexReference (Expression.made_evaluate x hx)
      (Expression.made_evaluate key hkey))
  | _ => exact MadeSince.malformed ..

theorem made_evaluateOption (x : Option Expression) (h : ¬ deletes → optionKeepsNames x = true) :
    ∀ y, evaluateOption call x = some y → Made deletes call.Calls y := by
  cases x with
  | none => exact fun y hy => nomatch hy
  | some x =>
    rintro y ⟨⟩
    exact Expression.made_evaluate x h

/-- Each of several expressions is made of its parts. -/
theorem made_evaluateAll (xs : List Expression) (h : ¬ deletes → allKeepNames xs = true) :
    ∀ y ∈ evaluateAll call xs, Made deletes call.Calls y := by
  cases xs with
  | nil => exact fun y hy => nomatch hy
  | cons x rest =>
    obtain ⟨hx, hrest⟩ := both h
    exact List.forall_mem_cons.2 ⟨Expression.made_evaluate x hx, made_evaluateAll rest hrest⟩

theorem made_evaluateElements (xs : List (Option Expression))
    (h : ¬ deletes → elementsKeepNames xs = true) :
    ∀ y, some y ∈ evaluateElements call xs → Made deletes call.Calls y := by
  cases xs with
  | nil => exact fun y hy => nomatch hy
  | cons x rest =>
    obtain ⟨hx, hrest⟩ := both h
    intro y hy
    rcases List.mem_cons.1 hy with first | later
    · exact made_evaluateOption x hx y first.symm
    · exact made_evaluateElements rest hrest y later

/-- The functions of getters and setters keep names if the entry does. -/
theorem Entry.made_property (e : Entry) (h : ¬ deletes → e.keepsNames = true) :
    Rule.Made deletes call.Calls (e.property call).2 := by
  cases e with
  | value span key x => exact .bind (.value (Expression.made_evaluate x h)) fun _ => .pure _
  | getter span key code | setter span key code =>
    exact .look (fun _ _ same => by rw [same.lexicalEnv]) fun _ =>
      .bind (.lift (.createScript h _)) fun _ => .pure _

theorem made_properties (es : List Entry) (h : ¬ deletes → entriesKeepNames es = true) :
    ∀ p ∈ Entry.properties call es, Rule.Made deletes call.Calls p.2 := by
  cases es with
  | nil => exact fun p hp => nomatch hp
  | cons e rest =>
    obtain ⟨he, hrest⟩ := both h
    exact List.forall_mem_cons.2 ⟨Entry.made_property e he, made_properties rest hrest⟩

end

theorem made_evaluateTest (x : Option Expression) (h : ¬ deletes → optionKeepsNames x = true) :
    ∀ t, evaluateTest call x = some t → Made deletes call.Calls t.2 := by
  cases x with
  | none => exact fun t ht => nomatch ht
  | some x =>
    rintro t ⟨⟩
    exact Expression.made_evaluate x h

/-- The initial values of variables are made by the rules of their kinds. -/
theorem Declarator.made_initials (ds : List Declarator)
    (h : ¬ deletes → declaratorsKeepNames ds = true) :
    ∀ d ∈ Declarator.initials call ds, ∀ x, d.2 = some x → Made deletes call.Calls x := by
  induction ds with
  | nil => exact fun d hd => nomatch hd
  | cons d rest ih =>
    obtain ⟨span, id, x⟩ := d
    obtain ⟨hx, hrest⟩ := both h
    exact List.forall_mem_cons.2 ⟨made_evaluateOption x hx, ih hrest⟩

/-- What a `for` loop does first is a declaration or an expression. -/
theorem ForStart.made_begin (start : Option ForStart)
    (h : ¬ deletes → startKeepsNames start = true) :
    Rule.Made deletes call.Calls (ForStart.begin call start) := by
  rcases start with _ | ⟨span, ds⟩ | x
  · exact .pure _
  · exact Rule.made_discard (.complete (Rule.made_varDeclaration (Declarator.made_initials ds h)))
  · exact Rule.made_discard (Expression.made_evaluate x h)

/-- The name is assigned to what the target refers to. -/
theorem ForInTarget.made_assign (target : ForInTarget)
    (h : ¬ deletes → target.keepsNames = true) (v : Value) :
    Made deletes call.Calls (target.assign call v) := by
  rcases target with ⟨span, id⟩ | x
  · exact Rule.made_assignName (Rule.made_resolve _) v
  · exact Rule.made_assignName (Expression.made_refer x h) v

mutual

/-- A statement is made of its parts by the rule of its kind. -/
theorem Statement.made_evaluate (st : Statement) (h : ¬ deletes → st.keepsNames = true) :
    Made deletes call.Calls (st.evaluate call) := by
  cases st with
  | expression span x =>
    exact .ruled _ _ (.complete (Rule.made_expression (Expression.made_evaluate x h)))
  | block b => exact .ruled _ _ (Block.made_evaluate b h)
  | empty span | debugger span => exact .ruled _ _ (.pure _)
  | returns span x =>
    exact .ruled _ _ (.complete (Rule.made_returns (made_evaluateOption x h)))
  | breaks span label | continues span label => exact .ruled _ _ (.pure _)
  | labeled span label body =>
    exact .ruled _ _ (made_labeled _ _ (Statement.made_evaluate body h))
  | branch span test consequent alternate =>
    obtain ⟨h, halternate⟩ := both h
    obtain ⟨htest, hconsequent⟩ := both h
    exact .ruled _ _ (.complete (Rule.made_branch _ _ (Expression.made_evaluate test htest)
      (Statement.made_evaluate consequent hconsequent)
      (made_evaluateAlternate alternate halternate)))
  | switch span x cs =>
    obtain ⟨hx, hcs⟩ := both h
    exact .ruled _ _ (.complete (Rule.made_switch _ _ (Expression.made_evaluate x hx)
      (SwitchCase.made_cases cs hcs)))
  | throws span x =>
    exact .ruled _ _ (.complete (Rule.made_throws (Expression.made_evaluate x h)))
  | tryCatch span b handler finalizer =>
    obtain ⟨h, hfinalizer⟩ := both h
    obtain ⟨hb, hhandler⟩ := both h
    exact .ruled _ _ (made_tryBlock (Block.made_evaluate b hb)
      (CatchClause.made_handling handler hhandler) (made_evaluateFinalizer finalizer hfinalizer))
  | whileLoop span test body | doWhileLoop span test body =>
    obtain ⟨htest, hbody⟩ := both h
    refine .ruled _ _ (.complete (Rule.made_loop _ (.pure _) ⟨?_, ?_, ?_⟩))
    · rintro t ⟨⟩
      exact Expression.made_evaluate test htest
    · exact fun x hx => nomatch hx
    · exact Statement.made_evaluate body hbody
  | forLoop span start test update body =>
    obtain ⟨h, hbody⟩ := both h
    obtain ⟨h, hupdate⟩ := both h
    obtain ⟨hstart, htest⟩ := both h
    exact .ruled _ _ (.complete (Rule.made_loop _ (ForStart.made_begin start hstart)
      ⟨made_evaluateTest test htest, made_evaluateOption update hupdate,
        Statement.made_evaluate body hbody⟩))
  | forInLoop span target x body =>
    obtain ⟨h, hbody⟩ := both h
    obtain ⟨htarget, hx⟩ := both h
    exact .ruled _ _ (.complete (Rule.made_nameLoop
      ⟨ForInTarget.made_assign target htarget, Expression.made_evaluate x hx,
        Statement.made_evaluate body hbody⟩))
  | varDeclaration span ds =>
    exact .ruled _ _ (.complete (Rule.made_varDeclaration (Declarator.made_initials ds h)))
  | functionDeclaration code => exact .ruled _ _ (.pure _)

theorem made_evaluateAlternate (st : Option Statement)
    (h : ¬ deletes → alternateKeepsNames st = true) :
    ∀ y, evaluateAlternate call st = some y → Made deletes call.Calls y := by
  cases st with
  | none => exact fun y hy => nomatch hy
  | some st =>
    rintro y ⟨⟩
    exact Statement.made_evaluate st h

/-- Each of several statements is made of its parts. -/
theorem Statement.made_steps (ss : List Statement) (h : ¬ deletes → bodyKeepsNames ss = true) :
    ∀ step ∈ Statement.steps call ss, Made deletes call.Calls step.run := by
  cases ss with
  | nil => exact fun step hstep => nomatch hstep
  | cons st rest =>
    obtain ⟨hst, hrest⟩ := both h
    exact List.forall_mem_cons.2 ⟨Statement.made_evaluate st hst, Statement.made_steps rest hrest⟩

/-- A block is made of its statements. -/
theorem Block.made_evaluate (b : Block) (h : ¬ deletes → b.keepsNames = true) :
    Made deletes call.Calls (b.evaluate call) := by
  cases b with
  | mk span ss => exact Step.made_runAll (Statement.made_steps ss h) none

theorem made_evaluateFinalizer (b : Option Block)
    (h : ¬ deletes → finalizerKeepsNames b = true) :
    ∀ y, evaluateFinalizer call b = some y → Made deletes call.Calls y := by
  cases b with
  | none => exact fun y hy => nomatch hy
  | some b =>
    rintro y ⟨⟩
    exact Block.made_evaluate b h

/-- A handler runs its block, whatever is thrown. -/
theorem CatchClause.made_handling (clause : Option CatchClause)
    (h : ¬ deletes → handlerKeepsNames clause = true) :
    ∀ y, CatchClause.handling call clause = some y → ∀ v, Made deletes call.Calls (y.run v) := by
  rcases clause with _ | ⟨span, id, b⟩
  · exact fun y hy => nomatch hy
  · rintro y ⟨⟩ v
    exact .handle (Block.made_evaluate b h) id.name v

/-- The tests and the statements of all cases are made of their parts. -/
theorem SwitchCase.made_cases (cs : List SwitchCase)
    (h : ¬ deletes → casesKeepNames cs = true) :
    ∀ c ∈ SwitchCase.cases call cs, c.Made deletes call.Calls := by
  rcases cs with _ | ⟨⟨span, test, ss⟩, rest⟩
  · exact fun c hc => nomatch hc
  · obtain ⟨h, hrest⟩ := both h
    obtain ⟨htest, hss⟩ := both h
    have first : Case.Made deletes call.Calls ⟨evaluateTest call test, Statement.steps call ss⟩ :=
      ⟨made_evaluateTest test htest, Statement.made_steps ss hss⟩
    exact List.forall_mem_cons.2 ⟨first, SwitchCase.made_cases rest hrest⟩

end

end AbstractScript
