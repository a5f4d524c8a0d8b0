import AbstractScript.Proofs.DecidingRules

/-!
# Rules for statements decide

Rule by rule: if the parts of a statement decide, then its rule decides. A test has a truth value,
there are no exits to claim, and a loop that is given up has reported so.
-/
namespace AbstractScript

open Eval Realm

variable {s : Setup} {P : Prop}

/-! ## Statements in order -/

/-- Statements are evaluated in order, since none of them may or may not have exited. -/
theorem Step.runAll_decides {steps : List Step} (h : ∀ step ∈ steps, Harmless s step.run)
    {value : Option Value} (before : P → (Completion.finished value).IsHarmless) :
    Decides s P (runAll value steps) Completion.IsHarmless := by
  induction steps generalizing value P with
  | nil => exact .pure before
  | cons step rest ih =>
    have later : ∀ step ∈ rest, Harmless s step.run :=
      fun later hl => h later (List.mem_cons_of_mem step hl)
    refine Decides.mark.bind fun mark => (h step List.mem_cons_self).always.bind fun c => ?_
    split
    · exact .pure fun given => given.2.updateEmpty (before given.1.1)
    · refine (Decides.hasExitsSince mark).bind fun exits => ?_
      split
      next some =>
        -- a definite machine has no possible exits
        refine .absurd ?_ fun given => ?_
        · split
          · exact .pure _
          · exact .bind (keeps_ambiguously _ (Step.keeps_runAll (fun step hs => (later step hs).keeps)
              none)) fun _ => .pure _
        · rw [given.2] at some
          cases some
      · exact ih later fun given => given.1.2.orElse (before given.1.1.1)

namespace Rule

theorem expression_decides {x : Run Completion} (h : Eval.Harmless s x) :
    Decides s True (expression x) Completion.IsHarmless :=
  .bind (.value h) fun _ => .pure fun given => .normal given.2

theorem throws_decides {x : Run Completion} (h : Eval.Harmless s x) :
    Decides s True (throws x) Completion.IsHarmless :=
  .bind (.value h) fun _ => .pure fun given => .normal given.2

theorem discard_decides {x : Run Completion} (h : Eval.Harmless s x) :
    Decides s True (discard x) fun _ => True :=
  .bind (.value h) fun _ => .pure fun _ => trivial

theorem declarators_decides {ds : List (String × Option (Run Completion))}
    (h : ∀ d ∈ ds, ∀ x, d.2 = some x → Eval.Harmless s x) :
    Decides s P (declarators ds) fun _ => True := by
  induction ds generalizing P with
  | nil => exact .pure fun _ => trivial
  | cons d rest ih =>
    have later : ∀ d ∈ rest, ∀ x, d.2 = some x → Eval.Harmless s x :=
      fun later hl => h later (List.mem_cons_of_mem d hl)
    obtain ⟨name, x⟩ := d
    cases x with
    | none => exact ih later
    | some x =>
      refine .bind (resolve_decides name) fun r => ?_
      refine .bind (.value (h (name, some x) List.mem_cons_self x rfl).always) fun v => ?_
      refine .bind (.native (Op.putValue_decides (fun given => given.1.2.1) And.right)) fun _ => ?_
      exact ih later

theorem varDeclaration_decides {ds : List (String × Option (Run Completion))}
    (h : ∀ d ∈ ds, ∀ x, d.2 = some x → Eval.Harmless s x) :
    Decides s True (varDeclaration ds) Completion.IsHarmless :=
  .bind (declarators_decides h) fun _ => .pure fun _ => .empty rfl

/-- No return may or may not happen. -/
theorem returns_decides {x : Option (Run Completion)} (h : ∀ y, x = some y → Eval.Harmless s y) :
    Decides s True (returns x) Completion.IsHarmless := by
  have ends (v : Value) : Decides s (True ∧ v.isHarmless = true) (do
      if (← MonadState.get).contexts.isAmbiguous then
        modify (·.markReturnUnknown)
        return Completion.normal .undefined
      else return Completion.returns v) Completion.IsHarmless := by
    refine .bind .get fun m => ?_
    split
    next ambiguous =>
      refine .absurd (.bind ⟨fun s m => ?_⟩ fun _ => .pure _) fun given => ?_
      · exact Evaluating.note (R := fun _ => Machine.Reports) m (.returns v)
      · rw [given.2.isAmbiguous] at ambiguous
        cases ambiguous
    · exact .pure fun given => .normal given.1.2
  cases x with
  | none => exact .bind (R := fun v => v.isHarmless = true) (.pure fun _ => rfl) ends
  | some x => exact .bind (.value (h x rfl)) ends

/-- A test has a truth value. -/
theorem branch_decides (span testSpan : Span) {test consequent : Run Completion}
    {alternate : Option (Run Completion)} (htest : Eval.Harmless s test)
    (hconsequent : Eval.Harmless s consequent)
    (halternate : ∀ x, alternate = some x → Eval.Harmless s x) :
    Decides s True (branch span testSpan test consequent alternate) Completion.IsHarmless := by
  have second : Eval.Harmless s (alternate.getD (return .empty)) := by
    cases alternate with
    | none => exact .pure fun _ => .empty rfl
    | some x => exact halternate x rfl
  refine .bind (.value htest) fun v => ?_
  split
  · exact .lift hconsequent.always
  · exact .lift second.always
  next unknown =>
    refine .absurd (.bind (.lift (.aside (markUnknown_keeps testSpan))) fun _ => .lift
      (keeps_ambiguously span (.bind hconsequent.keeps fun c => .bind (keeps_note c) fun _ =>
        second.keeps))) fun given => ?_
    obtain ⟨b, hb⟩ := Value.exists_toBool? (Value.isDefinite_of_isHarmless given.2)
    exact nomatch unknown.symm.trans hb

end Rule

/-! ## Loops -/

/-- What follows a pass, with a harmless value. -/
def Pass.IsHarmless : Pass → Prop
  | .ended c => c.IsHarmless
  | .next value => (Completion.finished value).IsHarmless

/-- What a test says that has a truth value. -/
def LoopTest.IsKnown : LoopTest → Prop
  | .goOn | .stop => True
  | .unknown => False
  | .abrupt c => c.IsHarmless

namespace Eval

theorem claimPasses_decides (labels : List String) (mark : Nat) :
    Decides s P (claimPasses labels mark) fun _ => True :=
  (Decides.claim mark _).bind fun _ => .pure fun _ => trivial

/-- A pass that may have left the loop is not met. -/
theorem afterBody_decides (labels : List String) (mark : Nat) {value : Option Value}
    {c : Completion} {rest : Run Unit} (keeps : Keeps Machine.Reports rest)
    (before : P → (Completion.finished value).IsHarmless) (harmless : P → c.IsHarmless) :
    Decides s P (afterBody labels mark value c rest) Pass.IsHarmless := by
  have ended (given : P) : (Completion.finished (c.value <|> value)).IsHarmless :=
    (harmless given).orElse (before given)
  unfold afterBody
  split
  · refine (Decides.hasExitsSince mark).bind fun exits => ?_
    split
    next some =>
      refine .absurd (.bind (claimPasses_decides (s := s) (P := True) labels mark).keeps fun _ =>
        .bind keeps fun _ => .pure _) fun given => ?_
      rw [given.2] at some
      cases some
    · exact .pure fun given => ended given.1
  · split
    · exact (claimPasses_decides labels mark).bind fun _ => .pure fun given => ended given.1
    · exact .pure fun given => (harmless given).updateEmpty (ended given)

end Eval

namespace Loop

variable {l : Loop}

/-- The parts of a loop decide. -/
structure Decides (s : Setup) (l : Loop) : Prop where
  test : ∀ t, l.test = some t → Harmless s t.2
  update : ∀ x, l.update = some x → Harmless s x
  body : Harmless s l.body

theorem Decides.keeps (h : l.Decides s) : l.Keeps fun _ => Machine.Reports where
  test t ht := (h.test t ht).keeps
  update x hx := (h.update x hx).keeps
  body := h.body.keeps

theorem check_decides (h : l.Decides s) : Eval.Decides s P l.check LoopTest.IsKnown := by
  unfold check
  split
  · exact .pure fun _ => trivial
  next span test found =>
    refine (h.test _ found).always.bind fun c => ?_
    split
    · exact .pure And.right
    · split
      · exact .pure fun _ => trivial
      · exact .pure fun _ => trivial
      next unknown =>
        refine .absurd (.bind (.aside (markUnknown_keeps span)) fun _ => .pure _) fun given => ?_
        obtain ⟨b, hb⟩ := Value.exists_toBool? (Value.isDefinite_of_isHarmless given.2.getValue)
        exact nomatch unknown.symm.trans hb

theorem beforeBody_decides (h : l.Decides s) (labels : List String) (tested : Bool)
    {value : Option Value} (before : P → (Completion.finished value).IsHarmless) :
    Eval.Decides s P (l.beforeBody labels tested value) fun r => ∀ c, r = some c → c.IsHarmless := by
  unfold beforeBody
  split
  · exact .pure fun _ => nofun
  · refine (check_decides h).bind fun test => ?_
    split
    · exact .pure fun _ => nofun
    · refine .pure fun given c hc => ?_
      cases hc
      exact before given.1
    · exact .absurd (.bind (made_giveUp h.keeps.made ..).keeps fun _ => .pure _) And.right
    · refine .pure fun given c hc => ?_
      cases hc
      exact given.2

theorem pass_decides (h : l.Decides s) (labels : List String) (mark : Nat) {value : Option Value}
    (before : P → (Completion.finished value).IsHarmless) :
    Eval.Decides s P (l.pass labels mark value) Pass.IsHarmless := by
  refine h.body.always.bind fun c => ?_
  refine (afterBody_decides labels mark (made_remainder h.keeps.made labels).keeps (fun given => before given.1)
    And.right).bind fun pass => ?_
  split
  · exact .pure And.right
  · split
    · exact .pure And.right
    next update found =>
      refine (h.update update found).always.bind fun c => ?_
      split
      · exact .pure And.right
      · exact .pure fun given => given.1.2

/-- A loop ends, or the limit is reached and reported. -/
theorem iterate_decides (h : l.Decides s) (labels : List String) (passes : Nat) (tested : Bool)
    {value : Option Value} (before : P → (Completion.finished value).IsHarmless) :
    Eval.Decides s P (l.iterate labels passes tested value) Completion.IsHarmless := by
  induction passes generalizing tested value P with
  | zero =>
    refine (beforeBody_decides h labels tested before).bind fun c => ?_
    split
    · exact .pure fun given => given.2 _ rfl
    · refine Eval.Decides.bind (R := fun _ => False) reportMaxIterations_diagnosed fun _ => ?_
      exact .absurd (made_giveUp h.keeps.made ..).keeps And.right
  | succ passes ih =>
    refine Eval.Decides.mark.bind fun mark => ?_
    refine (beforeBody_decides h labels tested fun given => before given.1).bind fun c => ?_
    split
    · exact .pure fun given => given.2 _ rfl
    · refine (pass_decides h labels mark fun given => before given.1.1).bind fun pass => ?_
      split
      · exact .pure And.right
      · exact ih true And.right

theorem evaluate_decides (evaluated : s.options.evaluateLoops = true) (h : l.Decides s)
    (labels : List String) (testFirst : Bool) :
    Eval.Decides s P (l.evaluate labels testFirst) Completion.IsHarmless := by
  refine (Eval.Decides.setup _).bind fun options => ?_
  split
  · exact iterate_decides h _ _ _ fun _ => .empty rfl
  next visited =>
    refine .absurd (made_visitOnce h.keeps.made labels).keeps fun given => visited ?_
    rw [given.2]
    exact evaluated

end Loop

theorem Rule.loop_decides (evaluated : s.options.evaluateLoops = true) (testFirst : Bool)
    {start : Rule Unit} {l : Loop} (hstart : Rule.Decides s True start fun _ => True)
    (h : l.Decides s) : Rule.Decides s True (loop testFirst start l) Completion.IsHarmless := by
  refine .bind (.lift .takeLabels) fun labels => .bind hstart.always fun _ => ?_
  exact .lift (Loop.evaluate_decides evaluated h labels testFirst)

/-! ## Labels -/

theorem Eval.labeled_decides (label : String) (passesOn : Bool) {body : Run Completion}
    (h : Harmless s body) :
    Decides s True (labeled label passesOn body) Completion.IsHarmless := by
  refine Decides.bind (R := fun _ => True) (.modify (fun _ => rfl) fun _ m hm => ?_) fun _ => ?_
  · exact hm.record rfl rfl rfl rfl rfl hm.events
  · refine Decides.mark.bind fun mark => h.always.bind fun c => (Decides.claim mark _).bind fun _ => ?_
    split
    · exact .pure fun given => given.1.2
    · exact .pure fun given => given.1.2

/-! ## Switches -/

/-- Comparison of definite values has an answer. -/
theorem Value.exists_strictlyEqual? {a b : Value} (ha : a.isDefinite = true)
    (hb : b.isDefinite = true) : ∃ e, Value.strictlyEqual? a b = some e := by
  rw [Value.strictlyEqual?, isUnknown_of_isDefinite ha, isUnknown_of_isDefinite hb]
  exact ⟨_, rfl⟩

namespace Case

/-- The test and the body of a case decide. -/
structure Decides (s : Setup) (c : Case) : Prop where
  test : ∀ t, c.test = some t → Harmless s t.2
  body : ∀ step ∈ c.body, Harmless s step.run

theorem Decides.keeps {c : Case} (h : c.Decides s) : c.Keeps fun _ => Machine.Reports where
  test t ht := (h.test t ht).keeps
  body step hs := (h.body step hs).keeps

/-- The case to begin with is known. -/
theorem select_decides {input : Value} {default cs : List Case}
    (known : P → input.isHarmless = true) (h : ∀ c ∈ cs, c.Decides s) :
    Rule.Decides s P (select input default cs) fun chosen =>
      ∃ ds, chosen = .cases ds := by
  induction cs generalizing P with
  | nil => exact .pure fun _ => ⟨default, rfl⟩
  | cons c rest ih =>
    have later : ∀ c ∈ rest, c.Decides s := fun later hl => h later (List.mem_cons_of_mem c hl)
    unfold select
    split
    · exact ih known later
    next span test found =>
      refine .bind (.value ((h c List.mem_cons_self).test _ found).always) fun v => ?_
      split
      · exact .pure fun _ => ⟨_, rfl⟩
      · exact ih (fun given => known given.1) later
      next unknown =>
        -- it is known whether two definite values are equal
        refine .absurd (.bind (.lift (.aside (markUnknown_keeps span))) fun _ => .pure _)
          fun given => ?_
        obtain ⟨e, he⟩ := Value.exists_strictlyEqual?
          (Value.isDefinite_of_isHarmless (known given.1)) (Value.isDefinite_of_isHarmless given.2)
        cases unknown.symm.trans he

/-- No case may have left the switch. -/
theorem fallThrough_decides (span : Span) (labels : List String) {value : Option Value}
    {cs : List Case} (h : ∀ c ∈ cs, c.Decides s)
    (before : P → (Completion.finished value).IsHarmless) :
    Eval.Decides s P (fallThrough span labels value cs) Completion.IsHarmless := by
  induction cs generalizing value P with
  | nil => exact .pure before
  | cons c rest ih =>
    have later : ∀ d ∈ rest, d.Decides s := fun d hd => h d (List.mem_cons_of_mem c hd)
    refine Eval.Decides.mark.bind fun mark => ?_
    refine (Step.runAll_decides (h c List.mem_cons_self).body fun _ => .empty rfl).bind
      fun completion => ?_
    have so_far (given : (P ∧ True) ∧ completion.IsHarmless) :
        (Completion.finished (completion.value <|> value)).IsHarmless :=
      given.2.orElse (before given.1.1)
    split
    · exact (Eval.Decides.claim mark _).bind fun _ => .pure fun given => so_far given.1
    · split
      · exact .pure fun given => given.2.updateEmpty (so_far given)
      · refine (Eval.Decides.claim mark _).bind fun possible => ?_
        split
        · exact ih later fun given => so_far given.1
        next some =>
          -- there are no possible exits that could have been claimed
          have possibly := (made_possibly span labels fun d hd => (later d hd).keeps.made).keeps
          refine .absurd (.join possibly (fun _ => .pure _) (.pure _)) fun given => some ?_
          rw [given.2]
          rfl

end Case

theorem Rule.switch_decides (span inputSpan : Span) {input : Run Completion} {cs : List Case}
    (hinput : Eval.Harmless s input) (h : ∀ c ∈ cs, c.Decides s) :
    Rule.Decides s True (switch span inputSpan input cs) Completion.IsHarmless := by
  have possibly (labels : List String) :
      Rule.Keeps Machine.Reports (lift (Case.possibly span labels cs)) :=
    .lift (Case.made_possibly span labels fun c hc => (h c hc).keeps.made).keeps
  refine .bind (.lift .takeLabels) fun labels => .bind (.value hinput.always) fun v => ?_
  split
  next unknown =>
    -- the input is definite
    refine .absurd (.bind (.lift (.aside (markUnknown_keeps inputSpan))) fun _ => possibly labels)
      fun given => ?_
    rw [Value.isUnknown_of_isDefinite (Value.isDefinite_of_isHarmless given.2)] at unknown
    cases unknown
  · have default : ∀ c ∈ Case.fromDefault cs, c.Decides s :=
      fun c hc => h c ((List.dropWhile_sublist _).subset hc)
    refine .bind_of (Case.select_decides And.right h) (Case.select_gives v default h)
      fun chosen decided => ?_
    split
    · exact .absurd (possibly labels) fun ⟨_, ds, same⟩ => nomatch same
    · exact .pure fun _ => .empty rfl
    · exact .lift (Case.fallThrough_decides span labels (decided _ rfl) fun _ => .empty rfl)

/-! ## Exceptions -/

namespace Eval

/-- After a computation with another environment the one from before is back. -/
theorem inScope_decides (e : EnvId) {x : Run Completion} (h : Decides s P x Completion.IsHarmless) :
    Decides s P (inScope e x) Completion.IsHarmless := by
  refine Decides.get.bind fun m => ?_
  refine Decides.bind (R := fun _ => True) (.modify (fun _ => rfl) fun _ n hn => hn.setLexicalEnv e)
    fun _ => ?_
  exact .ensuring (h.of fun given => given.1.1) (fun _ => rfl) fun _ n hn => hn.setLexicalEnv _

theorem handle_decides (name : String) {body : Run Completion} (h : Harmless s body)
    {thrown : Value} (harmless : P → thrown.isHarmless = true) :
    Decides s P (handle name body thrown) Completion.IsHarmless := by
  refine Rule.Decides.complete (.bind .get fun m => ?_)
  refine .bind (.lift (.createEnvironment fun _ => Environment.definite_fresh _)) fun e => ?_
  refine .bind (.native (Op.createBinding_decides e name false)) fun _ => ?_
  refine .bind (.native (Op.setBinding_decides e name fun given => harmless given.1.1.1)) fun _ => ?_
  exact .lift (inScope_decides e h.always)

/-- A handler decides for harmless exceptions. -/
structure Handling.Decides (s : Setup) (h : Handling) : Prop where
  keeps : ∀ v, Keeps Machine.Reports (h.run v)
  decides : ∀ (P : Prop) (v : Value), (P → v.isHarmless = true) →
    Eval.Decides s P (h.run v) Completion.IsHarmless

theorem guarded_decides (handled : Bool) {block : Run Completion} (h : Harmless s block) :
    Harmless s (guarded handled block) := by
  refine Decides.bind (R := fun _ => True) (Decides.get.bind fun _ => .pure fun _ => trivial) fun _ => ?_
  refine h.always.bind fun c => ?_
  refine Decides.bind (R := fun _ => True) (.modify (fun _ => rfl) fun _ m hm => ?_) fun _ => ?_
  · exact hm.record rfl rfl rfl rfl rfl hm.events
  · exact .pure fun given => given.1.2

/-- Nothing may or may not have been thrown. -/
theorem handleThrows_decides (mark : Nat) {c : Completion} {h : Handling} (hh : Handling.Decides s h)
    (harmless : P → c.IsHarmless) :
    Decides s P (handleThrows mark c h) Completion.IsHarmless := by
  refine (Decides.claim mark _).bind fun possible => ?_
  split
  · exact hh.decides _ _ fun given => (harmless given.1).getValue
  · split
    next some =>
      refine .absurd (.bind (keeps_ambiguously _ (hh.keeps _)) fun _ => .pure _) fun given => ?_
      rw [given.2] at some
      cases some
    · exact .pure fun given => harmless given.1

theorem finish_decides {c : Completion} {finalizer : Run Completion} (h : Harmless s finalizer)
    (harmless : P → c.IsHarmless) : Decides s P (finish c finalizer) Completion.IsHarmless := by
  refine Decides.mark.bind fun mark => h.always.bind fun final => ?_
  refine Decides.bind (R := fun _ => True) (.modify (fun _ => rfl) fun _ m hm => ?_) fun _ => ?_
  · exact hm.record rfl rfl rfl rfl rfl hm.events
  · refine .pure fun given => ?_
    split
    · exact given.1.2
    · exact harmless given.1.1.1

/-- A completion passes through the last block of a `try`, if there is one. -/
theorem finishOption_decides {c : Completion} {finalizer : Option (Run Completion)}
    (hfinalizer : ∀ f, finalizer = some f → Harmless s f) (harmless : P → c.IsHarmless) :
    Decides s P (match finalizer with
      | some f => finish c f
      | none => return c) Completion.IsHarmless := by
  split
  next f => exact finish_decides (hfinalizer f rfl) harmless
  · exact .pure harmless

theorem tryBlock_decides {block : Run Completion} {handler : Option Handling}
    {finalizer : Option (Run Completion)} (hblock : Harmless s block)
    (hhandler : ∀ h, handler = some h → Handling.Decides s h)
    (hfinalizer : ∀ f, finalizer = some f → Harmless s f) :
    Decides s True (tryBlock block handler finalizer) Completion.IsHarmless := by
  refine Decides.mark.bind fun mark => (guarded_decides _ hblock).always.bind fun c => ?_
  cases handler with
  | some h =>
    exact (handleThrows_decides mark (hhandler h rfl) And.right).bind fun c =>
      finishOption_decides hfinalizer And.right
  | none =>
    exact Decides.bind (.pure And.right) fun c => finishOption_decides hfinalizer And.right

end Eval

end AbstractScript
