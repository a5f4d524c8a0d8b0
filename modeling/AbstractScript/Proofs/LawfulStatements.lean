import AbstractScript.Proofs.LawfulLoops

/-!
# Statements are lawful

What comes after a statement that may have exited is evaluated once, in either way. A switch
evaluates each of its cases at most once, and a `try` its block, its handler and its last block.
-/
namespace AbstractScript

open Eval World

variable {L : Law} {w : World} {a b c d t u : Nat}

/-- Statements are lawful after any value of the ones before them. -/
structure Step.Lawful (L : Law) (cost : Nat) (w : World) (steps : List Step) : Prop where
  run : ∀ {w' value}, w.Grows w' → w'.Holds value →
    (Step.runAll value steps).Lawful L cost w'

namespace Step

/-- Statements stay lawful in a world that has grown. -/
theorem Lawful.grow {w' : World} {steps : List Step} (h : Step.Lawful L c w steps)
    (grows : w.Grows w') : Step.Lawful L c w' steps := ⟨fun more => h.run (grows.trans more)⟩

/-- Statements are lawful before there is a value. -/
theorem Lawful.fresh {steps : List Step} (h : Step.Lawful L c w steps) :
    (Step.runAll none steps).Lawful L c w :=
  h.run (.refl w) (trivial : w.Holds (none : Option Value))

/-- No statements cost nothing and give the value so far. -/
theorem Lawful.nil : Step.Lawful L 0 w [] := ⟨fun _ hvalue => .pure hvalue⟩

/-- What comes after a statement is evaluated once: in turn, or as something that may or may not
happen. -/
theorem Lawful.cons {step : Step} {rest : List Step} (hstep : step.run.Lawful L c w)
    (h : Step.Lawful L d w rest) : Step.Lawful L (c + d) w (step :: rest) where
  run grows hvalue := by
    refine .bind lawful_mark fun more mark _ => ?_
    have grows := grows.trans more
    have hvalue := more.lift hvalue
    refine .bind_add (hstep.grow grows) fun more completion held => ?_
    have grows := grows.trans more
    have hvalue := more.lift hvalue
    split
    · exact .pure (Completion.holds_updateEmpty held hvalue)
    · extract_lets value
      have hvalue := holds_orElse (x := completion.value) held hvalue
      -- What is left is evaluated in one of the two branches, never in both.
      refine .bind (lawful_hasExitsSince mark) fun more exits _ => ?_
      have grows := grows.trans more
      have hvalue := more.lift hvalue
      split
      · split
        · exact .pure hvalue
        · refine .bind_free (lawful_ambiguously _ (h.run grows trivial)) fun more _ _ => ?_
          exact .pure (more.lift hvalue)
      · exact h.run grows hvalue

end Step

namespace Rule

/-- An expression statement costs what its expression costs. -/
theorem lawful_expression {x : Run Completion} (h : x.Lawful L c w) :
    (expression x).Lawful L c w := .bind_free (.value h) fun _ _ hv => .pure hv

/-- So does a throw. -/
theorem lawful_throws {x : Run Completion} (h : x.Lawful L c w) : (throws x).Lawful L c w :=
  .bind_free (.value h) fun _ _ hv => .pure hv

/-- So does an expression whose value is dropped. -/
theorem lawful_discard {x : Run Completion} (h : x.Lawful L c w) : (discard x).Lawful L c w :=
  .bind_free (.value h) fun _ _ _ => .pure trivial

/-- A declaration without a value costs nothing. -/
theorem lawful_declarators_none {name : String} {ds : List (String × Option (Run Completion))}
    (h : (declarators ds).Lawful L c w) : (declarators ((name, none) :: ds)).Lawful L c w := h

/-- A declaration with a value adds the cost of the value. -/
theorem lawful_declarators_some {name : String} {x : Run Completion}
    {ds : List (String × Option (Run Completion))} (hx : x.Lawful L c w)
    (h : (declarators ds).Lawful L d w) :
    (declarators ((name, some x) :: ds)).Lawful L (c + d) w := by
  refine .bind (lawful_resolve name) fun grows r hr => ?_
  refine .bind_add (.value (hx.grow grows)) fun more v hv => ?_
  refine .bind (.native (Op.lawful_putValue (more.lift hr) hv)) fun last _ _ => ?_
  exact h.grow ((grows.trans more).trans last)

/-- The declarations of a statement add up. -/
theorem lawful_varDeclaration {ds : List (String × Option (Run Completion))}
    (h : (declarators ds).Lawful L c w) : (varDeclaration ds).Lawful L c w :=
  .bind_free h fun _ _ _ => .pure trivial

/-- A return costs what its value costs, if it has one. -/
theorem lawful_returns {x : Option (Run Completion)} (h : ∀ y, x = some y → y.Lawful L c w) :
    (returns x).Lawful L c w := by
  have ends {w' : World} {v : Value} (hv : w'.Holds v) : Rule.Lawful L 0 w' (do
      if (← MonadState.get).contexts.isAmbiguous then
        modify (·.markReturnUnknown)
        return Completion.normal .undefined
      else return Completion.returns v) := by
    refine .get_bind fun m => ?_
    split
    · have marked : (modify Machine.markReturnUnknown : Run Unit).Lawful L 0 w' :=
        .modify fun _ valid _ => valid.markReturnUnknown
      exact .bind (.lift marked) fun _ _ _ => .pure trivial
    · exact .pure hv
  cases x with
  | none => exact .bind_free (.pure trivial) fun _ _ hv => ends hv
  | some x => exact .bind_free (.value (h x rfl)) fun _ _ hv => ends hv

/-- Both branches count, as both are evaluated when the test is unknown. -/
theorem lawful_branch (span testSpan : Span) {test consequent : Run Completion}
    {alternate : Option (Run Completion)} (htest : test.Lawful L t w)
    (hconsequent : consequent.Lawful L c w)
    (halternate : ∀ x, alternate = some x → x.Lawful L d w) :
    (branch span testSpan test consequent alternate).Lawful L (t + (c + d)) w := by
  have second : (alternate.getD (return .empty)).Lawful L d w := by
    cases alternate with
    | none => exact .pure trivial
    | some x => exact halternate x rfl
  refine .bind_add (.value htest) fun grows v _ => ?_
  split
  · exact .lift ((hconsequent.grow grows).mono (Nat.le_add_right c d))
  · exact .lift ((second.grow grows).mono (Nat.le_add_left d c))
  · refine .bind (.lift (.of_unmoved (markUnknown_unmoved testSpan))) fun more _ _ => .lift ?_
    have grows := grows.trans more
    refine lawful_ambiguously span ((hconsequent.grow grows).bind_add fun more _ held => ?_)
    exact .bind (lawful_note held) fun last _ _ => second.grow (grows.trans (more.trans last))

/-- A loop costs what comes first and what its passes cost. -/
theorem lawful_loop (testFirst : Bool) {start : Rule Unit} {l : Loop}
    (hstart : start.Lawful L a w) (h : l.Lawful L t u b w) :
    (loop testFirst start l).Lawful L
      (a + (L.loops + 1) * (4 * (t + u + b))) w := by
  refine .bind (.lift lawful_takeLabels) fun grows labels _ => ?_
  refine .bind_add (hstart.grow grows) fun more _ _ => .lift ?_
  exact Loop.lawful_evaluate (h.grow (grows.trans more)) labels testFirst

/-- A loop over names costs what its object costs and what its passes cost. -/
theorem lawful_nameLoop {l : NameLoop} (h : l.Lawful L a b w)
    (hobject : l.object.2.Lawful L c w) :
    (nameLoop l).Lawful L
      (c + (L.loops + 1) * (2 * (a + b))) w :=
  .bind (.lift lawful_takeLabels) fun grows labels _ =>
    NameLoop.lawful_evaluate (h.grow grows) (hobject.grow grows) labels

end Rule

/-- A label costs nothing; the exits aimed at it are claimed. -/
theorem Eval.lawful_labeled (label : String) (passesOn : Bool) {body : Run Completion}
    (h : body.Lawful L c w) : (labeled label passesOn body).Lawful L c w := by
  refine .bind (.modify fun _ valid _ => Machine.Unmoved.reaches ⟨rfl, rfl, rfl⟩ valid) ?_
  intro _ grows _ _
  refine .bind lawful_mark fun more mark _ => ?_
  refine .bind_free (h.grow (grows.trans more)) fun _ completion held => ?_
  refine .bind (lawful_claim ..) fun more _ _ => .pure ?_
  have held := more.lift held
  split
  · exact (held : World.Holds _ completion.value)
  · exact held

/-! ## Switches -/

instance : Located Selection := .trivial _

namespace Case

/-- The tests and the bodies of cases are lawful, at what all of them cost. -/
inductive AllLawful (L : Law) (w : World) : Nat → List Case → Prop where
  | nil {cost : Nat} : AllLawful L w cost []
  | cons {test body rest cost : Nat} {case : Case} {cases : List Case}
    (htest : ∀ x, case.test = some x → x.2.Lawful L test w)
    (hbody : Step.Lawful L body w case.body) (hrest : AllLawful L w rest cases)
    (le : test + body + rest ≤ cost) : AllLawful L w cost (case :: cases)

namespace AllLawful

variable {cases : List Case}

/-- The cost of cases may be overestimated. -/
theorem mono (h : AllLawful L w c cases) (le : c ≤ d) : AllLawful L w d cases := by
  cases h with
  | nil => exact .nil
  | cons test body rest sum => exact .cons test body rest (Nat.le_trans sum le)

/-- Cases stay lawful in a world that has grown. -/
theorem grow {w' : World} (h : AllLawful L w c cases) (grows : w.Grows w') :
    AllLawful L w' c cases := by
  induction h with
  | nil => exact .nil
  | cons test body rest le ih =>
    exact .cons (fun x found => (test x found).grow grows) (body.grow grows) ih le

/-- The last ones of some cases do not cost more than all of them. -/
theorem of_suffix (h : AllLawful L w c cases) {last : List Case} (suffix : last <:+ cases) :
    AllLawful L w c last := by
  induction h with
  | nil =>
    rw [List.suffix_nil.1 suffix]
    exact .nil
  | cons test body rest le ih =>
    rcases List.suffix_cons_iff.1 suffix with rfl | later
    · exact .cons test body rest le
    · exact (ih later).mono (by omega)

end AllLawful

/-- To select a case evaluates each test once at most. -/
theorem lawful_select {input : Value} (default : List Case) {cases : List Case}
    (h : AllLawful L w c cases) : (select input default cases).Lawful L c w := by
  induction cases generalizing c w with
  | nil => exact .pure trivial
  | cons case rest ih =>
    cases h with
    | cons test body rest le =>
      unfold select
      split
      · exact (ih rest).mono (by omega)
      next span x found =>
        refine Rule.Lawful.mono (.bind_add (.value (test _ found)) fun grows v _ => ?_)
          (Nat.le_trans (Nat.add_le_add_right (Nat.le_add_right _ _) _) le)
        split
        · exact .pure trivial
        · exact ih (rest.grow grows)
        · exact .bind (.lift (.of_unmoved (markUnknown_unmoved span))) fun _ _ _ => .pure trivial

/-- The cases that are run are the last ones of those that there are. -/
theorem select_suffix (input : Value) {default all cases : List Case} (hdefault : default <:+ all)
    (h : cases <:+ all) :
    Rule.Gives (fun chosen => ∀ ds, chosen = .cases ds → ds <:+ all)
      (select input default cases) := by
  -- by induction on the clauses: what is chosen are all clauses from one of them on
  induction cases with
  | nil =>
    refine .pure fun ds hds => ?_
    cases hds
    exact hdefault
  | cons case rest ih =>
    have later := ih ((List.suffix_cons case rest).trans h)
    unfold select
    split
    · exact later
    · refine .bind fun v => ?_
      split
      · refine .pure fun ds hds => ?_
        cases hds
        exact h
      · exact later
      · exact .bind fun _ => .pure fun ds hds => by cases hds

/-- Each of the bodies that may be entered is evaluated once. -/
theorem lawful_noteAll {cases : List Case} (h : AllLawful L w c cases) :
    (noteAll cases).Lawful L c w := by
  induction cases generalizing c w with
  | nil => exact .pure trivial
  | cons case rest ih =>
    cases h with
    | cons test body rest le =>
      have all := body.fresh.bind_add fun grows _ held =>
        .bind (lawful_note held) fun more _ _ => ih (rest.grow (grows.trans more))
      exact all.mono (Nat.le_trans (Nat.add_le_add_right (Nat.le_add_left _ _) _) le)

/-- So the bodies cost once what they cost together, though all may or may not happen. -/
theorem lawful_possibly (span : Span) (labels : List String) {cases : List Case}
    (h : AllLawful L w c cases) : (possibly span labels cases).Lawful L c w := by
  refine .bind lawful_mark fun grows mark _ => ?_
  refine .bind_free (lawful_ambiguously span (lawful_noteAll (h.grow grows))) fun _ _ _ => ?_
  exact .bind (lawful_claim ..) fun _ _ _ => .pure trivial

/-- The bodies from a case on are evaluated once each. -/
theorem lawful_fallThrough (span : Span) (labels : List String) {value : Option Value}
    {cases : List Case} (h : AllLawful L w c cases) (hvalue : w.Holds value) :
    (fallThrough span labels value cases).Lawful L c w := by
  induction cases generalizing c w value with
  | nil => exact .pure hvalue
  | cons case rest ih =>
    cases h with
    | cons test body rest le =>
      refine Eval.Lawful.mono (.bind lawful_mark fun grows mark _ => ?_)
        (Nat.le_trans (Nat.add_le_add_right (Nat.le_add_left _ _) _) le)
      refine .bind_add (body.run grows trivial) fun {w'} more completion held => ?_
      have rest := rest.grow (grows.trans more)
      have hvalue : w'.Holds (completion.value <|> value) :=
        holds_orElse (x := completion.value) held ((grows.trans more).lift hvalue)
      split
      · exact .bind (lawful_claim ..) fun grows _ _ => .pure (grows.lift hvalue)
      · split
        · exact .pure (Completion.holds_updateEmpty held hvalue)
        · refine .bind (lawful_claim ..) fun grows left _ => ?_
          have rest := rest.grow grows
          have hvalue := grows.lift hvalue
          split
          · exact ih rest hvalue
          · split
            · exact .bind_free (lawful_possibly span labels rest) fun more _ _ =>
                .pure (more.lift hvalue)
            · exact .pure hvalue

end Case

/-- The tests of the cases are evaluated at most once, and so are their bodies. -/
theorem Rule.lawful_switch (span inputSpan : Span) {input : Run Completion} {cases : List Case}
    (hinput : input.Lawful L c w) (h : Case.AllLawful L w d cases) :
    (Rule.switch span inputSpan input cases).Lawful L (c + (d + d)) w := by
  refine .bind (.lift lawful_takeLabels) fun grows labels _ => ?_
  refine .bind_add (.value (hinput.grow grows)) fun more v hv => ?_
  have h := h.grow (grows.trans more)
  -- The tests and then the bodies, or all at once if the input is unknown.
  split
  · refine .bind (.lift (.of_unmoved (markUnknown_unmoved inputSpan))) fun more _ _ => .lift ?_
    exact (Case.lawful_possibly span labels (h.grow more)).mono (Nat.le_add_left d d)
  · have default : Case.fromDefault cases <:+ cases := List.dropWhile_suffix _
    refine .bind_add_of (Case.lawful_select _ h)
      (Case.select_suffix v default (List.suffix_refl cases)) fun more chosen _ suffix => ?_
    have h := h.grow more
    split
    · exact .lift (Case.lawful_possibly span labels h)
    · exact .pure trivial
    · exact .lift (Case.lawful_fallThrough span labels (h.of_suffix (suffix _ rfl)) trivial)

/-! ## Exceptions -/

/-- A handler is lawful for every exception. -/
structure Handling.Lawful (L : Law) (cost : Nat) (w : World) (h : Handling) : Prop where
  run : ∀ {w' thrown}, w.Grows w' → w'.Holds thrown → (h.run thrown).Lawful L cost w'

/-- A handler stays lawful in a world that has grown. -/
theorem Handling.Lawful.grow {w' : World} {h : Handling} (lawful : h.Lawful L c w)
    (grows : w.Grows w') : h.Lawful L c w' := ⟨fun more => lawful.run (grows.trans more)⟩

namespace Eval

/-- A change of scope costs nothing and is undone. -/
theorem lawful_inScope {e : EnvId} {x : Run Completion} (he : w.Holds e) (hx : x.Lawful L c w) :
    (inScope e x).Lawful L c w := by
  refine .get_bind_at fun m valid grows => ?_
  have outer := valid.holds_lexicalEnv
  refine .bind (.modify (valid.setLexicalEnv (grows.lift he))) fun _ n _ entered _ => ?_
  refine (hx.run n entered.valid (grows.trans entered.grows)).ensuring fun k reached => ?_
  -- The outer environment is still there, since none is ever removed.
  exact reached.valid.setLexicalEnv ((entered.grows.trans reached.grows).lift outer)

/-- A handler has an environment of its own, which holds what was thrown. -/
theorem lawful_handle (name : String) {body : Run Completion} {thrown : Value}
    (hthrown : w.Holds thrown) (hbody : body.Lawful L c w) :
    (handle name body thrown).Lawful L c w := by
  refine Rule.Lawful.complete (.get_bind_at fun m valid grows => ?_)
  have fresh : (m.world L).Holds (Environment.fresh (some m.lexicalEnv)) :=
    ⟨holds_empty, valid.holds_lexicalEnv⟩
  refine Rule.Lawful.at_machine ?_ valid
  refine .bind (.lift (lawful_createEnvironment fresh)) fun more e he => ?_
  refine .bind (.native (Op.lawful_createBinding ..)) fun next _ _ => ?_
  have grows := grows.trans (more.trans next)
  refine .bind (.native (Op.lawful_setBinding e (grows.lift hthrown))) fun last _ _ => .lift ?_
  exact lawful_inScope ((next.trans last).lift he) (hbody.grow (grows.trans last))

/-- A block costs the same whether or not it has a handler. -/
theorem lawful_guarded (handled : Bool) {block : Run Completion} (h : block.Lawful L c w) :
    (guarded handled block).Lawful L c w := by
  refine .bind (.get_bind fun _ => .free _) fun grows _ _ => ?_
  refine .bind_free (h.grow grows) fun _ _ held => ?_
  exact .bind (.of_unmoved (.modify fun _ => ⟨rfl, rfl, rfl⟩)) fun more _ _ => .pure (more.lift held)

/-- A handler runs once at most, for a throw or for possible ones. -/
theorem lawful_handleThrows (mark : Nat) {completion : Completion} {handler : Handling}
    (held : w.Holds completion) (h : handler.Lawful L c w) :
    (handleThrows mark completion handler).Lawful L c w := by
  refine .bind (lawful_claim ..) fun grows possible _ => ?_
  have held := grows.lift held
  split
  · exact h.run grows (Completion.holds_getValue held)
  · split
    · exact .bind_free (lawful_ambiguously _ (h.run grows trivial)) fun more _ _ =>
        .pure (more.lift held)
    · exact .pure held

/-- A last block replaces the completion only by one of its own. -/
theorem lawful_finish {completion : Completion} {finalizer : Run Completion}
    (held : w.Holds completion) (h : finalizer.Lawful L c w) :
    (finish completion finalizer).Lawful L c w := by
  refine .bind lawful_mark fun grows mark _ => .bind_free (h.grow grows) fun more final hfinal => ?_
  refine .bind (.of_unmoved (.modify fun _ => ⟨rfl, rfl, rfl⟩)) fun last _ _ => .pure ?_
  split
  · exact last.lift hfinal
  · exact ((grows.trans more).trans last).lift held

/-- The last block of a `try`, if there is one, is evaluated once. -/
theorem lawful_finishOption {completion : Completion} {finalizer : Option (Run Completion)}
    (held : w.Holds completion) (hfinalizer : ∀ f, finalizer = some f → f.Lawful L d w) :
    Eval.Lawful L d w (match finalizer with
      | some f => finish completion f
      | none => return completion) := by
  cases finalizer with
  | none => exact .pure held
  | some f => exact lawful_finish held (hfinalizer f rfl)

/-- A `try` evaluates its block, its handler and its last block at most once. -/
theorem lawful_tryBlock {block : Run Completion} {handler : Option Handling}
    {finalizer : Option (Run Completion)} (hblock : block.Lawful L b w)
    (hhandler : ∀ h, handler = some h → h.Lawful L c w)
    (hfinalizer : ∀ f, finalizer = some f → f.Lawful L d w) :
    (tryBlock block handler finalizer).Lawful L (b + (c + d)) w := by
  have ends {w' : World} (grows : w.Grows w') {completion : Completion}
      (held : w'.Holds completion) :=
    lawful_finishOption held fun f found => (hfinalizer f found).grow grows
  refine .bind lawful_mark fun grows mark _ => ?_
  refine .bind_add (lawful_guarded _ (hblock.grow grows)) fun more _ held => ?_
  have grows := grows.trans more
  cases handler with
  | none => exact (ends grows held).mono (Nat.le_add_left d c)
  | some h =>
    have h := (hhandler h rfl).grow grows
    exact (lawful_handleThrows mark held h).bind_add fun more _ held => ends (grows.trans more) held

end Eval

end AbstractScript
