import AbstractScript.Proofs.JumpRules

/-!
# Statements end with their free jumps

Rule by rule: what a statement does not end itself of the free jumps of its parts is what the rule
of the statement may end with.
-/
namespace AbstractScript

open Eval Completion

/-! ## Computations with free jumps -/

/-- A statement with labels that ends with one of some free jumps or with none, at every ambiguous
depth. -/
def Eval.EndsIn (labels : List String) (free : List Jump) (x : Run Completion) : Prop :=
  ∀ depth, Ends depth labels (·.Fits depth free) x

/-- A rule that ends with one of some free jumps or with none, at every ambiguous depth. -/
def Rule.EndsIn (labels : List String) (free : List Jump) (r : Rule Completion) : Prop :=
  ∀ depth, Ends depth labels (·.Fits depth free) r

/-- A computation that keeps the contexts, whatever it gives. -/
def Eval.Passes {α : Type} (x : Run α) : Prop := ∀ depth, Ends depth [] (fun _ => True) x

section

variable {α β : Type} {labels : List String} {free free' : List Jump}

/-- What ends with one of some jumps ends with one of more jumps. -/
theorem Eval.EndsIn.mono {x : Run Completion} (h : EndsIn labels free x) (sub : free ⊆ free') :
    EndsIn labels free' x :=
  fun depth => (h depth).mono fun _ fits => fits.mono sub

/-- What ends well without labels does so with labels. -/
theorem Eval.EndsIn.given {x : Run Completion} (h : EndsIn [] free x) : EndsIn labels free x :=
  fun depth => (h depth).given

/-- What ends with one of some jumps keeps the contexts. -/
theorem Eval.EndsIn.passes {x : Run Completion} (h : EndsIn [] free x) : Eval.Passes x :=
  fun depth => (h depth).mono fun _ _ => trivial

/-- What ends with a value or a throw ends with no jump. -/
theorem Eval.EndsValued.endsIn {x : Run Completion} (h : Eval.EndsValued x) : EndsIn [] free x :=
  fun depth => (h depth).mono fun _ valued => valued.fits depth free

/-- What ends with a value or a throw keeps the contexts. -/
theorem Eval.EndsValued.passes {x : Run Completion} (h : Eval.EndsValued x) : Eval.Passes x :=
  fun depth => (h depth).mono fun _ _ => trivial

/-- The contexts are kept step by step. -/
theorem Eval.Passes.bind {x : Run α} {f : α → Run β} (h : Passes x) (hf : ∀ a, Passes (f a)) :
    Passes (x >>= f) :=
  fun depth => .bind (h depth) fun a _ => hf a depth

theorem Eval.Passes.pure (a : α) : Passes (Pure.pure a : Run α) := fun _ => .pure trivial

/-- What keeps exits and contexts keeps the contexts. -/
theorem Eval.passes_steady {x : Run α} (h : Keeps Machine.Steady x) : Passes x :=
  fun _ => .of_steady h

/-- What only touches the records aside keeps the contexts. -/
theorem Eval.passes_aside {x : Run α} (h : Keeps Machine.Aside x) : Passes x :=
  passes_steady (.aside h)

/-- What follows a computation says how it ends. -/
theorem Eval.EndsIn.bind {x : Run α} {f : α → Run Completion} (h : Eval.Passes x)
    (hf : ∀ a, EndsIn [] free (f a)) : EndsIn [] free (x >>= f) :=
  fun depth => .bind (h depth) fun a _ => hf a depth

/-- A rule ends as its last part does. -/
theorem Rule.EndsIn.complete {r : Rule Completion} (h : r.EndsIn labels free) :
    Eval.EndsIn labels free r.complete :=
  fun depth => (h depth).complete fun _ valued => valued.fits depth free

/-- A rule that ends with a value or a throw ends with no jump. -/
theorem Rule.EndsValued.endsIn {r : Rule Completion} (h : r.EndsValued) : r.EndsIn [] free :=
  fun depth => (h depth).mono fun _ valued => valued.fits depth free

/-- The last part of a rule says how it ends. -/
theorem Rule.EndsIn.bind {r : Rule α} {f : α → Rule Completion} (h : r.Passes)
    (hf : ∀ a, (f a).EndsIn [] free) : Rule.EndsIn [] free (r >>= f) :=
  fun depth => .bind (h depth) fun a _ => hf a depth

/-- A computation in a rule ends the rule as it ends itself. -/
theorem Rule.EndsIn.lift {x : Run Completion} (h : Eval.EndsIn labels free x) :
    (Rule.lift x).EndsIn labels free :=
  fun depth => .lift (h depth)

/-- A rule may finish with a value or with none. -/
theorem Rule.EndsIn.finished (v : Option Value) :
    Rule.EndsIn [] free (Pure.pure (Completion.finished v)) :=
  fun depth => .pure (fits_finished depth free v)

theorem Eval.EndsIn.finished (v : Option Value) :
    Eval.EndsIn [] free (Pure.pure (Completion.finished v)) :=
  fun depth => .pure (fits_finished depth free v)

end

/-! ## Possible exits -/

namespace Eval

theorem passes_mark : Passes (mark : Run Nat) := passes_steady (.bind .get fun _ => .pure _)

theorem passes_hasExitsSince (mark : Nat) : Passes (hasExitsSince mark : Run Bool) :=
  passes_steady (keeps_hasExitsSince mark)

theorem passes_note (c : Completion) : Passes (note c : Run Unit) := passes_steady (keeps_note c)

/-- A claim is about possible exits only. -/
theorem passes_claim (mark : Nat) (p : Completion → Bool) :
    Passes (claim mark p : Run (List PossibleExit)) :=
  fun _ => .of_contexts fun _ m => .inl (m.dropClaimed_unchanged mark p).1

/-- To claim exits of a loop is to claim exits. -/
theorem passes_claimPasses (labels : List String) (mark : Nat) : Passes (claimPasses labels mark) :=
  .bind (passes_claim _ _) fun _ => .pure _

/-- A block that may or may not happen is left as it was entered. -/
theorem passes_ambiguously (span : Span) {x : Run Completion} (h : Passes x) :
    Passes (ambiguously span x) :=
  fun _ => (ends_ambiguously span h).mono fun _ _ => trivial

/-- The labels that are taken are those of the statement, at least. -/
theorem ends_takeLabels (depth : Nat) (labels : List String) :
    Ends depth labels (labels ⊆ ·) takeLabels where
  contexts _ := .refl _
  result := by
    intro s m taken n begins run
    cases run
    exact begins.labels

end Eval

/-! ## Loops -/

/-- What follows a pass of a loop: the end of the loop fits some free jumps. -/
def Pass.Fits (depth : Nat) (free : List Jump) : Pass → Prop
  | .ended c => c.Fits depth free
  | .next _ => True

section

variable {given labels : List String} {free : List Jump}

/-- A completion that does not end a pass of a loop is a jump out of the loop, if it is a jump. -/
theorem Completion.Fits.leavesLoop {depth : Nat} {c : Completion} (h : c.Fits depth free)
    (sub : given ⊆ labels) (stays : c.endsPass labels = false) :
    c.Fits depth (free.filter (!·.staysInLoop given)) := by
  refine h.filter fun j hj => ?_
  -- with all its labels the loop ends at least the jumps that it ends with the given ones
  have all : j.staysInLoop labels = false := (staysInLoop_of_jump? hj labels).trans stays
  exact eq_false_of_ne_true fun some => by
    rw [Jump.staysInLoop_mono sub some] at all
    cases all

/-- What passes by a switch is no jump that stays in it. -/
theorem Completion.Fits.leavesCases {depth : Nat} {c : Completion} (h : c.Fits depth free)
    (sub : given ⊆ labels) (stays : c.leavesSwitch labels = false) :
    c.Fits depth (free.filter (!·.staysInSwitch given)) := by
  refine h.filter fun j hj => ?_
  have all : j.staysInSwitch labels = false := (staysInSwitch_of_jump? hj labels).trans stays
  exact eq_false_of_ne_true fun some => by
    rw [Jump.staysInSwitch_mono sub some] at all
    cases all

/-- After a body a loop has ended with a jump that leaves it, or it goes on. -/
theorem Eval.ends_afterBody (sub : given ⊆ labels) (mark : Nat) (value : Option Value) {depth : Nat}
    {c : Completion} (h : c.Fits depth free) {rest : Run Unit} (hrest : Passes rest) :
    Ends depth [] (Pass.Fits depth (free.filter (!·.staysInLoop given)))
      (afterBody labels mark value c rest) := by
  unfold afterBody
  split
  · refine .bind (passes_hasExitsSince mark depth) fun exits _ => ?_
    split
    · exact .bind (passes_claimPasses labels mark depth) fun _ _ =>
        .bind (hrest depth) fun _ _ => .pure (fits_finished ..)
    · exact .pure trivial
  next goesOn =>
    split
    · exact .bind (passes_claimPasses labels mark depth) fun _ _ => .pure (fits_finished ..)
    next leaves =>
      have stays : c.endsPass labels = false := by
        unfold Completion.endsPass
        grind
      exact .pure ((h.leavesLoop sub stays).updateEmpty _)

end

namespace Loop

variable {l : Loop} {given labels : List String} {free : List Jump}

/-- How the parts of a loop end. -/
structure EndsIn (free : List Jump) (l : Loop) : Prop where
  test : ∀ t, l.test = some t → EndsValued t.2
  update : ∀ x, l.update = some x → EndsValued x
  body : Eval.EndsIn [] free l.body

/-- The test ends the loop, if it does so at all, with a throw. -/
theorem ends_check (h : l.EndsIn free) (depth : Nat) :
    Ends depth [] (fun test => ∀ c, test = .abrupt c → c.Valued) l.check := by
  unfold check
  split
  · exact .pure nofun
  next span test found =>
    refine .bind (h.test _ found depth) fun c valued => ?_
    split
    · refine .pure ?_
      rintro _ ⟨⟩
      exact valued
    · split
      · exact .pure nofun
      · exact .pure nofun
      · exact .bind (passes_aside (markUnknown_keeps span) depth) fun _ _ => .pure nofun

/-- The body and the update keep the contexts. -/
theorem passes_bodyAndUpdate (h : l.EndsIn free) : Passes l.bodyAndUpdate := by
  refine .bind h.body.passes fun c => ?_
  split
  · exact .pure _
  · split
    next update found => exact .bind (h.update update found).passes fun _ => .pure _
    · exact .pure _

/-- The body that is evaluated once more keeps the contexts. -/
theorem passes_representative (h : l.EndsIn free) (labels : List String) :
    Passes (l.representative labels) :=
  .bind passes_mark fun _ => .bind (passes_ambiguously _ (passes_bodyAndUpdate h)) fun _ =>
    passes_claimPasses labels _

/-- Computations in order keep the contexts if each of them does. -/
theorem passes_inOrder {xs : List (Run Completion)} (h : ∀ x ∈ xs, Passes x) :
    Passes (inOrder xs) := by
  induction xs with
  | nil => exact .pure _
  | cons x xs ih =>
    obtain ⟨first, rest⟩ := List.forall_mem_cons.1 h
    refine .bind first fun c => ?_
    split
    · exact .pure _
    · exact ih rest

/-- What is left of a loop keeps the contexts. -/
theorem passes_remainder (h : l.EndsIn free) (labels : List String) :
    Passes (l.remainder labels) := by
  refine .bind (passes_ambiguously _ (passes_inOrder fun x hx => ?_)) fun _ =>
    passes_representative h labels
  rw [updateAndTest, List.mem_append, Option.mem_toList, Option.mem_toList] at hx
  rcases hx with update | test
  · exact (h.update x update).passes
  · obtain ⟨t, found, rfl⟩ := Option.map_eq_some_iff.1 test
    exact (h.test t found).passes

/-- A loop that is given up ends normally. -/
theorem ends_giveUp (h : l.EndsIn free) (labels : List String) (value : Option Value) :
    Eval.EndsIn [] [] (l.giveUp labels value) :=
  .bind (passes_representative h labels) fun _ => .finished value

/-- What ends a loop before a pass is no jump. -/
theorem ends_beforeBody (h : l.EndsIn free) (labels : List String) (tested : Bool)
    (value : Option Value) (depth : Nat) :
    Ends depth [] (fun ended => ∀ c, ended = some c → c.Fits depth [])
      (l.beforeBody labels tested value) := by
  unfold beforeBody
  split
  · exact .pure nofun
  · refine .bind (ends_check h depth) fun test valued => ?_
    split
    · exact .pure nofun
    · refine .pure ?_
      rintro _ ⟨⟩
      exact fits_finished ..
    · refine .bind (ends_giveUp h labels value depth) fun c fits => .pure ?_
      rintro _ ⟨⟩
      exact fits
    next c =>
      refine .pure ?_
      rintro _ ⟨⟩
      exact (valued c rfl).fits depth []

/-- A loop that has reached the limit ends normally. -/
theorem ends_exceed (h : l.EndsIn free) (labels : List String) (value : Option Value) :
    Eval.EndsIn [] [] (l.exceed labels value) :=
  .bind (passes_aside reportMaxIterations_keeps) fun _ => ends_giveUp h labels value

/-- One pass ends with a jump that leaves the loop, or it goes on. -/
theorem ends_pass (h : l.EndsIn free) (sub : given ⊆ labels) (mark : Nat) (value : Option Value)
    (depth : Nat) :
    Ends depth [] (Pass.Fits depth (free.filter (!·.staysInLoop given)))
      (l.pass labels mark value) := by
  refine .bind (h.body depth) fun c fits => ?_
  refine .bind (ends_afterBody sub mark value fits (passes_remainder h labels)) fun pass fits => ?_
  split
  · exact .pure fits
  · split
    · exact .pure trivial
    next update found =>
      refine .bind (h.update update found depth) fun c valued => ?_
      split
      · exact .pure (valued.fits depth _)
      · exact .pure trivial

/-- However many passes a loop makes, it ends with jumps that lead out of it. -/
theorem ends_iterate (h : l.EndsIn free) (sub : given ⊆ labels) (passes : Nat) (tested : Bool)
    (value : Option Value) :
    Eval.EndsIn [] (free.filter (!·.staysInLoop given)) (l.iterate labels passes tested value) := by
  -- by induction on the passes that are left: what a pass leaves ends the loop or is none of its
  -- jumps
  induction passes generalizing tested value with
  | zero =>
    intro depth
    refine .bind (ends_beforeBody h labels tested value depth) fun ended fits => ?_
    split
    next c => exact .pure ((fits c rfl).mono (List.nil_subset _))
    · exact (ends_exceed h labels value).mono (List.nil_subset _) depth
  | succ passes ih =>
    intro depth
    refine .bind (passes_mark depth) fun mark _ => ?_
    refine .bind (ends_beforeBody h labels tested value depth) fun ended fits => ?_
    split
    next c => exact .pure ((fits c rfl).mono (List.nil_subset _))
    · refine .bind (ends_pass h sub mark value depth) fun pass fits => ?_
      split
      · exact .pure fits
      next value => exact ih true value depth

/-- A loop whose body is evaluated only once ends normally. -/
theorem ends_visitOnce (h : l.EndsIn free) (labels : List String) :
    Eval.EndsIn [] [] (l.visitOnce labels) := by
  intro depth
  unfold visitOnce
  split
  · exact ends_giveUp h labels none depth
  next span test found =>
    refine .bind (h.test _ found depth) fun c valued => ?_
    split
    · exact .pure (valued.fits depth [])
    · exact .bind (passes_aside (markUnknown_keeps span) depth) fun _ _ =>
        ends_giveUp h labels none depth

/-- A loop ends with the jumps of its body that do not stay in it. -/
theorem ends_evaluate (h : l.EndsIn free) (sub : given ⊆ labels) (testFirst : Bool) :
    Eval.EndsIn [] (free.filter (!·.staysInLoop given)) (l.evaluate labels testFirst) := by
  refine .bind (fun _ => .setup _) fun options => ?_
  split
  · exact ends_iterate h sub _ _ _
  · exact (ends_visitOnce h labels).mono (List.nil_subset _)

end Loop

/-- To assign the name of a loop is no jump. -/
theorem Rule.ends_assignName {target : Rule Reference} (h : target.Passes) (v : Value)
    (free : List Jump) : Eval.EndsIn [] free (Rule.assignName target v) :=
  Rule.EndsIn.complete (.bind h fun _ => .bind (passes_native (Op.isQuiet_putValue ..).steady)
    fun _ => .finished none)

namespace NameLoop

variable {l : NameLoop} {given labels : List String} {free : List Jump}

/-- How the parts of a loop over names end. -/
structure EndsIn (free : List Jump) (l : NameLoop) : Prop where
  assign : ∀ v, Eval.EndsIn [] [] (l.assign v)
  object : EndsValued l.object.2
  body : Eval.EndsIn [] free l.body

/-- The body that is evaluated for an unknown name keeps the contexts. -/
theorem passes_representative (h : l.EndsIn free) (labels : List String) :
    Passes (l.representative labels) := by
  refine .bind passes_mark fun mark => .bind (passes_ambiguously _ ?_) fun _ =>
    passes_claimPasses labels mark
  refine .bind (h.assign _).passes fun c => ?_
  split
  · exact .pure _
  · exact h.body.passes

/-- One pass for a name ends with a jump that leaves the loop, or it goes on. -/
theorem ends_pass (h : l.EndsIn free) (sub : given ⊆ labels) (value : Option Value) (name : String)
    (depth : Nat) :
    Ends depth [] (Pass.Fits depth (free.filter (!·.staysInLoop given)))
      (l.pass labels value name) := by
  refine .bind (passes_mark depth) fun mark _ => ?_
  refine .bind (h.assign _ depth) fun c fits => ?_
  split
  · exact .pure (fits.mono (List.nil_subset _))
  · exact .bind (h.body depth) fun c fits =>
      ends_afterBody sub mark value fits (passes_representative h labels)

/-- By induction on the names, so do all passes. -/
theorem ends_visit (h : l.EndsIn free) (sub : given ⊆ labels) (o : ObjectId) (names : List String)
    (passes : Nat) (value : Option Value) :
    Eval.EndsIn [] (free.filter (!·.staysInLoop given)) (l.visit labels o passes value names) := by
  -- by induction on the names that are left, as for the passes of a loop with a test
  induction names generalizing passes value with
  | nil =>
    unfold visit
    exact .finished value
  | cons name rest ih =>
    intro depth
    unfold visit
    refine .bind .get fun m _ => ?_
    split
    · exact ih _ _ depth
    · split
      · exact .bind (passes_aside reportMaxIterations_keeps depth) fun _ _ =>
          .bind (passes_representative h labels depth) fun _ _ => .pure (fits_finished ..)
      · refine .bind (ends_pass h sub value name depth) fun pass fits => ?_
        split
        · exact .pure fits
        · exact ih _ _ depth

/-- A loop over names ends with the jumps of its body that do not stay in it. -/
theorem ends_evaluate (h : l.EndsIn free) (sub : given ⊆ labels) :
    (l.evaluate labels).EndsIn [] (free.filter (!·.staysInLoop given)) := by
  have representative : Rule.EndsIn [] (free.filter (!·.staysInLoop given)) (do
      Rule.lift (l.representative labels)
      return Completion.empty) :=
    .bind (fun depth => .lift (passes_representative h labels depth)) fun _ => .finished none
  refine .bind (Rule.passes_value h.object) fun v => .bind (Rule.passes_steady (.setup _))
    fun evaluated => ?_
  split
  · unfold visitValue
    split
    · exact .finished none
    · exact .finished none
    · exact .bind (Rule.passes_steady (.aside (markUnknown_keeps _))) fun _ => representative
    · refine .bind (Rule.passes_native (Op.built_toObject? v).keeps) fun o => ?_
      split
      · exact .finished none
      · exact .bind (Rule.passes_steady (.setup _)) fun limit => .bind Rule.passes_get fun m =>
          .lift (ends_visit h sub _ _ _ _)
  · exact representative

end NameLoop

/-! ## Statements -/

variable {given labels : List String} {free free' : List Jump}

/-- Statements end as one of them does, or normally. -/
theorem Step.ends_runAll {steps : List Step} (h : ∀ step ∈ steps, Eval.EndsIn [] free step.run)
    (value : Option Value) : Eval.EndsIn [] free (runAll value steps) := by
  induction steps generalizing value with
  | nil => exact .finished value
  | cons step rest ih =>
    obtain ⟨first, later⟩ := List.forall_mem_cons.1 h
    intro depth
    refine .bind (passes_mark depth) fun mark _ => ?_
    refine .bind (first depth) fun c fits => ?_
    split
    · exact .pure (fits.updateEmpty value)
    · refine .bind (passes_hasExitsSince mark depth) fun exits _ => ?_
      split
      · split
        · exact .pure (fits_finished ..)
        · -- what follows a possible exit may or may not happen, so that its jumps are possible only
          exact .bind (passes_ambiguously _ (ih later none).passes depth) fun _ _ =>
            .pure (fits_finished ..)
      · exact ih later _ depth

namespace Rule

theorem ends_expression {x : Run Completion} (h : Eval.EndsValued x) : (expression x).EndsValued :=
  .normal (passes_value h)

theorem ends_throws {x : Run Completion} (h : Eval.EndsValued x) : (throws x).EndsValued :=
  .bind (passes_value h) fun _ _ => .pure ⟨.inr rfl, rfl⟩

theorem passes_discard {x : Run Completion} (h : Eval.EndsValued x) : (discard x).Passes :=
  .bind (passes_value h) fun _ => .pure _

/-- Initial values keep the contexts, as expressions do. -/
theorem passes_declarators {ds : List (String × Option (Run Completion))}
    (h : ∀ d ∈ ds, ∀ x, d.2 = some x → Eval.EndsValued x) : (declarators ds).Passes := by
  induction ds with
  | nil => exact .pure _
  | cons d rest ih =>
    obtain ⟨first, later⟩ := List.forall_mem_cons.1 h
    obtain ⟨name, x⟩ := d
    cases x with
    | none => exact ih later
    | some x =>
      exact .bind (passes_resolve name) fun r => .bind (passes_value (first x rfl)) fun v =>
        .bind (passes_native (Op.isQuiet_putValue r v).steady) fun _ => ih later

/-- A declaration of variables is no jump. -/
theorem ends_varDeclaration {ds : List (String × Option (Run Completion))}
    (h : ∀ d ∈ ds, ∀ x, d.2 = some x → Eval.EndsValued x) :
    (varDeclaration ds).EndsIn [] free :=
  .bind (passes_declarators h) fun _ => .finished none

/-- A declaration has no value, but it ends no rule either. -/
theorem passes_discardDeclaration {ds : List (String × Option (Run Completion))}
    (h : ∀ d ∈ ds, ∀ x, d.2 = some x → Eval.EndsValued x) :
    (discard (varDeclaration ds).complete).Passes := by
  intro depth
  have ends : Eval.Ends depth [] (fun c => c.isAbrupt = true → c.Valued)
      (varDeclaration ds).complete :=
    Rule.Ends.complete (.bind (passes_declarators h depth) fun _ _ => .pure nofun)
      fun _ valued _ => valued
  exact .bind (.value_of ends) fun _ _ => .pure trivial

/-- A return leads out of the function, but not from an ambiguous block. -/
theorem ends_returns {x : Option (Run Completion)} (h : ∀ y, x = some y → Eval.EndsValued y) :
    (returns x).EndsIn [] [.returns] := by
  have ends (v : Value) : Rule.EndsIn [] [.returns] (do
      if (← MonadState.get).contexts.isAmbiguous then
        modify (·.markReturnUnknown)
        return Completion.normal .undefined
      else return Completion.returns v) := by
    intro depth
    refine .bind .get fun m at' => ?_
    split
    · refine .bind (.lift (.of_steady ⟨fun s m => .markReturnUnknown m⟩)) fun _ _ => ?_
      exact .pure ((valued_normal .undefined).fits depth _)
    next certain =>
      -- a value is only returned where nothing is ambiguous
      have zero : depth = 0 := by
        simp only [ContextStack.isAmbiguous, decide_eq_true_eq, at'] at certain
        omega
      refine .pure ⟨fun j hj => ?_, fun _ => zero, fun kind => by cases kind⟩
      cases hj
      exact List.mem_singleton_self _
  cases x with
  | none => exact .bind (.pure _) ends
  | some x => exact .bind (passes_value (h x rfl)) ends

/-- An `if` ends with a jump of one of its branches. -/
theorem ends_branch (span testSpan : Span) {test consequent : Run Completion}
    {alternate : Option (Run Completion)} (htest : Eval.EndsValued test)
    (hconsequent : Eval.EndsIn [] free consequent)
    (halternate : ∀ x, alternate = some x → Eval.EndsIn [] free' x) :
    (branch span testSpan test consequent alternate).EndsIn [] (free ++ free') := by
  have second : Eval.EndsIn [] free' (alternate.getD (return .empty)) := by
    cases alternate with
    | none => exact .finished none
    | some x => exact halternate x rfl
  refine .bind (passes_value htest) fun v => ?_
  split
  · exact .lift (hconsequent.mono (List.subset_append_left _ _))
  · exact .lift (second.mono (List.subset_append_right _ _))
  · refine .bind (passes_steady (.aside (markUnknown_keeps testSpan))) fun _ => .lift ?_
    -- both parts are run in one block, which no jump leaves
    have both : Eval.Passes (do
        note (← consequent)
        alternate.getD (return .empty)) :=
      .bind hconsequent.passes fun c => .bind (passes_note c) fun _ => second.passes
    exact fun depth => (ends_ambiguously span both).mono fun c normal =>
      fits_of_isNormal normal depth _

/-- A loop ends the jumps that are aimed at one of its labels. -/
theorem ends_loop (testFirst : Bool) {start : Rule Unit} {l : Loop} (hstart : start.Passes)
    (h : l.EndsIn free) :
    (loop testFirst start l).EndsIn given (free.filter (!·.staysInLoop given)) :=
  fun depth => .bind (.lift (ends_takeLabels depth given)) fun _ sub => .bind (hstart depth)
    fun _ _ => .lift (Loop.ends_evaluate h sub testFirst depth)

/-- The labels of a loop over names are given with it. -/
theorem ends_nameLoop {l : NameLoop} (h : l.EndsIn free) :
    (nameLoop l).EndsIn given (free.filter (!·.staysInLoop given)) :=
  fun depth => .bind (.lift (ends_takeLabels depth given)) fun _ sub =>
    NameLoop.ends_evaluate h sub depth

end Rule

/-! ## Labels -/

namespace Eval

/-- A mark is taken in the machine that is there. -/
theorem EndsIn.mark {f : Nat → Run Completion} (h : ∀ n, EndsIn labels free (f n)) :
    EndsIn labels free (mark >>= f) :=
  fun depth => ⟨fun {_ m} begins => (h m.exits.size depth).contexts begins,
    fun {_ m _ _} begins run => (h m.exits.size depth).result begins run⟩

/-- A labelled statement ends the breaks that are aimed at its label. Its labels and those around it
are those of the statement in it, if that takes labels. -/
theorem ends_labeled (label : String) (passesOn : Bool) {body : Run Completion}
    (h : EndsIn (if passesOn then given ++ [label] else []) free body) :
    EndsIn given (free.filter (!·.staysInLabel label)) (labeled label passesOn body) := by
  have inside : EndsIn (if passesOn then given ++ [label] else [])
      (free.filter (!·.staysInLabel label)) (do
        let mark ← mark
        let c ← body
        let _ ← claim mark (Completion.leavesLabel label)
        return if c.leavesLabel label then .finished c.value else c) := by
    refine .mark fun mark depth => .bind (h depth) fun c fits => ?_
    refine .bind (passes_claim _ _ depth) fun _ _ => ?_
    split
    · exact .pure (fits_finished ..)
    next stays =>
      refine .pure (fits.filter fun j hj => ?_)
      rw [staysInLabel_of_jump? hj, eq_false_of_ne_true stays]
  intro depth
  -- the statement begins with the labels that are passed on
  have begun {s : Setup} {m : Machine} (begins : Begins depth given s m) :
      Begins depth (if passesOn then given ++ [label] else []) s
        { m with labels := if passesOn then m.labels ++ [label] else [] } := by
    refine ⟨begins.rules, begins.depth, ?_⟩
    cases passesOn with
    | true =>
      exact List.append_subset.2
        ⟨List.subset_append_of_subset_left _ begins.labels, List.subset_append_right _ _⟩
    | false => exact List.nil_subset _
  exact ⟨fun begins => (inside depth).contexts (begun begins),
    fun begins run => (inside depth).result (begun begins) run⟩

end Eval

/-! ## Switches -/

namespace Case

/-- How the test and the body of a case end. -/
structure EndsIn (free : List Jump) (c : Case) : Prop where
  test : ∀ t, c.test = some t → EndsValued t.2
  body : ∀ step ∈ c.body, Eval.EndsIn [] free step.run

/-- The cases that are selected are among those that there are. -/
theorem ends_select (input : Value) {default cs : List Case} (hdefault : ∀ c ∈ default, c.EndsIn free)
    (h : ∀ c ∈ cs, c.EndsIn free) (depth : Nat) :
    Rule.Ends depth [] (fun chosen => ∀ ds, chosen = .cases ds → ∀ c ∈ ds, c.EndsIn free)
      (select input default cs) := by
  induction cs with
  | nil =>
    refine .pure ?_
    rintro _ ⟨⟩
    exact hdefault
  | cons c rest ih =>
    obtain ⟨first, later⟩ := List.forall_mem_cons.1 h
    unfold select
    split
    · exact ih later
    next span test found =>
      refine .bind (.value (first.test _ found depth)) fun v _ => ?_
      split
      · refine .pure ?_
        rintro _ ⟨⟩
        exact h
      · exact ih later
      · refine .bind (Rule.passes_steady (.aside (markUnknown_keeps span)) depth) fun _ _ => .pure ?_
        rintro _ ⟨⟩

/-- The bodies of all cases keep the contexts. -/
theorem passes_noteAll {cs : List Case} (h : ∀ c ∈ cs, c.EndsIn free) : Passes (noteAll cs) := by
  induction cs with
  | nil => exact .pure _
  | cons c rest ih =>
    obtain ⟨first, later⟩ := List.forall_mem_cons.1 h
    exact .bind (Step.ends_runAll first.body none).passes fun completion =>
      .bind (passes_note completion) fun _ => ih later

/-- Cases that may or may not happen end normally. -/
theorem ends_possibly (span : Span) (labels : List String) {cs : List Case}
    (h : ∀ c ∈ cs, c.EndsIn free) : Eval.EndsIn [] [] (possibly span labels cs) :=
  .bind passes_mark fun _ => .bind (passes_ambiguously span (passes_noteAll h)) fun _ =>
    .bind (passes_claim _ _) fun _ => .finished none

/-- By induction on the cases, a switch ends with the jumps that do not stay in it. -/
theorem ends_fallThrough (span : Span) {cs : List Case} (h : ∀ c ∈ cs, c.EndsIn free)
    (sub : given ⊆ labels) (value : Option Value) :
    Eval.EndsIn [] (free.filter (!·.staysInSwitch given)) (fallThrough span labels value cs) := by
  -- by induction on the clauses: a `break` of the statement ends it, other jumps are handed on
  induction cs generalizing value with
  | nil => exact .finished value
  | cons c rest ih =>
    obtain ⟨first, later⟩ := List.forall_mem_cons.1 h
    intro depth
    refine .bind (passes_mark depth) fun mark _ => ?_
    refine .bind (Step.ends_runAll first.body none depth) fun c fits => ?_
    split
    · exact .bind (passes_claim _ _ depth) fun _ _ => .pure (fits_finished ..)
    next stays =>
      split
      · exact .pure ((fits.leavesCases sub (eq_false_of_ne_true stays)).updateEmpty _)
      · refine .bind (passes_claim _ _ depth) fun possible _ => ?_
        split
        · exact ih later _ depth
        · split
          · exact .bind ((ends_possibly span labels later).passes depth) fun _ _ =>
              .pure (fits_finished ..)
          · exact .pure (fits_finished ..)

end Case

/-- A switch ends the breaks without a label and those that are aimed at one of its labels. -/
theorem Rule.ends_switch (span inputSpan : Span) {input : Run Completion} {cs : List Case}
    (hinput : Eval.EndsValued input) (h : ∀ c ∈ cs, c.EndsIn free) :
    (Rule.switch span inputSpan input cs).EndsIn given (free.filter (!·.staysInSwitch given)) := by
  intro depth
  refine .bind (.lift (ends_takeLabels depth given)) fun labels sub => ?_
  refine .bind (.value (hinput depth)) fun v _ => ?_
  have possibly : Rule.EndsIn [] (free.filter (!·.staysInSwitch given))
      (Rule.lift (Case.possibly span labels cs)) :=
    .lift ((Case.ends_possibly span labels h).mono (List.nil_subset _))
  split
  · exact .bind (passes_steady (.aside (markUnknown_keeps inputSpan)) depth) fun _ _ =>
      possibly depth
  · have default : ∀ c ∈ Case.fromDefault cs, c.EndsIn free :=
      fun c hc => h c ((List.dropWhile_sublist _).subset hc)
    refine .bind (Case.ends_select v default h depth) fun chosen selected => ?_
    split
    · exact possibly depth
    · exact .pure (fits_finished ..)
    · exact .lift (Case.ends_fallThrough span (selected _ rfl) sub none depth)

/-! ## Exceptions -/

namespace Eval

/-- A scope is left as it was entered. -/
theorem ends_inScope (e : EnvId) {x : Run Completion} (h : EndsIn [] free x) :
    EndsIn [] free (inScope e x) := by
  intro depth
  have entered {s : Setup} {m : Machine} (begins : Begins depth [] s m) :
      Begins depth [] s (m.setLexicalEnv e) := by
    refine ⟨begins.rules, ?_, List.nil_subset _⟩
    rw [← begins.depth]
    show (m.contexts.setLexicalEnv e).depth = m.contexts.depth
    rcases m.contexts with ⟨_ | ⟨c, rest⟩⟩ <;> rfl
  constructor
  · intro s m begins
    unfold inScope
    rw [after_bind_ok (get_apply ..), after_bind_ok (modify_apply ..), after_ensuring]
    refine ContextStack.Kept.setLexicalEnv (fun c running => ?_)
      ((h depth).contexts (entered begins))
    simp [Machine.lexicalEnv, running]
  · intro s m c n begins run
    unfold inScope at run
    rw [bind_apply, get_apply] at run
    dsimp only at run
    rw [bind_apply, modify_apply] at run
    dsimp only at run
    rw [ensuring_apply] at run
    cases ran : x s (m.setLexicalEnv e) with
    | ok b k =>
      rw [ran] at run
      cases run
      exact (h depth).result (entered begins) ran
    | error e k =>
      rw [ran] at run
      cases run

/-- A handler ends as its block does. -/
theorem ends_handle (name : String) {body : Run Completion} (h : EndsIn [] free body)
    (thrown : Value) : EndsIn [] free (handle name body thrown) := by
  refine Rule.EndsIn.complete (.bind Rule.passes_get fun m => ?_)
  refine .bind (Rule.passes_steady (isQuiet_createEnvironment _).steady) fun e => ?_
  refine .bind (Rule.passes_native (Op.isQuiet_createBinding ..).steady) fun _ => ?_
  refine .bind (Rule.passes_native (Op.isQuiet_setBinding ..).steady) fun _ => ?_
  exact .lift (ends_inScope e h)

/-- The ledger makes no difference to how a block ends. -/
theorem ends_guarded (handled : Bool) {block : Run Completion} (h : EndsIn [] free block) :
    EndsIn [] free (guarded handled block) := by
  intro depth
  refine .bind (.of_steady (.bind .get fun _ => .pure _)) fun _ _ => ?_
  refine .bind (h depth) fun c fits => ?_
  exact .bind (.of_steady (.modify fun m => .enterLedger m ..)) fun _ _ => .pure fits

/-- A `try` ends as its block or its handler does. -/
theorem ends_handleThrows (mark : Nat) {depth : Nat} {c : Completion} (fits : c.Fits depth free)
    {h : Handling} (hh : ∀ v, EndsIn [] free' (h.run v)) :
    Ends depth [] (·.Fits depth (free ++ free')) (handleThrows mark c h) := by
  refine .bind (passes_claim _ _ depth) fun possible _ => ?_
  split
  · exact (hh _).mono (List.subset_append_right _ _) depth
  · split
    · exact .bind (passes_ambiguously _ (hh _).passes depth) fun _ _ => .pure fits.left
    · exact .pure fits.left

/-- A `try` with a last block ends as the block before or as the last block. -/
theorem ends_finish {depth : Nat} {c : Completion} (fits : c.Fits depth free)
    {finalizer : Run Completion} (h : EndsIn [] free' finalizer) :
    Ends depth [] (·.Fits depth (free ++ free')) (finish c finalizer) := by
  refine .bind (passes_mark depth) fun _ _ => .bind (h depth) fun final ends => ?_
  refine .bind (.of_steady (.modify fun m => .recordOvertaken m _)) fun _ _ => ?_
  split
  · exact .pure ends.right
  · exact .pure fits.left

/-- A completion passes through the last block of a `try`, if there is one. -/
theorem ends_finishOption {depth : Nat} {c : Completion} (fits : c.Fits depth free)
    {finalizer : Option (Run Completion)}
    (hfinalizer : ∀ f, finalizer = some f → EndsIn [] free' f) :
    Ends depth [] (·.Fits depth (free ++ free')) (match finalizer with
      | some f => finish c f
      | none => return c) := by
  split
  next f => exact ends_finish fits (hfinalizer f rfl)
  · exact .pure fits.left

/-- A `try` ends with the jumps of its block, its handler or its last block. -/
theorem ends_tryBlock {block : Run Completion} {handler : Option Handling}
    {finalizer : Option (Run Completion)} {freeBlock freeHandler freeFinalizer : List Jump}
    (hblock : EndsIn [] freeBlock block)
    (hhandler : ∀ h, handler = some h → ∀ v, EndsIn [] freeHandler (h.run v))
    (hfinalizer : ∀ f, finalizer = some f → EndsIn [] freeFinalizer f) :
    EndsIn [] (freeBlock ++ (freeHandler ++ freeFinalizer))
      (tryBlock block handler finalizer) := by
  intro depth
  rw [← List.append_assoc]
  refine .bind (passes_mark depth) fun mark _ => .bind (ends_guarded _ hblock depth) fun c fits => ?_
  cases handler with
  | some h =>
    exact .bind (ends_handleThrows mark fits (hhandler h rfl)) fun c fits =>
      ends_finishOption fits hfinalizer
  | none => exact .bind (.pure fits.left) fun c fits => ends_finishOption fits hfinalizer

/-! ## Calls -/

/-- A call ends with a value or a throw, however its body has ended. -/
theorem valued_callResult {depth : Nat} {c : Completion} (h : c.Fits depth free)
    (returnUnknown : Bool) : (callResult c returnUnknown).Valued := by
  unfold callResult
  split
  next throws =>
    have kind : c.kind = .throws := of_decide_eq_true throws
    exact ⟨.inr kind, h.throws kind⟩
  · split
    · exact valued_unknown
    · split
      · exact valued_normal _
      · exact valued_normal _

/-- A call begins in a context of its own, which is left after it. -/
theorem ends_inContext (c : Context) {x : Run Completion} (h : EndsValued x) :
    EndsValued (inContext c x) := by
  intro depth
  constructor
  · intro s m begins
    unfold inContext
    rw [after_bind_ok (x := mark) (a := m.exits.size) (n := m) rfl,
      after_bind_ok (modify_apply ..), after_ensuring]
    have kept := (h _).contexts (s := s) (m := m.pushContext c)
      ⟨begins.rules, rfl, List.nil_subset _⟩
    rw [((x.after s (m.pushContext c)).popContext.dropClaimed_unchanged _ _).1]
    exact .inl kept.pop
  · intro s m ended n begins run
    unfold inContext at run
    obtain ⟨n', k, marked, run⟩ := bind_eq_ok_iff.1 run
    obtain ⟨_, l, pushed, run⟩ := bind_eq_ok_iff.1 run
    cases pushed
    rw [ensuring_apply] at run
    cases ran : x s (k.pushContext c) with
    | ok b j =>
      rw [ran] at run
      cases run
      exact (h _).result ⟨begins.rules, rfl, List.nil_subset _⟩ ran
    | error e j =>
      rw [ran] at run
      cases run

/-- Of a function only values and throws get out. -/
theorem ends_callScript {body : Run Completion} (h : EndsIn [] free body) :
    ScriptCall.EndsValued (callScript body) := by
  intro f closure this arguments depth
  refine .bind (.of_steady (keeps_scriptReceiver this)) fun receiver _ => ?_
  refine .bind (.of_steady (isQuiet_createEnvironment _).steady) fun e _ => ?_
  refine ends_inContext _ (fun depth => ?_) depth
  refine .bind (.of_steady (steady_enterBody ..)) fun _ _ => .bind (h depth) fun c fits => ?_
  exact .bind .get fun m _ => .pure (valued_callResult fits _)

end Eval

end AbstractScript
