import AbstractScript.Proofs.LawfulRules

/-!
# Loops are lawful

A loop makes at most as many passes as allowed, and of each pass the parts are evaluated at most four
times: in the pass itself, when a test is unknown, and as what is left of a loop that may have ended.
-/
namespace AbstractScript

open Eval World

variable {L : Law} {w : World} {a b c t u : Nat}

instance : Located Pass where
  held w
    | .ended completion => w.Holds completion
    | .next value => w.Holds value
  lift {w w' pass} h held := by
    cases pass with
    | ended completion => exact h.lift (a := completion) held
    | next value => exact h.lift (a := value) held

instance : Located LoopTest where
  held w
    | .abrupt completion => w.Holds completion
    | _ => True
  lift {w w' test} h held := by
    cases test with
    | abrupt completion => exact h.lift (a := completion) held
    | _ => trivial

namespace Eval

theorem lawful_claimPasses (labels : List String) (mark : Nat) :
    (claimPasses labels mark).Lawful L c w :=
  .bind (lawful_claim ..) fun _ _ _ => .pure trivial

/-- After a pass the rest of the loop may be evaluated. -/
theorem lawful_afterBody (labels : List String) (mark : Nat) {value : Option Value}
    {completion : Completion} {rest : Run Unit} (hvalue : w.Holds value)
    (hcompletion : w.Holds completion) (hrest : rest.Lawful L c w) :
    (afterBody labels mark value completion rest).Lawful L c w := by
  have last {w' : World} (grows : w.Grows w') : w'.Holds (completion.value <|> value) :=
    grows.lift (holds_orElse (x := completion.value) hcompletion hvalue)
  unfold afterBody
  extract_lets value'
  split
  · refine .bind (lawful_hasExitsSince mark) fun grows exits _ => ?_
    split
    · refine .bind (lawful_claimPasses labels mark) fun more _ _ => ?_
      have grows := grows.trans more
      exact .bind_free (hrest.grow grows) fun more _ _ => .pure (last (grows.trans more))
    · exact .pure (last grows)
  · split
    · exact .bind (lawful_claimPasses labels mark) fun grows _ _ => .pure (last grows)
    · exact .pure (Completion.holds_updateEmpty hcompletion (last (.refl w)))

end Eval

namespace Loop

variable {l : Loop}

/-- The test, the update and the body of a loop are lawful. -/
structure Lawful (L : Law) (t u b : Nat) (w : World) (l : Loop) : Prop where
  test : ∀ test, l.test = some test → test.2.Lawful L t w
  update : ∀ x, l.update = some x → x.Lawful L u w
  body : l.body.Lawful L b w

theorem Lawful.grow {w' : World} (h : l.Lawful L t u b w) (grows : w.Grows w') :
    l.Lawful L t u b w' where
  test test found := (h.test test found).grow grows
  update x found := (h.update x found).grow grows
  body := h.body.grow grows

theorem lawful_check (h : l.Lawful L t u b w) : l.check.Lawful L t w := by
  unfold check
  split
  · exact .pure trivial
  next span test found =>
    refine .bind_free (h.test _ found) fun _ completion held => ?_
    split
    · exact .pure held
    · split
      · exact .pure trivial
      · exact .pure trivial
      · exact .bind (.of_unmoved (markUnknown_unmoved span)) fun _ _ _ => .pure trivial

theorem lawful_bodyAndUpdate (h : l.Lawful L t u b w) : l.bodyAndUpdate.Lawful L (b + u) w := by
  refine .bind_add h.body fun grows completion held => ?_
  split
  · exact .pure held
  · split
    next update found =>
      exact .bind_free ((h.update update found).grow grows) fun _ _ _ => .pure trivial
    · exact .pure trivial

theorem lawful_representative (h : l.Lawful L t u b w) (labels : List String) :
    (l.representative labels).Lawful L (b + u) w := by
  refine .bind lawful_mark fun grows mark _ => ?_
  have once := lawful_ambiguously l.span (lawful_bodyAndUpdate (h.grow grows))
  exact .bind_free once fun _ _ _ => lawful_claimPasses labels mark

theorem lawful_updateAndTest (h : l.Lawful L t u b w) :
    (inOrder l.updateAndTest).Lawful L (u + t) w := by
  have tests {w' : World} (grows : w.Grows w') :
      (inOrder (l.test.map (·.2)).toList).Lawful L t w' := by
    cases found : l.test with
    | none => exact .pure trivial
    | some test =>
      refine .bind_free ((h.test test found).grow grows) fun _ completion held => ?_
      split
      · exact .pure held
      · exact .pure trivial
  unfold updateAndTest
  cases found : l.update with
  | none => exact (tests (.refl w)).mono (Nat.le_add_left t u)
  | some update =>
    refine .bind_add (h.update update found) fun grows completion held => ?_
    split
    · exact .pure held
    · exact tests grows

theorem lawful_remainder (h : l.Lawful L t u b w) (labels : List String) :
    (l.remainder labels).Lawful L (u + t + (b + u)) w := by
  have once := lawful_ambiguously l.span (lawful_updateAndTest h)
  exact .bind_add once fun grows _ _ => lawful_representative (h.grow grows) labels

theorem lawful_giveUp (h : l.Lawful L t u b w) (labels : List String) {value : Option Value}
    (hvalue : w.Holds value) : (l.giveUp labels value).Lawful L (b + u) w :=
  .bind_free (lawful_representative h labels) fun grows _ _ => .pure (grows.lift hvalue)

theorem lawful_beforeBody (h : l.Lawful L t u b w) (labels : List String) (tested : Bool)
    {value : Option Value} (hvalue : w.Holds value) :
    (l.beforeBody labels tested value).Lawful L (t + (b + u)) w := by
  unfold beforeBody
  split
  · exact .pure trivial
  · refine .bind_add (lawful_check h) fun grows test held => ?_
    have hvalue := grows.lift hvalue
    split
    · exact .pure trivial
    · exact .pure hvalue
    · exact .bind_free (lawful_giveUp (h.grow grows) labels hvalue) fun _ _ held => .pure held
    · exact .pure held

theorem lawful_exceed (h : l.Lawful L t u b w) (labels : List String) {value : Option Value}
    (hvalue : w.Holds value) : (l.exceed labels value).Lawful L (b + u) w :=
  .bind (.of_unmoved reportMaxIterations_unmoved) fun grows _ _ =>
    lawful_giveUp (h.grow grows) labels (grows.lift hvalue)

theorem lawful_pass (h : l.Lawful L t u b w) (labels : List String) (mark : Nat)
    {value : Option Value} (hvalue : w.Holds value) :
    (l.pass labels mark value).Lawful L (b + (u + t + (b + u) + u)) w := by
  refine .bind_add h.body fun grows completion held => ?_
  have h := h.grow grows
  refine .bind_add (lawful_afterBody labels mark (grows.lift hvalue) held
    (lawful_remainder h labels)) fun grows pass held => ?_
  split
  · exact .pure held
  · split
    · exact .pure held
    next update found =>
      refine .bind_free ((h.update update found).grow grows) fun more completion abrupt => ?_
      refine .pure ?_
      split
      · exact abrupt
      · exact more.lift held

/-- The parts of a loop are evaluated at most four times for each pass and once the passes are
used up. -/
theorem lawful_iterate (h : l.Lawful L t u b w) (labels : List String) (passes : Nat)
    (tested : Bool) {value : Option Value} (hvalue : w.Holds value) :
    (l.iterate labels passes tested value).Lawful L ((passes + 1) * (4 * (t + u + b))) w := by
  induction passes generalizing tested value w with
  | zero =>
    -- The test is evaluated once more before the loop is given up.
    have ends : Eval.Lawful L (t + (b + u) + (b + u)) w (l.iterate labels 0 tested value) := by
      refine .bind_add (lawful_beforeBody h labels tested hvalue) fun grows ended held => ?_
      split
      · exact .pure held
      · exact lawful_exceed (h.grow grows) labels (grows.lift hvalue)
    exact ends.mono (by omega)
  | succ passes ih =>
    -- Before the body, one pass, and the passes that are left.
    have goes : Eval.Lawful L (t + (b + u) + (b + (u + t + (b + u) + u) +
        (passes + 1) * (4 * (t + u + b)))) w (l.iterate labels (passes + 1) tested value) := by
      refine .bind lawful_mark fun grows mark _ => ?_
      have h := h.grow grows
      have hvalue := grows.lift hvalue
      refine .bind_add (lawful_beforeBody h labels tested hvalue) fun grows ended held => ?_
      have h := h.grow grows
      split
      · exact .pure held
      · refine .bind_add (lawful_pass h labels mark (grows.lift hvalue)) fun grows pass held => ?_
        split
        · exact .pure held
        · exact ih (h.grow grows) true held
    refine goes.mono ?_
    rw [Nat.succ_mul (passes + 1)]
    omega

theorem lawful_visitOnce (h : l.Lawful L t u b w) (labels : List String) :
    (l.visitOnce labels).Lawful L (t + (b + u)) w := by
  unfold visitOnce
  split
  · have nothing : w.Holds (none : Option Value) := trivial
    exact (lawful_giveUp h labels nothing).mono (Nat.le_add_left _ t)
  next span test found =>
    refine .bind_add (h.test _ found) fun grows completion held => ?_
    split
    · exact .pure held
    · exact .bind (.of_unmoved (markUnknown_unmoved span)) fun more _ _ =>
        lawful_giveUp (h.grow (grows.trans more)) labels trivial

/-- The cost of a loop is bounded by the limit for loops, whether loops are evaluated or not. -/
theorem lawful_evaluate (h : l.Lawful L t u b w) (labels : List String) (testFirst : Bool) :
    (l.evaluate labels testFirst).Lawful L
      ((L.loops + 1) * (4 * (t + u + b))) w := by
  refine .setup_bind ?_
  split
  · exact lawful_iterate h labels _ testFirst trivial
  · refine (lawful_visitOnce h labels).mono ?_
    rw [Nat.succ_mul]
    omega

end Loop

theorem Rule.lawful_assignName {target : Rule Reference} (h : target.Lawful L c w) {v : Value}
    (hv : w.Holds v) : (Rule.assignName target v).Lawful L c w :=
  Rule.Lawful.complete (.bind_free h fun grows _ hr =>
    .bind (.native (Op.lawful_putValue hr (grows.lift hv))) fun _ _ _ => .pure trivial)

namespace NameLoop

variable {l : NameLoop}

/-- The assignment and the body of a loop over names are lawful. -/
structure Lawful (L : Law) (a b : Nat) (w : World) (l : NameLoop) : Prop where
  assign : ∀ {w' v}, w.Grows w' → w'.Holds v → (l.assign v).Lawful L a w'
  body : l.body.Lawful L b w

theorem Lawful.grow {w' : World} (h : l.Lawful L a b w) (grows : w.Grows w') :
    l.Lawful L a b w' where
  assign more := h.assign (grows.trans more)
  body := h.body.grow grows

theorem lawful_representative (h : l.Lawful L a b w) (labels : List String) :
    (l.representative labels).Lawful L (a + b) w := by
  refine .bind lawful_mark fun grows mark _ => ?_
  have assigned : (l.assign .unknown).Lawful L a _ := h.assign grows trivial
  refine .bind_free (lawful_ambiguously l.span (assigned.bind_add fun more completion held => ?_)) ?_
  · split
    · exact .pure held
    · exact h.body.grow (grows.trans more)
  · exact fun _ _ _ => lawful_claimPasses labels mark

theorem lawful_pass (h : l.Lawful L a b w) (labels : List String) {value : Option Value}
    (hvalue : w.Holds value) (name : String) :
    (l.pass labels value name).Lawful L (a + (b + (a + b))) w := by
  refine .bind lawful_mark fun grows mark _ => ?_
  have hvalue := grows.lift hvalue
  refine .bind_add (h.assign grows (v := .string name) trivial) fun more completion held => ?_
  have grows := grows.trans more
  have hvalue := more.lift hvalue
  split
  · exact .pure held
  · refine .bind_add (h.body.grow grows) fun more completion held => ?_
    have rest := lawful_representative (h.grow (grows.trans more)) labels
    exact lawful_afterBody labels mark (more.lift hvalue) held rest

/-- The parts of a loop over names are evaluated at most twice for each pass, and once more when the
passes are used up. A name that is gone costs nothing. -/
theorem lawful_visit (h : l.Lawful L a b w) (labels : List String) (o : ObjectId)
    (names : List String) (passes : Nat) {value : Option Value} (hvalue : w.Holds value) :
    (l.visit labels o passes value names).Lawful L ((passes + 1) * (2 * (a + b))) w := by
  induction names generalizing passes value w with
  | nil =>
    unfold visit
    exact .pure hvalue
  | cons name rest ih =>
    unfold visit
    refine .get_bind fun m => ?_
    split
    · exact ih h passes hvalue
    -- Only a name that is still there takes one of the passes.
    · cases passes with
      | zero =>
        refine Eval.Lawful.mono (c := a + b) ?_ (by omega)
        refine .bind (.of_unmoved reportMaxIterations_unmoved) fun grows _ _ => ?_
        refine .bind_free (lawful_representative (h.grow grows) labels) fun more _ _ => ?_
        exact .pure ((grows.trans more).lift hvalue)
      | succ passes =>
        refine Eval.Lawful.mono
          (c := a + (b + (a + b)) + (passes + 1) * (2 * (a + b))) ?_ ?_
        · refine .bind_add (lawful_pass h labels hvalue name) fun grows pass held => ?_
          split
          · exact .pure held
          · exact ih (h.grow grows) passes held
        · rw [Nat.succ_mul (passes + 1)]
          omega

theorem lawful_evaluate (h : l.Lawful L a b w) (hobject : l.object.2.Lawful L c w)
    (labels : List String) :
    (l.evaluate labels).Lawful L
      (c + (L.loops + 1) * (2 * (a + b))) w := by
  -- one pass that represents the others costs no more than all of them
  have once {w' : World} (grows : w.Grows w') :
      (l.representative labels).Lawful L
        ((L.loops + 1) * (2 * (a + b))) w' := by
    refine (lawful_representative (h.grow grows) labels).mono ?_
    rw [Nat.succ_mul]
    omega
  have representative {w' : World} (grows : w.Grows w') : Rule.Lawful L
      ((L.loops + 1) * (2 * (a + b))) w' (do
        Rule.lift (l.representative labels)
        return Completion.empty) :=
    .bind_free (.lift (once grows)) fun _ _ _ => .pure trivial
  refine .bind_add (.value hobject) fun grows v hv => .setup_bind ?_
  split
  · unfold visitValue
    split
    · exact .pure trivial
    · exact .pure trivial
    · exact .bind (.lift (.of_unmoved (markUnknown_unmoved _))) fun more _ _ =>
        representative (grows.trans more)
    · refine .bind (.native (Op.lawful_toObject? hv)) fun more o _ => ?_
      split
      · exact .pure trivial
      · refine .setup_bind (.get_bind fun m => .lift ?_)
        exact lawful_visit (h.grow (grows.trans more)) labels _ _ _ trivial
  · exact representative grows

end NameLoop

end AbstractScript
