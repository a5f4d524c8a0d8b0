import AbstractScript.Proofs.CalmExpressions
import AbstractScript.Proofs.Soundness

/-!
# Possible exits and the statements that they are aimed at

What a loop, a switch or a labelled statement has to claim of the possible exits comes from its bodies,
since expressions are calm. It claims that behind each body, unless the body ends the statement with an
abrupt completion that is not aimed at it. How a statement ends is told by `Ending`, and proved along
its passes and cases (`Loop.claims_iterate`, `NameLoop.claims_visit`, `Case.claims_fallThrough`). So no
possible exit outlives the statement that it is aimed at, but for what such a body has left
(`Statement.exits_claimed`).
-/
namespace AbstractScript

open Eval

/-! ## Statements with bodies -/

namespace Completion

variable {labels : List String} {c : Completion}

/-- What ends a pass of a loop is a jump. -/
theorem isJump_of_endsPass (h : c.endsPass labels = true) : c.isJump = true := by
  unfold endsPass at h
  cases kind : c.kind <;> simp_all [isJump]

/-- What leaves a switch is a jump. -/
theorem isJump_of_leavesSwitch (h : c.leavesSwitch labels = true) : c.isJump = true := by
  unfold leavesSwitch at h
  cases kind : c.kind <;> simp_all [isJump]

end Completion

/-- How a statement with bodies ends. Either no possible exits of a kind are left of those that were
recorded since it began, or one of the bodies has ended it with an abrupt completion of another kind,
and only what that body has recorded is left. -/
inductive Ending (p : Completion → Bool) (bodies : List (Run Completion)) (s : Setup) (m : Machine) :
    Completion → Machine → Prop where
  | claimed {c : Completion} {n : Machine} (adds : m.Adds p n) : Ending p bodies s m c n
  | abandoned {body : Run Completion} {k n : Machine} {c : Completion} (among : body ∈ bodies)
    (before : m.Adds p k) (ran : body s k = .ok c n) (abrupt : c.isAbrupt = true)
    (other : p c = false) (v : Option Value) : Ending p bodies s m (c.updateEmpty v) n

/-- What follows a pass of a loop, when the loop ends with the pass or goes on. -/
def Pass.Leaves (p : Completion → Bool) (bodies : List (Run Completion)) (s : Setup) (m : Machine) :
    Pass → Machine → Prop
  | .ended c, n => Ending p bodies s m c n
  | .next _, n => m.Adds p n

section

variable {p : Completion → Bool} {bodies : List (Run Completion)} {s : Setup} {m k n : Machine}

/-- What has added no exits of the kind may come before. -/
theorem Ending.after {c : Completion} (h : m.Adds p k) (ends : Ending p bodies s k c n) :
    Ending p bodies s m c n := by
  cases ends with
  | claimed adds => exact .claimed (h.trans adds)
  | abandoned among before ran abrupt other v =>
    exact .abandoned among (h.trans before) ran abrupt other v

/-- A pass that adds no exits of the kind leaves nothing, whether the loop ends with it or goes on.
-/
theorem Pass.leaves_of_adds {pass : Pass} (h : m.Adds p n) : pass.Leaves p bodies s m n := by
  cases pass with
  | ended c => exact .claimed h
  | next value => exact h

end

namespace Eval

variable {α : Type} {p : Completion → Bool} {P : α → Prop} {bodies : List (Run Completion)}

/-- A computation that leaves no possible exits of a kind of its own, unless one of some bodies ends
it with an abrupt completion of another kind. -/
structure Claims (p : Completion → Bool) (bodies : List (Run Completion)) (x : Run Completion) :
    Prop where
  run : ∀ {s m c n}, x s m = .ok c n → Ending p bodies s m c n

namespace Claims

/-- What leaves no exits of the kind claims them, whatever the bodies are. -/
theorem of_avoids {P : Completion → Prop} {x : Run Completion} (h : Avoids p P x) :
    Claims p bodies x :=
  ⟨fun run => .claimed (h.run run).1⟩

/-- A completion that is returned leaves no exits. -/
theorem pure (c : Completion) : Claims p bodies (pure c) :=
  .of_avoids (P := fun _ => True) (.pure trivial)

/-- What comes first may leave no exits of the kind. -/
theorem bind {x : Run α} {f : α → Run Completion} (hx : Avoids p P x)
    (hf : ∀ a, P a → Claims p bodies (f a)) : Claims p bodies (x >>= f) := ⟨by
  rintro s m c n run
  obtain ⟨a, k, first, second⟩ := bind_eq_ok_iff.1 run
  obtain ⟨added, given⟩ := hx.run first
  exact ((hf a given).run second).after added⟩

/-- A rule that is one evaluation claims what the evaluation does. -/
theorem lift {x : Run Completion} (hx : Claims p bodies x) :
    Claims p bodies (Rule.lift x).complete := by
  rw [Rule.complete_lift]
  exact hx

/-- What comes first in a rule may leave no exits of the kind. -/
theorem bind_lift {x : Run α} {f : α → Rule Completion} (hx : Avoids p P x)
    (hf : ∀ a, P a → Claims p bodies (f a).complete) :
    Claims p bodies (Rule.lift x >>= f).complete := by
  rw [Rule.complete_bind_lift]
  exact .bind hx hf

/-- A rule whose first part is calm. -/
theorem bind_calm (le : ∀ c, p c = true → c.isJump = true) {r : Rule α} {f : α → Rule Completion}
    (hr : Rule.Calm P r) (hf : ∀ a, P a → Claims p bodies (f a).complete) :
    Claims p bodies (r >>= f).complete := by
  rw [Rule.complete_bind]
  refine .bind (Avoids.less le hr) fun e given => ?_
  cases e with
  | ok a => exact hf a given
  | error c => exact .pure c

/-- A rule that takes the labels of its statement. -/
theorem run_taking {p : List String → Completion → Bool} {f : List String → Rule Completion}
    (h : ∀ labels, Claims (p labels) bodies (f labels).complete) {s : Setup} {m n : Machine}
    {c : Completion} (run : (Rule.lift takeLabels >>= f).complete s m = .ok c n) :
    Ending (p m.labels) bodies s m c n := by
  have taken : takeLabels s m = .ok m.labels { m with labels := [] } := rfl
  rw [Rule.complete_lift_bind taken] at run
  have same : m.Adds (p m.labels) { m with labels := [] } := .of_eq rfl
  exact ((h m.labels).run run).after same

end Claims

/-! ### Loops -/

/-- What is calm leaves nothing that is aimed at a loop. -/
theorem avoids_of_calm {α : Type} {P : α → Prop} {labels : List String} {x : Run α} (h : Calm P x) :
    Avoids (Completion.endsPass labels) (fun _ => True) x :=
  .less (fun _ => Completion.isJump_of_endsPass) h.any

/-- What is aimed at a loop is claimed behind its body, unless the body ends the loop otherwise. -/
theorem afterBody_leaves {labels : List String} {value : Option Value} {c : Completion}
    {body : Run Completion} {rest : Run Unit} {s : Setup} {m k j n : Machine} {pass : Pass}
    (hbody : Extends body) (hrest : Avoids (Completion.endsPass labels) (fun _ => True) rest)
    (before : m.Adds (Completion.endsPass labels) k) (ran : body s k = .ok c j)
    (run : afterBody labels m.exits.size value c rest s j = .ok pass n) :
    pass.Leaves (Completion.endsPass labels) [body] s m n := by
  have within : m.exits.toList <+: j.exits.toList :=
    before.exits_kept.trans (hbody.run ran).1.exits_kept
  have claimed := Machine.Adds.dropClaimed within (Completion.endsPass labels)
  unfold afterBody at run
  split at run
  · obtain ⟨exits, _, asked, run⟩ := bind_eq_ok_iff.1 run
    cases asked
    split at run
    · obtain ⟨_, _, forgotten, run⟩ := bind_eq_ok_iff.1 run
      cases forgotten
      obtain ⟨_, _, finished, run⟩ := bind_eq_ok_iff.1 run
      cases run
      exact .claimed (claimed.trans (hrest.run finished).1)
    next none =>
      cases run
      -- there are no more possible exits than at the mark, so that they are the same ones
      refine Machine.Adds.of_eq (Array.toList_inj.1 (within.eq_of_length ?_)).symm
      have := within.length_le
      simp_all
      omega
  next goesOn =>
    split at run
    · obtain ⟨_, _, forgotten, run⟩ := bind_eq_ok_iff.1 run
      cases forgotten
      cases run
      exact .claimed claimed
    next stays =>
      cases run
      refine .abandoned (List.mem_singleton_self _) before ran ?_ ?_ _
      · simp_all [Completion.isAbrupt]
      · cases kind : c.kind <;> simp_all [Completion.endsPass]

end Eval

namespace Loop

variable {l : Loop} {labels : List String}

/-- The test and the update of a loop are calm, and its body keeps the possible exits from before. -/
structure IsCalm (l : Loop) : Prop where
  test : ∀ t, l.test = some t → JumpFree t.2
  update : ∀ x, l.update = some x → JumpFree x
  body : Extends l.body

/-- The test of a loop is calm, whatever becomes known of its value. -/
theorem calm_check (h : l.IsCalm) : Calm (fun _ => True) l.check := by
  unfold check
  split
  · exact .pure trivial
  next span test found =>
    refine .bind (h.test _ found) fun c _ => ?_
    split
    · exact .pure trivial
    · split
      · exact .pure trivial
      · exact .pure trivial
      · exact .bind (.aside (markUnknown_keeps span)) fun _ _ => .pure trivial

/-- The representative pass claims the exits of its body; the update adds none of the kind. -/
theorem avoids_representative (h : l.IsCalm) :
    Avoids (Completion.endsPass labels) (fun _ => True) (l.representative labels) := by
  refine .claiming (.block l.span ?_) fun _ _ => .pure trivial
  refine .bind h.body fun c _ => ?_
  split
  · exact .pure trivial
  · split
    next update found => exact .bind (h.update update found).extending fun _ _ => .pure trivial
    · exact .pure trivial

/-- Calm computations in order are calm. -/
theorem calm_inOrder {xs : List (Run Completion)} (h : ∀ x ∈ xs, JumpFree x) :
    JumpFree (inOrder xs) := by
  induction xs with
  | nil => exact .pure rfl
  | cons x rest ih =>
    obtain ⟨first, later⟩ := List.forall_mem_cons.1 h
    refine .bind first fun c other => ?_
    split
    · exact .pure other
    · exact ih later

/-- The rest of a loop after a possible exit leaves no exits of the kind. -/
theorem avoids_remainder (h : l.IsCalm) :
    Avoids (Completion.endsPass labels) (fun _ => True) (l.remainder labels) := by
  refine .bind (avoids_of_calm (.ambiguously l.span (calm_inOrder fun x among => ?_))) fun _ _ =>
    avoids_representative h
  rcases List.mem_append.1 among with update | test
  · exact h.update x (Option.mem_toList.1 update)
  · obtain ⟨t, found, rfl⟩ := Option.map_eq_some_iff.1 (Option.mem_toList.1 test)
    exact h.test t found

/-- Neither does giving the loop up. -/
theorem avoids_giveUp (h : l.IsCalm) (value : Option Value) :
    Avoids (Completion.endsPass labels) (fun _ => True) (l.giveUp labels value) :=
  .bind (avoids_representative h) fun _ _ => .pure trivial

/-- Neither does the test before a body. -/
theorem avoids_beforeBody (h : l.IsCalm) (tested : Bool) (value : Option Value) :
    Avoids (Completion.endsPass labels) (fun _ => True) (l.beforeBody labels tested value) := by
  unfold beforeBody
  split
  · exact .pure trivial
  · refine .bind (avoids_of_calm (calm_check h)) fun test _ => ?_
    split
    · exact .pure trivial
    · exact .pure trivial
    · exact .bind (avoids_giveUp h value) fun _ _ => .pure trivial
    · exact .pure trivial

/-- Neither does the report that there are too many iterations. -/
theorem avoids_exceed (h : l.IsCalm) (value : Option Value) :
    Avoids (Completion.endsPass labels) (fun _ => True) (l.exceed labels value) :=
  .bind (.aside reportMaxIterations_keeps) fun _ _ => avoids_giveUp h value

/-- A pass claims the exits of its body, unless the body ends the loop; the update adds none of the
kind. -/
theorem pass_leaves (h : l.IsCalm) {value : Option Value} {s : Setup} {m k n : Machine} {pass : Pass}
    (before : m.Adds (Completion.endsPass labels) k)
    (run : l.pass labels m.exits.size value s k = .ok pass n) :
    pass.Leaves (Completion.endsPass labels) [l.body] s m n := by
  obtain ⟨c, j, ran, rest⟩ := bind_eq_ok_iff.1 run
  obtain ⟨following, i, followed, last⟩ := bind_eq_ok_iff.1 rest
  have leaves := afterBody_leaves h.body (avoids_remainder h) before ran followed
  cases following with
  | ended c =>
    cases last
    exact leaves
  | next value =>
    refine Pass.leaves_of_adds (Machine.Adds.trans leaves (Avoids.run (P := fun _ => True) ?_ last).1)
    dsimp only
    split
    · exact .pure trivial
    next update found =>
      exact .bind (avoids_of_calm (h.update update found)) fun _ _ => .pure trivial

/-- What holds of one pass holds of all passes. -/
theorem claims_iterate (h : l.IsCalm) (passes : Nat) (tested : Bool) (value : Option Value) :
    Claims (Completion.endsPass labels) [l.body] (l.iterate labels passes tested value) := by
  -- by induction on the passes that are left: what a pass leaves is handed on to the next one
  induction passes generalizing tested value with
  | zero =>
    refine .bind (avoids_beforeBody h tested value) fun ended _ => ?_
    split
    · exact .pure _
    · exact .of_avoids (avoids_exceed h value)
  | succ passes ih =>
    refine ⟨fun {s m c n} run => ?_⟩
    obtain ⟨_, _, marked, run⟩ := bind_eq_ok_iff.1 run
    cases marked
    obtain ⟨ended, k, tested, run⟩ := bind_eq_ok_iff.1 run
    have before := ((avoids_beforeBody h _ _).run tested).1
    split at run
    · cases run
      exact .claimed before
    · obtain ⟨pass, j, passed, run⟩ := bind_eq_ok_iff.1 run
      have leaves := pass_leaves h before passed
      cases pass with
      | ended c =>
        cases run
        exact leaves
      | next value => exact ((ih true value).run run).after leaves

/-- A loop claims the exits that are aimed at it, whether its test comes first or last. -/
theorem claims_evaluate (h : l.IsCalm) (testFirst : Bool) :
    Claims (Completion.endsPass labels) [l.body] (l.evaluate labels testFirst) := by
  refine .bind (.setup _) fun options _ => ?_
  split
  · exact claims_iterate h _ _ _
  · refine .of_avoids (P := fun _ => True) ?_
    unfold visitOnce
    split
    · exact avoids_giveUp h none
    next span test found =>
      refine .bind (avoids_of_calm (h.test _ found)) fun c _ => ?_
      split
      · exact .pure trivial
      · exact .bind (.aside (markUnknown_keeps span)) fun _ _ => avoids_giveUp h none

end Loop

namespace NameLoop

variable {l : NameLoop} {labels : List String}

/-- The assignment and the object of a loop over names are calm, and its body keeps the possible
exits from before. -/
structure IsCalm (l : NameLoop) : Prop where
  assign : ∀ v, JumpFree (l.assign v)
  object : JumpFree l.object.2
  body : Extends l.body

/-- The representative pass of a loop over names claims the exits of its body. -/
theorem avoids_representative (h : l.IsCalm) :
    Avoids (Completion.endsPass labels) (fun _ => True) (l.representative labels) := by
  refine .claiming (.block l.span ?_) fun _ _ => .pure trivial
  refine .bind (h.assign _).extending fun c _ => ?_
  split
  · exact .pure trivial
  · exact h.body

/-- A pass over one name claims the exits of its body, unless the body ends the loop. -/
theorem pass_leaves (h : l.IsCalm) {value : Option Value} {name : String} {s : Setup} {m n : Machine}
    {pass : Pass} (run : l.pass labels value name s m = .ok pass n) :
    pass.Leaves (Completion.endsPass labels) [l.body] s m n := by
  obtain ⟨_, _, marked, run⟩ := bind_eq_ok_iff.1 run
  cases marked
  obtain ⟨c, k, assigned, run⟩ := bind_eq_ok_iff.1 run
  have before : m.Adds (Completion.endsPass labels) k :=
    ((avoids_of_calm (h.assign _)).run assigned).1
  split at run
  · cases run
    exact .claimed before
  · obtain ⟨c, j, ran, run⟩ := bind_eq_ok_iff.1 run
    exact afterBody_leaves h.body (avoids_representative h) before ran run

/-- The passes over all names claim what each of them claims. -/
theorem claims_visit (h : l.IsCalm) (o : ObjectId) (names : List String) (passes : Nat)
    (value : Option Value) :
    Claims (Completion.endsPass labels) [l.body] (l.visit labels o passes value names) := by
  -- by induction on the names that are left, each with its pass
  induction names generalizing passes value with
  | nil =>
    unfold visit
    exact .pure _
  | cons name rest ih =>
    unfold visit
    refine .bind .get fun m _ => ?_
    split
    · exact ih _ _
    · cases passes with
      | zero =>
        exact .bind (.aside reportMaxIterations_keeps) fun _ _ =>
          .bind (avoids_representative h) fun _ _ => .pure _
      | succ passes =>
        refine ⟨fun {s m c n} run => ?_⟩
        obtain ⟨pass, k, passed, run⟩ := bind_eq_ok_iff.1 run
        have leaves := pass_leaves h passed
        cases pass with
        | ended c =>
          cases run
          exact leaves
        | next value => exact ((ih passes value).run run).after leaves

/-- A loop over names claims the exits that are aimed at it. -/
theorem claims_evaluate (h : l.IsCalm) :
    Claims (Completion.endsPass labels) [l.body] (l.evaluate labels).complete := by
  have jumps (c : Completion) (h : c.endsPass labels = true) : c.isJump = true :=
    Completion.isJump_of_endsPass h
  -- a representative pass is run in a block, so that only possible exits are left of it
  have representative : Claims (Completion.endsPass labels) [l.body] (do
      Rule.lift (l.representative labels)
      return Completion.empty : Rule Completion).complete :=
    .bind_lift (avoids_representative h) fun _ _ => .pure _
  refine .bind_calm jumps (.value h.object) fun v _ => .bind_lift (.setup _) fun evaluated _ => ?_
  split
  · unfold visitValue
    split
    · exact .pure _
    · exact .pure _
    · exact .bind_lift (.aside (markUnknown_keeps _)) fun _ _ => representative
    · refine .bind_calm jumps (.native (Op.built_toObject? v).keeps) fun o _ => ?_
      split
      · exact .pure _
      · exact .bind_lift (.setup _) fun limit _ => .bind_lift .get fun m _ =>
          .lift (claims_visit h ..)
  · exact representative

end NameLoop

/-! ### Labels -/

/-- A label claims what is aimed at it however its statement ends. -/
theorem Eval.avoids_labeled (label : String) (passesOn : Bool) {body : Run Completion}
    (h : Extends body) :
    Avoids (Completion.leavesLabel label) (fun _ => True) (labeled label passesOn body) :=
  .bind (.modify fun _ => rfl) fun _ _ => .claiming h fun _ _ => .pure trivial

/-! ### Switches -/

namespace Case

variable {labels : List String} {cs : List Case}

/-- The test of a case is calm, and its statements keep the possible exits from before. -/
structure IsCalm (c : Case) : Prop where
  test : ∀ t, c.test = some t → JumpFree t.2
  body : Extends (Step.runAll none c.body)

/-- Cases that may or may not be entered leave no exits that are aimed at the switch. -/
theorem avoids_possibly (h : ∀ c ∈ cs, c.IsCalm) (span : Span) :
    Avoids (Completion.leavesSwitch labels) (fun _ => True) (possibly span labels cs) := by
  refine .claiming (.block span ?_) fun _ _ => .pure trivial
  induction cs with
  | nil => exact .pure trivial
  | cons c rest ih =>
    obtain ⟨first, later⟩ := List.forall_mem_cons.1 h
    exact .bind first.body fun completion _ => .bind (.steady (keeps_note completion)) fun _ _ =>
      ih later

/-- To select a case is calm, as only tests are evaluated. -/
theorem calm_select (h : ∀ c ∈ cs, c.IsCalm) (input : Value) (default : List Case) :
    (select input default cs).IsCalm := by
  induction cs with
  | nil => exact .pure trivial
  | cons c rest ih =>
    obtain ⟨first, later⟩ := List.forall_mem_cons.1 h
    unfold select
    split
    · exact ih later
    next span test found =>
      refine .bind (.value (first.test _ found)) fun v _ => ?_
      split
      · exact .pure trivial
      · exact ih later
      · exact .bind (.aside (markUnknown_keeps span)) fun _ _ => .pure trivial

/-- The bodies of the selected cases claim their exits one after the other. -/
theorem claims_fallThrough {bodies : List (Run Completion)} (h : ∀ c ∈ cs, c.IsCalm)
    (among : ∀ c ∈ cs, Step.runAll none c.body ∈ bodies) (span : Span) (value : Option Value) :
    Claims (Completion.leavesSwitch labels) bodies (fallThrough span labels value cs) := by
  -- by induction on the clauses: what a clause leaves is claimed before the next one is entered
  induction cs generalizing value with
  | nil => exact .pure _
  | cons c rest ih =>
    obtain ⟨first, later⟩ := List.forall_mem_cons.1 h
    obtain ⟨amongFirst, amongLater⟩ := List.forall_mem_cons.1 among
    refine ⟨fun {s m e n} run => ?_⟩
    obtain ⟨_, _, marked, run⟩ := bind_eq_ok_iff.1 run
    cases marked
    obtain ⟨completion, k, ran, run⟩ := bind_eq_ok_iff.1 run
    have claimed := Machine.Adds.dropClaimed (first.body.run ran).1.exits_kept
      (Completion.leavesSwitch labels)
    split at run
    · obtain ⟨_, _, forgotten, run⟩ := bind_eq_ok_iff.1 run
      cases forgotten
      cases run
      exact .claimed claimed
    next other =>
      split at run
      next abrupt =>
        cases run
        exact .abandoned amongFirst (.refl m) ran abrupt (Bool.eq_false_iff.2 other) _
      · obtain ⟨_, _, forgotten, run⟩ := bind_eq_ok_iff.1 run
        cases forgotten
        split at run
        · exact ((ih later amongLater _).run run).after claimed
        -- after a possible exit the rest may or may not be entered, which leaves possible exits
        -- only
        · refine .claimed (claimed.trans (Avoids.run (P := fun _ => True) ?_ run).1)
          split
          · exact .bind (avoids_possibly later span) fun _ _ => .pure trivial
          · exact .pure trivial

end Case

namespace Rule

variable {s : Setup} {m n : Machine} {c : Completion}

/-- A switch claims the exits that are aimed at it. -/
theorem ending_switch (span inputSpan : Span) {input : Run Completion} {cs : List Case}
    (hinput : Eval.JumpFree input) (h : ∀ c ∈ cs, c.IsCalm)
    (run : (Rule.switch span inputSpan input cs).complete s m = .ok c n) :
    Ending (Completion.leavesSwitch m.labels) (cs.map (Step.runAll none ·.body)) s m c n := by
  refine Claims.run_taking (p := Completion.leavesSwitch) (fun labels => ?_) run
  have jumps (c : Completion) (h : c.leavesSwitch labels = true) : c.isJump = true :=
    Completion.isJump_of_leavesSwitch h
  refine .bind_calm jumps (.value hinput) fun v _ => ?_
  split
  · exact .bind_lift (.aside (markUnknown_keeps inputSpan)) fun _ _ =>
      .lift (.of_avoids (Case.avoids_possibly h span))
  -- the clauses that are entered are among those of the statement
  · have default : ∀ c ∈ Case.fromDefault cs, c ∈ cs := fun c among =>
      (List.dropWhile_sublist _).subset among
    have chosen := Case.select_gives v default fun _ among => among
    refine .bind_calm jumps (.of_gives (Case.calm_select h v _) chosen) fun _ given => ?_
    split
    · exact .lift (.of_avoids (Case.avoids_possibly h span))
    · exact .pure _
    next ds _ =>
      have among := given ds rfl
      exact .lift (Case.claims_fallThrough (fun c listed => h c (among c listed))
        (fun c listed => List.mem_map.2 ⟨c, among c listed, rfl⟩) span none)

/-- So does a loop, after a calm start. -/
theorem ending_loop (testFirst : Bool) {start : Rule Unit} {l : Loop} (hstart : start.IsCalm)
    (h : l.IsCalm) (run : (Rule.loop testFirst start l).complete s m = .ok c n) :
    Ending (Completion.endsPass m.labels) [l.body] s m c n := by
  refine Claims.run_taking (p := Completion.endsPass) (fun labels => ?_) run
  exact .bind_calm (fun _ => Completion.isJump_of_endsPass) hstart fun _ _ =>
    .lift (Loop.claims_evaluate h testFirst)

/-- So does a loop over names. -/
theorem ending_nameLoop {l : NameLoop} (h : l.IsCalm)
    (run : (Rule.nameLoop l).complete s m = .ok c n) :
    Ending (Completion.endsPass m.labels) [l.body] s m c n :=
  Claims.run_taking (p := Completion.endsPass) (fun _ => NameLoop.claims_evaluate h) run

end Rule

/-! ## Every statement -/

namespace Statement

/-- True for a completion that is aimed at a statement with labels. -/
def isTarget (labels : List String) : Statement → Completion → Bool
  | .labeled _ label _ => Completion.leavesLabel label.name
  | .switch .. => Completion.leavesSwitch labels
  | .whileLoop .. => Completion.endsPass labels
  | .doWhileLoop .. => Completion.endsPass labels
  | .forLoop .. => Completion.endsPass labels
  | .forInLoop .. => Completion.endsPass labels
  | _ => fun _ => false

/-- The bodies of a loop or of a switch. -/
def bodies (call : ScriptCall) : Statement → List (Run Completion)
  | .switch _ _ cs => (SwitchCase.cases call cs).map (Step.runAll none ·.body)
  | .whileLoop _ _ s => [s.evaluate call]
  | .doWhileLoop _ _ s => [s.evaluate call]
  | .forLoop _ _ _ _ s => [s.evaluate call]
  | .forInLoop _ _ _ s => [s.evaluate call]
  | _ => []

/-- What is aimed at a statement is a jump. -/
theorem isJump_of_isTarget {labels : List String} {st : Statement} {c : Completion}
    (h : st.isTarget labels c = true) : c.isJump = true := by
  cases st with
  | labeled span label body =>
    have breaks : c.kind = .breaks ∧ c.target = some label.name := by
      simpa [isTarget, Completion.leavesLabel] using h
    simp [Completion.isJump, breaks.1]
  | switch span x cs => exact Completion.isJump_of_leavesSwitch h
  | whileLoop | doWhileLoop | forLoop | forInLoop => exact Completion.isJump_of_endsPass h
  | _ => cases h

variable {calls : Nat} {st : Statement} {s : Setup} {m n : Machine} {c : Completion}

/-- The bodies of a statement keep the possible exits from before. -/
theorem extends_bodies (st : Statement) : ∀ body ∈ st.bodies (callWithin calls), Extends body := by
  have single (st : Statement) : ∀ body ∈ [st.evaluate (callWithin calls)], Extends body :=
    List.forall_mem_singleton.2 (.steady (steady_evaluate (callWithin_keeps calls) st))
  cases st with
  | switch span x cs =>
    intro body among
    obtain ⟨c, listed, rfl⟩ := List.mem_map.1 among
    have keeps := SwitchCase.keeps_cases (R := fun _ => Machine.Steady) (callWithin_keeps calls) cs
      fun h => absurd trivial h
    exact .steady (Step.keeps_runAll (keeps c listed).body none)
  | whileLoop span test body | doWhileLoop span test body | forLoop span start test update body
  | forInLoop span target x body => exact single body
  | _ => exact nofun

/-- What the rule of a statement leaves, whatever the registry makes of the statement. -/
theorem ending_of_ruled (st : Statement) {kind : NodeKind} {span : Span} {core : Run Completion}
    (h : ∀ {m n c}, core s m = .ok c n →
      Ending (st.isTarget m.labels) (st.bodies (callWithin calls)) s m c n)
    (run : ruled kind span core s m = .ok c n) :
    ∃ k, n.exits = k.exits ∧
      Ending (st.isTarget m.labels) (st.bodies (callWithin calls)) s m c k := by
  rcases run_of_ruled run with ⟨added, -⟩ | ⟨k, ran, rfl⟩
  · exact ⟨n, rfl, .claimed (added.mono fun _ => isJump_of_isTarget)⟩
  · have begun : m.Adds (st.isTarget m.labels) (m.beginRule ⟨kind, span.location s.file⟩) :=
      .of_eq rfl
    exact ⟨k, rfl, (h ran).after begun⟩

/-- A statement with bodies leaves the exits of a machine at which it ends as told. -/
theorem exists_ending (run : st.evaluate (callWithin calls) s m = .ok c n) :
    ∃ k, n.exits = k.exits ∧
      Ending (st.isTarget m.labels) (st.bodies (callWithin calls)) s m c k := by
  have keeps := callWithin_keeps (R := fun _ => Machine.Steady) calls
  have jumpFree := callWithin_jumpFree calls
  have body (st : Statement) : Extends (st.evaluate (callWithin calls)) :=
    .steady (steady_evaluate keeps st)
  -- nothing is aimed at the other statements
  have untargeted : ∃ k, n.exits = k.exits ∧ Ending (fun _ => false) [] s m c k :=
    ⟨n, rfl, .claimed ((body st).run run).1⟩
  have loop (span : Span) (test update : Option Expression) (inner : Statement) :
      Loop.IsCalm ⟨span, evaluateTest (callWithin calls) test,
        evaluateOption (callWithin calls) update, inner.evaluate (callWithin calls)⟩ :=
    ⟨calm_evaluateTest jumpFree test, calm_evaluateOption jumpFree update, body inner⟩
  cases st with
  | labeled span label inner =>
    exact ending_of_ruled (.labeled span label inner)
      (fun ran => .claimed ((avoids_labeled label.name _ (body inner)).run ran).1) run
  | switch span x cs =>
    refine ending_of_ruled (.switch span x cs) (fun ran => Rule.ending_switch _ _
      (Expression.calm_evaluate jumpFree x) (fun c listed => ?_) ran) run
    exact ⟨SwitchCase.calm_tests jumpFree cs c listed,
      extends_bodies (.switch span x cs) _ (List.mem_map.2 ⟨c, listed, rfl⟩)⟩
  | whileLoop span test inner =>
    exact ending_of_ruled (.whileLoop span test inner)
      (fun ran => Rule.ending_loop true (.pure trivial) (loop span (some test) none inner) ran) run
  | doWhileLoop span test inner =>
    exact ending_of_ruled (.doWhileLoop span test inner)
      (fun ran => Rule.ending_loop false (.pure trivial) (loop span (some test) none inner) ran) run
  | forLoop span start test update inner =>
    have begins := ForStart.calm_begin jumpFree start
    exact ending_of_ruled (.forLoop span start test update inner)
      (fun ran => Rule.ending_loop true begins (loop span test update inner) ran) run
  | forInLoop span target x inner =>
    have parts : NameLoop.IsCalm ⟨span, target.assign (callWithin calls),
        (x.span, x.evaluate (callWithin calls)), inner.evaluate (callWithin calls)⟩ :=
      ⟨ForInTarget.calm_assign jumpFree target, Expression.calm_evaluate jumpFree x, body inner⟩
    exact ending_of_ruled (.forInLoop span target x inner)
      (fun ran => Rule.ending_nameLoop parts ran) run
  | _ => exact untargeted

/-- **No possible exit outlives the statement that it is aimed at**, unless a body of the statement
ends it with an abrupt completion that is not aimed at it. A loop or a switch claims nothing then: the
possible exits that are aimed at it and left are those that this body has left. A labelled statement
claims what is aimed at it in any case. The possible exits from before a statement are left alone, so
that those behind them are the ones that it has recorded. -/
theorem exits_claimed (run : st.evaluate (callWithin calls) s m = .ok c n) :
    m.exits.toList <+: n.exits.toList ∧
      (n.claimed m.exits.size (st.isTarget m.labels) = [] ∨
        ∃ body ∈ st.bodies (callWithin calls), ∃ k d j v, body s k = .ok d j ∧ d.isAbrupt = true ∧
          st.isTarget m.labels d = false ∧ c = d.updateEmpty v ∧ n.exits = j.exits ∧
          k.claimed m.exits.size (st.isTarget m.labels) = [] ∧
          n.claimed m.exits.size (st.isTarget m.labels) =
            j.claimed k.exits.size (st.isTarget m.labels)) := by
  obtain ⟨j, exits, ends⟩ := exists_ending run
  have same (mark : Nat) (p : Completion → Bool) : n.claimed mark p = j.claimed mark p := by
    rw [Machine.claimed, Machine.claimed, Machine.exitsSince, Machine.exitsSince, exits]
  rw [same]
  refine ⟨((steady_evaluate (callWithin_keeps calls) st).of_ok run).exits, ?_⟩
  cases ends with
  | claimed adds => exact .inl adds.claimed_eq_nil
  | @abandoned body k _ d among before ran abrupt other v =>
    have kept := ((extends_bodies st body among).run ran).1.exits_kept
    exact .inr ⟨body, among, k, d, j, v, ran, abrupt, other, rfl, exits, before.claimed_eq_nil,
      before.claimed_eq kept⟩

/-! ### Loops that may be left -/

open Analyzer

/-- A setup of an analysis. -/
def exitSetup : Setup := { options := {}, rules := .core, file := "exits.js" }

/-- A machine in which nothing is known of the global `u`. -/
def exitStart : Machine := (defineUnknown "u").after exitSetup (.start withUnknown.realm)

/-- `if (u) break;` -/
def mayBreak : Statement := .branch default (nameAt "u") (.breaks default none) none

/-- `while (true) s` -/
def endless (s : Statement) : Statement := .whileLoop default (boolAt true) s

/-- `try { s } finally { throw true; }` -/
def overruled (s : Statement) : Statement :=
  .tryCatch default (.mk default [s]) none (some (.mk default [.throws default (boolAt true)]))

/-- `while (true) if (u) break;` ends normally, so that its break is claimed. -/
theorem exits_claimed_mayBreak : ∃ c n,
    (endless mayBreak).evaluate (callWithin 0) exitSetup exitStart = .ok c n ∧
      n.claimed exitStart.exits.size ((endless mayBreak).isTarget exitStart.labels) = [] := by
  have ends : ((endless mayBreak).evaluate (callWithin 0)).succeedsWith (·.isNormal) exitSetup
      exitStart = true := by decide +kernel
  obtain ⟨c, n, run, normal⟩ := exists_of_succeedsWith ends
  refine ⟨c, n, run, (exits_claimed run).2.resolve_right ?_⟩
  rintro ⟨body, -, k, d, j, v, -, abrupt, -, rfl, -⟩
  rw [Completion.isNormal, Completion.kind_updateEmpty] at normal
  rw [Completion.isAbrupt, Completion.isNormal, normal] at abrupt
  cases abrupt

/-- `while (true) try { if (u) break; } finally { throw true; }` ends with the throw and leaves the
break. -/
theorem exits_unclaimed_overruled : ∃ c n,
    (endless (overruled mayBreak)).evaluate (callWithin 0) exitSetup exitStart = .ok c n ∧
      c.isThrow = true ∧ (n.claimed exitStart.exits.size
        ((endless (overruled mayBreak)).isTarget exitStart.labels)).map (·.completion) =
        [.breaks none] := by
  have throws : ((endless (overruled mayBreak)).evaluate (callWithin 0)).succeedsWith (·.isThrow)
      exitSetup exitStart = true := by decide +kernel
  have leaves : ((((endless (overruled mayBreak)).evaluate (callWithin 0)).after exitSetup
      exitStart).claimed exitStart.exits.size
        ((endless (overruled mayBreak)).isTarget exitStart.labels)).map (·.completion) =
      [.breaks none] := by decide +kernel
  obtain ⟨c, n, run, isThrow⟩ := exists_of_succeedsWith throws
  rw [Eval.after, run] at leaves
  exact ⟨c, n, run, isThrow, leaves⟩

end Statement

end AbstractScript
