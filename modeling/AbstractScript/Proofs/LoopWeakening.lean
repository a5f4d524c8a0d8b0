import AbstractScript.Proofs.LoopPlan
import AbstractScript.Proofs.Soundness

/-!
# A loop weakens what follows a possible exit

When the body of a loop may have left the loop, or something around it, all that is left of the loop
is evaluated in ambiguous blocks. The same holds for the test, except for the body that follows it in
the same pass: possible exits are looked at after the body only (`Loop.loop_weakens`). What the update
records is not looked at before the next pass begins, so that it has no effect on the loop
(`Loop.loop_not_weakened_update`).
-/
namespace AbstractScript

open Eval

namespace Loop

/-! ## Visits that settle -/

variable {m n j : Machine} {parts : Part → Run Completion} {s : Setup}

/-- What comes after a possible exit is deeper than a machine, unless the update recorded it at the
depth of the machine. The body that follows a test at that depth may be an exception. -/
def Settles (m : Machine) (v : Visit Part) (later : List (Visit Part)) : Prop :=
  v.Records →
    (v.part ≠ .update ∨ m.Deeper v.before → ∀ w ∈ later.tail, m.Deeper w.before) ∧
    (v.part = .body ∨ m.Deeper v.before → ∀ w ∈ later, m.Deeper w.before)

/-- All visits settle. -/
def Settled (m : Machine) : List (Visit Part) → Prop
  | [] => True
  | v :: later => Settles m v later ∧ Settled m later

/-- What is visited of a test before a body: nothing, or the test, which leaves a machine. -/
def Tested (n j : Machine) (ts : List (Visit Part)) : Prop :=
  ts = [] ∨ ∃ t, ts = [t] ∧ t.part = .test ∧ t.before = n ∧ t.after = j

namespace Settled

/-- Visits in ambiguous blocks settle. -/
theorem of_deeper {vs : List (Visit Part)} (h : ∀ v ∈ vs, m.Deeper v.before) : Settled m vs := by
  induction vs with
  | nil => trivial
  | cons v later ih =>
    obtain ⟨-, deeper⟩ := List.forall_mem_cons.1 h
    exact ⟨fun _ => ⟨fun _ w hw => deeper w (List.mem_of_mem_tail hw), fun _ => deeper⟩, ih deeper⟩

/-- A visit settles if only ambiguous blocks follow. -/
theorem cons_deeper {v : Visit Part} {vs : List (Visit Part)} (h : ∀ w ∈ vs, m.Deeper w.before) :
    Settled m (v :: vs) :=
  ⟨fun _ => ⟨fun _ w hw => h w (List.mem_of_mem_tail hw), fun _ => h⟩, of_deeper h⟩

/-- A test and a body settle if only ambiguous blocks follow. -/
theorem tested_deeper {ts vs : List (Visit Part)} {b : Visit Part} (tests : Tested n j ts)
    (place : m.InPlace n) (h : ∀ w ∈ vs, m.Deeper w.before) : Settled m (ts ++ b :: vs) := by
  rcases tests with rfl | ⟨t, rfl, test, rfl, -⟩
  · exact cons_deeper h
  · refine ⟨fun _ => ⟨fun _ => h, fun within => ?_⟩, cons_deeper h⟩
    exact within.elim (fun body => nomatch test.symm.trans body) fun d => absurd d place.not_deeper

/-- Visits that record nothing settle. -/
theorem append_quiet {vs us : List (Visit Part)} (quiet : ∀ v ∈ vs, ¬ v.Records)
    (h : Settled m us) : Settled m (vs ++ us) := by
  induction vs with
  | nil => exact h
  | cons v vs ih =>
    obtain ⟨first, later⟩ := List.forall_mem_cons.1 quiet
    exact ⟨fun records => absurd records first, ih later⟩

/-- The visit of an update at the depth of a machine settles. -/
theorem cons_update {u : Visit Part} {vs : List (Visit Part)} (update : u.part = .update)
    (place : m.InPlace u.before) (h : Settled m vs) : Settled m (u :: vs) := by
  refine ⟨fun _ => ⟨fun within => ?_, fun within => ?_⟩, h⟩
  · exact within.elim (fun other => absurd update other) fun d => absurd d place.not_deeper
  · exact within.elim (fun body => nomatch update.symm.trans body) fun d => absurd d place.not_deeper

theorem split {before later : List (Visit Part)} {v : Visit Part}
    (h : Settled m (before ++ v :: later)) : Settles m v later := by
  induction before with
  | nil => exact h.1
  | cons u before ih => exact ih h.2

end Settled

/-! ## Passes -/

namespace Shape

variable (k : Shape) (labels : List String) (value : Option Value)
  (place : ∀ p, Eval.Keeps Machine.InPlace (parts p)) (running : m.contexts.isEmpty = false)

include place running

theorem below_representative : Plan.Below parts m (k.representative labels) :=
  .bind place (.act _) fun _ => .bind place (.ambiguously place running _ _) fun _ =>
    .bind place (.act _) fun _ => .pure _

theorem below_remainder : Plan.Below parts m (k.remainder labels) :=
  .bind place (.ambiguously place running _ _) fun _ => k.below_representative labels place running

theorem below_giveUp : Plan.Below parts m (k.giveUp labels value) :=
  .bind place (k.below_representative labels place running) fun _ => .pure _

theorem below_exceed : Plan.Below parts m (k.exceed labels value) :=
  .bind place (.act _) fun _ => k.below_giveUp labels value place running

end Shape

namespace Shape

variable (k : Shape) (labels : List String) (value : Option Value)
  (steady : ∀ p, Eval.Keeps Machine.Steady (parts p)) (running : m.contexts.isEmpty = false)
  (since : m.InPlace n)

/-- What is visited of the test before a body. -/
def tests (parts : Part → Run Completion) (s : Setup) (n : Machine) : List (Visit Part) :=
  match k.test with
  | some _ => [⟨.test, n, parts .test s n⟩]
  | none => []

theorem visits_check : k.check.visits parts s n = k.tests parts s n := by
  obtain ⟨span, _ | test, updates⟩ := k
  · rfl
  · unfold check tests
    dsimp only
    rw [Plan.visits_part_bind]
    cases parts .test s n with
    | error e j => rfl
    | ok c j =>
      dsimp only
      congr 1
      split
      · rfl
      · split <;> rfl

theorem settled_check {us : List (Visit Part)} (h : ∀ u ∈ us, m.Deeper u.before) :
    Settled m (k.check.visits parts s n ++ us) := by
  rw [visits_check, tests]
  split
  · exact .cons_deeper h
  · exact .of_deeper h

/-- A test lets a loop go on in the machine that it leaves. -/
theorem tested_check (goesOn : k.check.run parts s n = .ok .goOn j) :
    Tested n j (k.check.visits parts s n) := by
  rw [visits_check]
  obtain ⟨span, _ | test, updates⟩ := k
  · exact .inl rfl
  · obtain ⟨c, i, run, rest⟩ := Plan.run_bind_eq_ok_iff.1 goesOn
    refine .inr ⟨_, rfl, rfl, rfl, (Visit.after_of_ok run).trans ?_⟩
    split at rest
    · cases rest
    · split at rest
      · cases rest
        rfl
      · cases rest
      · cases rest

include steady running since

/-- What comes before a body settles with what follows. -/
theorem settled_beforeBody (tested : Bool) {f : Option Completion → Plan Part Completion}
    (ended : ∀ c, f (some c) = pure c)
    (goesOn : ∀ ts j, n.Steady j → Tested n j ts →
      Settled m (ts ++ (f none).visits parts s j)) :
    Settled m ((k.beforeBody labels tested value >>= f).visits parts s n) := by
  have place : ∀ p, Eval.Keeps Machine.InPlace (parts p) := Plan.inPlace_of_steady steady
  unfold beforeBody
  cases tested with
  | false =>
    rw [if_pos (by decide), Plan.visits_pure_bind]
    exact goesOn [] n (refl n) (.inl rfl)
  | true =>
    rw [if_neg (by decide), Plan.visits_assoc, Plan.visits_bind]
    cases run : k.check.run parts s n with
    | error e j => exact k.settled_check fun _ none => nomatch none
    | ok t j =>
      have kept : n.Steady j := by
        rw [run_check] at run
        exact (Loop.made_check (k.keeps_loop steady).made).keeps.of_ok run
      cases t with
      | goOn =>
        dsimp only
        rw [Plan.visits_pure_bind]
        exact goesOn _ j kept (k.tested_check run)
      | unknown =>
        -- the loop is given up, so that its body is visited once more, in a block
        refine k.settled_check ?_
        dsimp only
        rw [Plan.visits_assoc]
        have gives (c : Completion) : Plan.Below parts m (pure (some c) >>= f) :=
          .pure_bind (ended c ▸ .pure c)
        exact Plan.Below.bind place (k.below_giveUp labels value place running) gives s j
          (IsTrans.trans _ _ _ since kept.inPlace)
      | stop | abrupt =>
        dsimp only
        rw [Plan.visits_pure_bind, ended]
        exact k.settled_check fun _ none => nomatch none

omit running in
/-- The update settles with what follows. -/
theorem settled_update {f : Pass → Plan Part Completion} (ended : ∀ c, f (.ended c) = pure c)
    (goesOn : ∀ j, n.Steady j → Settled m ((f (.next value)).visits parts s j)) :
    Settled m (((if k.updates then do
        let c ← .part .update
        return if c.isAbrupt then .ended c else .next value
      else return .next value) >>= f : Plan Part Completion).visits parts s n) := by
  split
  · -- nothing looks at what the update records, so that it settles whatever follows
    rw [Plan.visits_assoc, Plan.visits_part_bind]
    refine .cons_update rfl since ?_
    cases update : parts .update s n with
    | error e j => trivial
    | ok c j =>
      dsimp only
      rw [Plan.visits_pure_bind]
      split
      · rw [ended]
        trivial
      · exact goesOn j ((steady .update).of_ok update)
  · rw [Plan.visits_pure_bind]
    exact goesOn n (refl n)

/-- A pass after a test settles with what follows. -/
theorem settled_pass {i : Machine} (kept : i.Steady n) {ts : List (Visit Part)}
    (tests : Tested i n ts) (place : m.InPlace i) {f : Pass → Plan Part Completion}
    (ended : ∀ c, f (.ended c) = pure c)
    (goesOn : ∀ value' j, n.Steady j → Settled m ((f (.next value')).visits parts s j)) :
    Settled m (ts ++ (k.pass labels i.exits.size value >>= f).visits parts s n) := by
  have stays : ∀ p, Eval.Keeps Machine.InPlace (parts p) := Plan.inPlace_of_steady steady
  unfold pass
  rw [Plan.visits_assoc, Plan.visits_part_bind]
  cases body : parts .body s n with
  | error e j => exact .tested_deeper tests place fun _ none => nomatch none
  | ok c j =>
    have kept' : n.Steady j := (steady .body).of_ok body
    have since' : m.InPlace j := IsTrans.trans _ _ _ since kept'.inPlace
    have below := Plan.Below.afterBody stays labels i.exits.size value c
      (k.below_remainder labels stays running) s j since'
    dsimp only
    rw [Plan.visits_assoc, Plan.visits_bind]
    cases after : (Plan.afterBody labels i.exits.size value c (k.remainder labels)).run parts s j with
    | error e j' =>
      rw [List.append_nil]
      exact .tested_deeper tests place below
    | ok p j' =>
      cases p with
      | ended c' =>
        -- the remainder of the loop, if it is visited, is visited in blocks
        dsimp only
        rw [Plan.visits_pure_bind, ended]
        refine .tested_deeper tests place ?_
        exact List.append_nil _ ▸ below
      | next value' =>
        obtain ⟨none, rfl, few⟩ := Plan.next_afterBody after
        dsimp only
        rw [none, List.nil_append, List.append_cons]
        -- neither the test nor the body has recorded anything
        have sizes : i.exits.size ≤ n.exits.size ∧ n.exits.size ≤ j'.exits.size :=
          ⟨kept.exits_le, kept'.exits_le⟩
        refine .append_quiet (fun v visited => ?_)
          (k.settled_update value' steady since' ended fun j later =>
            goesOn value' j (IsTrans.trans _ _ _ kept' later))
        rcases List.mem_append.1 visited with test | body
        · obtain rfl | ⟨t, rfl, -, before, after⟩ := tests
          · cases test
          · obtain rfl := List.mem_singleton.1 test
            rw [Visit.Records, before, after]
            omega
        · obtain rfl := List.mem_singleton.1 body
          show ¬ n.exits.size < j'.exits.size
          omega

theorem settled_iterate (passes : Nat) (tested : Bool) :
    Settled m ((k.iterate labels passes tested value).visits parts s n) := by
  have place : ∀ p, Eval.Keeps Machine.InPlace (parts p) := Plan.inPlace_of_steady steady
  -- by induction on the passes that are left; a pass only has to begin in place
  induction passes generalizing n tested value with
  | zero =>
    unfold iterate
    refine k.settled_beforeBody labels value steady running since tested (fun _ => rfl)
      fun ts j kept tests => ?_
    have below := k.below_exceed labels value place running s j
      (IsTrans.trans _ _ _ since kept.inPlace)
    rcases tests with rfl | ⟨t, rfl, -⟩
    · exact .of_deeper below
    · exact .cons_deeper below
  | succ passes ih =>
    unfold iterate
    rw [Plan.visits_bind_ok (x := Plan.mark) rfl]
    refine k.settled_beforeBody labels value steady running since tested (fun _ => rfl)
      fun ts j kept tests => ?_
    refine k.settled_pass labels value steady running (IsTrans.trans _ _ _ since kept.inPlace) kept
      tests since (fun _ => rfl) fun value' j' kept' => ?_
    exact ih value' (IsTrans.trans _ _ _ since (IsTrans.trans _ _ _ kept kept').inPlace) true

theorem settled_visitOnce : Settled m ((k.visitOnce labels).visits parts s n) := by
  have place : ∀ p, Eval.Keeps Machine.InPlace (parts p) := Plan.inPlace_of_steady steady
  unfold visitOnce
  split
  · exact .of_deeper (k.below_giveUp labels none place running s n since)
  next span _ =>
    rw [Plan.visits_part_bind]
    cases run : parts .test s n with
    | error e j => exact .cons_deeper fun _ none => nomatch none
    | ok c j =>
      have since' : m.InPlace j := IsTrans.trans _ _ _ since ((place .test).of_ok run)
      refine .cons_deeper ?_
      dsimp only
      split
      · exact fun _ none => nomatch none
      · exact Plan.Below.bind place (.act _) (fun _ => k.below_giveUp labels none place running) s j
          since'

theorem settled_evaluate (testFirst : Bool) :
    Settled m ((k.evaluate labels testFirst).visits parts s n) := by
  unfold evaluate
  rw [Plan.visits_bind_ok (x := Plan.options) rfl]
  split
  · exact k.settled_iterate labels none steady running since _ testFirst
  · exact k.settled_visitOnce labels steady running since

end Shape

/-! ## The law of loops -/

/-- **A loop weakens what follows a possible exit.** Once the body of a loop has recorded a possible
exit, or any part of the loop in an ambiguous block has, all parts of the loop are evaluated deeper
than the loop itself. Once the test has, all parts are but the body that follows at once.

The visits are those of the loop that the statement evaluates (`Statement.evaluate_loop`,
`Loop.run_shape`). -/
theorem loop_weakens (calls : Nat) {st : Statement} {testFirst : Bool} {l : Loop}
    (written : st.loop? (callWithin calls) = some (testFirst, l)) {s : Setup} {m : Machine}
    (running : m.contexts.isEmpty = false) {labels : List String} {before later : List (Visit Part)}
    {v : Visit Part} (visited : l.visits labels testFirst s m = before ++ v :: later)
    (records : v.Records) :
    (v.part ≠ .update ∨ m.Deeper v.before → ∀ w ∈ later.tail, m.Deeper w.before) ∧
      (v.part = .body ∨ m.Deeper v.before → ∀ w ∈ later, m.Deeper w.before) := by
  have steady : ∀ p, Eval.Keeps Machine.Steady (l.parts p) :=
    keeps_parts (Statement.keeps_loop? (callWithin_keeps calls) (fun no => absurd trivial no) written)
  have settled : Settled m (l.visits labels testFirst s m) :=
    l.shape.settled_evaluate labels steady running (refl m) testFirst
  rw [visited] at settled
  exact settled.split records

/-! ### Loops that may be left -/

open Analyzer

/-- A loop in a `try`, after the declarations of a function `f` that throws if the unknown global is
true and of `x` and `i` that are true: `function f() { if (u) throw true; } var x = true, i = true;
try { loop } catch (e) {}`. -/
def guardedLoop (loop : Statement) : Program where
  span := default
  file := "loop.js"
  body :=
    [functionAt "f" [throwIfUnknown],
    .varDeclaration default
      [.mk default ⟨default, "x"⟩ (some (boolAt true)),
      .mk default ⟨default, "i"⟩ (some (boolAt true))],
    .tryCatch default (.mk default [loop])
      (some (.mk default ⟨default, "e"⟩ (.mk default []))) none]

/-- The machine in which the loop begins. -/
def loopStart (loop : Statement) : Machine :=
  withUnknown.machineAfter (guardedLoop loop) ((guardedLoop loop).body.take 2)

/-- The visits of a loop that begins there. -/
def guardedVisits (loop : Statement) : List (Visit Part) :=
  match loop.loop? (callWithin 1) with
  | some (testFirst, l) =>
    l.visits [] testFirst (withUnknown.setup (guardedLoop loop)) (loopStart loop)
  | none => []

/-- `while (x) if (u) break;` -/
def possibleBreak : Statement :=
  .whileLoop default (nameAt "x") (.branch default (nameAt "u") (.breaks default none) none)

/-- The test and the body that follow the body with the possible break are in an ambiguous block. -/
theorem loop_weakens_possibleBreak :
    ∃ before v later, guardedVisits possibleBreak = before ++ v :: later ∧ v.part = .body ∧
      v.Records ∧ later.map Visit.part = [.test, .body] ∧
      ∀ w ∈ later, (loopStart possibleBreak).Deeper w.before := by
  have outlines : (guardedVisits possibleBreak).map Visit.outline =
      [(.test, false, 0)] ++ (.body, true, 0) :: [(.test, false, 1), (.body, true, 1)] := by
    decide +kernel
  obtain ⟨before, v, later, visited, outline, rest⟩ := Visit.exists_of_outlines outlines
  have body : v.part = .body := congrArg Prod.fst outline
  have records : v.Records := of_decide_eq_true (congrArg (·.2.1) outline)
  have parts : later.map Visit.part = [.test, .body] := by
    rw [show Visit.part = Prod.fst ∘ Visit.outline from rfl, ← List.map_map, rest]
    rfl
  have running : (loopStart possibleBreak).contexts.isEmpty = false := by decide +kernel
  refine ⟨before, v, later, visited, body, records, parts, ?_⟩
  have written : possibleBreak.loop? (callWithin 1) = some (true, _) := rfl
  exact (loop_weakens 1 written running visited records).2 (.inl body)

/-- `for (; x; f()) { x = i; i = false; }` -/
def possibleUpdate : Statement :=
  .forLoop default none (some (nameAt "x")) (some (callOf "f"))
    (.block (.mk default
      [.expression default (assignAt "x" (nameAt "i")),
      .expression default (assignAt "i" (boolAt false))]))

/-- The second pass follows the update, which may have thrown, at the depth of the loop. The analysis
takes what the pass assigns for granted, although there is no second pass if `u` is true. -/
theorem loop_not_weakened_update :
    (∃ before v later, guardedVisits possibleUpdate = before ++ v :: later ∧ v.Records ∧
      ∃ w ∈ later, w.part = .body ∧ ¬ (loopStart possibleUpdate).Deeper w.before) ∧
      (withUnknown.analyze (guardedLoop possibleUpdate)).global? "x" = some (.bool false) ∧
      (withUnknown.analyzeWith [("u", .bool true)] (guardedLoop possibleUpdate)).global? "x" =
        some (.bool true) := by
  have outlines : (guardedVisits possibleUpdate).map Visit.outline =
      [(.test, false, 0), (.body, false, 0)] ++ (.update, true, 0) ::
        [(.test, false, 0), (.body, false, 0), (.update, true, 0), (.test, false, 0)] := by
    decide +kernel
  refine ⟨?_, by decide +kernel, by decide +kernel⟩
  obtain ⟨before, v, later, visited, outline, rest⟩ := Visit.exists_of_outlines outlines
  have next : later.map Visit.outline =
      [(.test, false, 0)] ++ (.body, false, 0) :: [(.update, true, 0), (.test, false, 0)] := rest
  obtain ⟨first, w, last, rfl, second, -⟩ := Visit.exists_of_outlines next
  refine ⟨before, v, _, visited, of_decide_eq_true (congrArg (·.2.1) outline), w, by simp,
    congrArg Prod.fst second, fun deeper => ?_⟩
  have depth : w.before.contexts.depth = 0 := congrArg (·.2.2) second
  exact Nat.not_lt_zero _ (Nat.lt_of_lt_of_eq deeper.depth depth)

end Loop

end AbstractScript
