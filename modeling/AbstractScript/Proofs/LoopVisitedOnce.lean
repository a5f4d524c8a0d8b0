import AbstractScript.Proofs.LoopBound

/-!
# Loops that are visited once

If loops are not evaluated, a loop evaluates its test and then its body, once and in an ambiguous block
of its own, and it ends normally (`Loop.visited_once`). Its test is evaluated outside of the block,
though, where it may end otherwise: such a test ends a `while` loop before its body
(`Loop.unvisited_throwingTest`).
-/
namespace AbstractScript

open Eval

namespace Plan

variable {P α : Type}

/-- A plan that fails only in its parts. -/
def Total : {α : Type} → Plan P α → Prop
  | _, .pure _ => True
  | _, .act x _ => ∀ s m, x.succeeds s m = true
  | _, .part _ => True
  | _, .bind x f => x.Total ∧ ∀ a, (f a).Total
  | _, .ambiguously _ x => x.Total

/-- A plan that fails only in its parts succeeds if they do. -/
theorem Total.succeeds {parts : P → Run Completion} {s : Setup} {m : Machine} {x : Plan P α}
    (total : x.Total) (parts_succeed : ∀ v ∈ x.visits parts s m, v.completion?.isSome = true) :
    (x.run parts).succeeds s m = true := by
  -- by induction on the plan: nothing but a part may fail
  induction x generalizing m with
  | pure a => rfl
  | act x kept => exact total s m
  | part p =>
    have first := parts_succeed _ (List.mem_singleton_self _)
    rw [run, Eval.succeeds]
    rw [Visit.completion?] at first
    cases ran : parts p s m with
    | ok c n => rfl
    | error e n =>
      rw [ran] at first
      cases first
  | bind x f ihx ihf =>
    have first := ihx total.1 fun v hv => parts_succeed v (mem_visits_bind.2 (.inl hv))
    rw [run, succeeds_bind]
    rw [Eval.succeeds] at first
    split at first
    next a n ran =>
      exact ihf a (total.2 a) fun v hv => parts_succeed v (mem_visits_bind.2 (.inr ⟨a, n, ran, hv⟩))
    · cases first
  | ambiguously span x ih =>
    have inside := ih total parts_succeed
    rw [Eval.succeeds] at inside
    rw [run, (ambiguously_eq span _ s m).2, succeeds_bind]
    split at inside
    · rfl
    · cases inside

end Plan

namespace Loop

namespace Shape

open Plan

variable (k : Shape) (parts : Part → Run Completion) (labels : List String) (value : Option Value)
  (s : Setup) (m : Machine)

theorem deeds_giveUp : (k.giveUp labels value).deeds parts s m =
    [.block k.span
      (k.bodyAndUpdate.visits parts s (m.markBlock (k.span.location s.file)).enterBlock)] := by
  have block : (k.representative labels).deeds parts s m = [.block k.span
      (k.bodyAndUpdate.visits parts s (m.markBlock (k.span.location s.file)).enterBlock)] := by
    unfold representative
    rw [deeds_bind_ok (x := Plan.mark) rfl, deeds_bind]
    split <;> rfl
  unfold giveUp
  rw [deeds_bind, block]
  split <;> rfl

/-- The body is visited once and before the update. -/
theorem visits_bodyAndUpdate : ∃ rest,
    k.bodyAndUpdate.visits parts s m = ⟨.body, m, parts .body s m⟩ :: rest ∧
      ∀ v ∈ rest, v.part = .update := by
  refine ⟨_, visits_part_bind .., fun v visited => ?_⟩
  split at visited
  · split at visited
    · cases visited
    · split at visited
      · rw [visits_part_bind] at visited
        rcases List.mem_cons.1 visited with rfl | none
        · rfl
        · split at none <;> cases none
      · cases visited
  · cases visited

/-- A loop that is given up enters one block, in which it visits its body once. -/
theorem exists_deeds_giveUp : ∃ b rest,
    (k.giveUp labels value).deeds parts s m = [.block k.span (b :: rest)] ∧ b.part = .body ∧
      b.before = (m.markBlock (k.span.location s.file)).enterBlock ∧ ∀ v ∈ rest, v.part = .update := by
  let inside := (m.markBlock (k.span.location s.file)).enterBlock
  obtain ⟨rest, visits, updates⟩ := k.visits_bodyAndUpdate parts s inside
  refine ⟨⟨.body, inside, parts .body s inside⟩, rest, ?_, rfl, rfl, updates⟩
  rw [deeds_giveUp, visits]

theorem total_giveUp : (k.giveUp labels value).Total := by
  have body : k.bodyAndUpdate.Total := by
    refine ⟨trivial, fun c => ?_⟩
    dsimp only
    split
    · trivial
    · split
      · exact ⟨trivial, fun _ => trivial⟩
      · trivial
  exact ⟨⟨fun _ _ => rfl, fun _ => ⟨body, fun _ => ⟨fun _ _ => rfl, fun _ => trivial⟩⟩⟩, fun _ => trivial⟩

/-- A loop that is given up ends normally if its last pass does not fail. -/
theorem exists_giveUp
    (succeed : ∀ v ∈ (k.giveUp labels value).visits parts s m, v.completion?.isSome = true) :
    ∃ n, (k.giveUp labels value).run parts s m = .ok (.finished value) n := by
  have succeeds := (k.total_giveUp labels value).succeeds succeed
  rw [Eval.succeeds] at succeeds
  split at succeeds
  next c n ran =>
    obtain ⟨_, n', -, last⟩ := run_bind_eq_ok_iff.1 ran
    cases last
    exact ⟨n, ran⟩
  · cases succeeds

variable {parts s m} {span : Span} {c : Completion} {j : Machine}

/-- A loop that is not evaluated visits its test and is given up. -/
theorem visitOnce_normal (tests : k.test = some span) (tested : parts .test s m = .ok c j)
    (normal : c.isAbrupt = false) :
    let i := (Eval.markUnknown span : Run Unit).after s j
    (k.visitOnce labels).run parts s m = (k.giveUp labels none).run parts s i ∧
      (k.visitOnce labels).deeds parts s m =
        .visit ⟨.test, m, .ok c j⟩ :: (k.giveUp labels none).deeds parts s i := by
  intro i
  have first : (Plan.part .test).run parts s m = .ok c j := tested
  have visited : (Plan.part .test).deeds parts s m = [.visit ⟨.test, m, .ok c j⟩] := by
    rw [Plan.deeds, tested]
  unfold visitOnce
  rw [tests]
  dsimp only
  rw [run_bind_apply, first, deeds_bind_ok first, visited]
  dsimp only
  rw [if_neg (by rw [normal]; exact Bool.false_ne_true), run_bind_apply,
    deeds_bind_ok (x := Plan.markUnknown span) rfl]
  exact ⟨rfl, rfl⟩

/-- A test that ends otherwise ends the loop. -/
theorem visitOnce_abrupt (tests : k.test = some span) (tested : parts .test s m = .ok c j)
    (abrupt : c.isAbrupt = true) :
    (k.visitOnce labels).run parts s m = .ok c j ∧
      (k.visitOnce labels).deeds parts s m = [.visit ⟨.test, m, .ok c j⟩] := by
  have first : (Plan.part .test).run parts s m = .ok c j := tested
  have visited : (Plan.part .test).deeds parts s m = [.visit ⟨.test, m, .ok c j⟩] := by
    rw [Plan.deeds, tested]
  unfold visitOnce
  rw [tests]
  dsimp only
  rw [run_bind_apply, first, deeds_bind_ok first, visited]
  dsimp only
  rw [if_pos abrupt]
  exact ⟨rfl, rfl⟩

end Shape

/-- **A loop is visited once if loops are not evaluated.** If its test ends normally, the loop enters
one block, in which it evaluates its body once, and ends normally at the depth at which it began,
unless its body or its update fails. A `while` loop whose test ends otherwise ends as its test does.

The loop is what the statement evaluates after what comes first (`Statement.evaluate_loop`). -/
theorem visited_once (calls : Nat) {st : Statement} {testFirst : Bool} {l : Loop}
    (written : st.loop? (callWithin calls) = some (testFirst, l)) {s : Setup}
    (once : s.options.evaluateLoops = false) (labels : List String) {m j : Machine} {span : Span}
    {test : Run Completion} (tests : l.test = some (span, test)) {c : Completion}
    (tested : test s m = .ok c j) :
    (c.isAbrupt = false → ∃ b rest,
      l.deeds labels testFirst s m = [.visit ⟨.test, m, .ok c j⟩, .block l.span (b :: rest)] ∧
      b.part = .body ∧ (∀ v ∈ rest, v.part = .update) ∧
      (m.contexts.isEmpty = false → b.before.contexts.depth = m.contexts.depth + 1) ∧
      ((l.evaluate labels testFirst).after s m).contexts.depth = m.contexts.depth ∧
      ((∀ v ∈ b :: rest, v.completion?.isSome = true) →
        ∃ n, l.evaluate labels testFirst s m = .ok .empty n)) ∧
    (c.isAbrupt = true → testFirst = true →
      l.deeds labels testFirst s m = [.visit ⟨.test, m, .ok c j⟩] ∧
        l.evaluate labels testFirst s m = .ok c j) := by
  have steady : ∀ p, Eval.Keeps Machine.Steady (l.parts p) :=
    keeps_parts (Statement.keeps_loop? (callWithin_keeps calls) (fun no => absurd trivial no) written)
  have place : ∀ p, Eval.Keeps Machine.InPlace (l.parts p) := Plan.inPlace_of_steady steady
  have shaped : l.shape.test = some span := by rw [shape, tests]; rfl
  have part : l.parts .test s m = .ok c j := by rw [parts, tests]; exact tested
  have off : ¬ s.options.evaluateLoops = true := by rw [once]; exact Bool.false_ne_true
  -- a loop that is not evaluated is visited once
  have run : l.evaluate labels testFirst s m = (l.shape.visitOnce labels).run l.parts s m := by
    have choice : (l.shape.evaluate labels testFirst).run l.parts s m =
        (if s.options.evaluateLoops then
          l.shape.iterate labels s.options.maxLoopIterations testFirst none
        else l.shape.visitOnce labels).run l.parts s m := rfl
    rw [← l.run_shape, choice, if_neg off]
  have done : l.deeds labels testFirst s m = (l.shape.visitOnce labels).deeds l.parts s m := by
    unfold deeds Shape.evaluate
    rw [Plan.deeds_bind_ok (x := Plan.options) rfl, if_neg off]
    rfl
  constructor
  · intro normal
    obtain ⟨later, visits⟩ := l.shape.visitOnce_normal labels shaped part normal
    have left : m.InPlace j := (place .test).of_ok part
    have since : m.InPlace ((markUnknown span : Run Unit).after s j) := left
    have ended : m.InPlace ((l.evaluate labels testFirst).after s m) := by
      rw [← l.run_shape]
      exact (Plan.inPlace_run place _).after s m
    obtain ⟨b, rest, block, body, inside, updates⟩ :=
      l.shape.exists_deeds_giveUp l.parts labels none s ((markUnknown span : Run Unit).after s j)
    refine ⟨b, rest, ?_, body, updates, ?_, ended.depth_eq, ?_⟩
    · rw [done, visits, block]
      rfl
    · intro running
      have entered := ContextStack.depth_enterBlock (since.running running)
      rw [inside]
      exact entered.trans (congrArg (· + 1) since.depth_eq)
    · intro succeed
      rw [run, later]
      refine l.shape.exists_giveUp l.parts labels none s _ ?_
      rw [← Plan.flatMap_visits_deeds, block]
      simpa [Deed.visits] using succeed
  · intro abrupt _
    obtain ⟨ends, visits⟩ := l.shape.visitOnce_abrupt labels shaped part abrupt
    exact ⟨done.trans visits, run.trans ends⟩

/-! ### Tests that throw -/

open Analyzer

/-- An analyzer that does not evaluate loops. -/
def onceOnly : Analyzer := { withUnknown with options := { evaluateLoops := false } }

/-- A program with a loop: `function f() { throw true; } var x = true; loop`. -/
def withThrower (loop : Statement) : Program where
  span := default
  file := "loop.js"
  body :=
    [functionAt "f" [.throws default (boolAt true)],
    .varDeclaration default [.mk default ⟨default, "x"⟩ (some (boolAt true))], loop]

/-- What a run with the program is given. -/
def onceSetup (loop : Statement) : Setup := onceOnly.setup (withThrower loop)

/-- The machine in which the loop begins. -/
def onceStart (loop : Statement) : Machine :=
  onceOnly.machineAfter (withThrower loop) ((withThrower loop).body.take 2)

/-- `x = false;` -/
def clearing : Statement := .expression default (assignAt "x" (boolAt false))

/-- `while (u) x = false;` -/
def unknownTest : Statement := .whileLoop default (nameAt "u") clearing

/-- `while (f()) x = false;` -/
def throwingTest : Statement := .whileLoop default (callOf "f") clearing

/-- The loop that evaluates a test and then `x = false;`. -/
def clearingLoop (test : Expression) : Loop :=
  ⟨default, some (test.span, test.evaluate (callWithin 1)), none, clearing.evaluate (callWithin 1)⟩

/-- A loop with an unknown test visits its body in a block and ends normally. -/
theorem visited_once_unknownTest :
    unknownTest.loop? (callWithin 1) = some (true, clearingLoop (nameAt "u")) ∧ ∃ t b rest,
      (clearingLoop (nameAt "u")).deeds [] true (onceSetup unknownTest) (onceStart unknownTest) =
          [.visit t, .block default (b :: rest)] ∧
        t.part = .test ∧ b.part = .body ∧ b.before.contexts.depth = 1 ∧
          ∃ n, (clearingLoop (nameAt "u")).evaluate [] true (onceSetup unknownTest)
            (onceStart unknownTest) = .ok .empty n := by
  have written : unknownTest.loop? (callWithin 1) = some (true, clearingLoop (nameAt "u")) := rfl
  have once : (onceSetup unknownTest).options.evaluateLoops = false := rfl
  have normal : ((nameAt "u").evaluate (callWithin 1)).succeedsWith (!·.isAbrupt)
      (onceSetup unknownTest) (onceStart unknownTest) = true := by decide +kernel
  obtain ⟨c, j, tested, goes⟩ := exists_of_succeedsWith normal
  obtain ⟨b, rest, made, body, -, deeper, -, ends⟩ :=
    (visited_once 1 written once [] rfl tested).1 (by simpa using goes)
  have succeed : ((clearingLoop (nameAt "u")).deeds [] true (onceSetup unknownTest)
      (onceStart unknownTest)).all (fun d => d.visits.all (·.completion?.isSome)) = true := by
    decide +kernel
  have running : (onceStart unknownTest).contexts.isEmpty = false := by decide +kernel
  have outside : (onceStart unknownTest).contexts.depth = 0 := by decide +kernel
  rw [made] at succeed
  refine ⟨written, _, b, rest, made, rfl, body, ?_, ends ?_⟩
  · rw [deeper running, outside]
  · simpa [Deed.visits, Visit.completion?] using succeed

/-- A test that throws ends its loop: the body is not visited, and the program ends with the throw. -/
theorem unvisited_throwingTest :
    throwingTest.loop? (callWithin 1) = some (true, clearingLoop (callOf "f")) ∧
      ((clearingLoop (callOf "f")).visits [] true (onceSetup throwingTest)
        (onceStart throwingTest)).map Visit.part = [.test] ∧
      (onceOnly.analyze (withThrower throwingTest)).throws = true ∧
      (onceOnly.analyze (withThrower throwingTest)).global? "x" = some (.bool true) := by
  exact ⟨rfl, by decide +kernel, by decide +kernel, by decide +kernel⟩

end Loop

end AbstractScript
