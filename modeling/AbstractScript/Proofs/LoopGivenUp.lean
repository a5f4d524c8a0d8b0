import AbstractScript.Proofs.LoopPlan
import AbstractScript.Proofs.VariableWeakening

/-!
# Loops that are given up

A loop is given up if its test is unknown or if it has reached the limit (`Loop.GivenUp`). Its body
and its update are then evaluated once more in an ambiguous block, so that a variable from outside has
its value from before or an unknown one (`Loop.kept_or_unknown`). The test is not evaluated again:
what it would still change is unknown if the body and the update change it as well
(`Loop.givenUp_unknown`), and else it is taken for known (`Loop.givenUp_known_countingLoop`).
-/
namespace AbstractScript

open Eval

/-! ## What may or may not happen to a variable -/

namespace Machine

theorem bound?_exitBlock (m : Machine) (index : Option Nat) (e : EnvId) (name : String) :
    (m.exitBlock index).realm.bound? e name = m.realm.bound? e name := by
  cases index <;> rfl

theorem bound?_dropClaimed (m : Machine) (mark : Nat) (p : Completion → Bool) (e : EnvId)
    (name : String) : (m.dropClaimed mark p).realm.bound? e name = m.realm.bound? e name := by
  obtain ⟨-, -, realm, -⟩ := m.dropClaimed_unchanged mark p
  rw [realm]

end Machine

section

variable {m : Machine} {e : EnvId} {name : String} {v : Value}

/-- A variable that was created outside of a block has its value from before or an unknown one after
what may or may not happen in the block. -/
theorem Eval.bound?_ambiguously {x : Run Completion} (blurs : Keeps Machine.Blurs x)
    (plain : m.realm.OwnsBindings e ∨ m.realm.Tame ∧ Keeps Machine.Frames x)
    (running : m.contexts.isEmpty = false) (value : m.realm.bound? e name = some v)
    (outside : m.realm.scopeLevel e ≤ m.level) (span : Span) (s : Setup) :
    ((ambiguously span x).after s m).realm.bound? e name = some v ∨
      ((ambiguously span x).after s m).realm.bound? e name = some .unknown := by
  let block : Run Completion := do
    let c ← x
    note c
    return possibly c
  let j := (m.markBlock (span.location s.file)).enterBlock
  have inside : j.contexts.isEmpty = false := ContextStack.running_enterBlock running
  have level : j.level = m.level + 1 := ContextStack.level_enterBlock running
  have noted {R : Machine → Machine → Prop} [IsPreorder Machine R] (h : Keeps R x)
      (note : ∀ m c, R m (m.noteExit c)) : R j (block.after s j) :=
    (Keeps.bind h fun c => .bind (.modify fun m => note m c) fun _ => .pure _).after s j
  have blurring : j.Blurring (block.after s j) := noted blurs Machine.Blurs.noteExit inside
  have framing : j.realm.OwnsBindings e ∨ j.Framing (block.after s j) :=
    plain.imp_right fun ⟨tame, frames⟩ => noted frames Machine.Frames.noteExit ⟨inside, tame⟩
  -- the binding is outside of the block, so that an assignment in the block is only possible
  have possible : j.PossiblyAssigns (block.after s j) e name :=
    .inl (Nat.lt_of_le_of_lt outside (level ▸ Nat.lt_succ_self _))
  have left : ((ambiguously span x).after s m).realm.bound? e name =
      (block.after s j).realm.bound? e name := by
    rw [ambiguously, after_recorded]
    unfold inBlock
    rw [after_bind_ok (setup_apply ..), after_bind_ok (modify_apply ..),
      after_bind_ok (get_apply ..), after_bind_ok (modify_apply ..), after_ensuring]
    exact Machine.bound?_exitBlock ..
  rw [left]
  exact blurring.bound? framing value possible

end

namespace Loop

variable {l : Loop} {labels : List String} {s : Setup} {m k n : Machine}

/-! ## Giving up -/

/-- A loop that can make a number of further passes is given up in a machine. -/
inductive GivenUp (l : Loop) (labels : List String) (s : Setup) :
    Nat → Bool → Option Value → Machine → Machine → Prop where
  /-- The test is unknown. -/
  | unknown {passes : Nat} {value : Option Value} {m k : Machine}
    (test : l.check s m = .ok .unknown k) : GivenUp l labels s passes true value m k
  /-- The limit is reached. -/
  | limit {tested : Bool} {value : Option Value} {m j k : Machine}
    (goesOn : l.beforeBody labels tested value s m = .ok none j)
    (reported : (reportMaxIterations : Run Unit) s j = .ok () k) :
    GivenUp l labels s 0 tested value m k
  /-- The loop is given up after a pass. -/
  | pass {passes : Nat} {tested : Bool} {value value' : Option Value} {m j i k : Machine}
    (goesOn : l.beforeBody labels tested value s m = .ok none j)
    (passed : l.pass labels m.exits.size value s j = .ok (.next value') i)
    (later : GivenUp l labels s passes true value' i k) :
    GivenUp l labels s (passes + 1) tested value m k

/-! ### Passes -/

variable {passes : Nat} {tested : Bool} {value value' : Option Value}

theorem iterate_unknown (test : l.check s m = .ok .unknown k) :
    l.iterate labels passes true value s m = l.giveUp labels value s k := by
  have first : l.beforeBody labels true value s m = (some <$> l.giveUp labels value) s k := by
    rw [beforeBody, if_neg (by decide), bind_apply, test]
    rfl
  have ended (x : Run Completion) : (x >>= pure) s k = x s k := by rw [bind_pure]
  cases passes with
  | zero =>
    rw [iterate, bind_apply, first, ← bind_apply, bind_map_left]
    exact ended _
  | succ passes =>
    show (l.beforeBody labels true value >>= _) s m = _
    rw [bind_apply, first, ← bind_apply, bind_map_left]
    exact ended _

theorem iterate_exceed (goesOn : l.beforeBody labels tested value s m = .ok none k) :
    l.iterate labels 0 tested value s m = l.exceed labels value s k := by
  rw [iterate, bind_apply, goesOn]

theorem iterate_pass {j : Machine} (goesOn : l.beforeBody labels tested value s m = .ok none j)
    (passed : l.pass labels m.exits.size value s j = .ok (.next value') k) :
    l.iterate labels (passes + 1) tested value s m = l.iterate labels passes true value' s k := by
  rw [iterate, bind_apply]
  show (l.beforeBody labels tested value >>= _) s m = _
  rw [bind_apply, goesOn]
  show (l.pass labels m.exits.size value >>= _) s j = _
  rw [bind_apply, passed]

namespace GivenUp

/-- What is left of a loop that is given up is its last pass. -/
theorem exists_iterate_eq (h : l.GivenUp labels s passes tested value m k) :
    ∃ value', l.iterate labels passes tested value s m = l.giveUp labels value' s k := by
  induction h with
  | @unknown passes value m k test => exact ⟨value, iterate_unknown test⟩
  | @limit tested value m j k goesOn reported =>
    refine ⟨value, (iterate_exceed goesOn).trans ?_⟩
    rw [exceed, bind_apply, reported]
  | pass goesOn passed later ih =>
    obtain ⟨value', rest⟩ := ih
    exact ⟨value', (iterate_pass goesOn passed).trans rest⟩

/-- A loop is given up in the contexts in which it began. -/
theorem steady (h : l.GivenUp labels s passes tested value m k)
    (keeps : l.Keeps fun _ => Machine.Steady) : m.Steady k := by
  induction h with
  | unknown test => exact (made_check keeps.made).keeps.of_ok test
  | limit goesOn reported =>
    have report := (reportMaxIterations_keeps.mono fun _ _ h => h.steady).of_ok reported
    exact IsTrans.trans _ _ _ ((made_beforeBody keeps.made ..).keeps.of_ok goesOn) report
  | @pass passes tested value value' m j i k goesOn passed later ih =>
    have before : m.Steady j := (made_beforeBody keeps.made ..).keeps.of_ok goesOn
    have pass := (made_pass keeps.made labels m.exits.size value).keepsFrom id m rfl
    have passed := pass.of_ok passed before
    exact IsTrans.trans _ _ _ passed ih

end GivenUp

/-! ## The last pass -/

/-- After a loop is given up, a variable from outside has its value from before the last pass or an
unknown one. -/
theorem kept_or_unknown (blurs : l.Keeps fun _ => Machine.Blurs) {e : EnvId} {name : String}
    {v : Value} (plain : k.realm.OwnsBindings e ∨ k.realm.Tame ∧ l.Keeps fun _ => Machine.Frames)
    (running : k.contexts.isEmpty = false) (bound : k.realm.bound? e name = some v)
    (outside : k.realm.scopeLevel e ≤ k.level) (labels : List String) (value : Option Value)
    (s : Setup) :
    ((l.giveUp labels value).after s k).realm.bound? e name = some v ∨
      ((l.giveUp labels value).after s k).realm.bound? e name = some .unknown := by
  have pass := bound?_ambiguously (made_bodyAndUpdate blurs.made).keeps
    (plain.imp_right (And.imp_right fun frames => (made_bodyAndUpdate frames.made).keeps)) running bound outside l.span s
  have left : ((l.giveUp labels value).after s k).realm.bound? e name =
      ((ambiguously l.span l.bodyAndUpdate).after s k).realm.bound? e name := by
    unfold giveUp
    rw [after_bind_pure, representative, after_bind_ok (x := mark) rfl, after_bind, Eval.after]
    cases ambiguously l.span l.bodyAndUpdate s k with
    | ok c n => exact Machine.bound?_dropClaimed ..
    | error e n => rfl
  rwa [left]

/-- **What the test of a loop that is given up would still change is unknown**, if the test leaves the
variables alone that are known and that the last pass over the body and the update leaves alone.

The loop is the one that the statement evaluates (`Statement.evaluate_loop`), and it is given up where
its test is unknown or its limit is reached. -/
theorem givenUp_unknown (calls : Nat) {st : Statement} {testFirst : Bool} {l : Loop}
    (written : st.loop? (callWithin calls) = some (testFirst, l)) {s : Setup}
    (loops : s.options.evaluateLoops = true) {labels : List String} {m k n : Machine}
    (running : m.contexts.isEmpty = false)
    (givenUp : l.GivenUp labels s s.options.maxLoopIterations testFirst none m k) {c : Completion}
    (run : l.evaluate labels testFirst s m = .ok c n) {e : EnvId} {name : String} {v : Value}
    (bound : k.realm.bound? e name = some v) (outside : k.realm.scopeLevel e ≤ k.level)
    (plain : k.realm.OwnsBindings e ∨ k.realm.Tame ∧ st.keepsNames = true)
    (covered : v ≠ .unknown → n.realm.bound? e name = some v →
      ((l.parts .test).after s n).realm.bound? e name = n.realm.bound? e name)
    (changes : ((l.parts .test).after s n).realm.bound? e name ≠ n.realm.bound? e name) :
    n.realm.bound? e name = some .unknown := by
  have free {p : Prop} : ¬ True → p := fun no => absurd trivial no
  have running : k.contexts.isEmpty = false :=
    (givenUp.steady (Statement.keeps_loop? (callWithin_keeps calls) free written)).contexts.running
      running
  have frames (names : st.keepsNames = true) : l.Keeps fun _ => Machine.Frames :=
    Statement.keeps_loop? (callWithin_keeps calls) (fun _ => names) written
  obtain ⟨value, rest⟩ := givenUp.exists_iterate_eq
  -- the loop ends with what giving up leaves
  have last : (l.giveUp labels value).after s k = n := by
    rw [evaluate, bind_apply, setup_apply] at run
    dsimp only at run
    rw [if_pos loops, rest] at run
    rw [Eval.after, run]
  have outcome := kept_or_unknown (Statement.keeps_loop? (callWithin_keeps calls) free written)
    (plain.imp_right (And.imp_right frames)) running bound outside labels value s
  rw [last] at outcome
  rcases outcome with same | unknown
  -- if a known value was kept, the test would not change it
  · by_cases known : v = .unknown
    · rw [same, known]
    · exact absurd (covered known same) changes
  · exact unknown

/-! ### Tests that assign -/

open Analyzer

/-- True if the test of a loop is unknown. -/
def testsUnknown (l : Loop) (s : Setup) (m : Machine) : Bool :=
  match l.check s m with
  | .ok .unknown _ => true
  | _ => false

theorem givenUp_of_testsUnknown (h : l.testsUnknown s m = true) (labels : List String)
    (passes : Nat) (value : Option Value) :
    l.GivenUp labels s passes true value m (l.check.after s m) := by
  refine .unknown ?_
  unfold testsUnknown at h
  rw [Eval.after]
  split at h
  next ran => rw [ran]
  next => cases h

theorem exists_of_succeeds {α : Type} {x : Run α} (h : x.succeeds s m = true) :
    ∃ a, x s m = .ok a (x.after s m) := by
  rw [Eval.succeeds] at h
  rw [Eval.after]
  split at h
  next a n ran => exact ⟨a, by rw [ran]⟩
  next => cases h

/-- The loop of a statement that is one. -/
def ofStatement (st : Statement) : Loop :=
  match st.loop? (callWithin 1) with
  | some (_, l) => l
  | none => ⟨default, none, none, return .empty⟩

/-- A program with a loop: `var i = 0; loop`. -/
def counting (loop : Statement) : Program where
  span := default
  file := "loop.js"
  body :=
    [.varDeclaration default [.mk default ⟨default, "i"⟩ (some (.literal default (.number 0)))], loop]

/-- What a run with the program is given. -/
def countingSetup (loop : Statement) : Setup := withUnknown.setup (counting loop)

/-- The machine in which the loop begins. -/
def countingStart (loop : Statement) : Machine :=
  withUnknown.machineAfter (counting loop) ((counting loop).body.take 1)

/-- The machine that the loop leaves. -/
def countingEnd (loop : Statement) (m : Machine) : Machine :=
  ((ofStatement loop).evaluate [] true).after (countingSetup loop) m

/-- The machine that the test leaves, evaluated once more. -/
def countingTested (loop : Statement) (m : Machine) : Machine :=
  ((ofStatement loop).parts .test).after (countingSetup loop) (countingEnd loop m)

/-- `while (x = true, u) x = false;` -/
def flagLoop : Statement :=
  .whileLoop default (.sequence default [assignAt "x" (boolAt true), nameAt "u"])
    (.expression default (assignAt "x" (boolAt false)))

/-- The scope of a handler around the loop. -/
def flagScope : EnvId := (countingStart flagLoop).realm.nextEnvironment

/-- The loop begins in a handler with a parameter `x` that is false. -/
def flagStart : Machine :=
  ((countingStart flagLoop).withVariable "x" (.bool false)).setLexicalEnv flagScope

/-- The last pass over the body makes the parameter unknown, which the test would set to true. -/
theorem givenUp_unknown_flagLoop :
    (∃ k, (ofStatement flagLoop).GivenUp [] (countingSetup flagLoop)
      (countingSetup flagLoop).options.maxLoopIterations true none flagStart k) ∧
    (countingTested flagLoop flagStart).realm.bound? flagScope "x" = some (.bool true) ∧
    (countingEnd flagLoop flagStart).realm.bound? flagScope "x" = some .unknown := by
  have written : flagLoop.loop? (callWithin 1) = some (true, ofStatement flagLoop) := rfl
  have givenUp := givenUp_of_testsUnknown (l := ofStatement flagLoop) (s := countingSetup flagLoop)
    (m := flagStart) (by decide +kernel) [] (countingSetup flagLoop).options.maxLoopIterations none
  obtain ⟨c, run⟩ := exists_of_succeeds (x := (ofStatement flagLoop).evaluate [] true)
    (s := countingSetup flagLoop) (m := flagStart) (by decide +kernel)
  -- when the loop is given up the parameter is true
  have bound : ((ofStatement flagLoop).check.after (countingSetup flagLoop) flagStart).realm.bound?
      flagScope "x" = some (.bool true) := by decide +kernel
  refine ⟨⟨_, givenUp⟩, by decide +kernel, ?_⟩
  exact givenUp_unknown 1 written rfl (by decide +kernel) givenUp run bound (by decide +kernel)
    (.inl (by decide +kernel)) (fun _ same => absurd same (by decide +kernel)) (by decide +kernel)

/-- `while (u[i++]) ;` -/
def countingLoop : Statement :=
  .whileLoop default
    (.index default (nameAt "u") (.update default .increment false (nameAt "i"))) (.empty default)

/-- The test is not part of the last pass, so that the variable that it counts up is taken for known.
The test would still change it, and so it does if `u` is a text. -/
theorem givenUp_known_countingLoop :
    let loop := countingLoop
    let m := countingStart loop
    (∃ k, (ofStatement loop).GivenUp [] (countingSetup loop)
      (countingSetup loop).options.maxLoopIterations true none m k) ∧
    (countingEnd loop m).realm.bound? Realm.globalEnv "i" = some (.nat 1) ∧
    (countingTested loop m).realm.bound? Realm.globalEnv "i" = some (.nat 2) ∧
    (withUnknown.analyze (counting loop)).global? "i" = some (.nat 1) ∧
    (withUnknown.analyzeWith [("u", .string "ab")] (counting loop)).global? "i" = some (.nat 3) := by
  refine ⟨⟨_, givenUp_of_testsUnknown (by decide +kernel) [] _ none⟩, ?_⟩
  decide +kernel

end Loop

end AbstractScript
