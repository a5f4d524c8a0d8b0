import AbstractScript.Proofs.Depth
import AbstractScript.Proofs.Soundness
import Mathlib.Data.List.Forall2

/-!
# A switch weakens what follows a possible break

When the body of a case may have left the switch by a break, the bodies of the cases below it are
run in an ambiguous block. What those bodies do at the ambiguous depth of the switch itself is then
of no importance: cases that do something else there, but the same at every greater depth, may take
their place (`Rule.switch_weakens`). A possible exit that is not a break out of the switch does not
have this effect (`Rule.switch_not_weakened_possibleThrow`).
-/
namespace AbstractScript

open Eval

/-- Computations that do the same in two machines do so as parts of rules. -/
theorem Rule.lift_congr {α : Type} {x y : Run α} {s : Setup} {m n : Machine} (h : x s m = y s n) :
    (Rule.lift x).run s m = (Rule.lift y).run s n := by
  show (Except.ok <$> x : Run (Except Completion α)) s m = (Except.ok <$> y : Run _) s n
  rw [map_eq_pure_bind, map_eq_pure_bind, bind_apply, bind_apply, h]

/-! ## Cases -/

namespace Case

variable {s : Setup} {m : Machine}

/-- Cases with the same test whose bodies do the same wherever it is deeper than in a machine. -/
structure AgreeBelow (s : Setup) (m : Machine) (c c' : Case) : Prop where
  test : c'.test = c.test
  body : ∀ n, m.Deeper n → Step.runAll none c'.body s n = Step.runAll none c.body s n

theorem tests_eq {cs cs' : List Case} (h : List.Forall₂ (AgreeBelow s m) cs cs') :
    cs'.map Case.test = cs.map Case.test := by
  induction h with
  | nil => rfl
  | cons agree _ ih => rw [List.map_cons, List.map_cons, agree.test, ih]

/-- In an ambiguous block it does not matter what bodies do outside of it. -/
theorem noteAll_eq {cs cs' : List Case} (h : List.Forall₂ (AgreeBelow s m) cs cs')
    (steady : ∀ c ∈ cs, c.Keeps fun _ => Machine.Steady) {n : Machine} (deeper : m.Deeper n) :
    noteAll cs' s n = noteAll cs s n := by
  induction h generalizing n with
  | nil => rfl
  | @cons c c' rest rest' agree _ ih =>
    obtain ⟨first, later⟩ := List.forall_mem_cons.1 steady
    unfold noteAll
    rw [bind_apply, bind_apply, agree.body n deeper]
    cases run : Step.runAll none c.body s n with
    | error e k => rfl
    | ok a k =>
      have kept : n.Steady k := (Step.keeps_runAll first.body none).of_ok run
      have noted : n.Steady (k.noteExit a) := IsTrans.trans _ _ _ kept (.noteExit k a)
      exact ih later (deeper.steady noted)

theorem possibly_eq {cs cs' : List Case} (h : List.Forall₂ (AgreeBelow s m) cs cs')
    (steady : ∀ c ∈ cs, c.Keeps fun _ => Machine.Steady) (running : m.contexts.isEmpty = false)
    {n : Machine} (since : m.Steady n) (span : Span) (labels : List String) :
    possibly span labels cs' s n = possibly span labels cs s n := by
  have marked : m.Steady (n.markBlock (span.location s.file)) :=
    IsTrans.trans _ _ _ since (Machine.Aside.steady .of_eq)
  have same : ambiguously span (noteAll cs') s n = ambiguously span (noteAll cs) s n :=
    ambiguously_congr span (noteAll_eq h steady (marked.deeper running))
  unfold possibly
  simp only [bind_apply, mark, get_apply, pure_apply, same]

/-! ## Executions of a switch -/

/-- The execution of a switch from a machine has passed over some of its cases, and it is about to
run the bodies of the others in another machine. -/
inductive Reaches (s : Setup) (input : Run Completion) (m : Machine) :
    List Case → List Case → Machine → Prop
  /-- The first case whose test equals the input, or else the default case, is selected. -/
  | selected {c : Completion} {pre rest : List Case} {n k : Machine} :
    input s { m with labels := [] } = .ok c n → c.isNormal = true → c.getValue.isUnknown = false →
    (select c.getValue (fromDefault (pre ++ rest)) (pre ++ rest)).run s n =
      .ok (.ok (.cases rest)) k →
    Reaches s input m pre rest k
  /-- The body of a case ends normally, and it cannot have left the switch. -/
  | fallen {pre rest : List Case} {c : Case} {k n : Machine} {ended : Completion} :
    Reaches s input m pre (c :: rest) k → Step.runAll none c.body s k = .ok ended n →
    ended.isNormal = true → n.claimed k.exits.size (Completion.leavesSwitch m.labels) = [] →
    Reaches s input m (pre ++ [c]) rest
      (n.dropClaimed k.exits.size (Completion.leavesSwitch m.labels))

theorem fromDefault_tests {cs cs' : List Case} (tests : cs'.map Case.test = cs.map Case.test) :
    (fromDefault cs').map Case.test = (fromDefault cs).map Case.test := by
  have dropped (ds : List Case) :
      (fromDefault ds).map Case.test = (ds.map Case.test).dropWhile Option.isSome := by
    rw [List.dropWhile_map]
    rfl
  rw [dropped, dropped, tests]

/-- Only the tests of cases matter to how many are selected. -/
theorem select_tests (input : Value) {default default' cs cs' xs : List Case} {n k : Machine}
    (tests : cs'.map Case.test = cs.map Case.test)
    (defaults : default'.map Case.test = default.map Case.test)
    (run : (select input default cs).run s n = .ok (.ok (.cases xs)) k) :
    ∃ xs', (select input default' cs').run s n = .ok (.ok (.cases xs')) k ∧
      xs'.length = xs.length ∧ (xs <:+ default ∨ xs <:+ cs) ∧ (xs' <:+ default' ∨ xs' <:+ cs') := by
  induction cs generalizing cs' n with
  | nil =>
    obtain rfl : cs' = [] := by simpa using tests
    cases run
    have length : default'.length = default.length := by simpa using congrArg List.length defaults
    exact ⟨default', rfl, length, .inl (List.suffix_refl _), .inl (List.suffix_refl _)⟩
  | cons c rest ih =>
    obtain ⟨c', rest', rfl⟩ : ∃ c' rest', cs' = c' :: rest' := by
      cases cs' with
      | nil => simp at tests
      | cons c' rest' => exact ⟨c', rest', rfl⟩
    obtain ⟨test, tests⟩ := List.cons.inj tests
    -- what is found among the cases after the first one
    have later {n : Machine} (run : (select input default rest).run s n = .ok (.ok (.cases xs)) k) :
        ∃ xs', (select input default' rest').run s n = .ok (.ok (.cases xs')) k ∧
          xs'.length = xs.length ∧ (xs <:+ default ∨ xs <:+ c :: rest) ∧
          (xs' <:+ default' ∨ xs' <:+ c' :: rest') := by
      obtain ⟨xs', run', length, among, among'⟩ := ih tests run
      exact ⟨xs', run', length, among.imp_right fun h => h.trans (List.suffix_cons _ _),
        among'.imp_right fun h => h.trans (List.suffix_cons _ _)⟩
    unfold select at run ⊢
    rw [test]
    cases found : c.test with
    | none =>
      rw [found] at run
      exact later run
    | some t =>
      obtain ⟨span, test⟩ := t
      rw [found] at run
      rw [ExceptT.run_bind, bind_apply] at run ⊢
      cases ran : (Rule.value test).run s n with
      | error e n' =>
        rw [ran] at run
        cases run
      | ok v n' =>
        rw [ran] at run
        cases v with
        | error ended => cases run
        | ok v =>
          dsimp only at run ⊢
          cases equal : Value.strictlyEqual? input v with
          | none =>
            rw [equal] at run
            cases run
          | some b =>
            rw [equal] at run
            cases b with
            | false => exact later run
            | true =>
              cases run
              have length : (c' :: rest').length = (c :: rest).length := by
                simpa using congrArg List.length tests
              exact ⟨_, rfl, length, .inr (List.suffix_refl _), .inr (List.suffix_refl _)⟩

variable {labels : List String} {c : Case} {rest : List Case} {k n : Machine} {ended : Completion}

/-- Evaluation falls into the next case if a body ends normally and cannot have left the switch. -/
theorem fallThrough_next (run : Step.runAll none c.body s k = .ok ended n)
    (normal : ended.isNormal = true)
    (stays : n.claimed k.exits.size (Completion.leavesSwitch labels) = [])
    (span : Span) (value : Option Value) :
    fallThrough span labels value (c :: rest) s k =
      fallThrough span labels (ended.value <|> value) rest s
        (n.dropClaimed k.exits.size (Completion.leavesSwitch labels)) := by
  have kind : ended.kind = .normal := of_decide_eq_true normal
  have inside : ended.leavesSwitch labels = false := by simp [Completion.leavesSwitch, kind]
  have falls : ended.isAbrupt = false := by simp [Completion.isAbrupt, normal]
  rw [fallThrough]
  simp only [bind_apply, mark, get_apply, pure_apply, run, inside, falls, claim_apply, stays,
    Bool.false_eq_true, if_false, List.isEmpty_nil, if_true]

/-- After a body that may have left the switch, only what the cases below it do in an ambiguous
block matters. -/
theorem fallThrough_eq {rest' : List Case} (agree : List.Forall₂ (AgreeBelow s m) rest rest')
    (steady : ∀ d ∈ c :: rest, d.Keeps fun _ => Machine.Steady) (running : m.contexts.isEmpty = false)
    (since : m.Steady k)
    (leaves : ((Step.runAll none c.body).after s k).claimed k.exits.size
      (Completion.leavesSwitch labels) ≠ [])
    (span : Span) (value : Option Value) :
    fallThrough span labels value (c :: rest') s k =
      fallThrough span labels value (c :: rest) s k := by
  obtain ⟨first, later⟩ := List.forall_mem_cons.1 steady
  unfold fallThrough
  rw [bind_apply, bind_apply]
  simp only [mark, bind_apply, get_apply, pure_apply]
  cases run : Step.runAll none c.body s k with
  | error e n => rfl
  | ok ended n =>
    have kept : k.Steady n := (Step.keeps_runAll first.body none).of_ok run
    rw [Eval.after, run] at leaves
    dsimp only at leaves ⊢
    have claimed : (n.claimed k.exits.size (Completion.leavesSwitch labels)).isEmpty = false :=
      List.isEmpty_eq_false_iff.2 leaves
    have dropped : m.Steady (n.dropClaimed k.exits.size (Completion.leavesSwitch labels)) :=
      IsTrans.trans _ _ _ since (kept.dropClaimed _)
    -- something may leave in this case, so that the next ones run as possible, where they agree
    have below : possibly span labels rest' s
          (n.dropClaimed k.exits.size (Completion.leavesSwitch labels)) =
        possibly span labels rest s
          (n.dropClaimed k.exits.size (Completion.leavesSwitch labels)) :=
      possibly_eq agree later running dropped span labels
    have empty : rest'.isEmpty = rest.isEmpty := by cases agree <;> rfl
    split
    · rfl
    · split
      · rfl
      · simp only [bind_apply, claim_apply, claimed, Bool.false_eq_true, if_false, empty]
        split
        · rw [bind_apply, bind_apply, below]
        · rfl

/-- The execution of a switch is balanced as far as it has come. -/
theorem Reaches.steady {input : Run Completion} {pre : List Case}
    (h : Reaches s input m pre rest k) (steady : Eval.Keeps Machine.Steady input)
    (all : ∀ d ∈ pre ++ rest, d.Keeps fun _ => Machine.Steady) : m.Steady k := by
  induction h with
  | @selected c pre rest n k evaluated _ _ run =>
    have taken : m.Steady { m with labels := [] } :=
      Machine.Aside.steady .of_eq
    have first : m.Steady n := IsTrans.trans _ _ _ taken (steady.of_ok evaluated)
    exact IsTrans.trans _ _ _ first ((made_select _ _ fun d hd => (all d hd).made).keeps.of_ok run)
  | @fallen pre rest c k n ended _ run _ _ ih =>
    rw [List.append_assoc] at all
    have body : ∀ step ∈ c.body, Eval.Keeps Machine.Steady step.run :=
      (all c (by simp)).body
    have kept : k.Steady n := (Step.keeps_runAll body none).of_ok run
    exact IsTrans.trans _ _ _ (ih all) (kept.dropClaimed _)

/-- From where it has come to, the execution of a switch is that of the bodies of the other cases.
Only their tests mattered so far. -/
theorem Reaches.switch_eq {input : Run Completion} {pre : List Case}
    (h : Reaches s input m pre rest k) (span inputSpan : Span) :
    ∃ value, ∀ rest' : List Case, rest'.map Case.test = rest.map Case.test →
      (Rule.switch span inputSpan input (pre ++ rest')).run s m =
        (Rule.lift (fallThrough span m.labels value rest')).run s k := by
  induction h with
  | @selected c pre rest n k evaluated normal known run =>
    refine ⟨none, fun rest' tests => ?_⟩
    have all : (pre ++ rest').map Case.test = (pre ++ rest).map Case.test := by
      rw [List.map_append, List.map_append, tests]
    -- which case is chosen depends on the tests alone
    obtain ⟨xs, run', length, -, among⟩ := select_tests _ all (fromDefault_tests all) run
    have suffix : xs <:+ pre ++ rest' :=
      among.elim (fun h => h.trans (List.dropWhile_suffix _)) id
    have same : rest'.length = rest.length := by simpa using congrArg List.length tests
    obtain ⟨before, split⟩ := suffix
    obtain ⟨-, rfl⟩ : before = pre ∧ xs = rest' := List.append_inj' split (by omega)
    have abrupt : c.isAbrupt = false := by simp [Completion.isAbrupt, normal]
    have valued : (Rule.value input).run s { m with labels := [] } = .ok (.ok c.getValue) n := by
      show ((Except.ok <$> input) >>= _ : Run (Except Completion Value)) s _ = _
      rw [map_eq_pure_bind, bind_apply, bind_apply, evaluated]
      simp only [pure_apply]
      show (if c.isAbrupt = true then _ else _ : Run (Except Completion Value)) s n = _
      rw [abrupt]
      rfl
    have taken : (Rule.lift takeLabels).run s m = .ok (.ok m.labels) { m with labels := [] } := rfl
    unfold Rule.switch
    rw [ExceptT.run_bind, bind_apply, taken]
    dsimp only
    rw [ExceptT.run_bind, bind_apply, valued]
    dsimp only
    rw [known, if_neg Bool.false_ne_true, ExceptT.run_bind, bind_apply, run']
    dsimp only
    cases xs with
    | nil => rfl
    | cons d ds => rfl
  | @fallen pre rest c k n ended _ run normal stays ih =>
    obtain ⟨value, ih⟩ := ih
    refine ⟨ended.value <|> value, fun rest' tests => ?_⟩
    rw [List.append_assoc, List.singleton_append, ih (c :: rest') (by simp [tests])]
    exact Rule.lift_congr (fallThrough_next run normal stays span value)

end Case

/-! ## The law of switches -/

namespace Rule

open Case

/-- **A switch weakens what follows a possible break.** When the execution of a switch in a machine
has come to a case whose body then may have left the switch by a break, the bodies of the cases
below it are only evaluated deeper than in that machine: it makes no difference what they do
anywhere else. -/
theorem switch_weakens (calls : Nat) (x : Expression) (cases : List SwitchCase) {s : Setup}
    {m k : Machine} {pre later later' : List Case} {c : Case}
    (written : SwitchCase.cases (callWithin calls) cases = pre ++ c :: later)
    (running : m.contexts.isEmpty = false)
    (reached : Reaches s (x.evaluate (callWithin calls)) m pre (c :: later) k)
    (leaves : ((Step.runAll none c.body).after s k).claimed k.exits.size
      (Completion.leavesSwitch m.labels) ≠ [])
    (agree : List.Forall₂ (AgreeBelow s m) later later') (span : Span) :
    (switch span x.span (x.evaluate (callWithin calls)) (pre ++ c :: later')).run s m =
      (switch span x.span (x.evaluate (callWithin calls)) (pre ++ c :: later)).run s m := by
  have script : (callWithin calls).Keeps fun _ => Machine.Steady := callWithin_keeps calls
  have input : Eval.Keeps Machine.Steady (x.evaluate (callWithin calls)) :=
    Expression.keeps_evaluate script x fun h => absurd trivial h
  have all : ∀ d ∈ pre ++ c :: later, d.Keeps fun _ => Machine.Steady := by
    rw [← written]
    exact SwitchCase.keeps_cases script cases fun h => absurd trivial h
  have bodies : ∀ d ∈ c :: later, d.Keeps fun _ => Machine.Steady :=
    fun d hd => all d (List.mem_append_right pre hd)
  obtain ⟨value, continues⟩ := reached.switch_eq span x.span
  have tests : (c :: later').map Case.test = (c :: later).map Case.test := by
    rw [List.map_cons, List.map_cons, tests_eq agree]
  have since : m.Steady k := reached.steady input all
  -- from the case on, the two switches are two lists of bodies
  rw [continues _ rfl, continues _ tests]
  exact lift_congr (fallThrough_eq agree bodies running since leaves span value)

/-! ### Cases that may have left a switch -/

open Analyzer

/-- The setup of the runs below. -/
def demoSetup : Setup := { options := {}, rules := .core, file := "switch.js" }

/-- A machine in which nothing is known of the global `u`. -/
def demoStart : Machine := (defineUnknown "u").after demoSetup (.start withUnknown.realm)

/-- `case true: if (u) s` -/
def possibleCase (s : Statement) : SwitchCase :=
  .mk default (some (boolAt true)) [.branch default (nameAt "u") s none]

/-- `case false: x = false;` -/
def assigningCase : SwitchCase :=
  .mk default (some (boolAt false))
    [.expression default (.assignment default .assign (nameAt "x") (boolAt false))]

/-- The parts of a case as computations. -/
def caseOf : SwitchCase → Case
  | .mk _ test ss => ⟨evaluateTest (callWithin 0) test, Statement.steps (callWithin 0) ss⟩

/-- A step that fails unless it is deeper than in a machine. -/
def onlyBelow (m : Machine) (step : Step) : Step where
  span := step.span
  run s n := if m.contexts.depth < n.contexts.depth then step.run s n
    else .error (.missingRule .switchStatement) n

theorem run_onlyBelow {m n : Machine} (deeper : m.Deeper n) (step : Step) (s : Setup) :
    (onlyBelow m step).run s n = step.run s n :=
  if_pos deeper.depth

/-- The assigning case, with a body that fails unless it is deeper than in the machine above. -/
def assigningBelow : Case where
  test := (caseOf assigningCase).test
  body := (caseOf assigningCase).body.map (onlyBelow demoStart)

/-- What `switch (true)` does with cases, from the machine above on. -/
def switchTrue (cs : List Case) : EStateM.Result FatalError Machine (Except Completion Completion) :=
  (switch default default ((boolAt true).evaluate (callWithin 0)) cs).run demoSetup demoStart

/-- True for the result of a computation that fails. -/
def failed {α : Type} : EStateM.Result FatalError Machine α → Bool
  | .ok .. => false
  | .error .. => true

theorem agree_assigningBelow :
    List.Forall₂ (AgreeBelow demoSetup demoStart) [caseOf assigningCase] [assigningBelow] := by
  refine .cons ⟨rfl, fun n deeper => ?_⟩ .nil
  obtain ⟨step, body⟩ : ∃ step, (caseOf assigningCase).body = [step] := ⟨_, rfl⟩
  have same := run_onlyBelow deeper step demoSetup
  rw [assigningBelow, body, List.map_singleton]
  simp only [Step.runAll, bind_apply, mark, get_apply, pure_apply, same]

/-- After `case true: if (u) break;` the assignment is only evaluated in an ambiguous block. -/
theorem switch_weakens_possibleBreak :
    failed (switchTrue [caseOf (possibleCase (.breaks default none)), caseOf assigningCase]) =
        false ∧
      switchTrue [caseOf (possibleCase (.breaks default none)), assigningBelow] =
        switchTrue [caseOf (possibleCase (.breaks default none)), caseOf assigningCase] := by
  refine ⟨by decide +kernel, ?_⟩
  obtain ⟨k, reached, leaves⟩ : ∃ k,
      Reaches demoSetup ((boolAt true).evaluate (callWithin 0)) demoStart []
        [caseOf (possibleCase (.breaks default none)), caseOf assigningCase] k ∧
      (((Step.runAll none (caseOf (possibleCase (.breaks default none))).body).after
        demoSetup k).claimed k.exits.size (Completion.leavesSwitch demoStart.labels)).isEmpty =
        false :=
    ⟨_, .selected rfl rfl rfl rfl, by decide +kernel⟩
  have written : SwitchCase.cases (callWithin 0)
      [possibleCase (.breaks default none), assigningCase] =
      [] ++ caseOf (possibleCase (.breaks default none)) :: [caseOf assigningCase] := rfl
  have running : demoStart.contexts.isEmpty = false := by decide +kernel
  exact switch_weakens 0 (boolAt true) _ written running reached
    (List.isEmpty_eq_false_iff.1 leaves) agree_assigningBelow default

/-- `var x = true; try { switch (true) { case true: if (u) throw true; case false: x = false; } }
catch (e) {}` -/
def possibleThrow : Program where
  span := default
  file := "switch.js"
  body :=
    [.varDeclaration default [.mk default ⟨default, "x"⟩ (some (boolAt true))],
    .tryCatch default
      (.mk default [.switch default (boolAt true)
        [possibleCase (.throws default (boolAt true)), assigningCase]])
      (some (.mk default ⟨default, "e"⟩ (.mk default []))) none]

/-- After `case true: if (u) throw true;`, whose throw is recorded as a possible exit, the
assignment is evaluated outside of all ambiguous blocks. The analysis takes it for granted, although
it does not happen if `u` is true. -/
theorem switch_not_weakened_possibleThrow :
    (∃ k, Reaches demoSetup ((boolAt true).evaluate (callWithin 0)) demoStart []
        [caseOf (possibleCase (.throws default (boolAt true))), caseOf assigningCase] k ∧
      ((Step.runAll none (caseOf (possibleCase (.throws default (boolAt true)))).body).after
        demoSetup k).claimed k.exits.size Completion.isThrow ≠ []) ∧
      List.Forall₂ (AgreeBelow demoSetup demoStart) [caseOf assigningCase] [assigningBelow] ∧
      failed (switchTrue
        [caseOf (possibleCase (.throws default (boolAt true))), caseOf assigningCase]) = false ∧
      failed (switchTrue
        [caseOf (possibleCase (.throws default (boolAt true))), assigningBelow]) = true ∧
      (withUnknown.analyze possibleThrow).global? "x" = some (.bool false) ∧
      (withUnknown.analyzeWith [("u", .bool true)] possibleThrow).global? "x" =
        some (.bool true) := by
  refine ⟨⟨_, .selected rfl rfl rfl rfl, ?_⟩, agree_assigningBelow, by decide +kernel,
    by decide +kernel, by decide +kernel, by decide +kernel⟩
  rw [← List.isEmpty_eq_false_iff]
  decide +kernel

end Rule

end AbstractScript
