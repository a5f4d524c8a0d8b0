import AbstractScript.Proofs.SwitchPlan
import AbstractScript.Proofs.SwitchWeakening

/-!
# The tests of an ambiguous switch

A switch whose input is unknown, or whose input may or may not equal a test, runs the bodies of all
cases in an ambiguous block. It has evaluated its tests only as far as that test
(`Switch.tests_ambiguous`), although the tests below are evaluated if the input does not equal it. All
tests that may be evaluated are evaluated by the switch only if no case below has a test
(`Switch.observes_tests_iff`).
-/
namespace AbstractScript

open Eval

namespace Switch

/-! ## Comparisons that are unknown -/

/-- An input is compared with the tests of cases, and the last comparison is unknown. The cases below
are left. -/
inductive Undecided (s : Setup) (v : Value) : List Case → List Case → Machine → Prop where
  | here {c : Case} {below : List Case} {span : Span} {test : Run Completion} {d : Completion}
    {n k : Machine} (tests : c.test = some (span, test)) (ran : test s n = .ok d k)
    (normal : d.isAbrupt = false) (unknown : v.strictlyEqual? d.getValue = none) :
    Undecided s v [c] below n
  | default {c : Case} {pre below : List Case} {n : Machine} (untested : c.test = none)
    (later : Undecided s v pre below n) : Undecided s v (c :: pre) below n
  | differs {c : Case} {pre below : List Case} {span : Span} {test : Run Completion} {d : Completion}
    {n k : Machine} (tests : c.test = some (span, test)) (ran : test s n = .ok d k)
    (normal : d.isAbrupt = false) (differs : v.strictlyEqual? d.getValue = some false)
    (later : Undecided s v pre below k) : Undecided s v (c :: pre) below n

/-- A switch is evaluated ambiguously: its input is unknown, or it is known and its comparison with the
last of the first cases is unknown. -/
inductive Ambiguous (s : Setup) (input : Run Completion) (m : Machine) :
    List Case → List Case → Prop where
  | input {c : Completion} {n : Machine} {below : List Case}
    (ran : input s { m with labels := [] } = .ok c n) (normal : c.isAbrupt = false)
    (unknown : c.getValue.isUnknown = true) : Ambiguous s input m [] below
  | comparison {c : Completion} {n : Machine} {pre below : List Case}
    (ran : input s { m with labels := [] } = .ok c n) (normal : c.isAbrupt = false)
    (known : c.getValue.isUnknown = false) (undecided : Undecided s c.getValue pre below n) :
    Ambiguous s input m pre below

/-- Some outcome of the unknown comparisons with tests leads to the test of the case with a number: no
case above it equals the input for certain. -/
inductive MayTry (s : Setup) (v : Value) : List Case → Machine → Nat → Prop where
  | here {c : Case} {rest : List Case} {n : Machine} (tests : c.test.isSome = true) :
    MayTry s v (c :: rest) n 0
  | default {c : Case} {rest : List Case} {n : Machine} {i : Nat} (untested : c.test = none)
    (later : MayTry s v rest n i) : MayTry s v (c :: rest) n (i + 1)
  | differs {c : Case} {rest : List Case} {span : Span} {test : Run Completion} {d : Completion}
    {n k : Machine} {i : Nat} (tests : c.test = some (span, test)) (ran : test s n = .ok d k)
    (normal : d.isAbrupt = false) (possibly : v.strictlyEqual? d.getValue ≠ some true)
    (later : MayTry s v rest k i) : MayTry s v (c :: rest) n (i + 1)

/-- Some outcome of the unknown comparisons of a switch leads to the test of the case with a number. -/
def MayReach (s : Setup) (input : Run Completion) (m : Machine) (cs : List Case) (i : Nat) : Prop :=
  ∃ c n, input s { m with labels := [] } = .ok c n ∧ c.isAbrupt = false ∧
    MayTry s c.getValue cs n i

/-- The numbers of the cases with a test. -/
def testNumbers : Nat → List Case → List Nat
  | _, [] => []
  | start, c :: rest =>
    if c.test.isSome then start :: testNumbers (start + 1) rest else testNumbers (start + 1) rest

theorem mem_testNumbers {i start : Nat} {cs : List Case} :
    i ∈ testNumbers start cs ↔ ∃ j c, i = start + j ∧ cs[j]? = some c ∧ c.test.isSome = true := by
  induction cs generalizing start with
  | nil => simp [testNumbers]
  | cons c rest ih =>
    have later : i ∈ testNumbers (start + 1) rest ↔
        ∃ j d, i = start + (j + 1) ∧ rest[j]? = some d ∧ d.test.isSome = true := by
      rw [ih]
      simp only [Nat.add_right_comm start 1, Nat.add_assoc]
    have first : (∃ j d, i = start + j ∧ (c :: rest)[j]? = some d ∧ d.test.isSome = true) ↔
        (i = start ∧ c.test.isSome = true) ∨ i ∈ testNumbers (start + 1) rest := by
      rw [later]
      constructor
      · rintro ⟨_ | j, d, rfl, found, tests⟩
        · obtain rfl := Option.some.inj found
          exact .inl ⟨rfl, tests⟩
        · exact .inr ⟨j, d, rfl, found, tests⟩
      · rintro (⟨rfl, tests⟩ | ⟨j, d, rfl, found, tests⟩)
        · exact ⟨0, c, rfl, rfl, tests⟩
        · exact ⟨j + 1, d, rfl, found, tests⟩
    rw [first, testNumbers]
    split
    next tests => simp [tests]
    next untested => simp [untested]

variable {s : Setup} {v : Value} {n : Machine} {cs pre below : List Case} {i : Nat}

namespace MayTry

theorem exists_test (h : MayTry s v cs n i) : ∃ c, cs[i]? = some c ∧ c.test.isSome = true := by
  induction h with
  | @here c rest n tests => exact ⟨c, rfl, tests⟩
  | default untested later ih => exact ih
  | differs tests ran normal possibly later ih => exact ih

/-- The first test is evaluated whatever the outcomes are. -/
theorem exists_of_test {c : Case} (listed : c ∈ cs) (tests : c.test ≠ none) (s : Setup) (v : Value)
    (n : Machine) : ∃ i, MayTry s v cs n i := by
  induction cs with
  | nil => cases listed
  | cons c' rest ih =>
    by_cases untested : c'.test = none
    · rcases List.mem_cons.1 listed with rfl | later
      · exact absurd untested tests
      · obtain ⟨i, tried⟩ := ih later
        exact ⟨i + 1, .default untested tried⟩
    · exact ⟨0, .here (Option.isSome_iff_ne_none.2 untested)⟩

end MayTry

/-- After the unknown comparison, the tests of the cases below may be evaluated. -/
theorem Undecided.mayTry (h : Undecided s v pre below n) : ∃ k, ∀ i, MayTry s v below k i →
    MayTry s v (pre ++ below) n (pre.length + i) := by
  induction h with
  | @here c below span test d n k tests ran normal unknown =>
    refine ⟨k, fun i later => ?_⟩
    have possibly : v.strictlyEqual? d.getValue ≠ some true := by rw [unknown]; nofun
    rw [Nat.add_comm]
    exact .differs tests ran normal possibly later
  | @default c pre below n untested later ih =>
    obtain ⟨k, ih⟩ := ih
    refine ⟨k, fun i tried => ?_⟩
    rw [List.length_cons, Nat.add_right_comm]
    exact .default untested (ih i tried)
  | @differs c pre below span test d n k tests ran normal different later ih =>
    obtain ⟨k', ih⟩ := ih
    refine ⟨k', fun i tried => ?_⟩
    have possibly : v.strictlyEqual? d.getValue ≠ some true := by rw [different]; nofun
    rw [List.length_cons, Nat.add_right_comm]
    exact .differs tests ran normal possibly (ih i tried)

/-- In an ambiguous switch, some outcome leads to the first test of the cases below, if there is one. -/
theorem Ambiguous.exists_mayReach {input : Run Completion} {m : Machine}
    (h : Ambiguous s input m pre below) {c : Case} (listed : c ∈ below) (tests : c.test ≠ none) :
    ∃ i, MayReach s input m (pre ++ below) (pre.length + i) := by
  cases h with
  | @input d n _ ran normal unknown =>
    obtain ⟨i, tried⟩ := MayTry.exists_of_test listed tests s d.getValue n
    refine ⟨i, d, n, ran, normal, ?_⟩
    rw [List.length_nil, Nat.zero_add]
    exact tried
  | @comparison d n _ _ ran normal known undecided =>
    obtain ⟨k, later⟩ := undecided.mayTry
    obtain ⟨i, tried⟩ := MayTry.exists_of_test listed tests s d.getValue k
    exact ⟨i, d, n, ran, normal, later i tried⟩

/-! ## The tests that are evaluated -/

/-- The numbers of the tests among visits. -/
def testsOf (vs : List (Visit Part)) : List Nat := vs.filterMap (·.part.test?)

variable {input : Run Completion} {m : Machine}

theorem testsOf_cons_test (j : Nat) (c : Case) (r : EStateM.Result FatalError Machine Completion)
    (vs : List (Visit Part)) : testsOf (⟨.test j c, m, r⟩ :: vs) = j :: testsOf vs := rfl

theorem testsOf_cons_body (j : Nat) (c : Case) (r : EStateM.Result FatalError Machine Completion)
    (vs : List (Visit Part)) : testsOf (⟨.body j c, m, r⟩ :: vs) = testsOf vs := rfl

/-- What may or may not happen in a switch is the bodies of its cases. -/
theorem testsOf_noteAll (cs : List (Case × Nat)) :
    testsOf ((noteAll cs).visits (parts input) s m) = [] := by
  induction cs generalizing m with
  | nil => rfl
  | cons c rest ih =>
    obtain ⟨c, j⟩ := c
    rw [noteAll, Plan.visits_part_bind, testsOf_cons_body]
    split
    · exact ih
    · rfl

theorem testsOf_possibly (span : Span) (labels : List String) (cs : List (Case × Nat)) :
    testsOf ((possibly span labels cs).visits (parts input) s m) = [] := by
  have claims (mark : Nat) (n : Machine) : (Plan.claim mark (Completion.leavesSwitch labels) >>=
      fun _ => (return .empty) : Plan Part Completion).visits (parts input) s n = [] := rfl
  unfold possibly
  rw [Plan.visits_bind_ok (x := Plan.mark) rfl, Plan.visits_bind]
  split
  · rw [claims, List.append_nil]
    exact testsOf_noteAll cs
  · rw [List.append_nil]
    exact testsOf_noteAll cs

/-- The tests are evaluated in order, up to the unknown comparison. -/
theorem testsOf_choose (h : Undecided s v pre below n) (start : Nat) (default : List (Case × Nat))
    {f : Option (List (Case × Nat)) → Plan Part Completion}
    (bodies : ∀ n, testsOf ((f none).visits (parts input) s n) = []) :
    testsOf ((choose v default f ((pre ++ below).zipIdx start)).visits (parts input) s n) =
      testNumbers start pre := by
  have part {c : Case} {span : Span} {test : Run Completion} (tests : c.test = some (span, test))
      (j : Nat) : parts input (.test j c) = test := by
    rw [parts, tests]
    rfl
  have counted {c : Case} {span : Span} {test : Run Completion} (tests : c.test = some (span, test)) :
      c.test.isSome = true := by
    rw [tests]
    rfl
  -- the induction is on what makes the comparison undecided: a case without a test is passed over
  induction h generalizing start with
  | @here c below span test d n k tests ran normal unknown =>
    rw [List.cons_append, List.zipIdx_cons, choose, tests]
    dsimp only
    rw [Plan.visits_part_bind, part tests, ran, testsOf_cons_test]
    dsimp only
    rw [if_neg (by rw [normal]; exact Bool.false_ne_true), unknown]
    dsimp only
    -- the bodies run none of the tests
    rw [Plan.visits_bind_ok (x := Plan.markUnknown span) rfl, testNumbers, if_pos (counted tests)]
    exact congrArg (List.cons start) (bodies _)
  | @default c pre below n untested later ih =>
    rw [List.cons_append, List.zipIdx_cons, choose, untested, testNumbers, untested]
    exact ih (start + 1)
  | @differs c pre below span test d n k tests ran normal different later ih =>
    rw [List.cons_append, List.zipIdx_cons, choose, tests]
    dsimp only
    rw [Plan.visits_part_bind, part tests, ran, testsOf_cons_test]
    dsimp only
    rw [if_neg (by rw [normal]; exact Bool.false_ne_true), different, testNumbers,
      if_pos (counted tests)]
    exact congrArg (List.cons start) (ih (start + 1))

/-- The evaluations of the parts of a switch, in order. -/
def visits (span inputSpan : Span) (input : Run Completion) (cs : List Case) (s : Setup)
    (m : Machine) : List (Visit Part) :=
  (evaluate span inputSpan cs).visits (parts input) s m

/-- An ambiguous switch evaluates its tests up to the unknown comparison, and none after it. -/
theorem tests_ambiguous (h : Ambiguous s input m pre below) (span inputSpan : Span) :
    testsOf (visits span inputSpan input (pre ++ below) s m) = testNumbers 0 pre := by
  have taken : (Plan.takeLabels : Plan Part _).run (parts input) s m =
      .ok m.labels { m with labels := [] } := rfl
  unfold visits evaluate
  rw [Plan.visits_bind_ok taken]
  cases h with
  | @input c n _ ran normal unknown =>
    have read : parts input .input s { m with labels := [] } = .ok c n := ran
    rw [Plan.visits_part_bind, read]
    dsimp only
    rw [if_neg (by rw [normal]; exact Bool.false_ne_true), if_pos unknown,
      Plan.visits_bind_ok (x := Plan.markUnknown inputSpan) rfl]
    exact testsOf_possibly span m.labels _
  | @comparison c n _ _ ran normal known undecided =>
    have read : parts input .input s { m with labels := [] } = .ok c n := ran
    rw [Plan.visits_part_bind, read]
    dsimp only
    rw [if_neg (by rw [normal]; exact Bool.false_ne_true),
      if_neg (by rw [known]; exact Bool.false_ne_true)]
    exact testsOf_choose undecided 0 _ fun n => testsOf_possibly span m.labels _

/-- **An ambiguous switch evaluates all tests that may be evaluated exactly if no case below the unknown
comparison has a test**; all cases are below if the input is unknown. -/
theorem observes_tests_iff (ambiguous : Ambiguous s input m pre below) (span inputSpan : Span) :
    (∀ i, MayReach s input m (pre ++ below) i →
        ∃ w ∈ visits span inputSpan input (pre ++ below) s m, w.part.test? = some i) ↔
      ∀ c ∈ below, c.test = none := by
  have visited (i : Nat) :
      (∃ w ∈ visits span inputSpan input (pre ++ below) s m, w.part.test? = some i) ↔
        i ∈ testNumbers 0 pre := by
    rw [← tests_ambiguous ambiguous span inputSpan, testsOf, List.mem_filterMap]
  constructor
  · intro all c listed
    by_contra tests
    obtain ⟨i, reached⟩ := ambiguous.exists_mayReach listed tests
    obtain ⟨j, d, same, found, -⟩ := mem_testNumbers.1 ((visited _).1 (all _ reached))
    -- the test is one of a case below, which was not visited
    have above : j < pre.length := (List.getElem?_eq_some_iff.1 found).1
    omega
  · rintro untested i ⟨c, n, -, -, tried⟩
    rw [visited, mem_testNumbers]
    obtain ⟨d, found, tests⟩ := tried.exists_test
    refine ⟨i, d, (Nat.zero_add i).symm, ?_, tests⟩
    by_cases above : i < pre.length
    · rwa [List.getElem?_append_left above] at found
    · rw [List.getElem?_append_right (Nat.not_lt.1 above)] at found
      rw [untested d (List.mem_of_getElem? found)] at tests
      cases tests

/-! ### Cases that assign in their tests -/

open Analyzer Rule

/-- `case x = false:` -/
def assigningTest : SwitchCase := .mk default (some (assignAt "x" (boolAt false))) []

/-- `case u:` -/
def unknownTest : SwitchCase := .mk default (some (nameAt "u")) []

/-- The only test of `switch (true) { case u: }` is evaluated, and no case is below it. -/
theorem observes_tests_unknownTest :
    Ambiguous demoSetup ((boolAt true).evaluate (callWithin 0)) demoStart [caseOf unknownTest] [] ∧
      ∀ i, MayReach demoSetup ((boolAt true).evaluate (callWithin 0)) demoStart
          [caseOf unknownTest] i →
        ∃ w ∈ visits default default ((boolAt true).evaluate (callWithin 0)) [caseOf unknownTest]
          demoSetup demoStart, w.part.test? = some i := by
  let input : Run Completion := (boolAt true).evaluate (callWithin 0)
  let test : Run Completion := (nameAt "u").evaluate (callWithin 0)
  have evaluated : (do return (← input, ← test) : Run (Completion × Completion)).succeedsWith
      (fun p => decide (p = (.normal (.bool true), .normal .unknown))) demoSetup
      { demoStart with labels := [] } = true := by decide +kernel
  obtain ⟨_, k, ran, rfl⟩ : ∃ p k, (do return (← input, ← test) : Run (Completion × Completion))
      demoSetup { demoStart with labels := [] } = .ok p k ∧
        p = (.normal (.bool true), .normal .unknown) := by
    simpa using exists_of_succeedsWith evaluated
  obtain ⟨c, n, first, rest⟩ := bind_eq_ok_iff.1 ran
  obtain ⟨d, k', second, last⟩ := bind_eq_ok_iff.1 rest
  cases last
  have ambiguous : Ambiguous demoSetup input demoStart [caseOf unknownTest] [] :=
    .comparison first rfl rfl (.here rfl second rfl rfl)
  exact ⟨ambiguous, (observes_tests_iff ambiguous default default).2 fun c none => nomatch none⟩

/-- `var x = true; switch (u) { case x = false: }` -/
def unobserved : Program where
  span := default
  file := "switch.js"
  body :=
    [.varDeclaration default [.mk default ⟨default, "x"⟩ (some (boolAt true))],
    .switch default (nameAt "u") [assigningTest]]

/-- The test of `switch (u) { case x = false: }` is evaluated whatever `u` is, but not by the analysis,
which takes it for granted that `x` keeps its value. -/
theorem unobserved_assigningTest :
    MayReach demoSetup ((nameAt "u").evaluate (callWithin 0)) demoStart [caseOf assigningTest] 0 ∧
      testsOf (visits default default ((nameAt "u").evaluate (callWithin 0)) [caseOf assigningTest]
        demoSetup demoStart) = [] ∧
      (withUnknown.analyze unobserved).global? "x" = some (.bool true) ∧
      (withUnknown.analyzeWith [("u", .bool true)] unobserved).global? "x" = some (.bool false) := by
  have normal : ((nameAt "u").evaluate (callWithin 0)).succeedsWith (!·.isAbrupt) demoSetup
      { demoStart with labels := [] } = true := by decide +kernel
  obtain ⟨c, n, ran, goes⟩ := exists_of_succeedsWith normal
  exact ⟨⟨c, n, ran, by simpa using goes, .here rfl⟩, by decide +kernel, by decide +kernel,
    by decide +kernel⟩

end Switch

end AbstractScript
