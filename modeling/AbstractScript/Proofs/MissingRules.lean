import AbstractScript.Proofs.Chronicle
import AbstractScript.Proofs.ObliviousRules
import AbstractScript.Proofs.Soundness

/-!
# Runs without some rules

Evaluation obeys the registry, in the rules of all nodes and in the calls of all functions, and so
does an analysis. Hence a run without some rules is the run with them, unless a node is evaluated for
its value whose rule is missing; then the run ends with the failure that says so
(`Analyzer.rules_asked`). A name or a member that is evaluated to a reference needs no rule: only its
events are fired.
-/
namespace AbstractScript

open Eval

/-! ## Programs -/

namespace Eval

theorem isOblivious_depthLeft : IsOblivious depthLeft :=
  .bind (.setup fun part => by rw [part.options]) fun _ =>
    .look (fun _ _ same => by rw [Machine.contexts_eq same]) fun _ => .pure _

theorem isOblivious_callObject (f : ObjectId) (this : Value) (arguments : List Value) :
    IsOblivious (callObject f this arguments) :=
  .bind isOblivious_depthLeft fun depth =>
    isOblivious_callFunction (isOblivious_callWithin depth) f this arguments

theorem isOblivious_visitFunction (f : ObjectId) : IsOblivious (visitFunction f) := by
  refine .look (fun m n same => by rw [Machine.invoked_eq same]) fun m => ?_
  have called (span : Span) (arguments : List Value) :=
    IsOblivious.ambiguously span (isOblivious_callObject f .unknown arguments)
  split
  · exact .pure _
  · refine .bind (.object f) fun record => ?_
    split
    · exact .bind (called ..) fun _ => .pure _
    · exact .pure _

theorem isOblivious_visitFunctions (steps index : Nat) : IsOblivious (visitFunctions steps index) := by
  induction steps generalizing index with
  | zero => exact .pure _
  | succ steps ih =>
    refine .look (fun m n same => by rw [Machine.scripts_eq same]) fun m => ?_
    split
    · exact .pure _
    · exact .bind (isOblivious_visitFunction _) fun _ => ih (index + 1)

theorem isOblivious_enterProgram (body : List Statement) : IsOblivious (enterProgram body) := by
  refine .look (fun m n same => ?_) fun m => .bind (.attempt ?_) fun
    | .ok _ => .pure ()
    | .error error => .reportError error
  · rw [Machine.variableEnv, Machine.variableEnv, Machine.contexts_eq same]
  · exact (Op.built_instantiate (declares_oblivious _) (fun _ _ => trivial) none).isOblivious

theorem isOblivious_runProgram (body : List Statement) : IsOblivious (runProgram body) := by
  refine .bind (isOblivious_enterProgram body) fun _ => .bind isOblivious_depthLeft fun depth => ?_
  refine .bind (Statement.isOblivious_runAll (isOblivious_callWithin depth) body) fun c => ?_
  split
  · exact .look (fun m n same => by rw [Machine.realm_eq same]) fun _ =>
      .bind (.reportHere ..) fun _ => .pure c
  · exact .pure c

theorem isOblivious_defineUnknown (name : String) : IsOblivious (defineUnknown name) :=
  .bind (.attempt (Op.built_createData name .unknown).isOblivious) fun
    | .ok _ => .pure ()
    | .error error => .reportError error

/-- What is evaluated before the last reports looks at no records. -/
theorem isOblivious_evaluateAll (unknownGlobals : List String) (p : Program) :
    IsOblivious (evaluateAll unknownGlobals p) := by
  have program : IsOblivious p.evaluate := .ruled _ _ (isOblivious_runProgram p.body)
  have visits : IsOblivious (setup (·.options.processUnvisitedCode) : Run Bool) :=
    .setup fun part => by rw [part.options]
  refine .bind (.forM fun name _ => isOblivious_defineUnknown name) fun _ => ?_
  refine .bind program fun c => .bind visits fun visits => ?_
  dsimp only
  split
  · exact .bind (isOblivious_visitFunctions ..) fun _ => .pure c
  · exact .pure c

/-! ## Analyses -/

theorem obeys_reportPossibleThrows : Obeys reportPossibleThrows := by
  refine .bind (.modifyGet fun _ => rfl) fun exits => .forM fun e _ => ?_
  unfold reportPossibleThrow
  split
  · exact .bind .get fun _ => .report _
  · exact .pure _

/-- What a run does after it has begun to watch. -/
def evaluateAndReport (unknownGlobals : List String) (p : Program) : Run Completion := do
  let c ← evaluateAll unknownGlobals p
  reportPossibleThrows
  return c

theorem obeys_evaluateAndReport (unknownGlobals : List String) (p : Program) :
    Obeys (evaluateAndReport unknownGlobals p) :=
  .bind (isOblivious_evaluateAll unknownGlobals p).toObeys fun c =>
    .bind obeys_reportPossibleThrows fun _ => .pure c

/-- What a computation gives. -/
def result {α : Type} (x : Run α) (s : Setup) (m : Machine) : Except FatalError α :=
  match x s m with
  | .ok a _ => .ok a
  | .error e _ => .error e

/-- The last reports make no difference to how a run ends. -/
theorem result_evaluateAndReport (unknownGlobals : List String) (p : Program) (s : Setup)
    (m : Machine) :
    (evaluateAndReport unknownGlobals p).result s m =
      ((evaluateAll unknownGlobals p).outcome s m).1 := by
  rw [result, evaluateAndReport, bind_apply, outcome]
  cases evaluateAll unknownGlobals p s m with
  | error e n => rfl
  | ok c n =>
    obtain ⟨k, reported, -⟩ := exists_reportPossibleThrows (u := s) n.exits.toList n.dropExits
    have reported : reportPossibleThrows s n = .ok () k := reported
    dsimp only
    rw [bind_apply, reported]
    rfl

end Eval

namespace Analyzer

variable {a : Analyzer} {p : Program} {kinds : List NodeKind}

/-- The analyzer without the rules for some kinds. -/
def withoutRules (a : Analyzer) (kinds : List NodeKind) : Analyzer :=
  { a with rules := a.rules.without kinds }

/-- The analyzer when someone watches. -/
def watched (a : Analyzer) : Analyzer := { a with observed := true }

/-- The beginning of a rule for a node of the kind is fired in the run, if someone watches. -/
def Begins (a : Analyzer) (p : Program) (k : NodeKind) : Prop :=
  ∃ l d, Event.enter k l d ∈ (a.watched.analyze p).machine.events

/-- The run fails since a rule is missing that is for one of the kinds. -/
def Misses (a : Analyzer) (p : Program) (kinds : List NodeKind) : Prop :=
  ∃ k ∈ kinds, (a.analyze p).result = .error (.missingRule k)

/-- The run fails at a node that is not what its rule is for, or that refers to nothing. -/
def Derails (a : Analyzer) (p : Program) : Prop :=
  ∃ kind line column, (a.analyze p).result = .error (.malformedNode kind line column)

/-- A run that someone watches begins with watching. -/
theorem analyze_eq_evaluateAndReport (a : Analyzer) (p : Program) :
    a.analyze p = match evaluateAndReport a.unknownGlobals p (a.setup p) a.begun with
      | .ok c m => ⟨.ok c, m⟩
      | .error e m => ⟨.error e, m⟩ := by
  rw [analyze, analyze_eq_evaluateAll]
  rfl

theorem result_analyze (a : Analyzer) (p : Program) :
    (a.analyze p).result = (evaluateAndReport a.unknownGlobals p).result (a.setup p) a.begun := by
  rw [analyze_eq_evaluateAndReport, result]
  cases evaluateAndReport a.unknownGlobals p (a.setup p) a.begun <;> rfl

theorem isPartOf_setup (a : Analyzer) (p : Program) (kinds : List NodeKind) :
    ((a.withoutRules kinds).setup p).IsPartOf (a.setup p) :=
  ⟨rfl, rfl, a.rules.isPartOf_without kinds⟩

/-- A rule that the analyzer has without some kinds only for want of these is for one of them. -/
theorem mem_of_missing {k : NodeKind} (absent : (a.withoutRules kinds).rules.has k = false)
    (there : a.rules.has k = true) : k ∈ kinds := by
  by_contra other
  have kept : (a.withoutRules kinds).rules.has k = true :=
    (a.rules.has_without kinds k).2 ⟨other, there⟩
  rw [kept] at absent
  cases absent

/-- With fewer rules a run is the same, or it ends for want of one of them. -/
theorem analyze_withoutRules (a : Analyzer) (p : Program) (kinds : List NodeKind) :
    (a.withoutRules kinds).analyze p = a.analyze p ∨ (a.withoutRules kinds).Misses p kinds := by
  have obeys := obeys_evaluateAndReport a.unknownGlobals p
  have partly : (a.withoutRules kinds).analyze p =
      match evaluateAndReport a.unknownGlobals p ((a.withoutRules kinds).setup p) a.begun with
        | .ok c m => ⟨.ok c, m⟩
        | .error e m => ⟨.error e, m⟩ := analyze_eq_evaluateAndReport ..
  rcases obeys.follows (a.isPartOf_setup p kinds) a.begun with
    same | ⟨e, m, k, run, missing, absent, there⟩
  · left
    rw [partly, same, ← analyze_eq_evaluateAndReport]
  · right
    cases missing
    exact ⟨k, mem_of_missing absent there, by rw [partly, run]⟩

/-- A run ends in the same way whether or not someone watches. -/
theorem result_watched (a : Analyzer) (p : Program) :
    (a.watched.analyze p).result = (a.analyze p).result := by
  have watched : (a.watched.analyze p).result =
      (evaluateAndReport a.unknownGlobals p).result (a.watched.setup p) a.watched.begun :=
    result_analyze ..
  have same : (evaluateAndReport a.unknownGlobals p).result (a.watched.setup p) a.watched.begun =
      (evaluateAndReport a.unknownGlobals p).result (a.setup p) a.watched.begun := by
    have part : (a.watched.setup p).IsPartOf (a.setup p) := ⟨rfl, rfl, fun _ _ => rfl⟩
    rcases (obeys_evaluateAndReport a.unknownGlobals p).follows part a.watched.begun with
      same | ⟨e, m, k, -, -, absent, there⟩
    · rw [result, result, same]
    · have there : (a.watched.setup p).rules.has k = true := there
      rw [there] at absent
      cases absent
  have alike := (Eval.isOblivious_evaluateAll a.unknownGlobals p).alike (a.setup p) a.watched.begun
    a.begun rfl
  rw [watched, same, result_analyze, result_evaluateAndReport, result_evaluateAndReport, alike]

/-- What a run leaves is what its evaluation and its last reports leave. -/
theorem machine_analyze_eq_after (a : Analyzer) (p : Program) :
    (a.analyze p).machine =
      (evaluateAndReport a.unknownGlobals p).after (a.setup p) a.begun := by
  rw [analyze_eq_evaluateAndReport, Eval.after]
  cases evaluateAndReport a.unknownGlobals p (a.setup p) a.begun <;> rfl

/-- A run begins only rules that there are, except for references, unless it ends at a malformed
node. -/
theorem has_of_begins {k : NodeKind} (goes : ¬ a.Derails p) (begins : a.Begins p k) :
    a.rules.has k = true ∨ k.isReferred = true := by
  obtain ⟨l, d, entered⟩ := begins
  rw [machine_analyze_eq_after] at entered
  have goes : ¬ (evaluateAndReport a.watched.unknownGlobals p).Derails (a.watched.setup p)
      a.watched.begun := by
    rintro ⟨e, n, failed, kind, line, column, malformed⟩
    cases malformed
    exact goes ⟨kind, line, column, by rw [← result_watched, result_analyze, result, failed]⟩
  exact ((obeys_evaluateAndReport a.watched.unknownGlobals p).enters goes k l d entered).resolve_left
    (Array.not_mem_empty _)

/-- **The rules of a run are those that there are.** Without the rules for some kinds, a run that
succeeds begins only rules that are left, except for names and members, which can be evaluated to
references; and a run is the same as with the rules, or it ends for want of one of them. It does if a
run with the rules begins one of them that is for no name and no member, however that run ends; only
what is malformed, such as a literal that is assigned to, ends both runs before a rule is asked for. -/
theorem rules_asked (a : Analyzer) (p : Program) (kinds : List NodeKind) :
    (∀ c k, ((a.withoutRules kinds).analyze p).result = .ok c → (a.withoutRules kinds).Begins p k →
        (a.withoutRules kinds).rules.has k = true ∨ k.isReferred = true) ∧
      ((a.withoutRules kinds).analyze p = a.analyze p ∨ (a.withoutRules kinds).Misses p kinds) ∧
      ∀ k, a.Begins p k → k ∈ kinds → k.isReferred = false →
        (a.withoutRules kinds).Misses p kinds ∨ a.Derails p := by
  refine ⟨fun c k ends => has_of_begins ?_, analyze_withoutRules a p kinds, ?_⟩
  · rintro ⟨kind, line, column, failed⟩
    rw [ends] at failed
    cases failed
  intro k begins removed value
  -- the run that is watched is the one whose events tell that the rule begins
  rcases analyze_withoutRules a.watched p kinds with same | ⟨k, listed, misses⟩
  · by_contra neither
    obtain ⟨-, goes⟩ := not_or.1 neither
    have results : ((a.withoutRules kinds).analyze p).result = (a.analyze p).result := by
      rw [← result_watched, ← result_watched a]
      exact congrArg Analysis.result same
    have goes : ¬ (a.withoutRules kinds).Derails p := by
      rintro ⟨kind, line, column, failed⟩
      exact goes ⟨kind, line, column, results.symm.trans failed⟩
    have begins : (a.withoutRules kinds).Begins p k := by
      obtain ⟨l, d, entered⟩ := begins
      exact ⟨l, d, by rwa [← same] at entered⟩
    rcases has_of_begins goes begins with there | referred
    · exact ((a.rules.has_without kinds k).1 there).1 removed
    · rw [value] at referred
      cases referred
  · exact .inl ⟨k, listed, (result_watched (a.withoutRules kinds) p).symm.trans misses⟩

/-- `x = true;` -/
def assignment : Program where
  span := default
  file := "rules.js"
  body := [.expression default (assignAt "x" (boolAt true))]

/-- Some event is the beginning of a rule for a kind. -/
def begins (a : Analyzer) (p : Program) (k : NodeKind) : Bool :=
  (a.watched.analyze p).machine.events.any fun
    | .enter k' _ _ => k' = k
    | _ => false

theorem begins_iff {k : NodeKind} : a.begins p k = true ↔ a.Begins p k := by
  rw [begins, Begins, Array.any_eq_true']
  constructor
  · rintro ⟨e, entered, same⟩
    split at same
    next k' l d =>
      cases of_decide_eq_true same
      exact ⟨l, d, entered⟩
    next => cases same
  · rintro ⟨l, d, entered⟩
    exact ⟨_, entered, decide_eq_true rfl⟩

instance (a : Analyzer) (p : Program) (k : NodeKind) : Decidable (a.Begins p k) :=
  decidable_of_iff _ begins_iff

/-- Without the rule for literals the assigned value cannot be evaluated. -/
theorem rules_asked_literal : ∃ c, (({} : Analyzer).analyze assignment).result = .ok c ∧
    ({} : Analyzer).Begins assignment .literal ∧
    (({} : Analyzer).withoutRules [.literal]).Misses assignment [.literal] := by
  obtain ⟨c, ends⟩ := Analysis.exists_result (b := ({} : Analyzer).analyze assignment)
    (by decide +kernel)
  have begins : ({} : Analyzer).Begins assignment .literal := by decide +kernel
  obtain ⟨-, -, misses⟩ := rules_asked {} assignment [.literal]
  refine ⟨c, ends, begins, (misses .literal begins List.mem_cons_self rfl).resolve_right ?_⟩
  rintro ⟨kind, line, column, failed⟩
  rw [ends] at failed
  cases failed

/-- Without the rule for names the name is evaluated to a reference all the same: its rule begins, and
the run succeeds. -/
theorem rules_unasked_identifier :
    (({} : Analyzer).withoutRules [.identifier]).rules.has .identifier = false ∧
      (({} : Analyzer).withoutRules [.identifier]).Begins assignment .identifier ∧
      ∃ c, ((({} : Analyzer).withoutRules [.identifier]).analyze assignment).result = .ok c :=
  ⟨rfl, by decide +kernel, Analysis.exists_result (by decide +kernel)⟩

end Analyzer

end AbstractScript
