import AbstractScript.Analysis.Run
import AbstractScript.Proofs.Declarations
import AbstractScript.Proofs.LoopFree

/-!
# Runs of the loop-free core

A run in which some globals are given values from outside: it declares names, evaluates the program
and reports the throws that may have happened. For a program of the core, the run tracks one effect
whatever the values are; an analysis is the run in which they are unknown (`Eval.analyze_eq`).
-/
namespace AbstractScript

open Eval Realm

/-- The report of a throw that may have happened, in a realm. -/
def PossibleExit.report (realm : Realm) (e : PossibleExit) : Diagnostic where
  kind := .possiblyUncaught
  message := "Possibly uncaught " ++ realm.describeException e.completion.getValue
  location := e.location
  stack := e.stack

namespace Eval

/-- Gives a global a value from outside. -/
def defineGlobal (g : String × Value) : Run Unit := do
  match ← (Op.createData Realm.globalObject g.1 g.2).attempt with
  | .ok _ => return
  | .error e => reportError e

/-- Evaluates a program in which some globals have values from outside, and reports what may have
gone wrong. -/
def analyzeWith (globals : List (String × Value)) (p : Program) : Run Completion := do
  watch
  globals.forM defineGlobal
  let c ← p.evaluate
  if ← setup (·.options.processUnvisitedCode) then visitFunctions visitLimit 0
  reportPossibleThrows
  return c

/-- An analysis is a run in which the values from outside are unknown. -/
theorem analyze_eq (names : List String) (p : Program) :
    analyze names p = analyzeWith (names.map (·, .unknown)) p := by
  have same : names.forM defineUnknown = (names.map (·, .unknown)).forM defineGlobal := by
    induction names with
    | nil => rfl
    | cons name rest ih =>
      show (defineUnknown name >>= fun _ => rest.forM defineUnknown) = _
      rw [ih]
      rfl
  rw [analyze, analyzeWith, same]

end Eval

/-! ## The beginning -/

/-- The store in which every run begins. -/
def Store.initial : Store where
  globals name := ((core.object globalObject).own? name).map Descriptor.content

theorem isKnown_core_global : (core.object globalObject).properties.toList.all
    (fun e => !e.2.content.isUnknown) = true := by
  decide +kernel

theorem Store.covers_initial : Store.initial.Covers Store.initial where
  level := rfl
  exits := rfl
  scopes := .nil
  globals _ := .inr rfl
  known name v found := by
    obtain ⟨d, own, rfl⟩ := Option.map_eq_some_iff.1 found
    have known := List.all_eq_true.1 isKnown_core_global _ (Table.get?_eq_some_iff.1 own)
    refine ⟨?_, by simpa using known⟩
    obtain ⟨plain, -⟩ := isCore_core.plain name d own
    cases d with
    | data v => exact plain
    | accessor => rfl

theorem isRoot_core : (match core.environment globalEnv with
    | ⟨.properties o provides, outer, _, created⟩ =>
      o = globalObject && !provides && outer.isNone && created = 0
    | _ => false) = true := by
  decide +kernel

theorem hasRoot_core : core.HasRoot := by
  have there : 0 < core.environments.size := by decide +kernel
  have root := isRoot_core
  split at root
  next o provides outer returned created same =>
    simp only [Bool.and_eq_true, decide_eq_true_eq, Bool.not_eq_true', Option.isNone_iff_eq_none]
      at root
    obtain ⟨⟨⟨rfl, rfl⟩, rfl⟩, rfl⟩ := root
    exact ⟨there, by rw [same], by rw [same], by rw [same]⟩
  next => cases root

theorem represents_start : Represents [] [] (.start core) Store.initial where
  contexts := rfl
  scripts := rfl
  exits := rfl
  overtaken := iff_of_false Bool.false_ne_true id
  core := isCore_core.congr rfl
  root := { hasRoot_core with }
  globals _ := rfl
  handlers := trivial
  plain := nofun
  bound := nofun

/-! ## The run -/

section

variable {u : Setup} {known : List String} {m : Machine} {σ : Store}

/-- All globals are given their values. -/
theorem exists_defineAll (globals : List (String × Value)) (h : Represents known [] m σ)
    (open' : m.realm.IsOpen) (plain : ∀ g ∈ globals, g.2.isPlain = true) :
    ∃ n, (globals.forM defineGlobal : Run Unit) u m = .ok () n ∧
      Represents ((globals.map Prod.fst).reverse ++ known) [] n (σ.defineAll globals) := by
  induction globals generalizing known m σ with
  | nil => exact ⟨m, rfl, h⟩
  | cons g rest ih =>
    rw [List.forall_mem_cons] at plain
    obtain ⟨b, n, run, open', h⟩ := exists_createData (s := u) h open' plain.1 g.1
    obtain ⟨k, run', h⟩ := ih h open' plain.2
    have attempted : ((Op.createData globalObject g.1 g.2).attempt : Run _) u m = .ok (.ok b) n := by
      rw [Op.attempt, run]
    refine ⟨k, ?_, ?_⟩
    · show (defineGlobal g >>= fun _ => rest.forM defineGlobal) u m = _
      rw [bind_apply, defineGlobal, bind_apply, attempted]
      exact run'
    · rw [List.map_cons, List.reverse_cons, List.append_assoc]
      exact h

/-- A program without function declarations binds its variables. -/
theorem exists_enterProgram {body : List Statement} (h : Represents known [] m σ)
    (functions : hoistedFunctions body = []) :
    ∃ n, enterProgram body u m = .ok () n ∧
      Represents ((varNames body).reverse ++ known) [] n (σ.declareAll (varNames body)) := by
  obtain ⟨n, run, rep⟩ := exists_declareAll (s := u) (varNames body) h
  refine ⟨n, ?_, rep⟩
  have env : m.variableEnv = globalEnv := by
    rw [Machine.variableEnv, h.contexts]
    rfl
  have instantiated : Op.instantiate globalEnv body none u m = .ok () n := by
    rw [Op.instantiate, functions]
    exact run
  have attempted : ((Op.instantiate globalEnv body none).attempt : Run _) u m = .ok (.ok ()) n := by
    rw [Op.attempt, instantiated]
  rw [enterProgram, bind_apply, get_apply]
  simp only [env]
  rw [bind_apply, attempted]
  rfl

theorem aside_reportHere {Γ : Handlers} (kind : DiagnosticKind) (message : String) :
    Aside u known Γ (reportHere kind message : Run Unit) := by
  refine .aside_bind .get fun m => .aside_bind (aside_emit _) fun _ => ?_
  exact .modify (fun _ => rfl) (fun _ => rfl) (fun _ => rfl) (fun _ => rfl) fun _ => rfl

/-- A program of the core binds its variables and then tracks an effect that simulates itself. -/
theorem exists_runProgram (rules : u.rules = .core) {body : List Statement}
    (core : bodyCore (varNames body ++ known) body = true) :
    ∃ d : Effect Completion, Effect.Simulates d d ∧
      Eval.Tracks u known [] SameEnd (runProgram body)
        (fun σ => d (σ.declareAll (varNames body))) := by
  let bound := (varNames body).reverse ++ known
  let call := callWithin (u.options.maxRecursionLimit - 1)
  have declared : listDeclaredNames body ⊆ varNames body ++ known := fun name listed =>
    List.mem_append_left _ (mem_varNames.2 listed)
  have sound : SoundEnd u bound (varNames body ++ known)
      (Step.runAll none (Statement.steps call body)) :=
    .runAll (sound_steps rules body core declared)
  -- the effect is that of the statements once the variables are declared
  obtain ⟨d, -, simulates, tracks⟩ := sound
  have binds : Handlers.Binds [] bound (varNames body ++ known) := fun name listed => .inr (by
    simpa [bound] using listed)
  refine ⟨d, simulates, fun m σ rep => ?_⟩
  -- the end of the statements is the end of the program, with a report if it is a throw
  have last : Eval.Tracks u bound [] SameEnd (do
      let c ← Step.runAll none (Statement.steps call body)
      if c.isThrow then
        reportHere .uncaught ("Uncaught " ++ (← get).realm.describeException c.getValue)
      return c) d := by
    refine .bind (g := fun c => pure c) (tracks [] binds) fun c _ ended => ?_
    split
    · exact .aside_bind .get fun _ => .aside_bind (aside_reportHere _ _) fun _ => .pure ended
    · exact .pure ended
  obtain ⟨n, entered, rep⟩ := exists_enterProgram (u := u) rep (hoistedFunctions_eq_nil body core)
  have depth : depthLeft u n = .ok (u.options.maxRecursionLimit - 1) n := by
    rw [depthLeft, bind_apply, setup_apply]
    simp only [bind_apply, get_apply, rep.contexts]
    rfl
  obtain ⟨c, k, run, ended, rep⟩ := last n _ rep
  refine ⟨c, k, ?_, ended, rep.mono (List.subset_append_right _ _)⟩
  rw [runProgram, bind_apply, entered]
  show (depthLeft >>= _) u n = _
  rw [bind_apply, depth]
  exact run

/-! ## The end -/

/-- Without functions of the program there is nothing to visit. -/
theorem visitFunctions_of_scripts (none : m.scripts = #[]) (steps index : Nat) :
    visitFunctions steps index u m = .ok () m := by
  cases steps with
  | zero => rfl
  | succ steps =>
    rw [visitFunctions, bind_apply, get_apply]
    simp only [none]
    rfl

/-- The possible throws among some possible exits are reported, in order. -/
structure Reported (es : List PossibleExit) (m n : Machine) : Prop where
  realm : n.realm = m.realm
  history : n.history = m.history
  ledger : n.ledger = m.ledger
  diagnostics : n.diagnostics.toList =
    m.diagnostics.toList ++ (es.filter (·.completion.isThrow)).map (·.report m.realm)

theorem exists_reportPossibleThrow (e : PossibleExit) (m : Machine) :
    ∃ n, reportPossibleThrow e u m = .ok () n ∧ Reported [e] m n := by
  by_cases throws : e.completion.isThrow = true
  · refine ⟨{ m.fire (.diagnostic (e.report m.realm)) with
      diagnostics := m.diagnostics.push (e.report m.realm) }, ?_, rfl, rfl, rfl, by simp [throws]⟩
    rw [reportPossibleThrow, if_pos throws]
    rfl
  · refine ⟨m, ?_, rfl, rfl, rfl, by simp [throws]⟩
    rw [reportPossibleThrow, if_neg throws]
    rfl

theorem exists_reportPossibleThrows (es : List PossibleExit) (m : Machine) :
    ∃ n, (es.forM reportPossibleThrow : Run Unit) u m = .ok () n ∧ Reported es m n := by
  induction es generalizing m with
  | nil => exact ⟨m, rfl, rfl, rfl, rfl, by simp⟩
  | cons e rest ih =>
    obtain ⟨n, run, first⟩ := exists_reportPossibleThrow (u := u) e m
    obtain ⟨k, run', others⟩ := ih n
    refine ⟨k, ?_, others.realm.trans first.realm, others.history.trans first.history,
      others.ledger.trans first.ledger, ?_⟩
    · show (reportPossibleThrow e >>= fun _ => rest.forM reportPossibleThrow) u m = _
      rw [bind_apply, run]
      exact run'
    · rw [others.diagnostics, first.diagnostics, first.realm, List.append_assoc, ← List.map_append,
        ← List.filter_append, List.singleton_append]

/-- A possible throw leaves a diagnostic. -/
theorem Reported.exists_diagnostic {es : List PossibleExit} {m n : Machine} (h : Reported es m n)
    {e : PossibleExit} (there : e ∈ es) (throws : e.completion.isThrow = true) :
    ∃ d ∈ n.diagnostics, d.kind = .possiblyUncaught := by
  refine ⟨e.report m.realm, ?_, rfl⟩
  rw [← Array.mem_toList_iff, h.diagnostics]
  exact List.mem_append_right _ (List.mem_map_of_mem (List.mem_filter.2 ⟨there, throws⟩))

/-- How a run of a program of the core ends, in terms of the store after an effect. -/
structure EndsIn (n : Machine) (σ : Store) : Prop where
  globals : ∀ name,
    ((n.realm.object globalObject).own? name).map Descriptor.content = σ.globals name
  overtaken : n.history.overtaken ↔ σ.overtaken
  throws : ∀ c ∈ σ.exits, c.isThrow = true → ∃ d ∈ n.diagnostics, d.kind = .possiblyUncaught

/-- The runs of a program of the core track one effect, which simulates itself. -/
theorem exists_analyzeWith (rules : u.rules = .core) {p : Program} {names : List String}
    (core : bodyCore (varNames p.body ++ names) p.body = true) :
    ∃ d : Effect Completion, Effect.Simulates d d ∧ ∀ globals : List (String × Value),
      globals.map Prod.fst = names → (∀ g ∈ globals, g.2.isPlain = true) →
        ∃ n, analyzeWith globals p u (.start Realm.core) =
            .ok (d.result ((Store.initial.defineAll globals).declareAll (varNames p.body))) n ∧
          EndsIn n (d.after ((Store.initial.defineAll globals).declareAll (varNames p.body))) := by
  obtain ⟨d, simulates, tracks⟩ := exists_runProgram rules core
  refine ⟨d, simulates, fun globals same plain => ?_⟩
  let begun : Machine := { Machine.start Realm.core with observed := u.observed }
  have watched : (watch : Run Unit) u (.start Realm.core) = .ok () begun := rfl
  -- the globals are given their values
  have opened : begun.realm.IsOpen := isOpen_core
  obtain ⟨m, defined, rep⟩ := exists_defineAll (u := u) (m := begun) globals
    (represents_start.congr rfl rfl rfl Iff.rfl rfl) opened plain
  have fewer : names ⊆ (globals.map Prod.fst).reverse ++ [] := by simp [same]
  have rep := rep.mono fewer
  -- the program is evaluated
  obtain ⟨c, k, evaluated, ended, rep⟩ := tracks.ruled rules .program p.span m _ rep
  have result : c = d.result ((Store.initial.defineAll globals).declareAll (varNames p.body)) :=
    ended.same
  -- there is nothing to visit, and the possible throws are reported
  obtain ⟨n, reported, end'⟩ :=
    exists_reportPossibleThrows (u := u) k.exits.toList k.dropExits
  refine ⟨n, ?_, ?_, ?_, fun x listed throws => ?_⟩
  · rw [← result, analyzeWith, bind_apply, watched]
    show (globals.forM defineGlobal >>= _) u begun = _
    rw [bind_apply, defined]
    show (p.evaluate >>= _) u m = _
    rw [bind_apply, Program.evaluate, evaluated]
    have reported : reportPossibleThrows u k = .ok () n := reported
    have finished : (do
        reportPossibleThrows
        return c : Run Completion) u k = .ok c n := by
      rw [bind_apply, reported]
      rfl
    show (setup (·.options.processUnvisitedCode) >>= _ : Run Completion) u k = _
    rw [bind_apply, setup_apply]
    cases u.options.processUnvisitedCode with
    | false => exact finished
    | true =>
      show (visitFunctions visitLimit 0 >>= _) u k = _
      rw [bind_apply, visitFunctions_of_scripts rep.scripts]
      exact finished
  · intro name
    rw [end'.realm]
    exact (rep.globals name).symm
  · rw [end'.history]
    exact rep.overtaken
  · have listed : x ∈ k.exits.toList.map (·.completion) := rep.exits ▸ listed
    obtain ⟨e, there, rfl⟩ := List.mem_map.1 listed
    exact end'.exists_diagnostic there throws

end

end AbstractScript
