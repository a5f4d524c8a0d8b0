import AbstractScript.Proofs.DecidingTree
import AbstractScript.Proofs.Soundness

/-!
# Direct programs are analyzed exactly

With the core objects and rules, loops evaluated and no visits to functions that were never called,
nothing about the run of a direct program is unknown, and nothing in it may or may not happen, unless
a diagnostic says that something was given up (`Analyzer.analyze_exact`).
-/
namespace AbstractScript

open Eval

/-! ## Programs decide -/

namespace Eval

variable {s : Setup} {P : Prop}

theorem enterProgram_decides {body : List Statement} (direct : bodyIsIn .direct body = true) :
    Decides s P (enterProgram body) fun _ => True := by
  refine Decides.get.bind fun m => ?_
  refine Decides.bind (.attempt (Op.instantiate_decides _ (fun _ => direct) fun _ => nofun))
    fun result => ?_
  split
  · exact .pure fun _ => trivial
  · exact reportError_diagnosed _

/-- An exception that nothing catches is a result like others. -/
theorem runProgram_decides (rules : s.rules = .core) (evaluated : s.options.evaluateLoops = true)
    {body : List Statement} (direct : bodyIsIn .direct body = true) :
    Decides s P (runProgram body) Completion.IsHarmless := by
  refine (enterProgram_decides direct).bind fun _ => ?_
  have left {Q : Prop} : Decides s Q depthLeft fun _ => True :=
    (Decides.setup _).bind fun _ => Decides.get.bind fun _ => .pure fun _ => trivial
  refine left.bind fun depth => ?_
  have calls : (callWithin depth).Decides s := callWithin_decides rules evaluated depth
  have steps := Statement.steps_decide rules evaluated calls body direct
  refine (Step.runAll_decides steps fun _ => .empty rfl).bind fun c => ?_
  split
  · refine Decides.get.bind fun m => (reportUncaught_decides _).bind fun _ => ?_
    exact .pure fun given => given.1.1.2
  · exact .pure And.right

/-- No throw may have happened. -/
theorem reportPossibleThrows_decides : Decides s P reportPossibleThrows fun _ => True := by
  have none : Decides s P (modifyGet fun m => (m.exits, m.dropExits) : Run (Array PossibleExit))
      fun exits => exits = #[] := by
    refine .modifyGet (fun _ => rfl) fun _ m hm => ⟨hm.now.exits, ?_⟩
    exact hm.tick ⟨hm.now.realm, hm.now.contexts, rfl⟩ rfl rfl rfl rfl rfl
  refine none.bind fun exits => .forM fun e he => .absurd ?_ fun given => ?_
  · exact .join .get (fun _ => reports_report _) (.pure _)
  · rw [given.2] at he
    cases he

theorem analyze_decides (rules : s.rules = .core) (evaluated : s.options.evaluateLoops = true)
    (unvisited : s.options.processUnvisitedCode = false) {p : Program}
    (direct : p.isIn .direct = true) : Decides s P (analyze [] p) Completion.IsHarmless := by
  refine watch_decides.bind fun _ => ?_
  refine Decides.bind (R := fun _ => True) (.pure fun _ => trivial) fun _ => ?_
  have program {Q : Prop} : Decides s Q p.evaluate Completion.IsHarmless :=
    (runProgram_decides rules evaluated direct).ruled rules .program p.span
  refine program.bind fun c => (Decides.setup _).bind fun visits => ?_
  have ends {Q : Prop} (harmless : Q → c.IsHarmless) :
      Decides s Q (do
        reportPossibleThrows
        return c) Completion.IsHarmless :=
    reportPossibleThrows_decides.bind fun _ => .pure fun given => harmless given.1
  split
  next visited =>
    -- functions that have not been visited are left alone
    refine .absurd (.bind (keeps_visitFunctions ..) fun _ => (ends (Q := False) nofun).keeps)
      fun given => ?_
    rw [given.2, unvisited] at visited
    cases visited
  · exact ends fun given => given.1.2

end Eval

/-- The machine in which a program begins is definite. -/
theorem Machine.definite_start : (Machine.start .core).Definite where
  now := ⟨Realm.definite_core.withLevel 0, List.forall_mem_singleton.2 rfl, rfl⟩
  before μ := by
    rintro (never | ⟨rfl, -⟩)
    · exact never.elim
    · exact ⟨Realm.definite_core.withLevel 0, List.forall_mem_singleton.2 rfl, rfl⟩
  events e he := nomatch he
  unknownConditions := rfl
  ambiguousBlocks := rfl
  passed _ _ _ := id

/-! ## Exact runs -/

/-- A moment at which no binding of an environment and no property holds an unknown value, no context
is in an ambiguous block or may have returned, and nothing may have been left. -/
structure Moment.Exact (μ : Moment) : Prop where
  bindings : ∀ e b name binding, (μ.realm.environment e).store = .own b →
    b.table.get? name = some binding → binding.value ≠ some .unknown
  properties : ∀ o name d, (μ.realm.object o).own? name = some d → d.content ≠ .unknown
  contexts : ∀ c ∈ μ.contexts.contexts, c.depth = 0 ∧ c.returnUnknown = false
  exits : μ.exits = #[]

/-- An event in no ambiguous block, and with no unknown value. -/
def Event.Exact : Event → Prop
  | .enter _ _ depth => depth = 0
  | .leave _ _ depth c => depth = 0 ∧ c.value ≠ some .unknown
  | .diagnostic _ => True

/-- A machine at the end of a run in which nothing was unknown, and nothing may or may not have
happened. -/
structure Machine.Exact (m : Machine) : Prop where
  now : m.moment.Exact
  before : ∀ μ, m.course μ μ → μ.Exact
  events : ∀ e ∈ m.events, e.Exact
  unknownConditions : m.unknownConditions = #[]
  ambiguousBlocks : m.ambiguousBlocks = #[]
  passed : ∀ r level r', ¬ m.history.passed r level r'

theorem Value.ne_unknown_of_isDefinite {v : Value} (h : v.isDefinite = true) : v ≠ .unknown := by
  rintro rfl
  cases h

theorem Completion.IsHarmless.value_ne {c : Completion} (h : c.IsHarmless) :
    c.value ≠ some .unknown := fun same => nomatch h _ same

/-- In a definite realm no property is unknown. -/
theorem Realm.Definite.content_ne {r : Realm} (h : r.Definite) {o : ObjectId} {name : String}
    {d : Descriptor} (own : (r.object o).own? name = some d) : d.content ≠ .unknown := by
  have definite : d.isDefinite = true := by
    by_cases same : o = globalObject
    · subst same
      exact (h.globals name d own).1
    · exact (h.object same).values name d own
  cases d with
  | data v w e c => exact Value.ne_unknown_of_isDefinite definite
  | accessor => cases definite

theorem Moment.Definite.exact {μ : Moment} (h : μ.Definite) : μ.Exact where
  bindings e b name binding store bound same :=
    nomatch (h.realm.environments e).own store name binding _ bound same
  properties _ _ _ own := h.realm.content_ne own
  contexts c hc := by
    have zero : c.depth + (if c.returnUnknown then 1 else 0) = 0 := h.contexts c hc
    cases returned : c.returnUnknown with
    | false =>
      rw [returned] at zero
      exact ⟨zero, rfl⟩
    | true =>
      rw [returned, if_pos rfl] at zero
      cases zero
  exits := h.exits

theorem Event.Definite.exact {e : Event} (h : e.Definite) : e.Exact := by
  cases e with
  | enter => exact h
  | leave => exact ⟨h.1, h.2.value_ne⟩
  | diagnostic => trivial

theorem Machine.Definite.exact {m : Machine} (h : m.Definite) : m.Exact where
  now := h.now.exact
  before μ hμ := (h.before μ hμ).exact
  events e he := (h.events e he).exact
  unknownConditions := h.unknownConditions
  ambiguousBlocks := h.ambiguousBlocks
  passed := h.passed

namespace Analyzer

variable {a : Analyzer} {p : Program}

theorem analyze_of_ok {c : Completion} {m : Machine}
    (run : Eval.analyze a.unknownGlobals p (a.setup p) (.start a.realm) = .ok c m) :
    a.analyze p = ⟨.ok c, m⟩ := by
  rw [setup] at run
  simp only [analyze, run]

theorem analyze_of_error {e : FatalError} {m : Machine}
    (run : Eval.analyze a.unknownGlobals p (a.setup p) (.start a.realm) = .error e m) :
    a.analyze p = ⟨.error e, m⟩ := by
  rw [setup] at run
  simp only [analyze, run]

/-- **Direct programs are analyzed exactly.** If nothing but uncaught exceptions is reported, then at
every moment of the run all bindings and properties are known, those of `arguments` objects among
them, no block is ambiguous and no exit is merely possible. No condition was unknown, and every
completion that is observed is known, as is the result. -/
theorem analyze_exact (catalogue : a.catalogue = .core) (rules : a.rules = .core)
    (globals : a.unknownGlobals = []) (evaluated : a.options.evaluateLoops = true)
    (unvisited : a.options.processUnvisitedCode = false) (direct : p.isIn .direct = true)
    (quiet : ∀ d ∈ (a.analyze p).machine.diagnostics, d.kind = .uncaught) :
    (a.analyze p).machine.Exact ∧
      ∀ c, (a.analyze p).result = .ok c → c.value ≠ some .unknown := by
  have realm : a.realm = Realm.core := by
    unfold Realm.core
    exact congrArg Realm.withObjects catalogue
  have decides : Decides (a.setup p) True (Eval.analyze [] p) Completion.IsHarmless :=
    analyze_decides rules evaluated unvisited direct
  have ends := decides.decides trivial _ Machine.definite_start
  rw [← realm, ← globals, Eval.after] at ends
  -- a machine is diagnosed by reports of another kind only
  have unreported {m : Machine} (quiet : ∀ d ∈ m.diagnostics, d.kind = .uncaught) :
      ¬ m.Diagnosed := by
    rintro ⟨d, hd, other⟩
    exact other (quiet d hd)
  cases run : Eval.analyze a.unknownGlobals p (a.setup p) (.start a.realm) with
  | ok c m =>
    rw [run] at ends
    rw [analyze_of_ok run] at quiet ⊢
    obtain ⟨definite, harmless⟩ := ends.resolve_left (unreported quiet)
    refine ⟨definite.exact, fun c' same => ?_⟩
    cases same
    exact (harmless c m rfl).value_ne
  | error e m =>
    rw [run] at ends
    rw [analyze_of_error run] at quiet ⊢
    obtain ⟨definite, -⟩ := ends.resolve_left (unreported quiet)
    exact ⟨definite.exact, fun c' same => by cases same⟩

/-- `var go = true; function not(b) { return !b; } while (go) go = not(go);
try { throw not(go); } catch (e) { var x = e; } throw x;` -/
def flipped : Program where
  span := default
  file := "flipped.js"
  body :=
    [.varDeclaration default [.mk default ⟨default, "go"⟩ (some (boolAt true))],
    .functionDeclaration (.mk default (some ⟨default, "not"⟩) [⟨default, "b"⟩] default
      [.returns default (some (.unary default .logicalNot (nameAt "b")))]),
    .whileLoop default (nameAt "go")
      (.expression default (.assignment default .assign (nameAt "go") (notOf "go"))),
    .tryCatch default (.mk default [.throws default (notOf "go")])
      (some (.mk default ⟨default, "e"⟩ (.mk default
        [.varDeclaration default [.mk default ⟨default, "x"⟩ (some (nameAt "e"))]])))
      none,
    .throws default (nameAt "x")]
where
  /-- The call of `not` with a variable. -/
  notOf (name : String) : Expression := .call default (nameAt "not") [nameAt name]

/-- The exception at the end is all that is reported. -/
theorem analyze_exact_flipped :
    let a : Analyzer := { observed := true }
    flipped.isIn .direct = true ∧
      (∀ d ∈ (a.analyze flipped).machine.diagnostics, d.kind = .uncaught) ∧
      (a.analyze flipped).machine.Exact ∧
      ∀ c, (a.analyze flipped).result = .ok c → c.value ≠ some .unknown := by
  intro a
  have direct : flipped.isIn .direct = true := by decide +kernel
  have quiet : ∀ d ∈ (a.analyze flipped).machine.diagnostics, d.kind = .uncaught := by
    decide +kernel
  exact ⟨direct, quiet, analyze_exact rfl rfl rfl rfl rfl direct quiet⟩

/-- `function f() { }` -/
def uncalled : Program where
  span := default
  file := "uncalled.js"
  body := [.functionDeclaration (.mk default (some ⟨default, "f"⟩) [] default [])]

/-- `var Function; if (Function()) { }` -/
def codeFromText : Program where
  span := default
  file := "code.js"
  body :=
    [.varDeclaration default [.mk default ⟨default, "Function"⟩ none],
    .branch default (.call default (nameAt "Function") []) (.block (.mk default [])) none]

/-- A visit to a function enters an ambiguous block, and so does the test of code that is made from
text. Neither is reported. -/
theorem analyze_inexact :
    let visiting : Analyzer := { options := { processUnvisitedCode := true } }
    (uncalled.isIn .direct = true ∧ (visiting.analyze uncalled).machine.diagnostics = #[] ∧
        (visiting.analyze uncalled).machine.ambiguousBlocks.size = 1) ∧
      (analyze {} codeFromText).machine.diagnostics = #[] ∧
        (analyze {} codeFromText).machine.unknownConditions.size = 1 ∧
        (analyze {} codeFromText).machine.ambiguousBlocks.size = 1 := by
  decide +kernel

end Analyzer

end AbstractScript
