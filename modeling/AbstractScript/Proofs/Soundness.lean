import AbstractScript.Proofs.CoreRun
import AbstractScript.Proofs.Keeps

/-!
# Soundness on the loop-free core

An analysis in which some globals are unknown, against a run in which they have primitive values. A
global variable that the analysis leaves with a known value is left so by the run, and an exception
that the run does not catch is reported by the analysis. Both hold as long as the analysis has not
kept an abrupt completion of the first blocks of a `try` although the last block may have exited
otherwise (`History.overtaken`); if it has, both can fail.
-/
namespace AbstractScript

open Realm

/-- True for a program of the core whose names are declared or global. -/
def Program.isCore (p : Program) (globals : List String) : Bool :=
  bodyCore (varNames p.body ++ globals) p.body

namespace Analysis

/-- True if the run ended with a throw. -/
def throws (b : Analysis) : Bool :=
  match b.result with
  | .ok c => c.isThrow
  | .error _ => false

theorem throws_of_ok {b : Analysis} {c : Completion} (h : b.result = .ok c) :
    b.throws = c.isThrow := by
  rw [throws, h]

end Analysis

namespace Analyzer

/-- What a run with a program is given. -/
def setup (a : Analyzer) (p : Program) : Setup :=
  { options := a.options, rules := a.rules, file := p.file, observed := a.observed }

/-- Runs a program in which some globals have values from outside. -/
def analyzeWith (a : Analyzer) (globals : List (String × Value)) (p : Program) : Analysis :=
  match Eval.analyzeWith globals p (a.setup p) (.start a.realm) with
  | .ok c machine => ⟨.ok c, machine⟩
  | .error e machine => ⟨.error e, machine⟩

/-- An analysis is a run in which the values from outside are unknown. -/
theorem analyze_eq (a : Analyzer) (p : Program) :
    a.analyze p = a.analyzeWith (a.unknownGlobals.map (·, .unknown)) p := by
  rw [analyze, analyzeWith, Eval.analyze_eq]
  rfl

variable {a : Analyzer} {p : Program} {globals : List (String × Value)}

theorem analyzeWith_of_ok {c : Completion} {m : Machine}
    (h : Eval.analyzeWith globals p (a.setup p) (.start a.realm) = .ok c m) :
    a.analyzeWith globals p = ⟨.ok c, m⟩ := by
  rw [analyzeWith, h]

/-- How an analysis and a run of a program of the core end. -/
structure EndsLike (analysis run : Analysis) (c c' : Completion) (σ τ : Store) : Prop where
  left : analysis.result = .ok c
  right : run.result = .ok c'
  leftEnd : EndsIn analysis.machine σ
  rightEnd : EndsIn run.machine τ
  outcome : ¬ analysis.machine.history.overtaken → ∃ mark, Effect.Outcome mark c σ c' τ

theorem exists_endsLike (rules : a.rules = .core) (catalogue : a.catalogue = .core)
    (core : p.isCore a.unknownGlobals = true) (names : globals.map Prod.fst = a.unknownGlobals)
    (values : ∀ g ∈ globals, g.2.IsPrimitive) :
    ∃ c c' σ τ, EndsLike (a.analyze p) (a.analyzeWith globals p) c c' σ τ := by
  have realm : a.realm = Realm.core := by
    unfold Realm.core
    exact congrArg Realm.withObjects catalogue
  obtain ⟨d, simulates, runs⟩ := exists_analyzeWith (u := a.setup p) rules core
  have unknown : a.unknownGlobals.map (fun name => (name, Value.unknown)) =
      globals.map fun g => (g.1, Value.unknown) := by
    rw [← names, List.map_map]
    rfl
  have sameNames : (globals.map fun g => (g.1, Value.unknown)).map Prod.fst = a.unknownGlobals := by
    rw [← names, List.map_map]
    rfl
  -- the run with unknown globals is one of the runs with given values
  obtain ⟨m, left, leftEnd⟩ := runs _ sameNames (by
    rw [List.forall_mem_map]
    exact fun _ _ => rfl)
  obtain ⟨n, right, rightEnd⟩ := runs globals names fun g hg => (values g hg).isKnown.plain
  rw [← realm] at left right
  rw [analyze_eq, unknown, analyzeWith_of_ok left, analyzeWith_of_ok right]
  refine ⟨_, _, _, _, rfl, rfl, leftEnd, rightEnd, fun open' => ⟨_, simulates _ _ ?_ ?_⟩⟩
  · exact (Store.covers_initial.defineAll fun g hg => (values g hg).isKnown).declareAll _
  · exact fun later => open' (leftEnd.overtaken.2 later)

theorem global?_of_endsIn {b : Analysis} {σ : Store} (h : EndsIn b.machine σ) (name : String) :
    b.global? name = σ.globals name := by
  rw [← h.globals, Analysis.global?]
  congr 1

/-- A run of a program of the core gives a completion. -/
theorem exists_result_analyzeWith (rules : a.rules = .core) (catalogue : a.catalogue = .core)
    (core : p.isCore a.unknownGlobals = true) (names : globals.map Prod.fst = a.unknownGlobals)
    (values : ∀ g ∈ globals, g.2.IsPrimitive) :
    ∃ c, (a.analyzeWith globals p).result = .ok c := by
  obtain ⟨c, c', σ, τ, ends⟩ := exists_endsLike rules catalogue core names values
  exact ⟨c', ends.right⟩

/-! ## Programs with an unknown condition -/

/-- An analyzer with one unknown global. -/
def withUnknown : Analyzer := { unknownGlobals := ["u"] }

/-- A name as an expression. -/
def nameAt (name : String) : Expression := .identifier ⟨default, name⟩

/-- The literal `true` or `false`. -/
def boolAt (b : Bool) : Expression := .literal default (.bool b)

/-- Leaves a labelled statement if the unknown global is true. -/
def breakIfUnknown (label : String) : Statement :=
  .branch default (nameAt "u") (.breaks default (some ⟨default, label⟩)) none

/-- Throws if the unknown global is true. -/
def throwIfUnknown : Statement := .branch default (nameAt "u") (.throws default (boolAt true)) none

/-- A function declaration without parameters. -/
def functionAt (name : String) (body : List Statement) : Statement :=
  .functionDeclaration (.mk default (some ⟨default, name⟩) [] default body)

/-- The call of a function without arguments. -/
def callOf (name : String) : Expression := .call default (nameAt name) []

/-- The assignment of a value to a variable. -/
def assignAt (name : String) (x : Expression) : Expression :=
  .assignment default .assign (nameAt name) x

/-- The machine of an analysis after the declarations and some statements of a program. -/
def machineAfter (a : Analyzer) (p : Program) (statements : List Statement) : Machine :=
  Eval.after (do
    a.unknownGlobals.forM Eval.defineUnknown
    Eval.enterProgram p.body
    Step.runAll none (Statement.steps (Eval.callWithin 1) statements)) (a.setup p) (.start a.realm)

/-- A `try` whose last block leaves the statement labelled `L` if the unknown global is true:
`L: { try { s } finally { if (u) break L; } }`. -/
def overtakenBy (s : Statement) : Statement :=
  .labeled default ⟨default, "L"⟩ (.block (.mk default
    [.tryCatch default (.mk default [s]) none (some (.mk default [breakIfUnknown "L"]))]))

/-! ## Values of global variables -/

/-- A global variable that an analysis leaves with a known value is left with this value by every
run in which the unknown globals have primitive values. -/
theorem known_global_agrees (rules : a.rules = .core) (catalogue : a.catalogue = .core)
    (core : p.isCore a.unknownGlobals = true) (names : globals.map Prod.fst = a.unknownGlobals)
    (values : ∀ g ∈ globals, g.2.IsPrimitive)
    (open' : ¬ (a.analyze p).machine.history.overtaken) {name : String} {v : Value}
    (found : (a.analyze p).global? name = some v) (known : v ≠ .unknown) :
    (a.analyzeWith globals p).global? name = some v := by
  obtain ⟨c, c', σ, τ, ends⟩ := exists_endsLike rules catalogue core names values
  obtain ⟨mark, outcome⟩ := ends.outcome open'
  rw [global?_of_endsIn ends.leftEnd] at found
  rw [global?_of_endsIn ends.rightEnd]
  rcases outcome.covers.globals name with unknown | same
  · rw [unknown] at found
    exact absurd (Option.some.inj found).symm known
  · exact same ▸ found

/-- `var x = true, y; try { if (u) throw x; } catch (e) { y = e; }` -/
def guardedThrow : Program where
  span := default
  file := "guarded.js"
  body :=
    [.varDeclaration default
      [.mk default ⟨default, "x"⟩ (some (boolAt true)), .mk default ⟨default, "y"⟩ none],
    .tryCatch default
      (.mk default [.branch default (nameAt "u") (.throws default (nameAt "x")) none])
      (some (.mk default ⟨default, "e"⟩ (.mk default
        [.expression default (.assignment default .assign (nameAt "y") (nameAt "e"))])))
      none]

/-- The run leaves `x` as the analysis does, which knows nothing of `y`. -/
theorem known_global_agrees_guardedThrow :
    (withUnknown.analyze guardedThrow).global? "y" = some .unknown ∧
      (withUnknown.analyze guardedThrow).global? "x" = some (.bool true) ∧
      (withUnknown.analyzeWith [("u", .bool true)] guardedThrow).global? "x" =
        some (.bool true) := by
  have found : (withUnknown.analyze guardedThrow).global? "x" = some (.bool true) := by
    decide +kernel
  refine ⟨by decide +kernel, found, ?_⟩
  have values : ∀ g ∈ [("u", Value.bool true)], g.2.IsPrimitive :=
    List.forall_mem_singleton.2 ⟨rfl, rfl⟩
  exact known_global_agrees rfl rfl (by decide +kernel) rfl values (by decide +kernel) found nofun

/-- `var x = true; L: { try { throw true; } finally { if (u) break L; } } x = false;` -/
def overtakenThrow : Program where
  span := default
  file := "overtaken.js"
  body :=
    [.varDeclaration default [.mk default ⟨default, "x"⟩ (some (boolAt true))],
    overtakenBy (.throws default (boolAt true)),
    .expression default (.assignment default .assign (nameAt "x") (boolAt false))]

/-- The analysis takes the throw for granted, so that it misses the assignment after the label. -/
theorem known_global_disagrees_overtakenThrow :
    overtakenThrow.isCore withUnknown.unknownGlobals = true ∧
      (withUnknown.analyze overtakenThrow).machine.history.overtaken = true ∧
      (withUnknown.analyze overtakenThrow).global? "x" = some (.bool true) ∧
      (withUnknown.analyzeWith [("u", .bool true)] overtakenThrow).global? "x" =
        some (.bool false) := by
  decide +kernel

/-! ## Uncaught throws -/

/-- If a run in which the unknown globals have primitive values ends with a throw, then the analysis
ends with a throw or reports one that may be uncaught. -/
theorem uncaught_throw_reported (rules : a.rules = .core) (catalogue : a.catalogue = .core)
    (core : p.isCore a.unknownGlobals = true) (names : globals.map Prod.fst = a.unknownGlobals)
    (values : ∀ g ∈ globals, g.2.IsPrimitive)
    (open' : ¬ (a.analyze p).machine.history.overtaken)
    (throws : (a.analyzeWith globals p).throws = true) :
    (a.analyze p).throws = true ∨
      ∃ d ∈ (a.analyze p).machine.diagnostics, d.kind = .possiblyUncaught := by
  obtain ⟨c, c', σ, τ, ends⟩ := exists_endsLike rules catalogue core names values
  obtain ⟨mark, outcome⟩ := ends.outcome open'
  rw [Analysis.throws_of_ok ends.right] at throws
  by_cases abrupt : c.isAbrupt = true
  · have matched := outcome.abrupt abrupt
    rw [Analysis.throws_of_ok ends.left]
    exact .inl (matched.isThrow ▸ throws)
  · -- the throw is one of the possible exits
    rcases outcome.normal (Completion.not_isAbrupt_iff.1 abrupt) with normal | ⟨x, listed, matched⟩
    · have kind : c'.kind = .normal := of_decide_eq_true normal
      rw [Completion.isThrow, kind] at throws
      cases throws
    · exact .inr (ends.leftEnd.throws x (List.mem_of_mem_drop listed) (matched.isThrow ▸ throws))

/-- `if (u) throw true;` -/
def unguardedThrow : Program where
  span := default
  file := "unguarded.js"
  body := [.branch default (nameAt "u") (.throws default (boolAt true)) none]

/-- The analysis ends normally and reports the throw that ends the run. -/
theorem uncaught_throw_reported_unguardedThrow :
    (withUnknown.analyzeWith [("u", .bool true)] unguardedThrow).throws = true ∧
      (withUnknown.analyze unguardedThrow).throws = false ∧
      ∃ d ∈ (withUnknown.analyze unguardedThrow).machine.diagnostics,
        d.kind = .possiblyUncaught := by
  have throws : (withUnknown.analyzeWith [("u", .bool true)] unguardedThrow).throws = true := by
    decide +kernel
  have normal : (withUnknown.analyze unguardedThrow).throws = false := by
    decide +kernel
  have values : ∀ g ∈ [("u", Value.bool true)], g.2.IsPrimitive :=
    List.forall_mem_singleton.2 ⟨rfl, rfl⟩
  refine ⟨throws, normal, ?_⟩
  rcases uncaught_throw_reported rfl rfl (by decide +kernel) rfl values (by decide +kernel) throws
    with certain | possible
  · rw [normal] at certain
    cases certain
  · exact possible

/-- `M: { L: { try { break M; } finally { if (u) break L; } } throw true; }` -/
def overtakenBreak : Program where
  span := default
  file := "overtaken.js"
  body :=
    [.labeled default ⟨default, "M"⟩ (.block (.mk default
      [overtakenBy (.breaks default (some ⟨default, "M"⟩)), .throws default (boolAt true)]))]

/-- The analysis takes the break for granted, so that it misses the throw after the inner label. -/
theorem uncaught_throw_unreported_overtakenBreak :
    overtakenBreak.isCore withUnknown.unknownGlobals = true ∧
      (withUnknown.analyze overtakenBreak).machine.history.overtaken = true ∧
      (withUnknown.analyzeWith [("u", .bool true)] overtakenBreak).throws = true ∧
      (withUnknown.analyze overtakenBreak).throws = false ∧
      ∀ d ∈ (withUnknown.analyze overtakenBreak).machine.diagnostics,
        d.kind ≠ .possiblyUncaught := by
  decide +kernel

end Analyzer

end AbstractScript
