import AbstractScript.Proofs.Beginning
import AbstractScript.Proofs.FrameLaw
import AbstractScript.Proofs.Soundness
import Mathlib.Logic.Hydra
import Mathlib.Order.WellFoundedSet

/-!
# Visits to functions that were never called

After a program its functions are visited in order of creation. A visit may create further
functions, which are visited in their turn, so that no number bounds the visits in advance. What
bounds them is the code: of the functions still to be visited, each visit replaces one by functions
whose code it *spawns* (`Eval.Spawns`). If no code of the program spawns itself, not even through
others, this is a descent in the order of multisets, and the visits end (`Analyzer.visits_end`).
-/
namespace AbstractScript

open Eval

/-! ## Codes -/

/-- The code of an object that is a function of the program. -/
def Realm.code? (r : Realm) (f : ObjectId) : Option FunctionCode :=
  match (r.object f).callable with
  | some (.script closure) => some closure.code
  | _ => none

theorem Realm.code?_of_callable {r r' : Realm} {f : ObjectId}
    (h : (r'.object f).callable = (r.object f).callable) : r'.code? f = r.code? f := by
  rw [code?, code?, h]

/-- A function of the program keeps its code. -/
theorem Realm.Grows.code? {r r' : Realm} (h : r.Grows r') {f : ObjectId} (function : r.IsScript f) :
    r'.code? f = r.code? f := Realm.code?_of_callable (h.object f function.1).callable

theorem Realm.IsScript.exists_code {r : Realm} {f : ObjectId} (h : r.IsScript f) :
    ∃ code, r.code? f = some code := by
  obtain ⟨-, closure, function⟩ := h
  exact ⟨closure.code, by rw [Realm.code?, function]⟩

namespace Machine

/-- What is listed as a function of the program is one. -/
def ScriptsListed (m : Machine) : Prop := ∀ f ∈ m.scripts, m.realm.IsScript f

theorem ScriptsListed.after {m n : Machine} (h : m.ScriptsListed) (steady : m.Steady n) :
    n.ScriptsListed := by
  intro f hf
  rcases steady.logs.added f hf with earlier | new
  · exact (h f earlier).grow steady.grows
  · exact new

/-- The codes of the functions from an index on. -/
def codesFrom (m : Machine) (index : Nat) : Multiset FunctionCode :=
  ((m.scripts.toList.drop index).filterMap m.realm.code? : List FunctionCode)

/-- The codes of the functions that were created since a machine. -/
def codesSince (m n : Machine) : Multiset FunctionCode := n.codesFrom m.scripts.size

/-- The function at an index is the first of those from there on. -/
theorem codesFrom_of_found {m : Machine} {index : Nat} {f : ObjectId} {code : FunctionCode}
    (found : m.scripts[index]? = some f) (has : m.realm.code? f = some code) :
    m.codesFrom index = code ::ₘ m.codesFrom (index + 1) := by
  obtain ⟨lt, rfl⟩ := Array.getElem?_eq_some_iff.1 found
  have split : m.scripts.toList.drop index =
      m.scripts[index] :: m.scripts.toList.drop (index + 1) := by
    rw [List.drop_eq_getElem_cons (by simpa using lt), Array.getElem_toList]
  rw [codesFrom, split, List.filterMap_cons, has]
  rfl

/-- Functions that are created later come after those that there are. -/
theorem codesFrom_add {m n : Machine} (steady : m.Steady n) (listed : m.ScriptsListed)
    {index : Nat} (le : index ≤ m.scripts.size) :
    n.codesFrom index = m.codesFrom index + m.codesSince n := by
  obtain ⟨new, more⟩ := steady.logs.scripts
  have size : m.scripts.toList.length = m.scripts.size := Array.length_toList
  have old : (m.scripts.toList.drop index).filterMap n.realm.code? =
      (m.scripts.toList.drop index).filterMap m.realm.code? := by
    refine List.filterMap_congr fun f hf => steady.grows.code? (listed f ?_)
    exact Array.mem_toList_iff.1 (List.mem_of_mem_drop hf)
  rw [codesSince, codesFrom, codesFrom, codesFrom, ← more, List.drop_append_of_le_length (by omega),
    List.filterMap_append, old, ← size, List.drop_left]
  rfl

end Machine

/-! ## Visits -/

namespace Eval

variable {s : Setup} {m k n : Machine}

/-- Some visits followed by others. -/
theorem visitFunctions_add (first steps index : Nat) :
    visitFunctions (first + steps) index s m =
      (visitFunctions first index >>= fun _ => visitFunctions steps (index + first)) s m := by
  induction first generalizing index m with
  | zero => rw [Nat.zero_add, Nat.add_zero, visitFunctions, bind_apply, pure_apply]
  | succ first ih =>
    rw [Nat.succ_add, visitFunctions, visitFunctions, bind_apply, bind_apply, bind_apply, get_apply]
    dsimp only
    cases found : m.scripts[index]? with
    | none =>
      -- there is no function at this index, and none after it
      have past : m.scripts[index + (first + 1)]? = none := by
        rw [Array.getElem?_eq_none_iff] at found ⊢
        omega
      cases steps with
      | zero => rfl
      | succ steps => simp only [visitFunctions, bind_apply, get_apply, past, pure_apply]
    | some f =>
      simp only [bind_apply]
      cases visitFunction f s m with
      | ok _ k =>
        dsimp only
        rw [ih, bind_apply, show index + 1 + first = index + (first + 1) by omega]
      | error e k => rfl

/-- One visit. -/
theorem visitFunctions_one {index : Nat} {f : ObjectId} (found : m.scripts[index]? = some f) :
    visitFunctions 1 index s m = visitFunction f s m := by
  simp only [visitFunctions, bind_apply, get_apply, found]
  cases visitFunction f s m <;> rfl

/-- The visits from an index on end within a number of them: afterwards no function is left that
has not had its turn, unless a fatal error has ended the visits. -/
def VisitedWithin (s : Setup) (steps index : Nat) (m : Machine) : Prop :=
  ∀ n, visitFunctions steps index s m = .ok () n → n.scripts.size ≤ index + steps

/-- When the visits have ended, more of them change nothing. -/
theorem VisitedWithin.stays {steps index : Nat} (h : VisitedWithin s steps index m) {more : Nat}
    (le : steps ≤ more) : visitFunctions more index s m = visitFunctions steps index s m := by
  obtain ⟨extra, rfl⟩ := Nat.exists_eq_add_of_le le
  rw [visitFunctions_add, bind_apply]
  cases run : visitFunctions steps index s m with
  | error e n => rfl
  | ok _ n =>
    have past : n.scripts[index + steps]? = none := Array.getElem?_eq_none_iff.2 (h n run)
    cases extra with
    | zero => rfl
    | succ extra => simp only [visitFunctions, bind_apply, get_apply, past, pure_apply]

/-- In the visits that begin in a machine, a function of some code is visited, and its visit creates
a function of another code. -/
def Spawns (s : Setup) (m : Machine) (code code' : FunctionCode) : Prop :=
  ∃ steps k n f, visitFunctions steps 0 s m = .ok () k ∧ k.scripts[steps]? = some f ∧
    k.realm.code? f = some code ∧ visitFunction f s k = .ok () n ∧ code' ∈ k.codesSince n

/-- The codes that one visit relates: that of the visited function with those of the functions that
the visit creates. -/
def spawned (s : Setup) (m : Machine) (steps : Nat) : List (FunctionCode × FunctionCode) :=
  match visitFunctions steps 0 s m with
  | .error .. => []
  | .ok _ k =>
    match k.scripts[steps]? with
    | none => []
    | some f =>
      match k.realm.code? f, visitFunction f s k with
      | some code, .ok _ n =>
        ((n.scripts.toList.drop k.scripts.size).filterMap n.realm.code?).map (code, ·)
      | _, _ => []

/-- What a code spawns can be computed visit by visit. -/
theorem Spawns.exists_mem {code code' : FunctionCode} (h : Spawns s m code code') :
    ∃ steps, (code, code') ∈ spawned s m steps := by
  obtain ⟨steps, k, n, f, run, found, has, visit, new⟩ := h
  refine ⟨steps, ?_⟩
  simp only [spawned, run, found, has, visit]
  exact List.mem_map_of_mem (Multiset.mem_coe.1 new)

/-- Visits after the last one relate no codes. -/
theorem VisitedWithin.spawned_eq_nil {limit : Nat} (h : VisitedWithin s limit 0 m) {steps : Nat}
    (le : limit ≤ steps) : spawned s m steps = [] := by
  rw [spawned, h.stays le]
  cases run : visitFunctions limit 0 s m with
  | error e k => rfl
  | ok _ k =>
    have past : k.scripts[steps]? = none := by
      have few : k.scripts.size ≤ 0 + limit := h k run
      exact Array.getElem?_eq_none_iff.2 (by omega)
    simp only [past]

theorem steady_visitFunctions (steps index : Nat) :
    Keeps Machine.Steady (visitFunctions steps index) := keeps_visitFunctions steps index

theorem steady_visitFunction (f : ObjectId) : Keeps Machine.Steady (visitFunction f) :=
  keeps_visitFunction callWithin_keeps f

/-- Visits that spawn in a well-founded way end. -/
theorem exists_visitedWithin (descends : WellFounded fun code' code => Spawns s m code code')
    (listed : m.ScriptsListed) : ∃ steps, VisitedWithin s steps 0 m := by
  -- after some visits the induction is on the codes of the functions that are left
  suffices rest : ∀ codes : Multiset FunctionCode, ∀ steps k,
      visitFunctions steps 0 s m = .ok () k → k.codesFrom steps = codes →
        ∃ more, VisitedWithin s more steps k by
    obtain ⟨steps, h⟩ := rest _ 0 m rfl rfl
    exact ⟨steps, h⟩
  intro codes
  induction codes using descends.cutExpand.induction with
  | _ codes ih
  rintro steps k run rfl
  cases found : k.scripts[steps]? with
  | none =>
    refine ⟨0, fun n same => ?_⟩
    cases same
    exact Array.getElem?_eq_none_iff.1 found
  | some f =>
    have lt : steps < k.scripts.size := (Array.getElem?_eq_some_iff.1 found).1
    have before : m.Steady k := (steady_visitFunctions steps 0).of_ok run
    have present : k.ScriptsListed := listed.after before
    obtain ⟨code, has⟩ := (present f (Array.mem_of_getElem? found)).exists_code
    cases visit : visitFunction f s k with
    | error e n =>
      refine ⟨1, fun n' run' => ?_⟩
      rw [visitFunctions_one found, visit] at run'
      cases run'
    | ok _ n =>
      have steady : k.Steady n := (steady_visitFunction f).of_ok visit
      have run' : visitFunctions (steps + 1) 0 s m = .ok () n := by
        rw [visitFunctions_add, bind_apply, run]
        dsimp only
        rw [Nat.zero_add, visitFunctions_one found, visit]
      -- the visited function makes way for the created ones, whose codes it spawns
      have less : Relation.CutExpand (fun code' code => Spawns s m code code')
          (n.codesFrom (steps + 1)) (k.codesFrom steps) := by
        refine ⟨k.codesSince n, code, fun code' new => ⟨steps, k, n, f, run, found, has, visit, new⟩,
          ?_⟩
        have le : steps + 1 ≤ k.scripts.size := lt
        rw [Machine.codesFrom_add steady present le, Machine.codesFrom_of_found found has,
          ← Multiset.singleton_add, Multiset.add_comm, Multiset.add_assoc]
      obtain ⟨more, h⟩ := ih _ less (steps + 1) n run' rfl
      refine ⟨more + 1, fun n' run'' => ?_⟩
      rw [Nat.add_comm more 1, visitFunctions_add, bind_apply, visitFunctions_one found, visit]
        at run''
      have bound : n'.scripts.size ≤ steps + 1 + more := h n' run''
      omega

end Eval

/-! ## Programs -/

namespace Eval

/-- What is evaluated before the visits: the unknown globals are bound, and the program runs. -/
def evaluateMain (unknownGlobals : List String) (p : Program) : Run Completion := do
  watch
  unknownGlobals.forM defineUnknown
  p.evaluate

/-- An analysis is the evaluation of the program, the visits if they are asked for, and reports. -/
theorem analyze_eq_main (unknownGlobals : List String) (p : Program) :
    analyze unknownGlobals p = do
      let c ← evaluateMain unknownGlobals p
      if ← setup (·.options.processUnvisitedCode) then visitFunctions visitLimit 0
      reportPossibleThrows
      return c := by
  simp only [analyze, evaluateMain, bind_assoc]

theorem steady_evaluateMain (unknownGlobals : List String) (p : Program) :
    Keeps Machine.Steady (evaluateMain unknownGlobals p) :=
  .bind steady_watch fun _ =>
    .bind (.forM fun _ _ => (isQuiet_defineUnknown _).steady) fun _ => p.steady_evaluate

end Eval

/-! ### The code that is visited -/

namespace Eval

variable {L : Law} {w : World}

theorem lawful_evaluateMain (unknownGlobals : List String) {p : Program}
    (code : L.code = (· ∈ p.functions)) (h : w.Holds p.functions) :
    (evaluateMain unknownGlobals p).Lawful L
      (bodyCost L.loops (outerCost L p.functions w) p.body + 1) w := by
  refine .bind (.of_unmoved watch_unmoved) fun first _ _ => ?_
  refine .bind (.forM (Unlocated.holds _ _) fun _ name _ _ => lawful_defineUnknown name) ?_
  intro _ more _ _
  have grows := first.trans more
  rw [← outerCost_grow grows]
  exact lawful_ruled .program p.span (lawful_runProgram code p.functions_closed (grows.lift h))

end Eval

/-- In a valid machine the functions of the program have code that may be evaluated. -/
theorem Machine.Valid.code {L : Law} {m : Machine} (h : m.Valid L) {f : ObjectId}
    {code : FunctionCode} (has : m.realm.code? f = some code) : L.code code := by
  rw [Realm.code?] at has
  split at has
  next closure function =>
    cases has
    have held : (m.world L).Holds (Callable.script closure) :=
      (h.object f).callable.of_some function
    exact held.1
  next => cases has

namespace Analyzer

variable {a : Analyzer} {p : Program} {c : Completion} {m : Machine}

/-- The evaluation of a program leaves a valid machine. -/
theorem valid_main (main : evaluateMain a.unknownGlobals p (a.setup p) (.start a.realm) = .ok c m) :
    m.Valid (a.law p False) := by
  have valid := Machine.valid_start (a.sound_start p)
  have lawful := (lawful_evaluateMain a.unknownGlobals rfl fun _ => id).at_machine valid
  exact (lawful.reaches_ok main).valid

/-- What spawns and what is spawned is written in the program. -/
theorem mem_functions_of_spawns (valid : m.Valid (a.law p False)) {code code' : FunctionCode}
    (h : Spawns (a.setup p) m code code') : code ∈ p.functions ∧ code' ∈ p.functions := by
  obtain ⟨steps, k, n, f, run, found, has, visit, new⟩ := h
  have visits := (lawful_visitFunctions rfl p.functions_closed steps 0).at_machine valid
  have before : k.Valid (a.law p False) := (visits.reaches_ok run).valid
  refine ⟨before.code has, ?_⟩
  -- the visit is the first of the visits from the index on
  have one : visitFunctions (steps + 1) 0 (a.setup p) m = .ok () n := by
    rw [visitFunctions_add, bind_apply, run]
    dsimp only
    rw [Nat.zero_add, visitFunctions_one found, visit]
  have more := (lawful_visitFunctions rfl p.functions_closed (steps + 1) 0).at_machine valid
  have after : n.Valid (a.law p False) := (more.reaches_ok one).valid
  obtain ⟨g, -, given⟩ := List.mem_filterMap.1 (Multiset.mem_coe.1 new)
  exact after.code given

/-- **The visits end.** When the evaluation of a program has ended, and no code of the program
spawns itself in the visits that follow, then after finitely many visits no function is left to be
visited, also none of those that the visits have created, and more visits change nothing. -/
theorem visits_end (main : evaluateMain a.unknownGlobals p (a.setup p) (.start a.realm) = .ok c m)
    (acyclic : ∀ code, ¬ Relation.TransGen (Spawns (a.setup p) m) code code) :
    ∃ steps, VisitedWithin (a.setup p) steps 0 m ∧
      ∀ more, steps ≤ more →
        visitFunctions more 0 (a.setup p) m = visitFunctions steps 0 (a.setup p) m := by
  let spawned (code' code : FunctionCode) : Prop :=
    Relation.TransGen (Spawns (a.setup p) m) code code'
  have written {code code' : FunctionCode} (h : Spawns (a.setup p) m code code') :=
    mem_functions_of_spawns (valid_main main) h
  -- on the finitely many codes of the program an acyclic relation is well-founded
  have order : IsStrictOrder FunctionCode spawned :=
    { irrefl := acyclic, trans := fun _ _ _ h h' => h'.trans h }
  have founded : {code | code ∈ p.functions}.WellFoundedOn spawned :=
    p.functions.finite_toSet.wellFoundedOn
  have descends : WellFounded fun code' code => Spawns (a.setup p) m code code' :=
    Subrelation.wf (fun h => ⟨.single h, (written h).2, (written h).1⟩)
      (Set.wellFoundedOn_iff.1 founded)
  have listed : m.ScriptsListed := by
    have start : (Machine.start a.realm).ScriptsListed := fun f hf => nomatch hf
    exact start.after ((steady_evaluateMain _ p).of_ok main)
  obtain ⟨steps, visited⟩ := exists_visitedWithin descends listed
  exact ⟨steps, visited, fun more le => visited.stays le⟩

/-- The program `(function f() { (function () {}); });`. -/
def nested : Program where
  span := default
  file := "test.js"
  body :=
    let inner : FunctionCode := .mk default none [] default []
    [.expression default (.function
      (.mk default (some ⟨default, "f"⟩) [] default [.expression default (.function inner)]))]

/-- True if two visits are enough, and if in them a function with a name creates functions without
one. -/
def endsAfterTwo (s : Setup) (m : Machine) : Bool :=
  match visitFunctions 2 0 s m with
  | .error .. => false
  | .ok _ n => decide (n.scripts.size ≤ 2) && (List.range 2).all fun steps =>
    (spawned s m steps).all fun codes => codes.1.id.isSome && !codes.2.id.isSome

theorem spawns_of_endsAfterTwo {s : Setup} (h : endsAfterTwo s m = true) {code code' : FunctionCode}
    (spawns : Spawns s m code code') : code.id.isSome = true ∧ code'.id.isSome = false := by
  rw [endsAfterTwo] at h
  split at h
  next => cases h
  next n run =>
    rw [Bool.and_eq_true, decide_eq_true_iff, List.all_eq_true] at h
    have visited : VisitedWithin s 2 0 m := by
      intro n' run'
      rw [run] at run'
      cases run'
      exact h.1
    obtain ⟨steps, mem⟩ := spawns.exists_mem
    by_cases early : steps < 2
    · have named := List.all_eq_true.1 (h.2 steps (List.mem_range.2 early)) _ mem
      simpa using named
    · rw [visited.spawned_eq_nil (by omega)] at mem
      cases mem

theorem checked_nested :
    let a : Analyzer := { options := { processUnvisitedCode := true } }
    (match evaluateMain a.unknownGlobals nested (a.setup nested) (.start a.realm) with
      | .ok _ m => endsAfterTwo (a.setup nested) m
      | .error .. => false) = true := by
  decide +kernel

theorem exists_main_nested :
    let a : Analyzer := { options := { processUnvisitedCode := true } }
    ∃ c m, evaluateMain a.unknownGlobals nested (a.setup nested) (.start a.realm) = .ok c m ∧
      endsAfterTwo (a.setup nested) m = true := by
  have checked := checked_nested
  dsimp only at checked ⊢
  split at checked
  next c m main => exact ⟨c, m, main, checked⟩
  next => cases checked

/-- The visit of `f` creates a function, whose visit creates none. -/
theorem visits_end_nested :
    let a : Analyzer := { options := { processUnvisitedCode := true } }
    ∃ c m, evaluateMain a.unknownGlobals nested (a.setup nested) (.start a.realm) = .ok c m ∧
      (∀ code, ¬ Relation.TransGen (Spawns (a.setup nested) m) code code) ∧
      ∃ steps, VisitedWithin (a.setup nested) steps 0 m ∧
        ∀ more, steps ≤ more → visitFunctions more 0 (a.setup nested) m =
          visitFunctions steps 0 (a.setup nested) m := by
  intro a
  obtain ⟨c, m, main, checked⟩ := exists_main_nested
  have acyclic (code : FunctionCode) :
      ¬ Relation.TransGen (Spawns (a.setup nested) m) code code := by
    intro cycle
    -- on a cycle a code would have a name and none
    obtain ⟨first, begins, -⟩ := Relation.TransGen.head'_iff.1 cycle
    obtain ⟨last, -, ends⟩ := Relation.TransGen.tail'_iff.1 cycle
    have named := (spawns_of_endsAfterTwo checked begins).1
    have unnamed := (spawns_of_endsAfterTwo checked ends).2
    rw [named] at unnamed
    cases unnamed
  exact ⟨c, m, main, acyclic, visits_end main acyclic⟩

end Analyzer

end AbstractScript
