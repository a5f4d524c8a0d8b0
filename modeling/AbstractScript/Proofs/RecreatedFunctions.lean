import AbstractScript.Proofs.Leading
import AbstractScript.Proofs.UnvisitedFunctions

/-!
# A function that every visit creates again

A visited function may call a function that creates another one with the code of the visited
function. The new one was never called either and is visited in its turn, so that the visits do not
end (`Recreating.visits_go_on`): there is always one function left.
-/
namespace AbstractScript

open Eval

/-! ## Nested scopes -/

/-- A name that neither an environment nor the one around it binds, but the next one does. -/
theorem Realm.resolve_outermost {r : Realm} {i j e : EnvId} {name : String}
    (inner : r.binds i name = false) (outer : (r.environment i).outer = some j)
    (middle : r.binds j name = false) (outer' : (r.environment j).outer = some e)
    (bound : r.binds e name = true) (several : 3 ≤ r.environments.size) :
    r.resolve i name = .environment e name := by
  obtain ⟨more, size⟩ := Nat.exists_eq_add_of_le' several
  have found : (r.scopes i).find? (r.binds · name) = some e := by
    rw [scopes, size, scopesWithin, outer, scopesWithin, outer', scopesWithin]
    simp [inner, middle, bound]
  rw [resolve, found]

/-- An environment with own bindings binds the names of these. -/
theorem Realm.binds_own {r : Realm} {e : EnvId} {b : Bindings}
    (own : (r.environment e).store = .own b) (name : String) : r.binds e name = b.has name := by
  rw [binds, own]

/-- What has a value is bound. -/
theorem Bindings.has_of_get {b : Bindings} {name : String} {v : Value} (h : b.get name = .ok v) :
    b.has name = true := by
  rw [Bindings.has_iff, Bindings.names, Table.mem_keys]
  rw [Bindings.get] at h
  split at h
  next binding found => exact ⟨binding, Table.get?_eq_some_iff.1 found⟩
  next => cases h

namespace Recreating

/-! ## The program -/

/-- The name of the function that creates the other. -/
def name : Identifier := ⟨default, "f"⟩

/-- The code `function () { f(); }`. -/
def inner : FunctionCode :=
  .mk default none [] default [.expression default (.call default (.identifier name) [])]

/-- The code `function f() { for (;;) ; (function () { f(); }); }`. -/
def outer : FunctionCode :=
  .mk default (some name) [] default
    [.forLoop default none none none (.empty default), .expression default (.function inner)]

/-- The program whose only statement is the function expression `f`. -/
def program : Program where
  span := default
  file := "test.js"
  body := [.expression default (.function outer)]

theorem inner_bare : IsBare inner := ⟨rfl, rfl, rfl⟩

theorem outer_bare : IsBare outer := ⟨rfl, rfl, rfl⟩

variable {s : Setup} {μ ν : Moment} {e : EnvId} {f : ObjectId}

/-- The environment of a call of `f`, which does not bind the name. -/
structure IsCall (μ : Moment) (e E : EnvId) : Prop where
  inside : e.index < E.index
  there : E.index < μ.realm.environments.size
  outer : (μ.realm.environment E).outer = some e
  unbound : ∃ b, (μ.realm.environment E).store = .own b ∧ b.has "f" = false

/-- The function `f`, as its own name in an environment refers to it. -/
structure Knows (μ : Moment) (e : EnvId) (f : ObjectId) : Prop where
  scope : e.index < μ.realm.environments.size
  bound : ∃ b, (μ.realm.environment e).store = .own b ∧ b.get "f" = .ok (.object f)
  there : f.index < μ.realm.objects.size
  callable : (μ.realm.object f).callable = some (.script ⟨outer, e⟩)

/-- What a call of `f` does: there is one function more, which can call `f` in its turn. -/
structure Recreated (μ : Moment) (e : EnvId) (f : ObjectId) (ν : Moment) : Prop where
  adds : μ.Adds ν
  invoked : ∀ o ∈ ν.invoked, o ∈ μ.invoked ∨ o = f
  function : ∃ g E, ν.scripts = μ.scripts.push g ∧ μ.realm.objects.size ≤ g.index ∧
    g.index < ν.realm.objects.size ∧ (ν.realm.object g).callable = some (.script ⟨inner, E⟩) ∧
    IsCall ν e E

theorem IsCall.after {E : EnvId} (h : IsCall μ e E) (adds : μ.Adds ν) : IsCall ν e E := by
  have same := adds.environment E h.there
  constructor
  case inside => exact h.inside
  case there => exact Nat.lt_of_lt_of_le h.there adds.environments
  case outer => rw [same, h.outer]
  case unbound => rw [same]; exact h.unbound

theorem Knows.after (h : Knows μ e f) (adds : μ.Adds ν) : Knows ν e f := by
  constructor
  case scope => exact Nat.lt_of_lt_of_le h.scope adds.environments
  case bound => rw [adds.environment e h.scope]; exact h.bound
  case there => exact Nat.lt_of_lt_of_le h.there adds.objects
  case callable => rw [adds.callable f h.there, h.callable]

/-- An environment that binds `arguments` only does not bind `f`. -/
theorem unbound_of_arguments {b : Bindings} (names : b.names = ["arguments"]) :
    b.has "f" = false := by
  rw [← Bool.not_eq_true, Bindings.has_iff, names]
  decide

/-! ## Calls -/

/-- Whether `f` counts as called before does not matter. -/
theorem Recreated.of_marking (h : Recreated (μ.marking f) e f ν) : Recreated μ e f ν := by
  constructor
  case adds => exact (Moment.Adds.marking μ f).trans h.adds
  case function => exact h.function
  case invoked =>
    intro o called
    rcases h.invoked o called with marked | rfl
    · exact (Moment.mem_invoked_marking marked).symm
    · exact .inr rfl

section

variable (rules : s.rules = .core) (loops : s.options.evaluateLoops = true)

include rules

/-- The empty statement does nothing. -/
theorem idle_empty (call : ScriptCall) (span : Span) :
    Idle s ((Statement.empty span).evaluate call) := fun _ => .ruled rules _ span (.pure _)

include loops

/-- A call of `f` creates a function, whatever it is called for. -/
theorem leads_outer (call : ScriptCall) {this : Value}
    (receiver : this = .undefined ∨ this = .unknown) (scope : e.index < μ.realm.environments.size) :
    ∃ ρ, Leads s (callScript (Step.runAll none (Statement.steps call outer.body)) f ⟨outer, e⟩ this [])
        μ (.normal .undefined) ρ ∧
      ρ.contexts = μ.contexts ∧ ρ.exits = μ.exits ∧ Recreated μ e f ρ := by
  refine leads_callScript outer_bare receiver fun ν E entered => ?_
  obtain ⟨c, lexicalEnv, -, contexts⟩ := entered.contexts
  have running : ν.contexts.isEmpty = false := by rw [contexts]; rfl
  -- the loop, which is given up
  have looped : Leads s (Statement.evaluate call (.forLoop default none none none (.empty default))) ν
      (.finished none) ν :=
    .ruled rules _ _ ((idle_empty rules call default).loop running default loops)
  -- the function, in the environment of the call
  obtain ⟨g, ρ, made, environments, created⟩ :=
    leads_createScript (s := s) (μ := ν) (ε := FatalError) inner E
  have function : Leads s (Statement.evaluate call (.expression default (.function inner))) ν
      (.normal (.object g)) ρ := by
    refine .ruled rules _ _ (Rule.leads_expression (c := .normal (.object g)) ?_ rfl)
    refine .ruled rules _ _ (Leads.bind (.get_bind fun m hm => ?_) (.pure _))
    have here : m.lexicalEnv = E := by
      rw [Machine.lexicalEnv, show m.contexts = _ from (congrArg Moment.contexts hm).trans contexts]
      exact lexicalEnv
    rw [here]
    exact made
  refine ⟨.finished (some (.object g)), ρ, ?_, rfl, created.contexts, ?_, ?_⟩
  · refine Step.leads_runAll looped rfl rfl (Step.leads_runAll function rfl created.exits ?_)
    exact .pure _
  · exact created.exits.trans entered.exits
  · obtain ⟨b, own, names⟩ := entered.opened.bound
    have call : IsCall ν e E :=
      { inside := Nat.lt_of_lt_of_le scope entered.opened.new
        there := entered.opened.there
        outer := entered.opened.outer
        unbound := ⟨b, own, unbound_of_arguments names⟩ }
    have invoked : ρ.invoked = μ.invoked := created.invoked.trans entered.invoked
    constructor
    case adds => exact (entered.adds.trans created.adds).trans (.of_same rfl rfl)
    case invoked => exact fun o called => .inl (invoked ▸ called)
    case function =>
      refine ⟨g, E, ?_, ?_, created.there, created.callable, ?_⟩
      · exact created.scripts.trans (congrArg (·.push g) entered.scripts)
      · exact Nat.le_trans entered.adds.objects created.new
      · exact (call.after created.adds).after (.of_same rfl rfl)

/-- `f` is called as an object. -/
theorem leads_callFunction_outer (depth : Nat) (known : Knows μ e f) {this : Value}
    (receiver : this = .undefined ∨ this = .unknown) :
    ∃ ρ, Leads s (callFunction (callWithin (depth + 1)) f this []) μ (.normal .undefined) ρ ∧
      ρ.contexts = μ.contexts ∧ ρ.exits = μ.exits ∧ Recreated μ e f ρ := by
  let κ := μ.marking f
  obtain ⟨ρ, run, contexts, exits, recreated⟩ :=
    leads_outer (f := f) (μ := κ) rules loops (callWithin depth) receiver known.scope
  refine ⟨ρ, (leads_markInvoked f).bind (.object_bind ?_), contexts, exits, ?_⟩
  · rw [show (κ.realm.object f).callable = _ from known.callable]
    exact run
  · exact recreated.of_marking

/-- The function that `f` creates calls `f`. -/
theorem leads_inner (depth : Nat) (known : Knows μ e f) {E : EnvId} (scope : IsCall μ e E)
    {g : ObjectId} {this : Value} (receiver : this = .undefined ∨ this = .unknown) :
    ∃ ρ, Leads s (callScript (Step.runAll none
          (Statement.steps (callWithin (depth + 1)) inner.body)) g ⟨inner, E⟩ this [])
        μ (.normal .undefined) ρ ∧
      ρ.contexts = μ.contexts ∧ ρ.exits = μ.exits ∧ Recreated μ e f ρ := by
  refine leads_callScript inner_bare receiver fun ν E' entered => ?_
  obtain ⟨c, lexicalEnv, -, contexts⟩ := entered.contexts
  have known : Knows ν e f := known.after entered.adds
  obtain ⟨b, own, value⟩ := known.bound
  -- the name is looked up in the new environment, in that of the function and in that of `f`
  have resolved : ν.realm.resolve E' "f" = .environment e "f" := by
    obtain ⟨b', own', names⟩ := entered.opened.bound
    obtain ⟨b'', own'', unbound⟩ := (scope.after entered.adds).unbound
    refine Realm.resolve_outermost (j := E) ?_ entered.opened.outer ?_
      (scope.after entered.adds).outer ?_ ?_
    · rw [Realm.binds_own own', unbound_of_arguments names]
    · rw [Realm.binds_own own'', unbound]
    · rw [Realm.binds_own own, Bindings.has_of_get value]
    · have old := entered.opened.new
      have new := entered.opened.there
      have between := scope.there
      have inside := scope.inside
      omega
  have read : Leads s (Op.getValue (.environment e "f") : Op Value) ν (.object f) ν := by
    refine .get_bind fun m hm => ?_
    have own : (m.realm.environment e).store = .own b := by
      rw [show m.realm = ν.realm from congrArg Moment.realm hm]
      exact own
    simp only [own]
    rw [show (Reference.environment e "f").name = "f" from rfl, value]
    exact .pure _
  have callee (x : Run Completion) : Leads s (Rule.callee true
      (Rule.referring .identifier default (Rule.resolve "f")) x).run ν
      (.ok (.object f, .undefined)) ν := by
    have reference : Leads s (Rule.resolve "f").run ν (.ok (.environment e "f")) ν := by
      refine Rule.leads_get_bind fun m hm => ?_
      have here : m.realm.resolve m.lexicalEnv "f" = .environment e "f" := by
        rw [Machine.lexicalEnv, show m.contexts = _ from (congrArg Moment.contexts hm).trans contexts,
          show m.realm = ν.realm from congrArg Moment.realm hm, ← resolved]
        exact congrArg (ν.realm.resolve · "f") lexicalEnv
      rw [← here]
      exact .pure _
    refine Rule.leads_bind (.bracket _ _ _ reference) (Rule.leads_bind (Rule.leads_native read) ?_)
    refine Rule.leads_bind (a := .undefined) (Rule.leads_get_bind fun m hm => ?_) (.pure _)
    have plain : m.realm.implicitThis e = .undefined := by
      rw [show m.realm = ν.realm from congrArg Moment.realm hm, Realm.implicitThis, own]
    rw [← plain]
    exact .pure _
  obtain ⟨ρ, called, contexts', exits', recreated⟩ :=
    leads_callFunction_outer rules loops depth known (.inl rfl)
  have statement : Leads s (Statement.evaluate (callWithin (depth + 1))
      (.expression default (.call default (.identifier name) []))) ν (.normal .undefined) ρ := by
    refine .ruled rules _ _ (Rule.leads_expression (c := .normal .undefined) ?_ rfl)
    refine .ruled rules _ _ (Rule.leads_complete (Rule.leads_bind (callee _) ?_))
    refine Rule.leads_bind (a := []) (.pure _) (Rule.leads_bind (Rule.leads_lift (.object f)) ?_)
    rw [ObjectRecord.isCallable, known.callable]
    exact Rule.leads_lift called
  refine ⟨.finished (some .undefined), ρ, ?_, rfl, contexts', ?_, ?_⟩
  · exact Step.leads_runAll statement rfl exits' (.pure _)
  · exact exits'.trans entered.exits
  · constructor
    case adds => exact (entered.adds.trans recreated.adds).trans (.of_same rfl rfl)
    case invoked =>
      intro o called
      rw [← entered.invoked]
      exact recreated.invoked o called
    case function =>
      obtain ⟨h, E'', scripts, new, there, callable, call⟩ := recreated.function
      refine ⟨h, E'', ?_, ?_, there, callable, call.after (.of_same rfl rfl)⟩
      · exact scripts.trans (congrArg (·.push h) entered.scripts)
      · exact Nat.le_trans entered.adds.objects new

/-! ## Visits -/

/-- Between two visits: the function that was created last is the only one left. It is `f`, or it
calls `f`. -/
structure Between (μ : Moment) (e : EnvId) (f : ObjectId) (count : Nat) : Prop where
  running : μ.contexts.size = 1
  known : Knows μ e f
  created : μ.scripts.size = count + 1
  called : ∀ o ∈ μ.invoked, o.index < μ.realm.objects.size
  last : ∃ g, μ.scripts[count]? = some g ∧ g ∉ μ.invoked ∧ g.index < μ.realm.objects.size ∧
    (g = f ∨ ∃ E, (μ.realm.object g).callable = some (.script ⟨inner, E⟩) ∧ IsCall μ e E)

variable (limit : 3 ≤ s.options.maxRecursionLimit)

include limit

/-- What is left is visited, and again one function is left. -/
theorem leads_visit {count : Nat} (h : Between μ e f count) :
    ∃ g ν, μ.scripts[count]? = some g ∧ Leads s (visitFunction g) μ () ν ∧
      Between ν e f (count + 1) := by
  obtain ⟨g, found, fresh, there, kind⟩ := h.last
  obtain ⟨depth, deep⟩ := Nat.exists_eq_add_of_le' limit
  -- the moment in which the call begins
  let block := μ.withContexts μ.contexts.enterBlock
  have size : block.contexts.size = 1 :=
    (ContextStack.size_modifyRunning μ.contexts _).trans h.running
  have known : Knows (block.marking g) e f := h.known.after (.of_same rfl rfl)
  obtain ⟨closure, callable, plain, ρ, run, contexts, recreated⟩ : ∃ closure,
      (μ.realm.object g).callable = some (.script closure) ∧ closure.code.parameters = [] ∧
      ∃ ρ, Leads s (callWithin (depth + 2) g closure .unknown []) (block.marking g)
          (.normal .undefined) ρ ∧
        ρ.contexts = block.contexts ∧ Recreated (block.marking g) e f ρ := by
    rcases kind with rfl | ⟨E, callable, scope⟩
    · obtain ⟨ρ, run, contexts, -, recreated⟩ :=
        leads_outer (f := g) rules loops (callWithin (depth + 1)) (.inr rfl) known.scope
      exact ⟨_, h.known.callable, rfl, ρ, run, contexts, recreated⟩
    · obtain ⟨ρ, run, contexts, -, recreated⟩ :=
        leads_inner rules loops depth known (scope.after (.of_same rfl rfl)) (g := g) (.inr rfl)
      exact ⟨_, callable, rfl, ρ, run, contexts, recreated⟩
  have called : Leads s (callObject g .unknown []) block (.normal .undefined) ρ := by
    have left : s.options.maxRecursionLimit - block.contexts.size = depth + 2 := by omega
    have deepening : Leads s depthLeft block (depth + 2) block := by
      rw [← left]
      exact leads_depthLeft
    refine deepening.bind ((leads_markInvoked g).bind (.object_bind ?_))
    rw [show ((block.marking g).realm.object g).callable = _ from callable]
    exact run
  refine ⟨g, ρ.withContexts μ.contexts, found, ?_, ?_⟩
  · have running : μ.contexts.isEmpty = false :=
      List.isEmpty_eq_false_iff.2
        (List.ne_nil_of_length_pos (Nat.lt_of_lt_of_eq Nat.zero_lt_one h.running.symm))
    refine .get_bind fun m hm => ?_
    have waits : g ∉ m.invoked := by
      rw [show m.invoked = μ.invoked from congrArg Moment.invoked hm]
      exact fresh
    rw [if_neg waits]
    refine .object_bind ?_
    simp only [callable, plain]
    exact (Leads.ambiguously running called rfl contexts _).bind (.pure _)
  · obtain ⟨k, E, scripts, new, there', callable', call⟩ := recreated.function
    have grown : μ.realm.objects.size ≤ ρ.realm.objects.size := recreated.adds.objects
    have old {o : ObjectId} (h' : o ∈ ρ.invoked) : o.index < μ.realm.objects.size := by
      rcases recreated.invoked o h' with marked | rfl
      · rcases Moment.mem_invoked_marking marked with rfl | called
        · exact there
        · exact h.called o called
      · exact h.known.there
    have known : Knows ρ e f := known.after recreated.adds
    have count' : (μ.scripts.push k)[count + 1]? = some k := by
      rw [← h.created, Array.getElem?_push_size]
    constructor
    case running => exact h.running
    case known => exact known.after (.of_same rfl rfl)
    case created =>
      rw [show (ρ.withContexts μ.contexts).scripts = μ.scripts.push k from scripts, Array.size_push,
        h.created]
    case called => exact fun o called => Nat.lt_of_lt_of_le (old called) grown
    case last =>
      refine ⟨k, scripts ▸ count', fun called => ?_, there', .inr ⟨E, callable', ?_⟩⟩
      · exact Nat.not_le.2 (old called) new
      · exact call.after (.of_same rfl rfl)

/-- However many visits there are, one function is left. -/
theorem leads_visits {first : Nat} (steps : Nat) (h : Between μ e f first) :
    ∃ ν, Leads s (visitFunctions steps first) μ () ν ∧ Between ν e f (first + steps) := by
  induction steps generalizing first μ with
  | zero => exact ⟨μ, .pure (), h⟩
  | succ steps ih =>
    obtain ⟨g, ν, found, visit, between⟩ := leads_visit rules loops limit h
    obtain ⟨ρ, visits, between'⟩ := ih between
    refine ⟨ρ, .get_bind fun m hm => ?_, ?_⟩
    · rw [show m.scripts = μ.scripts from congrArg Moment.scripts hm, found]
      exact visit.bind visits
    · rw [Nat.add_comm steps 1, ← Nat.add_assoc]
      exact between'

omit limit loops in
/-- The program creates `f`, and calls nothing. -/
theorem leads_program (running : μ.contexts.size = 1) (scripts : μ.scripts = #[])
    (invoked : μ.invoked = []) :
    ∃ e f ν, Leads s program.evaluate μ (.normal (.object f)) ν ∧ Between ν e f 0 := by
  let scope := (μ.contexts.running?.map Context.lexicalEnv).getD Realm.globalEnv
  let e := μ.realm.nextEnvironment
  let env : Environment :=
    { Environment.fresh (some scope) with createdLevel := μ.realm.ambiguityLevel }
  let first : Moment := { μ with realm := μ.realm.addEnvironment env }
  -- the function is created in an environment of its own, where its name is bound
  have opened : Leads s (createEnvironment (.fresh (some scope)) : Run EnvId) μ e first := by
    refine ⟨fun m hm => ?_⟩
    subst hm
    exact ⟨_, rfl, rfl⟩
  obtain ⟨f, second, made, environments, created⟩ :=
    leads_createScript (s := s) (μ := first) (ε := FatalError) outer e
  have there : e.index < second.realm.environments.size := by
    rw [environments]
    simp [first, e, Realm.addEnvironment, Realm.nextEnvironment]
  have own : (second.realm.environment e).store = .own {} := by
    rw [Realm.environment, environments]
    show ((μ.realm.addEnvironment env).environment e).store = _
    rw [Realm.environment_addEnvironment, if_pos rfl]
    rfl
  obtain ⟨ν, named, rebound⟩ := leads_modifyBindings (s := s) there own
    fun b => (b.createImmutable "f").fill "f" (.object f)
  have created' : Leads s (createFunctionValue outer : Run ObjectId) μ f ν := by
    refine .get_bind fun m hm => ?_
    have here : m.lexicalEnv = scope := by
      rw [Machine.lexicalEnv, show m.contexts = μ.contexts from congrArg Moment.contexts hm]
    rw [here]
    exact opened.bind (made.bind (named.bind (.pure f)))
  refine ⟨e, f, ν, ?_, ?_⟩
  -- the program declares nothing
  · have entered : Leads s (enterProgram program.body) μ () μ := by
      refine .get_bind fun m hm => ?_
      have nothing (e : EnvId) : Leads s (Op.instantiate e program.body none) μ () μ :=
        (Leads.pure ()).bind ((Leads.pure ()).bind (.pure ()))
      exact ((nothing _).attempt (ε := FatalError)).bind (.pure ())
    have statement (call : ScriptCall) : Leads s
        (Statement.evaluate call (.expression default (.function outer))) μ (.normal (.object f)) ν := by
      refine .ruled rules _ _ (Rule.leads_expression (c := .normal (.object f)) ?_ rfl)
      exact .ruled rules _ _ (created'.bind (.pure _))
    have exits : ν.exits = μ.exits := rebound.exits.trans created.exits
    refine .ruled rules _ _ (entered.bind (leads_depthLeft.bind ?_))
    exact (Step.leads_runAll (statement _) rfl exits (.pure _)).bind (.pure _)
  · have objects (o : ObjectId) : ν.realm.object o = second.realm.object o := by
      rw [Realm.object, Realm.object, rebound.objects]
    have known : Knows ν e f := by
      constructor
      case scope => exact rebound.environments ▸ there
      case there => exact rebound.objects ▸ created.there
      case callable => rw [objects, created.callable]
      case bound =>
        refine ⟨_, congrArg Environment.store rebound.here, ?_⟩
        simp [Bindings.get, Bindings.createImmutable, Bindings.fill, Bindings.give, Table.get?_insert]
    have listed : ν.scripts = #[f] := by
      rw [rebound.scripts, created.scripts, show first.scripts = #[] from scripts]
      rfl
    have uncalled : ν.invoked = [] := (rebound.invoked.trans created.invoked).trans invoked
    constructor
    case running => rw [rebound.contexts, created.contexts]; exact running
    case known => exact known
    case created => rw [listed]; rfl
    case called => simp [uncalled]
    case last =>
      refine ⟨f, ?_, ?_, known.there, .inl rfl⟩
      · rw [listed]
        rfl
      · simp [uncalled]

/-- **Visits that do not end.** In every realm, after the program there is always one function left
that was never called: however many functions were visited, each visit has created the next. -/
theorem visits_go_on (r : Realm) : ∃ c m, evaluateMain [] program s (.start r) = .ok c m ∧
    ∀ steps, ∃ n, visitFunctions steps 0 s m = .ok () n ∧ n.scripts.size = steps + 1 := by
  obtain ⟨e, f, ν, evaluated, between⟩ :=
    leads_program (s := s) (μ := (Machine.start r).moment) rules rfl rfl rfl
  obtain ⟨m, main, hm⟩ := evaluated.run { Machine.start r with observed := s.observed } rfl
  refine ⟨_, m, main, fun steps => ?_⟩
  obtain ⟨ρ, visits, after⟩ := leads_visits rules loops limit steps between
  obtain ⟨n, run, hn⟩ := visits.run m hm
  have size : n.scripts.size = 0 + steps + 1 := by
    rw [show n.scripts = ρ.scripts from congrArg Moment.scripts hn, after.created]
  exact ⟨n, run, by omega⟩

end

/-- With valid options the evaluation of the program ends, but the visits after it do not. -/
theorem visits_endless_recreated :
    let a : Analyzer := { options := { processUnvisitedCode := true } }
    a.options.validate = .ok a.options ∧
      ∃ c m, evaluateMain a.unknownGlobals program (a.setup program) (.start a.realm) = .ok c m ∧
        ∀ steps, ∃ n, visitFunctions steps 0 (a.setup program) m = .ok () n ∧
          n.scripts.size = steps + 1 := by
  intro a
  have limit : 3 ≤ a.options.maxRecursionLimit := by decide
  exact ⟨rfl, visits_go_on (s := a.setup program) rfl rfl limit a.realm⟩

end Recreating

end AbstractScript
