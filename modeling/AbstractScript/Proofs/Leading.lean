import AbstractScript.Proofs.FrameLaw
import AbstractScript.Proofs.Lawful

/-!
# Runs from moment to moment

What an evaluation does depends on the moment in which it begins, and apart from the records that
no evaluation reads it leaves nothing but another moment. A computation *leads* from one moment to
another with a result if it does so in every machine at the first (`Eval.Leads`). This is how a run
is followed symbolically, step by step, in a realm of which only a part is known.
-/
namespace AbstractScript

open Eval

/-- A moment with other contexts, whose level the realm is told. -/
def Moment.withContexts (μ : Moment) (s : ContextStack) : Moment :=
  { μ with contexts := s, realm := { μ.realm with ambiguityLevel := s.level } }

/-- Only the contexts that were set last count. -/
theorem Moment.withContexts_withContexts (μ : Moment) (s t : ContextStack) :
    (μ.withContexts s).withContexts t = μ.withContexts t := rfl

/-- Changes the table of an environment that has one of its own. -/
def Environment.mapBindings (f : Bindings → Bindings) (env : Environment) : Environment :=
  match env.store with
  | .own b => { env with store := .own (f b) }
  | .properties .. => env

/-- A moment of a machine has the contexts that it has. -/
theorem Machine.moment_withContexts (m : Machine) : m.moment.withContexts m.contexts = m.moment := by
  have same : { m.realm with ambiguityLevel := m.contexts.level } = m.realm := by
    rw [← m.synced]
  rw [Moment.withContexts]
  show { m.moment with realm := { m.realm with ambiguityLevel := m.contexts.level } } = _
  rw [same]
  rfl

namespace Eval

variable {ε α β : Type} {s : Setup} {μ ν ρ : Moment}

/-- From every machine at a moment a computation comes to a machine at another one, with a result. -/
structure Leads (s : Setup) (x : Eval ε α) (μ : Moment) (a : α) (ν : Moment) : Prop where
  run : ∀ m : Machine, m.moment = μ → ∃ n, x s m = .ok a n ∧ n.moment = ν

namespace Leads

/-- To return a value leads nowhere else. -/
theorem pure (a : α) : Leads s (pure a : Eval ε α) μ a μ := ⟨fun m hm => ⟨m, rfl, hm⟩⟩

/-- One stretch of a run after another. -/
theorem bind {x : Eval ε α} {f : α → Eval ε β} {a : α} {b : β} (hx : Leads s x μ a ν)
    (hf : Leads s (f a) ν b ρ) : Leads s (x >>= f) μ b ρ := by
  refine ⟨fun m hm => ?_⟩
  obtain ⟨n, first, hn⟩ := hx.run m hm
  obtain ⟨k, second, hk⟩ := hf.run n hn
  exact ⟨k, by rw [bind_apply, first]; exact second, hk⟩

/-- A function of the result leads to its value. -/
theorem map {x : Eval ε α} {a : α} (f : α → β) (hx : Leads s x μ a ν) :
    Leads s (f <$> x) μ (f a) ν := by
  rw [map_eq_pure_bind]
  exact hx.bind (.pure _)

/-- What follows a look at the machine leads on if it does so for every machine at the moment. -/
theorem get_bind {f : Machine → Eval ε β} {b : β}
    (h : ∀ m : Machine, m.moment = μ → Leads s (f m) μ b ν) :
    Leads s (get >>= f : Eval ε β) μ b ν :=
  ⟨fun m hm => (h m hm).run m hm⟩

/-- A look at an object finds the one in the realm of the moment. -/
theorem object_bind {o : ObjectId} {f : ObjectRecord → Eval ε β} {b : β}
    (h : Leads s (f (μ.realm.object o)) μ b ν) : Leads s (object o >>= f : Eval ε β) μ b ν := by
  refine .get_bind fun m hm => ?_
  subst hm
  exact h

/-- So does a look alone. -/
theorem object (o : ObjectId) : Leads s (object o : Eval ε _) μ (μ.realm.object o) μ :=
  .object_bind (.pure _)

/-- A look at the setup finds the one at hand. -/
theorem setup_bind {γ : Type} {g : Setup → γ} {f : γ → Eval ε β} {b : β}
    (h : Leads s (f (g s)) μ b ν) : Leads s (setup g >>= f : Eval ε β) μ b ν :=
  ⟨fun m hm => h.run m hm⟩

/-- A change of the machine leads to the moment after the change. -/
theorem modify_bind {f : Machine → Machine} {g : Unit → Eval ε β} {b : β}
    (h : ∀ m : Machine, m.moment = μ → (f m).moment = ν) (hg : Leads s (g ()) ν b ρ) :
    Leads s (modify f >>= g : Eval ε β) μ b ρ := ⟨fun m hm => hg.run (f m) (h m hm)⟩

/-- So does a change alone. -/
theorem modify {f : Machine → Machine} (h : ∀ m : Machine, m.moment = μ → (f m).moment = ν) :
    Leads s (modify f : Eval ε Unit) μ () ν := ⟨fun m hm => ⟨f m, rfl, h m hm⟩⟩

/-- What is done on the way out leads on from where the computation ends. -/
theorem ensuring {x : Eval ε α} {a : α} {f : Machine → Machine} (hx : Leads s x μ a ν)
    (h : ∀ m : Machine, m.moment = ν → (f m).moment = ρ) : Leads s (x.ensuring f) μ a ρ := by
  refine ⟨fun m hm => ?_⟩
  obtain ⟨n, run, hn⟩ := hx.run m hm
  exact ⟨f n, by rw [ensuring_apply, run], h n hn⟩

/-- An operation that succeeds leads to its success when faults are caught. -/
theorem attempt {op : Op α} {a : α} (h : Leads s op μ a ν) :
    Leads s (op.attempt : Eval ε (Except NativeError α)) μ (.ok a) ν := by
  refine ⟨fun m hm => ?_⟩
  obtain ⟨n, run, hn⟩ := h.run m hm
  exact ⟨n, by rw [Op.attempt, run], hn⟩

/-- The contexts of a moment have the level that the realm knows. -/
theorem of_synced {x : Eval ε α} {a : α}
    (h : μ.withContexts μ.contexts = μ → Leads s x μ a ν) : Leads s x μ a ν := by
  refine ⟨fun m hm => ?_⟩
  subst hm
  exact (h m.moment_withContexts).run m rfl

/-- What only writes records that no evaluation reads stays at its moment. -/
theorem aside {x : Eval ε Unit} (succeeds : ∀ m, ∃ n, x s m = .ok () n)
    (unmoved : Keeps Machine.Unmoved x) : Leads s x μ () μ := by
  refine ⟨fun m hm => ?_⟩
  obtain ⟨n, run⟩ := succeeds m
  exact ⟨n, run, (unmoved.of_ok run).moment.trans hm⟩

/-- An event moves nothing. -/
theorem emit (e : Event) : Leads s (emit e : Eval ε Unit) μ () μ :=
  .aside (fun _ => ⟨_, rfl⟩) (emit_unmoved e)

/-- Neither does a report of where the run is. -/
theorem reportHere (kind : DiagnosticKind) (message : String) :
    Leads s (reportHere kind message : Eval ε Unit) μ () μ :=
  .get_bind fun _ _ => (Leads.emit _).bind (.modify fun _ hm => hm)

/-- Nor the report of a loop that was given up. -/
theorem reportMaxIterations : Leads s (reportMaxIterations : Eval ε Unit) μ () μ :=
  .setup_bind (.reportHere ..)

/-! ## Events, blocks and contexts -/

/-- The events around a rule leave it where it leads. -/
theorem bracket {x : Run α} {a : α} (kind : NodeKind) (span : Span) (outcome : α → Completion)
    (h : Leads s x μ a ν) : Leads s (bracket kind span outcome x) μ a ν := by
  refine .setup_bind (.get_bind fun _ _ => .modify_bind (fun _ hm => hm) ?_)
  have body : Leads s (x.ensuring Machine.popFrame) μ a ν := h.ensuring fun _ hm => hm
  refine (Leads.emit _).bind (body.bind (.get_bind fun _ _ => ?_))
  exact (Leads.emit _).bind (.pure a)

/-- With the core rules a node leads where its rule leads. -/
theorem ruled (rules : s.rules = .core) {x : Run Completion} {c : Completion} (kind : NodeKind)
    (span : Span) (h : Leads s x μ c ν) : Leads s (ruled kind span x) μ c ν := by
  refine .setup_bind ?_
  rw [rules]
  refine .bracket kind span id ?_
  rw [Handler.apply, if_pos rfl]
  exact h

/-- What completes normally in an ambiguous block leads to the moment after it, with the contexts
from before the block. -/
theorem ambiguously (running : μ.contexts.isEmpty = false) {x : Run Completion} {c : Completion}
    (h : Leads s x (μ.withContexts μ.contexts.enterBlock) c ν) (normal : c.kind = .normal)
    (contexts : ν.contexts = μ.contexts.enterBlock) (span : Span) :
    Leads s (ambiguously span x) μ .empty (ν.withContexts μ.contexts) := by
  obtain ⟨index, entered⟩ := ContextStack.enterIndex?_of_running running
  have noted : Leads s (note c : Run Unit) ν () ν := .modify fun m hm => by
    rw [Machine.noteExit, normal]
    exact hm
  have body : Leads s (do
      let c ← x
      note c
      return possibly c) (μ.withContexts μ.contexts.enterBlock) .empty ν := by
    refine h.bind (noted.bind ?_)
    rw [possibly, normal]
    exact .pure _
  have block : Leads s (inBlock span (do
      let c ← x
      note c
      return possibly c)) μ .empty (ν.withContexts μ.contexts) := by
    refine .setup_bind (.modify_bind (fun _ hm => hm) (.get_bind fun m hm => ?_))
    subst hm
    refine .modify_bind (fun k hk => ?_) (body.ensuring fun k hk => ?_)
    · rw [Machine.enterBlock]
      show k.moment.withContexts k.moment.contexts.enterBlock = _
      rw [hk]
    -- the body ends in the block in which it began
    · have here : k.contexts = m.contexts.enterBlock := (congrArg Moment.contexts hk).trans contexts
      have left : m.contexts.enterIndex? = some index := entered
      rw [left, Machine.exitBlock, here, ContextStack.exitBlock_enterBlock left]
      exact congrArg (Moment.withContexts · m.contexts) hk
  -- that a block has passed is recorded outside of the moment
  refine ⟨fun m hm => ?_⟩
  obtain ⟨n, run, hn⟩ := block.run m hm
  refine ⟨m.recordPass n, ?_, hn⟩
  rw [Eval.ambiguously, recorded, run]

/-- A context is left with the contexts from before it, if no possible exits were recorded in it. -/
theorem inContext {x : Run α} {a : α} (c : Context)
    (h : Leads s x (μ.withContexts (μ.contexts.push c)) a ν)
    (contexts : ν.contexts = μ.contexts.push c) (exits : ν.exits.size ≤ μ.exits.size) :
    Leads s (inContext c x) μ a (ν.withContexts μ.contexts) := by
  refine .get_bind fun m hm => ?_
  subst hm
  refine .modify_bind (fun k hk => ?_) (h.ensuring fun k hk => ?_)
  · show k.moment.withContexts (k.moment.contexts.push c) = _
    rw [hk]
  · have few : k.popContext.exits.size ≤ m.exits.size := by
      rw [← hk] at exits
      exact exits
    have here : k.contexts = m.contexts.push c := (congrArg Moment.contexts hk).trans contexts
    rw [Machine.dropClaimed, if_pos few, Machine.popContext, here, ContextStack.pop_push]
    exact congrArg (Moment.withContexts · m.contexts) hk

end Leads

/-! ## Loops without an end -/

namespace Leads

/-- A look at the number of possible exits. -/
theorem mark_bind {f : Nat → Eval ε β} {b : β} (h : Leads s (f μ.exits.size) μ b ν) :
    Leads s (mark >>= f) μ b ν := by
  refine .get_bind fun m hm => ?_
  subst hm
  exact h

/-- There are no possible exits since a mark that was just taken. -/
theorem hasExitsSince_bind {f : Bool → Eval ε β} {b : β} (h : Leads s (f false) μ b ν) :
    Leads s (hasExitsSince μ.exits.size >>= f) μ b ν := by
  refine .get_bind fun m hm => ?_
  subst hm
  show Leads s (f (decide (m.exits.size < m.exits.size))) _ _ _
  rw [decide_eq_false (Nat.lt_irrefl _)]
  exact h

/-- What follows may not depend on the labels that a loop takes over. -/
theorem takeLabels_bind {f : List String → Run β} {b : β}
    (h : ∀ labels, Leads s (f labels) μ b ν) : Leads s (takeLabels >>= f) μ b ν := by
  refine ⟨fun m hm => ?_⟩
  obtain ⟨n, run, hn⟩ := (h m.labels).run { m with labels := [] } hm
  exact ⟨n, run, hn⟩

/-- There are no passes to claim since a mark that was just taken. -/
theorem claimPasses (labels : List String) :
    Leads s (claimPasses labels μ.exits.size) μ () μ := by
  refine ⟨fun m hm => ⟨m, ?_, hm⟩⟩
  subst hm
  have same (p : Completion → Bool) : m.dropClaimed m.exits.size p = m := by
    rw [Machine.dropClaimed, if_pos (Nat.le_refl _)]
  show EStateM.Result.ok () (m.dropClaimed m.exits.size _) = _
  rw [same]

end Leads

/-- A computation that does nothing anywhere. -/
def Idle (s : Setup) (x : Run Completion) : Prop := ∀ μ, Leads s x μ .empty μ

/-- A loop without a test and an update. -/
def forever (span : Span) (body : Run Completion) : Loop := ⟨span, none, none, body⟩

namespace Idle

variable {body : Run Completion} (idle : Idle s body) (running : μ.contexts.isEmpty = false)
  (span : Span) (labels : List String) (value : Option Value)

include idle

/-- The body and the update of an endless loop come back to the moment before them. -/
theorem bodyAndUpdate : Idle s (forever span body).bodyAndUpdate :=
  fun μ => (idle μ).bind (Leads.pure (ε := FatalError) Completion.empty)

include running

/-- An endless loop that is given up ends at the moment where it is. -/
theorem giveUp : Leads s ((forever span body).giveUp labels value) μ (.finished value) μ := by
  refine .of_synced fun synced => ?_
  refine Leads.bind (a := ()) (.mark_bind ?_) (.pure _)
  have block := Leads.ambiguously running (idle.bodyAndUpdate span _) rfl rfl span
  rw [Moment.withContexts_withContexts, synced] at block
  exact block.bind (.claimPasses labels)

/-- The loop goes on up to the limit, and is then given up. -/
theorem iterate (passes : Nat) (tested : Bool) :
    Leads s ((forever span body).iterate labels passes tested value) μ (.finished value) μ := by
  have before : Leads s ((forever span body).beforeBody labels tested value) μ none μ := by
    cases tested <;> exact .pure none
  induction passes generalizing tested with
  | zero => exact before.bind (Leads.reportMaxIterations.bind (idle.giveUp running span labels value))
  | succ passes ih =>
    have pass : Leads s ((forever span body).pass labels μ.exits.size value) μ (.next value) μ := by
      refine (idle μ).bind ?_
      have goes : Leads s (afterBody labels μ.exits.size value .empty
          ((forever span body).remainder labels)) μ (.next value) μ :=
        .hasExitsSince_bind (.pure _)
      exact goes.bind (.pure _)
    refine .mark_bind (before.bind (pass.bind (ih true ?_)))
    exact .pure none

/-- An endless loop is given up after its iterations, at the moment at which it began. -/
theorem loop (loops : s.options.evaluateLoops = true) :
    Leads s (Rule.loop true (Pure.pure ()) (forever span body)).complete μ (.finished none) μ := by
  have evaluated (labels : List String) :
      Leads s ((forever span body).evaluate labels true) μ (.finished none) μ := by
    refine .setup_bind ?_
    rw [if_pos loops]
    exact idle.iterate running span labels none _ _
  have rest : Leads s (Rule.loop true (Pure.pure ()) (forever span body)).run μ
      (.ok (.finished none)) μ :=
    .takeLabels_bind fun labels => (evaluated labels).map Except.ok
  exact rest.bind (.pure _)

end Idle

end Eval

/-! ## Rules -/

namespace Rule

variable {α β : Type} {s : Setup} {μ ν ρ : Moment}

/-- One stretch of a rule after another. -/
theorem leads_bind {r : Rule α} {f : α → Rule β} {a : α} {b : Except Completion β}
    (hr : Leads s r.run μ (.ok a) ν) (hf : Leads s (f a).run ν b ρ) :
    Leads s (r >>= f).run μ b ρ := by
  rw [ExceptT.run_bind]
  exact hr.bind hf

/-- A rule may look at the machine. -/
theorem leads_get_bind {f : Machine → Rule α} {b : Except Completion α}
    (h : ∀ m : Machine, m.moment = μ → Leads s (f m).run μ b ν) :
    Leads s (get >>= f : Rule α).run μ b ν := ⟨fun m hm => (h m hm).run m hm⟩

/-- A computation leads a rule that consists of it. -/
theorem leads_lift {x : Run α} {a : α} (h : Leads s x μ a ν) : Leads s (lift x).run μ (.ok a) ν :=
  h.map Except.ok

/-- A rule that ends normally completes with its result. -/
theorem leads_complete {r : Rule Completion} {c : Completion} (h : Leads s r.run μ (.ok c) ν) :
    Leads s r.complete μ c ν := h.bind (.pure c)

/-- An operand that completes normally leads on with its value. -/
theorem leads_value {x : Run Completion} {c : Completion} (h : Leads s x μ c ν)
    (normal : c.kind = .normal) : Leads s (value x).run μ (.ok c.getValue) ν := by
  refine leads_bind (h.map Except.ok) ?_
  have goes : c.isAbrupt = false := by simp [Completion.isAbrupt, Completion.isNormal, normal]
  rw [if_neg (by simp [goes])]
  exact .pure _

/-- An operation that succeeds leads on with its result. -/
theorem leads_native {op : Op α} {a : α} (h : Leads s op μ a ν) :
    Leads s (native op).run μ (.ok a) ν :=
  leads_bind ((h.attempt (ε := FatalError)).map Except.ok) (.pure _)

/-- An expression as a statement. -/
theorem leads_expression {x : Run Completion} {c : Completion} (h : Leads s x μ c ν)
    (normal : c.kind = .normal) : Leads s (expression x).complete μ (.normal c.getValue) ν :=
  leads_complete (leads_bind (leads_value h normal) (.pure _))

end Rule

/-- A statement that completes normally, and leaves no possible exits, is followed by the others. -/
theorem Step.leads_runAll {s : Setup} {μ ν ρ : Moment} {step : Step} {rest : List Step}
    {c d : Completion} {value : Option Value} (first : Leads s step.run μ c ν)
    (normal : c.kind = .normal) (exits : ν.exits = μ.exits)
    (others : Leads s (Step.runAll (c.value <|> value) rest) ν d ρ) :
    Leads s (Step.runAll value (step :: rest)) μ d ρ := by
  refine .mark_bind (first.bind ?_)
  have goes : c.isAbrupt = false := by simp [Completion.isAbrupt, Completion.isNormal, normal]
  rw [if_neg (by simp [goes]), ← exits]
  exact .hasExitsSince_bind others

/-! ## New functions and calls -/

namespace Moment

/-- Objects and environments are added. What is there stays: what calls of the objects do, and what
the environments bind. -/
structure Adds (μ ν : Moment) : Prop where
  objects : μ.realm.objects.size ≤ ν.realm.objects.size
  environments : μ.realm.environments.size ≤ ν.realm.environments.size
  callable : ∀ o : ObjectId, o.index < μ.realm.objects.size →
    (ν.realm.object o).callable = (μ.realm.object o).callable
  environment : ∀ e : EnvId, e.index < μ.realm.environments.size →
    ν.realm.environment e = μ.realm.environment e

variable {μ ν ρ : Moment}

/-- What is added over two stretches of a run is added over both. -/
theorem Adds.trans (h : μ.Adds ν) (h' : ν.Adds ρ) : μ.Adds ρ where
  objects := Nat.le_trans h.objects h'.objects
  environments := Nat.le_trans h.environments h'.environments
  callable o ho := (h'.callable o (Nat.lt_of_lt_of_le ho h.objects)).trans (h.callable o ho)
  environment e he :=
    (h'.environment e (Nat.lt_of_lt_of_le he h.environments)).trans (h.environment e he)

/-- Contexts and the level of a realm are no part of what is there. -/
theorem Adds.of_same (objects : ν.realm.objects = μ.realm.objects)
    (environments : ν.realm.environments = μ.realm.environments) : μ.Adds ν where
  objects := Nat.le_of_eq (by rw [objects])
  environments := Nat.le_of_eq (by rw [environments])
  callable o _ := by rw [Realm.object, Realm.object, objects]
  environment e _ := by rw [Realm.environment, Realm.environment, environments]

/-- The moment at which a function counts as called. -/
def marking (μ : Moment) (f : ObjectId) : Moment :=
  { μ with invoked := if f ∈ μ.invoked then μ.invoked else f :: μ.invoked }

/-- Only the function that is marked becomes invoked. -/
theorem mem_invoked_marking {f o : ObjectId} (h : o ∈ (μ.marking f).invoked) :
    o = f ∨ o ∈ μ.invoked := by
  rw [marking] at h
  split at h
  · exact .inr h
  · exact List.mem_cons.1 h

/-- To mark a function adds nothing else. -/
theorem Adds.marking (μ : Moment) (f : ObjectId) : μ.Adds (μ.marking f) := .of_same rfl rfl

/-- An environment that is new since a moment, with its names and the environment around it. -/
structure Opened (μ ν : Moment) (scope : EnvId) (names : List String) (e : EnvId) : Prop where
  new : μ.realm.environments.size ≤ e.index
  there : e.index < ν.realm.environments.size
  outer : (ν.realm.environment e).outer = some scope
  bound : ∃ b, (ν.realm.environment e).store = .own b ∧ b.names = names

end Moment

namespace Eval

variable {s : Setup} {μ ν : Moment}

/-- The function of the program that is created last. -/
structure Created (μ ν : Moment) (f : ObjectId) (closure : Closure) : Prop where
  adds : μ.Adds ν
  contexts : ν.contexts = μ.contexts
  exits : ν.exits = μ.exits
  scripts : ν.scripts = μ.scripts.push f
  invoked : ν.invoked = μ.invoked
  new : μ.realm.objects.size ≤ f.index
  there : f.index < ν.realm.objects.size
  callable : (ν.realm.object f).callable = some (.script closure)

/-- The creation of a function only adds objects. -/
theorem leads_createScript {ε : Type} (code : FunctionCode) (scope : EnvId) :
    ∃ f ν, Leads s (createScript code scope : Eval ε ObjectId) μ f ν ∧
      ν.realm.environments = μ.realm.environments ∧ Created μ ν f ⟨code, scope⟩ := by
  let f : ObjectId := μ.realm.nextObject
  let r : Realm := μ.realm.addObject
    (Realm.functionRecord μ.realm.ambiguityLevel (.script ⟨code, scope⟩))
  let p : ObjectId := r.nextObject
  let prototyped (o : ObjectRecord) : ObjectRecord :=
    (o.store "length" (.fixed (.nat code.parameters.length))).store "prototype"
      (.data (.object p) true false false)
  let constructed (o : ObjectRecord) : ObjectRecord := o.store "constructor" (.hidden (.object f))
  let made : Realm := ((r.addObject (Realm.plainRecord μ.realm.ambiguityLevel)).modifyObject f
    prototyped).modifyObject p constructed
  have size : made.objects.size = μ.realm.objects.size + 2 := by
    simp [made, r, Realm.modifyObject, Realm.addObject]
  have run : Leads s (createScript code scope : Eval ε ObjectId) μ f
      { μ with realm := made, scripts := μ.scripts.push f } := by
    refine ⟨fun m hm => ?_⟩
    subst hm
    exact ⟨_, rfl, rfl⟩
  -- of the objects that are there none changes what a call of it does
  have callable (o : ObjectId) (ho : o.index ≤ μ.realm.objects.size) :
      (made.object o).callable = (r.object o).callable := by
    have other : o ≠ p := by
      rintro rfl
      simp only [p, r, Realm.nextObject, Realm.addObject, Array.size_push] at ho
      omega
    have plain : (r.addObject (Realm.plainRecord μ.realm.ambiguityLevel)).object o = r.object o := by
      rw [Realm.object_addObject, if_neg other]
    rw [Realm.object_modifyObject, if_neg fun h => other h.1, Realm.object_modifyObject]
    split
    next same =>
      rw [same.1] at plain ⊢
      have kept := congrArg ObjectRecord.callable plain
      exact kept
    next => rw [plain]
  refine ⟨f, _, run, rfl, ?_⟩
  constructor
  case adds =>
    have more : μ.realm.objects.size ≤ made.objects.size := by omega
    refine ⟨more, Nat.le_refl _, fun o ho => ?_, fun _ _ => rfl⟩
    refine (callable o (Nat.le_of_lt ho)).trans ?_
    rw [Realm.object_addObject, if_neg]
    rintro rfl
    exact Nat.lt_irrefl _ ho
  case contexts | exits | scripts | invoked => rfl
  case new => exact Nat.le_refl _
  case there =>
    show μ.realm.objects.size < made.objects.size
    omega
  case callable =>
    refine (callable f (Nat.le_refl _)).trans ?_
    rw [Realm.object_addObject, if_pos rfl]
    rfl

/-- The depth that is left is counted from the limit and the contexts. -/
theorem leads_depthLeft :
    Leads s depthLeft μ (s.options.maxRecursionLimit - μ.contexts.size) μ := by
  refine .setup_bind (.get_bind fun m hm => ?_)
  subst hm
  exact .pure _

/-- To mark a function leads to the moment where it is marked. -/
theorem leads_markInvoked (f : ObjectId) : Leads s (markInvoked f) μ () (μ.marking f) := by
  refine .modify fun m hm => ?_
  subst hm
  rw [Machine.markInvoked]
  by_cases called : f ∈ m.invoked
  · rw [if_pos called, Moment.marking, if_pos (show f ∈ m.moment.invoked from called)]
  · rw [if_neg called, Moment.marking, if_neg (show f ∉ m.moment.invoked from called)]
    rfl

/-- The moment in which the body of a function begins that has no parameters and declares nothing. -/
structure Entered (μ ν : Moment) (closure : Closure) (e : EnvId) : Prop where
  adds : μ.Adds ν
  opened : μ.Opened ν closure.scope ["arguments"] e
  contexts : ∃ c : Context, c.lexicalEnv = e ∧ c.returnUnknown = false ∧
    ν.contexts = μ.contexts.push c
  exits : ν.exits = μ.exits
  scripts : ν.scripts = μ.scripts
  invoked : ν.invoked = μ.invoked

/-- Code without parameters and declarations. -/
structure IsBare (code : FunctionCode) : Prop where
  parameters : code.parameters = []
  functions : hoistedFunctions code.body = []
  names : varNames code.body = []

/-- Nothing changes but the bindings of one environment. -/
structure Rebound (μ ν : Moment) (e : EnvId) (b : Bindings) : Prop where
  objects : ν.realm.objects = μ.realm.objects
  environments : ν.realm.environments.size = μ.realm.environments.size
  here : ν.realm.environment e = { μ.realm.environment e with store := .own b }
  others : ∀ other, other ≠ e → ν.realm.environment other = μ.realm.environment other
  contexts : ν.contexts = μ.contexts
  exits : ν.exits = μ.exits
  scripts : ν.scripts = μ.scripts
  invoked : ν.invoked = μ.invoked

section

variable {e : EnvId} {b : Bindings} (there : e.index < μ.realm.environments.size)
  (own : (μ.realm.environment e).store = .own b)

include there own

/-- A change of the bindings of an environment leads to a moment where they alone are changed. -/
theorem leads_modifyBindings {ε : Type} (f : Bindings → Bindings) :
    ∃ ν, Leads s (Op.modifyBindings e f : Eval ε Unit) μ () ν ∧ Rebound μ ν e (f b) := by
  refine ⟨{ μ with realm := μ.realm.modifyEnvironment e (·.mapBindings f) },
    .modify fun m hm => ?_, ?_⟩
  · subst hm
    rfl
  · constructor
    case environments => simp [Realm.modifyEnvironment]
    case here =>
      rw [Realm.environment_modifyEnvironment, if_pos ⟨rfl, there⟩]
      simp only [Environment.mapBindings, own]
    case others =>
      intro other different
      rw [Realm.environment_modifyEnvironment, if_neg fun h => different h.1]
    all_goals rfl

/-- So does a new binding. -/
theorem leads_createBinding (name : String) :
    ∃ ν, Leads s (Op.createBinding e name false) μ () ν ∧ Rebound μ ν e (b.create name false) := by
  obtain ⟨ν, run, rebound⟩ :=
    leads_modifyBindings (s := s) (ε := NativeError) there own (·.create name false)
  refine ⟨ν, .get_bind fun m hm => ?_, rebound⟩
  subst hm
  have own : (m.realm.environment e).store = .own b := own
  simp only [own]
  exact run

/-- An assignment in an environment that is not older than the ambiguous blocks around it. -/
theorem leads_setBinding {name : String} (bound : b.has name = true) (v : Value) :
    ∃ ν, (μ.contexts.level ≤ (μ.realm.environment e).createdLevel →
        Leads s (Op.setBinding e name v) μ () ν) ∧ Rebound μ ν e (b.assign name v) := by
  obtain ⟨ν, run, rebound⟩ :=
    leads_modifyBindings (s := s) (ε := NativeError) there own (·.assign name v)
  refine ⟨ν, fun level => .get_bind fun m hm => ?_, rebound⟩
  have stored : Leads s (Op.weaken (μ.realm.environment e).createdLevel v : Op Value) μ v μ := by
    refine .get_bind fun m hm => ?_
    subst hm
    rw [Machine.isAmbiguousWrite, decide_eq_false (show ¬ _ < m.level from Nat.not_lt.2 level)]
    exact .pure v
  subst hm
  refine stored.bind (.get_bind fun k hk => ?_)
  have own : (k.realm.environment e).store = .own b := by
    rw [show k.realm = m.realm from congrArg Moment.realm hk]
    exact own
  simp only [own, if_pos bound]
  exact run

end

/-- Without parameters and declarations, a call binds `arguments` only. -/
theorem leads_enterBody {code : FunctionCode} (bare : IsBare code) {e : EnvId}
    (there : e.index < μ.realm.environments.size)
    (own : (μ.realm.environment e).store = .own {}) :
    ∃ ν b, (μ.contexts.level ≤ (μ.realm.environment e).createdLevel →
        Leads s (enterBody code e []) μ () ν) ∧ b.names = ["arguments"] ∧
      Rebound { μ with realm := μ.realm.addObject (Realm.argumentsRecord μ.realm.ambiguityLevel []) }
        ν e b := by
  let o := μ.realm.nextObject
  let first : Moment :=
    { μ with realm := μ.realm.addObject (Realm.argumentsRecord μ.realm.ambiguityLevel []) }
  have created : Leads s (create (Realm.argumentsRecord · []) : Run ObjectId) μ o first := by
    refine ⟨fun m hm => ?_⟩
    subst hm
    exact ⟨_, rfl, rfl⟩
  -- `arguments` is bound, and then given its value
  let b := ({} : Bindings).create "arguments" false
  have names : b.names = ["arguments"] := by
    rw [Bindings.names_create]
    rfl
  have bound : b.has "arguments" = true := by
    rw [Bindings.has_iff, names]
    exact List.mem_singleton_self _
  obtain ⟨second, declared, rebound⟩ :=
    leads_createBinding (s := s) (μ := first) there own "arguments"
  have here : (second.realm.environment e).store = .own b :=
    congrArg Environment.store rebound.here
  have there' : e.index < second.realm.environments.size := by
    rw [rebound.environments]
    exact there
  obtain ⟨third, assigned, rebound'⟩ :=
    leads_setBinding (s := s) (μ := second) there' here bound (.object o)
  refine ⟨third, b.assign "arguments" (.object o), fun level => ?_, ?_, ?_⟩
  · have assigned : Leads s (Op.setBinding e "arguments" (.object o)) second () third := by
      refine assigned ?_
      rw [rebound.here, rebound.contexts]
      exact level
    have declares : Leads s (Op.declareArguments e o) first () third := by
      refine .get_bind fun m hm => ?_
      have free : m.realm.binds e "arguments" = false := by
        have own : (m.realm.environment e).store = .own {} := by
          rw [show m.realm = first.realm from congrArg Moment.realm hm]
          exact own
        rw [Realm.binds, own, ← Bool.not_eq_true]
        show ¬ Bindings.has {} "arguments" = true
        rw [Bindings.has_iff]
        exact List.not_mem_nil
      simp only [free]
      exact declared.bind assigned
    have bind : Leads s (do
        Op.bindParameters e code.parameters []
        Op.instantiate e code.body (some o) : Op Unit) first () third := by
      rw [bare.parameters, Op.instantiate, bare.functions, bare.names]
      exact (Leads.pure ()).bind ((Leads.pure ()).bind (declares.bind (.pure ())))
    exact created.bind ((bind.attempt (ε := FatalError)).bind (.pure ()))
  · rw [Bindings.names_assign, names]
  · constructor
    case objects => exact rebound'.objects.trans rebound.objects
    case environments => exact rebound'.environments.trans rebound.environments
    case here => rw [rebound'.here, rebound.here]
    case others =>
      intro other different
      exact (rebound'.others other different).trans (rebound.others other different)
    case contexts => exact rebound'.contexts.trans rebound.contexts
    case exits => exact rebound'.exits.trans rebound.exits
    case scripts => exact rebound'.scripts.trans rebound.scripts
    case invoked => exact rebound'.invoked.trans rebound.invoked

/-- A call of a function without parameters and declarations comes down to its body. -/
theorem leads_callScript {closure : Closure} (bare : IsBare closure.code) {f : ObjectId}
    {this : Value} (receiver : this = .undefined ∨ this = .unknown) {body : Run Completion}
    {P : Moment → Prop}
    (run : ∀ ν e, Entered μ ν closure e → ∃ c ρ, Leads s body ν c ρ ∧ c.kind = .normal ∧
      ρ.contexts = ν.contexts ∧ ρ.exits = μ.exits ∧ P (ρ.withContexts μ.contexts)) :
    ∃ ρ, Leads s (callScript body f closure this []) μ (.normal .undefined) ρ ∧
      ρ.contexts = μ.contexts ∧ ρ.exits = μ.exits ∧ P ρ := by
  obtain ⟨v, given⟩ : ∃ v, Leads s (scriptReceiver this) μ v μ := by
    rcases receiver with rfl | rfl
    · exact ⟨_, .pure _⟩
    · exact ⟨_, .pure _⟩
  let e := μ.realm.nextEnvironment
  let env : Environment :=
    { Environment.fresh (some closure.scope) with createdLevel := μ.realm.ambiguityLevel }
  let opened : Moment := { μ with realm := μ.realm.addEnvironment env }
  have created : Leads s (createEnvironment (.fresh (some closure.scope)) : Run EnvId) μ e opened := by
    refine ⟨fun m hm => ?_⟩
    subst hm
    exact ⟨_, rfl, rfl⟩
  let c : Context := .enter (some f) e v
  let inside : Moment := opened.withContexts (opened.contexts.push c)
  have size : inside.realm.environments.size = μ.realm.environments.size + 1 := by
    simp [inside, opened, Moment.withContexts, Realm.addEnvironment]
  have here : inside.realm.environment e = env := by
    show (μ.realm.addEnvironment env).environment e = env
    rw [Realm.environment_addEnvironment, if_pos rfl]
  have there : e.index < inside.realm.environments.size := by
    rw [size]
    exact Nat.lt_succ_self _
  obtain ⟨ν, b, entering, names, rebound⟩ :=
    leads_enterBody (s := s) bare there (congrArg Environment.store here)
  have entered : Entered μ ν closure e := by
    constructor
    case adds =>
      constructor
      case objects =>
        rw [rebound.objects]
        simp [inside, opened, Moment.withContexts, Realm.addEnvironment, Realm.addObject]
      case environments =>
        rw [rebound.environments]
        show _ ≤ inside.realm.environments.size
        omega
      case callable =>
        intro o old
        rw [Realm.object, rebound.objects]
        show (((inside.realm.addObject _).object o).callable) = _
        rw [Realm.object_addObject, if_neg]
        · rfl
        · rintro rfl
          exact Nat.lt_irrefl _ old
      case environment =>
        intro other old
        have different : other ≠ e := by
          rintro rfl
          exact Nat.lt_irrefl _ old
        rw [rebound.others other different]
        show (μ.realm.addEnvironment env).environment other = _
        rw [Realm.environment_addEnvironment, if_neg different]
    case opened =>
      have now : ν.realm.environment e = { env with store := .own b } := by
        rw [rebound.here]
        exact congrArg (fun env : Environment => { env with store := .own b }) here
      constructor
      case new => exact Nat.le_refl _
      case there =>
        rw [rebound.environments]
        exact there
      case outer => rw [now]; rfl
      case bound => exact ⟨b, by rw [now], names⟩
    case contexts => exact ⟨c, rfl, rfl, rebound.contexts⟩
    case exits => exact rebound.exits
    case scripts => exact rebound.scripts
    case invoked => exact rebound.invoked
  obtain ⟨d, ρ, ran, normal, contexts, exits, holds⟩ := run ν e entered
  refine ⟨ρ.withContexts μ.contexts, ?_, rfl, exits, holds⟩
  -- the new environment is as ambiguous as the contexts are
  have contexts : ρ.contexts = opened.contexts.push c := contexts.trans rebound.contexts
  refine .of_synced fun synced => given.bind (created.bind (Leads.inContext c ?_ contexts ?_))
  · have level : inside.contexts.level ≤ (inside.realm.environment e).createdLevel := by
      have told : μ.contexts.level = μ.realm.ambiguityLevel :=
        congrArg (fun μ => μ.realm.ambiguityLevel) synced
      have pushed : inside.contexts.level = c.ambiguity + μ.contexts.level := rfl
      rw [here, pushed, told]
      show 0 + _ ≤ μ.realm.ambiguityLevel
      omega
    refine (entering level).bind (ran.bind (.get_bind fun m hm => ?_))
    have certain : m.returnUnknown = false := by
      rw [Machine.returnUnknown, show m.contexts = opened.contexts.push c from
        (congrArg Moment.contexts hm).trans contexts]
      rfl
    have result : callResult d false = .normal .undefined := by
      simp [callResult, Completion.isThrow, normal]
    simp only [certain, result]
    exact .pure _
  · exact Nat.le_of_eq (by rw [exits])

end Eval

end AbstractScript
