import AbstractScript.Proofs.Registry

/-!
# Computations that look at no records

What evaluation goes by is the *standing* of a machine: its objects and environments, its contexts,
its functions and the completions that may have happened. The rest records what happens: the rules
that are being evaluated, events, diagnostics, marks and what is there for theorems only. Two
computations are *alike* if from machines of the same standing they give the same result and leave
machines of the same standing. A computation is *oblivious* if it is like itself, whatever the
records are, and obeys the registry.
-/
namespace AbstractScript

/-- What evaluation goes by. -/
structure Standing where
  realm : Realm
  contexts : ContextStack
  labels : List String
  scripts : Array ObjectId
  invoked : List ObjectId
  exits : List Completion

namespace Machine

/-- What evaluation goes by in a machine. Of a possible exit only its completion counts. -/
def standing (m : Machine) : Standing where
  realm := m.realm
  contexts := m.contexts
  labels := m.labels
  scripts := m.scripts
  invoked := m.invoked
  exits := m.exits.toList.map (·.completion)

variable {m n : Machine}

/-! ## Machines of the same standing -/

theorem realm_eq (h : m.standing = n.standing) : m.realm = n.realm :=
  congrArg Standing.realm h

theorem contexts_eq (h : m.standing = n.standing) : m.contexts = n.contexts :=
  congrArg Standing.contexts h

theorem labels_eq (h : m.standing = n.standing) : m.labels = n.labels :=
  congrArg Standing.labels h

theorem scripts_eq (h : m.standing = n.standing) : m.scripts = n.scripts :=
  congrArg Standing.scripts h

theorem invoked_eq (h : m.standing = n.standing) : m.invoked = n.invoked :=
  congrArg Standing.invoked h

/-- The same completions may have happened, in the same order. -/
theorem completions_eq (h : m.standing = n.standing) :
    m.exits.toList.map (·.completion) = n.exits.toList.map (·.completion) :=
  congrArg Standing.exits h

/-- There are as many possible exits. -/
theorem exits_size_eq (h : m.standing = n.standing) : m.exits.size = n.exits.size := by
  have same := congrArg List.length (completions_eq h)
  rwa [List.length_map, List.length_map] at same

/-- The same environment is looked at for names. -/
theorem lexicalEnv_eq (h : m.standing = n.standing) : m.lexicalEnv = n.lexicalEnv := by
  rw [lexicalEnv, lexicalEnv, contexts_eq h]

theorem this_eq (h : m.standing = n.standing) : m.this = n.this := by
  rw [this, this, contexts_eq h]

/-- The same calls may have returned. -/
theorem returnUnknown_eq (h : m.standing = n.standing) :
    m.returnUnknown = n.returnUnknown := by
  rw [returnUnknown, returnUnknown, contexts_eq h]

/-! ## Changes that respect standings -/

/-- Machines of the same standing are changed to machines of the same standing, and no event is
fired. -/
structure Respects (f : Machine → Machine) : Prop where
  standing : ∀ m n : Machine, m.standing = n.standing → (f m).standing = (f n).standing
  events : ∀ m, (f m).events = m.events

namespace Respects

/-- A change whose effect on the standing depends on the standing only. -/
theorem of_eq {f : Machine → Machine} {g : Standing → Standing}
    (h : ∀ m, (f m).standing = g m.standing) (events : ∀ m, (f m).events = m.events) :
    Respects f where
  standing m n same := by rw [h, h, same]
  events := events

/-- A change of records other than events. -/
theorem of_same {f : Machine → Machine} (h : ∀ m, (f m).standing = m.standing)
    (events : ∀ m, (f m).events = m.events) : Respects f := of_eq (g := id) h events

/-- One change after another. -/
theorem comp {f g : Machine → Machine} (hf : Respects f) (hg : Respects g) :
    Respects fun m => f (g m) where
  standing _ _ same := hf.standing _ _ (hg.standing _ _ same)
  events m := (hf.events (g m)).trans (hg.events m)

theorem addObject (record : ObjectRecord) : Respects (·.addObject record) :=
  of_eq (g := fun st => { st with realm := st.realm.addObject record }) (fun _ => rfl) fun _ => rfl

theorem addEnvironment (e : Environment) : Respects (·.addEnvironment e) :=
  of_eq (g := fun st => { st with realm := st.realm.addEnvironment e }) (fun _ => rfl) fun _ => rfl

theorem modifyObject (o : ObjectId) (f : ObjectRecord → ObjectRecord) :
    Respects (·.modifyObject o f) :=
  of_eq (g := fun st => { st with realm := st.realm.modifyObject o f }) (fun _ => rfl) fun _ => rfl

theorem modifyEnvironment (e : EnvId) (f : Environment → Environment) :
    Respects (·.modifyEnvironment e f) :=
  of_eq (g := fun st => { st with realm := st.realm.modifyEnvironment e f }) (fun _ => rfl)
    fun _ => rfl

theorem addScript (f : ObjectId) : Respects (·.addScript f) :=
  of_eq (g := fun st => { st with scripts := st.scripts.push f }) (fun _ => rfl) fun _ => rfl

/-- A function is recorded once, the first time that it is called. -/
theorem markInvoked (f : ObjectId) : Respects (·.markInvoked f) := by
  refine of_eq (g := fun st => if f ∈ st.invoked then st else { st with invoked := f :: st.invoked })
    (fun m => ?_) fun m => ?_
  · show (Machine.markInvoked m f).standing = if f ∈ m.invoked then _ else _
    unfold Machine.markInvoked
    split <;> rfl
  · unfold Machine.markInvoked
    split <;> rfl

/-- Contexts that depend on the contexts from before. -/
theorem withContexts (f : ContextStack → ContextStack) :
    Respects fun m => m.withContexts (f m.contexts) :=
  of_eq (g := fun st =>
    { st with
      contexts := f st.contexts
      realm := { st.realm with ambiguityLevel := (f st.contexts).level } }) (fun _ => rfl) fun _ => rfl

/-- The innermost context alone changes. -/
theorem setLexicalEnv (e : EnvId) : Respects (·.setLexicalEnv e) :=
  of_eq (g := fun st => { st with contexts := st.contexts.setLexicalEnv e }) (fun _ => rfl)
    fun _ => rfl

theorem enterBlock : Respects Machine.enterBlock := withContexts ContextStack.enterBlock

/-- A block is left by what was known when it was entered. -/
theorem exitBlock (index : Option Nat) : Respects (·.exitBlock index) := by
  cases index with
  | none => exact of_same (fun _ => rfl) fun _ => rfl
  | some index => exact withContexts (·.exitBlock index)

/-- The context that may have returned is the innermost, and its environment is marked too. -/
theorem markReturnUnknown : Respects Machine.markReturnUnknown := by
  refine ⟨fun m n same => ?_, fun m => ?_⟩
  · have running : m.contexts.running? = n.contexts.running? := by rw [contexts_eq same]
    unfold Machine.markReturnUnknown
    rw [← running]
    split
    · exact (withContexts id).standing m n same
    · exact (modifyEnvironment _ _).standing _ _
        ((withContexts ContextStack.markReturned).standing m n same)
  · unfold Machine.markReturnUnknown
    split <;> rfl

/-- Where a completion was recorded is no part of the standing, its order among the others is. -/
theorem addExit (c : Completion) : Respects (·.addExit c) :=
  of_eq (g := fun st => { st with exits := st.exits ++ [c] })
    (fun m => by simp [Machine.standing, Machine.addExit]) fun _ => rfl

/-- A completion that may have happened is noted by its kind. -/
theorem noteExit (c : Completion) : Respects (·.noteExit c) := by
  unfold Machine.noteExit
  cases c.kind with
  | normal => exact of_same (fun _ => rfl) fun _ => rfl
  | returns => exact markReturnUnknown
  | breaks | continues | throws => exact addExit c

/-- The exits that stay are those whose completions are not claimed. -/
theorem dropClaimed (mark : Nat) (p : Completion → Bool) : Respects (·.dropClaimed mark p) := by
  refine of_eq (g := fun st =>
    { st with exits := st.exits.take mark ++ (st.exits.drop mark).filter (!p ·) })
    (fun m => ?_) fun m => ?_
  · have exits : (m.dropClaimed mark p).exits.toList.map (·.completion) =
        m.standing.exits.take mark ++ (m.standing.exits.drop mark).filter (!p ·) := by
      simp only [exits_dropClaimed, exitsSince_eq_drop, Machine.standing, List.map_append,
        List.map_take, ← List.map_drop, List.filter_map, Function.comp_def]
    have others : (m.dropClaimed mark p).standing =
        { m.standing with exits := (m.dropClaimed mark p).exits.toList.map (·.completion) } := by
      unfold Machine.dropClaimed
      split <;> rfl
    rw [others, exits]
  · unfold Machine.dropClaimed
    split <;> rfl

end Respects

/-- The same possible exits can be claimed, if any. -/
theorem claimed_isEmpty_eq {mark : Nat} {p : Completion → Bool} (h : m.standing = n.standing) :
    (m.claimed mark p).isEmpty = (n.claimed mark p).isEmpty := by
  have claimed (k : Machine) :
      (k.claimed mark p).map (·.completion) =
        ((k.exits.toList.map (·.completion)).drop mark).filter p := by
    rw [Machine.claimed, exitsSince_eq_drop, ← List.map_drop, List.filter_map]
    rfl
  rw [← List.isEmpty_map (f := (·.completion)), claimed, completions_eq h, ← claimed,
    List.isEmpty_map]

end Machine

/-! ## Computations that are alike -/

namespace Eval

variable {ε α β : Type}

/-- What a computation gives, and the standing of the machine that it leaves. -/
def outcome (x : Eval ε α) (s : Setup) (m : Machine) : Except ε α × Standing :=
  match x s m with
  | .ok a n => (.ok a, n.standing)
  | .error e n => (.error e, n.standing)

/-- From machines of the same standing the computations come to the same. -/
def Alike (s : Setup) (x y : Eval ε α) : Prop :=
  ∀ m n, m.standing = n.standing → x.outcome s m = y.outcome s n

/-- The computation does not look at records, and it asks the registry for nothing but the rules of
the nodes that it evaluates. -/
structure IsOblivious [Failure ε] (x : Eval ε α) : Prop extends Obeys x where
  alike : ∀ s, Alike s x x

variable {x y : Eval ε α} {f g : α → Eval ε β} {s : Setup} {m n : Machine}

theorem outcome_ok {a : α} (run : x s m = .ok a n) : x.outcome s m = (.ok a, n.standing) := by
  rw [outcome, run]

theorem outcome_error {e : ε} (run : x s m = .error e n) :
    x.outcome s m = (.error e, n.standing) := by
  rw [outcome, run]

/-- A computation whose outcome is a success succeeds. -/
theorem exists_of_outcome_ok {a : α} {st : Standing} (h : x.outcome s m = (.ok a, st)) :
    ∃ n, x s m = .ok a n ∧ n.standing = st := by
  cases run : x s m with
  | ok b n =>
    rw [outcome_ok run] at h
    cases h
    exact ⟨n, rfl, rfl⟩
  | error e n =>
    rw [outcome_error run] at h
    cases h

/-- A computation whose outcome is a failure fails. -/
theorem exists_of_outcome_error {e : ε} {st : Standing} (h : x.outcome s m = (.error e, st)) :
    ∃ n, x s m = .error e n ∧ n.standing = st := by
  cases run : x s m with
  | ok b n =>
    rw [outcome_ok run] at h
    cases h
  | error e' n =>
    rw [outcome_error run] at h
    cases h
    exact ⟨n, rfl, rfl⟩

/-- Computations that come to the same, followed by others that do, come to the same. -/
theorem outcome_bind_congr (same : x.outcome s m = y.outcome s n)
    (rest : ∀ a k l, x s m = .ok a k → k.standing = l.standing →
      (f a).outcome s k = (g a).outcome s l) :
    (x >>= f).outcome s m = (y >>= g).outcome s n := by
  cases run : x s m with
  | ok a k =>
    rw [outcome_ok run] at same
    obtain ⟨l, run', standing⟩ := exists_of_outcome_ok same.symm
    have first : (x >>= f).outcome s m = (f a).outcome s k := by
      rw [outcome, bind_apply, run, outcome]
    have second : (y >>= g).outcome s n = (g a).outcome s l := by
      rw [outcome, bind_apply, run', outcome]
    rw [first, second]
    exact rest a k l run standing.symm
  | error e k =>
    rw [outcome_error run] at same
    obtain ⟨l, run', standing⟩ := exists_of_outcome_error same.symm
    rw [outcome, bind_apply, run, outcome, bind_apply, run']
    simp only [standing]

namespace Alike

/-- What is alike step by step is alike. -/
theorem bind (h : Alike s x y) (rest : ∀ a, Alike s (f a) (g a)) :
    Alike s (x >>= f) (y >>= g) := fun m n same =>
  outcome_bind_congr (h m n same) fun a k l _ => rest a k l

/-- What gives a value and only changes records makes no difference. -/
theorem of_records {a : α} {z : Eval ε β}
    (h : ∀ m, ∃ n, x s m = .ok a n ∧ n.standing = m.standing) (rest : Alike s (f a) z) :
    Alike s (x >>= f) z := fun m n same => by
  obtain ⟨k, run, standing⟩ := h m
  have after : (x >>= f).outcome s m = (f a).outcome s k := by
    rw [outcome, bind_apply, run, outcome]
  rw [after]
  exact rest k n (standing.trans same)

end Alike

/-! ## Oblivious computations -/

namespace IsOblivious

variable [Failure ε]

theorem pure (a : α) : IsOblivious (pure a : Eval ε α) :=
  ⟨.pure a, fun s m n same => by
    rw [outcome_ok (pure_apply a s m), outcome_ok (pure_apply a s n), same]⟩

/-- A failure leaves the machine as it is. -/
theorem throw (e : ε) : IsOblivious (throw e : Eval ε α) :=
  ⟨.throw e, fun s m n same => by
    rw [outcome_error (throw_apply e s m), outcome_error (throw_apply e s n), same]⟩

/-- What follows a step may rely on what the step gives. -/
theorem bind_of {P : α → Prop} (h : IsOblivious x) (gives : ∀ s m a n, x s m = .ok a n → P a)
    (rest : ∀ a, P a → IsOblivious (f a)) : IsOblivious (x >>= f) :=
  ⟨.bind_of h.toObeys gives fun a ha => (rest a ha).toObeys, fun s m n same =>
    outcome_bind_congr (h.alike s m n same) fun a k l run =>
      (rest a (gives s m a k run)).alike s k l⟩

theorem bind (h : IsOblivious x) (rest : ∀ a, IsOblivious (f a)) : IsOblivious (x >>= f) :=
  .bind_of (P := fun _ => True) h (fun _ _ _ _ _ => trivial) fun a _ => rest a

/-- The result may be changed by a function. -/
theorem map (f : α → β) (h : IsOblivious x) : IsOblivious (f <$> x) := by
  rw [map_eq_pure_bind]
  exact .bind h fun a => .pure (f a)

/-- A look at what the setup says aside from the registry. -/
theorem setup {f : Setup → α} (same : ∀ {s' s : Setup}, s'.IsPartOf s → f s' = f s) :
    IsOblivious (setup f : Eval ε α) :=
  ⟨.setup same, fun s m n same => by
    rw [outcome_ok (setup_apply f s m), outcome_ok (setup_apply f s n), same]⟩

/-- The limits are part of the setup, and so no records. -/
theorem maxLoopIterations :
    IsOblivious (Eval.setup (·.options.maxLoopIterations) : Eval ε Nat) :=
  .setup fun part => by rw [part.options]

/-- What follows a look at the machine may depend on its standing. -/
theorem look {f : Machine → Eval ε β}
    (same : ∀ m n : Machine, m.standing = n.standing → f m = f n)
    (h : ∀ m, IsOblivious (f m)) : IsOblivious (get >>= f) := by
  refine ⟨.bind .get fun m => (h m).toObeys, fun s m n standing => ?_⟩
  show (f m).outcome s m = (f n).outcome s n
  rw [same m n standing]
  exact (h n).alike s m n standing

/-- A change that respects standings. -/
theorem modify {u : Machine → Machine} (h : Machine.Respects u) :
    IsOblivious (modify u : Eval ε Unit) :=
  ⟨.modify h.events, fun s m n same => by
    rw [outcome_ok (modify_apply u s m), outcome_ok (modify_apply u s n), h.standing m n same]⟩

/-- A change that respects standings, with a result that depends on the standing. -/
theorem modifyGet {u : Machine → α × Machine}
    (result : ∀ m n : Machine, m.standing = n.standing → (u m).1 = (u n).1)
    (h : Machine.Respects fun m => (u m).2) : IsOblivious (modifyGet u : Eval ε α) :=
  ⟨.modifyGet h.events,
    fun _ m n same => Prod.ext (congrArg Except.ok (result m n same)) (h.standing m n same)⟩

/-- What only changes records. -/
theorem of_records {x : Eval ε Unit} (obeys : Obeys x)
    (h : ∀ s m, ∃ n, x s m = .ok () n ∧ n.standing = m.standing) : IsOblivious x := by
  refine ⟨obeys, fun s m n same => ?_⟩
  obtain ⟨k, run, standing⟩ := h s m
  obtain ⟨l, run', standing'⟩ := h s n
  rw [outcome_ok run, outcome_ok run', standing, standing', same]

/-- A loop over a list is oblivious if each of its steps is. -/
theorem forM {xs : List α} {f : α → Eval ε Unit} (h : ∀ a ∈ xs, IsOblivious (f a)) :
    IsOblivious (xs.forM f) := by
  induction xs with
  | nil => exact pure ()
  | cons a xs ih =>
    exact bind (h a List.mem_cons_self) fun _ => ih fun b hb => h b (List.mem_cons_of_mem a hb)

/-- An attempt goes by whether the operation succeeds, which records do not decide. -/
theorem attempt {op : Op α} (h : IsOblivious op) :
    IsOblivious (op.attempt : Eval ε _) := by
  refine ⟨.attempt h.toObeys, fun s m n same => ?_⟩
  have alike := h.alike s m n same
  cases run : op s m with
  | ok a k =>
    rw [outcome_ok run] at alike
    obtain ⟨l, run', standing⟩ := exists_of_outcome_ok alike.symm
    rw [outcome, Op.attempt, run, outcome, Op.attempt, run']
    simp only [standing]
  | error e k =>
    rw [outcome_error run] at alike
    obtain ⟨l, run', standing⟩ := exists_of_outcome_error alike.symm
    rw [outcome, Op.attempt, run, outcome, Op.attempt, run']
    simp only [standing]

end IsOblivious

/-- What is done to the machine after a computation, whether it succeeds or fails, makes no
difference if it respects standings. -/
theorem Alike.ensuring {u : Machine → Machine} (h : Alike s x y) (hu : Machine.Respects u) :
    Alike s (x.ensuring u) (y.ensuring u) := by
  have after (z : Eval ε α) (m : Machine) : (z.ensuring u).outcome s m =
      match z s m with
      | .ok a k => (.ok a, (u k).standing)
      | .error e k => (.error e, (u k).standing) := by
    rw [outcome, ensuring_apply]
    cases z s m <;> rfl
  intro m n same
  have alike := h m n same
  rw [after, after]
  cases run : x s m with
  | ok a k =>
    rw [outcome_ok run] at alike
    obtain ⟨l, run', standing⟩ := exists_of_outcome_ok alike.symm
    rw [run']
    exact Prod.ext rfl (hu.standing k l standing.symm)
  | error e k =>
    rw [outcome_error run] at alike
    obtain ⟨l, run', standing⟩ := exists_of_outcome_error alike.symm
    rw [run']
    exact Prod.ext rfl (hu.standing k l standing.symm)

/-! ## Steps of evaluation -/

namespace IsOblivious

variable [Failure ε]

theorem object (o : ObjectId) : IsOblivious (object o : Eval ε ObjectRecord) :=
  look (fun _ _ same => by rw [Machine.realm_eq same]) fun _ => pure _

theorem modifyObject (o : ObjectId) (f : ObjectRecord → ObjectRecord) :
    IsOblivious (modifyObject o f : Eval ε Unit) := modify (.modifyObject o f)

/-- A new object is created at the level of the contexts. -/
theorem create (record : Nat → ObjectRecord) :
    IsOblivious (create record : Eval ε ObjectId) := by
  refine modifyGet (fun m n same => ?_) ⟨fun m n same => ?_, fun _ => rfl⟩
  · rw [Machine.realm_eq same]
  · show (m.addObject (record m.realm.ambiguityLevel)).standing = _
    rw [Machine.realm_eq same]
    exact (Machine.Respects.addObject _).standing m n same

theorem createObject (cls : ObjectClass) (prototype : Option ObjectId) :
    IsOblivious (createObject cls prototype : Eval ε ObjectId) := create _

theorem createPlain : IsOblivious (createPlain : Eval ε ObjectId) := create _

theorem createArray (elements : List Value) :
    IsOblivious (createArray elements : Eval ε ObjectId) := create _

theorem createFunction (callable : Callable) :
    IsOblivious (createFunction callable : Eval ε ObjectId) := create _

/-- A new environment is created at the level of the contexts. -/
theorem createEnvironment (e : Environment) :
    IsOblivious (createEnvironment e : Eval ε EnvId) := by
  refine modifyGet (fun m n same => ?_) ⟨fun m n same => ?_, fun _ => rfl⟩
  · rw [Machine.realm_eq same]
  · show (m.addEnvironment { e with createdLevel := m.realm.ambiguityLevel }).standing = _
    rw [Machine.realm_eq same]
    exact (Machine.Respects.addEnvironment _).standing m n same

/-- A report is a record. -/
theorem reportHere (kind : DiagnosticKind) (message : String) :
    IsOblivious (reportHere kind message : Eval ε Unit) :=
  of_records (.reportHere kind message) fun _ _ => ⟨_, rfl, rfl⟩

theorem reportError (e : NativeError) : IsOblivious (reportError e : Eval ε Unit) :=
  reportHere _ _

theorem reportMaxIterations : IsOblivious (reportMaxIterations : Eval ε Unit) :=
  bind maxLoopIterations fun _ => reportHere _ _

/-- The limit that a report names is part of the setup. -/
theorem reportMaxRecursion : IsOblivious (reportMaxRecursion : Eval ε Unit) :=
  bind (setup fun part => by rw [part.options]) fun _ => reportHere _ _

/-- Where a condition was unknown is a record. -/
theorem markUnknown (span : Span) : IsOblivious (markUnknown span : Eval ε Unit) :=
  bind (setup fun part => part.file) fun _ => modify (.of_same (fun _ => rfl) fun _ => rfl)

/-- A mark is a number of possible exits, which is part of the standing. -/
theorem mark : IsOblivious (mark : Eval ε Nat) :=
  look (fun _ _ same => by rw [Machine.exits_size_eq same]) fun _ => pure _

theorem note (c : Completion) : IsOblivious (note c : Eval ε Unit) :=
  modify (.noteExit c)

/-- The labels that a statement takes are part of the standing. -/
theorem takeLabels : IsOblivious takeLabels :=
  modifyGet (fun _ _ => Machine.labels_eq) (.of_eq (g := fun st => { st with labels := [] })
    (fun _ => rfl) fun _ => rfl)

/-- What follows a claim may depend on whether there was an exit to claim. -/
theorem claim_bind {mark : Nat} {p : Completion → Bool} {f : List PossibleExit → Eval ε β}
    (same : ∀ es es' : List PossibleExit, es.isEmpty = es'.isEmpty → f es = f es')
    (h : ∀ es, IsOblivious (f es)) : IsOblivious (claim mark p >>= f) := by
  refine ⟨.bind (.modifyGet (Machine.Respects.dropClaimed mark p).events) fun es => (h es).toObeys,
    fun s m n standing => ?_⟩
  show (f (m.claimed mark p)).outcome s (m.dropClaimed mark p) =
    (f (n.claimed mark p)).outcome s (n.dropClaimed mark p)
  rw [same _ _ (Machine.claimed_isEmpty_eq standing)]
  exact (h _).alike s _ _ ((Machine.Respects.dropClaimed mark p).standing m n standing)

/-- What is done at the end respects standings as what is done before. -/
theorem ensuring {u : Machine → Machine} (hx : IsOblivious x) (hu : Machine.Respects u) :
    IsOblivious (x.ensuring u) :=
  ⟨.ensuring hx.toObeys hu.events, fun s => (hx.alike s).ensuring hu⟩

/-- That something is added to the history makes no difference. -/
theorem recorded (hx : IsOblivious x) : IsOblivious (recorded x) := by
  have same (s : Setup) (m : Machine) : (Eval.recorded x).outcome s m = x.outcome s m := by
    unfold outcome Eval.recorded
    cases x s m <;> rfl
  exact ⟨.recorded hx.toObeys, fun s m n standing => by rw [same, same, hx.alike s m n standing]⟩

/-- A block enters and leaves contexts only. -/
theorem inBlock (span : Span) (hx : IsOblivious x) : IsOblivious (inBlock span x) := by
  refine bind (setup fun part => part.file) fun file =>
    bind (modify (.of_same (fun _ => rfl) fun _ => rfl)) fun _ =>
      look (fun m n same => by rw [Machine.contexts_eq same]) fun m =>
        bind (modify .enterBlock) fun _ => ensuring hx (.exitBlock _)

/-- What may or may not happen is noted at the end of its block. -/
theorem ambiguously {x : Eval ε Completion} (span : Span) (hx : IsOblivious x) :
    IsOblivious (ambiguously span x) :=
  recorded (inBlock span (bind hx fun c => bind (note c) fun _ => pure _))

end IsOblivious

end Eval

/-! ## Rules -/

namespace Rule

open Eval

variable {α β : Type}

variable {r r' : Rule α} {f g : α → Rule β}

/-- Parts that come to the same, followed by others that do, come to the same. -/
theorem outcome_bind_congr {s : Setup} {m n : Machine}
    (same : r.run.outcome s m = r'.run.outcome s n)
    (rest : ∀ a k l, r.run s m = .ok (.ok a) k → k.standing = l.standing →
      (f a).run.outcome s k = (g a).run.outcome s l) :
    (r >>= f).run.outcome s m = (r' >>= g).run.outcome s n := by
  refine Eval.outcome_bind_congr same ?_
  rintro (c | a) k l run standing
  · exact (Eval.IsOblivious.pure (Except.error c)).alike s k l standing
  · exact rest a k l run standing

/-- Rules that are alike part by part are alike. -/
theorem alike_bind {s : Setup} (h : Alike s r.run r'.run)
    (rest : ∀ a, Alike s (f a).run (g a).run) : Alike s (r >>= f).run (r' >>= g).run :=
  fun m n same => outcome_bind_congr (h m n same) fun a k l _ => rest a k l

/-- The rule does not look at records, and it asks the registry for nothing but the rules of the nodes
that it evaluates. -/
structure IsOblivious (r : Rule α) : Prop where
  run : Eval.IsOblivious r.run

namespace IsOblivious

theorem pure (a : α) : IsOblivious (pure a : Rule α) := ⟨.pure (Except.ok a)⟩

theorem throw (c : Completion) : IsOblivious (throw c : Rule α) :=
  ⟨.pure (Except.error c)⟩

/-- A rule is oblivious if its parts are. -/
theorem bind (h : IsOblivious r) (rest : ∀ a, IsOblivious (f a)) :
    IsOblivious (r >>= f) :=
  ⟨.bind h.run.toObeys fun | .ok a => (rest a).run.toObeys | .error c => .pure (Except.error c),
    fun s => alike_bind (h.run.alike s) fun a => (rest a).run.alike s⟩

theorem lift {x : Run α} (h : Eval.IsOblivious x) : IsOblivious (lift x) :=
  ⟨.map Except.ok h⟩

/-- What follows a look at the machine may depend on its standing. -/
theorem look {f : Machine → Rule β}
    (same : ∀ m n : Machine, m.standing = n.standing → f m = f n)
    (h : ∀ m, IsOblivious (f m)) : IsOblivious (get >>= f) := by
  have run : (get >>= f : Rule β).run = get >>= fun m => (f m).run := rfl
  refine ⟨?_⟩
  rw [run]
  exact .look (fun m n standing => by rw [same m n standing]) fun m => (h m).run

/-- A loop over a list is oblivious if each of its parts is. -/
theorem forM {xs : List α} {f : α → Rule Unit} (h : ∀ a ∈ xs, IsOblivious (f a)) :
    IsOblivious (xs.forM f) := by
  induction xs with
  | nil => exact pure ()
  | cons a xs ih =>
    exact bind (h a List.mem_cons_self) fun _ => ih fun b hb => h b (List.mem_cons_of_mem a hb)

/-- A completion that is not normal ends the rule. -/
theorem value {x : Run Completion} (h : Eval.IsOblivious x) :
    IsOblivious (value x) := by
  refine bind (lift h) fun c => ?_
  split
  · exact throw c
  · exact pure _

/-- A native error is reported and ends the rule. -/
theorem native {op : Op α} (h : Eval.IsOblivious op) : IsOblivious (native op) := by
  refine bind (lift (.attempt h)) fun result => ?_
  split
  · exact pure _
  · exact bind (lift (.reportError _)) fun _ => throw _

end IsOblivious

end Rule

namespace Eval.IsOblivious

/-- A rule is complete with its result or with what has ended it. -/
theorem complete {r : Rule Completion} (h : r.IsOblivious) : IsOblivious r.complete :=
  .bind h.run fun | .ok c | .error c => .pure c

theorem recover {op : Op Completion} (h : IsOblivious op) : IsOblivious (recover op) :=
  .complete (.native h)

end Eval.IsOblivious

/-! ## Operations and native functions -/

/-- No native function looks at records. -/
class ObliviousNatives [Natives] : Prop where
  call (f : Native) (this : Value) (arguments : List Value) :
    Eval.IsOblivious (Natives.call f this arguments)

namespace Op

variable {α : Type} {x : Op α}

/-- The steps that look at no records. -/
abbrev oblivious : Steps := fun _ x => Eval.IsOblivious x

variable [Natives] [ObliviousNatives]

/-- What is built of steps that look at no records looks at none. -/
theorem Built.isOblivious (h : Built oblivious (fun _ => True) x) : Eval.IsOblivious x := by
  -- what is known of the realm makes no difference
  suffices general : ∀ {K : Realm → Prop}, Built oblivious K x → Eval.IsOblivious x from general h
  clear h
  intro K h
  induction h with
  | pure a => exact .pure a
  | throw e => exact .throw e
  | bind _ _ first rest => exact .bind first rest
  | look same _ rest =>
    exact .look (fun m n standing =>
      same m n (Machine.realm_eq standing) (Machine.contexts_eq standing)) rest
  | options f => exact .setup fun part => by rw [part.options]
  | report => exact .reportMaxIterations
  | create => exact .create _
  | native => exact ObliviousNatives.call ..
  | step taken => exact taken

instance (o : ObjectId) : Changes o oblivious := ⟨fun _ => Eval.IsOblivious.modifyObject _ _⟩

instance (o : ObjectId) : Defines o oblivious where
  define name d strict := (built_define_of_changes name d strict).isOblivious
  delete name strict := (built_delete_of_changes name strict).isOblivious
  preventExtensions := Eval.IsOblivious.modifyObject _ _

instance : Rebinds oblivious where
  defines _ := inferInstance
  modifyBindings e _ := Eval.IsOblivious.modify (.modifyEnvironment e _)

end Op

/-- Native functions look at no records, however deep they run each other. -/
theorem Native.isOblivious_callWithin (depth : Nat) (f : Native) (this : Value)
    (arguments : List Value) : Eval.IsOblivious (callWithin depth f this arguments) := by
  induction depth generalizing f this arguments with
  | zero => exact .throw _
  | succ depth ih =>
    let natives : Natives := ⟨callWithin depth⟩
    have : ObliviousNatives := ⟨ih⟩
    exact .bind (.modify (.of_same (fun _ => rfl) fun _ => rfl)) fun _ =>
      (f.built_run _ _).isOblivious

instance : ObliviousNatives := ⟨Native.isOblivious_callWithin Native.nestingLimit⟩

/-! ## Nodes -/

namespace Eval

variable {α : Type}

/-- The events around a rule are records: the rule runs from a machine of the same standing. -/
theorem exists_outcome_bracket (kind : NodeKind) (span : Span) (shown : α → Completion)
    (body : Run α) (s : Setup) (m : Machine) :
    ∃ k, k.standing = m.standing ∧
      (bracket kind span shown body).outcome s m = body.outcome s k := by
  refine ⟨(m.pushFrame ⟨kind, span.location s.file⟩).fire
    (.enter kind (span.location s.file) m.contexts.depth), rfl, ?_⟩
  have after (n : Machine) : n.popFrame.standing = n.standing := rfl
  show ((body.ensuring Machine.popFrame >>= _).outcome s _) = _
  unfold outcome
  rw [bind_apply, ensuring_apply]
  cases body s _ <;> rfl

/-- Rules that are alike are alike with the events around them, whatever nodes they are for. -/
theorem Alike.bracket {s : Setup} {x y : Run α} (h : Alike s x y) (kind kind' : NodeKind)
    (span span' : Span) (shown shown' : α → Completion) :
    Alike s (bracket kind span shown x) (bracket kind' span' shown' y) := fun m n same => by
  obtain ⟨k, standing, run⟩ := exists_outcome_bracket kind span shown x s m
  obtain ⟨l, standing', run'⟩ := exists_outcome_bracket kind' span' shown' y s n
  rw [run, run']
  exact h k l (standing.trans (same.trans standing'.symm))

/-- With the core rule for its kind, a node is evaluated by that rule. -/
theorem exists_outcome_ruled {s : Setup} {kind : NodeKind}
    (handler : s.rules.handler? kind = some (.core kind)) (span : Span) (core : Run Completion)
    (m : Machine) :
    ∃ k, k.standing = m.standing ∧ (ruled kind span core).outcome s m = core.outcome s k := by
  have here : (ruled kind span core).outcome s m = (bracket kind span id core).outcome s m := by
    unfold ruled outcome
    rw [bind_apply, setup_apply, handler]
    simp only [Handler.apply, if_pos]
  rw [here]
  exact exists_outcome_bracket kind span id core s m

/-- The registry is asked for the rule of the node and for nothing else. -/
theorem IsOblivious.ruled (kind : NodeKind) (span : Span) {core : Run Completion}
    (h : IsOblivious core) : IsOblivious (ruled kind span core) := by
  have foreign (k : NodeKind) : IsOblivious (Rule.onForeignNode k span) := by
    unfold Rule.onForeignNode
    split
    · exact .pure _
    · exact .pure _
    · refine .look (fun m n same => ?_) fun _ => .pure _
      rw [Machine.this_eq same]
    · exact .complete (.lift (.throw _))
  have applied (handler : Handler) : IsOblivious (handler.apply kind span core) := by
    unfold Handler.apply
    split
    · exact .pure _
    · split
      · exact h
      · exact foreign _
  refine ⟨.ruled h.toObeys, fun s => ?_⟩
  unfold Eval.ruled
  refine .bind (fun m n same => ?_) fun handler => ?_
  · rw [outcome_ok (setup_apply _ s m), outcome_ok (setup_apply _ s n), same]
  · cases handler with
    | none => exact (IsOblivious.throw _).alike s
    | some handler => exact .bracket ((applied handler).alike s) kind kind span span id id

end Eval

/-- A reference is evaluated without asking the registry. -/
theorem Rule.IsOblivious.referring {kind : NodeKind} (referred : kind.isReferred = true)
    (span : Span) {r : Rule Reference} (h : IsOblivious r) : IsOblivious (referring kind span r) :=
  ⟨.referring h.run.toObeys span (.inl referred),
    fun s => .bracket (h.run.alike s) kind kind span span referenceOutcome referenceOutcome⟩

/-- What refers to nothing is malformed. -/
theorem Rule.isOblivious_referring_malformed (kind kind' : NodeKind) (span span' : Span) :
    IsOblivious (referring kind span (malformed kind' span')) := by
  have malformed : IsOblivious (malformed kind' span' : Rule Reference) := .lift (.throw _)
  exact ⟨.referring malformed.run.toObeys span (.inr fun s m => ⟨_, _, rfl, _, _, _, rfl⟩),
    fun s => .bracket (malformed.run.alike s) kind kind span span referenceOutcome referenceOutcome⟩

end AbstractScript
