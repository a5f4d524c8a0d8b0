import AbstractScript.Proofs.Keeps

/-!
# Operations are quiet

Operations and native functions work on objects and environments only: the contexts, the stack of
rules, the possible exits and the history of a run stay as they are. Of an object that is there they
change properties and the extensible flag, never its class, its prototype or what calling it does
(`Realm.Grows`).
-/
namespace AbstractScript

open Eval

/-! ## Growing realms -/

/-- What never changes of an object. -/
structure ObjectRecord.Alike (r r' : ObjectRecord) : Prop where
  cls : r'.cls = r.cls
  prototype : r'.prototype = r.prototype
  primitive : r'.primitive = r.primitive
  callable : r'.callable = r.callable
  createdLevel : r'.createdLevel = r.createdLevel

/-- What never changes of an environment. -/
structure Environment.Alike (e e' : Environment) : Prop where
  outer : e'.outer = e.outer
  createdLevel : e'.createdLevel = e.createdLevel
  /-- Names that are properties of an object stay so. -/
  kind : ∀ o receiver, e'.store = .properties o receiver ↔ e.store = .properties o receiver

/-- Objects and environments are added, and those that are there keep their nature. -/
structure Realm.Grows (r r' : Realm) : Prop where
  objects : r.objects.size ≤ r'.objects.size
  environments : r.environments.size ≤ r'.environments.size
  object : ∀ o, o.index < r.objects.size → (r.object o).Alike (r'.object o)
  environment : ∀ e, e.index < r.environments.size → (r.environment e).Alike (r'.environment e)

/-- An object is like itself. -/
theorem ObjectRecord.Alike.refl (r : ObjectRecord) : r.Alike r := ⟨rfl, rfl, rfl, rfl, rfl⟩

/-- What never changes does not change in two steps. -/
theorem ObjectRecord.Alike.trans {a b c : ObjectRecord} (h : a.Alike b) (h' : b.Alike c) :
    a.Alike c where
  cls := h'.cls.trans h.cls
  prototype := h'.prototype.trans h.prototype
  primitive := h'.primitive.trans h.primitive
  callable := h'.callable.trans h.callable
  createdLevel := h'.createdLevel.trans h.createdLevel

/-- An environment is like itself. -/
theorem Environment.Alike.refl (e : Environment) : e.Alike e := ⟨rfl, rfl, fun _ _ => .rfl⟩

/-- The same for environments. -/
theorem Environment.Alike.trans {a b c : Environment} (h : a.Alike b) (h' : b.Alike c) :
    a.Alike c where
  outer := h'.outer.trans h.outer
  createdLevel := h'.createdLevel.trans h.createdLevel
  kind := fun o receiver => (h'.kind o receiver).trans (h.kind o receiver)

namespace Realm.Grows

/-- A realm that stays as it is has grown. -/
theorem refl (r : Realm) : r.Grows r where
  objects := Nat.le_refl _
  environments := Nat.le_refl _
  object := fun _ _ => .refl _
  environment := fun _ _ => .refl _

/-- A realm that has grown twice has grown. -/
theorem trans {a b c : Realm} (h : a.Grows b) (h' : b.Grows c) : a.Grows c where
  objects := Nat.le_trans h.objects h'.objects
  environments := Nat.le_trans h.environments h'.environments
  object := fun o ho => (h.object o ho).trans (h'.object o (Nat.lt_of_lt_of_le ho h.objects))
  environment := fun e he =>
    (h.environment e he).trans (h'.environment e (Nat.lt_of_lt_of_le he h.environments))

/-- A new object leaves the others alone. -/
theorem addObject (r : Realm) (record : ObjectRecord) : r.Grows (r.addObject record) where
  objects := by simp [Realm.addObject]
  environments := Nat.le_refl _
  object := fun o ho => by
    rw [object_addObject, if_neg]
    · exact .refl _
    · rintro rfl
      exact absurd ho (Nat.lt_irrefl _)
  environment := fun e _ => .refl _

/-- A new environment leaves the others alone. -/
theorem addEnvironment (r : Realm) (e : Environment) : r.Grows (r.addEnvironment e) where
  objects := Nat.le_refl _
  environments := by simp [Realm.addEnvironment]
  object := fun o _ => .refl _
  environment := fun e he => by
    rw [environment_addEnvironment, if_neg]
    · exact .refl _
    · rintro rfl
      exact absurd he (Nat.lt_irrefl _)

/-- A change of one object lets the realm grow if it keeps what never changes. -/
theorem modifyObject (r : Realm) (o : ObjectId) {f : ObjectRecord → ObjectRecord}
    (h : ∀ record : ObjectRecord, record.Alike (f record)) : r.Grows (r.modifyObject o f) where
  objects := by simp [Realm.modifyObject]
  environments := Nat.le_refl _
  object := fun p _ => by
    rw [object_modifyObject]
    split
    next hp => exact hp.1 ▸ h _
    next => exact .refl _
  environment := fun e _ => .refl _

/-- So does such a change of one environment. -/
theorem modifyEnvironment (r : Realm) (e : EnvId) {f : Environment → Environment}
    (h : ∀ env : Environment, env.Alike (f env)) : r.Grows (r.modifyEnvironment e f) where
  objects := Nat.le_refl _
  environments := by simp [Realm.modifyEnvironment]
  object := fun o _ => .refl _
  environment := fun p _ => by
    rw [environment_modifyEnvironment]
    split
    next hp => exact hp.1 ▸ h _
    next => exact .refl _

end Realm.Grows

/-- The object is in the table, and it is a function of the program. -/
def Realm.IsScript (r : Realm) (f : ObjectId) : Prop :=
  f.index < r.objects.size ∧ ∃ closure, (r.object f).callable = some (.script closure)

/-- A function of the program stays one. -/
theorem Realm.IsScript.grow {r r' : Realm} {f : ObjectId} (h : r.IsScript f) (grows : r.Grows r') :
    r'.IsScript f := by
  obtain ⟨there, closure, function⟩ := h
  exact ⟨Nat.lt_of_lt_of_le there grows.objects, closure,
    (grows.object f there).callable.trans function⟩

/-! ## Quiet changes -/

namespace Machine

/-- What has been recorded of functions and diagnostics stays, in order, and more may follow it. -/
structure Logs (m n : Machine) : Prop where
  scripts : m.scripts.toList <+: n.scripts.toList
  diagnostics : m.diagnostics.toList <+: n.diagnostics.toList
  /-- What is added to the functions of the program is one. -/
  added : ∀ f ∈ n.scripts, f ∈ m.scripts ∨ n.realm.IsScript f

/-- The logs are kept when nothing is recorded. -/
theorem Logs.of_eq {m n : Machine} (scripts : n.scripts = m.scripts)
    (diagnostics : n.diagnostics = m.diagnostics) : m.Logs n where
  scripts := scripts ▸ List.prefix_refl _
  diagnostics := diagnostics ▸ List.prefix_refl _
  added _ hf := .inl (scripts ▸ hf)

/-- Logs are kept over two steps; a function that the first has added is still one. -/
theorem Logs.trans {m n k : Machine} (h : m.Logs n) (h' : n.Logs k)
    (grows : n.realm.Grows k.realm) : m.Logs k where
  scripts := h.scripts.trans h'.scripts
  diagnostics := h.diagnostics.trans h'.diagnostics
  added f hf := by
    rcases h'.added f hf with earlier | new
    · exact (h.added f earlier).imp_right (·.grow grows)
    · exact .inr new

/-- What has been recorded since a machine is the same with records and objects that are the
same. -/
theorem Logs.congr {m m' n n' : Machine} (h : m.Logs n) (from_scripts : m'.scripts = m.scripts)
    (from_diagnostics : m'.diagnostics = m.diagnostics) (scripts : n'.scripts = n.scripts)
    (diagnostics : n'.diagnostics = n.diagnostics)
    (objects : n'.realm.objects = n.realm.objects) : m'.Logs n' where
  scripts := by
    rw [from_scripts, scripts]
    exact h.scripts
  diagnostics := by
    rw [from_diagnostics, diagnostics]
    exact h.diagnostics
  added f hf := by
    rw [scripts] at hf
    rw [from_scripts]
    refine (h.added f hf).imp_right fun ⟨there, function⟩ => ?_
    rw [Realm.IsScript, Realm.object, objects]
    exact ⟨there, function⟩

/-- Diagnostics are added, none of them about a throw that may have happened, and whoever watches is
told each of them. -/
structure Told (m n : Machine) : Prop where
  observed : n.observed = m.observed
  ledger : n.ledger = m.ledger
  reported : ∃ ds : List Diagnostic, (∀ d ∈ ds, d.kind ≠ .possiblyUncaught) ∧
    n.diagnostics.toList = m.diagnostics.toList ++ ds ∧
    (m.observed = true → n.events.toList = m.events.toList ++ ds.map Event.diagnostic ∧
      n.traces.toList = m.traces.toList ++ ds.map fun _ => m.frames)

/-- Nobody is told anything when nothing is recorded. -/
theorem Told.of_eq {m n : Machine} (observed : n.observed = m.observed := by rfl)
    (ledger : n.ledger = m.ledger := by rfl) (diagnostics : n.diagnostics = m.diagnostics := by rfl)
    (events : n.events = m.events := by rfl) (traces : n.traces = m.traces := by rfl) : m.Told n where
  observed := observed
  ledger := ledger
  reported := ⟨[], by simp, by simp [diagnostics], fun _ => by simp [events, traces]⟩

/-- What is told in two steps is told in order, with the same rules in progress. -/
theorem Told.trans {m n k : Machine} (h : m.Told n) (h' : n.Told k) (frames : n.frames = m.frames) :
    m.Told k where
  observed := h'.observed.trans h.observed
  ledger := h'.ledger.trans h.ledger
  reported := by
    obtain ⟨ds, other, diagnostics, told⟩ := h.reported
    obtain ⟨ds', other', diagnostics', told'⟩ := h'.reported
    refine ⟨ds ++ ds', ?_, by simp [diagnostics, diagnostics'], fun watched => ?_⟩
    · intro d hd
      exact (List.mem_append.1 hd).elim (other d) (other' d)
    · obtain ⟨events, traces⟩ := told watched
      obtain ⟨events', traces'⟩ := told' (h.observed.trans watched)
      exact ⟨by simp [events, events'], by simp [traces, traces', frames]⟩

/-- A change of objects and environments only. -/
structure Quiet (m n : Machine) : Prop where
  contexts : n.contexts = m.contexts
  frames : n.frames = m.frames
  exits : n.exits = m.exits
  history : n.history = m.history
  grows : m.realm.Grows n.realm
  logs : m.Logs n
  told : m.Told n

/-- A change of records that evaluation does not depend on. -/
structure Aside (m n : Machine) : Prop where
  contexts : n.contexts = m.contexts
  frames : n.frames = m.frames
  exits : n.exits = m.exits
  history : n.history = m.history
  realm : n.realm = m.realm
  logs : m.Logs n
  told : m.Told n
  moment : n.moment = m.moment
  course : n.course = m.course
  entered : n.entered = m.entered
  seen : ∀ x, n.seen x → m.seen x ∨ x = m.moment

/-- Other records than those of a run change. -/
theorem Aside.of_eq {m n : Machine} (moment : n.moment = m.moment := by rfl)
    (frames : n.frames = m.frames := by rfl) (history : n.history = m.history := by rfl)
    (diagnostics : n.diagnostics = m.diagnostics := by rfl) (course : n.course = m.course := by rfl)
    (entered : n.entered = m.entered := by rfl) (seen : n.seen = m.seen := by rfl)
    (told : m.Told n := by exact .of_eq) : m.Aside n where
  contexts := congrArg Moment.contexts moment
  frames := frames
  exits := congrArg Moment.exits moment
  history := history
  realm := congrArg Moment.realm moment
  logs := .of_eq (congrArg Moment.scripts moment) diagnostics
  told := told
  moment := moment
  course := course
  entered := entered
  seen _ hx := .inl (seen ▸ hx)

/-- A machine that is left alone has changed aside at most. -/
theorem Aside.refl (m : Machine) : m.Aside m := .of_eq

/-- A change aside from the run is quiet. -/
theorem Aside.quiet {m n : Machine} (h : m.Aside n) : m.Quiet n :=
  ⟨h.contexts, h.frames, h.exits, h.history, h.realm ▸ .refl _, h.logs, h.told⟩

instance : IsPreorder Machine Quiet where
  refl m := (Aside.refl m).quiet
  trans _ _ _ h h' :=
    ⟨h'.contexts.trans h.contexts, h'.frames.trans h.frames, h'.exits.trans h.exits,
      h'.history.trans h.history, h.grows.trans h'.grows,
      h.logs.trans h'.logs h'.grows, h.told.trans h'.told h.frames⟩

instance : IsPreorder Machine Aside where
  refl := Aside.refl
  trans _ _ _ h h' :=
    ⟨h'.contexts.trans h.contexts, h'.frames.trans h.frames, h'.exits.trans h.exits,
      h'.history.trans h.history, h'.realm.trans h.realm,
      h.logs.trans h'.logs (h'.realm ▸ .refl _), h.told.trans h'.told h.frames,
      h'.moment.trans h.moment, h'.course.trans h.course, h'.entered.trans h.entered,
      fun x hx => by
        rcases h'.seen x hx with earlier | now
        · exact h.seen x earlier
        · exact .inr (now.trans h.moment)⟩

/-- Changes of properties are quiet. -/
theorem Quiet.modifyObject (m : Machine) (o : ObjectId) {f : ObjectRecord → ObjectRecord}
    (h : ∀ record : ObjectRecord, record.Alike (f record)) : m.Quiet (m.modifyObject o f) :=
  ⟨rfl, rfl, rfl, rfl, .modifyObject _ _ h, .of_eq rfl rfl, .of_eq⟩

/-- Changes of bindings are quiet. -/
theorem Quiet.modifyEnvironment (m : Machine) (e : EnvId) {f : Environment → Environment}
    (h : ∀ env : Environment, env.Alike (f env)) : m.Quiet (m.modifyEnvironment e f) :=
  ⟨rfl, rfl, rfl, rfl, .modifyEnvironment _ _ h, .of_eq rfl rfl, .of_eq⟩

end Machine

/-! ## Reports -/

namespace Eval

variable {ε : Type}

/-- A report adds one diagnostic and tells whoever watches. -/
theorem after_report (d : Diagnostic) (s : Setup) (m : Machine) :
    (report d : Eval ε Unit).after s m =
      { m.fire (.diagnostic d) with diagnostics := m.diagnostics.push d } := rfl

/-- A report is a change aside, unless it is about a throw that may have happened. -/
theorem report_keeps {d : Diagnostic} (other : d.kind ≠ .possiblyUncaught) :
    Keeps Machine.Aside (report d : Eval ε Unit) where
  after s m := by
    rw [after_report]
    have told : m.Told { m.fire (.diagnostic d) with diagnostics := m.diagnostics.push d } := {
      observed := rfl
      ledger := rfl
      reported := ⟨[d], by simpa using other, by simp, fun watched => by
        simp [Machine.fire, watched]⟩ }
    exact ⟨rfl, rfl, rfl, rfl, rfl, ⟨List.prefix_refl _, by simp, fun _ => .inl⟩, told, rfl, rfl,
      rfl, fun _ => id⟩

/-- So is a report of where the run is. -/
theorem reportHere_keeps {kind : DiagnosticKind} (other : kind ≠ .possiblyUncaught)
    (message : String) : Keeps Machine.Aside (reportHere kind message : Eval ε Unit) :=
  .bind .get fun _ => report_keeps other

/-- So is the report of a fault. -/
theorem reportError_keeps (e : NativeError) :
    Keeps Machine.Aside (reportError e : Eval ε Unit) := reportHere_keeps (by simp) _

/-- So is the report of a loop that was given up. -/
theorem reportMaxIterations_keeps : Keeps Machine.Aside (reportMaxIterations : Eval ε Unit) :=
  .bind (.setup _) fun _ => reportHere_keeps (by simp) _

/-- So is the report of a refused call. -/
theorem reportMaxRecursion_keeps : Keeps Machine.Aside (reportMaxRecursion : Eval ε Unit) :=
  .bind (.setup _) fun _ => reportHere_keeps (by simp) _

/-- So is the mark of an unknown expression. -/
theorem markUnknown_keeps (span : Span) :
    Keeps Machine.Aside (markUnknown span : Eval ε Unit) :=
  .bind (.setup _) fun _ => .modify fun _ => .of_eq

end Eval

end AbstractScript
