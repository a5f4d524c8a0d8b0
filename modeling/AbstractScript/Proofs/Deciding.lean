import AbstractScript.Proofs.Balance
import AbstractScript.Proofs.Definite

/-!
# Computations that decide

A run that has to give up on something says so in a diagnostic. A computation *decides* under a
condition if from a definite machine it leaves a definite machine with a definite result, unless it
has reported a diagnostic; what was reported before stays reported in any case, also when the
condition fails (`Eval.Decides`). The condition says what is known of the values from which the
computation begins; what follows a step may rely on what the step gives.
-/
namespace AbstractScript

open Eval

/-! ## Harmless completions -/

namespace Completion.IsHarmless

variable {c : Completion}

/-- A completion without a value. -/
theorem empty (h : c.value = none) : c.IsHarmless := fun _ hv => nomatch h.symm.trans hv

/-- A normal completion is harmless if its value is. -/
theorem normal {v : Value} (h : v.isHarmless = true) : (Completion.normal v).IsHarmless := by
  rintro w ⟨⟩
  exact h

/-- What a harmless completion gives as a value is harmless, being undefined if it has none. -/
theorem getValue (h : c.IsHarmless) : c.getValue.isHarmless = true := by
  rw [Completion.getValue]
  cases value : c.value with
  | none => rfl
  | some v => exact h v value

/-- The value so far is replaced by that of a later completion, if it has one. -/
theorem orElse (h : c.IsHarmless) {v : Option Value} (hv : (Completion.finished v).IsHarmless) :
    (Completion.finished (c.value <|> v)).IsHarmless := by
  intro w hw
  cases value : c.value with
  | none =>
    rw [value] at hw
    exact hv w hw
  | some x =>
    rw [value] at hw
    exact h w (value.trans hw)

/-- Filling in the value of a completion that has none. -/
theorem updateEmpty (h : c.IsHarmless) {v : Option Value} (hv : (Completion.finished v).IsHarmless) :
    (c.updateEmpty v).IsHarmless := by
  intro w hw
  rw [value_updateEmpty] at hw
  cases value : c.value with
  | none =>
    rw [value] at hw
    exact hv w hw
  | some x =>
    rw [value] at hw
    exact h w (value.trans hw)

end Completion.IsHarmless

/-! ## Reports -/

namespace Machine

/-- Something was reported besides exceptions that nothing catches. -/
def Diagnosed (m : Machine) : Prop := ∃ d ∈ m.diagnostics, d.kind ≠ .uncaught

/-- What was reported stays reported. -/
def Reports (m n : Machine) : Prop := ∀ d ∈ m.diagnostics, d ∈ n.diagnostics

variable {m n k : Machine}

/-- A machine with the same diagnostics has lost none. -/
theorem Reports.of_eq (h : n.diagnostics = m.diagnostics) : m.Reports n := fun _ hd => h ▸ hd

/-- A diagnosed machine stays diagnosed while reports are only added. -/
theorem Diagnosed.after (h : m.Diagnosed) (reports : m.Reports n) : n.Diagnosed := by
  obtain ⟨d, hd, kind⟩ := h
  exact ⟨d, reports d hd, kind⟩

/-- What only adds to the log adds to the diagnostics. -/
theorem Logs.reports (h : m.Logs n) : m.Reports n := fun _ hd =>
  Array.mem_toList_iff.1 (h.diagnostics.subset (Array.mem_toList_iff.2 hd))

instance : IsPreorder Machine Reports where
  refl _ _ hd := hd
  trans _ _ _ h h' d hd := h' d (h d hd)

end Machine

namespace Eval

open Machine

/-- Quiet computations report nothing and lose no report. -/
theorem IsQuiet.reports {ε α : Type} {x : Eval ε α} (h : IsQuiet x) : Keeps Reports x :=
  h.mono fun _ _ quiet => quiet.logs.reports

/-- Steady computations lose no report. -/
theorem Keeps.reports {ε α : Type} {x : Eval ε α} (h : Keeps Steady x) : Keeps Reports x :=
  h.mono fun _ _ steady => steady.logs.reports

instance [Natives] [QuietNatives] : Reading Reports where
  aside h := h.logs.reports
  addObject _ _ _ := .of_eq rfl
  native := fun _ this arguments _ => ((QuietNatives.call _ this arguments).after _ _).logs.reports

instance (o : ObjectId) : Changing o Reports := ⟨fun _ _ _ => .of_eq rfl⟩

/-- Not even a call of an accessor takes a report back. -/
theorem reports_callAccessor [Natives] [QuietNatives] (f : ObjectId) (this : Value)
    (arguments : List Value) : Keeps Reports (Op.callAccessor f this arguments) :=
  ⟨fun _ _ => Op.callAccessor_at fun _ _ _ _ =>
    ((QuietNatives.call _ this arguments).after _ _).logs.reports⟩

/-- A change that leaves the diagnostics as they are loses none. -/
theorem reports_modify {ε : Type} {f : Machine → Machine}
    (h : ∀ m, (f m).diagnostics = m.diagnostics) : Keeps Reports (modify f : Eval ε Unit) :=
  .modify fun m => .of_eq (h m)

/-- Neither does one that is made on the way out. -/
theorem reports_ensuring {ε α : Type} {x : Eval ε α} {f : Machine → Machine} (hx : Keeps Reports x)
    (h : ∀ m, (f m).diagnostics = m.diagnostics) : Keeps Reports (x.ensuring f) where
  after s m := by
    rw [after_ensuring]
    exact IsTrans.trans _ _ _ (hx.after s m) (.of_eq (h _))

/-- Opening and closing a context leaves the reports alone. -/
theorem reports_inContext {α : Type} (c : Context) {x : Run α} (h : Keeps Reports x) :
    Keeps Reports (inContext c x) :=
  .bind (.bind .get fun _ => .pure _) fun mark => .bind (reports_modify fun _ => rfl) fun _ =>
    reports_ensuring h fun m => diagnostics_dropClaimed m.popContext mark _

/-- So does a change of scope. -/
theorem reports_inScope (e : EnvId) {x : Run Completion} (h : Keeps Reports x) :
    Keeps Reports (inScope e x) :=
  .bind .get fun _ => .bind (reports_modify fun _ => rfl) fun _ =>
    reports_ensuring h fun _ => rfl

/-- A handler loses no report of its body. -/
theorem reports_handle (name : String) {body : Run Completion} (h : Keeps Reports body)
    (thrown : Value) : Keeps Reports (handle name body thrown) := by
  refine Rule.KeepsBy.complete (.bind .get fun m => ?_)
  refine .bind (.lift (isQuiet_createEnvironment _).reports) fun e => ?_
  refine .bind (Rule.keeps_native (Op.isQuiet_createBinding ..).reports) fun _ => ?_
  refine .bind (Rule.keeps_native (Op.isQuiet_setBinding ..).reports) fun _ => ?_
  exact .lift (reports_inScope e h)

/-- A call of a script function loses no report of the body it runs. -/
theorem reports_callScript {body : Run Completion} (h : Keeps Reports body) (f : ObjectId)
    (closure : Closure) (this : Value) (arguments : List Value) :
    Keeps Reports (callScript body f closure this arguments) := by
  refine .bind (keeps_scriptReceiver this) fun receiver => ?_
  refine .bind (isQuiet_createEnvironment _).reports fun e => reports_inContext _ ?_
  exact .bind (steady_enterBody ..).reports fun _ => .bind h fun c => .bind .get fun _ => .pure _

/-- What a report adds is added to what was reported before. -/
theorem reports_report {ε : Type} (d : Diagnostic) : Keeps Reports (report d : Eval ε Unit) :=
  ⟨fun _ _ _ hd => Array.mem_push_of_mem d hd⟩

instance : Stepwise True fun _ => Reports where
  leave := leave_of (R := Reports) (fun _ _ => .of_eq rfl) fun h => h
  abandon := abandon_of (R := Reports) (fun _ _ => .of_eq rfl) fun h => h
  markInvoked m f := (Steady.markInvoked m f).logs.reports
  pass {b m n} h := by
    refine IsTrans.trans (r := Reports) _ _ _ h (.of_eq ?_)
    cases m.contexts.enterIndex? <;> rfl
  note m c := (Steady.noteExit m c).logs.reports
  claim _ h := IsTrans.trans (r := Reports) _ _ _ h (.of_eq (diagnostics_dropClaimed ..))
  handled h := IsTrans.trans (r := Reports) _ _ _ h (.of_eq (diagnostics_dropClaimed ..))
  overtaken _ _ := .of_eq rfl
  construct := fun _ arguments _ => ((Native.isQuiet_callWithin ..).after _ _).logs.reports
  closure _ := .inl fun h => absurd trivial h
  script _ h f this arguments := reports_callScript h f _ this arguments
  handle h name thrown := reports_handle name h thrown
  createScript _ scope := (isQuiet_createScript _ scope).reports
  functionValue _ := (isQuiet_createFunctionValue _).reports
  arrayLiteral := Rule.keeps_arrayLiteral
  objectLiteral := Rule.keeps_objectLiteral
  putValue r v := (Op.isQuiet_putValue r v).reports
  deleteReference _ := (Rule.isQuiet_deleteReference _).reports

end Eval

/-! ## Deciding -/

namespace Eval

open Machine

variable {ε α β : Type} {s : Setup} {P P' : Prop} {Q Q' : α → Prop}

/-- What was reported stays reported. Under a condition, a run from a definite machine either reports
a diagnostic or leaves a definite machine, and what it gives has a property. -/
structure Decides (s : Setup) (P : Prop) (x : Eval ε α) (Q : α → Prop) : Prop where
  keeps : Keeps Reports x
  decides : P → ∀ m : Machine, m.Definite → (x.after s m).Diagnosed ∨
    (x.after s m).Definite ∧ ∀ a n, x s m = .ok a n → Q a

namespace Decides

/-- The same under another condition. -/
theorem of {x : Eval ε α} (h : Decides s P x Q) (hP : P' → P) : Decides s P' x Q :=
  ⟨h.keeps, fun given => h.decides (hP given)⟩

/-- What decides under no condition decides under every condition. -/
theorem always {x : Eval ε α} (h : Decides s True x Q) : Decides s P x Q := h.of fun _ => trivial

/-- What a computation gives has every property that follows under the condition. -/
theorem gives {x : Eval ε α} (h : Decides s P x Q) (hQ : P → ∀ a, Q a → Q' a) :
    Decides s P x Q' := by
  refine ⟨h.keeps, fun given m hm => ?_⟩
  rcases h.decides given m hm with diagnosed | ⟨definite, gives⟩
  · exact .inl diagnosed
  · exact .inr ⟨definite, fun a n run => hQ given a (gives a n run)⟩

/-- A step that is never reached. -/
theorem absurd {x : Eval ε α} (keeps : Keeps Reports x) (never : ¬ P) : Decides s P x Q :=
  ⟨keeps, fun given => (never given).elim⟩

/-- Returning a value decides what is known of the value. -/
theorem pure {a : α} (h : P → Q a) : Decides s P (pure a : Eval ε α) Q := by
  refine ⟨.pure a, fun given m hm => .inr ⟨hm, fun b n run => ?_⟩⟩
  cases run
  exact h given

/-- A computation that raises has no result to be definite about. -/
theorem throw (e : ε) : Decides s P (throw e : Eval ε α) Q :=
  ⟨.throw e, fun _ _ hm => .inr ⟨hm, fun _ _ run => nomatch run⟩⟩

/-- A definite machine may be read, and is known to be definite afterwards. -/
theorem get : Decides s P (get : Eval ε Machine) Machine.Definite := by
  refine ⟨.get, fun _ m hm => .inr ⟨hm, fun n _ run => ?_⟩⟩
  cases run
  exact hm

/-- What is read from the setup is known exactly. -/
theorem setup (f : Setup → α) : Decides s P (setup f : Eval ε α) fun a => a = f s := by
  refine ⟨.setup f, fun _ m hm => .inr ⟨hm, fun a _ run => ?_⟩⟩
  cases run
  rfl

/-- What follows a step may rely on what the step gives, and on what it gives from any machine. -/
theorem bind_of {G R : α → Prop} {Q : β → Prop} {x : Eval ε α} {f : α → Eval ε β}
    (hx : Decides s P x R) (gives : ∀ s m a n, x s m = .ok a n → G a)
    (hf : ∀ a, G a → Decides s (P ∧ R a) (f a) Q) : Decides s P (x >>= f) Q := by
  refine ⟨.bind_of hx.keeps gives fun a ha => (hf a ha).keeps, fun given m hm => ?_⟩
  have first := hx.decides given m hm
  -- the first step has reported a diagnostic, or it leaves a definite machine to the second one
  cases run : x s m with
  | ok a n =>
    have rest := hf a (gives s m a n run)
    rw [after_bind_ok run]
    rw [Eval.after, run] at first
    rcases first with diagnosed | ⟨definite, harmless⟩
    · exact .inl (diagnosed.after (rest.keeps.after s n))
    · refine (rest.decides ⟨given, harmless a n rfl⟩ n definite).imp_right ?_
      rintro ⟨definite, gives⟩
      refine ⟨definite, fun b k last => gives b k ?_⟩
      rw [bind_apply, run] at last
      exact last
  | error e n =>
    have failed : (x >>= f) s m = .error e n := by rw [bind_apply, run]
    rw [Eval.after, run] at first
    rw [Eval.after, failed]
    refine first.imp_right ?_
    rintro ⟨definite, -⟩
    exact ⟨definite, fun b k last => by cases last⟩

/-- After a first step has decided, the rest may rely on what the step gives. -/
theorem bind {R : α → Prop} {Q : β → Prop} {x : Eval ε α} {f : α → Eval ε β}
    (hx : Decides s P x R) (hf : ∀ a, Decides s (P ∧ R a) (f a) Q) : Decides s P (x >>= f) Q :=
  hx.bind_of (G := fun _ => True) (fun _ _ _ _ _ => trivial) fun a _ => hf a

/-- What is done before the rest if a condition holds. -/
theorem join {p : Prop} [Decidable p] {R : α → Prop} {Q : β → Prop} {x : Eval ε α}
    {rest : α → Eval ε β} {rest' : Eval ε β} (hx : Decides s P x R)
    (h : ∀ a, Decides s (P ∧ R a) (rest a) Q) (h' : Decides s P rest' Q) :
    Decides s P (if p then x >>= rest else rest') Q := by
  split
  · exact bind hx h
  · exact h'

/-- A function of the result gives what it makes of the result. -/
theorem map {Q : β → Prop} {R : α → Prop} {x : Eval ε α} {f : α → β} (hx : Decides s P x R)
    (h : ∀ a, P → R a → Q (f a)) : Decides s P (f <$> x) Q := by
  rw [map_eq_pure_bind]
  exact hx.bind fun a => .pure fun given => h a given.1 given.2

/-- A step that succeeds with a machine that is definite if the one before was. -/
theorem modify {f : Machine → Machine} (diagnostics : ∀ m, (f m).diagnostics = m.diagnostics)
    (h : P → ∀ m : Machine, m.Definite → (f m).Definite) :
    Decides s P (modify f : Eval ε Unit) fun _ => True :=
  ⟨reports_modify diagnostics, fun given m hm => .inr ⟨h given m hm, fun _ _ _ => trivial⟩⟩

/-- A change of the machine decides when it keeps definite machines definite and the diagnostics as
they are. -/
theorem modifyGet {f : Machine → α × Machine}
    (diagnostics : ∀ m, (f m).2.diagnostics = m.diagnostics)
    (h : P → ∀ m : Machine, m.Definite → Q (f m).1 ∧ (f m).2.Definite) :
    Decides s P (modifyGet f : Eval ε α) Q := by
  refine ⟨.modifyGet fun m => .of_eq (diagnostics m), fun given m hm => .inr ⟨?_, fun a n run => ?_⟩⟩
  · exact (h given m hm).2
  · cases run
    exact (h given m hm).1

/-- The same for a change that is made on the way out. -/
theorem ensuring {x : Eval ε α} {f : Machine → Machine} (hx : Decides s P x Q)
    (diagnostics : ∀ m, (f m).diagnostics = m.diagnostics)
    (h : P → ∀ m : Machine, m.Definite → (f m).Definite) : Decides s P (x.ensuring f) Q := by
  refine ⟨reports_ensuring hx.keeps diagnostics, fun given m hm => ?_⟩
  rw [after_ensuring]
  refine (hx.decides given m hm).imp (fun diagnosed => ?_) fun ⟨definite, gives⟩ => ?_
  · exact diagnosed.after (.of_eq (diagnostics _))
  · refine ⟨h given _ definite, fun a n run => ?_⟩
    rw [ensuring_apply] at run
    cases ran : x s m with
    | ok b k =>
      rw [ran] at run
      cases run
      exact gives a k ran
    | error e k =>
      rw [ran] at run
      cases run

/-- A traversal decides if each of its steps does. -/
theorem forM {xs : List α} {f : α → Eval ε Unit} (h : ∀ a ∈ xs, Decides s P (f a) fun _ => True) :
    Decides s P (xs.forM f) fun _ => True := by
  induction xs with
  | nil => exact .pure fun _ => trivial
  | cons a xs ih =>
    refine (h a List.mem_cons_self).bind fun _ => ?_
    exact (ih fun b hb => h b (List.mem_cons_of_mem a hb)).of And.left

/-- A computation that always reports a diagnostic. -/
theorem diagnosed {x : Eval ε α} (keeps : Keeps Reports x) (h : ∀ s m, (x.after s m).Diagnosed) :
    Decides s P x Q := ⟨keeps, fun _ m _ => .inl (h s m)⟩

end Decides

/-! ### Reports and events -/

/-- A definite event leaves a definite history. -/
theorem emit_decides {e : Event} (h : P → e.Definite) :
    Decides s P (emit e : Eval ε Unit) fun _ => True := by
  refine .modify (fun _ => rfl) fun given m hm => hm.record rfl rfl rfl rfl rfl fun e' he' => ?_
  have fired : e' ∈ m.events.push e := by
    rw [Machine.fire] at he'
    split at he'
    · exact he'
    · exact Array.mem_push_of_mem e he'
  rcases Array.mem_push.1 fired with earlier | rfl
  · exact hm.events e' earlier
  · exact h given

/-- The moments noted are only counted. -/
theorem watch_decides : Decides s P (watch : Eval ε Unit) fun _ => True :=
  (Decides.setup _).bind fun _ =>
    .modify (fun _ => rfl) fun _ _ hm => hm.record rfl rfl rfl rfl rfl hm.events

/-- After a report of any fault but an uncaught throw nothing more is promised. -/
theorem report_diagnosed {d : Diagnostic} (other : d.kind ≠ .uncaught) {Q : Unit → Prop} :
    Decides s P (report d : Eval ε Unit) Q := by
  refine .diagnosed (reports_report d) fun s m => ?_
  rw [after_report]
  exact ⟨d, Array.mem_push_self, other⟩

/-- A diagnostic that is about something else than an exception is reported. -/
theorem reportHere_diagnosed {kind : DiagnosticKind} (other : kind ≠ .uncaught) (message : String)
    {Q : Unit → Prop} : Decides s P (reportHere kind message : Eval ε Unit) Q :=
  Decides.get.bind fun _ => report_diagnosed other

/-- A reported fault is a diagnostic. -/
theorem reportError_diagnosed (e : NativeError) {Q : Unit → Prop} :
    Decides s P (reportError e : Eval ε Unit) Q := reportHere_diagnosed (by simp) _

/-- A loop that is given up is reported. -/
theorem reportMaxIterations_diagnosed {Q : Unit → Prop} :
    Decides s P (reportMaxIterations : Eval ε Unit) Q :=
  (Decides.setup _).bind fun _ => reportHere_diagnosed (by simp) _

/-- A call that is refused for the recursion limit is reported. -/
theorem reportMaxRecursion_diagnosed {Q : Unit → Prop} :
    Decides s P (reportMaxRecursion : Eval ε Unit) Q :=
  (Decides.setup _).bind fun _ => reportHere_diagnosed (by simp) _

/-- An exception that nothing catches may be reported. -/
theorem reportUncaught_decides (message : String) :
    Decides s P (reportHere .uncaught message : Eval ε Unit) fun _ => True := by
  refine Decides.get.bind fun m => Decides.bind (emit_decides fun _ => ?_) fun _ =>
    ⟨?_, fun _ n hn => .inr ⟨?_, fun _ _ _ => trivial⟩⟩
  · trivial
  · exact .modify fun n d hd => Array.mem_push_of_mem _ hd
  · exact hn.record rfl rfl rfl rfl rfl hn.events

/-! ### Rules and their marks -/

namespace Decides

/-- Catching a fault leaves what an operation gives when it succeeds. -/
theorem attempt {op : Op α} (h : Decides s P op Q) :
    Decides s P (op.attempt : Eval ε (Except NativeError α)) fun r => ∀ a, r = .ok a → Q a := by
  refine ⟨.attempt h.keeps, fun given m hm => ?_⟩
  rw [Op.after_attempt]
  refine (h.decides given m hm).imp_right fun ⟨definite, gives⟩ => ⟨definite, fun r n run a ha => ?_⟩
  rw [Op.attempt] at run
  cases ran : op s m with
  | ok b k =>
    rw [ran] at run
    cases run
    cases ha
    exact gives _ _ ran
  | error e k =>
    rw [ran] at run
    cases run
    cases ha

/-- There are no possible exits to mark. -/
theorem mark : Decides s P (mark : Eval ε Nat) fun _ => True :=
  Decides.get.bind fun _ => .pure fun _ => trivial

/-- A definite machine has recorded no possible exit, so there is none since any mark. -/
theorem hasExitsSince (mark : Nat) :
    Decides s P (hasExitsSince mark : Eval ε Bool) fun exits => exits = false := by
  refine Decides.get.bind fun m => .pure fun given => ?_
  have none : m.exits = #[] := given.2.now.exits
  rw [none]
  exact decide_eq_false (Nat.not_lt_zero mark)

/-- There are no possible exits to claim. -/
theorem claim (mark : Nat) (p : Completion → Bool) :
    Decides s P (claim mark p : Eval ε (List PossibleExit)) fun exits => exits = [] := by
  refine .modifyGet (fun m => diagnostics_dropClaimed m mark p) fun _ m hm => ?_
  have none : m.exits = #[] := hm.now.exits
  constructor
  · simp [Machine.claimed, Machine.exitsSince, none]
  · show (m.dropClaimed mark p).Definite
    rw [Machine.dropClaimed, if_pos (by simp [none])]
    exact hm

/-- The labels that a statement takes over are nothing the condition is about. -/
theorem takeLabels : Decides s P takeLabels fun _ => True :=
  .modifyGet (fun _ => rfl) fun _ _ hm =>
    ⟨trivial, hm.record rfl rfl rfl rfl rfl hm.events⟩

/-- Between its events a rule does what it does without them. -/
theorem bracket {x : Run α} (h : Decides s P x Q) (kind : NodeKind) (span : Span)
    {outcome : α → Completion} (harmless : ∀ a, Q a → (outcome a).IsHarmless) :
    Decides s P (bracket kind span outcome x) Q := by
  refine (Decides.setup _).bind fun file => Decides.get.bind fun m => ?_
  refine Decides.bind (R := fun _ => True) (.modify (fun _ => rfl) fun _ n hn => ?_) fun _ => ?_
  · exact hn.record rfl rfl rfl rfl rfl hn.events
  refine Decides.bind (emit_decides fun given => ?_) fun _ => ?_
  · exact given.1.2.depth_eq_zero
  refine Decides.bind (.ensuring (h.of fun given => given.1.1.1.1)
    (fun _ => rfl) fun _ n hn => ?_) fun a => ?_
  · exact hn.record rfl rfl rfl rfl rfl hn.events
  refine Decides.get.bind fun n => ?_
  refine (emit_decides fun given => ?_).bind fun _ => .pure fun given => given.1.1.2
  exact ⟨given.2.depth_eq_zero, harmless a given.1.2⟩

/-- With the core rules a node is evaluated by the rule of its kind. -/
theorem ruled {x : Run Completion} (rules : s.rules = .core) (h : Decides s P x Completion.IsHarmless)
    (kind : NodeKind) (span : Span) : Decides s P (ruled kind span x) Completion.IsHarmless := by
  have same : Eval.ruled kind span x s = Eval.bracket kind span id x s := by
    have handler : s.rules.handler? kind = some (.core kind) := by rw [rules]; rfl
    funext m
    rw [Eval.ruled, bind_apply, setup_apply]
    simp only [handler, Handler.apply, if_true]
  refine ⟨keeps_ruled kind span h.keeps, fun given m hm => ?_⟩
  have bracketed := (h.bracket kind span fun _ => id).decides given m hm
  rw [Eval.after] at bracketed ⊢
  rw [same]
  exact bracketed

end Decides

end Eval

/-! ## Rules that decide -/

namespace Rule

open Eval Machine

variable {α β : Type} {s : Setup} {P P' : Prop} {Q Q' : α → Prop}

/-- What a part of a rule gives has a property, and if it ends the rule it does so with a harmless
completion. -/
def HarmlessOutcome (Q : α → Prop) : Except Completion α → Prop
  | .ok a => Q a
  | .error c => c.IsHarmless

/-- The computation behind a rule decides. -/
def Decides (s : Setup) (P : Prop) (r : Rule α) (Q : α → Prop) : Prop :=
  Eval.Decides s P r.run (HarmlessOutcome Q)

namespace Decides

/-- Under a stronger condition a rule decides at least as much. -/
theorem of {r : Rule α} (h : Decides s P r Q) (hP : P' → P) : Decides s P' r Q :=
  Eval.Decides.of h hP

/-- What a rule decides without a condition it decides under any. -/
theorem always {r : Rule α} (h : Decides s True r Q) : Decides s P r Q := Eval.Decides.always h

/-- What a rule gives may be weakened. -/
theorem gives {r : Rule α} (h : Decides s P r Q) (hQ : P → ∀ a, Q a → Q' a) : Decides s P r Q' :=
  Eval.Decides.gives h fun
    | given, .ok a => hQ given a
    | _, .error _ => id

/-- A rule decides vacuously where its condition never holds, if it only keeps the reports. -/
theorem absurd {r : Rule α} (keeps : Keeps Reports r) (never : ¬ P) : Decides s P r Q :=
  Eval.Decides.absurd keeps never

/-- A rule that returns a value gives what is known of it. -/
theorem pure {a : α} (h : P → Q a) : Decides s P (pure a) Q := Eval.Decides.pure h

/-- A rule may end early with a harmless completion. -/
theorem throw {c : Completion} (h : P → c.IsHarmless) : Decides s P (throw c : Rule α) Q :=
  Eval.Decides.pure h

/-- A rule may read the machine and knows it to be definite. -/
theorem get : Decides s P (get : Rule Machine) Machine.Definite := by
  refine ⟨KeepsBy.get, fun _ m hm => .inr ⟨hm, fun r _ run => ?_⟩⟩
  cases run
  exact hm

/-- What follows a part may rely on what the part gives, and on what it gives from any machine. -/
theorem bind_of {G R : α → Prop} {Q : β → Prop} {r : Rule α} {f : α → Rule β}
    (hr : Decides s P r R) (gives : Gives G r) (hf : ∀ a, G a → Decides s (P ∧ R a) (f a) Q) :
    Decides s P (r >>= f) Q := by
  rw [Decides, ExceptT.run_bind]
  refine Eval.Decides.bind_of (G := fun a => ∀ b, a = .ok b → G b) hr ?_ fun a ha => ?_
  · intro s m a n run b hb
    exact gives s m b n (hb ▸ run)
  · cases a with
    | ok a => exact hf a (ha a rfl)
    | error c => exact .pure And.right

/-- A step of a rule and then the rest, which may rely on what the step gives. -/
theorem bind {R : α → Prop} {Q : β → Prop} {r : Rule α} {f : α → Rule β} (hr : Decides s P r R)
    (hf : ∀ a, Decides s (P ∧ R a) (f a) Q) : Decides s P (r >>= f) Q :=
  hr.bind_of (G := fun _ => True) (fun _ _ _ _ _ => trivial) fun a _ => hf a

/-- What an evaluation decides, the rule that lifts it decides. -/
theorem lift {x : Run α} (h : Eval.Decides s P x Q) : Decides s P (lift x) Q :=
  Eval.Decides.map h fun _ _ => id

/-- The value of a subexpression is harmless if its completion is. -/
theorem value {x : Run Completion} (h : Eval.Decides s P x Completion.IsHarmless) :
    Decides s P (value x) fun v => v.isHarmless = true := by
  refine .bind (.lift h) fun c => ?_
  split
  · exact .throw And.right
  · exact .pure fun given => given.2.getValue

/-- A list of operands gives harmless values if each operand completes harmlessly. -/
theorem values {xs : List (Run Completion)}
    (h : ∀ x ∈ xs, Eval.Decides s P x Completion.IsHarmless) :
    Decides s P (values xs) fun vs => ∀ v ∈ vs, v.isHarmless = true := by
  induction xs with
  | nil => exact .pure fun _ => List.forall_mem_nil _
  | cons x xs ih =>
    refine .bind (.value (h x List.mem_cons_self)) fun v => ?_
    refine .bind ((ih fun y hy => h y (List.mem_cons_of_mem x hy)).of And.left) fun vs => ?_
    exact .pure fun given => List.forall_mem_cons.2 ⟨given.1.2, given.2⟩

/-- A native error is reported. -/
theorem native {op : Op α} (h : Eval.Decides s P op Q) : Decides s P (native op) Q := by
  refine .bind (.lift (.attempt h)) fun r => ?_
  cases r with
  | ok a => exact .pure fun given => given.2 a rfl
  | error e =>
    refine .bind (R := fun _ => False) (.lift (reportError_diagnosed e)) fun _ => ?_
    exact .absurd (.throw _) And.right

/-- Both ends of a rule are harmless completions when its result is. -/
theorem complete {r : Rule Completion} (h : Decides s P r Completion.IsHarmless) :
    Eval.Decides s P r.complete Completion.IsHarmless := by
  refine Eval.Decides.bind h fun r => ?_
  cases r with
  | ok c => exact .pure And.right
  | error c => exact .pure And.right

/-- To evaluate a reference, with its events, decides what the rule for it does. -/
theorem referring {r : Rule Reference} {Q : Reference → Prop} (h : Decides s P r Q)
    (kind : NodeKind) (span : Span) : Decides s P (referring kind span r) Q :=
  Eval.Decides.bracket h kind span fun
    | .ok _, _ => nofun
    | .error _, harmless => harmless

end Decides

end Rule

end AbstractScript
