import AbstractScript.Proofs.Composition
import AbstractScript.Proofs.Stepwise

/-!
# The registry of rules in a run

The registry is asked for a rule when a node is evaluated for its value, and nowhere else. So rules
that a computation does not come to make no difference to it: without them it does the same, unless
it fails for want of one of them. A computation that comes to no malformed node begins no rules for
kinds that have none, except where it evaluates references. A computation of which both is true *obeys* the
registry (`Eval.Obeys`). What is composed of such computations obeys it too, and so does a node
around one (`Eval.Obeys.ruled`).
-/
namespace AbstractScript

/-! ## Registries with fewer rules -/

namespace Rules

/-- The registry has rules of another one, perhaps not for all kinds. -/
def IsPartOf (r r' : Rules) : Prop := ∀ k, r.has k = true → r.handler? k = r'.handler? k

/-- The registry without the rules for some kinds. -/
def without (r : Rules) (kinds : List NodeKind) : Rules := kinds.foldl unregister r

theorem handler?_without (r : Rules) (kinds : List NodeKind) (k : NodeKind) :
    (r.without kinds).handler? k = if k ∈ kinds then .none else r.handler? k := by
  induction kinds generalizing r with
  | nil => rfl
  | cons other kinds ih =>
    show ((r.unregister other).without kinds).handler? k = _
    rw [ih, unregister, handler?_set]
    by_cases first : k = other <;> simp [first]

theorem has_without (r : Rules) (kinds : List NodeKind) (k : NodeKind) :
    (r.without kinds).has k = true ↔ k ∉ kinds ∧ r.has k = true := by
  rw [has, has, handler?_without]
  split <;> simp_all

theorem isPartOf_without (r : Rules) (kinds : List NodeKind) : (r.without kinds).IsPartOf r := by
  intro k there
  rw [handler?_without, if_neg ((has_without r kinds k).1 there).1]

end Rules

/-- A setup with fewer rules. It may also differ in whether someone watches. -/
structure Setup.IsPartOf (s' s : Setup) : Prop where
  options : s'.options = s.options
  file : s'.file = s.file
  rules : s'.rules.IsPartOf s.rules

/-- Of the rules that begin between two machines, each is for a kind that has one, or it is that of a
reference. -/
def Machine.Enters (r : Rules) (m n : Machine) : Prop :=
  ∀ k l d, Event.enter k l d ∈ n.events →
    Event.enter k l d ∈ m.events ∨ r.has k = true ∨ k.isReferred = true

namespace Machine.Enters

variable {r : Rules} {m n k : Machine}

theorem of_same (h : n.events = m.events) : m.Enters r n := by
  intro kind l d entered
  rw [h] at entered
  exact .inl entered

theorem refl (m : Machine) : m.Enters r m := .of_same rfl

theorem trans (h : m.Enters r n) (h' : n.Enters r k) : m.Enters r k :=
  fun kind l d entered => (h' kind l d entered).elim (h kind l d) .inr

/-- An event other than the beginning of a rule. -/
theorem fire (m : Machine) {e : Event} (other : ∀ k l d, e ≠ .enter k l d) : m.Enters r (m.fire e) := by
  intro kind l d entered
  rw [Machine.fire] at entered
  split at entered
  · rcases Array.mem_push.1 entered with before | last
    · exact .inl before
    · exact absurd last.symm (other kind l d)
  · exact .inl entered

/-- A rule begins for a kind that has one, or to evaluate a reference. -/
theorem beginRule (m : Machine) {f : Frame} (allowed : r.has f.kind = true ∨ f.kind.isReferred = true) :
    m.Enters r (m.beginRule f) := by
  intro kind l d entered
  rw [Machine.beginRule, Machine.fire] at entered
  split at entered
  · rcases Array.mem_push.1 entered with before | last
    · exact .inl before
    · cases last
      exact .inr allowed
  · exact .inl entered

end Machine.Enters

/-! ## Computations that obey the registry -/

/-- Failures of computations. Those of runs are fatal, those of operations are not. -/
class Failure (ε : Type) where
  fatal? : ε → Option FatalError

instance : Failure NativeError := ⟨fun _ => none⟩

instance : Failure FatalError := ⟨some⟩

namespace Eval

section

variable {ε α : Type} [Failure ε]

/-- The computation fails for want of a rule that another setup has. -/
def Misses (x : Eval ε α) (s' s : Setup) (m : Machine) : Prop :=
  ∃ e n k, x s' m = .error e n ∧ Failure.fatal? e = some (.missingRule k) ∧
    s'.rules.has k = false ∧ s.rules.has k = true

/-- The computation fails at a node that is not what its rule is for. -/
def Derails (x : Eval ε α) (s : Setup) (m : Machine) : Prop :=
  ∃ e n, x s m = .error e n ∧
    ∃ kind line column, Failure.fatal? e = some (.malformedNode kind line column)

/-- A computation to which rules that it does not come to make no difference, and that begins only
rules that there are. -/
structure Obeys (x : Eval ε α) : Prop where
  /-- With fewer rules the computation does the same, or a rule is missing. -/
  follows : ∀ {s' s : Setup}, s'.IsPartOf s → ∀ m, x s' m = x s m ∨ x.Misses s' s m
  enters : ∀ {s m}, ¬ x.Derails s m → m.Enters s.rules (x.after s m)

end

namespace Obeys

variable {ε α β : Type} [Failure ε] {x : Eval ε α} {f : α → Eval ε β}

/-- A computation that does not depend on the registry and fires no events. -/
theorem of_plain (same : ∀ {s' s : Setup}, s'.IsPartOf s → ∀ m, x s' m = x s m)
    (events : ∀ s m, (x.after s m).events = m.events) : Obeys x :=
  ⟨fun part m => .inl (same part m), fun _ => .of_same (events _ _)⟩

theorem pure (a : α) : Obeys (pure a : Eval ε α) := .of_plain (fun _ _ => rfl) fun _ _ => rfl

theorem throw (e : ε) : Obeys (throw e : Eval ε α) := .of_plain (fun _ _ => rfl) fun _ _ => rfl

theorem get : Obeys (get : Eval ε Machine) := .of_plain (fun _ _ => rfl) fun _ _ => rfl

/-- A look at the options or at the file. -/
theorem setup {f : Setup → α} (same : ∀ {s' s : Setup}, s'.IsPartOf s → f s' = f s) :
    Obeys (setup f : Eval ε α) := by
  refine .of_plain (fun part m => ?_) fun _ _ => rfl
  rw [setup_apply, setup_apply, same part]

theorem modify {u : Machine → Machine} (events : ∀ m, (u m).events = m.events) :
    Obeys (modify u : Eval ε Unit) := .of_plain (fun _ _ => rfl) fun _ => events

theorem modifyGet {u : Machine → α × Machine} (events : ∀ m, (u m).2.events = m.events) :
    Obeys (modifyGet u : Eval ε α) := .of_plain (fun _ _ => rfl) fun _ => events

/-- What follows a step may rely on what the step gives. -/
theorem bind_of {P : α → Prop} (h : Obeys x) (gives : ∀ s m a n, x s m = .ok a n → P a)
    (rest : ∀ a, P a → Obeys (f a)) : Obeys (x >>= f) where
  follows := by
    intro s' s part m
    -- the first step does the same with fewer rules, or the run ends there for want of a rule
    rcases h.follows part m with same | ⟨e, n, k, run, missing, there⟩
    · cases run : x s m with
      | ok a n =>
        rw [run] at same
        rcases (rest a (gives s m a n run)).follows part n with last | ⟨e, n', k, last, missing, there⟩
        · left
          rw [bind_apply, bind_apply, run, same]
          exact last
        · refine .inr ⟨e, n', k, ?_, missing, there⟩
          rw [bind_apply, same]
          exact last
      | error e n =>
        left
        rw [bind_apply, bind_apply, same, run]
    · refine .inr ⟨e, n, k, ?_, missing, there⟩
      rw [bind_apply, run]
  enters := by
    intro s m goes
    rw [after_bind]
    cases run : x s m with
    | ok a n =>
      have first := h.enters (s := s) (m := m) (by
        rintro ⟨e, n', failed, -⟩
        rw [run] at failed
        cases failed)
      rw [Eval.after, run] at first
      refine first.trans ((rest a (gives s m a n run)).enters ?_)
      rintro ⟨e, n', failed, malformed⟩
      exact goes ⟨e, n', by rwa [bind_apply, run], malformed⟩
    | error e n =>
      have first := h.enters (s := s) (m := m) (by
        rintro ⟨e', n', failed, malformed⟩
        exact goes ⟨e', n', by rw [bind_apply, failed], malformed⟩)
      rwa [Eval.after, run] at first

theorem bind (h : Obeys x) (rest : ∀ a, Obeys (f a)) : Obeys (x >>= f) :=
  .bind_of (P := fun _ => True) h (fun _ _ _ _ _ => trivial) fun a _ => rest a

theorem map (f : α → β) (h : Obeys x) : Obeys (f <$> x) := by
  rw [map_eq_pure_bind]
  exact .bind h fun a => .pure (f a)

theorem forM {xs : List α} {f : α → Eval ε Unit} (h : ∀ a ∈ xs, Obeys (f a)) : Obeys (xs.forM f) := by
  induction xs with
  | nil => exact pure ()
  | cons a xs ih =>
    exact bind (h a List.mem_cons_self) fun _ => ih fun b hb => h b (List.mem_cons_of_mem a hb)

/-- What an operation fails with is not fatal. -/
theorem attempt {op : Op α} (h : Obeys op) : Obeys (op.attempt : Eval ε _) where
  follows := by
    intro s' s part m
    rcases h.follows part m with same | ⟨e, n, k, -, missing, -⟩
    · left
      rw [Op.attempt, Op.attempt, same]
    · cases missing
  enters := by
    intro s m _
    rw [Op.after_attempt]
    refine h.enters ?_
    rintro ⟨e, n, -, kind, line, column, malformed⟩
    cases malformed

theorem ensuring {u : Machine → Machine} (h : Obeys x) (events : ∀ m, (u m).events = m.events) :
    Obeys (x.ensuring u) where
  follows := by
    intro s' s part m
    rcases h.follows part m with same | ⟨e, n, k, run, missing, there⟩
    · left
      rw [ensuring_apply, ensuring_apply, same]
    · refine .inr ⟨e, u n, k, ?_, missing, there⟩
      rw [ensuring_apply, run]
  enters := by
    intro s m goes
    rw [after_ensuring]
    refine .trans (h.enters ?_) (.of_same (events _))
    rintro ⟨e, n, failed, malformed⟩
    exact goes ⟨e, u n, by rw [ensuring_apply, failed], malformed⟩

theorem recorded (h : Obeys x) : Obeys (recorded x) where
  follows := by
    intro s' s part m
    rcases h.follows part m with same | ⟨e, n, k, run, missing, there⟩
    · left
      rw [Eval.recorded, Eval.recorded, same]
    · refine .inr ⟨e, m.recordPass n, k, ?_, missing, there⟩
      rw [Eval.recorded, run]
  enters := by
    intro s m goes
    rw [after_recorded]
    have kept (n : Machine) : (m.recordPass n).events = n.events := rfl
    refine .trans (h.enters ?_) (.of_same (kept _))
    rintro ⟨e, n, failed, malformed⟩
    exact goes ⟨e, m.recordPass n, by rw [Eval.recorded, failed], malformed⟩

/-- A diagnostic begins no rule. -/
theorem report (d : Diagnostic) : Obeys (report d : Eval ε Unit) :=
  ⟨fun _ _ => .inl rfl, fun _ => .fire _ nofun⟩

theorem reportHere (kind : DiagnosticKind) (message : String) :
    Obeys (reportHere kind message : Eval ε Unit) := .bind .get fun _ => .report _

end Obeys

/-! ## Nodes -/

section

variable {α : Type} {kind : NodeKind} {span : Span} {shown : α → Completion} {body : Run α}
  {s : Setup} {m : Machine}

/-- The events around a rule do not depend on the registry. -/
theorem Obeys.follows_bracket (h : Obeys body) {s' : Setup} (part : s'.IsPartOf s) (m : Machine) :
    bracket kind span shown body s' m = bracket kind span shown body s m ∨
      (bracket kind span shown body).Misses s' s m := by
  rcases h.follows part (m.beginRule ⟨kind, span.location s.file⟩) with
    same | ⟨e, n, k, run, missing, there⟩
  · left
    rw [bracket_apply, bracket_apply, part.file, same]
  · refine .inr ⟨e, n.popFrame, k, ?_, missing, there⟩
    rw [bracket_apply, part.file, run]

/-- A rule is begun for a kind that has one, or to evaluate a reference. -/
theorem Obeys.enters_bracket (h : Obeys body)
    (allowed : s.rules.has kind = true ∨ kind.isReferred = true)
    (goes : ¬ (bracket kind span shown body).Derails s m) :
    m.Enters s.rules ((bracket kind span shown body).after s m) := by
  have begun : m.Enters s.rules (m.beginRule ⟨kind, span.location s.file⟩) := .beginRule m allowed
  have inside := begun.trans (h.enters (s := s) (m := m.beginRule ⟨kind, span.location s.file⟩) (by
    rintro ⟨e, n, run, malformed⟩
    exact goes ⟨e, n.popFrame, by rw [bracket_apply, run], malformed⟩))
  rw [Eval.after] at inside ⊢
  rw [bracket_apply]
  cases run : body s (m.beginRule ⟨kind, span.location s.file⟩) with
  | ok a n =>
    rw [run] at inside
    exact (inside.trans (.of_same rfl)).trans (.fire n.popFrame fun _ _ _ same => by cases same)
  | error e n =>
    rw [run] at inside
    exact inside.trans (.of_same rfl)

theorem ruled_of_some {handler : Handler} {core : Run Completion}
    (given : s.rules.handler? kind = some handler) :
    ruled kind span core s m = bracket kind span id (handler.apply kind span core) s m := by
  rw [ruled, bind_apply, setup_apply, given]

theorem ruled_of_none {core : Run Completion} (absent : s.rules.handler? kind = none) :
    ruled kind span core s m = .error (.missingRule kind) m := by
  rw [ruled, bind_apply, setup_apply, absent]
  rfl

/-- What a handler does with a node does not depend on the registry if the core rule does not. -/
theorem Obeys.apply {core : Run Completion} (h : Obeys core) (handler : Handler) :
    Obeys (handler.apply kind span core) := by
  cases handler with
  | idle => exact .pure _
  | core k =>
    unfold Handler.apply Rule.onForeignNode
    dsimp only
    split
    · exact h
    · split
      · exact .pure _
      · exact .pure _
      · exact .bind .get fun _ => .pure _
      · exact .bind (.map Except.ok (.throw _)) fun c => by cases c <;> exact .pure _

/-- To evaluate a node for its value is to ask the registry for a rule. -/
theorem Obeys.ruled {core : Run Completion} (h : Obeys core) : Obeys (ruled kind span core) where
  follows := by
    intro s' s part m
    -- with fewer rules the rule is missing, or it is the same one
    cases given : s'.rules.handler? kind with
    | none =>
      cases whole : s.rules.handler? kind with
      | none => exact .inl ((ruled_of_none given).trans (ruled_of_none whole).symm)
      | some handler =>
        exact .inr ⟨_, m, kind, ruled_of_none given, rfl, by rw [Rules.has, given, Option.isSome_none],
          by rw [Rules.has, whole, Option.isSome_some]⟩
    | some handler =>
      have whole : s.rules.handler? kind = some handler := by
        rw [← part.rules kind (by rw [Rules.has, given, Option.isSome_some]), given]
      have runs : Eval.ruled kind span core s' m =
        bracket kind span id (handler.apply kind span core) s' m := ruled_of_some given
      rw [runs, ruled_of_some whole]
      exact ((h.apply handler).follows_bracket part m).imp_right fun ⟨e, n, k, run, missing⟩ =>
        ⟨e, n, k, runs.trans run, missing⟩
  enters := by
    intro s m goes
    cases given : s.rules.handler? kind with
    | none =>
      rw [Eval.after, ruled_of_none given]
      exact .refl m
    | some handler =>
      have runs : Eval.ruled kind span core s m =
        bracket kind span id (handler.apply kind span core) s m := ruled_of_some given
      rw [Eval.after, runs]
      refine (h.apply handler).enters_bracket (.inl (by rw [Rules.has, given, Option.isSome_some])) ?_
      rintro ⟨e, n, run, malformed⟩
      exact goes ⟨e, n, runs.trans run, malformed⟩

end

/-- A node is evaluated to a reference without asking the registry. Only some kinds of nodes can be;
with others the run fails. -/
theorem Obeys.referring {kind : NodeKind} {r : Rule Reference} (h : Obeys r.run) (span : Span)
    (allowed : kind.isReferred = true ∨ ∀ s m, r.run.Derails s m) :
    Obeys (Rule.referring kind span r).run where
  follows part m := h.follows_bracket part m
  enters := by
    intro s m goes
    rcases allowed with referred | derails
    · exact h.enters_bracket (.inr referred) goes
    · obtain ⟨e, n, run, malformed⟩ := derails s (m.beginRule ⟨kind, span.location s.file⟩)
      refine absurd ⟨e, n.popFrame, ?_, malformed⟩ goes
      show bracket kind span Rule.referenceOutcome r.run s m = _
      rw [bracket_apply, run]

end Eval

end AbstractScript
