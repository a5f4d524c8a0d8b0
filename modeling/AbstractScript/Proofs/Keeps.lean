import AbstractScript.Evaluation.Program
import Mathlib.Order.Defs.Unbundled

/-!
# Relations that computations keep

A computation *keeps* a relation between machines if it relates every machine to the machine that it
leaves, whether it succeeds or fails; there may be one relation for successes and another one for
failures. A reflexive and transitive relation that the steps of a computation keep is kept by the
whole of it (`Eval.KeepsBy.bind`), and a rule keeps what its parts keep (`Rule.KeepsBy.bind`).
-/
namespace AbstractScript

/-! ## The machine after a computation -/

namespace Eval

variable {ε α β : Type}

/-- The machine that a computation leaves, whether it succeeds or fails. -/
def after (x : Eval ε α) (s : Setup) (m : Machine) : Machine :=
  match x s m with
  | .ok _ n => n
  | .error _ n => n

@[simp] theorem after_pure (a : α) (s : Setup) (m : Machine) :
    (pure a : Eval ε α).after s m = m := rfl

@[simp] theorem after_throw (e : ε) (s : Setup) (m : Machine) :
    (throw e : Eval ε α).after s m = m := rfl

@[simp] theorem after_get (s : Setup) (m : Machine) : (get : Eval ε Machine).after s m = m := rfl

@[simp] theorem after_setup (f : Setup → α) (s : Setup) (m : Machine) :
    (setup f : Eval ε α).after s m = m := rfl

@[simp] theorem after_modify (f : Machine → Machine) (s : Setup) (m : Machine) :
    (modify f : Eval ε Unit).after s m = f m := rfl

@[simp] theorem after_modifyGet (f : Machine → α × Machine) (s : Setup) (m : Machine) :
    (modifyGet f : Eval ε α).after s m = (f m).2 := rfl

/-- A new object is created at the level of ambiguity. -/
@[simp] theorem after_create (record : Nat → ObjectRecord) (s : Setup) (m : Machine) :
    (create record : Eval ε ObjectId).after s m = m.addObject (record m.realm.ambiguityLevel) := rfl

/-- A new environment is created at the level of ambiguity. -/
@[simp] theorem after_createEnvironment (e : Environment) (s : Setup) (m : Machine) :
    (createEnvironment e : Eval ε EnvId).after s m =
      m.addEnvironment { e with createdLevel := m.realm.ambiguityLevel } := rfl

/-- A look leaves the machine to what follows it. -/
theorem after_get_bind (f : Machine → Eval ε β) (s : Setup) (m : Machine) :
    (get >>= f).after s m = (f m).after s m := rfl

/-- What follows a look at an object begins in the same machine. -/
theorem after_object_bind (o : ObjectId) (f : ObjectRecord → Eval ε β) (s : Setup) (m : Machine) :
    (object o >>= f).after s m = (f (m.realm.object o)).after s m := rfl

/-- What is left is what the second step leaves, or the first one if it fails. -/
theorem after_bind (x : Eval ε α) (f : α → Eval ε β) (s : Setup) (m : Machine) :
    (x >>= f).after s m = match x s m with
      | .ok a n => (f a).after s n
      | .error _ n => n := by
  rw [after, bind_apply]
  cases x s m <;> rfl

/-- After a success, what is left is what follows leaves. -/
theorem after_bind_ok {x : Eval ε α} {f : α → Eval ε β} {s : Setup} {m n : Machine} {a : α}
    (h : x s m = .ok a n) : (x >>= f).after s m = (f a).after s n := by
  rw [after_bind, h]

/-- A result may be computed without another step. -/
theorem after_bind_pure (x : Eval ε α) (f : α → β) (s : Setup) (m : Machine) :
    (x >>= fun a => pure (f a)).after s m = x.after s m := by
  rw [after_bind, after]
  cases x s m <;> rfl

/-- A function of the result changes nothing of the machine. -/
@[simp] theorem after_map (f : α → β) (x : Eval ε α) (s : Setup) (m : Machine) :
    (f <$> x).after s m = x.after s m := by
  rw [map_eq_pure_bind]
  exact after_bind_pure x f s m

/-- What is done at the end is done to what is left, success or failure. -/
@[simp] theorem after_ensuring (x : Eval ε α) (f : Machine → Machine) (s : Setup) (m : Machine) :
    (x.ensuring f).after s m = f (x.after s m) := by
  rw [after, ensuring_apply, after]
  cases x s m <;> rfl

/-- The history has one more pass. -/
@[simp] theorem after_recorded (x : Eval ε α) (s : Setup) (m : Machine) :
    x.recorded.after s m = m.recordPass (x.after s m) := by
  rw [after, recorded, after]
  cases x s m <;> rfl

end Eval

/-- An attempt leaves what its operation leaves. -/
@[simp] theorem Op.after_attempt {ε α : Type} (op : Op α) (s : Setup) (m : Machine) :
    (op.attempt : Eval ε _).after s m = op.after s m := by
  rw [Eval.after, Op.attempt, Eval.after]
  cases op s m <;> rfl

/-! ## What computations keep -/

namespace Eval

variable {ε α β : Type}

/-- True if a computation succeeds. -/
def succeeds (x : Eval ε α) (s : Setup) (m : Machine) : Bool :=
  match x s m with
  | .ok .. => true
  | .error .. => false

/-- True if a computation succeeds with a result of some kind. -/
def succeedsWith (p : α → Bool) (x : Eval ε α) (s : Setup) (m : Machine) : Bool :=
  match x s m with
  | .ok a _ => p a
  | .error .. => false

/-- A success has a result. -/
theorem exists_of_succeedsWith {p : α → Bool} {x : Eval ε α} {s : Setup} {m : Machine}
    (h : x.succeedsWith p s m = true) : ∃ a n, x s m = .ok a n ∧ p a = true := by
  unfold succeedsWith at h
  split at h
  next a n ran => exact ⟨a, n, ran, h⟩
  · cases h

/-- Two steps succeed if the first does and what follows it does. -/
theorem succeeds_bind (x : Eval ε α) (f : α → Eval ε β) (s : Setup) (m : Machine) :
    (x >>= f).succeeds s m = match x s m with
      | .ok a n => (f a).succeeds s n
      | .error _ _ => false := by
  rw [succeeds, bind_apply]
  cases x s m <;> rfl

/-- After a success it is up to what follows. -/
theorem succeeds_bind_ok {x : Eval ε α} {f : α → Eval ε β} {s : Setup} {m n : Machine} {a : α}
    (h : x s m = .ok a n) : (x >>= f).succeeds s m = (f a).succeeds s n := by
  rw [succeeds_bind, h]

/-- A function of the result makes no failure. -/
@[simp] theorem succeeds_map (f : α → β) (x : Eval ε α) (s : Setup) (m : Machine) :
    (f <$> x).succeeds s m = x.succeeds s m := by
  rw [map_eq_pure_bind, succeeds_bind, succeeds]
  cases x s m <;> rfl

/-- What is done at the end makes no failure. -/
@[simp] theorem succeeds_ensuring (x : Eval ε α) (f : Machine → Machine) (s : Setup) (m : Machine) :
    (x.ensuring f).succeeds s m = x.succeeds s m := by
  rw [succeeds, ensuring_apply, succeeds]
  cases x s m <;> rfl

/-- Nor does the history. -/
@[simp] theorem succeeds_recorded (x : Eval ε α) (s : Setup) (m : Machine) :
    x.recorded.succeeds s m = x.succeeds s m := by
  rw [succeeds, recorded, succeeds]
  cases x s m <;> rfl

/-- An attempt succeeds whatever the operation does. -/
@[simp] theorem succeeds_attempt (op : Op α) (s : Setup) (m : Machine) :
    (op.attempt : Eval ε _).succeeds s m = true := by
  rw [succeeds, Op.attempt]
  cases op s m <;> rfl

/-- Every machine is related to the machine that the computation leaves, by a relation for
successes or by one for failures. -/
structure KeepsBy (R : Bool → Machine → Machine → Prop) (x : Eval ε α) : Prop where
  after : ∀ s m, R (x.succeeds s m) m (x.after s m)

/-- A machine is related to the one that the computation leaves from another machine on. -/
def KeepsAt (R : Bool → Machine → Machine → Prop) (x : Eval ε α) (s : Setup) (m k : Machine) : Prop :=
  R (x.succeeds s k) m (x.after s k)

/-- Every machine is related to the machine that the computation leaves. -/
abbrev Keeps (R : Machine → Machine → Prop) (x : Eval ε α) : Prop := KeepsBy (fun _ => R) x

end Eval

/-- Relations for successes and for failures that hold of what follows steps that succeed if they
hold of the steps. -/
class Composes (R : Bool → Machine → Machine → Prop) : Prop where
  same : ∀ b m, R b m m
  step : ∀ {b m n k}, R true m n → R b n k → R b m k

instance {R : Machine → Machine → Prop} [IsPreorder Machine R] : Composes fun _ => R where
  same _ m := refl m
  step := IsTrans.trans _ _ _

namespace Eval

variable {ε α β : Type}

section

variable {R : Bool → Machine → Machine → Prop} {x : Eval ε α} {s : Setup} {m n k : Machine}

/-- A success is related as a success. -/
theorem KeepsAt.of_ok {a : α} (run : x s k = .ok a n) (h : R true m n) : KeepsAt R x s m k := by
  rw [KeepsAt, succeeds, after, run]
  exact h

/-- A failure is related as a failure. -/
theorem KeepsAt.of_error {e : ε} (run : x s k = .error e n) (h : R false m n) :
    KeepsAt R x s m k := by
  rw [KeepsAt, succeeds, after, run]
  exact h

/-- What a computation comes down to matters only. -/
theorem KeepsAt.congr {y : Eval ε α} {j : Machine} (same : x s k = y s j) (h : KeepsAt R y s m j) :
    KeepsAt R x s m k := by
  rw [KeepsAt, succeeds, after, same]
  exact h

/-- What a success leaves is related to the machine from before. -/
theorem KeepsAt.related_ok {a : α} (h : KeepsAt R x s m k) (run : x s k = .ok a n) : R true m n := by
  rwa [KeepsAt, succeeds, after, run] at h

/-- So is what a failure leaves. -/
theorem KeepsAt.related_error {e : ε} (h : KeepsAt R x s m k) (run : x s k = .error e n) :
    R false m n := by
  rwa [KeepsAt, succeeds, after, run] at h

end

namespace KeepsBy

variable {R : Bool → Machine → Machine → Prop}

/-- A success leaves a machine that is related to the one before. -/
theorem of_ok {x : Eval ε α} {s : Setup} {m n : Machine} {a : α} (h : KeepsBy R x)
    (run : x s m = .ok a n) : R true m n := KeepsAt.related_ok (h.after s m) run

/-- A failure leaves a machine that is related to the one before as by a failure. -/
theorem of_error {x : Eval ε α} {s : Setup} {m n : Machine} {e : ε} (h : KeepsBy R x)
    (run : x s m = .error e n) : R false m n := KeepsAt.related_error (h.after s m) run

/-- A function of the result makes no difference to what is kept. -/
theorem map {x : Eval ε α} (f : α → β) (hx : KeepsBy R x) : KeepsBy R (f <$> x) where
  after s m := by
    rw [after_map, succeeds_map]
    exact hx.after s m

/-- An attempt succeeds, so only the relation for successes matters. -/
theorem attempt {op : Op α} (h : Keeps (R true) op) : KeepsBy R (op.attempt : Eval ε _) where
  after s m := by
    rw [Op.after_attempt, succeeds_attempt]
    exact h.after s m

/-- A change of the machine keeps what it is related by. -/
theorem modify {f : Machine → Machine} (h : ∀ m, R true m (f m)) :
    KeepsBy R (modify f : Eval ε Unit) := ⟨fun _ m => h m⟩

/-- So does a change with a result. -/
theorem modifyGet {f : Machine → α × Machine} (h : ∀ m, R true m (f m).2) :
    KeepsBy R (modifyGet f : Eval ε α) := ⟨fun _ m => h m⟩

/-- What follows a look at an object may rely on what the object is like. -/
theorem object_bind {o : ObjectId} {f : ObjectRecord → Eval ε β}
    (hf : ∀ s m, KeepsAt R (f (m.realm.object o)) s m m) : KeepsBy R (Eval.object o >>= f) :=
  ⟨hf⟩

variable [Composes R]

/-- What may be left by a success may be left by a failure. -/
theorem of_keeps {x : Eval ε α} (h : Keeps (R true) x) : KeepsBy R x where
  after s m := by
    have related := h.after s m
    cases x.succeeds s m with
    | true => exact related
    | false => exact Composes.step related (Composes.same false _)

theorem pure (a : α) : KeepsBy R (pure a : Eval ε α) := ⟨fun _ m => Composes.same true m⟩

theorem throw (e : ε) : KeepsBy R (throw e : Eval ε α) := ⟨fun _ m => Composes.same false m⟩

theorem get : KeepsBy R (get : Eval ε Machine) := ⟨fun _ m => Composes.same true m⟩

theorem setup (f : Setup → α) : KeepsBy R (setup f : Eval ε α) :=
  ⟨fun _ m => Composes.same true m⟩

theorem object (o : ObjectId) : KeepsBy R (object o : Eval ε ObjectRecord) :=
  ⟨fun _ m => Composes.same true m⟩

/-- What follows a step from a machine on may rely on how the step went. -/
theorem bind_from {x : Eval ε α} {f : α → Eval ε β} {s : Setup} {m k : Machine}
    (hx : KeepsAt R x s m k) (hf : ∀ a n, x s k = .ok a n → KeepsBy R (f a)) :
    KeepsAt R (x >>= f) s m k := by
  cases run : x s k with
  | ok a n =>
    refine .congr (y := f a) (j := n) ?_ (Composes.step (hx.related_ok run) ((hf a n run).after s n))
    rw [bind_apply, run]
  | error e n =>
    refine .of_error (e := e) ?_ (hx.related_error run)
    rw [bind_apply, run]

/-- A relation is kept step by step. What follows a step may rely on what the step can give. -/
theorem bind_of {P : α → Prop} {x : Eval ε α} {f : α → Eval ε β} (hx : KeepsBy R x)
    (gives : ∀ s m a n, x s m = .ok a n → P a) (hf : ∀ a, P a → KeepsBy R (f a)) :
    KeepsBy R (x >>= f) :=
  ⟨fun s m => bind_from (hx.after s m) fun a n run => hf a (gives s m a n run)⟩

/-- A machine that is related to the one after the first step is related to the one after all steps
if the others keep the relation. -/
theorem bind_at {x : Eval ε α} {f : α → Eval ε β} {s : Setup} {m k : Machine}
    (hx : KeepsAt R x s m k) (hf : ∀ a, KeepsBy R (f a)) : KeepsAt R (x >>= f) s m k :=
  bind_from hx fun a _ _ => hf a

/-- A relation is kept step by step. -/
theorem bind {x : Eval ε α} {f : α → Eval ε β} (hx : KeepsBy R x) (hf : ∀ a, KeepsBy R (f a)) :
    KeepsBy R (x >>= f) :=
  ⟨fun s m => bind_at (hx.after s m) hf⟩

/-- A loop over a list keeps a relation if each of its steps does. -/
theorem forM {xs : List α} {f : α → Eval ε Unit} (h : ∀ a ∈ xs, KeepsBy R (f a)) :
    KeepsBy R (xs.forM f) := by
  induction xs with
  | nil => exact pure ()
  | cons a xs ih =>
    exact bind (h a List.mem_cons_self) fun _ => ih fun b hb => h b (List.mem_cons_of_mem a hb)

/-- What is done if a condition holds. -/
theorem when {p : Prop} [Decidable p] {x : Eval ε Unit} (hx : KeepsBy R x) :
    KeepsBy R (if p then x else Pure.pure ()) := by
  split
  · exact hx
  · exact pure ()

/-- What is done before the rest if a condition holds. -/
theorem join {p : Prop} [Decidable p] {x : Eval ε α} {rest : α → Eval ε β} {rest' : Eval ε β}
    (hx : KeepsBy R x) (h : ∀ a, KeepsBy R (rest a)) (h' : KeepsBy R rest') :
    KeepsBy R (if p then x >>= rest else rest') := by
  split
  · exact bind hx h
  · exact h'

end KeepsBy

namespace Keeps

variable {R : Machine → Machine → Prop}

/-- What is left is related to the machine from before. -/
theorem after {x : Eval ε α} (h : Keeps R x) (s : Setup) (m : Machine) : R m (x.after s m) :=
  KeepsBy.after h s m

/-- What is kept implies what is weaker. -/
theorem mono {R' : Machine → Machine → Prop} {x : Eval ε α} (h : ∀ m n, R m n → R' m n)
    (hx : Keeps R x) : Keeps R' x := ⟨fun s m => h m _ (hx.after s m)⟩

/-- A success leaves a machine that is related to the one before. -/
theorem of_ok {x : Eval ε α} {s : Setup} {m n : Machine} {a : α} (h : Keeps R x)
    (run : x s m = .ok a n) : R m n := KeepsBy.of_ok (R := fun _ => R) h run

theorem attempt {op : Op α} (h : Keeps R op) : Keeps R (op.attempt : Eval ε _) :=
  KeepsBy.attempt h

variable [IsPreorder Machine R]

theorem pure (a : α) : Keeps R (pure a : Eval ε α) := KeepsBy.pure a

theorem throw (e : ε) : Keeps R (throw e : Eval ε α) := KeepsBy.throw e

/-- A relation is kept step by step. -/
theorem bind {x : Eval ε α} {f : α → Eval ε β} (hx : Keeps R x) (hf : ∀ a, Keeps R (f a)) :
    Keeps R (x >>= f) := KeepsBy.bind hx hf

/-- What is done before the rest if a condition holds. -/
theorem join {p : Prop} [Decidable p] {x : Eval ε α} {rest : α → Eval ε β} {rest' : Eval ε β}
    (hx : Keeps R x) (h : ∀ a, Keeps R (rest a)) (h' : Keeps R rest') :
    Keeps R (if p then x >>= rest else rest') := KeepsBy.join hx h h'

/-- A machine that is related to the one after the first step is related to the one after all steps
if the others keep the relation. -/
theorem bind_at {x : Eval ε α} {f : α → Eval ε β} {s : Setup} {m k : Machine}
    (hx : R m (x.after s k)) (hf : ∀ a, Keeps R (f a)) : R m ((x >>= f).after s k) :=
  KeepsBy.bind_at (R := fun _ => R) hx hf

end Keeps

end Eval

/-! ### Since a machine -/

/-- What a machine is related to stays related to it. -/
def Machine.Since (R : Machine → Machine → Prop) (m : Machine) (k n : Machine) : Prop :=
  R m k → R m n

instance {R : Machine → Machine → Prop} {m : Machine} : IsPreorder Machine (Machine.Since R m) where
  refl _ h := h
  trans _ _ _ h h' hm := h' (h hm)

/-- What a machine is related to by a success stays related to it. -/
def Machine.SinceBy (R : Bool → Machine → Machine → Prop) (m : Machine) (b : Bool)
    (k n : Machine) : Prop :=
  R true m k → R b m n

instance {R : Bool → Machine → Machine → Prop} [Composes R] {m : Machine} :
    Composes (Machine.SinceBy R m) where
  same b _ hm := Composes.step hm (Composes.same b _)
  step h h' hm := h' (h hm)

namespace Eval

variable {ε α : Type}

/-- The relation of a machine to a later one is the same after the computation. -/
abbrev KeepsSince (R : Machine → Machine → Prop) (m : Machine) (x : Eval ε α) : Prop :=
  Keeps (Machine.Since R m) x

/-- The relation of a machine to a later one, by a success, is the same after the computation. -/
abbrev KeepsBySince (R : Bool → Machine → Machine → Prop) (m : Machine) (x : Eval ε α) : Prop :=
  KeepsBy (Machine.SinceBy R m) x

/-- What a computation keeps it keeps since any machine. -/
theorem Keeps.since {R : Machine → Machine → Prop} [IsPreorder Machine R] {x : Eval ε α}
    (h : Keeps R x) (m : Machine) : KeepsSince R m x :=
  ⟨fun s n hn => IsTrans.trans _ _ _ hn (h.after s n)⟩

/-- What a computation keeps it keeps since any machine. -/
theorem KeepsBy.since {R : Bool → Machine → Machine → Prop} [Composes R] {x : Eval ε α}
    (h : KeepsBy R x) (m : Machine) : KeepsBySince R m x :=
  ⟨fun s n hn => Composes.step hn (h.after s n)⟩

/-- A machine is related to the one that is left if the relation is kept since the machine. -/
theorem Keeps.start {R : Machine → Machine → Prop} [IsPreorder Machine R] {x : Eval ε α}
    {m : Machine} (h : KeepsSince R m x) (s : Setup) : R m (x.after s m) := h.after s m (refl m)

end Eval

/-! ## What rules keep -/

namespace Rule

open Eval

variable {α β : Type}

/-- The computation behind a rule keeps a relation for successes and one for failures. -/
def KeepsBy (R : Bool → Machine → Machine → Prop) (r : Rule α) : Prop := Eval.KeepsBy R r.run

/-- The computation behind a rule keeps a relation. -/
abbrev Keeps (R : Machine → Machine → Prop) (r : Rule α) : Prop := KeepsBy (fun _ => R) r

/-- What a part of a rule gives, unless it ends the rule or fails. -/
def Gives (P : α → Prop) (r : Rule α) : Prop := ∀ s m a n, r.run s m = .ok (.ok a) n → P a

namespace Gives

variable {P : α → Prop}

/-- A result of which something is true is given. -/
theorem pure {a : α} (h : P a) : Gives P (pure a : Rule α) := fun s m b n hb => by
  cases hb
  exact h

/-- A part gives what the last step of it gives. -/
theorem bind {r : Rule β} {f : β → Rule α} (h : ∀ b, Gives P (f b)) : Gives P (r >>= f) := by
  intro s m a n ha
  rw [ExceptT.run_bind, bind_eq_ok_iff] at ha
  obtain ⟨b, k, -, hb⟩ := ha
  cases b with
  | ok b => exact h b s k a n hb
  | error c => cases hb

end Gives

namespace KeepsBy

variable {R : Bool → Machine → Machine → Prop}

theorem lift {x : Run α} (hx : Eval.KeepsBy R x) : KeepsBy R (lift x) := Eval.KeepsBy.map Except.ok hx

/-- In a rule, a step does to the machine what it does by itself. -/
theorem lift_at {x : Run α} {s : Setup} {m k : Machine} (hx : KeepsAt R x s m k) :
    KeepsAt R (Rule.lift x).run s m k := by
  show R ((Except.ok <$> x : Run (Except Completion α)).succeeds s k) m ((Except.ok <$> x).after s k)
  rw [after_map, succeeds_map]
  exact hx

/-- What follows a look at an object may rely on what the object is like. -/
theorem object_bind {o : ObjectId} {f : ObjectRecord → Rule α}
    (hf : ∀ s m, KeepsAt R (f (m.realm.object o)).run s m m) :
    KeepsBy R (Rule.lift (Eval.object o) >>= f) :=
  ⟨hf⟩

variable [Composes R]

theorem pure (a : α) : KeepsBy R (pure a) := Eval.KeepsBy.pure _

theorem throw (c : Completion) : KeepsBy R (throw c : Rule α) := Eval.KeepsBy.pure _

theorem get : KeepsBy R (get : Rule Machine) := ⟨fun _ m => Composes.same true m⟩

/-- A machine that is related to the one after the first part is related to the one after all parts
if the others keep the relation. -/
theorem bind_at {r : Rule α} {f : α → Rule β} {s : Setup} {m k : Machine}
    (hr : KeepsAt R r.run s m k) (hf : ∀ a, KeepsBy R (f a)) : KeepsAt R (r >>= f).run s m k := by
  rw [ExceptT.run_bind]
  refine Eval.KeepsBy.bind_at hr fun a => ?_
  cases a with
  | ok a => exact hf a
  | error c => exact Eval.KeepsBy.pure _

/-- A relation is kept part by part. -/
theorem bind {r : Rule α} {f : α → Rule β} (hr : KeepsBy R r) (hf : ∀ a, KeepsBy R (f a)) :
    KeepsBy R (r >>= f) :=
  ⟨fun s m => bind_at (hr.after s m) hf⟩

/-- A loop over a list keeps a relation if each of its parts does. -/
theorem forM {xs : List α} {f : α → Rule Unit} (h : ∀ a ∈ xs, KeepsBy R (f a)) :
    KeepsBy R (xs.forM f) := by
  induction xs with
  | nil => exact pure ()
  | cons a xs ih =>
    exact bind (h a List.mem_cons_self) fun _ => ih fun b hb => h b (List.mem_cons_of_mem a hb)

/-- A rule is complete with its result or with what has ended it. -/
theorem complete {r : Rule Completion} (hr : KeepsBy R r) : Eval.KeepsBy R r.complete :=
  Eval.KeepsBy.bind hr fun c => by cases c <;> exact Eval.KeepsBy.pure _

/-- A completion that is not normal ends the rule. -/
theorem value {x : Run Completion} (hx : Eval.KeepsBy R x) : KeepsBy R (value x) := by
  refine bind (lift hx) fun c => ?_
  split
  · exact throw c
  · exact pure _

end KeepsBy

/-- A rule of one step leaves what the step leaves. -/
theorem after_complete_lift_pure {α : Type} (x : Run α) (g : α → Completion) (s : Setup)
    (m : Machine) : (lift x >>= fun a => pure (g a)).complete.after s m = x.after s m := by
  rw [complete_bind_lift]
  exact after_bind_pure x g s m

end Rule

end AbstractScript
