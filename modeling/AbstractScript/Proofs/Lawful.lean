import AbstractScript.Proofs.Integrity

/-!
# Lawful computations

A computation is *lawful* in a world, at a cost, if in every valid machine in which there is at least
what the world says it leaves a valid machine after beginning at most so many rules, and what it
gives refers only to what there is then (`Eval.Lawful`). What is composed of lawful computations is
lawful, and the costs add up (`Eval.Lawful.bind_add`).
-/
namespace AbstractScript

open Eval

variable {L : Law}

/-! ## Computations -/

namespace Eval

variable {ε α β : Type} [Located α] [Located β]

/-- What a computation does to one machine is lawful. -/
structure LawfulAt (L : Law) (cost : Nat) (m : Machine) (x : Eval ε α) : Prop where
  reaches : m.Reaches L cost (x.after L.setup m)
  holds : ∀ a n, x L.setup m = .ok a n → (n.world L).Holds a

/-- A computation is lawful wherever there is at least what a world says. -/
structure Lawful (L : Law) (cost : Nat) (w : World) (x : Eval ε α) : Prop where
  run : ∀ m, m.Valid L → w.Grows (m.world L) → x.LawfulAt L cost m

namespace LawfulAt

variable {m n : Machine} {c d : Nat} {x : Eval ε α} {f : α → Eval ε β}

/-- A run that returns is lawful when it reaches its final machine and its result is tracked there.
-/
theorem of_ok {a : α} (run : x L.setup m = .ok a n) (reaches : m.Reaches L c n)
    (held : (n.world L).Holds a) : x.LawfulAt L c m where
  reaches := by
    rw [after, run]
    exact reaches
  holds b k h := by
    rw [run] at h
    cases h
    exact held

/-- A run that raises owes nothing but its final machine. -/
theorem of_error {e : ε} (run : x L.setup m = .error e n) (reaches : m.Reaches L c n) :
    x.LawfulAt L c m where
  reaches := by
    rw [after, run]
    exact reaches
  holds b k h := by
    rw [run] at h
    cases h

/-- A computation that is lawful from a deeper level is lawful from a shallower one. -/
theorem mono (h : x.LawfulAt L c m) (le : c ≤ d) : x.LawfulAt L d m :=
  ⟨h.reaches.mono le, h.holds⟩

/-- Returning a tracked value is lawful. -/
theorem pure {a : α} (valid : m.Valid L) (held : (m.world L).Holds a) :
    (pure a : Eval ε α).LawfulAt L c m := .of_ok rfl (.refl valid) held

/-- Raising is lawful at every valid machine. -/
theorem throw (e : ε) (valid : m.Valid L) : (throw e : Eval ε α).LawfulAt L c m :=
  .of_error rfl (.refl valid)

/-- What succeeds leaves a machine that is reached. -/
theorem reaches_ok {a : α} (h : x.LawfulAt L c m) (run : x L.setup m = .ok a n) :
    m.Reaches L c n := by
  have := h.reaches
  rwa [after, run] at this

/-- The machine at which a lawful computation raises is one that it may reach. -/
theorem reaches_error {e : ε} (h : x.LawfulAt L c m) (run : x L.setup m = .error e n) :
    m.Reaches L c n := by
  have := h.reaches
  rwa [after, run] at this

/-- What is lawful after what has been reached is lawful after both. -/
theorem after_reaches {y : Eval ε β} {z : Eval ε β} (run : y L.setup m = z L.setup n)
    (reached : m.Reaches L c n) (h : z.LawfulAt L d n) : y.LawfulAt L (c + d) m where
  reaches := by
    rw [after, run]
    exact reached.trans h.reaches
  holds b k hb := h.holds b k (run ▸ hb)

/-- A computation followed by another one is lawful if both are, one after the other. -/
theorem bind_add (hx : x.LawfulAt L c m)
    (hf : ∀ a n, x L.setup m = .ok a n → m.Reaches L c n → (n.world L).Holds a →
      (f a).LawfulAt L d n) : (x >>= f).LawfulAt L (c + d) m := by
  cases run : x L.setup m with
  | ok a n =>
    have reached := hx.reaches_ok run
    refine after_reaches ?_ reached (hf a n run reached (hx.holds a n run))
    rw [bind_apply, run]
  | error e n =>
    refine of_error (e := e) ?_ ((hx.reaches_error run).mono (Nat.le_add_right c d))
    rw [bind_apply, run]

/-- What costs nothing can come first. -/
theorem bind (hx : x.LawfulAt L 0 m)
    (hf : ∀ a n, x L.setup m = .ok a n → m.Reaches L 0 n → (n.world L).Holds a →
      (f a).LawfulAt L c n) : (x >>= f).LawfulAt L c m :=
  (hx.bind_add hf).mono (by omega)

/-- A function that keeps results tracked may be applied to the result. -/
theorem map {g : α → β} (hx : x.LawfulAt L c m)
    (hg : ∀ a n, m.Reaches L c n → (n.world L).Holds a → (n.world L).Holds (g a)) :
    (g <$> x).LawfulAt L c m := by
  rw [map_eq_pure_bind]
  refine (hx.bind_add (d := 0) fun a n _ reached held => ?_).mono (by omega)
  exact .pure reached.valid (hg a n reached held)

/-- What is done in any case at the end is a change like any other. -/
theorem ensuring (hx : x.LawfulAt L c m) {g : Machine → Machine}
    (hg : ∀ n, m.Reaches L c n → n.Reaches L 0 (g n)) : (x.ensuring g).LawfulAt L c m where
  reaches := by
    rw [after_ensuring]
    exact hx.reaches.trans (hg _ hx.reaches)
  holds b k hb := by
    rw [ensuring_apply] at hb
    cases run : x L.setup m with
    | ok a n =>
      rw [run] at hb
      cases hb
      exact (hg n (hx.reaches_ok run)).grows.lift (hx.holds _ n run)
    | error e n =>
      rw [run] at hb
      cases hb

/-- Recording the rejected call on the way out keeps a computation lawful. -/
theorem recorded (hx : x.LawfulAt L c m) : x.recorded.LawfulAt L c m where
  reaches := by
    rw [after_recorded]
    exact Machine.Valid.recordPass m hx.reaches
  holds b k hb := by
    rw [Eval.recorded] at hb
    cases run : x L.setup m with
    | ok a n =>
      rw [run] at hb
      cases hb
      exact hx.holds _ n run
    | error e n =>
      rw [run] at hb
      cases hb

/-- A change of the machine is lawful when it leads to a machine that may be reached. -/
theorem modify {g : Machine → Machine} (h : m.Reaches L c (g m)) :
    (modify g : Eval ε Unit).LawfulAt L c m := .of_ok rfl h trivial

/-- The same for a change that also returns something tracked. -/
theorem modifyGet {g : Machine → α × Machine} (h : m.Reaches L c (g m).2)
    (held : ((g m).2.world L).Holds (g m).1) : (modifyGet g : Eval ε α).LawfulAt L c m :=
  .of_ok rfl h held

/-- An object may be changed in place when its new record is tracked and, where that is asked for,
what lasts of the old one is kept. -/
theorem modifyObject (valid : m.Valid L) {o : ObjectId} {g : ObjectRecord → ObjectRecord}
    (held : (m.world L).Holds (g (m.realm.object o)))
    (lasting : L.tracked → (m.realm.object o).Lasting (g (m.realm.object o))) :
    (modifyObject o g : Eval ε Unit).LawfulAt L c m :=
  .modify (valid.modifyObject o held lasting)

/-- After the machine is read the rest runs at that very machine. -/
theorem get_bind {f : Machine → Eval ε β} (hf : (f m).LawfulAt L c m) :
    (get >>= f : Eval ε β).LawfulAt L c m := ⟨hf.reaches, hf.holds⟩

/-- After an object is read the rest runs with the record that the realm holds. -/
theorem object_bind {o : ObjectId} {f : ObjectRecord → Eval ε β}
    (hf : (f (m.realm.object o)).LawfulAt L c m) : (object o >>= f : Eval ε β).LawfulAt L c m :=
  ⟨hf.reaches, hf.holds⟩

end LawfulAt

namespace Lawful

variable {w : World} {c d : Nat} {x : Eval ε α} {f : α → Eval ε β}

/-- What is lawful in the world of a valid machine is lawful in the machine. -/
theorem at_machine {m : Machine} (h : x.Lawful L c (m.world L)) (valid : m.Valid L) :
    x.LawfulAt L c m := h.run m valid (.refl _)

/-- What is lawful stays so in every world that grows. -/
theorem grow {w' : World} (h : x.Lawful L c w) (grows : w.Grows w') : x.Lawful L c w' :=
  ⟨fun m valid more => h.run m valid (grows.trans more)⟩

/-- Levels may be relaxed in any world. -/
theorem mono (h : x.Lawful L c w) (le : c ≤ d) : x.Lawful L d w :=
  ⟨fun m valid grows => (h.run m valid grows).mono le⟩

/-- Returning what the world holds is lawful. -/
theorem pure {a : α} (held : w.Holds a) : (pure a : Eval ε α).Lawful L c w :=
  ⟨fun _ valid grows => .pure valid (grows.lift held)⟩

/-- Raising is lawful in every world. -/
theorem throw (e : ε) : (throw e : Eval ε α).Lawful L c w := ⟨fun _ valid _ => .throw e valid⟩

/-- A computation followed by another one is lawful if both are. The costs add up. -/
theorem bind_add (hx : x.Lawful L c w)
    (hf : ∀ {w'}, w.Grows w' → ∀ a, w'.Holds a → (f a).Lawful L d w') :
    (x >>= f).Lawful L (c + d) w :=
  ⟨fun m valid grows => (hx.run m valid grows).bind_add fun a _ _ reached held =>
    (hf (grows.trans reached.grows) a held).run _ reached.valid (.refl _)⟩

/-- What costs nothing can come first. -/
theorem bind (hx : x.Lawful L 0 w)
    (hf : ∀ {w'}, w.Grows w' → ∀ a, w'.Holds a → (f a).Lawful L c w') :
    (x >>= f).Lawful L c w :=
  (hx.bind_add hf).mono (by omega)

/-- What costs nothing can come last. -/
theorem bind_free (hx : x.Lawful L c w)
    (hf : ∀ {w'}, w.Grows w' → ∀ a, w'.Holds a → (f a).Lawful L 0 w') :
    (x >>= f).Lawful L c w := hx.bind_add hf

/-- A function that keeps results tracked in every later world may be applied. -/
theorem map {g : α → β} (hx : x.Lawful L c w)
    (hg : ∀ {w'}, w.Grows w' → ∀ a, w'.Holds a → w'.Holds (g a)) : (g <$> x).Lawful L c w :=
  ⟨fun m valid grows => (hx.run m valid grows).map fun a _ reached held =>
    hg (grows.trans reached.grows) a held⟩

/-- What refers to nothing can be given anywhere. -/
theorem free [Unlocated α] (a : α) : (Pure.pure a : Eval ε α).Lawful L c w :=
  .pure (Unlocated.holds w a)

/-- What follows a look at the machine is lawful if it is so in this machine. -/
theorem get_bind_at {f : Machine → Eval ε β}
    (hf : ∀ m : Machine, m.Valid L → w.Grows (m.world L) → (f m).LawfulAt L c m) :
    (get >>= f : Eval ε β).Lawful L c w := ⟨fun m valid grows => .get_bind (hf m valid grows)⟩

/-- To read the machine is lawful when the rest is, whatever the machine. -/
theorem get_bind {f : Machine → Eval ε β} (hf : ∀ m, (f m).Lawful L c w) :
    (get >>= f : Eval ε β).Lawful L c w :=
  .get_bind_at fun m valid grows => (hf m).run m valid grows

/-- To read an object is lawful when the rest is lawful with the record it finds. -/
theorem object_bind {o : ObjectId} {f : ObjectRecord → Eval ε β}
    (hf : ∀ m : Machine, m.Valid L → w.Grows (m.world L) → (f (m.realm.object o)).LawfulAt L c m) :
    (object o >>= f : Eval ε β).Lawful L c w :=
  ⟨fun m valid grows => .object_bind (hf m valid grows)⟩

/-- The setup never changes, so a computation that reads it is the one for that setup. -/
theorem setup_bind {γ : Type} {g : Setup → γ} {f : γ → Eval ε β}
    (hf : (f (g L.setup)).Lawful L c w) : (setup g >>= f : Eval ε β).Lawful L c w :=
  ⟨fun m valid grows => ⟨(hf.run m valid grows).reaches, (hf.run m valid grows).holds⟩⟩

/-- Reading an object is lawful. -/
theorem object (o : ObjectId) : (object o : Eval ε ObjectRecord).Lawful L c w :=
  ⟨fun _ valid _ => .of_ok rfl (.refl valid) (valid.object o)⟩

/-- A change is lawful when every valid machine of a later world is led to one that may be reached.
-/
theorem modify {g : Machine → Machine}
    (h : ∀ m : Machine, m.Valid L → w.Grows (m.world L) → m.Reaches L c (g m)) :
    (modify g : Eval ε Unit).Lawful L c w := ⟨fun m valid grows => .modify (h m valid grows)⟩

/-- The same for a change that returns something. -/
theorem modifyGet {g : Machine → α × Machine}
    (h : ∀ m : Machine, m.Valid L → w.Grows (m.world L) →
      m.Reaches L c (g m).2 ∧ ((g m).2.world L).Holds (g m).1) :
    (modifyGet g : Eval ε α).Lawful L c w :=
  ⟨fun m valid grows => .modifyGet (h m valid grows).1 (h m valid grows).2⟩

/-- What leaves everything that is recorded in place is lawful. -/
theorem of_unmoved {x : Eval ε Unit} (h : Keeps Machine.Unmoved x) : x.Lawful L c w :=
  ⟨fun m valid _ => ⟨(h.after L.setup m).reaches valid, fun _ _ _ => trivial⟩⟩

/-- Catching the fault of an operation keeps it lawful. -/
theorem attempt {op : Op α} (h : op.Lawful L c w) :
    (op.attempt : Eval ε _).Lawful L c w := by
  refine ⟨fun m valid grows => ⟨?_, fun a n run => ?_⟩⟩
  · rw [Op.after_attempt]
    exact (h.run m valid grows).reaches
  · rw [Op.attempt] at run
    cases result : op L.setup m with
    | ok b k =>
      rw [result] at run
      cases run
      exact (h.run m valid grows).holds b _ result
    | error e k =>
      rw [result] at run
      cases run
      trivial

/-- A traversal is lawful when each step is, in every world that has grown meanwhile. -/
theorem forM {as : List α} {f : α → Eval ε Unit} (held : w.Holds as)
    (h : ∀ {w'}, w.Grows w' → ∀ a ∈ as, w'.Holds a → (f a).Lawful L 0 w') :
    (as.forM f).Lawful L c w := by
  induction as generalizing w with
  | nil => exact .pure trivial
  | cons a rest ih =>
    refine .bind (h (.refl w) a List.mem_cons_self (held a List.mem_cons_self)) fun grows _ _ => ?_
    refine ih (fun b hb => grows.lift (held b (List.mem_cons_of_mem a hb))) fun more b hb => ?_
    exact h (grows.trans more) b (List.mem_cons_of_mem a hb)

/-- What is done if a condition holds. -/
theorem when {p : Prop} [Decidable p] {x : Eval ε Unit} (hx : p → x.Lawful L c w) :
    (if p then x else Pure.pure ()).Lawful L c w := by
  split
  next hp => exact hx hp
  next => exact .pure trivial

/-- What is done before the rest if a condition holds. -/
theorem join {p : Prop} [Decidable p] {x : Eval ε α} {rest : α → Eval ε β} {rest' : Eval ε β}
    (hx : x.Lawful L 0 w) (h : ∀ {w'}, w.Grows w' → ∀ a, w'.Holds a → (rest a).Lawful L c w')
    (h' : rest'.Lawful L c w) : (if p then x >>= rest else rest').Lawful L c w := by
  split
  · exact .bind hx h
  · exact h'

end Lawful

/-! ## Reports and marks -/

section

variable {ε : Type}

/-- Noting a moment moves nothing that the laws speak about. -/
theorem watch_unmoved : Keeps Machine.Unmoved (watch : Eval ε Unit) :=
  .bind (.setup _) fun _ => .modify fun _ => ⟨rfl, rfl, rfl⟩

/-- An event is only added to the history. -/
theorem emit_unmoved (e : Event) : Keeps Machine.Unmoved (emit e : Eval ε Unit) :=
  .modify fun _ => ⟨rfl, rfl, rfl⟩

/-- A diagnostic is only added to the list of reports. -/
theorem report_unmoved (d : Diagnostic) : Keeps Machine.Unmoved (report d : Eval ε Unit) :=
  .bind (emit_unmoved _) fun _ => .modify fun _ => ⟨rfl, rfl, rfl⟩

/-- A report about the place that is evaluated is one diagnostic. -/
theorem reportHere_unmoved (kind : DiagnosticKind) (message : String) :
    Keeps Machine.Unmoved (reportHere kind message : Eval ε Unit) :=
  .bind .get fun _ => report_unmoved _

/-- So is the report of a fault. -/
theorem reportError_unmoved (e : NativeError) :
    Keeps Machine.Unmoved (reportError e : Eval ε Unit) := reportHere_unmoved ..

/-- So is the report that a loop was given up. -/
theorem reportMaxIterations_unmoved : Keeps Machine.Unmoved (reportMaxIterations : Eval ε Unit) :=
  .bind (.setup _) fun _ => reportHere_unmoved ..

/-- So is the report that a call was refused. -/
theorem reportMaxRecursion_unmoved : Keeps Machine.Unmoved (reportMaxRecursion : Eval ε Unit) :=
  .bind (.setup _) fun _ => reportHere_unmoved ..

/-- A mark on a place only grows the list of marked places. -/
theorem markUnknown_unmoved (span : Span) :
    Keeps Machine.Unmoved (markUnknown span : Eval ε Unit) :=
  .bind (.setup _) fun _ => .modify fun _ => ⟨rfl, rfl, rfl⟩

end

end Eval

/-! ## Rules -/

namespace Rule

variable {α β : Type} [Located α] [Located β]

/-- The computation behind a rule is lawful. -/
def Lawful (L : Law) (cost : Nat) (w : World) (r : Rule α) : Prop := Eval.Lawful L cost w r.run

namespace Lawful

variable {w : World} {c d : Nat} {r : Rule α} {f : α → Rule β}

/-- A rule stays lawful in every later world. -/
theorem grow {w' : World} (h : r.Lawful L c w) (grows : w.Grows w') : r.Lawful L c w' :=
  Eval.Lawful.grow h grows

/-- Levels may be relaxed for rules as for evaluations. -/
theorem mono (h : r.Lawful L c w) (le : c ≤ d) : r.Lawful L d w := Eval.Lawful.mono h le

/-- A rule that is lawful in the world of a machine runs lawfully from it. -/
theorem at_machine {m : Machine} (h : r.Lawful L c (m.world L)) (valid : m.Valid L) :
    r.run.LawfulAt L c m := Eval.Lawful.at_machine h valid

/-- An evaluation becomes a lawful rule. -/
theorem lift {x : Run α} (hx : x.Lawful L c w) : (Rule.lift x).Lawful L c w :=
  Eval.Lawful.map hx fun _ _ held => held

/-- A rule may return what the world holds. -/
theorem pure {a : α} (held : w.Holds a) : (pure a : Rule α).Lawful L c w :=
  Eval.Lawful.pure (a := Except.ok a) held

/-- A rule may end early with a completion that the world holds. -/
theorem throw {completion : Completion} (held : w.Holds completion) :
    (throw completion : Rule α).Lawful L c w :=
  Eval.Lawful.pure (a := Except.error completion) held

/-- A part of a rule followed by the others is lawful if all of them are. What the others do may
depend on what the part can give. -/
theorem bind_add_of {P : α → Prop} (hr : r.Lawful L c w) (gives : Gives P r)
    (hf : ∀ {w'}, w.Grows w' → ∀ a, w'.Holds a → P a → (f a).Lawful L d w') :
    (r >>= f).Lawful L (c + d) w := by
  refine ⟨fun m valid grows => ?_⟩
  rw [ExceptT.run_bind]
  -- An abrupt completion ends the rule; only a result is given to what follows.
  refine (hr.run m valid grows).bind_add fun a n run reached held => ?_
  cases a with
  | ok a =>
    have rest := hf (grows.trans reached.grows) a held (gives _ _ _ _ run)
    exact rest.run n reached.valid (.refl _)
  | error completion => exact .pure reached.valid held

/-- The costs of the parts of a rule add up. -/
theorem bind_add (hr : r.Lawful L c w)
    (hf : ∀ {w'}, w.Grows w' → ∀ a, w'.Holds a → (f a).Lawful L d w') :
    (r >>= f).Lawful L (c + d) w :=
  hr.bind_add_of (P := fun _ => True) (fun _ _ _ _ _ => trivial) fun grows a held _ =>
    hf grows a held

/-- A part that costs nothing can come first. -/
theorem bind (hr : r.Lawful L 0 w)
    (hf : ∀ {w'}, w.Grows w' → ∀ a, w'.Holds a → (f a).Lawful L c w') :
    (r >>= f).Lawful L c w :=
  (hr.bind_add hf).mono (by omega)

/-- A part that costs nothing can come last. -/
theorem bind_free (hr : r.Lawful L c w)
    (hf : ∀ {w'}, w.Grows w' → ∀ a, w'.Holds a → (f a).Lawful L 0 w') :
    (r >>= f).Lawful L c w := hr.bind_add hf

/-- Data that names no object and no environment may be returned in any world. -/
theorem free [Unlocated α] (a : α) : (Pure.pure a : Rule α).Lawful L c w :=
  pure (Unlocated.holds w a)

/-- A rule that reads the machine is lawful when the rest runs lawfully from what it read. -/
theorem get_bind_at {f : Machine → Rule β}
    (hf : ∀ m : Machine, m.Valid L → w.Grows (m.world L) → (f m).run.LawfulAt L c m) :
    (get >>= f : Rule β).Lawful L c w :=
  ⟨fun m valid grows => ⟨(hf m valid grows).reaches, (hf m valid grows).holds⟩⟩

/-- The same when the rest is lawful whatever it read. -/
theorem get_bind {f : Machine → Rule β} (hf : ∀ m, (f m).Lawful L c w) :
    (get >>= f : Rule β).Lawful L c w :=
  .get_bind_at fun m valid grows => (hf m).run m valid grows

/-- A rule that reads the setup is the rule for that setup. -/
theorem setup_bind {γ : Type} {g : Setup → γ} {f : γ → Rule β}
    (hf : (f (g L.setup)).Lawful L c w) :
    (Rule.lift (setup g) >>= f : Rule β).Lawful L c w :=
  ⟨fun m valid grows => ⟨(hf.run m valid grows).reaches, (hf.run m valid grows).holds⟩⟩

/-- The two ways in which a rule ends become one completion. -/
theorem complete {r : Rule Completion} (h : r.Lawful L c w) : r.complete.Lawful L c w := by
  refine Eval.Lawful.bind_free h fun _ a held => ?_
  cases a with
  | ok completion => exact .pure held
  | error completion => exact .pure held

/-- The value of an operand is lawful when its evaluation is; an abrupt completion ends the rule. -/
theorem value {x : Run Completion} (hx : x.Lawful L c w) : (value x).Lawful L c w := by
  refine bind_free (lift hx) fun _ completion held => ?_
  split
  · exact throw held
  · exact pure (Completion.holds_getValue held)

/-- An operation used by a rule is lawful; its fault becomes a throw. -/
theorem native {op : Op α} (h : op.Lawful L c w) : (native op).Lawful L c w := by
  refine bind_free (lift h.attempt) fun _ result held => ?_
  cases result with
  | ok a => exact pure held
  | error e =>
    exact bind (lift (.of_unmoved (reportError_unmoved e))) fun _ _ _ => throw trivial

/-- A rule traverses a list lawfully when each step is lawful in every later world. -/
theorem forM {as : List β} {f : β → Rule Unit} (held : w.Holds as)
    (h : ∀ {w'}, w.Grows w' → ∀ a ∈ as, w'.Holds a → (f a).Lawful L 0 w') :
    (as.forM f).Lawful L c w := by
  induction as generalizing w with
  | nil => exact pure trivial
  | cons a rest ih =>
    refine bind (h (.refl w) a List.mem_cons_self (held a List.mem_cons_self)) fun grows _ _ => ?_
    refine ih (fun b hb => grows.lift (held b (List.mem_cons_of_mem a hb))) fun more b hb => ?_
    exact h (grows.trans more) b (List.mem_cons_of_mem a hb)

end Lawful

end Rule

end AbstractScript
