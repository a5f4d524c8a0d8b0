import AbstractScript.Proofs.Names
import AbstractScript.Proofs.QuietOperations

/-!
# Relations that rules keep

What an evaluation does to the machine comes down to a list of steps: operations, the stack of
rules, ambiguous blocks, possible exits, calls. Relations between machines that all these steps but
the calls keep, one for successes and one for failures, are kept by every rule whose parts and calls
keep them (`Evaluating`). If they are also kept by each step of a call, they are *stepwise*
(`Stepwise`). They may rely on the program not to delete plain names; `deletes` says that they need
not.
-/
namespace AbstractScript

open Eval

/-! ## Operations in rules -/

section

variable {R : Bool → Machine → Machine → Prop} [Composes R] [Reading (R true)]

/-- What only touches the records aside is kept. -/
theorem Eval.KeepsBy.aside {ε α : Type} {x : Eval ε α} (h : Keeps Machine.Aside x) : KeepsBy R x :=
  .of_keeps (.aside h)

namespace Rule

/-- What an operation does to one machine is all that its rule does. -/
theorem native_at {α : Type} {op : Op α} {s : Setup} {m : Machine} (h : R true m (op.after s m)) :
    KeepsAt R (native op).run s m m := by
  refine KeepsBy.bind_at ?_ fun result => ?_
  · show KeepsAt R (Except.ok <$> op.attempt : Run (Except Completion _)) s m m
    rw [KeepsAt, after_map, Op.after_attempt, succeeds_map, succeeds_attempt]
    exact h
  · cases result with
    | ok a => exact .pure a
    | error e => exact .bind (.lift (.aside (reportError_keeps e))) fun _ => .throw _

theorem keeps_native {α : Type} {op : Op α} (h : Eval.Keeps (R true) op) : KeepsBy R (native op) :=
  ⟨fun s m => native_at (h.after s m)⟩

omit [Reading (R true)] in
theorem keeps_elements {xs : List (Option (Run Completion))}
    (h : ∀ x, some x ∈ xs → Eval.KeepsBy R x) : KeepsBy R (elements xs) := by
  induction xs with
  | nil => exact .pure _
  | cons x xs ih =>
    have rest : KeepsBy R (elements xs) := ih fun y hy => h y (List.mem_cons_of_mem x hy)
    cases x with
    | none => exact .bind rest fun _ => .pure _
    | some x =>
      exact .bind (.value (h x List.mem_cons_self)) fun _ => .bind rest fun _ => .pure _

end Rule

namespace Eval

theorem recover_at {op : Op Completion} {s : Setup} {m : Machine} (h : R true m (op.after s m)) :
    KeepsAt R (recover op) s m m :=
  KeepsBy.bind_at (Rule.native_at h) fun c => by cases c <;> exact .pure _

theorem keeps_recover {op : Op Completion} (h : Keeps (R true) op) : KeepsBy R (recover op) :=
  ⟨fun s m => recover_at (h.after s m)⟩

theorem keeps_scriptReceiver (this : Value) : KeepsBy R (scriptReceiver this) := by
  unfold scriptReceiver
  split
  · exact .pure _
  · exact .pure _
  · exact .pure _
  · exact .pure _
  · refine .bind (.attempt (Op.built_toObject? this).keeps) fun o => ?_
    split <;> exact .pure _

omit [Composes R] [Reading (R true)] in
/-- The receiver that a function of the program sees is found without a failure. -/
theorem exists_scriptReceiver (this : Value) (s : Setup) (m : Machine) :
    ∃ v n, scriptReceiver this s m = .ok v n := by
  unfold scriptReceiver
  split
  · exact ⟨_, _, rfl⟩
  · exact ⟨_, _, rfl⟩
  · exact ⟨_, _, rfl⟩
  · exact ⟨_, _, rfl⟩
  · rw [bind_apply]
    cases attempted : (Op.toObject? this).attempt s m with
    | error e n => exact absurd attempted (Op.attempt_ne_error _ _ _ _ e)
    | ok o n =>
      dsimp only
      split
      · exact ⟨_, _, rfl⟩
      · exact ⟨_, _, rfl⟩

end Eval

end

/-! ## Steps -/

namespace Machine

/-- Begins a rule: it is on the stack when its first event is fired. -/
def beginRule (m : Machine) (f : Frame) : Machine :=
  (m.pushFrame f).fire (.enter f.kind f.location m.contexts.depth)

/-- Ends the innermost rule: it is off the stack when its last event is fired. -/
def endRule (m : Machine) (f : Frame) (c : Completion) : Machine :=
  m.popFrame.fire (.leave f.kind f.location m.contexts.depth c)

/-- Ends the block of a `try` with a handler that began in another machine: the throws in it are
claimed. -/
def endHandled (m n : Machine) : Machine :=
  (n.enterLedger true (.handled (n.ledger.size - m.ledger.size))).dropClaimed m.exits.size
    Completion.isThrow

end Machine

/-- Relations between machines, for successes and for failures, that the steps of an evaluation
outside of calls keep. -/
class Evaluating (deletes : outParam Prop) (R : Bool → Machine → Machine → Prop) : Prop
    extends Composes R, Reading (R true) where
  /-- A rule is left with a completion. -/
  leave : ∀ {m n f}, R true (m.beginRule f) n → ∀ c, R true m (n.endRule f c)
  /-- A rule fails. -/
  abandon : ∀ {m n f}, R false (m.beginRule f) n → R false m n.popFrame
  /-- An ambiguous block is left. -/
  pass : ∀ {b m n}, R b m.enterBlock n → R b m (m.recordPass (n.exitBlock m.contexts.enterIndex?))
  note : ∀ m c, R true m (m.noteExit c)
  /-- Possible exits are claimed that are no throws. -/
  claim : ∀ {m n p}, (∀ c : Completion, c.isThrow = true → p c = false) → R true m n →
    R true m (n.dropClaimed m.exits.size p)
  /-- The block of a `try` with a handler is left. -/
  handled : ∀ {m n}, R true m n → R true m (m.endHandled n)
  overtaken : ∀ m p, R true m (m.recordOvertaken p)
  handle : ∀ {body}, KeepsBy R body → ∀ name thrown, KeepsBy R (handle name body thrown)
  createScript : ∀ {code : FunctionCode}, (¬ deletes → code.keepsNames = true) →
    ∀ scope, Keeps (R true) (createScript code scope : Run ObjectId)
  functionValue : ∀ {code : FunctionCode}, (¬ deletes → code.keepsNames = true) →
    Keeps (R true) (createFunctionValue code : Run ObjectId)
  arrayLiteral : ∀ {xs}, (∀ x, some x ∈ xs → KeepsBy R x) → Rule.KeepsBy R (Rule.arrayLiteral xs)
  objectLiteral : ∀ {ps : List Rule.Property}, (∀ p ∈ ps, Rule.KeepsBy R p.2) →
    Rule.KeepsBy R (Rule.objectLiteral ps)
  putValue : ∀ r v, Keeps (R true) (Op.putValue r v)
  /-- What is referred to is removed; if it is a binding, names may be deleted. -/
  deleteReference : ∀ {r : Reference}, (¬ deletes → ∀ e, r.base ≠ .environment e) →
    Keeps (R true) (Rule.deleteReference r)

/-- Relations between machines, for successes and for failures, that the steps of an evaluation
keep, those of its calls included. -/
class Stepwise (deletes : outParam Prop) (R : Bool → Machine → Machine → Prop) : Prop
    extends Evaluating deletes R where
  markInvoked : ∀ m f, R true m (m.markInvoked f)
  /-- A native function that `new` runs. -/
  construct : ∀ {s m} {f : ObjectId} {name call native},
    (m.realm.object f).callable = some (.native name call (some native)) →
    ∀ arguments, Value.anyUnknown arguments = false →
      R true m ((native.call .undefined arguments).after s m)
  /-- The code of a function that can be called; a machine with other code is of no interest. -/
  closure : ∀ {m} {f : ObjectId} {closure},
    (m.realm.object f).callable = some (.script closure) →
    (¬ deletes → closure.code.keepsNames = true) ∨ ∀ b n, R b m n
  script : ∀ {body closure}, (¬ deletes → closure.code.keepsNames = true) → KeepsBy R body →
    ∀ f this arguments, KeepsBy R (callScript body f closure this arguments)

namespace Machine

variable {R : Machine → Machine → Prop} [IsPreorder Machine R]

/-- A rule is left in two steps, and so it is begun. -/
theorem leave_of (fire : ∀ m e, R m (m.fire e))
    (frame : ∀ {m n f}, R (m.pushFrame f) n → R m n.popFrame) {m n : Machine} {f : Frame}
    (h : R (m.beginRule f) n) (c : Completion) : R m (n.endRule f c) :=
  IsTrans.trans _ _ _ (frame (IsTrans.trans _ _ _ (fire _ _) h)) (fire _ _)

theorem abandon_of (fire : ∀ m e, R m (m.fire e))
    (frame : ∀ {m n f}, R (m.pushFrame f) n → R m n.popFrame) {m n : Machine} {f : Frame}
    (h : R (m.beginRule f) n) : R m n.popFrame :=
  frame (IsTrans.trans _ _ _ (fire _ _) h)

end Machine

/-! ## Frames and blocks -/

section

variable {R : Bool → Machine → Machine → Prop} {deletes : Prop} [evaluating : Evaluating deletes R]

include evaluating

namespace Eval

omit evaluating in
/-- Between its events a rule does what its body does. -/
theorem bracket_apply {α : Type} (kind : NodeKind) (span : Span) (outcome : α → Completion)
    (body : Run α) (s : Setup) (m : Machine) :
    bracket kind span outcome body s m = match body s (m.beginRule ⟨kind, span.location s.file⟩) with
      | .ok a n => .ok a (n.endRule ⟨kind, span.location s.file⟩ (outcome a))
      | .error e n => .error e n.popFrame := by
  show ((body.ensuring Machine.popFrame) >>= _) s (m.beginRule ⟨kind, span.location s.file⟩) = _
  rw [bind_apply, ensuring_apply]
  cases body s (m.beginRule ⟨kind, span.location s.file⟩) <;> rfl

/-- Only machines with the contexts from before matter to what a rule does between its events. -/
theorem bracket_at {α : Type} (kind : NodeKind) (span : Span) (outcome : α → Completion)
    {body : Run α} {s : Setup} {m : Machine}
    (h : ∀ n, n.contexts = m.contexts → KeepsAt R body s n n) :
    KeepsAt R (bracket kind span outcome body) s m m := by
  have h := h (m.beginRule ⟨kind, span.location s.file⟩) rfl
  have bracketed := bracket_apply kind span outcome body s m
  cases run : body s (m.beginRule ⟨kind, span.location s.file⟩) with
  | ok a n =>
    rw [run] at bracketed
    exact .of_ok bracketed (Evaluating.leave (h.related_ok run) _)
  | error e n =>
    rw [run] at bracketed
    exact .of_error bracketed (Evaluating.abandon (h.related_error run))

theorem keeps_bracket {α : Type} (kind : NodeKind) (span : Span) (outcome : α → Completion)
    {body : Run α} (h : KeepsBy R body) : KeepsBy R (bracket kind span outcome body) :=
  ⟨fun s _ => bracket_at kind span outcome fun n _ => h.after s n⟩

omit evaluating in
/-- Something that may or may not happen is evaluated in a block of its own. -/
theorem ambiguously_eq (span : Span) (x : Run Completion) (s : Setup) (m : Machine) :
    let k := m.markBlock (span.location s.file)
    let body : Run Completion := do
      let c ← x
      note c
      return possibly c
    (ambiguously span x).after s m =
        m.recordPass ((body.after s k.enterBlock).exitBlock k.contexts.enterIndex?) ∧
      (ambiguously span x).succeeds s m = body.succeeds s k.enterBlock := by
  intro k body
  constructor
  · rw [ambiguously, after_recorded]
    unfold inBlock
    rw [after_bind_ok (setup_apply ..), after_bind_ok (modify_apply ..),
      after_bind_ok (get_apply ..), after_bind_ok (modify_apply ..), after_ensuring]
  · rw [ambiguously, succeeds_recorded]
    unfold inBlock
    rw [succeeds_bind_ok (setup_apply ..), succeeds_bind_ok (modify_apply ..),
      succeeds_bind_ok (get_apply ..), succeeds_bind_ok (modify_apply ..), succeeds_ensuring]

/-- Something that may or may not happen is recorded as a pass. Only machines with the objects from
before matter to it. -/
theorem ambiguously_at (span : Span) {x : Run Completion} {s : Setup} {m : Machine}
    (h : ∀ n, n.realm.objects = m.realm.objects → KeepsAt R x s n n) :
    KeepsAt R (ambiguously span x) s m m := by
  have marked : m.Aside (m.markBlock (span.location s.file)) := .of_eq
  have body := KeepsBy.bind_at (h (m.markBlock (span.location s.file)).enterBlock rfl) fun c =>
    .bind (.modify fun m => Evaluating.note m c) fun _ => .pure (possibly c)
  obtain ⟨after, succeeds⟩ := ambiguously_eq span x s m
  rw [KeepsAt, after, succeeds]
  exact Composes.step (Reading.aside marked) (Evaluating.pass body)

theorem keeps_ambiguously (span : Span) {x : Run Completion} (h : KeepsBy R x) :
    KeepsBy R (ambiguously span x) :=
  ⟨fun s _ => ambiguously_at span fun n _ => h.after s n⟩

theorem keeps_note (c : Completion) : KeepsBy R (note c : Run Unit) :=
  .modify fun m => Evaluating.note m c

/-- What claims exits since a mark only keeps a relation if it does so since the mark. -/
theorem keeps_mark {α : Type} {f : Nat → Run α} (h : ∀ m, KeepsBySince R m (f m.exits.size)) :
    KeepsBy R (mark >>= f) where
  after s m := (h m).after s m (Composes.same true m)

theorem keepsSince_claim (m : Machine) {p : Completion → Bool}
    (others : ∀ c : Completion, c.isThrow = true → p c = false) :
    KeepsBySince R m (claim m.exits.size p : Run (List PossibleExit)) :=
  ⟨fun _ _ hn => Evaluating.claim others hn⟩

theorem keeps_takeLabels : KeepsBy R takeLabels :=
  .modifyGet fun _ => Reading.aside .of_eq

theorem keeps_hasExitsSince (mark : Nat) : KeepsBy R (hasExitsSince mark : Run Bool) :=
  .bind .get fun _ => .pure _

end Eval

/-! ## Rules in general -/

namespace Rule

theorem keeps_malformed {α : Type} (kind : NodeKind) (span : Span) :
    KeepsBy R (malformed kind span : Rule α) := .lift (.throw _)

end Rule

namespace Eval

theorem keeps_onForeignNode (kind : NodeKind) (span : Span) :
    KeepsBy R (Rule.onForeignNode kind span) := by
  unfold Rule.onForeignNode
  split
  · exact .pure _
  · exact .pure _
  · exact .bind .get fun _ => .pure _
  · exact (Rule.keeps_malformed ..).complete

theorem apply_at (handler : Handler) (kind : NodeKind) (span : Span) {core : Run Completion}
    {s : Setup} {m : Machine} (h : KeepsAt R core s m m) :
    KeepsAt R (handler.apply kind span core) s m m := by
  unfold Handler.apply
  split
  · exact (KeepsBy.pure _).after s m
  · split
    · exact h
    · exact (keeps_onForeignNode ..).after s m

/-- A node is evaluated to what its kind's rule makes of it, whatever the registry says. -/
theorem ruled_at (kind : NodeKind) (span : Span) {core : Run Completion} {s : Setup} {m : Machine}
    (h : ∀ n, n.contexts = m.contexts → KeepsAt R core s n n) :
    KeepsAt R (ruled kind span core) s m m := by
  rw [KeepsAt, ruled, after_bind_ok (setup_apply ..), succeeds_bind_ok (setup_apply ..)]
  split
  · exact bracket_at _ _ _ fun n hn => apply_at _ _ _ (h n hn)
  · exact (KeepsBy.throw _).after s m

theorem keeps_ruled (kind : NodeKind) (span : Span) {core : Run Completion} (h : KeepsBy R core) :
    KeepsBy R (ruled kind span core) :=
  ⟨fun s _ => ruled_at kind span fun n _ => h.after s n⟩

end Eval

end

end AbstractScript
