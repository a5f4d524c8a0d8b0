import AbstractScript.Proofs.Registry
import AbstractScript.Proofs.StepPlan

/-!
# Expressions leave throws only

A computation *avoids* possible exits of a kind if it leaves none of that kind that it has recorded
itself. Expressions are *calm*: they end without jumps and leave no jumps as possible exits, whatever
the registry says of their nodes (`Expression.calm_evaluate`). The calls in them do so as well, since a
call drops all possible exits in it but the throws (`Eval.callWithin_jumpFree`).
-/
namespace AbstractScript

open Eval

/-! ## Exits that are left -/

/-- True for a break, a continue or a return. -/
def Completion.isJump (c : Completion) : Bool :=
  c.kind = .breaks || c.kind = .continues || c.kind = .returns

namespace Machine

variable {m n k : Machine} {p q : Completion → Bool}

/-- Possible exits are added to those of a machine, and a predicate is true of none of them. -/
def Adds (p : Completion → Bool) (m n : Machine) : Prop :=
  ∃ es : List PossibleExit, n.exits.toList = m.exits.toList ++ es ∧ ∀ e ∈ es, p e.completion = false

namespace Adds

/-- The same possible exits as before are none added. -/
theorem of_eq (h : n.exits = m.exits) : m.Adds p n := ⟨[], by simp [h], by simp⟩

theorem refl (m : Machine) : m.Adds p m := .of_eq rfl

theorem trans (h : m.Adds p n) (h' : n.Adds p k) : m.Adds p k := by
  obtain ⟨es, exits, others⟩ := h
  obtain ⟨es', exits', others'⟩ := h'
  refine ⟨es ++ es', by rw [exits', exits, List.append_assoc], fun e added => ?_⟩
  exact (List.mem_append.1 added).elim (others e) (others' e)

/-- What is none of more completions is none of fewer. -/
theorem mono (le : ∀ c, q c = true → p c = true) (h : m.Adds p n) : m.Adds q n := by
  obtain ⟨es, exits, others⟩ := h
  refine ⟨es, exits, fun e added => Bool.eq_false_iff.2 fun given => ?_⟩
  have aimed := le _ given
  rw [others e added] at aimed
  cases aimed

/-- Only the possible exits of the later machine matter. -/
theorem congr (h : m.Adds p n) (same : k.exits = n.exits) : m.Adds p k := h.trans (.of_eq same)

theorem quiet (h : m.Quiet n) : m.Adds p n := .of_eq h.exits

/-- A claim leaves nothing of what it claims. -/
theorem dropClaimed (h : m.exits.toList <+: n.exits.toList) (p : Completion → Bool) :
    m.Adds p (n.dropClaimed m.exits.size p) := by
  obtain ⟨es, exits⟩ := h
  refine ⟨es.filter (!p ·.completion), ?_, fun e left => by simpa using (List.mem_filter.1 left).2⟩
  rw [exits_dropClaimed, exitsSince_eq_drop, ← exits]
  simp

/-- A completion that may have happened is added at most as it is. -/
theorem noteExit (m : Machine) {c : Completion} (other : p c = false) : m.Adds p (m.noteExit c) := by
  have recorded : m.Adds p (m.addExit c) :=
    ⟨[⟨c, m.location?, m.frames⟩], by simp [addExit], by simpa using other⟩
  unfold Machine.noteExit
  split
  · exact refl m
  · refine .of_eq ?_
    unfold Machine.markReturnUnknown
    split <;> rfl
  · exact recorded
  · exact recorded
  · exact recorded

/-- Whatever is added is one of no completions at all. -/
theorem of_kept (h : m.exits.toList <+: n.exits.toList) : m.Adds (fun _ => false) n := by
  obtain ⟨es, exits⟩ := h
  exact ⟨es, exits.symm, fun _ _ => rfl⟩

/-- The possible exits from before are still there. -/
theorem exits_kept (h : m.Adds p n) : m.exits.toList <+: n.exits.toList := by
  obtain ⟨es, exits, -⟩ := h
  exact ⟨es, exits.symm⟩

/-- Nothing is left of what is not added. -/
theorem claimed_eq_nil (h : m.Adds p n) : n.claimed m.exits.size p = [] := by
  obtain ⟨es, exits, others⟩ := h
  rw [claimed, exitsSince_eq_drop, exits, ← Array.length_toList, List.drop_left]
  exact List.filter_eq_nil_iff.2 fun e added => by simp [others e added]

/-- What is left since a machine is left since a later one, if it is not added in between. -/
theorem claimed_eq (h : m.Adds p k) (kept : k.exits.toList <+: n.exits.toList) :
    n.claimed m.exits.size p = n.claimed k.exits.size p := by
  have none := h.claimed_eq_nil
  obtain ⟨es, exits, -⟩ := h
  obtain ⟨fs, exits'⟩ := kept
  rw [claimed, exitsSince_eq_drop, exits, ← Array.length_toList, List.drop_left] at none
  rw [claimed, claimed, exitsSince_eq_drop, exitsSince_eq_drop, ← exits', ← Array.length_toList,
    ← Array.length_toList, List.drop_left, exits, List.append_assoc, List.drop_left,
    List.filter_append, none, List.nil_append]

end Adds

end Machine

/-! ## Computations without certain exits -/

namespace Eval

variable {α β : Type} {p q : Completion → Bool} {P : α → Prop} {Q : β → Prop} {x : Run α}
  {f : α → Run β}

/-- If the computation succeeds, it leaves no possible exits of a kind of its own, and what it gives
has a property. -/
structure Avoids (p : Completion → Bool) (P : α → Prop) (x : Run α) : Prop where
  run : ∀ {s m a n}, x s m = .ok a n → m.Adds p n ∧ P a

/-- A computation that leaves no jumps of its own as possible exits. -/
abbrev Calm (P : α → Prop) (x : Run α) : Prop := Avoids Completion.isJump P x

/-- A computation that ends without a jump and leaves none of its own as a possible exit. -/
abbrev JumpFree (x : Run Completion) : Prop := Calm (·.isJump = false) x

/-- A computation after which the possible exits from before it are still there. -/
abbrev Extends (x : Run α) : Prop := Avoids (fun _ => false) (fun _ => True) x

namespace Avoids

/-- What avoids more exits avoids fewer. -/
theorem less (le : ∀ c, q c = true → p c = true) (hx : Avoids p P x) : Avoids q P x :=
  ⟨fun run => (hx.run run).imp_left (.mono le)⟩

/-- What a computation gives may be forgotten. -/
theorem any (hx : Avoids p P x) : Avoids p (fun _ => True) x :=
  ⟨fun run => ⟨(hx.run run).1, trivial⟩⟩

/-- Whatever exits are avoided, those from before stay. -/
theorem extending (hx : Avoids p P x) : Extends x :=
  ⟨fun run => ⟨.of_kept (hx.run run).1.exits_kept, trivial⟩⟩

theorem pure {a : α} (h : P a) : Avoids p P (pure a : Run α) := ⟨by
  rintro s m b n run
  cases run
  exact ⟨.refl m, h⟩⟩

/-- A failure is no success. -/
theorem throw (e : FatalError) : Avoids p P (throw e : Run α) := ⟨by
  rintro s m b n run
  cases run⟩

/-- What follows a computation may rely on what it gives. -/
theorem bind (hx : Avoids p P x) (hf : ∀ a, P a → Avoids p Q (f a)) : Avoids p Q (x >>= f) := ⟨by
  rintro s m b n run
  obtain ⟨a, k, first, second⟩ := bind_eq_ok_iff.1 run
  obtain ⟨added, given⟩ := hx.run first
  obtain ⟨added', given'⟩ := (hf a given).run second
  exact ⟨added.trans added', given'⟩⟩

/-- What records no exits at all. -/
theorem quiet (h : IsQuiet x) : Avoids p (fun _ => True) x :=
  ⟨fun run => ⟨.quiet (h.of_ok run), trivial⟩⟩

/-- The records aside are no possible exits. -/
theorem aside (h : Keeps Machine.Aside x) : Avoids p (fun _ => True) x := quiet (.aside h)

theorem get : Avoids p (fun _ => True) (get : Run Machine) := quiet .get

theorem setup (f : Setup → α) : Avoids p (fun _ => True) (setup f : Run α) := quiet (.setup f)

/-- A change that leaves the possible exits as they are. -/
theorem modify {u : Machine → Machine} (h : ∀ m, (u m).exits = m.exits) :
    Avoids p (fun _ => True) (modify u : Run Unit) := ⟨by
  rintro s m b n run
  cases run
  exact ⟨.of_eq (h m), trivial⟩⟩

/-- A steady computation keeps the possible exits from before. -/
theorem steady (h : Keeps Machine.Steady x) : Extends x :=
  ⟨fun run => ⟨.of_kept (h.of_ok run).exits, trivial⟩⟩

/-- What may or may not happen may end as it would otherwise. -/
theorem ambiguously (span : Span) {x : Run Completion} (hx : Avoids p (p · = false) x) :
    Avoids p (fun _ => True) (ambiguously span x) := ⟨by
  rintro s m c n run
  obtain ⟨d, k, ran, left⟩ := exists_of_ambiguously run
  obtain ⟨added, other⟩ := hx.run ran
  have before : m.Adds p (m.markBlock (span.location s.file)).enterBlock := .of_eq rfl
  exact ⟨(before.trans (added.trans (.noteExit k other))).congr left, trivial⟩⟩

/-- An ambiguous block keeps the possible exits from before it. -/
theorem block (span : Span) {x : Run Completion} (hx : Extends x) :
    Extends (Eval.ambiguously span x) :=
  ambiguously span ⟨fun run => ⟨(hx.run run).1, rfl⟩⟩

/-- The events around a rule are no possible exits. -/
theorem bracket (kind : NodeKind) (span : Span) (outcome : α → Completion) (hx : Avoids p P x) :
    Avoids p P (bracket kind span outcome x) := ⟨by
  rintro s m a n run
  rw [bracket_apply] at run
  cases ran : x s (m.beginRule ⟨kind, span.location s.file⟩) with
  | ok b k =>
    rw [ran] at run
    cases run
    obtain ⟨added, given⟩ := hx.run ran
    have begun : m.Adds p (m.beginRule ⟨kind, span.location s.file⟩) := .of_eq rfl
    exact ⟨(begun.trans added).congr rfl, given⟩
  | error e k =>
    rw [ran] at run
    cases run⟩

/-- What is claimed behind a computation is not left by it. -/
theorem claiming {f : α → List PossibleExit → Run β} (hx : Extends x)
    (hf : ∀ a es, Avoids p Q (f a es)) :
    Avoids p Q (do
      let mark ← mark
      let a ← x
      f a (← claim mark p)) := ⟨by
  rintro s m b n run
  obtain ⟨_, k, marked, run⟩ := bind_eq_ok_iff.1 run
  cases marked
  obtain ⟨a, k, ran, run⟩ := bind_eq_ok_iff.1 run
  obtain ⟨_, j, claimed, run⟩ := bind_eq_ok_iff.1 run
  cases claimed
  obtain ⟨added, given⟩ := (hf a _).run run
  exact ⟨.trans (.dropClaimed (hx.run ran).1.exits_kept p) added, given⟩⟩

end Avoids

end Eval

/-! ## Calm rules -/

namespace Rule

/-- What a part of a rule gives: a result with a property, or the end of the rule without a jump. -/
def Given {α : Type} (P : α → Prop) : Except Completion α → Prop
  | .ok a => P a
  | .error c => c.isJump = false

/-- A part of a rule that records no jumps as possible exits. It gives a result with a property,
unless it ends the rule, and not with a jump. -/
def Calm {α : Type} (P : α → Prop) (r : Rule α) : Prop := Eval.Calm (Given P) r.run

/-- A rule that ends without a jump and records none as a possible exit. -/
abbrev JumpFree (r : Rule Completion) : Prop := Calm (·.isJump = false) r

/-- A part of a rule that records no jumps and does not end the rule with one. -/
abbrev IsCalm {α : Type} (r : Rule α) : Prop := Calm (fun _ => True) r

variable {α β : Type} {P : α → Prop} {Q : β → Prop}

namespace Calm

theorem pure {a : α} (h : P a) : Calm P (pure a) := Eval.Avoids.pure h

/-- A rule may be ended with a completion that is no jump. -/
theorem throw {c : Completion} (h : c.isJump = false) : Calm P (throw c : Rule α) :=
  Eval.Avoids.pure h

/-- A step of a rule does not end it. -/
theorem lift {x : Run α} (hx : Eval.Calm P x) : Calm P (lift x) := by
  show Eval.Calm _ (Except.ok <$> x)
  rw [map_eq_pure_bind]
  exact .bind hx fun a h => .pure h

/-- A part and what follows it, which may rely on what the part gives. -/
theorem bind {r : Rule α} {f : α → Rule β} (hr : Calm P r) (hf : ∀ a, P a → Calm Q (f a)) :
    Calm Q (r >>= f) := by
  rw [Calm, ExceptT.run_bind]
  refine Eval.Avoids.bind hr fun e he => ?_
  cases e with
  | ok a => exact hf a he
  | error c => exact Eval.Avoids.pure he

/-- A rule is complete without a jump, whether it is ended early or not. -/
theorem complete {r : Rule Completion} (hr : r.JumpFree) : Eval.JumpFree r.complete :=
  Eval.Avoids.bind hr fun e he => by
    cases e with
    | ok c => exact .pure he
    | error c => exact .pure he

/-- What a calm part of a rule gives may be known otherwise. -/
theorem of_gives {r : Rule α} (hr : IsCalm r) (gives : Gives P r) : Calm P r := ⟨by
  rintro s m e n run
  obtain ⟨added, given⟩ := Avoids.run hr run
  refine ⟨added, ?_⟩
  cases e with
  | ok a => exact gives s m a n run
  | error c => exact given⟩

theorem get : IsCalm (get : Rule Machine) := lift .get

/-- A quiet step records no exits. -/
theorem quiet {x : Run α} (h : IsQuiet x) : IsCalm (Rule.lift x) := lift (.quiet h)

theorem aside {x : Run α} (h : Eval.Keeps Machine.Aside x) : IsCalm (Rule.lift x) :=
  lift (.aside h)

end Calm

/-- An operation gives what it does, or else the rule ends with an unknown value. -/
theorem calm_native_of {op : Op α} (h : IsQuiet op) (gives : ∀ {s m a n}, op s m = .ok a n → P a) :
    Calm P (native op) := ⟨by
  rintro s m e n run
  rw [native_apply] at run
  cases ran : op s m with
  | ok a k =>
    rw [ran] at run
    cases run
    exact ⟨.quiet (h.of_ok ran), gives ran⟩
  | error error k =>
    rw [ran] at run
    have rest : Calm P (do Rule.lift (reportError error); throw .unknown : Rule α) :=
      .bind (.aside (reportError_keeps error)) fun _ _ => .throw rfl
    obtain ⟨added, given⟩ := rest.run run
    exact ⟨.trans (.quiet (KeepsBy.of_error h ran)) added, given⟩⟩

namespace Calm

/-- A native error ends the rule with an unknown value, which is no jump. -/
theorem native {op : Op α} (h : IsQuiet op) : IsCalm (Rule.native op) :=
  calm_native_of h fun _ => trivial

/-- What ends a rule is the end of the expression that ends it. -/
theorem value {x : Run Completion} (hx : Eval.JumpFree x) : IsCalm (Rule.value x) := by
  refine .bind (lift hx) fun c other => ?_
  split
  · exact .throw other
  · exact .pure trivial

/-- The values of expressions are those of calm expressions, in order. -/
theorem values {xs : List (Run Completion)} (h : ∀ x ∈ xs, Eval.JumpFree x) :
    IsCalm (Rule.values xs) := by
  induction xs with
  | nil => exact .pure trivial
  | cons x xs ih =>
    obtain ⟨first, rest⟩ := List.forall_mem_cons.1 h
    exact .bind (value first) fun _ _ => .bind (ih rest) fun _ _ => .pure trivial

/-- A loop over a list is calm if each of its steps is. -/
theorem forM {xs : List α} {f : α → Rule Unit} (h : ∀ a ∈ xs, IsCalm (f a)) :
    IsCalm (xs.forM f) := by
  induction xs with
  | nil => exact .pure trivial
  | cons a xs ih =>
    obtain ⟨first, rest⟩ := List.forall_mem_cons.1 h
    exact .bind first fun _ _ => ih rest

/-- What may or may not happen gives nothing to go by. -/
theorem ambiguously (span : Span) {x : Run Completion} (hx : Eval.JumpFree x) :
    IsCalm (Rule.lift (Eval.ambiguously span x)) :=
  lift (.ambiguously span hx)

/-- A rule whose result is a value ends normally. -/
theorem normal {r : Rule Value} (h : IsCalm r) : JumpFree (do return .normal (← r)) :=
  .bind h fun _ _ => .pure rfl

end Calm

/-! ### References -/

theorem calm_resolve (name : String) : IsCalm (resolve name) := .bind .get fun _ _ => .pure trivial

/-- A key that does not convert is reported. -/
theorem calm_propertyName (key : Value) : IsCalm (propertyName key) := by
  refine .bind (.quiet (.attempt (Op.built_toText? key).keeps)) fun name _ => ?_
  split
  · exact .pure trivial
  · exact .bind (.aside (reportError_keeps _)) fun _ _ => .pure trivial

theorem calm_propertyOf (base : Value) (name : Option String) : IsCalm (propertyOf base name) := by
  unfold propertyOf
  split
  · exact .bind (.aside (reportError_keeps _)) fun _ _ => .pure trivial
  · split <;> exact .pure trivial

/-- Members are calm if the expressions for their objects are. -/
theorem calm_memberReference {x : Run Completion} (hx : Eval.JumpFree x) (name : String) :
    IsCalm (memberReference x name) :=
  .bind (.value hx) fun _ _ => calm_propertyOf _ _

/-- So are members whose names are computed. -/
theorem calm_indexReference {x key : Run Completion} (hx : Eval.JumpFree x)
    (hkey : Eval.JumpFree key) : IsCalm (indexReference x key) :=
  .bind (.value hx) fun _ _ => .bind (.value hkey) fun _ _ =>
    .bind (calm_propertyName _) fun _ _ => calm_propertyOf _ _

theorem calm_read {r : Rule Reference} (hr : IsCalm r) : JumpFree (read r) :=
  .bind hr fun _ _ => .normal (.native (Op.built_getValue _).keeps)

/-- The events of a reference change nothing of it. -/
theorem calm_referring (kind : NodeKind) (span : Span) {r : Rule Reference} (hr : IsCalm r) :
    IsCalm (referring kind span r) :=
  Eval.Avoids.bracket kind span referenceOutcome hr

/-- A malformed node is a failure. -/
theorem calm_malformed (kind : NodeKind) (span : Span) : Calm P (malformed kind span : Rule α) :=
  .lift (.throw _)

/-! ### Literals -/

/-- Elements of an array are evaluated in order, holes left out. -/
theorem calm_elements {xs : List (Option (Run Completion))}
    (h : ∀ x, some x ∈ xs → Eval.JumpFree x) : IsCalm (elements xs) := by
  induction xs with
  | nil => exact .pure trivial
  | cons x xs ih =>
    have rest : IsCalm (elements xs) := ih fun y hy => h y (List.mem_cons_of_mem x hy)
    cases x with
    | none => exact .bind rest fun _ _ => .pure trivial
    | some x =>
      exact .bind (.value (h x List.mem_cons_self)) fun _ _ => .bind rest fun _ _ => .pure trivial

/-- An array is created once its elements are evaluated. -/
theorem calm_arrayLiteral {xs : List (Option (Run Completion))}
    (h : ∀ x, some x ∈ xs → Eval.JumpFree x) : JumpFree (arrayLiteral xs) := by
  refine .bind (calm_elements h) fun vs _ => .bind (.quiet (keeps_createArray _)) fun o _ => ?_
  refine .bind (.forM fun name _ => ?_) fun _ _ => .pure rfl
  exact .bind (.native (Op.built_delete ..).keeps) fun _ _ => .pure trivial

/-- An object is created before its properties are defined. -/
theorem calm_objectLiteral {ps : List Property} (h : ∀ p ∈ ps, IsCalm p.2) :
    JumpFree (objectLiteral ps) := by
  refine .bind (.quiet keeps_createPlain) fun o _ => .bind (.forM fun p hp => ?_) fun _ _ => .pure rfl
  exact .bind (h p hp) fun d _ => .bind (.native (Op.built_define ..).keeps) fun _ _ => .pure trivial

/-! ### Operators -/

theorem calm_typeOfReference {r : Rule Reference} (hr : IsCalm r) : JumpFree (typeOfReference r) := by
  refine .bind hr fun r _ => ?_
  split
  · exact .pure rfl
  · exact .bind (.native (Op.built_getValue r).keeps) fun v _ => .normal (.native (Op.built_typeOf v).keeps)

/-- An operator before an operand gives a value. -/
theorem calm_unary (operator : UnaryOperator) (isTarget : Bool) {r : Rule Reference}
    {x : Run Completion} (hr : IsCalm r) (hx : Eval.JumpFree x) :
    JumpFree (unary operator isTarget r x) := by
  cases operator
  case delete =>
    simp only [unary]
    split
    · exact .bind hr fun r _ => .normal (.native (isQuiet_deleteReference r))
    · exact .bind (.value hx) fun _ _ => .pure rfl
  case typeOf =>
    simp only [unary]
    split
    · exact calm_typeOfReference hr
    · exact .bind (.value hx) fun v _ => .normal (.native (Op.built_typeOf v).keeps)
  case void | logicalNot => exact .bind (.value hx) fun _ _ => .pure rfl
  case minus | plus | bitwiseNot =>
    exact .bind (.value hx) fun v _ => .normal (.native (Op.built_numericUnary _ v).keeps)

/-- What is incremented or decremented is read, converted and assigned. -/
theorem calm_update (operator : UpdateOperator) (leading : Bool) {r : Rule Reference}
    (hr : IsCalm r) : JumpFree (update operator leading r) := by
  refine .bind hr fun r _ => .bind (.native (Op.built_getValue r).keeps) fun v _ => ?_
  refine .bind (.native (Op.built_toNumber? v).keeps) fun x _ => ?_
  split
  · exact .pure rfl
  · exact .bind (.native (Op.isQuiet_putValue ..)) fun _ _ => .pure rfl

theorem calm_binary (operator : BinaryOperator) {x y : Run Completion} (hx : Eval.JumpFree x)
    (hy : Eval.JumpFree y) : JumpFree (binary operator x y) :=
  .bind (.value hx) fun _ _ => .bind (.value hy) fun _ _ => .normal (.native (Op.built_apply ..).keeps)

/-- An assignment has the value that it assigns. -/
theorem calm_assignment (operator : AssignmentOperator) {r : Rule Reference} {x : Run Completion}
    (hr : IsCalm r) (hx : Eval.JumpFree x) : JumpFree (assignment operator r x) := by
  have assigned (r : Reference) : IsCalm (assigned operator r x) := by
    cases operator with
    | assign => exact .value hx
    | compound operator =>
      exact .bind (.native (Op.built_getValue r).keeps) fun _ _ => .bind (.value hx) fun _ _ =>
        .native (Op.built_apply ..).keeps
  exact .bind hr fun r _ => .bind (assigned r) fun v _ =>
    .bind (.native (Op.isQuiet_putValue r v)) fun _ _ => .pure rfl

/-- The right operand of a logical operator may only possibly be evaluated. -/
theorem calm_logical (operator : LogicalOperator) (span leftSpan : Span) {x y : Run Completion}
    (hx : Eval.JumpFree x) (hy : Eval.JumpFree y) :
    JumpFree (logical operator span leftSpan x y) := by
  refine .bind (.value hx) fun v _ => ?_
  split
  · split
    · exact .pure rfl
    · exact .normal (.value hy)
  · exact .bind (.aside (markUnknown_keeps leftSpan)) fun _ _ =>
      .bind (.ambiguously span hy) fun _ _ => .pure rfl

/-- Of a conditional either branch gives its value, or both are only possible. -/
theorem calm_conditional (span testSpan : Span) {test x y : Run Completion}
    (htest : Eval.JumpFree test) (hx : Eval.JumpFree x) (hy : Eval.JumpFree y) :
    JumpFree (conditional span testSpan test x y) := by
  refine .bind (.value htest) fun v _ => ?_
  split
  · exact .lift hx
  · exact .lift hy
  · exact .bind (.aside (markUnknown_keeps testSpan)) fun _ _ =>
      .bind (.ambiguously span (.bind hx fun _ _ => hy)) fun _ _ => .pure rfl

theorem calm_sequence {xs : List (Run Completion)} (h : ∀ x ∈ xs, Eval.JumpFree x) :
    JumpFree (sequence xs) :=
  .bind (.values h) fun _ _ => .pure rfl

/-- What is called is evaluated with its receiver or without one. -/
theorem calm_callee (isTarget : Bool) {r : Rule Reference} {x : Run Completion} (hr : IsCalm r)
    (hx : Eval.JumpFree x) : IsCalm (callee isTarget r x) := by
  unfold callee
  split
  · refine .bind hr fun r _ => .bind (.native (Op.built_getValue r).keeps) fun f _ => ?_
    refine .bind (P := fun _ => True) ?_ fun _ _ => .pure trivial
    unfold receiver
    split
    · exact .bind .get fun _ _ => .pure trivial
    · exact .pure trivial
  · exact .bind (.value hx) fun _ _ => .pure trivial

end Rule

/-! ### Calls -/

/-- Calls of functions of the program end without jumps and record none as possible exits. -/
def ScriptCall.JumpFree (call : ScriptCall) : Prop :=
  ∀ f closure this arguments, Eval.JumpFree (call f closure this arguments)

namespace Eval

/-- An operation whose result is no jump makes no jump of a native error either. -/
theorem calm_recover {op : Op Completion} (h : IsQuiet op)
    (gives : ∀ {s m c n}, op s m = .ok c n → c.isJump = false) : JumpFree (recover op) :=
  (Rule.calm_native_of h gives).complete

/-- A type error is reported, and its value is unknown. -/
theorem calm_typeError (text : String) : JumpFree (recover (Op.typeError text)) :=
  calm_recover (.throw _) fun run => by cases run

/-- A native function gives a value. -/
theorem calm_native (native : Native) (this : Value) (arguments : List Value) :
    JumpFree (recover (Completion.normal <$> native.call this arguments)) := by
  refine calm_recover ((QuietNatives.call native this arguments).map _) fun {s m c n} run => ?_
  rw [map_eq_pure_bind] at run
  obtain ⟨v, k, -, last⟩ := bind_eq_ok_iff.1 run
  cases last
  rfl

/-- A call ends with a throw or with a value. -/
theorem isJump_callResult (c : Completion) (returnUnknown : Bool) :
    (callResult c returnUnknown).isJump = false := by
  unfold callResult
  split
  next throws => simp [Completion.isJump, of_decide_eq_true throws]
  · split
    · rfl
    · split <;> rfl

/-- Of the possible exits in a context only throws are kept. -/
theorem calm_inContext (context : Context) {x : Run Completion} (h : Keeps Machine.Steady x)
    (gives : ∀ {s m c n}, x s m = .ok c n → c.isJump = false) : JumpFree (inContext context x) := ⟨by
  rintro s m c n run
  unfold inContext at run
  obtain ⟨_, k, marked, run⟩ := bind_eq_ok_iff.1 run
  cases marked
  obtain ⟨_, k, pushed, run⟩ := bind_eq_ok_iff.1 run
  cases pushed
  rw [ensuring_apply] at run
  cases ran : x s (m.pushContext context) with
  | ok d j =>
    rw [ran] at run
    cases run
    have kept : m.exits.toList <+: j.popContext.exits.toList := (h.of_ok ran).exits
    refine ⟨.mono (fun d jumps => ?_) (.dropClaimed kept fun d => !d.isThrow), gives ran⟩
    cases kind : d.kind <;> simp_all [Completion.isJump, Completion.isThrow]
  | error e j =>
    rw [ran] at run
    cases run⟩

/-- Whatever jumps there are in a body, none of them leaves the call. -/
theorem calm_callScript {body : Run Completion} (h : Keeps Machine.Steady body) :
    ScriptCall.JumpFree (callScript body) := by
  intro f closure this arguments
  refine .bind (.quiet (keeps_scriptReceiver this)) fun receiver _ => ?_
  refine .bind (.quiet (isQuiet_createEnvironment _)) fun e _ => calm_inContext _ ?_ ?_
  · exact .bind (steady_enterBody ..) fun _ => .bind h fun c => .bind .get fun m => .pure _
  · intro s m c n run
    obtain ⟨_, _, -, run⟩ := bind_eq_ok_iff.1 run
    obtain ⟨d, k, -, run⟩ := bind_eq_ok_iff.1 run
    cases run
    exact isJump_callResult d _

/-- However deep calls are, they end without jumps, and what is in them is claimed. -/
theorem callWithin_jumpFree (depth : Nat) : (callWithin depth).JumpFree := by
  intro f closure
  cases depth with
  | zero => exact fun _ _ => .bind (.aside reportMaxRecursion_keeps) fun _ _ => .pure rfl
  | succ depth =>
    exact calm_callScript (Statement.steady_runAll (callWithin_keeps depth) closure.code.body) f closure

theorem calm_markInvoked (f : ObjectId) : Calm (fun _ => True) (markInvoked f) :=
  .modify fun m => by
    unfold Machine.markInvoked
    split <;> rfl

/-- Whatever is called, the call is no jump. -/
theorem calm_callFunction {call : ScriptCall} (h : call.JumpFree) (f : ObjectId) (this : Value)
    (arguments : List Value) : JumpFree (callFunction call f this arguments) := by
  refine .bind (calm_markInvoked f) fun _ _ => .bind (.quiet (.object f)) fun record _ => ?_
  split
  next native _ _ =>
    split
    · exact .pure rfl
    · exact calm_native native this arguments
  · exact calm_typeError _
  next closure _ => exact h f closure this arguments
  · exact calm_typeError _

/-- Whatever constructor is run, `new` is no jump. -/
theorem calm_construct {call : ScriptCall} (h : call.JumpFree) (f : ObjectId)
    (arguments : List Value) : JumpFree (construct call f arguments) := by
  refine .bind (calm_markInvoked f) fun _ _ => .bind (.quiet (.object f)) fun record _ => ?_
  split
  next native _ =>
    split
    · exact .pure rfl
    · exact calm_native native .undefined arguments
  next closure _ =>
    have prototype : IsQuiet (instancePrototype f) :=
      .bind (Op.built_get f "prototype").keeps fun v => by split <;> exact .pure _
    refine Rule.Calm.complete (.bind (.native prototype) fun p _ => ?_)
    refine .bind (.quiet (keeps_createObject (by decide) _)) fun o _ => ?_
    refine .bind (.lift (h f closure _ arguments)) fun c other => .pure ?_
    unfold constructResult
    split
    · exact other
    · split <;> rfl
  · exact calm_typeError _

end Eval

namespace Rule

/-- A call is no jump if its operands and the functions of the program are none. -/
theorem calm_call {script : ScriptCall} (h : script.JumpFree) (text : String)
    {callee : Rule (Value × Value)} {arguments : List (Run Completion)} (hf : IsCalm callee)
    (hxs : ∀ x ∈ arguments, Eval.JumpFree x) : JumpFree (call script text callee arguments) := by
  have fails : JumpFree (native (Op.typeError (text ++ " is not a function"))) :=
    calm_native_of (.throw _) fun run => by cases run
  refine .bind hf fun f _ => .bind (.values hxs) fun vs _ => ?_
  split
  · exact .pure rfl
  · split
    · refine .bind (.quiet (.object _)) fun record _ => ?_
      split
      · exact .lift (calm_callFunction h _ _ _)
      · exact fails
    · exact fails

/-- So it is with `new`. -/
theorem calm_new {script : ScriptCall} (h : script.JumpFree) (text : String)
    {callee : Run Completion} {arguments : List (Run Completion)} (hf : Eval.JumpFree callee)
    (hxs : ∀ x ∈ arguments, Eval.JumpFree x) : JumpFree (new script text callee arguments) := by
  have fails : JumpFree (native (Op.typeError (text ++ " is not a constructor"))) :=
    calm_native_of (.throw _) fun run => by cases run
  refine .bind (.value hf) fun f _ => .bind (.values hxs) fun vs _ => ?_
  split
  · exact .pure rfl
  · split
    · refine .bind (.quiet (.object _)) fun record _ => ?_
      split
      · exact .lift (calm_construct h _ _)
      · exact fails
    · exact fails

/-! ### The parts of loops -/

/-- The name of a `for-in` loop is assigned to what its target refers to. -/
theorem calm_assignName {target : Rule Reference} (h : IsCalm target) (v : Value) :
    Eval.JumpFree (assignName target v) :=
  Calm.complete (.bind h fun _ _ => .bind (.native (Op.isQuiet_putValue ..)) fun _ _ => .pure rfl)

theorem calm_discard {x : Run Completion} (h : Eval.JumpFree x) : IsCalm (discard x) :=
  .bind (.value h) fun _ _ => .pure trivial

/-- A declaration of variables assigns their initial values and ends empty. -/
theorem calm_varDeclaration {ds : List (String × Option (Run Completion))}
    (h : ∀ d ∈ ds, ∀ x, d.2 = some x → Eval.JumpFree x) : JumpFree (varDeclaration ds) := by
  refine .bind (P := fun _ => True) ?_ fun _ _ => .pure rfl
  induction ds with
  | nil => exact .pure trivial
  | cons d rest ih =>
    obtain ⟨first, later⟩ := List.forall_mem_cons.1 h
    obtain ⟨name, x⟩ := d
    cases x with
    | none => exact ih later
    | some x =>
      refine .bind (calm_resolve name) fun r _ => .bind (.value (first x rfl)) fun v _ => ?_
      exact .bind (.native (Op.isQuiet_putValue r v)) fun _ _ => ih later

end Rule

/-! ## Calm nodes -/

/-- A core rule that is given a node of another kind makes no jump of it. -/
theorem Eval.calm_onForeignNode (kind : NodeKind) (span : Span) :
    JumpFree (Rule.onForeignNode kind span) := by
  unfold Rule.onForeignNode
  split
  · exact .pure rfl
  · exact .pure rfl
  · exact .bind .get fun _ _ => .pure rfl
  · exact Rule.Calm.complete (Rule.calm_malformed ..)

/-- A node does what the core rule of its kind does, or something calm. -/
theorem Eval.run_of_ruled {kind : NodeKind} {span : Span} {core : Run Completion} {s : Setup}
    {m n : Machine} {c : Completion} (run : ruled kind span core s m = .ok c n) :
    (m.Adds Completion.isJump n ∧ c.isJump = false) ∨
      ∃ k, core s (m.beginRule ⟨kind, span.location s.file⟩) = .ok c k ∧
        n = k.endRule ⟨kind, span.location s.file⟩ c := by
  cases registered : s.rules.handler? kind with
  | some handler =>
    rw [ruled_of_some registered] at run
    cases handler with
    | idle =>
      have idle : JumpFree (bracket kind span id (pure .empty)) := .bracket kind span id (.pure rfl)
      exact .inl (idle.run run)
    | core k =>
      -- the rule for another kind of node does not evaluate this one
      by_cases own : k = kind
      · have applied : (Handler.core k).apply kind span core = core := if_pos own
        rw [applied, bracket_apply] at run
        cases ran : core s (m.beginRule ⟨kind, span.location s.file⟩) with
        | ok d j =>
          rw [ran] at run
          cases run
          exact .inr ⟨j, rfl, rfl⟩
        | error e j =>
          rw [ran] at run
          cases run
      · have applied : (Handler.core k).apply kind span core = Rule.onForeignNode k span := if_neg own
        rw [applied] at run
        exact .inl ((Avoids.bracket kind span id (calm_onForeignNode k span)).run run)
  | none =>
    rw [ruled_of_none registered] at run
    cases run

/-- A node ends without a jump if its own rule does, whatever handler is registered for its kind. -/
theorem Eval.calm_ruled (kind : NodeKind) (span : Span) {core : Run Completion}
    (h : JumpFree core) : JumpFree (ruled kind span core) := ⟨by
  rintro s m c n run
  rcases run_of_ruled run with calm | ⟨k, ran, rfl⟩
  · exact calm
  · have begun : m.Adds Completion.isJump (m.beginRule ⟨kind, span.location s.file⟩) := .of_eq rfl
    obtain ⟨added, other⟩ := h.run ran
    exact ⟨(begun.trans added).congr rfl, other⟩⟩

section

variable {call : ScriptCall} (calls : call.JumpFree)

include calls

set_option linter.unusedSectionVars false

mutual

/-- Expressions end without jumps and leave none as possible exits. -/
theorem Expression.calm_evaluate (x : Expression) : JumpFree (x.evaluate call) := by
  -- rules for expressions have no jumps if what they evaluate has none
  have ruled {kind : NodeKind} {span : Span} {r : Rule Completion} (h : r.JumpFree) :
      JumpFree (ruled kind span r.complete) := calm_ruled kind span h.complete
  cases x with
  | literal span v => exact calm_ruled _ _ (.pure rfl)
  | identifier id => exact ruled (Rule.calm_read (Rule.calm_resolve _))
  | this span => exact calm_ruled _ _ (.bind .get fun _ _ => .pure rfl)
  | array span xs => exact ruled (Rule.calm_arrayLiteral (calm_evaluateElements xs))
  | object span es => exact ruled (Rule.calm_objectLiteral (Entry.calm_properties es))
  | function code =>
    exact calm_ruled _ _ (.bind (.quiet (isQuiet_createFunctionValue code)) fun _ _ => .pure rfl)
  | unary span operator x =>
    exact ruled (Rule.calm_unary operator _ (Expression.calm_refer x) (Expression.calm_evaluate x))
  | update span operator leading x =>
    exact ruled (Rule.calm_update operator leading (Expression.calm_refer x))
  | binary span operator x y =>
    exact ruled (Rule.calm_binary operator (Expression.calm_evaluate x) (Expression.calm_evaluate y))
  | assignment span operator x y =>
    exact ruled
      (Rule.calm_assignment operator (Expression.calm_refer x) (Expression.calm_evaluate y))
  | logical span operator x y =>
    exact ruled
      (Rule.calm_logical operator _ _ (Expression.calm_evaluate x) (Expression.calm_evaluate y))
  | conditional span test x y =>
    exact ruled (Rule.calm_conditional _ _ (Expression.calm_evaluate test)
      (Expression.calm_evaluate x) (Expression.calm_evaluate y))
  | call span f xs =>
    exact ruled (Rule.calm_call calls _
      (Rule.calm_callee _ (Expression.calm_refer f) (Expression.calm_evaluate f))
      (calm_evaluateAll xs))
  | construct span f xs =>
    exact ruled (Rule.calm_new calls _ (Expression.calm_evaluate f) (calm_evaluateAll xs))
  | member span x property =>
    exact ruled (Rule.calm_read (Rule.calm_memberReference (Expression.calm_evaluate x) _))
  | index span x key =>
    exact ruled (Rule.calm_read
      (Rule.calm_indexReference (Expression.calm_evaluate x) (Expression.calm_evaluate key)))
  | sequence span xs => exact ruled (Rule.calm_sequence (calm_evaluateAll xs))

/-- What an expression refers to is found without a jump. -/
theorem Expression.calm_refer (x : Expression) : (x.refer call).IsCalm := by
  cases x with
  | identifier id => exact Rule.calm_referring _ _ (Rule.calm_resolve _)
  | member span x property =>
    exact Rule.calm_referring _ _ (Rule.calm_memberReference (Expression.calm_evaluate x) _)
  | index span x key =>
    exact Rule.calm_referring _ _
      (Rule.calm_indexReference (Expression.calm_evaluate x) (Expression.calm_evaluate key))
  | _ => exact Rule.calm_referring _ _ (Rule.calm_malformed _ _)

theorem calm_evaluateOption (x : Option Expression) :
    ∀ y, evaluateOption call x = some y → JumpFree y := by
  cases x with
  | none => exact nofun
  | some x =>
    rintro y ⟨⟩
    exact Expression.calm_evaluate x

/-- So it is with each of several expressions. -/
theorem calm_evaluateAll (xs : List Expression) : ∀ y ∈ evaluateAll call xs, JumpFree y := by
  cases xs with
  | nil => exact nofun
  | cons x rest =>
    exact List.forall_mem_cons.2 ⟨Expression.calm_evaluate x, calm_evaluateAll rest⟩

theorem calm_evaluateElements (xs : List (Option Expression)) :
    ∀ y, some y ∈ evaluateElements call xs → JumpFree y := by
  cases xs with
  | nil => exact nofun
  | cons x rest =>
    intro y hy
    rcases List.mem_cons.1 hy with first | later
    · exact calm_evaluateOption x y first.symm
    · exact calm_evaluateElements rest y later

theorem Entry.calm_property (e : Entry) : (e.property call).2.IsCalm := by
  cases e with
  | value span key x =>
    exact .bind (.value (Expression.calm_evaluate x)) fun _ _ => .pure trivial
  | getter span key code | setter span key code =>
    exact .bind .get fun _ _ => .bind (.quiet (isQuiet_createScript code _)) fun _ _ => .pure trivial

/-- What is defined by each entry of an object literal is found without a jump. -/
theorem Entry.calm_properties (es : List Entry) :
    ∀ p ∈ Entry.properties call es, p.2.IsCalm := by
  cases es with
  | nil => exact nofun
  | cons e rest =>
    exact List.forall_mem_cons.2 ⟨Entry.calm_property e, Entry.calm_properties rest⟩

end

theorem calm_evaluateTest (x : Option Expression) :
    ∀ t, evaluateTest call x = some t → JumpFree t.2 := by
  cases x with
  | none => exact nofun
  | some x =>
    rintro t ⟨⟩
    exact Expression.calm_evaluate calls x

/-- Initial values of variables are expressions. -/
theorem Declarator.calm_initials (ds : List Declarator) :
    ∀ d ∈ Declarator.initials call ds, ∀ x, d.2 = some x → JumpFree x := by
  induction ds with
  | nil => exact nofun
  | cons d rest ih =>
    obtain ⟨span, id, x⟩ := d
    exact List.forall_mem_cons.2 ⟨calm_evaluateOption calls x, ih⟩

/-- What a `for` loop does first is a declaration or an expression. -/
theorem ForStart.calm_begin (start : Option ForStart) : (ForStart.begin call start).IsCalm := by
  rcases start with _ | ⟨span, ds⟩ | x
  · exact .pure trivial
  · exact Rule.calm_discard (Rule.calm_varDeclaration (Declarator.calm_initials calls ds)).complete
  · exact Rule.calm_discard (Expression.calm_evaluate calls x)

/-- The tests of a switch are expressions. -/
theorem SwitchCase.calm_tests (cs : List SwitchCase) :
    ∀ c ∈ SwitchCase.cases call cs, ∀ t, c.test = some t → JumpFree t.2 := by
  induction cs with
  | nil => exact nofun
  | cons c rest ih =>
    obtain ⟨span, test, ss⟩ := c
    exact List.forall_mem_cons.2 ⟨calm_evaluateTest calls test, ih⟩

/-- The target of a `for-in` loop is a variable or an expression. -/
theorem ForInTarget.calm_assign (target : ForInTarget) (v : Value) :
    JumpFree (target.assign call v) := by
  rcases target with ⟨span, id⟩ | x
  · exact Rule.calm_assignName (Rule.calm_resolve _) v
  · exact Rule.calm_assignName (Expression.calm_refer calls x) v

end

end AbstractScript
