import AbstractScript.Proofs.Names
import AbstractScript.Proofs.Operations

/-!
# What rules are made of

A rule is made of its parts and of the calls that it makes. Besides it looks at the realm, at the
contexts and at how many possible exits there are, performs operations, refers to names and members,
creates functions and objects, enters ambiguous blocks and claims possible exits. That a rule is
made of these things and nothing else is shown once for each rule (`Eval.Made`), under the condition
that it deletes no plain names unless that is allowed. What holds of all that is made so then holds
of every rule.
-/
namespace AbstractScript

/-- The kinds of nodes that can be evaluated to references. -/
def NodeKind.isReferred : NodeKind → Bool
  | identifier => true
  | memberExpression => true
  | _ => false

namespace Machine

/-- Evaluation that looks at either machine sees the same. -/
structure LooksLike (m n : Machine) : Prop where
  realm : m.realm = n.realm
  contexts : m.contexts = n.contexts
  exits : m.exits.size = n.exits.size

/-- The same environment is looked at for names. -/
theorem LooksLike.lexicalEnv {m n : Machine} (h : m.LooksLike n) : m.lexicalEnv = n.lexicalEnv := by
  rw [Machine.lexicalEnv, Machine.lexicalEnv, h.contexts]

end Machine

namespace Eval

/-- Computations that are given, of which others are made. -/
abbrev Parts := (α : Type) → Run α → Prop

/-- A computation is made of parts, possibly since a mark, after which it may claim possible exits.
Unless names may be deleted, it keeps them. -/
inductive MadeSince (deletes : Prop) (S : Parts) : Option Nat → {α : Type} → Run α → Prop where
  | part {α : Type} {x : Run α} (given : S α x) : MadeSince deletes S none x
  | pure {since : Option Nat} {α : Type} (a : α) : MadeSince deletes S since (Pure.pure a : Run α)
  | throw {α : Type} (e : FatalError) : MadeSince deletes S none (MonadExcept.throw e : Run α)
  /-- What follows a step may rely on what the step gives. -/
  | bind_of {since : Option Nat} {α β : Type} {P : α → Prop} {x : Run α} {f : α → Run β}
    (first : MadeSince deletes S since x) (gives : ∀ s m a n, x s m = .ok a n → P a)
    (rest : ∀ a, P a → MadeSince deletes S since (f a)) : MadeSince deletes S since (x >>= f)
  | look {α : Type} {f : Machine → Run α} (same : ∀ m n : Machine, m.LooksLike n → f m = f n)
    (rest : ∀ m, MadeSince deletes S none (f m)) : MadeSince deletes S none (MonadState.get >>= f)
  | options {α : Type} (f : Options → α) :
    MadeSince deletes S none (Eval.setup fun s => f s.options)
  /-- An operation that only reads. -/
  | operation {α : Type} {op : Op α} (reads : ∀ {S' : Op.Steps}, op.Built S' fun _ => True) :
    MadeSince deletes S none (op.attempt : Run _)
  | putValue (r : Reference) (v : Value) :
    MadeSince deletes S none ((Op.putValue r v).attempt : Run _)
  /-- What is referred to is removed; if it is a binding, names may be deleted. -/
  | deleteReference {r : Reference} (names : ¬ deletes → ∀ e, r.base ≠ .environment e) :
    MadeSince deletes S none ((Rule.deleteReference r).attempt : Run _)
  | reportError (e : NativeError) : MadeSince deletes S none (Eval.reportError e : Run Unit)
  | reportMaxIterations : MadeSince deletes S none (Eval.reportMaxIterations : Run Unit)
  | markUnknown (span : Span) : MadeSince deletes S none (Eval.markUnknown span : Run Unit)
  | note (c : Completion) : MadeSince deletes S none (Eval.note c : Run Unit)
  | takeLabels : MadeSince deletes S none Eval.takeLabels
  | giveLabels (f : List String → List String) :
    MadeSince deletes S none (modify fun m => { m with labels := f m.labels } : Run Unit)
  | createScript {code : FunctionCode} (names : ¬ deletes → code.keepsNames = true)
    (scope : EnvId) : MadeSince deletes S none (Eval.createScript code scope : Run ObjectId)
  | createFunctionValue {code : FunctionCode} (names : ¬ deletes → code.keepsNames = true) :
    MadeSince deletes S none (Eval.createFunctionValue code : Run ObjectId)
  | arrayLiteral {xs : List (Option (Run Completion))}
    (elements : ∀ x, some x ∈ xs → MadeSince deletes S none x) :
    MadeSince deletes S none (Rule.arrayLiteral xs).run
  | objectLiteral {ps : List Rule.Property}
    (definitions : ∀ p ∈ ps, MadeSince deletes S none p.2.run) :
    MadeSince deletes S none (Rule.objectLiteral ps).run
  | ambiguously (span : Span) {x : Run Completion} (made : MadeSince deletes S none x) :
    MadeSince deletes S none (Eval.ambiguously span x)
  /-- A mark is taken, and what follows may claim exits since the mark. -/
  | mark {α : Type} {f : Nat → Run α} (rest : ∀ k, MadeSince deletes S (some k) (f k)) :
    MadeSince deletes S none (Eval.mark >>= f)
  | since {k : Nat} {α : Type} {x : Run α} (made : MadeSince deletes S none x) :
    MadeSince deletes S (some k) x
  /-- Exits that are no throws are claimed since a mark. It matters only whether there are any. -/
  | claim {k : Nat} {p : Completion → Bool} {α : Type} {f : List PossibleExit → Run α}
    (others : ∀ c : Completion, c.isThrow = true → p c = false)
    (same : ∀ es es' : List PossibleExit, es.isEmpty = es'.isEmpty → f es = f es')
    (rest : ∀ es, MadeSince deletes S (some k) (f es)) :
    MadeSince deletes S (some k) (Eval.claim k p >>= f)
  | ruled (kind : NodeKind) (span : Span) {core : Run Completion}
    (made : MadeSince deletes S none core) : MadeSince deletes S none (Eval.ruled kind span core)
  | referring {kind : NodeKind} (referred : kind.isReferred = true) (span : Span)
    {r : Rule Reference} (made : MadeSince deletes S none r.run) :
    MadeSince deletes S none (Rule.referring kind span r).run
  /-- What refers to nothing is malformed. -/
  | malformed (kind kind' : NodeKind) (span span' : Span) :
    MadeSince deletes S none (Rule.referring kind span (Rule.malformed kind' span')).run
  | handle {body : Run Completion} (made : MadeSince deletes S none body) (name : String)
    (thrown : Value) : MadeSince deletes S none (Eval.handle name body thrown)
  /-- The block of a `try` with a handler. -/
  | handled {block : Run Completion} (made : MadeSince deletes S none block) {h : Handling}
    (handler : ∀ v, MadeSince deletes S none (h.run v)) : MadeSince deletes S none (do
      let mark ← Eval.mark
      handleThrows mark (← guarded true block) h)
  /-- The block of a `try` without a handler. -/
  | unguarded {block : Run Completion} (made : MadeSince deletes S none block) :
    MadeSince deletes S none (guarded false block)
  | finish (c : Completion) {finalizer : Run Completion}
    (made : MadeSince deletes S none finalizer) : MadeSince deletes S none (Eval.finish c finalizer)

/-- A computation is made of parts. -/
abbrev Made (deletes : Prop) (S : Parts) {α : Type} (x : Run α) : Prop :=
  MadeSince deletes S none x

variable {deletes : Prop} {S : Parts} {α β : Type}

namespace MadeSince

variable {since : Option Nat}

/-- What is made step by step is made. -/
theorem bind {x : Run α} {f : α → Run β} (first : MadeSince deletes S since x)
    (rest : ∀ a, MadeSince deletes S since (f a)) : MadeSince deletes S since (x >>= f) :=
  .bind_of (P := fun _ => True) first (fun _ _ _ _ _ => trivial) fun a _ => rest a

/-- The result may be changed by a function. -/
theorem map (f : α → β) {x : Run α} (h : MadeSince deletes S since x) :
    MadeSince deletes S since (f <$> x) := by
  rw [map_eq_pure_bind]
  exact .bind h fun a => .pure (f a)

/-- What is done before the rest if a condition holds. -/
theorem join {p : Prop} [Decidable p] {x : Run α} {rest : α → Run β} {rest' : Run β}
    (hx : MadeSince deletes S since x) (h : ∀ a, MadeSince deletes S since (rest a))
    (h' : MadeSince deletes S since rest') :
    MadeSince deletes S since (if p then x >>= rest else rest') := by
  split
  · exact .bind hx h
  · exact h'

end MadeSince

/-- How many possible exits there are can be looked at. -/
theorem made_mark : Made deletes S (mark : Run Nat) :=
  .look (fun _ _ same => by rw [same.exits]) fun _ => .pure _

/-- That there are exits since a mark can be looked at. -/
theorem made_hasExitsSince (mark : Nat) : Made deletes S (hasExitsSince mark : Run Bool) :=
  .look (fun _ _ same => by rw [same.exits]) fun _ => .pure _

end Eval

open Eval

namespace Rule

variable {deletes : Prop} {S : Parts} {α β : Type}

/-- The computation behind a rule is made of parts. -/
def Made (deletes : Prop) (S : Parts) (r : Rule α) : Prop := Eval.Made deletes S r.run

namespace Made

theorem pure (a : α) : Made deletes S (pure a : Rule α) := MadeSince.pure _

theorem throw (c : Completion) : Made deletes S (throw c : Rule α) := MadeSince.pure _

/-- What follows a part may rely on what the part can give. -/
theorem bind_of {P : α → Prop} {r : Rule α} {f : α → Rule β} (hr : Made deletes S r)
    (gives : Gives P r) (hf : ∀ a, P a → Made deletes S (f a)) : Made deletes S (r >>= f) := by
  rw [Made, ExceptT.run_bind]
  refine MadeSince.bind_of (P := fun a => ∀ b, a = .ok b → P b) hr ?_ fun a ha => ?_
  · intro s m a n h b hb
    exact gives s m b n (hb ▸ h)
  · cases a with
    | ok a => exact hf a (ha a rfl)
    | error c => exact .pure _

/-- A rule is made of what its parts are made of. -/
theorem bind {r : Rule α} {f : α → Rule β} (hr : Made deletes S r)
    (hf : ∀ a, Made deletes S (f a)) : Made deletes S (r >>= f) :=
  .bind_of (P := fun _ => True) hr (fun _ _ _ _ _ => trivial) fun a _ => hf a

theorem lift {x : Run α} (hx : Eval.Made deletes S x) : Made deletes S (lift x) :=
  MadeSince.map Except.ok hx

/-- A part may look at the machine. -/
theorem look {f : Machine → Rule β} (same : ∀ m n : Machine, m.LooksLike n → f m = f n)
    (h : ∀ m, Made deletes S (f m)) : Made deletes S (get >>= f) :=
  MadeSince.look (f := fun m => (f m).run) (fun m n alike => by rw [same m n alike]) h

/-- The value of a part. -/
theorem value {x : Run Completion} (hx : Eval.Made deletes S x) : Made deletes S (value x) := by
  refine bind (lift hx) fun c => ?_
  split
  · exact throw c
  · exact pure _

/-- The values of parts are evaluated in order. -/
theorem values {xs : List (Run Completion)} (h : ∀ x ∈ xs, Eval.Made deletes S x) :
    Made deletes S (values xs) := by
  induction xs with
  | nil => exact pure _
  | cons x xs ih =>
    refine bind (value (h x List.mem_cons_self)) fun v => ?_
    exact bind (ih fun y hy => h y (List.mem_cons_of_mem x hy)) fun vs => pure _

/-- A native error of an operation ends the rule. -/
theorem of_attempt {op : Op α} (h : Eval.Made deletes S (op.attempt : Run _)) :
    Made deletes S (native op) := by
  refine bind (lift h) fun result => ?_
  split
  · exact pure _
  · exact bind (lift (.reportError _)) fun _ => throw _

/-- An operation of a rule may read, and a native error ends the rule. -/
theorem native {op : Op α} (reads : ∀ {S' : Op.Steps}, op.Built S' fun _ => True) :
    Made deletes S (native op) := of_attempt (.operation reads)

/-- An assignment of a rule may fail as other operations do. -/
theorem putValue (r : Reference) (v : Value) : Made deletes S (Rule.native (Op.putValue r v)) :=
  of_attempt (.putValue r v)

end Made

end Rule

variable {deletes : Prop} {S : Parts}

/-- The completion of a rule is its result or the completion that has ended it. -/
theorem Eval.MadeSince.complete {r : Rule Completion} (hr : Rule.Made deletes S r) :
    Made deletes S r.complete :=
  .bind hr fun c => by cases c <;> exact .pure _

/-! ## Expressions -/

namespace Rule

/-- What a name refers to is looked up. -/
theorem made_resolve (name : String) : Made deletes S (resolve name) :=
  .look (fun _ _ same => by rw [same.realm, same.lexicalEnv]) fun _ => .pure _

/-- A key that does not convert is reported. -/
theorem made_propertyName (key : Value) : Made deletes S (propertyName key) := by
  refine .bind (.lift (.operation (Op.built_toText? key))) fun name => ?_
  split
  · exact .pure _
  · exact .bind (.lift (.reportError _)) fun _ => .pure _

/-- A property of undefined or null is reported. -/
theorem made_propertyOf (base : Value) (name : Option String) :
    Made deletes S (propertyOf base name) := by
  unfold propertyOf
  split
  · exact .bind (.lift (.reportError _)) fun _ => .pure _
  · split <;> exact .pure _

/-- A member is that of the value of a part. -/
theorem made_memberReference {x : Run Completion} (hx : Eval.Made deletes S x) (name : String) :
    Made deletes S (memberReference x name) :=
  .bind (.value hx) fun _ => made_propertyOf ..

/-- The object is evaluated before the key, and the key is converted last. -/
theorem made_indexReference {x key : Run Completion} (hx : Eval.Made deletes S x)
    (hkey : Eval.Made deletes S key) : Made deletes S (indexReference x key) :=
  .bind (.value hx) fun _ => .bind (.value hkey) fun _ =>
    .bind (made_propertyName _) fun _ => made_propertyOf ..

/-- What is referred to is read. -/
theorem made_read {r : Rule Reference} (hr : Made deletes S r) : Made deletes S (read r) :=
  .bind hr fun _ => .bind (.native (Op.built_getValue _)) fun _ => .pure _

/-- What is referred to is read, unless it is a name without a binding. -/
theorem made_typeOfReference {r : Rule Reference} (hr : Made deletes S r) :
    Made deletes S (typeOfReference r) := by
  refine .bind hr fun r => ?_
  split
  · exact .pure _
  · exact .bind (.native (Op.built_getValue r)) fun v =>
      .bind (.native (Op.built_typeOf v)) fun _ => .pure _

/-- An operator before its operand. What `delete` is applied to is told apart by what the operand
can refer to. -/
theorem made_unary (operator : UnaryOperator) (isTarget : Bool) {r : Rule Reference}
    {x : Run Completion} (hr : Made deletes S r) (hx : Eval.Made deletes S x)
    (deletion : operator = .delete → ¬ deletes → Gives (∀ e, ·.base ≠ .environment e) r) :
    Made deletes S (unary operator isTarget r x) := by
  cases operator
  case delete =>
    simp only [unary]
    split
    -- what may be deleted is no binding, if names are to be kept
    · refine .bind_of (P := fun a => ¬ deletes → ∀ e, a.base ≠ .environment e) hr ?_ fun a ha => ?_
      · intro s m a n h names
        exact deletion rfl names s m a n h
      · exact .bind (.of_attempt (.deleteReference ha)) fun _ => .pure _
    · exact .bind (.value hx) fun _ => .pure _
  case typeOf =>
    simp only [unary]
    split
    · exact made_typeOfReference hr
    · exact .bind (.value hx) fun v => .bind (.native (Op.built_typeOf v)) fun _ => .pure _
  case void | logicalNot => exact .bind (.value hx) fun _ => .pure _
  case minus | plus | bitwiseNot =>
    exact .bind (.value hx) fun v =>
      .bind (.native (Op.built_numericUnary _ v)) fun _ => .pure _

/-- What is incremented or decremented is read, converted and assigned. -/
theorem made_update (operator : UpdateOperator) (leading : Bool) {r : Rule Reference}
    (hr : Made deletes S r) : Made deletes S (update operator leading r) := by
  refine .bind hr fun r => .bind (.native (Op.built_getValue r)) fun v => ?_
  refine .bind (.native (Op.built_toNumber? v)) fun x => ?_
  split
  · exact .pure _
  · exact .bind (.putValue ..) fun _ => .pure _

/-- Both operands are evaluated before the operator is applied. -/
theorem made_binary (operator : BinaryOperator) {x y : Run Completion} (hx : Eval.Made deletes S x)
    (hy : Eval.Made deletes S y) : Made deletes S (binary operator x y) :=
  .bind (.value hx) fun _ => .bind (.value hy) fun _ =>
    .bind (.native (Op.built_apply ..)) fun _ => .pure _

/-- An assignment with an operator reads what is assigned to first. -/
theorem made_assignment (operator : AssignmentOperator) {r : Rule Reference} {x : Run Completion}
    (hr : Made deletes S r) (hx : Eval.Made deletes S x) :
    Made deletes S (assignment operator r x) := by
  refine .bind hr fun r => .bind ?_ fun v => ?_
  · cases operator with
    | assign => exact .value hx
    | compound operator =>
      exact .bind (.native (Op.built_getValue r)) fun old => .bind (.value hx) fun v =>
        .native (Op.built_apply ..)
  · exact .bind (.putValue ..) fun _ => .pure _

/-- The right operand may or may not be evaluated if the left one is unknown. -/
theorem made_logical (operator : LogicalOperator) (span leftSpan : Span) {x y : Run Completion}
    (hx : Eval.Made deletes S x) (hy : Eval.Made deletes S y) :
    Made deletes S (logical operator span leftSpan x y) := by
  refine .bind (.value hx) fun v => ?_
  split
  · split
    · exact .pure _
    · exact .bind (.value hy) fun _ => .pure _
  · refine .bind (.lift (.markUnknown leftSpan)) fun _ => ?_
    exact .bind (.lift (.ambiguously span hy)) fun _ => .pure _

/-- Both branches of a condition that is unknown are made in one block. -/
theorem made_conditional (span testSpan : Span) {test x y : Run Completion}
    (htest : Eval.Made deletes S test) (hx : Eval.Made deletes S x) (hy : Eval.Made deletes S y) :
    Made deletes S (conditional span testSpan test x y) := by
  refine .bind (.value htest) fun v => ?_
  split
  · exact .lift hx
  · exact .lift hy
  · refine .bind (.lift (.markUnknown testSpan)) fun _ => ?_
    exact .bind (.lift (.ambiguously span (.bind hx fun _ => hy))) fun _ => .pure _

/-- A sequence is made of its expressions. -/
theorem made_sequence {xs : List (Run Completion)} (h : ∀ x ∈ xs, Eval.Made deletes S x) :
    Made deletes S (sequence xs) :=
  .bind (.values h) fun _ => .pure _

/-- The receiver of a call through a reference depends on the realm. -/
theorem made_receiver (r : Reference) : Made deletes S (receiver r) := by
  unfold receiver
  split
  · exact .look (fun _ _ same => by rw [same.realm]) fun _ => .pure _
  · exact .pure _

/-- What is called through a reference is read before the receiver is looked up. -/
theorem made_callee (isTarget : Bool) {r : Rule Reference} {x : Run Completion}
    (hr : Made deletes S r) (hx : Eval.Made deletes S x) :
    Made deletes S (callee isTarget r x) := by
  unfold callee
  split
  · refine .bind hr fun r => .bind (.native (Op.built_getValue r)) fun f => ?_
    exact .bind (made_receiver r) fun _ => .pure _
  · exact .bind (.value hx) fun _ => .pure _

end Rule

/-! ## Calls -/

/-- The calls that rules make once the operands are evaluated. -/
inductive ScriptCall.Calls (script : ScriptCall) : Parts where
  | function (text : String) (f : ObjectId) (this : Value) (arguments : List Value) :
    Calls script _ (do
      if (← Rule.lift (object f)).isCallable then Rule.lift (callFunction script f this arguments)
      else Rule.native (Op.typeError (text ++ " is not a function")) : Rule Completion).run
  | construct (text : String) (f : ObjectId) (arguments : List Value) :
    Calls script _ (do
      if ((← Rule.lift (object f)).callable.map Callable.isConstructor).getD false then
        Rule.lift (construct script f arguments)
      else Rule.native (Op.typeError (text ++ " is not a constructor")) : Rule Completion).run

/-- The prototype of what a function creates is read from the function. -/
theorem Eval.built_instancePrototype {S : Op.Steps} {K : Realm → Prop} (f : ObjectId) :
    Op.Built S K (instancePrototype f) := by
  refine .bind (Op.built_get f "prototype") fun v => ?_
  split <;> exact .pure _

namespace Rule

/-- A type error is no more than a native error. -/
theorem made_typeError (text : String) :
    Made deletes S (native (Op.typeError text) : Rule Completion) := .native (.throw _)

/-- A call is made of the operands and of a call that is made once they are evaluated. -/
theorem made_call {script : ScriptCall} (text : String) {callee : Rule (Value × Value)}
    {arguments : List (Run Completion)} (hf : Made deletes script.Calls callee)
    (hxs : ∀ x ∈ arguments, Eval.Made deletes script.Calls x) :
    Made deletes script.Calls (call script text callee arguments) := by
  refine .bind hf fun f => .bind (.values hxs) fun vs => ?_
  split
  · exact .pure _
  · split
    · exact MadeSince.part (.function ..)
    · exact made_typeError _

/-- So is `new`. -/
theorem made_new {script : ScriptCall} (text : String) {callee : Run Completion}
    {arguments : List (Run Completion)} (hf : Eval.Made deletes script.Calls callee)
    (hxs : ∀ x ∈ arguments, Eval.Made deletes script.Calls x) :
    Made deletes script.Calls (new script text callee arguments) := by
  refine .bind (.value hf) fun f => .bind (.values hxs) fun vs => ?_
  split
  · exact .pure _
  · split
    · exact MadeSince.part (.construct ..)
    · exact made_typeError _

end Rule

/-! ## Loops -/

namespace Eval

/-- Exits since a mark that leave or continue a loop are claimed. -/
theorem made_claimPasses (labels : List String) (k : Nat) :
    MadeSince deletes S (some k) (claimPasses labels k) :=
  .claim (fun c throws => c.endsPass_of_isThrow throws labels) (fun _ _ _ => rfl) fun _ => .pure _

/-- What is left of a loop may be evaluated after a pass that may have left it. -/
theorem made_afterBody (labels : List String) (k : Nat) (value : Option Value) (c : Completion)
    {rest : Run Unit} (h : Made deletes S rest) :
    MadeSince deletes S (some k) (afterBody labels k value c rest) := by
  unfold afterBody
  split
  · refine .bind (.since (made_hasExitsSince _)) fun exits => ?_
    split
    · exact .bind (made_claimPasses labels k) fun _ => .bind (.since h) fun _ => .pure _
    · exact .pure _
  · split
    · exact .bind (made_claimPasses labels k) fun _ => .pure _
    · exact .pure _

end Eval

namespace Loop

variable {l : Loop}

/-- The computations of a loop are made of parts. -/
structure Made (deletes : Prop) (S : Parts) (l : Loop) : Prop where
  test : ∀ t, l.test = some t → Eval.Made deletes S t.2
  update : ∀ x, l.update = some x → Eval.Made deletes S x
  body : Eval.Made deletes S l.body

/-- A loop without a test goes on. -/
theorem made_check (h : l.Made deletes S) : Eval.Made deletes S l.check := by
  unfold check
  split
  · exact .pure _
  next span test found =>
    refine .bind (h.test _ found) fun c => ?_
    split
    · exact .pure _
    · split
      · exact .pure _
      · exact .pure _
      · exact .bind (.markUnknown span) fun _ => .pure _

/-- The update is not evaluated after a body that ends the pass. -/
theorem made_bodyAndUpdate (h : l.Made deletes S) : Eval.Made deletes S l.bodyAndUpdate := by
  refine .bind h.body fun c => ?_
  split
  · exact .pure _
  · split
    next update found => exact .bind (h.update update found) fun _ => .pure _
    · exact .pure _

/-- The body and the update may or may not be evaluated once more. -/
theorem made_representative (h : l.Made deletes S) (labels : List String) :
    Eval.Made deletes S (l.representative labels) :=
  .mark fun k => .bind (.since (.ambiguously _ (made_bodyAndUpdate h))) fun _ =>
    made_claimPasses labels k

/-- Computations are evaluated up to the first that does not complete normally. -/
theorem made_inOrder {xs : List (Run Completion)} (h : ∀ x ∈ xs, Eval.Made deletes S x) :
    Eval.Made deletes S (inOrder xs) := by
  induction xs with
  | nil => exact .pure _
  | cons x xs ih =>
    refine .bind (h x List.mem_cons_self) fun c => ?_
    split
    · exact .pure _
    · exact ih fun y hy => h y (List.mem_cons_of_mem x hy)

/-- What is left of a loop that may have ended is its update, its test and its body. -/
theorem made_remainder (h : l.Made deletes S) (labels : List String) :
    Eval.Made deletes S (l.remainder labels) := by
  refine .bind (.ambiguously _ (made_inOrder fun x hx => ?_)) fun _ => made_representative h labels
  rw [updateAndTest, List.mem_append, Option.mem_toList, Option.mem_toList] at hx
  rcases hx with update | test
  · exact h.update x update
  · obtain ⟨t, found, rfl⟩ := Option.map_eq_some_iff.1 test
    exact h.test t found

/-- A loop that is given up ends with its value so far. -/
theorem made_giveUp (h : l.Made deletes S) (labels : List String) (value : Option Value) :
    Eval.Made deletes S (l.giveUp labels value) :=
  .bind (made_representative h labels) fun _ => .pure _

/-- Before a pass a loop may be given up or end. -/
theorem made_beforeBody (h : l.Made deletes S) (labels : List String) (tested : Bool)
    (value : Option Value) : Eval.Made deletes S (l.beforeBody labels tested value) := by
  unfold beforeBody
  split
  · exact .pure _
  · refine .bind (made_check h) fun test => ?_
    split
    · exact .pure _
    · exact .pure _
    · exact .bind (made_giveUp h ..) fun _ => .pure _
    · exact .pure _

/-- A loop that reaches the limit is given up. -/
theorem made_exceed (h : l.Made deletes S) (labels : List String) (value : Option Value) :
    Eval.Made deletes S (l.exceed labels value) :=
  .bind .reportMaxIterations fun _ => made_giveUp h ..

/-- A pass may claim exits since the mark that was taken before it. -/
theorem made_pass (h : l.Made deletes S) (labels : List String) (k : Nat) (value : Option Value) :
    MadeSince deletes S (some k) (l.pass labels k value) := by
  refine .bind (.since h.body) fun c => ?_
  refine .bind (made_afterBody labels k value c (made_remainder h labels)) fun pass => ?_
  split
  · exact .pure _
  · split
    · exact .pure _
    next update found => exact .bind (.since (h.update update found)) fun _ => .pure _

/-- By induction on the passes that are left, a loop is made of them. -/
theorem made_iterate (h : l.Made deletes S) (labels : List String) (passes : Nat) (tested : Bool)
    (value : Option Value) : Eval.Made deletes S (l.iterate labels passes tested value) := by
  induction passes generalizing tested value with
  | zero =>
    refine .bind (made_beforeBody h ..) fun c => ?_
    split
    · exact .pure _
    · exact made_exceed h ..
  | succ passes ih =>
    refine .mark fun k => .bind (.since (made_beforeBody h ..)) fun c => ?_
    split
    · exact .pure _
    · refine .bind (made_pass h labels k value) fun pass => ?_
      split
      · exact .pure _
      · exact .since (ih true _)

/-- The test is evaluated even if loops are not. -/
theorem made_visitOnce (h : l.Made deletes S) (labels : List String) :
    Eval.Made deletes S (l.visitOnce labels) := by
  unfold visitOnce
  split
  · exact made_giveUp h ..
  next span test found =>
    refine .bind (h.test _ found) fun c => ?_
    split
    · exact .pure _
    · exact .bind (.markUnknown span) fun _ => made_giveUp h ..

/-- Whether a loop is evaluated is a matter of options. -/
theorem made_evaluate (h : l.Made deletes S) (labels : List String) (testFirst : Bool) :
    Eval.Made deletes S (l.evaluate labels testFirst) := by
  refine .bind (.options id) fun options => ?_
  split
  · exact made_iterate h ..
  · exact made_visitOnce h labels

end Loop

/-- The name of a loop is assigned before its body is evaluated. -/
theorem Rule.made_assignName {target : Rule Reference} (h : Rule.Made deletes S target)
    (v : Value) : Eval.Made deletes S (Rule.assignName target v) :=
  .complete (.bind h fun _ => .bind (.putValue ..) fun _ => .pure _)

namespace NameLoop

variable {l : NameLoop}

/-- The computations of a loop over names are made of parts. -/
structure Made (deletes : Prop) (S : Parts) (l : NameLoop) : Prop where
  assign : ∀ v, Eval.Made deletes S (l.assign v)
  object : Eval.Made deletes S l.object.2
  body : Eval.Made deletes S l.body

/-- The name that a body is evaluated with once more is unknown. -/
theorem made_representative (h : l.Made deletes S) (labels : List String) :
    Eval.Made deletes S (l.representative labels) := by
  refine .mark fun k => .bind (.since (.ambiguously _ ?_)) fun _ => made_claimPasses labels k
  refine .bind (h.assign _) fun c => ?_
  split
  · exact .pure _
  · exact h.body

/-- A pass assigns a name and evaluates the body since a mark. -/
theorem made_pass (h : l.Made deletes S) (labels : List String) (value : Option Value)
    (name : String) : Eval.Made deletes S (l.pass labels value name) := by
  refine .mark fun k => .bind (.since (h.assign _)) fun c => ?_
  split
  · exact .pure _
  · exact .bind (.since h.body) fun c =>
      made_afterBody labels k value c (made_representative h labels)

/-- Names that the object has lost are passed over. -/
theorem made_visit (h : l.Made deletes S) (labels : List String) (o : ObjectId)
    (names : List String) (passes : Nat) (value : Option Value) :
    Eval.Made deletes S (l.visit labels o passes value names) := by
  induction names generalizing passes value with
  | nil =>
    unfold visit
    exact .pure _
  | cons name rest ih =>
    unfold visit
    refine .look (fun _ _ same => by rw [same.realm]) fun m => ?_
    split
    · exact ih _ _
    · split
      · exact .bind .reportMaxIterations fun _ =>
          .bind (made_representative h labels) fun _ => .pure _
      · refine .bind (made_pass h ..) fun pass => ?_
        split
        · exact .pure _
        · exact ih _ _

/-- A loop over names evaluates its object first, and undefined and null have no names. -/
theorem made_evaluate (h : l.Made deletes S) (labels : List String) :
    Rule.Made deletes S (l.evaluate labels) := by
  have representative : Rule.Made deletes S (do
      Rule.lift (l.representative labels)
      return Completion.empty) :=
    .bind (.lift (made_representative h labels)) fun _ => .pure _
  refine .bind (.value h.object) fun v => .bind (.lift (.options _)) fun evaluated => ?_
  split
  · unfold visitValue
    split
    · exact .pure _
    · exact .pure _
    · exact .bind (.lift (.markUnknown _)) fun _ => representative
    · refine .bind (.native (Op.built_toObject? v)) fun o => ?_
      split
      · exact .pure _
      · exact .bind (.lift (.options _)) fun limit =>
          .look (fun _ _ same => by rw [same.realm]) fun m => .lift (made_visit h ..)
  · exact representative

end NameLoop

/-! ## Statements -/

/-- After a step that may have exited, the others may or may not happen. -/
theorem Step.made_runAll {steps : List Step} (h : ∀ step ∈ steps, Eval.Made deletes S step.run)
    (value : Option Value) : Eval.Made deletes S (runAll value steps) := by
  induction steps generalizing value with
  | nil => exact .pure _
  | cons step rest ih =>
    have others (value : Option Value) : Eval.Made deletes S (runAll value rest) :=
      ih (fun later hl => h later (List.mem_cons_of_mem step hl)) value
    refine .bind made_mark fun mark => .bind (h step List.mem_cons_self) fun c => ?_
    split
    · exact .pure _
    · refine .bind (made_hasExitsSince mark) fun exits => ?_
      split
      · split
        · exact .pure _
        · exact .bind (.ambiguously _ (others none)) fun _ => .pure _
      · exact others _

namespace Rule

theorem made_expression {x : Run Completion} (h : Eval.Made deletes S x) :
    Made deletes S (expression x) :=
  .bind (.value h) fun _ => .pure _

theorem made_throws {x : Run Completion} (h : Eval.Made deletes S x) : Made deletes S (throws x) :=
  .bind (.value h) fun _ => .pure _

theorem made_discard {x : Run Completion} (h : Eval.Made deletes S x) :
    Made deletes S (discard x) :=
  .bind (.value h) fun _ => .pure _

/-- The variables without an initial value are passed over. -/
theorem made_declarators {ds : List (String × Option (Run Completion))}
    (h : ∀ d ∈ ds, ∀ x, d.2 = some x → Eval.Made deletes S x) :
    Made deletes S (declarators ds) := by
  induction ds with
  | nil => exact .pure _
  | cons d rest ih =>
    have others : Made deletes S (declarators rest) :=
      ih fun later hl => h later (List.mem_cons_of_mem d hl)
    obtain ⟨name, x⟩ := d
    cases x with
    | none => exact others
    | some x =>
      refine .bind (made_resolve name) fun r => ?_
      refine .bind (.value (h (name, some x) List.mem_cons_self x rfl)) fun v => ?_
      exact .bind (.putValue r v) fun _ => others

/-- A declaration of variables is made of their initial values. -/
theorem made_varDeclaration {ds : List (String × Option (Run Completion))}
    (h : ∀ d ∈ ds, ∀ x, d.2 = some x → Eval.Made deletes S x) :
    Made deletes S (varDeclaration ds) :=
  .bind (made_declarators h) fun _ => .pure _

/-- A return that may or may not happen is noted. -/
theorem made_returns {x : Option (Run Completion)} (h : ∀ y, x = some y → Eval.Made deletes S y) :
    Made deletes S (returns x) := by
  have ends (v : Value) : Made deletes S (do
      if (← MonadState.get).contexts.isAmbiguous then
        modify (·.markReturnUnknown)
        return Completion.normal .undefined
      else return Completion.returns v) := by
    refine .look (fun _ _ same => by rw [same.contexts]) fun m => ?_
    split
    · exact .bind (.lift (.note (.returns v))) fun _ => .pure _
    · exact .pure _
  cases x with
  | none => exact .bind (.pure _) ends
  | some x => exact .bind (.value (h x rfl)) ends

/-- Both branches of a condition that is unknown are made in one block, and exits of the first
noted. -/
theorem made_branch (span testSpan : Span) {test consequent : Run Completion}
    {alternate : Option (Run Completion)} (htest : Eval.Made deletes S test)
    (hconsequent : Eval.Made deletes S consequent)
    (halternate : ∀ x, alternate = some x → Eval.Made deletes S x) :
    Made deletes S (branch span testSpan test consequent alternate) := by
  have second : Eval.Made deletes S (alternate.getD (return .empty)) := by
    cases alternate with
    | none => exact .pure _
    | some x => exact halternate x rfl
  refine .bind (.value htest) fun v => ?_
  split
  · exact .lift hconsequent
  · exact .lift second
  · refine .bind (.lift (.markUnknown testSpan)) fun _ => .lift ?_
    exact .ambiguously span (.bind hconsequent fun c => .bind (.note c) fun _ => second)

/-- The labels are taken before anything else is evaluated. -/
theorem made_loop (testFirst : Bool) {start : Rule Unit} {l : Loop} (hstart : Made deletes S start)
    (h : l.Made deletes S) : Made deletes S (loop testFirst start l) :=
  .bind (.lift .takeLabels) fun _ => .bind hstart fun _ => .lift (Loop.made_evaluate h ..)

/-- The labels are taken before the object is evaluated. -/
theorem made_nameLoop {l : NameLoop} (h : l.Made deletes S) : Made deletes S (nameLoop l) :=
  .bind (.lift .takeLabels) fun labels => NameLoop.made_evaluate h labels

end Rule

/-- A statement with a label claims what breaks to the label. -/
theorem Eval.made_labeled (label : String) (passesOn : Bool) {body : Run Completion}
    (h : Made deletes S body) : Made deletes S (labeled label passesOn body) := by
  refine .bind (.giveLabels fun labels => if passesOn then labels ++ [label] else []) fun _ => ?_
  refine .mark fun k => .bind (.since h) fun c => ?_
  exact .claim (fun c throws => c.leavesLabel_of_isThrow throws label) (fun _ _ _ => rfl)
    fun _ => .pure _

/-! ## Switches -/

namespace Case

/-- The test and the body of a case are made of parts. -/
structure Made (deletes : Prop) (S : Parts) (c : Case) : Prop where
  test : ∀ t, c.test = some t → Eval.Made deletes S t.2
  body : ∀ step ∈ c.body, Eval.Made deletes S step.run

/-- The tests of cases are evaluated up to the first that may be equal. -/
theorem made_select (input : Value) (default : List Case) {cs : List Case}
    (h : ∀ c ∈ cs, c.Made deletes S) : Rule.Made deletes S (select input default cs) := by
  induction cs with
  | nil => exact .pure _
  | cons c rest ih =>
    have others : Rule.Made deletes S (select input default rest) :=
      ih fun later hl => h later (List.mem_cons_of_mem c hl)
    unfold select
    split
    · exact others
    next span test found =>
      refine .bind (.value ((h c List.mem_cons_self).test _ found)) fun v => ?_
      split
      · exact .pure _
      · exact others
      · exact .bind (.lift (.markUnknown span)) fun _ => .pure _

/-- The cases that are run are among those that there are. -/
theorem select_gives {P : Case → Prop} (input : Value) {default cs : List Case}
    (hdefault : ∀ c ∈ default, P c) (h : ∀ c ∈ cs, P c) :
    Rule.Gives (fun chosen => ∀ ds, chosen = .cases ds → ∀ c ∈ ds, P c)
      (select input default cs) := by
  induction cs with
  | nil =>
    refine .pure fun ds hds => ?_
    cases hds
    exact hdefault
  | cons c rest ih =>
    have rest_gives := ih fun later hl => h later (List.mem_cons_of_mem c hl)
    unfold select
    split
    · exact rest_gives
    · refine .bind fun v => ?_
      split
      · refine .pure fun ds hds => ?_
        cases hds
        exact h
      · exact rest_gives
      · exact .bind fun _ => .pure fun ds hds => by cases hds

/-- The bodies of all cases are evaluated, and how each ends is noted. -/
theorem made_noteAll {cs : List Case} (h : ∀ c ∈ cs, c.Made deletes S) :
    Eval.Made deletes S (noteAll cs) := by
  induction cs with
  | nil => exact .pure _
  | cons c rest ih =>
    refine .bind (Step.made_runAll (h c List.mem_cons_self).body none) fun completion => ?_
    exact .bind (.note completion) fun _ => ih fun later hl => h later (List.mem_cons_of_mem c hl)

/-- All cases may or may not be run, and breaks out of the switch are claimed. -/
theorem made_possibly (span : Span) (labels : List String) {cs : List Case}
    (h : ∀ c ∈ cs, c.Made deletes S) : Eval.Made deletes S (possibly span labels cs) :=
  .mark fun _ => .bind (.since (.ambiguously span (made_noteAll h))) fun _ =>
    .claim (fun c throws => c.leavesSwitch_of_isThrow throws labels) (fun _ _ _ => rfl)
      fun _ => .pure _

/-- By induction on the cases that are left, each may leave the switch. -/
theorem made_fallThrough (span : Span) (labels : List String) {cs : List Case}
    (h : ∀ c ∈ cs, c.Made deletes S) (value : Option Value) :
    Eval.Made deletes S (fallThrough span labels value cs) := by
  induction cs generalizing value with
  | nil => exact .pure _
  | cons c rest ih =>
    have later : ∀ d ∈ rest, d.Made deletes S := fun d hd => h d (List.mem_cons_of_mem c hd)
    have others (c : Completion) (throws : c.isThrow = true) :=
      c.leavesSwitch_of_isThrow throws labels
    refine .mark fun k => ?_
    refine .bind (.since (Step.made_runAll (h c List.mem_cons_self).body none)) fun c => ?_
    split
    · exact .claim others (fun _ _ _ => rfl) fun _ => .pure _
    · split
      · exact .pure _
      · refine .claim others (fun es es' same => by rw [same]) fun possible => ?_
        split
        · exact .since (ih later _)
        · exact .since (.join (made_possibly span labels later) (fun _ => .pure _) (.pure _))

end Case

/-- A switch runs the cases that it selects, or all of them as possible. -/
theorem Rule.made_switch (span inputSpan : Span) {input : Run Completion} {cs : List Case}
    (hinput : Eval.Made deletes S input) (h : ∀ c ∈ cs, c.Made deletes S) :
    Rule.Made deletes S (Rule.switch span inputSpan input cs) := by
  refine .bind (.lift .takeLabels) fun labels => .bind (.value hinput) fun v => ?_
  split
  · exact .bind (.lift (.markUnknown inputSpan)) fun _ => .lift (Case.made_possibly span labels h)
  · have default : ∀ c ∈ Case.fromDefault cs, c.Made deletes S :=
      fun c hc => h c ((List.dropWhile_sublist _).subset hc)
    refine .bind_of (Case.made_select v _ h) (Case.select_gives v default h) fun chosen made => ?_
    split
    · exact .lift (Case.made_possibly span labels h)
    · exact .pure _
    · exact .lift (Case.made_fallThrough span labels (made _ rfl) none)

/-! ## Exceptions -/

namespace Eval

/-- A completion passes through the last block of a `try`, if there is one. -/
theorem made_finishOption (c : Completion) {finalizer : Option (Run Completion)}
    (hfinalizer : ∀ f, finalizer = some f → Made deletes S f) :
    Made deletes S (match finalizer with
      | some f => finish c f
      | none => return c) := by
  split
  next f => exact .finish c (hfinalizer f rfl)
  · exact .pure c

/-- A `try` with a handler handles the throws of its block before anything else is done. -/
theorem tryBlock_some (block : Run Completion) (h : Handling)
    (finalizer : Option (Run Completion)) : tryBlock block (some h) finalizer = (do
      let mark ← mark
      handleThrows mark (← guarded true block) h) >>= fun c => match finalizer with
        | some f => finish c f
        | none => pure c := by
  cases finalizer <;> simp only [tryBlock, bind_assoc, Option.isSome_some]

/-- The block of a `try` comes first, its handler next, and its last block at the end. -/
theorem made_tryBlock {block : Run Completion} {handler : Option Handling}
    {finalizer : Option (Run Completion)} (hblock : Made deletes S block)
    (hhandler : ∀ h, handler = some h → ∀ v, Made deletes S (h.run v))
    (hfinalizer : ∀ f, finalizer = some f → Made deletes S f) :
    Made deletes S (tryBlock block handler finalizer) := by
  have ends (c : Completion) := made_finishOption c hfinalizer
  cases handler with
  | none =>
    exact .bind made_mark fun _ => .bind (.unguarded hblock) fun c => .bind (.pure c) ends
  | some h =>
    rw [tryBlock_some]
    exact .bind (.handled hblock (hhandler h rfl)) ends

end Eval

end AbstractScript
