import AbstractScript.Proofs.Depth
import AbstractScript.Proofs.Jumps

/-!
# Rules end as their parts do

Rule by rule: if the expressions in a rule end with values or throws, then so does the rule of an
expression; and if the statements in a rule end with completions that fit their free jumps, then the
rule of a statement ends with one that fits the jumps that the statement does not end itself.
-/
namespace AbstractScript

open Eval Completion

/-! ## Parts of rules -/

namespace Rule

variable {α β : Type}

/-- What a part of a rule gives: a result with a property, or the end of the rule with a value or
with a throw. -/
def Outcome (P : α → Prop) : Except Completion α → Prop
  | .ok a => P a
  | .error c => c.Valued

/-- How a part of a rule ends. -/
def Ends (depth : Nat) (labels : List String) (P : α → Prop) (r : Rule α) : Prop :=
  Eval.Ends depth labels (Outcome P) r.run

namespace Ends

variable {depth : Nat} {labels : List String} {P : α → Prop} {Q : β → Prop}

/-- What a part gives may be said less precisely. -/
theorem mono {P' : α → Prop} {r : Rule α} (h : ∀ a, P a → P' a) (hr : Ends depth labels P r) :
    Ends depth labels P' r :=
  Eval.Ends.mono (fun e outcome => by
    cases e with
    | ok a => exact h a outcome
    | error c => exact outcome) hr

theorem pure {a : α} (h : P a) : Ends depth [] P (pure a) := Eval.Ends.pure h

/-- A part may end the rule with a value or a throw. -/
theorem throw {c : Completion} (h : c.Valued) : Ends depth [] P (throw c : Rule α) :=
  Eval.Ends.pure h

theorem lift {x : Run α} (hx : Eval.Ends depth labels P x) : Ends depth labels P (lift x) := by
  show Eval.Ends depth labels _ (Except.ok <$> x)
  rw [map_eq_pure_bind]
  exact .bind hx fun a h => .pure h

/-- A look at the machine sees the depth. -/
theorem get : Ends depth [] (·.contexts.depth = depth) (get : Rule Machine) := lift .get

/-- A part and what follows it, which may rely on what the part gives. -/
theorem bind {r : Rule α} {f : α → Rule β} (hr : Ends depth labels P r)
    (hf : ∀ a, P a → Ends depth [] Q (f a)) : Ends depth labels Q (r >>= f) := by
  rw [Ends, ExceptT.run_bind]
  refine Eval.Ends.bind hr fun e he => ?_
  cases e with
  | ok a => exact hf a he
  | error c => exact Eval.Ends.pure he

/-- A rule ends as its last part does, or with a value or a throw. -/
theorem complete {P : Completion → Prop} {r : Rule Completion} (hr : Ends depth labels P r)
    (h : ∀ c, c.Valued → P c) : Eval.Ends depth labels P r.complete :=
  Eval.Ends.bind hr fun e he => by
    cases e with
    | ok c => exact .pure he
    | error c => exact .pure (h c he)

/-- An operation gives what it does, or else the rule ends with an unknown value. -/
theorem native_of {op : Op α} (h : Eval.Keeps Machine.Steady op)
    (gives : ∀ {s m a n}, op s m = .ok a n → P a) : Ends depth [] P (native op) := by
  have attempted : Eval.Ends depth [] (∀ a, · = Except.ok a → P a)
      (op.attempt : Run (Except NativeError α)) := by
    refine ⟨fun {s m} _ => (h.attempt.after s m).contexts, ?_⟩
    rintro s m e n - run a rfl
    cases ran : op s m with
    | ok b k =>
      rw [Op.attempt, ran] at run
      cases run
      exact gives ran
    | error e k =>
      rw [Op.attempt, ran] at run
      cases run
  refine .bind (lift attempted) fun e given => ?_
  cases e with
  | ok a => exact .pure (given a rfl)
  | error e =>
    exact .bind (lift (.of_steady (.aside (reportError_keeps e)))) fun _ _ => .throw valued_unknown

/-- A native error ends the rule with an unknown value. -/
theorem native {op : Op α} (h : Eval.Keeps Machine.Steady op) :
    Ends depth [] (fun _ => True) (native op) :=
  native_of h fun _ => trivial

/-- Only what is abrupt ends a rule. -/
theorem value_of {x : Run Completion}
    (hx : Eval.Ends depth labels (fun c => c.isAbrupt = true → c.Valued) x) :
    Ends depth labels (fun _ => True) (value x) := by
  refine .bind (lift hx) fun c valued => ?_
  split
  next abrupt => exact .throw (valued abrupt)
  · exact .pure trivial

/-- An expression that throws ends the rule that it is part of. -/
theorem value {x : Run Completion} (hx : Eval.Ends depth labels Valued x) :
    Ends depth labels (fun _ => True) (value x) :=
  value_of (hx.mono fun _ valued _ => valued)

/-- Values are evaluated in order, up to a throw. -/
theorem values {xs : List (Run Completion)} (h : ∀ x ∈ xs, Eval.Ends depth [] Valued x) :
    Ends depth [] (fun _ => True) (values xs) := by
  induction xs with
  | nil => exact .pure trivial
  | cons x xs ih =>
    obtain ⟨first, rest⟩ := List.forall_mem_cons.1 h
    exact .bind (value first) fun v _ => .bind (ih rest) fun vs _ => .pure trivial

/-- A loop over a list keeps the contexts if each of its steps does. -/
theorem forM {xs : List α} {f : α → Rule Unit}
    (h : ∀ a ∈ xs, Ends depth [] (fun _ => True) (f a)) :
    Ends depth [] (fun _ => True) (xs.forM f) := by
  induction xs with
  | nil => exact .pure trivial
  | cons a xs ih =>
    obtain ⟨first, rest⟩ := List.forall_mem_cons.1 h
    exact .bind first fun _ _ => ih rest

end Ends

end Rule

namespace Eval

variable {α : Type} {depth : Nat} {labels : List String} {P : α → Prop}

/-! ## Nodes -/

/-- The events around a rule and its place on the stack of rules make no difference. -/
theorem ends_bracket (kind : NodeKind) (span : Span) (outcome : α → Completion) {body : Run α}
    (h : Ends depth labels P body) : Ends depth labels P (bracket kind span outcome body) := by
  -- the machine in which the body begins has the same contexts and labels
  have entered {s : Setup} {m : Machine} (begins : Begins depth labels s m) :
      Begins depth labels s (m.beginRule ⟨kind, span.location s.file⟩) :=
    ⟨begins.rules, begins.depth, begins.labels⟩
  constructor
  · intro s m begins
    have kept := h.contexts (entered begins)
    rw [Eval.after, bracket_apply]
    rw [Eval.after] at kept
    cases ran : body s (m.beginRule ⟨kind, span.location s.file⟩) <;> rw [ran] at kept <;> exact kept
  · intro s m a n begins run
    rw [bracket_apply] at run
    cases ran : body s (m.beginRule ⟨kind, span.location s.file⟩) with
    | ok b k =>
      rw [ran] at run
      cases run
      exact h.result (entered begins) ran
    | error e k =>
      rw [ran] at run
      cases run

/-- A node ends as its own rule does, or normally, whatever handler there is for its kind. -/
theorem ends_ruled (kind : NodeKind) (span : Span) {P : Completion → Prop} {core : Run Completion}
    (h : Ends depth labels P core) : Ends depth labels P (ruled kind span core) := by
  have node : Ends depth labels P (bracket kind span id core) := ends_bracket kind span id h
  have same {s : Setup} (rules : s.rules = .core) (m : Machine) :
      ruled kind span core s m = bracket kind span id core s m := by
    unfold ruled
    rw [bind_apply, setup_apply]
    simp only [rules, Rules.core, Handler.apply, if_true]
  constructor
  · intro s m begins
    have kept := node.contexts begins
    rw [Eval.after] at kept ⊢
    rwa [same begins.rules]
  · intro s m c n begins run
    rw [same begins.rules] at run
    exact node.result begins run

/-- To note a completion is to keep the contexts. -/
theorem ends_note (c : Completion) : Ends depth [] (fun _ => True) (note c : Run Unit) :=
  .of_steady (keeps_note c)

/-- What may or may not happen ends normally. -/
theorem ends_ambiguously (span : Span) {P : Completion → Prop} {x : Run Completion}
    (h : ∀ depth, Ends depth [] P x) :
    Ends depth [] (fun c => c.isNormal = true) (ambiguously span x) := by
  have inside (depth : Nat) : Ends depth [] (fun c => c.isNormal = true) (do
      let c ← x
      note c
      return possibly c) :=
    .bind (h depth) fun c _ => .bind (ends_note c) fun _ _ => .pure (isNormal_possibly c)
  constructor
  · intro s m begins
    rw [ambiguously, after_recorded]
    unfold inBlock
    rw [after_bind_ok (setup_apply ..), after_bind_ok (modify_apply ..),
      after_bind_ok (get_apply ..), after_bind_ok (modify_apply ..), after_ensuring]
    refine Machine.InPlace.exitBlock (m := m.markBlock (span.location s.file)) ?_
    exact (inside _).contexts ⟨begins.rules, rfl, List.nil_subset _⟩
  · intro s m c n begins run
    obtain ⟨k, ran⟩ := exists_of_inBlock run
    exact (inside _).result ⟨begins.rules, rfl, List.nil_subset _⟩ ran

end Eval

/-! ## Expressions -/

/-- An expression that ends with a value or with a throw, at every ambiguous depth. -/
def Eval.EndsValued (x : Run Completion) : Prop := ∀ depth, Ends depth [] Valued x

/-- A rule that ends with a value or with a throw, at every ambiguous depth. -/
def Rule.EndsValued (r : Rule Completion) : Prop := ∀ depth, Ends depth [] Valued r

/-- A part of a rule that may end the rule with a value or with a throw only. -/
def Rule.Passes {α : Type} (r : Rule α) : Prop := ∀ depth, Ends depth [] (fun _ => True) r

namespace Rule

variable {α β : Type}

theorem EndsValued.complete {r : Rule Completion} (h : r.EndsValued) : r.complete.EndsValued :=
  fun depth => (h depth).complete fun _ valued => valued

/-- A rule whose last part gives a value ends with it or with a throw. -/
theorem EndsValued.normal {r : Rule Value} (h : r.Passes) :
    Rule.EndsValued (do return .normal (← r)) :=
  fun depth => .bind (h depth) fun v _ => .pure (valued_normal v)

/-- The last part of a rule says how it ends. -/
theorem EndsValued.bind {r : Rule α} {f : α → Rule Completion} (h : r.Passes)
    (hf : ∀ a, (f a).EndsValued) : Rule.EndsValued (r >>= f) :=
  fun depth => .bind (h depth) fun a _ => hf a depth

/-- A rule keeps the contexts if its parts do. -/
theorem Passes.bind {r : Rule α} {f : α → Rule β} (h : r.Passes) (hf : ∀ a, (f a).Passes) :
    Passes (r >>= f) :=
  fun depth => .bind (h depth) fun a _ => hf a depth

theorem Passes.pure (a : α) : Passes (Pure.pure a) := fun _ => .pure trivial

theorem EndsValued.pure (v : Value) : Rule.EndsValued (Pure.pure (.normal v)) :=
  fun _ => .pure (valued_normal v)

/-- An operation that keeps exits and contexts may fail with a native error. -/
theorem passes_native {op : Op α} (h : Eval.Keeps Machine.Steady op) : (native op).Passes :=
  fun _ => .native h

/-- A step that keeps exits and contexts keeps the contexts. -/
theorem passes_steady {x : Run α} (h : Eval.Keeps Machine.Steady x) : (lift x).Passes :=
  fun _ => .lift (.of_steady h)

/-- The value of an expression keeps the contexts. -/
theorem passes_value {x : Run Completion} (h : Eval.EndsValued x) : (value x).Passes :=
  fun depth => .value (h depth)

theorem passes_get : (get : Rule Machine).Passes := fun _ => .mono (fun _ _ => trivial) .get

/-- So do the values of several expressions. -/
theorem passes_values {xs : List (Run Completion)} (h : ∀ x ∈ xs, Eval.EndsValued x) :
    (values xs).Passes :=
  fun depth => .values fun x hx => h x hx depth

/-- A part may end as an expression does. -/
theorem ends_lift {x : Run Completion} (h : Eval.EndsValued x) : (lift x).EndsValued :=
  fun depth => .lift (h depth)

theorem ends_unknown : Rule.EndsValued (Pure.pure .unknown) := .pure .unknown

/-- What may or may not happen ends no rule. -/
theorem passes_ambiguously (span : Span) {P : Completion → Prop} {x : Run Completion}
    (h : ∀ depth, Eval.Ends depth [] P x) : (lift (ambiguously span x)).Passes :=
  fun _ => .lift ((ends_ambiguously span h).mono fun _ _ => trivial)

/-! ### References -/

theorem passes_resolve (name : String) : (resolve name).Passes :=
  .bind passes_get fun _ => .pure _

/-- A key is converted by an operation. -/
theorem passes_propertyName (key : Value) : (propertyName key).Passes := by
  refine .bind (passes_steady (.attempt (Op.built_toText? key).keeps)) fun name => ?_
  split
  · exact .pure _
  · exact .bind (passes_steady (.aside (reportError_keeps _))) fun _ => .pure _

/-- What has no properties is reported. -/
theorem passes_propertyOf (base : Value) (name : Option String) : (propertyOf base name).Passes := by
  unfold propertyOf
  split
  · exact .bind (passes_steady (.aside (reportError_keeps _))) fun _ => .pure _
  · split
    · exact .pure _
    · exact .pure _

/-- A member is found once its object is evaluated. -/
theorem passes_memberReference {x : Run Completion} (hx : Eval.EndsValued x) (name : String) :
    (memberReference x name).Passes :=
  .bind (passes_value hx) fun _ => passes_propertyOf _ _

/-- So it is with members whose names are computed. -/
theorem passes_indexReference {x key : Run Completion} (hx : Eval.EndsValued x)
    (hkey : Eval.EndsValued key) : (indexReference x key).Passes :=
  .bind (passes_value hx) fun _ => .bind (passes_value hkey) fun _ =>
    .bind (passes_propertyName _) fun _ => passes_propertyOf _ _

/-- What is read is a value. -/
theorem ends_read {r : Rule Reference} (hr : r.Passes) : (read r).EndsValued :=
  .bind hr fun _ => .bind (passes_native (Op.built_getValue _).keeps) fun v => .pure v

/-- A malformed node fails. -/
theorem passes_malformed (kind : NodeKind) (span : Span) : (malformed kind span : Rule α).Passes :=
  fun _ => .lift (.throw _)

/-- The events of a reference leave the contexts as they are. -/
theorem passes_referring (kind : NodeKind) (span : Span) {r : Rule Reference} (hr : r.Passes) :
    (referring kind span r).Passes :=
  fun depth => ends_bracket kind span referenceOutcome (hr depth)

/-! ### Literals -/

/-- Elements are evaluated in order, holes left out. -/
theorem passes_elements {xs : List (Option (Run Completion))}
    (h : ∀ x, some x ∈ xs → Eval.EndsValued x) : (elements xs).Passes := by
  induction xs with
  | nil => exact .pure _
  | cons x xs ih =>
    have rest : (elements xs).Passes := ih fun y hy => h y (List.mem_cons_of_mem x hy)
    cases x with
    | none => exact .bind rest fun _ => .pure _
    | some x =>
      exact .bind (passes_value (h x List.mem_cons_self)) fun _ => .bind rest fun _ => .pure _

/-- A loop over a list keeps the contexts if each of its steps does. -/
theorem passes_forM {xs : List α} {f : α → Rule Unit} (h : ∀ a ∈ xs, (f a).Passes) :
    (xs.forM f).Passes :=
  fun depth => .forM fun a ha => h a ha depth

/-- An array literal gives an array. -/
theorem ends_arrayLiteral {xs : List (Option (Run Completion))}
    (h : ∀ x, some x ∈ xs → Eval.EndsValued x) : (arrayLiteral xs).EndsValued := by
  refine .bind (passes_elements h) fun vs => .bind (passes_steady (keeps_createArray _)) fun o => ?_
  refine .bind (passes_forM fun name _ => ?_) fun _ => .pure _
  exact .bind (passes_native (Op.built_delete ..).keeps) fun _ => .pure _

/-- An object literal gives an object. -/
theorem ends_objectLiteral {ps : List Property} (h : ∀ p ∈ ps, p.2.Passes) :
    (objectLiteral ps).EndsValued := by
  refine .bind (passes_steady keeps_createPlain) fun o => .bind (passes_forM fun p hp => ?_) fun _ =>
    .pure _
  refine .bind (h p hp) fun d => ?_
  exact .bind (passes_native (Op.built_define ..).keeps) fun _ => .pure _

/-! ### Operators -/

/-- The type of what is referred to is a text. -/
theorem ends_typeOfReference {r : Rule Reference} (hr : r.Passes) :
    (typeOfReference r).EndsValued := by
  refine .bind hr fun r => ?_
  split
  · exact .pure _
  · exact .bind (passes_native (Op.built_getValue r).keeps) fun v =>
      .bind (passes_native (Op.built_typeOf v).keeps) fun _ => .pure _

/-- An operator before an operand gives a value. -/
theorem ends_unary (operator : UnaryOperator) (isTarget : Bool) {r : Rule Reference}
    {x : Run Completion} (hr : r.Passes) (hx : Eval.EndsValued x) :
    (unary operator isTarget r x).EndsValued := by
  cases operator
  case delete =>
    simp only [unary]
    split
    · exact .bind hr fun r => .bind (passes_native (isQuiet_deleteReference r).steady) fun _ =>
        .pure _
    · exact .bind (passes_value hx) fun _ => .pure _
  case typeOf =>
    simp only [unary]
    split
    · exact ends_typeOfReference hr
    · exact .bind (passes_value hx) fun v => .bind (passes_native (Op.built_typeOf v).keeps) fun _ =>
        .pure _
  case void | logicalNot => exact .bind (passes_value hx) fun _ => .pure _
  case minus | plus | bitwiseNot =>
    exact .bind (passes_value hx) fun v =>
      .bind (passes_native (Op.built_numericUnary _ v).keeps) fun _ => .pure _

/-- What is incremented or decremented gives a number, or an unknown value. -/
theorem ends_update (operator : UpdateOperator) (leading : Bool) {r : Rule Reference}
    (hr : r.Passes) : (update operator leading r).EndsValued := by
  refine .bind hr fun r => .bind (passes_native (Op.built_getValue r).keeps) fun v => ?_
  refine .bind (passes_native (Op.built_toNumber? v).keeps) fun x => ?_
  split
  · exact ends_unknown
  · exact .bind (passes_native (Op.isQuiet_putValue ..).steady) fun _ => .pure _

/-- An operator between two operands gives a value. -/
theorem ends_binary (operator : BinaryOperator) {x y : Run Completion} (hx : Eval.EndsValued x)
    (hy : Eval.EndsValued y) : (binary operator x y).EndsValued :=
  .bind (passes_value hx) fun _ => .bind (passes_value hy) fun _ =>
    .bind (passes_native (Op.built_apply ..).keeps) fun _ => .pure _

/-- What is assigned is a value. -/
theorem passes_assigned (operator : AssignmentOperator) (r : Reference) {x : Run Completion}
    (hx : Eval.EndsValued x) : (assigned operator r x).Passes := by
  cases operator with
  | assign => exact passes_value hx
  | compound operator =>
    exact .bind (passes_native (Op.built_getValue r).keeps) fun old => .bind (passes_value hx) fun v =>
      passes_native (Op.built_apply ..).keeps

/-- An assignment gives what it assigns. -/
theorem ends_assignment (operator : AssignmentOperator) {r : Rule Reference} {x : Run Completion}
    (hr : r.Passes) (hx : Eval.EndsValued x) : (assignment operator r x).EndsValued :=
  .bind hr fun r => .bind (passes_assigned operator r hx) fun v =>
    .bind (passes_native (Op.isQuiet_putValue r v).steady) fun _ => .pure v

/-- A logical operator whose left operand is unknown gives an unknown value. -/
theorem ends_logical (operator : LogicalOperator) (span leftSpan : Span) {x y : Run Completion}
    (hx : Eval.EndsValued x) (hy : Eval.EndsValued y) :
    (logical operator span leftSpan x y).EndsValued := by
  refine .bind (passes_value hx) fun v => ?_
  split
  · split
    · exact .pure v
    · exact .bind (passes_value hy) fun v => .pure v
  · refine .bind (passes_steady (.aside (markUnknown_keeps leftSpan))) fun _ => ?_
    exact .bind (passes_ambiguously span hy) fun _ => ends_unknown

/-- A conditional whose test is unknown gives an unknown value. -/
theorem ends_conditional (span testSpan : Span) {test x y : Run Completion}
    (htest : Eval.EndsValued test) (hx : Eval.EndsValued x) (hy : Eval.EndsValued y) :
    (conditional span testSpan test x y).EndsValued := by
  refine .bind (passes_value htest) fun v => ?_
  split
  · exact ends_lift hx
  · exact ends_lift hy
  · refine .bind (passes_steady (.aside (markUnknown_keeps testSpan))) fun _ => ?_
    have both : Eval.EndsValued (do
        let _ ← x
        y) := fun depth => .bind (hx depth) fun _ _ => hy depth
    exact .bind (passes_ambiguously span both) fun _ => ends_unknown

/-- A sequence gives the value of its last expression. -/
theorem ends_sequence {xs : List (Run Completion)} (h : ∀ x ∈ xs, Eval.EndsValued x) :
    (sequence xs).EndsValued :=
  .bind (passes_values h) fun _ => .pure _

/-! ### Calls -/

/-- What is called is evaluated with its receiver. -/
theorem passes_callee (isTarget : Bool) {r : Rule Reference} {x : Run Completion} (hr : r.Passes)
    (hx : Eval.EndsValued x) : (callee isTarget r x).Passes := by
  unfold callee
  split
  · refine .bind hr fun r => .bind (passes_native (Op.built_getValue r).keeps) fun f => ?_
    refine .bind ?_ fun _ => .pure _
    unfold receiver
    split
    · exact .bind passes_get fun _ => .pure _
    · exact .pure _
  · exact .bind (passes_value hx) fun _ => .pure _

end Rule

/-- Calls of functions of the program end with values or throws. -/
def ScriptCall.EndsValued (call : ScriptCall) : Prop :=
  ∀ f closure this arguments, Eval.EndsValued (call f closure this arguments)

namespace Eval

/-- An operation that gives a value, or else an unknown one. -/
theorem ends_recover {op : Op Completion} (h : Keeps Machine.Steady op)
    (gives : ∀ {s m c n}, op s m = .ok c n → c.Valued) : EndsValued (recover op) :=
  fun _ => (Rule.Ends.native_of h gives).complete fun _ valued => valued

/-- An operation that gives a value ends with it. -/
theorem valued_of_normal {op : Op Value} {s : Setup} {m n : Machine} {c : Completion}
    (run : (Completion.normal <$> op) s m = .ok c n) : c.Valued := by
  rw [map_eq_pure_bind] at run
  obtain ⟨v, k, -, last⟩ := bind_eq_ok_iff.1 run
  cases last
  exact valued_normal v

/-- A type error is reported, and its value is unknown. -/
theorem ends_typeError (text : String) :
    EndsValued (recover (Op.typeError text)) :=
  ends_recover (.throw _) fun run => by cases run

/-- A call gives a value or throws. -/
theorem ends_callFunction {call : ScriptCall} (h : call.EndsValued) (f : ObjectId) (this : Value)
    (arguments : List Value) : EndsValued (callFunction call f this arguments) := by
  intro depth
  refine .bind (.of_steady (keeps_markInvoked f)) fun _ _ => ?_
  refine .bind (.of_steady (.object f)) fun record _ => ?_
  split
  next native _ _ =>
    split
    · exact .pure valued_unknown
    · exact ends_recover ((QuietNatives.call native this arguments).steady.map _)
        (fun run => valued_of_normal run) depth
  · exact ends_typeError _ depth
  next closure _ => exact h f closure this arguments depth
  · exact ends_typeError _ depth

/-- `new` gives an object unless the constructor throws. -/
theorem valued_constructResult (o : ObjectId) {c : Completion} (h : c.Valued) :
    (constructResult o c).Valued := by
  unfold constructResult
  split
  · exact h
  · split
    · exact valued_normal _
    · exact valued_normal _

/-- `new` gives a value or throws. -/
theorem ends_construct {call : ScriptCall} (h : call.EndsValued) (f : ObjectId)
    (arguments : List Value) : EndsValued (construct call f arguments) := by
  intro depth
  refine .bind (.of_steady (keeps_markInvoked f)) fun _ _ => ?_
  refine .bind (.of_steady (.object f)) fun record _ => ?_
  split
  next native _ =>
    split
    · exact .pure valued_unknown
    · exact ends_recover ((QuietNatives.call native .undefined arguments).steady.map _)
        (fun run => valued_of_normal run) depth
  next closure _ =>
    refine Rule.Ends.complete (.bind (.native ?_) fun p _ => ?_) fun _ valued => valued
    · refine .bind (Op.built_get f "prototype").keeps fun v => ?_
      split <;> exact .pure _
    · refine .bind (.lift (.of_steady (keeps_createObject (by decide) _))) fun o _ => ?_
      refine .bind (.lift (h f closure _ arguments depth)) fun c valued => ?_
      exact .pure (valued_constructResult o valued)
  · exact ends_typeError _ depth

end Eval

namespace Rule

/-- A call gives a value or throws if functions of the program do. -/
theorem ends_call {script : ScriptCall} (h : script.EndsValued) (text : String)
    {callee : Rule (Value × Value)} {arguments : List (Run Completion)} (hf : callee.Passes)
    (hxs : ∀ x ∈ arguments, Eval.EndsValued x) : (call script text callee arguments).EndsValued := by
  refine .bind hf fun f => .bind (passes_values hxs) fun vs => ?_
  have fails : Rule.EndsValued (native (Op.typeError (text ++ " is not a function"))) :=
    fun _ => .native_of (.throw _) fun run => by cases run
  split
  · exact ends_unknown
  · split
    · refine .bind (passes_steady (.object _)) fun record => ?_
      split
      · exact ends_lift (ends_callFunction h _ _ _)
      · exact fails
    · exact fails

/-- So does `new`. -/
theorem ends_new {script : ScriptCall} (h : script.EndsValued) (text : String)
    {callee : Run Completion} {arguments : List (Run Completion)} (hf : Eval.EndsValued callee)
    (hxs : ∀ x ∈ arguments, Eval.EndsValued x) : (new script text callee arguments).EndsValued := by
  refine .bind (passes_value hf) fun f => .bind (passes_values hxs) fun vs => ?_
  have fails : Rule.EndsValued (native (Op.typeError (text ++ " is not a constructor"))) :=
    fun _ => .native_of (.throw _) fun run => by cases run
  split
  · exact ends_unknown
  · split
    · refine .bind (passes_steady (.object _)) fun record => ?_
      split
      · exact ends_lift (ends_construct h _ _)
      · exact fails
    · exact fails

end Rule

end AbstractScript
