import AbstractScript.Proofs.CompositionTree
import AbstractScript.Proofs.Oblivious

/-!
# Evaluation looks at no records

What is made of parts that look at no records looks at none (`Eval.MadeSince.isOblivious`): beside
the rules, this is shown only of what such computations are made of. So a node is oblivious if the
calls of functions of the program are, and by induction over the depth of calls they are
(`Eval.isOblivious_callWithin`): what was reported or observed before, and which rules are being
evaluated, makes no difference.
-/
namespace AbstractScript

open Eval

/-- Calls of functions of the program look at no records. -/
def ScriptCall.IsOblivious (call : ScriptCall) : Prop :=
  ∀ f closure this arguments, Eval.IsOblivious (call f closure this arguments)

/-! ## Functions -/

namespace Eval

section

variable {ε : Type} [Failure ε]

/-- A function is created with its prototype, and is recorded among the functions of the program. -/
theorem isOblivious_createScript (code : FunctionCode) (scope : EnvId) :
    IsOblivious (createScript code scope : Eval ε ObjectId) := by
  refine .bind (.createFunction _) fun f => .bind .createPlain fun p => ?_
  refine .bind (.modifyObject _ _) fun _ => .bind (.modifyObject _ _) fun _ => ?_
  exact .bind (.modify (.addScript f)) fun _ => .pure f

/-- A named function expression is bound in an environment of its own. -/
theorem isOblivious_createFunctionValue (code : FunctionCode) :
    IsOblivious (createFunctionValue code : Eval ε ObjectId) := by
  refine .look (fun m n same => by rw [Machine.lexicalEnv_eq same]) fun m => ?_
  split
  · exact isOblivious_createScript ..
  · refine .bind (.createEnvironment _) fun e => .bind (isOblivious_createScript ..) fun f => ?_
    exact .bind (.modify (.modifyEnvironment e _)) fun _ => .pure f

end

/-- What a call declares it declares by oblivious steps. -/
theorem declares_oblivious (e : EnvId) : Op.Declares e (fun _ => True) Op.oblivious where
  createBinding name deletable :=
    (Op.built_createBinding e name deletable).isOblivious
  setBinding name v := (Op.built_setBinding e name v).isOblivious
  createScript _ scope := isOblivious_createScript _ scope

theorem isOblivious_scriptReceiver (this : Value) : IsOblivious (scriptReceiver this) := by
  unfold scriptReceiver
  split
  · exact .pure _
  · exact .pure _
  · exact .pure _
  · exact .pure _
  · refine .bind (.attempt (Op.built_toObject? this).isOblivious) fun o => ?_
    split <;> exact .pure _

/-- Parameters and declarations are bound; an error on the way is reported. -/
theorem isOblivious_enterBody (code : FunctionCode) (e : EnvId) (arguments : List Value) :
    IsOblivious (enterBody code e arguments) := by
  have declares := declares_oblivious e
  refine .bind (.create _) fun o => .bind (.attempt (.bind ?_ fun _ => ?_)) fun
    | .ok _ => .pure ()
    | .error error => .reportError error
  · exact (Op.built_bindParameters declares _ _).isOblivious
  · exact (Op.built_instantiate declares (fun _ _ => trivial) _).isOblivious

/-- What is run in a new context. The possible exits but throws are dropped after it. -/
theorem IsOblivious.inContext {α : Type} (c : Context) {x : Run α} (hx : IsOblivious x) :
    IsOblivious (inContext c x) := by
  refine .bind .mark fun mark => .bind (.modify (.withContexts (·.push c))) fun _ => ?_
  exact .ensuring hx (.comp (.dropClaimed mark _) (.withContexts (·.pop)))

/-- A function is oblivious if its body is. -/
theorem IsOblivious.callScript {body : Run Completion} (h : IsOblivious body) :
    (callScript body).IsOblivious := by
  intro f closure this arguments
  refine .bind (isOblivious_scriptReceiver this) fun receiver => ?_
  refine .bind (.createEnvironment _) fun e => .inContext _ ?_
  refine .bind (isOblivious_enterBody ..) fun _ => .bind h fun c => ?_
  exact .look (fun m n same => by rw [Machine.returnUnknown_eq same]) fun _ => .pure _

variable {call : ScriptCall}

theorem isOblivious_markInvoked (f : ObjectId) : IsOblivious (markInvoked f) :=
  .modify (.markInvoked f)

/-- A call runs a native function or a function of the program, or it is an error. -/
theorem isOblivious_callFunction (h : call.IsOblivious) (f : ObjectId) (this : Value)
    (arguments : List Value) : IsOblivious (callFunction call f this arguments) := by
  refine .bind (isOblivious_markInvoked f) fun _ => .bind (.object f) fun record => ?_
  split
  · split
    · exact .pure _
    · exact .recover (.map _ (ObliviousNatives.call ..))
  · exact .recover (.throw _)
  · exact h ..
  · exact .recover (.throw _)

/-- A function of the program is called on a new object. -/
theorem isOblivious_construct (h : call.IsOblivious) (f : ObjectId) (arguments : List Value) :
    IsOblivious (construct call f arguments) := by
  refine .bind (isOblivious_markInvoked f) fun _ => .bind (.object f) fun record => ?_
  split
  · split
    · exact .pure _
    · exact .recover (.map _ (ObliviousNatives.call ..))
  · have prototype := (built_instancePrototype f).isOblivious
    refine .complete (.bind (.native prototype) fun p => ?_)
    exact .bind (.lift (.createObject ..)) fun o => .bind (.lift (h ..)) fun _ => .pure _
  · exact .recover (.throw _)

end Eval

/-- The calls that rules make look at no records if calls do not. -/
theorem ScriptCall.IsOblivious.calls {call : ScriptCall} (h : call.IsOblivious) {α : Type}
    {x : Run α} (made : call.Calls α x) : Eval.IsOblivious x := by
  cases made with
  | function text f this arguments =>
    refine (Rule.IsOblivious.bind (.lift (.object f)) fun record => ?_).run
    split
    · exact .lift (isOblivious_callFunction h ..)
    · exact .native (.throw _)
  | construct text f arguments =>
    refine (Rule.IsOblivious.bind (.lift (.object f)) fun record => ?_).run
    split
    · exact .lift (isOblivious_construct h ..)
    · exact .native (.throw _)

/-! ## Literals -/

namespace Rule

theorem isOblivious_elements {xs : List (Option (Run Completion))}
    (h : ∀ x, some x ∈ xs → Eval.IsOblivious x) : IsOblivious (elements xs) := by
  induction xs with
  | nil => exact .pure []
  | cons x rest ih =>
    have others : IsOblivious (elements rest) := ih fun y hy => h y (List.mem_cons_of_mem _ hy)
    cases x with
    | none => exact .bind others fun _ => .pure _
    | some x =>
      exact .bind (.value (h x List.mem_cons_self)) fun _ => .bind others fun _ => .pure _

/-- The holes of an array are deleted from the array that was created. -/
theorem isOblivious_arrayLiteral {xs : List (Option (Run Completion))}
    (h : ∀ x, some x ∈ xs → Eval.IsOblivious x) : IsOblivious (arrayLiteral xs) := by
  refine .bind (isOblivious_elements h) fun vs => .bind (.lift (.createArray _)) fun o => ?_
  refine .bind (.forM fun name _ => ?_) fun _ => .pure _
  have delete := (Op.built_delete (o := o) name false).isOblivious
  exact .bind (.native delete) fun _ => .pure _

theorem isOblivious_objectLiteral {ps : List Property} (h : ∀ p ∈ ps, IsOblivious p.2) :
    IsOblivious (objectLiteral ps) := by
  refine .bind (.lift .createPlain) fun o => .bind (.forM fun p hp => ?_) fun _ => .pure _
  refine .bind (h p hp) fun d => ?_
  have define := (Op.built_define (o := o) p.1 d false).isOblivious
  exact .bind (.native define) fun _ => .pure _

end Rule

/-! ## Exceptions -/

namespace Eval

theorem IsOblivious.inScope (e : EnvId) {x : Run Completion} (hx : IsOblivious x) :
    IsOblivious (inScope e x) := by
  refine .look (fun m n same => by rw [Machine.lexicalEnv_eq same]) fun m => ?_
  exact .bind (.modify (.setLexicalEnv e)) fun _ => .ensuring hx (.setLexicalEnv m.lexicalEnv)

/-- A handler runs in a scope in which the exception is bound. -/
theorem isOblivious_handle (name : String) {body : Run Completion} (h : IsOblivious body)
    (thrown : Value) : IsOblivious (handle name body thrown) := by
  refine .complete (.look (fun m n same => by rw [Machine.lexicalEnv_eq same]) fun m => ?_)
  refine .bind (.lift (.createEnvironment _)) fun e => ?_
  have declares := declares_oblivious e
  refine .bind (.native (declares.createBinding name false)) fun _ => ?_
  exact .bind (.native (declares.setBinding name thrown)) fun _ => .lift (.inScope e h)

/-- Of the throws that are claimed it matters only whether there are any. -/
theorem isOblivious_handleThrows (mark : Nat) (c : Completion) {handler : Handling}
    (h : ∀ v, IsOblivious (handler.run v)) : IsOblivious (handleThrows mark c handler) := by
  refine .claim_bind (fun es es' same => by rw [same]) fun es => ?_
  split
  · exact h _
  · split
    · exact .bind (.ambiguously _ (h _)) fun _ => .pure _
    · exact .pure _

theorem isOblivious_finish (c : Completion) {finalizer : Run Completion}
    (h : IsOblivious finalizer) : IsOblivious (finish c finalizer) :=
  .bind .mark fun _ => .bind h fun _ =>
    .bind (.modify (.of_same (fun _ => rfl) fun _ => rfl)) fun _ => .pure _

/-- The size of the ledger is read only to be entered in the ledger. -/
theorem IsOblivious.guarded (handled : Bool) {block : Run Completion} (h : IsOblivious block) :
    IsOblivious (guarded handled block) := by
  have same (s : Setup) (m : Machine) : (Eval.guarded handled block).outcome s m =
      block.outcome s m := by
    show ((block >>= _).outcome s m) = _
    unfold outcome
    rw [bind_apply]
    cases block s m <;> rfl
  have obeys : Obeys (Eval.guarded handled block) := by
    refine .bind (.bind .get fun _ => .pure _) fun since => .bind h.toObeys fun c => ?_
    exact .bind (.modify fun _ => rfl) fun _ => .pure c
  exact ⟨obeys, fun s m n standing => by rw [same, same, h.alike s m n standing]⟩

/-! ## What is made of parts -/

/-- What is made of parts that look at no records looks at none. -/
theorem MadeSince.isOblivious {deletes : Prop} {S : Parts} {since : Option Nat} {α : Type}
    {x : Run α} (h : MadeSince deletes S since x)
    (parts : ∀ {α : Type} {x : Run α}, S α x → IsOblivious x) : IsOblivious x := by
  induction h with
  | part given => exact parts given
  | pure a => exact .pure a
  | throw e => exact .throw e
  | bind_of _ gives _ first rest => exact .bind_of first gives rest
  | look same _ rest =>
    exact .look (fun m n standing => same m n ⟨Machine.realm_eq standing,
      Machine.contexts_eq standing, Machine.exits_size_eq standing⟩) rest
  | options f => exact .setup fun part => by rw [part.options]
  | operation reads => exact .attempt reads.isOblivious
  | putValue r v => exact .attempt (Op.built_putValue r v).isOblivious
  | deleteReference =>
    exact .attempt (Rule.built_deleteReference _).isOblivious
  | reportError e => exact .reportError e
  | reportMaxIterations => exact .reportMaxIterations
  | markUnknown span => exact .markUnknown span
  | note c => exact .note c
  | takeLabels => exact .takeLabels
  | giveLabels f =>
    exact .modify (.of_eq (g := fun st => { st with labels := f st.labels }) (fun _ => rfl)
      fun _ => rfl)
  | createScript _ scope => exact isOblivious_createScript _ scope
  | createFunctionValue => exact isOblivious_createFunctionValue _
  | arrayLiteral _ elements => exact (Rule.isOblivious_arrayLiteral elements).run
  | objectLiteral _ definitions =>
    exact (Rule.isOblivious_objectLiteral fun p hp => ⟨definitions p hp⟩).run
  | ambiguously span _ made => exact .ambiguously span made
  | mark _ rest => exact .bind .mark rest
  | since _ made => exact made
  | claim _ same _ rest => exact .claim_bind same rest
  | ruled kind span _ made => exact .ruled kind span made
  | referring referred span _ made => exact (Rule.IsOblivious.referring referred span ⟨made⟩).run
  | malformed kind kind' span span' =>
    exact (Rule.isOblivious_referring_malformed kind kind' span span').run
  | handle _ name thrown made => exact isOblivious_handle name made thrown
  | handled _ _ made handler =>
    exact .bind .mark fun mark => .bind (.guarded true made) fun c =>
      isOblivious_handleThrows mark c handler
  | unguarded _ made => exact .guarded false made
  | finish c _ made => exact isOblivious_finish c made

end Eval

/-! ## Nodes and calls -/

/-- Statements look at no records if calls do not. -/
theorem Statement.isOblivious_runAll {call : ScriptCall} (calls : call.IsOblivious)
    (ss : List Statement) : Eval.IsOblivious (Step.runAll none (Statement.steps call ss)) := by
  have steps : ∀ step ∈ Statement.steps call ss, Made True call.Calls step.run :=
    Statement.made_steps ss (absurd trivial)
  exact (Step.made_runAll steps none).isOblivious calls.calls

/-- Calls are oblivious, however deep they are. -/
theorem Eval.isOblivious_callWithin (depth : Nat) : (callWithin depth).IsOblivious := by
  induction depth with
  | zero => exact fun _ _ _ _ => .bind .reportMaxRecursion fun _ => .pure _
  | succ depth ih =>
    exact fun f closure this arguments =>
      IsOblivious.callScript (Statement.isOblivious_runAll ih closure.code.body) f closure this
        arguments

end AbstractScript
