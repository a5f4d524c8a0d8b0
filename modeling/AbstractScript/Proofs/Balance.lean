import AbstractScript.Proofs.StepwiseRules

/-!
# Evaluation is balanced

Whatever a node does, and whether it completes or fails, the contexts afterwards are those before,
except that the running one may have returned in between; the rules in progress are those before;
the realm knows the ambiguity level; and the possible exits that were recorded before are still
there, in front of the new ones (`Node.evaluate_balanced`).
-/
namespace AbstractScript

open Eval

/-! ## Contexts -/

namespace ContextStack

/-- The same contexts, of which the running one may have returned. -/
def Kept (s t : ContextStack) : Prop := t = s ∨ t = s.markReturned

/-- A context returns at most once. -/
theorem markReturned_markReturned (s : ContextStack) :
    s.markReturned.markReturned = s.markReturned := by
  rcases s with ⟨_ | ⟨c, rest⟩⟩ <;> rfl

/-- Whether the running context has returned does not matter for entering a block. -/
theorem enterBlock_markReturned (s : ContextStack) :
    s.markReturned.enterBlock = s.enterBlock.markReturned := by
  rcases s with ⟨_ | ⟨c, rest⟩⟩ <;> rfl

/-- Nor for which context it is whose level is raised. -/
theorem enterIndex?_markReturned (s : ContextStack) :
    s.markReturned.enterIndex? = s.enterIndex? := by
  rcases s with ⟨_ | ⟨c, rest⟩⟩ <;> rfl

/-- Without a context to enter, entering a block changes nothing. -/
theorem enterBlock_eq_self {s : ContextStack} (h : s.enterIndex? = none) : s.enterBlock = s := by
  rcases s with ⟨_ | ⟨c, rest⟩⟩
  · rfl
  · cases h

/-- Nothing has changed. -/
theorem Kept.refl (s : ContextStack) : s.Kept s := .inl rfl

/-- The running context has returned. -/
theorem Kept.markReturned (s : ContextStack) : s.Kept s.markReturned := .inr rfl

/-- Further changes of the kind are still of the kind. -/
theorem Kept.trans {s t u : ContextStack} (h : s.Kept t) (h' : t.Kept u) : s.Kept u := by
  rcases h with rfl | rfl
  · exact h'
  · rcases h' with rfl | rfl
    · exact .inr rfl
    · exact .inr (markReturned_markReturned s)

/-- Contexts that are kept are in the same number of ambiguous blocks. -/
theorem Kept.depth_eq {s t : ContextStack} (h : s.Kept t) : t.depth = s.depth := by
  rcases h with rfl | rfl
  · rfl
  · rcases s with ⟨_ | ⟨c, rest⟩⟩ <;> rfl

/-- Contexts that are kept inside an ambiguous block are kept by the block. -/
theorem Kept.exitBlock {s t : ContextStack} {index : Nat} (entered : s.enterIndex? = some index)
    (h : s.enterBlock.Kept t) : s.Kept (t.exitBlock index) := by
  rcases h with rfl | rfl
  · exact .inl (exitBlock_enterBlock entered)
  · rw [← enterBlock_markReturned, exitBlock_enterBlock]
    · exact .inr rfl
    · rw [enterIndex?_markReturned, entered]

/-- Contexts that are kept below a new one are the same when it is left. -/
theorem Kept.pop {s t : ContextStack} {c : Context} (h : (s.push c).Kept t) : t.pop = s := by
  rcases h with rfl | rfl <;> rfl

/-- A scope that is left restores the environment it was entered from. -/
theorem Kept.setLexicalEnv {s t : ContextStack} {e outer : EnvId}
    (before : ∀ c, s.running? = some c → c.lexicalEnv = outer) (h : (s.setLexicalEnv e).Kept t) :
    s.Kept (t.setLexicalEnv outer) := by
  rcases s with ⟨_ | ⟨c, rest⟩⟩
  · rcases h with rfl | rfl <;> exact .inl rfl
  · have same : c.lexicalEnv = outer := before c rfl
    subst same
    rcases h with rfl | rfl
    · exact .inl rfl
    · exact .inr rfl

end ContextStack

/-! ## Balanced changes -/

namespace Machine

/-- What every evaluation leaves in place. -/
structure Balanced (m n : Machine) : Prop where
  /-- The same contexts, with the same functions, environments, receivers and ambiguous depths; only
  the running one may have returned. -/
  contexts : m.contexts.Kept n.contexts
  /-- The same rules are being evaluated. -/
  frames : n.frames = m.frames
  /-- The realm knows the total ambiguity of the contexts. -/
  level : n.realm.ambiguityLevel = n.contexts.level
  /-- The possible exits before come first, unchanged and in order. -/
  exits : m.exits.toList <+: n.exits.toList

/-- A balanced change under which objects and environments keep their nature, and what has been
recorded stays recorded. -/
structure Steady (m n : Machine) : Prop extends Balanced m n where
  grows : m.realm.Grows n.realm
  logs : m.Logs n

/-- Quiet changes keep all that a balanced evaluation keeps. -/
theorem Quiet.steady {m n : Machine} (h : m.Quiet n) : m.Steady n where
  contexts := .inl h.contexts
  frames := h.frames
  level := n.synced
  exits := h.exits ▸ List.prefix_refl _
  grows := h.grows
  logs := h.logs

/-- So do changes aside from the realm and the contexts. -/
theorem Aside.steady {m n : Machine} (h : m.Aside n) : m.Steady n := h.quiet.steady

instance : IsPreorder Machine Steady where
  refl m := (Aside.refl m).steady
  trans _ _ n h h' := {
    contexts := h.contexts.trans h'.contexts
    frames := h'.frames.trans h.frames
    level := n.synced
    exits := h.exits.trans h'.exits
    grows := h.grows.trans h'.grows
    logs := h.logs.trans h'.logs h'.grows }

/-- The level at which things are created does not matter to what is there. -/
theorem grows_withContexts (m : Machine) (s : ContextStack) :
    m.realm.Grows (m.withContexts s).realm where
  objects := Nat.le_refl _
  environments := Nat.le_refl _
  object := fun _ _ => .refl _
  environment := fun _ _ => .refl _

/-- Noting that the running context may have returned is the one change of contexts that is allowed.
-/
theorem Steady.markReturnUnknown (m : Machine) : m.Steady m.markReturnUnknown := by
  unfold Machine.markReturnUnknown
  split
  · exact ⟨⟨.refl _, rfl, rfl, List.prefix_refl _⟩, m.grows_withContexts _, .of_eq rfl rfl⟩
  · refine ⟨⟨.markReturned _, rfl, Machine.synced _, List.prefix_refl _⟩, ?_, .of_eq rfl rfl⟩
    exact (m.grows_withContexts _).trans (.modifyEnvironment _ _ fun _ => ⟨rfl, rfl, fun _ _ => .rfl⟩)

/-- Which functions were invoked is not part of the realm. -/
theorem realm_markInvoked (m : Machine) (f : ObjectId) : (m.markInvoked f).realm = m.realm := by
  unfold Machine.markInvoked
  split <;> rfl

/-- The functions themselves are not changed when one is marked as invoked. -/
theorem scripts_markInvoked (m : Machine) (f : ObjectId) :
    (m.markInvoked f).scripts = m.scripts := by
  unfold Machine.markInvoked
  split <;> rfl

/-- No report is made when a function is marked as invoked. -/
theorem diagnostics_markInvoked (m : Machine) (f : ObjectId) :
    (m.markInvoked f).diagnostics = m.diagnostics := by
  unfold Machine.markInvoked
  split <;> rfl

/-- So an invocation is noted without disturbing the balance. -/
theorem Steady.markInvoked (m : Machine) (f : ObjectId) : m.Steady (m.markInvoked f) := by
  unfold Machine.markInvoked
  split
  · exact refl m
  · exact ⟨⟨.refl _, rfl, m.synced, List.prefix_refl _⟩, .refl _, .of_eq rfl rfl⟩

/-- Events and the ledger are records aside. -/
theorem Steady.fire (m : Machine) (e : Event) : m.Steady (m.fire e) :=
  ⟨⟨.refl _, rfl, m.synced, List.prefix_refl _⟩, .refl _, .of_eq rfl rfl⟩

/-- An entry in the ledger of exits disturbs nothing. -/
theorem Steady.enterLedger (m : Machine) (p : Bool) (e : LedgerEntry) :
    m.Steady (m.enterLedger p e) :=
  ⟨⟨.refl _, rfl, m.synced, List.prefix_refl _⟩, .refl _, .of_eq rfl rfl⟩

/-- Neither does the flag that says whether moments are observed. -/
theorem Steady.watched (m : Machine) (observed : Bool) : m.Steady { m with observed } :=
  ⟨⟨.refl _, rfl, m.synced, List.prefix_refl _⟩, .refl _, .of_eq rfl rfl⟩

/-- A completion that is noted may become a possible exit behind those recorded before. -/
theorem Steady.noteExit (m : Machine) (c : Completion) : m.Steady (m.noteExit c) := by
  have recorded : m.Steady (m.addExit c) :=
    ⟨⟨.refl _, rfl, m.synced, by simp [addExit]⟩, .refl _, .of_eq rfl rfl⟩
  unfold Machine.noteExit
  split
  · exact refl m
  · exact .markReturnUnknown m
  · exact recorded
  · exact recorded
  · exact recorded

/-- A claim is about possible exits only. -/
theorem dropClaimed_unchanged (m : Machine) (mark : Nat) (p : Completion → Bool) :
    (m.dropClaimed mark p).contexts = m.contexts ∧ (m.dropClaimed mark p).frames = m.frames ∧
      (m.dropClaimed mark p).realm = m.realm ∧ (m.dropClaimed mark p).history = m.history := by
  unfold dropClaimed
  split <;> exact ⟨rfl, rfl, rfl, rfl⟩

/-- Claims of exits report nothing. -/
theorem diagnostics_dropClaimed (m : Machine) (mark : Nat) (p : Completion → Bool) :
    (m.dropClaimed mark p).diagnostics = m.diagnostics := by
  unfold dropClaimed
  split <;> rfl

/-- Claims leave what was logged before. -/
theorem Logs.dropClaimed {m n : Machine} (h : m.Logs n) (mark : Nat) (p : Completion → Bool) :
    m.Logs (n.dropClaimed mark p) := by
  unfold Machine.dropClaimed
  split
  · exact h
  · exact h.congr rfl rfl rfl rfl rfl

/-- A claim takes none of the possible exits from before its mark. -/
theorem Steady.dropClaimed {m n : Machine} (p : Completion → Bool) (h : m.Steady n) :
    m.Steady (n.dropClaimed m.exits.size p) := by
  obtain ⟨contexts, frames, realm, -⟩ := n.dropClaimed_unchanged m.exits.size p
  refine ⟨⟨contexts ▸ h.contexts, frames.trans h.frames, Machine.synced _, ?_⟩, realm ▸ h.grows,
    h.logs.dropClaimed ..⟩
  have front : n.exits.toList.take m.exits.size = m.exits.toList :=
    (List.prefix_iff_eq_take.1 h.exits).symm
  rw [exits_dropClaimed, front]
  exact List.prefix_append _ _

/-- A frame that is pushed before an evaluation and popped after it leaves the frames as they were.
-/
theorem Steady.popFrame {m n : Machine} {f : Frame} (h : (m.pushFrame f).Steady n) :
    m.Steady n.popFrame where
  contexts := h.contexts
  frames := congrArg List.tail h.frames
  level := n.synced
  exits := h.exits
  grows := h.grows
  logs := h.logs.congr rfl rfl rfl rfl rfl

/-- The level that a block raised is lowered again, and the realm is told so. -/
theorem Steady.exitBlock {m n : Machine} (h : m.enterBlock.Steady n) :
    m.Steady (n.exitBlock m.contexts.enterIndex?) := by
  have grows : m.realm.Grows n.realm := (m.grows_withContexts _).trans h.grows
  cases entered : m.contexts.enterIndex? with
  | none =>
    have contexts : m.contexts.Kept n.contexts := by
      have := h.contexts
      rwa [Machine.enterBlock, withContexts, ContextStack.enterBlock_eq_self entered] at this
    exact ⟨⟨contexts, h.frames, n.synced, h.exits⟩, grows, h.logs.congr rfl rfl rfl rfl rfl⟩
  | some index =>
    exact ⟨⟨h.contexts.exitBlock entered, h.frames, Machine.synced _, h.exits⟩,
      grows.trans (n.grows_withContexts _), h.logs.congr rfl rfl rfl rfl rfl⟩

/-- The history of a machine does not matter to what is there. -/
theorem Steady.recordPass {m n k : Machine} (h : m.Steady n) : m.Steady (k.recordPass n) :=
  ⟨⟨h.contexts, h.frames, h.level, h.exits⟩, h.grows, h.logs.congr rfl rfl rfl rfl rfl⟩

/-- The record of an overtaken completion disturbs nothing. -/
theorem Steady.recordOvertaken (m : Machine) (p : Bool) : m.Steady (m.recordOvertaken p) :=
  ⟨⟨.refl _, rfl, m.synced, List.prefix_refl _⟩, .refl _, .of_eq rfl rfl⟩

/-- A call is left with the contexts from before it. Of its possible exits only throws are kept. -/
theorem Steady.popContext {m n : Machine} {c : Context} (p : Completion → Bool)
    (h : (m.pushContext c).Steady n) : m.Steady (n.popContext.dropClaimed m.exits.size p) := by
  refine Steady.dropClaimed p ⟨⟨.inl h.contexts.pop, h.frames, Machine.synced _, h.exits⟩, ?_,
    h.logs.congr rfl rfl rfl rfl rfl⟩
  exact ((m.grows_withContexts _).trans h.grows).trans (n.grows_withContexts _)

/-- The environment that a scope replaced is put back. -/
theorem Steady.setLexicalEnv {m n : Machine} {e : EnvId} (h : (m.setLexicalEnv e).Steady n) :
    m.Steady (n.setLexicalEnv m.lexicalEnv) where
  contexts := h.contexts.setLexicalEnv fun c running => by simp [lexicalEnv, running]
  frames := h.frames
  level := Machine.synced _
  exits := h.exits
  grows := h.grows
  logs := h.logs.congr rfl rfl rfl rfl rfl

end Machine

/-! ## Every node -/

namespace Eval

open Machine

/-- Quiet computations are steady. -/
theorem IsQuiet.steady {ε α : Type} {x : Eval ε α} (h : IsQuiet x) : Keeps Steady x :=
  h.mono fun _ _ => Quiet.steady

/-- To note a moment is steady. -/
theorem steady_watch {ε : Type} : Keeps Steady (watch : Eval ε Unit) :=
  .bind (.setup _) fun observed => .modify fun m => .watched m observed

instance : Reading Steady where
  aside := Aside.steady
  addObject m record _ :=
    Quiet.steady ⟨rfl, rfl, rfl, rfl, .addObject m.realm record, .of_eq rfl rfl, .of_eq⟩
  native := fun _ this arguments _ => ((QuietNatives.call _ this arguments).after _ _).steady

instance (o : ObjectId) : Changing o Steady := ⟨fun m _ h => (Quiet.modifyObject m o h).steady⟩

end Eval

namespace Rule

variable {R : Bool → Machine → Machine → Prop} [Composes R] [Reading (R true)]
  [∀ o, Defining o (R true)]

/-- An array literal keeps what each of its elements keeps. -/
theorem keeps_arrayLiteral {xs : List (Option (Run Completion))}
    (h : ∀ x, some x ∈ xs → Eval.KeepsBy R x) : KeepsBy R (arrayLiteral xs) := by
  refine .bind (keeps_elements h) fun vs => .bind (.lift (.of_keeps (keeps_createArray _))) fun o => ?_
  refine .bind (.forM fun name _ => ?_) fun _ => .pure _
  exact .bind (keeps_native (Op.built_delete ..).keeps) fun _ => .pure _

/-- An object literal keeps what each of its properties keeps. -/
theorem keeps_objectLiteral {ps : List Property} (h : ∀ p ∈ ps, KeepsBy R p.2) :
    KeepsBy R (objectLiteral ps) := by
  refine .bind (.lift (.of_keeps keeps_createPlain)) fun o => .bind (.forM fun p hp => ?_) fun _ => .pure _
  refine .bind (h p hp) fun d => ?_
  exact .bind (keeps_native (Op.built_define ..).keeps) fun _ => .pure _

end Rule

namespace Eval

open Machine

/-- A scope keeps the balance of what runs in it. -/
theorem steady_inScope (e : EnvId) {x : Run Completion} (h : Keeps Steady x) :
    Keeps Steady (inScope e x) where
  after s m := by
    unfold inScope
    rw [after_bind_ok (get_apply ..), after_bind_ok (modify_apply ..), after_ensuring]
    exact (h.after s (m.setLexicalEnv e)).setLexicalEnv

/-- So does the handler of a `try` statement. -/
theorem steady_handle (name : String) {body : Run Completion} (h : Keeps Steady body)
    (thrown : Value) : Keeps Steady (handle name body thrown) := by
  refine Rule.KeepsBy.complete (.bind .get fun m => ?_)
  refine .bind (.lift (isQuiet_createEnvironment _).steady) fun e => ?_
  refine .bind (Rule.keeps_native (Op.isQuiet_createBinding ..).steady) fun _ => ?_
  refine .bind (Rule.keeps_native (Op.isQuiet_setBinding ..).steady) fun _ => ?_
  exact .lift (steady_inScope e h)

/-- A context that is opened for a computation is closed after it, whatever its outcome. -/
theorem steady_inContext {α : Type} (c : Context) {x : Run α} (h : Keeps Steady x) :
    Keeps Steady (inContext c x) where
  after s m := by
    unfold inContext
    rw [after_bind_ok (x := mark) (a := m.exits.size) (n := m) rfl,
      after_bind_ok (modify_apply ..), after_ensuring]
    exact (h.after s (m.pushContext c)).popContext _

/-- The entry into a body creates bindings and is otherwise quiet. -/
theorem isQuiet_enterBody (code : FunctionCode) (e : EnvId) (arguments : List Value) :
    IsQuiet (enterBody code e arguments) := by
  have bound (o : ObjectId) : IsQuiet (do
      Op.bindParameters e code.parameters arguments
      Op.instantiate e code.body (some o)) :=
    .bind (Op.isQuiet_bindParameters ..) fun _ => Op.isQuiet_instantiate ..
  refine .bind (isQuiet_create _) fun o => .bind (.attempt (bound o)) fun result => ?_
  split
  · exact .pure _
  · exact .aside (reportError_keeps _)

/-- So it is steady. -/
theorem steady_enterBody (code : FunctionCode) (e : EnvId) (arguments : List Value) :
    Keeps Steady (enterBody code e arguments) :=
  (isQuiet_enterBody ..).steady

/-- A call opens one context, enters the body, runs it and closes the context. -/
theorem steady_callScript {body : Run Completion} (h : Keeps Steady body) (f : ObjectId)
    (closure : Closure) (this : Value) (arguments : List Value) :
    Keeps Steady (callScript body f closure this arguments) := by
  refine .bind (keeps_scriptReceiver this) fun receiver => ?_
  refine .bind (isQuiet_createEnvironment _).steady fun e => steady_inContext _ ?_
  exact .bind (steady_enterBody ..) fun _ => .bind h fun c => .bind .get fun _ => .pure _

instance : Stepwise True fun _ => Steady where
  leave := leave_of Steady.fire Steady.popFrame
  abandon := abandon_of Steady.fire Steady.popFrame
  markInvoked := Steady.markInvoked
  pass h := h.exitBlock.recordPass
  note := Steady.noteExit
  claim _ h := h.dropClaimed _
  handled h := (IsTrans.trans _ _ _ h (Steady.enterLedger ..)).dropClaimed _
  overtaken := Steady.recordOvertaken
  construct := fun _ _ _ => ((Native.isQuiet_callWithin ..).after _ _).steady
  closure _ := .inl fun h => absurd trivial h
  script _ h f this arguments := steady_callScript h f _ this arguments
  handle h name thrown := steady_handle name h thrown
  createScript _ scope := (isQuiet_createScript _ scope).steady
  functionValue _ := (isQuiet_createFunctionValue _).steady
  arrayLiteral := Rule.keeps_arrayLiteral
  objectLiteral := Rule.keeps_objectLiteral
  putValue r v := (Op.isQuiet_putValue r v).steady
  deleteReference _ := (Rule.isQuiet_deleteReference _).steady

end Eval

/-- A node of a syntax tree that is evaluated by a rule. -/
inductive Node where
  | program (p : Program)
  | statement (s : Statement)
  | expression (x : Expression)

/-- Evaluates a node by its rule. -/
def Node.evaluate (call : ScriptCall) : Node → Run Completion
  | program p => p.evaluate
  | statement s => s.evaluate call
  | expression x => x.evaluate call

/-- The entry into a program declares its names and is otherwise quiet. -/
theorem Eval.isQuiet_enterProgram (body : List Statement) : IsQuiet (enterProgram body) := by
  refine .bind .get fun m => .bind (.attempt (Op.isQuiet_instantiate ..)) fun result => ?_
  split
  · exact .pure _
  · exact .aside (reportError_keeps _)

/-- A whole program leaves the contexts, frames and levels with which it began. -/
theorem Program.steady_evaluate (p : Program) : Keeps Machine.Steady p.evaluate := by
  refine keeps_ruled _ _ ⟨fun s m =>
    runProgram_at (R := fun _ => Machine.Steady) ?_ fun h => absurd trivial h⟩
  exact (isQuiet_enterProgram p.body).steady.after s m

/-- **Evaluation is balanced.** Every node, evaluated in any machine with any number of calls left,
leaves a balanced machine, whether it completes or fails. -/
theorem Node.evaluate_balanced (node : Node) (depth : Nat) (s : Setup) (m : Machine) :
    m.Balanced ((node.evaluate (callWithin depth)).after s m) := by
  have all (h : Keeps Machine.Steady (node.evaluate (callWithin depth))) :
      m.Balanced ((node.evaluate (callWithin depth)).after s m) := (h.after s m).toBalanced
  have calls : (callWithin depth).Keeps fun _ => Machine.Steady := callWithin_keeps depth
  refine all ?_
  cases node with
  | program p => exact p.steady_evaluate
  | statement st => exact Statement.keeps_evaluate calls st fun h => absurd trivial h
  | expression x => exact Expression.keeps_evaluate calls x fun h => absurd trivial h

end AbstractScript
