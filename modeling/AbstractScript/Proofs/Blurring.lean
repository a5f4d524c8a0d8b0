import AbstractScript.Proofs.FrameLaw

/-!
# Blurred bindings

Native functions change objects, but they do not change the bindings of environments. So whatever
functions there are, what may or may not happen at most *blurs* the bindings from before: those that
cannot be deleted stay as they are or become unknown (`Realm.Blurred`). A change *blurs* a machine if
it does so below the ambiguity level, and adds only blurring passes to the history.
-/
namespace AbstractScript

open Eval Machine

/-! ## Blurred environments and realms -/

/-- All bindings that cannot be deleted are as before or unknown. -/
def Environment.Blurred (e e' : Environment) : Prop :=
  ∀ b, e.store = .own b → ∃ b', e'.store = .own b' ∧
    ∀ name x, b.table.get? name = some x → x.deletable = false →
      ∃ x', b'.table.get? name = some x' ∧ x.Weakened x'

/-- The environments from before that were created at a level or below are at most blurred. -/
def Realm.Blurred (level : Nat) (r r' : Realm) : Prop :=
  ∀ e, e.index < r.environments.size → (r.environment e).createdLevel ≤ level →
    (r.environment e).Blurred (r'.environment e)

/-- A binding that is weakened can be deleted as little or as much as before. -/
theorem Binding.Weakened.deletable {x x' : Binding} (h : x.Weakened x') :
    x'.deletable = x.deletable := by
  rcases h with rfl | rfl <;> rfl

namespace Environment

/-- An environment is at most blurred when it is left alone. -/
theorem Blurred.refl (e : Environment) : e.Blurred e :=
  fun b own => ⟨b, own, fun _ x found _ => ⟨x, found, .refl x⟩⟩

/-- Blurred twice is still blurred. -/
theorem Blurred.trans {e e' e'' : Environment} (h : e.Blurred e') (h' : e'.Blurred e'') :
    e.Blurred e'' := by
  intro b own
  obtain ⟨b', own', kept⟩ := h b own
  obtain ⟨b'', own'', kept'⟩ := h' b' own'
  refine ⟨b'', own'', fun name x found lasting => ?_⟩
  obtain ⟨x', found', weakened⟩ := kept name x found lasting
  obtain ⟨x'', found'', weakened'⟩ := kept' name x' found' (weakened.deletable.trans lasting)
  exact ⟨x'', found'', weakened.trans weakened'⟩

/-- What weakens an environment blurs it. -/
theorem Weakened.blurred {e e' : Environment} (h : e.Weakened e') : e.Blurred e' := by
  intro b own
  simp only [Weakened, own] at h
  obtain ⟨b', own', kept⟩ := h
  exact ⟨b', own', fun name x found _ => kept name x found⟩

/-- Only bindings that can be deleted are removed. -/
theorem blurred_delete (e : Environment) (name : String) : e.Blurred (match e.store with
    | .own bindings => { e with store := .own (bindings.delete name).1 }
    | .properties .. => e) := by
  intro b own
  simp only [own]
  refine ⟨_, rfl, fun other x found lasting => ⟨x, ?_, .refl x⟩⟩
  unfold Bindings.delete
  split
  next => exact found
  next binding there =>
    split
    next deletable =>
      -- the binding that is removed can be deleted, so it is another one
      have ne : other ≠ name := by
        rintro rfl
        obtain rfl : binding = x := Option.some.inj (there.symm.trans found)
        rw [lasting] at deletable
        cases deletable
      show (b.table.erase name).get? other = some x
      rw [Table.get?_erase, if_neg ne, found]
    next => exact found

end Environment

namespace Realm.Blurred

variable {level : Nat} {a b c : Realm}

/-- A realm is at most blurred when it is left alone. -/
theorem refl (level : Nat) (r : Realm) : r.Blurred level r := fun _ _ _ => .refl _

/-- Blurred twice is still blurred, as no environment from before is lost in between. -/
theorem trans (grows : a.Grows b) (h : a.Blurred level b) (h' : b.Blurred level c) :
    a.Blurred level c := fun e there created =>
  (h e there created).trans (h' e (Nat.lt_of_lt_of_le there grows.environments)
    (Nat.le_trans (Nat.le_of_eq (grows.environment e there).createdLevel) created))

/-- A new environment blurs none of those from before. -/
theorem addEnvironment (h : a.Blurred level b) (grows : a.Grows b) (new : Environment) :
    a.Blurred level (b.addEnvironment new) := by
  intro e there created
  rw [environment_addEnvironment, if_neg]
  · exact h e there created
  · rintro rfl
    exact absurd there (Nat.not_lt.2 grows.environments)

/-- An environment that was there before has to be blurred; any other one may change. -/
theorem modifyEnvironment (h : a.Blurred level b) {e : EnvId} {f : Environment → Environment}
    (blurred : e.index < a.environments.size → (a.environment e).createdLevel ≤ level →
      (b.environment e).Blurred (f (b.environment e))) :
    a.Blurred level (b.modifyEnvironment e f) := by
  intro other there created
  rw [environment_modifyEnvironment]
  split
  next same =>
    obtain ⟨rfl, -⟩ := same
    exact (h other there created).trans (blurred there created)
  next => exact h other there created

end Realm.Blurred

/-! ## Blurring changes of machines -/

namespace Machine

/-- What a blurring change of a machine with a running context leaves. -/
structure Blurring (m n : Machine) : Prop where
  contexts : m.contexts.Kept n.contexts
  grows : m.realm.Grows n.realm
  blurred : ∀ level < m.level, m.realm.Blurred level n.realm
  /-- What was added to the history are later blurring passes. -/
  history : ∀ before level after, n.history.passed before level after →
    m.history.passed before level after ∨ m.realm.Grows before ∧ before.Blurred level after

/-- A blurring change; changes of a machine without a context are of no interest. -/
def Blurs (m n : Machine) : Prop := m.contexts.isEmpty = false → m.Blurring n

variable {m n k : Machine}

/-- To do nothing blurs nothing. -/
theorem Blurring.refl (m : Machine) : m.Blurring m where
  contexts := .refl _
  grows := .refl _
  blurred := fun _ _ => .refl _ _
  history := fun _ _ _ => .inl

/-- Changes that blur one after the other blur together. -/
theorem Blurring.trans (h : m.Blurring n) (h' : n.Blurring k) : m.Blurring k where
  contexts := h.contexts.trans h'.contexts
  grows := h.grows.trans h'.grows
  blurred := fun level lt => (h.blurred level lt).trans h.grows
    (h'.blurred level (Nat.lt_of_lt_of_le lt h.contexts.level_le))
  history := fun before level after passed => by
    rcases h'.history before level after passed with earlier | ⟨later, blurred⟩
    · exact h.history before level after earlier
    · exact .inr ⟨h.grows.trans later, blurred⟩

instance : IsPreorder Machine Blurs where
  refl m _ := .refl m
  trans _ _ _ h h' running := (h running).trans (h' ((h running).contexts.running running))

namespace Blurs

/-- Only contexts, environments and passes have to do with blurring. -/
theorem congr (h : m.Blurs n) (contexts : k.contexts = n.contexts)
    (passed : k.history.passed = n.history.passed) (grows : n.realm.Grows k.realm)
    (same : ∀ e, k.realm.environment e = n.realm.environment e) : m.Blurs k := fun running =>
  have h := h running
  { contexts := contexts ▸ h.contexts
    grows := h.grows.trans grows
    blurred := fun level lt e there created => by
      rw [same]
      exact h.blurred level lt e there created
    history := passed ▸ h.history }

/-- Records that no evaluation reads play no part. -/
theorem of_aside (h : m.Aside n) : m.Blurs n :=
  (refl m : m.Blurs m).congr h.contexts (congrArg History.passed h.history) (h.realm ▸ .refl _)
    fun _ => by rw [h.realm]

/-- Neither do new objects. -/
theorem addObject (m : Machine) (record : ObjectRecord) : m.Blurs (m.addObject record) :=
  (refl m : m.Blurs m).congr rfl rfl (.addObject _ _) fun _ => rfl

/-- Changes of objects leave the bindings alone. -/
theorem modifyObject (m : Machine) (o : ObjectId) {f : ObjectRecord → ObjectRecord}
    (alike : ∀ record : ObjectRecord, record.Alike (f record)) : m.Blurs (m.modifyObject o f) :=
  (refl m : m.Blurs m).congr rfl rfl (.modifyObject _ _ alike) fun _ => rfl

/-- A new environment leaves those from before alone. -/
theorem addEnvironment (m : Machine) (e : Environment) : m.Blurs (m.addEnvironment e) :=
  fun _ =>
  { contexts := .refl _
    grows := .addEnvironment _ _
    blurred := fun level _ => (Realm.Blurred.refl level m.realm).addEnvironment (.refl _) e
    history := fun _ _ _ => .inl }

/-- An environment may be changed if one from a lower level is at most blurred by it. -/
theorem modifyEnvironment (h : m.Blurs n) {e : EnvId} {f : Environment → Environment}
    (alike : ∀ env : Environment, env.Alike (f env))
    (blurred : ∀ level < m.level, e.index < m.realm.environments.size →
      (m.realm.environment e).createdLevel ≤ level →
      (n.realm.environment e).Blurred (f (n.realm.environment e))) :
    m.Blurs (n.modifyEnvironment e f) := fun running =>
  have h := h running
  { contexts := h.contexts
    grows := h.grows.trans (.modifyEnvironment _ _ alike)
    blurred := fun level lt => (h.blurred level lt).modifyEnvironment (blurred level lt)
    history := h.history }

/-- The contexts may be marked as returned. -/
theorem withContexts (m : Machine) {s : ContextStack} (kept : m.contexts.Kept s) :
    m.Blurs (m.withContexts s) := fun _ =>
  { contexts := kept
    grows := m.grows_withContexts s
    blurred := fun _ _ _ _ _ => .refl _
    history := fun _ _ _ => .inl }

/-- So the running one may be. -/
theorem markReturnUnknown (m : Machine) : m.Blurs m.markReturnUnknown := by
  unfold Machine.markReturnUnknown
  split
  · exact withContexts m (.refl _)
  · refine (withContexts m (.markReturned _)).modifyEnvironment ?_ fun _ _ _ _ => ?_
    · exact fun env => ⟨rfl, rfl, fun _ _ => .rfl⟩
    · exact Environment.Blurred.refl _

/-- A completion that is noted becomes a possible exit at most. -/
theorem noteExit (m : Machine) (c : Completion) : m.Blurs (m.noteExit c) := by
  unfold Machine.noteExit
  split
  · exact refl m
  · exact markReturnUnknown m
  all_goals exact (refl m : m.Blurs m).congr rfl rfl (.refl _) fun _ => rfl

/-- Claims of possible exits change no binding. -/
theorem dropClaimed (h : m.Blurs n) (mark : Nat) (p : Completion → Bool) :
    m.Blurs (n.dropClaimed mark p) := by
  obtain ⟨contexts, -, realm, history⟩ := n.dropClaimed_unchanged mark p
  exact h.congr contexts (congrArg History.passed history) (realm ▸ .refl _) fun _ => by rw [realm]

/-- What blurs a machine in an ambiguous block is a blurring pass. -/
theorem recordPass (h : m.enterBlock.Blurs n) :
    m.Blurs (m.recordPass (n.exitBlock m.contexts.enterIndex?)) := by
  intro running
  obtain ⟨index, entered⟩ := ContextStack.enterIndex?_of_running running
  have level : m.enterBlock.level = m.level + 1 := ContextStack.level_enterBlock running
  have h := h (ContextStack.running_enterBlock running)
  have blurred (l : Nat) (le : l ≤ m.level) : m.realm.Blurred l n.realm :=
    h.blurred l (level ▸ Nat.lt_succ_of_le le)
  rw [entered]
  exact
    { contexts := h.contexts.exitBlock entered
      grows := ((m.grows_withContexts _).trans h.grows).trans (n.grows_withContexts _)
      blurred := fun l lt => blurred l (Nat.le_of_lt lt)
      history := fun before l after passed => by
        rcases passed with earlier | ⟨rfl, rfl, rfl⟩
        · exact (h.history before l after earlier).imp_right fun ⟨later, blurred⟩ =>
            ⟨(m.grows_withContexts _).trans later, blurred⟩
        · exact .inr ⟨.refl _, blurred m.level (Nat.le_refl _)⟩ }

/-- What blurs a machine in another context of the same level blurs it without the context. -/
theorem popContext {c : Context} (unambiguous : c.ambiguity = 0) (h : (m.pushContext c).Blurs n) :
    m.Blurs n.popContext := by
  intro _
  have level : (m.pushContext c).level = m.level := by
    show c.ambiguity + m.level = m.level
    rw [unambiguous, Nat.zero_add]
  have h := h rfl
  exact
    { contexts := .inl h.contexts.pop
      grows := ((m.grows_withContexts _).trans h.grows).trans (n.grows_withContexts _)
      blurred := fun l lt => h.blurred l (level ▸ lt)
      history := fun before l after passed =>
        (h.history before l after passed).imp_right fun ⟨later, blurred⟩ =>
          ⟨(m.grows_withContexts _).trans later, blurred⟩ }

/-- The scope that is left is put back, which changes no binding. -/
theorem setLexicalEnv {e : EnvId} (h : (m.setLexicalEnv e).Blurs n) :
    m.Blurs (n.setLexicalEnv m.lexicalEnv) := by
  intro running
  have h := h (ContextStack.running_setLexicalEnv running)
  have level : (m.setLexicalEnv e).level = m.level := ContextStack.level_setLexicalEnv ..
  exact
    { contexts := h.contexts.setLexicalEnv fun c running => by simp [lexicalEnv, running]
      grows := h.grows
      blurred := fun l lt => h.blurred l (level ▸ lt)
      history := h.history }

end Blurs

end Machine

/-! ## Every rule -/

instance (o : ObjectId) : Changing o Blurs := ⟨fun m _ alike => .modifyObject m o alike⟩

/-- A native function changes objects only. -/
theorem Native.blurs_callWithin (depth : Nat) (f : Native) (this : Value) (arguments : List Value) :
    Keeps Blurs (callWithin depth f this arguments) :=
  keeps_callWithin Blurs.of_aside (fun m record _ => .addObject m record)
    (fun m _ _ _ => (refl m : m.Blurs m).congr rfl rfl (.refl _) fun _ => rfl) depth f this arguments

instance : Reading Blurs where
  aside := Blurs.of_aside
  addObject m record _ := .addObject m record
  native _ this arguments _ := (Native.blurs_callWithin _ _ this arguments).after _ _

namespace Op

/-- The bindings of a free environment can be changed. -/
theorem blurs_modifyBindings {ε : Type} {m : Machine} {e : EnvId} (free : m.IsFreeEnv e)
    (f : Bindings → Bindings) : KeepsSince Blurs m (modifyBindings e f : Eval ε Unit) := by
  refine .modify fun k hk => hk.modifyEnvironment (alike_withBindings f) fun level lt _ created => ?_
  -- outside of all blocks nothing is below the level; else the environment is too young to matter
  rcases free with zero | ⟨-, bound, -⟩
  · exact absurd lt (zero ▸ Nat.not_lt_zero _)
  · exact absurd (Nat.le_trans bound created) (Nat.not_le.2 lt)

/-- A new binding in an environment of the level itself is free of the law. -/
theorem blurs_createBinding {m : Machine} {e : EnvId} (free : m.IsFreeEnv e) (name : String)
    (deletable : Bool) : KeepsSince Blurs m (createBinding e name deletable) := by
  refine .bind (.bind .get fun _ => .pure _) fun env => ?_
  split
  · exact blurs_modifyBindings free _
  · exact .bind ((built_define ..).keeps.since m) fun _ => .pure _

/-- An assignment to a binding stores an unknown value, if it may or may not happen. -/
theorem blurs_setBinding (e : EnvId) (name : String) (v : Value) :
    Keeps Blurs (setBinding e name v) where
  after s m := by
    rw [setBinding, after_bind_ok (environment_apply ..), after_bind_ok (weaken_apply ..),
      after_bind_ok (environment_apply ..)]
    split
    next b own =>
      split
      · refine (refl m : m.Blurs m).modifyEnvironment (alike_withBindings _)
          fun level lt _ created => ?_
        have ambiguous : m.isAmbiguousWrite (m.realm.environment e).createdLevel = true :=
          decide_eq_true (Nat.lt_of_le_of_lt created lt)
        simp only [own, if_pos ambiguous]
        exact (Environment.weakened_assign own name).blurred
      · exact (Keeps.throw _).after s m
    next => exact (built_put ..).keeps.after s m

/-- Only a binding that can be deleted is lost. -/
theorem blurs_deleteBinding (e : EnvId) (name : String) :
    Keeps Blurs (deleteBinding e name) := by
  refine .bind (.bind .get fun _ => .pure _) fun env => ?_
  split
  · refine .bind (.modify fun m => ?_) fun _ => .pure _
    exact (refl m : m.Blurs m).modifyEnvironment (alike_withBindings _) fun _ _ _ _ =>
      Environment.blurred_delete _ name
  · exact (built_delete ..).keeps

/-- A write through a reference weakens the binding or changes an object. -/
theorem blurs_putValue (r : Reference) (v : Value) : Keeps Blurs (putValue r v) := by
  unfold putValue
  split
  · exact (built_put ..).keeps
  · exact blurs_setBinding ..
  · exact (built_put ..).keeps
  · exact .throw _
  · exact .throw _
  · exact .pure _
  · exact .pure _

end Op

/-- A function that is created is a new object. -/
theorem Eval.blurs_createScript {ε : Type} (code : FunctionCode) (scope : EnvId) :
    Keeps Blurs (createScript code scope : Eval ε ObjectId) := by
  refine .bind (.modifyGet fun m => .addObject m _) fun f => .bind keeps_createPlain fun o => ?_
  refine .bind (keeps_modifyObject fun r => ?_) fun _ => ?_
  · exact (ObjectRecord.Alike.store ..).trans (.store ..)
  refine .bind (keeps_modifyObject fun r => .store ..) fun _ => ?_
  exact .bind (.modify fun m => (refl m : m.Blurs m).congr rfl rfl (.refl _) fun _ => rfl) fun _ =>
    .pure _

/-- What a reference refers to is deleted if it can be. -/
theorem Rule.blurs_deleteReference (r : Reference) : Eval.Keeps Blurs (deleteReference r) := by
  unfold deleteReference
  split
  · exact .pure _
  · exact .pure _
  · exact .pure _
  · exact (built_deleteProperty ..).keeps
  · exact .pure _
  · exact .bind (Op.blurs_deleteBinding ..) fun _ => .pure _

instance : Entering True Blurs where
  addEnvironment := Blurs.addEnvironment
  modifyBindings := Op.blurs_modifyBindings
  createBinding := Op.blurs_createBinding
  setBinding := Op.blurs_setBinding
  createScript _ := blurs_createScript _
  dropClaimed := Blurs.dropClaimed
  popContext := Blurs.popContext
  setLexicalEnv := Blurs.setLexicalEnv

/-- An event changes no binding. -/
theorem Machine.Blurs.fire (m : Machine) (e : Event) : m.Blurs (m.fire e) :=
  (refl m : m.Blurs m).congr rfl rfl (.refl _) fun _ => rfl

/-- The rules in progress change no binding. -/
theorem Machine.Blurs.popFrame {m n : Machine} {f : Frame} (h : (m.pushFrame f).Blurs n) :
    m.Blurs n.popFrame := fun running =>
  have h := h running
  ⟨h.contexts, h.grows, h.blurred, h.history⟩

instance : Stepwise True fun _ => Blurs where
  leave := leave_of Blurs.fire Blurs.popFrame
  abandon := abandon_of Blurs.fire Blurs.popFrame
  markInvoked m f := by
    unfold Machine.markInvoked
    split
    · exact refl m
    · exact (refl m : m.Blurs m).congr rfl rfl (.refl _) fun _ => rfl
  pass := Blurs.recordPass
  note := Blurs.noteExit
  claim _ h := h.dropClaimed _ _
  handled {m n} h :=
    have closed : m.Blurs (n.enterLedger true _) := Blurs.congr h rfl rfl (.refl _) fun _ => rfl
    closed.dropClaimed _ _
  overtaken m _ := (refl m : m.Blurs m).congr rfl rfl (.refl _) fun _ => rfl
  construct _ arguments _ := (Native.blurs_callWithin _ _ .undefined arguments).after _ _
  closure _ := .inl fun no => absurd trivial no
  script names h f this arguments := keeps_callScript names h f this arguments
  handle h name thrown := keeps_handle name h thrown
  createScript _ := blurs_createScript _
  functionValue names := keeps_createFunctionValue names
  arrayLiteral := Rule.keeps_arrayLiteral
  objectLiteral := Rule.keeps_objectLiteral
  putValue := Op.blurs_putValue
  deleteReference _ := Rule.blurs_deleteReference _

end AbstractScript
