import AbstractScript.Proofs.Framing

/-!
# Operations frame machines

Every write goes through the weakening: an assignment to a property or a binding that may or may not
happen stores an unknown value, and keeps the attributes (`Op.frames_put`, `Op.frames_setBinding`).
What defines, deletes or binds without weakening does so to free objects and environments only.
-/
namespace AbstractScript

open Eval Machine

instance : Reading Frames where
  aside := Frames.of_aside
  addObject m _ new := (refl m : m.Frames m).addObject (.of_not_callable new.callable)
  native {_ _ f _ _ _} found _ _ _ := fun tame =>
    nomatch ((tame.realm f).native _ _ _ found).1

/-! ## Free objects and environments -/

namespace Machine

/-- An object that was created at the ambiguity level, or is not there yet. -/
def IsFree (m : Machine) (o : ObjectId) : Prop :=
  o.index < m.realm.objects.size → m.level ≤ (m.realm.object o).createdLevel

/-- An environment with bindings of its own that was created at the ambiguity level. Where nothing
is ambiguous, every environment is free. -/
def IsFreeEnv (m : Machine) (e : EnvId) : Prop :=
  m.level = 0 ∨ e.index < m.realm.environments.size ∧
    m.level ≤ (m.realm.environment e).createdLevel ∧
    ∀ o receiver, (m.realm.environment e).store ≠ .properties o receiver

variable {m : Machine}

theorem IsFree.of_level_eq_zero (h : m.level = 0) (o : ObjectId) : m.IsFree o :=
  fun _ => h ▸ Nat.zero_le _

/-- An object that is written to for certain is free. -/
theorem IsFree.of_not_isAmbiguousWrite {o : ObjectId}
    (h : ¬ m.isAmbiguousWrite (m.realm.object o).createdLevel = true) : m.IsFree o :=
  fun _ => Nat.not_lt.1 fun lt => h (decide_eq_true lt)

theorem IsFree.of_size_le {o : ObjectId} (new : m.realm.objects.size ≤ o.index) : m.IsFree o :=
  fun there => absurd there (Nat.not_lt.2 new)

/-- An environment that was just created is free. -/
theorem IsFreeEnv.next (m : Machine) (outer : Option EnvId) :
    (m.addEnvironment { Environment.fresh outer with createdLevel := m.realm.ambiguityLevel }
      ).IsFreeEnv m.realm.nextEnvironment := by
  have found : (m.realm.addEnvironment { Environment.fresh outer with
      createdLevel := m.realm.ambiguityLevel }).environment m.realm.nextEnvironment =
      { Environment.fresh outer with createdLevel := m.realm.ambiguityLevel } := by
    rw [Realm.environment_addEnvironment, if_pos rfl]
  refine .inr ⟨by simp [addEnvironment, Realm.addEnvironment, Realm.nextEnvironment], ?_, ?_⟩
  · rw [addEnvironment, found]
    exact Nat.le_of_eq m.synced.symm
  · rw [addEnvironment, found]
    exact fun o receiver => by simp [Environment.fresh]

/-- A new context in which nothing is ambiguous has no influence on what is free. -/
theorem IsFreeEnv.pushContext {e : EnvId} (free : m.IsFreeEnv e) (f : Option ObjectId)
    (env : EnvId) (this : Value) : (m.pushContext (.enter f env this)).IsFreeEnv e := by
  have level : (m.pushContext (.enter f env this)).level = m.level := Nat.zero_add _
  rw [IsFreeEnv, level]
  exact free

/-- Any change of a free object frames a machine. -/
theorem IsFree.changing {o : ObjectId} (free : m.IsFree o) : Changing o (Since Frames m) :=
  ⟨fun _ _ alike h => h.modifyObject alike fun _ lt ho created =>
    absurd (Nat.le_trans (free ho) created) (Nat.not_le.2 lt)⟩

end Machine

namespace Op

variable {m : Machine} {o : ObjectId}

theorem frames_delete (free : m.IsFree o) (name : String) (strict : Bool) :
    KeepsSince Frames m (delete o name strict) :=
  have := free.changing
  (built_delete name strict).keeps

theorem frames_define (free : m.IsFree o) (name : String) (d : Definition) (strict : Bool) :
    KeepsSince Frames m (define o name d strict) :=
  have := free.changing
  (built_define name d strict).keeps

/-! ## Assignments to properties -/

end Op

namespace ObjectRecord

/-- Storing the length of an array weakens it, if it was known. -/
theorem IsLength.weakened {r : ObjectRecord} {name : String} (h : r.IsLength name)
    (d : Descriptor) : r.Weakened (r.store name d) := by
  refine .store (fun _ _ => .inr h) fun absent => ?_
  obtain ⟨-, -, x, w, e, c, own⟩ := h
  rw [own] at absent
  cases absent

/-- Storing another property leaves the length of an array as it is. -/
theorem IsLength.store {r : ObjectRecord} {name other : String} (h : r.IsLength name)
    (ne : name ≠ other) (d : Descriptor) : (r.store other d).IsLength name := by
  obtain ⟨array, rfl, x, w, e, c, own⟩ := h
  exact ⟨array, rfl, x, w, e, c, by rw [own?_store, if_neg ne, own]⟩

/-- A definition that an assignment of an unknown value makes: of the value of a property that can be
written, or of a new property. -/
inductive Unknowing (r : ObjectRecord) (name : String) : Definition → Prop
  | old {v : Value} {e c : Bool} (h : r.own? name = some (.data v true e c)) :
    Unknowing r name (.value .unknown)
  | new (h : r.own? name = none) : Unknowing r name (.plain .unknown)

theorem Unknowing.withValue {r : ObjectRecord} {name : String} {d : Definition}
    (h : r.Unknowing name d) : d.value? = some .unknown ∧ d.withValue .unknown = d := by
  cases h <;> exact ⟨rfl, rfl⟩

/-- What an assignment of an unknown value stores weakens the object. -/
theorem Unknowing.weakened {r : ObjectRecord} {name : String} {d : Definition}
    (h : r.Unknowing name d) {p : Descriptor} (accepted : r.accept name d = .ok p) :
    r.Weakened (r.store name p) := by
  cases h with
  | @old v e c own =>
    -- an unknown value is accepted, and nothing but the value changes
    have stored : r.accept name (.value .unknown) = .ok (.data .unknown true e c) := by
      rw [accept, own]
      cases c <;> rfl
    obtain rfl : p = .data .unknown true e c := by
      rw [stored] at accepted
      cases accepted
      rfl
    refine .store (fun d hd => .inl (.inr ⟨v, true, e, c, ?_, rfl⟩)) fun absent => ?_
    · simpa [own, eq_comm] using hd
    · rw [own] at absent
      cases absent
  | new absent =>
    obtain rfl : p = .plain .unknown := by
      rw [accept, absent] at accepted
      dsimp only at accepted
      split at accepted
      · cases accepted
        rfl
      · cases accepted
    refine .store (fun d hd => ?_) fun _ => ⟨true, true, true, rfl⟩
    rw [absent] at hd
    cases hd

end ObjectRecord

/-- An own property is found before any other. -/
theorem Realm.property?_of_own {r : Realm} {o : ObjectId} {name : String} {d : Descriptor}
    (own : (r.object o).own? name = some d) : r.property? o name = some d := by
  cases size : r.objects.size with
  | zero =>
    rw [object_of_size_le (size ▸ Nat.zero_le _)] at own
    cases own
  | succ n => rw [property?, chain, size, chainWithin, findProperty?, List.findSome?_cons, own]

namespace Op

variable {m : Machine} {o : ObjectId} {name : String} {p : Descriptor}

theorem weaken_apply {ε : Type} (level : Nat) (v : Value) (s : Setup) (m : Machine) :
    (weaken level v : Eval ε Value) s m =
      .ok (if m.isAmbiguousWrite level then .unknown else v) m := rfl

theorem frames_store (weakened : (m.realm.object o).Weakened ((m.realm.object o).store name p)) :
    m.Frames (m.modifyObject o (·.store name p)) :=
  (refl m : m.Frames m).modifyObject (fun r => .store r name p) fun _ _ _ _ => weakened

/-- The definition of an ordinary property stores what the object accepts, or nothing. -/
theorem defineOrdinary_apply (o : ObjectId) (name : String) (d : Definition) (strict : Bool)
    (s : Setup) (m : Machine) :
    defineOrdinary o name d strict s m = match (m.realm.object o).accept name d with
      | .ok p => .ok true (m.modifyObject o (·.store name p))
      | .error rejection => if strict then .error (rejection.error name) m else .ok false m := by
  rw [defineOrdinary, bind_apply]
  change (match (m.realm.object o).accept name d with
    | .ok descriptor => _
    | .error rejection => _ : Op Bool) s m = _
  cases (m.realm.object o).accept name d with
  | ok p => rfl
  | error rejection => cases strict <;> rfl

/-- The length of an array, if it is known. -/
theorem isLength_of_arrayLength? {r : ObjectRecord} (array : r.cls = .array) {length : Nat × Bool}
    (h : arrayLength? r = some length) : r.IsLength "length" := by
  unfold arrayLength? at h
  split at h
  next x w e c own => exact ⟨array, rfl, x, w, e, c, own⟩
  next => cases h

theorem length_ne_arrayIndex {index : Nat} (h : Number.arrayIndex? name = some index) :
    "length" ≠ name := by
  rintro rfl
  have : Number.arrayIndex? "length" = none := by decide
  rw [this] at h
  cases h

variable {d : Definition} (h : (m.realm.object o).Unknowing name d)

include h

theorem frames_defineOrdinary_unknown (strict : Bool) (s : Setup) :
    m.Frames ((defineOrdinary o name d strict).after s m) := by
  rw [Eval.after, defineOrdinary_apply]
  cases accepted : (m.realm.object o).accept name d with
  | ok p => exact frames_store (h.weakened accepted)
  | error rejection => cases strict <;> exact refl m

/-- An element of an array becomes unknown, and the array may have to grow. -/
theorem frames_defineElement_unknown (array : (m.realm.object o).cls = .array)
    (element : "length" ≠ name) (index : Nat) (strict : Bool) (s : Setup) :
    m.Frames ((defineElement o index name d strict).after s m) := by
  rw [defineElement, after_object_bind]
  split
  · exact frames_defineOrdinary_unknown h strict s
  next length writable known =>
    split
    · exact (keeps_reject strict name).after s m
    · rw [after_bind, defineOrdinary_apply]
      cases accepted : (m.realm.object o).accept name d with
      | ok p =>
        have stored := frames_store (h.weakened accepted)
        -- an element behind the end also sets the length
        have grown : m.Frames ((setLength o (index + 1) true).after s
            (m.modifyObject o (·.store name p))) := by
          refine stored.modifyObject (fun r => .store r ..) fun _ _ _ _ => ?_
          refine ObjectRecord.IsLength.weakened ?_ _
          show ((m.realm.modifyObject o (·.store name p)).object o).IsLength "length"
          rw [Realm.object_modifyObject]
          split
          · exact (isLength_of_arrayLength? array known).store element p
          · exact isLength_of_arrayLength? array known
        by_cases beyond : length ≤ index
        · simp only [if_pos beyond]
          exact grown
        · simp only [if_neg beyond]
          exact stored
      | error rejection => exact (keeps_reject strict name).after s m

/-- Whatever the object is, the property becomes unknown. -/
theorem frames_define_unknown (strict : Bool) (s : Setup) :
    m.Frames ((define o name d strict).after s m) := by
  rw [define, after_object_bind]
  split
  · exact frames_defineOrdinary_unknown h strict s
  next array =>
    have array : (m.realm.object o).cls = .array := Decidable.not_not.1 array
    split
    next length =>
      subst length
      rw [defineLength, h.withValue.1]
      rw [after_bind]
      show m.Frames ((defineOrdinary o "length" (d.withValue .unknown) strict).after s m)
      rw [h.withValue.2]
      exact frames_defineOrdinary_unknown h strict s
    next =>
      split
      next index element =>
        exact frames_defineElement_unknown h array (length_ne_arrayIndex element) index strict s
      next => exact frames_defineOrdinary_unknown h strict s

omit h

/-- An assignment that may or may not happen weakens the object. -/
theorem frames_put_unknown (ambiguous : m.isAmbiguousWrite (m.realm.object o).createdLevel = true)
    (v : Value) (strict : Bool) (s : Setup) : m.Frames ((put o name v strict).after s m) := by
  rw [put, after_get_bind]
  split
  · exact (Keeps.join (.throw _) (fun _ => .pure _) (.pure _)).after s m
  next canPut =>
    have canPut : m.realm.canPut o name = true := by simpa using canPut
    rw [after_object_bind, after_bind_ok (weaken_apply ..), if_pos ambiguous]
    split
    next v w e c own =>
      obtain rfl : w = true := by simpa [Realm.canPut, own] using canPut
      exact Keeps.bind_at (frames_define_unknown (.old own) strict s) fun _ => .pure _
    next notData =>
      rw [after_bind_ok (property?_apply ..)]
      split
      -- no setter of a tame realm is a native function
      · refine Keeps.bind_at (callAccessor_at fun _ _ _ is => ?_) fun _ => .pure _
        exact fun tame => nomatch ((tame.realm _).native _ _ _ is).1
      next notAccessor =>
        refine Keeps.bind_at (frames_define_unknown (.new ?_) strict s) fun _ => .pure _
        -- values and accessors have been dealt with, so that there is no own property
        cases own : (m.realm.object o).own? name with
        | none => rfl
        | some d =>
          have found := Realm.property?_of_own own
          cases d with
          | data v w e c => exact (notData v w e c own).elim
          | accessor g f e c =>
            obtain ⟨f, rfl⟩ : ∃ setter, f = some setter := by
              simpa [Realm.canPut, own, Option.isSome_iff_exists] using canPut
            exact (notAccessor g f e c found).elim

/-- **An assignment to a property frames a machine**: it may or may not happen, or the object is
free. -/
theorem frames_put (o : ObjectId) (name : String) (v : Value) (strict : Bool) :
    Keeps Frames (put o name v strict) where
  after s m := by
    by_cases ambiguous : m.isAmbiguousWrite (m.realm.object o).createdLevel = true
    · exact frames_put_unknown ambiguous v strict s
    · have := (IsFree.of_not_isAmbiguousWrite ambiguous).changing
      exact (built_put name v strict).keeps.start s

/-! ## Bindings -/

theorem environment_apply {ε : Type} (e : EnvId) (s : Setup) (m : Machine) :
    (environment e : Eval ε Environment) s m = .ok (m.realm.environment e) m := rfl

/-- The bindings of a free environment can be changed. -/
theorem frames_modifyBindings {ε : Type} {e : EnvId} (free : m.IsFreeEnv e)
    (f : Bindings → Bindings) : KeepsSince Frames m (modifyBindings e f : Eval ε Unit) := by
  refine .modify fun k hk => hk.modifyEnvironment (alike_withBindings f) fun level lt _ created => ?_
  rcases free with zero | ⟨-, bound, -⟩
  · exact absurd lt (zero ▸ Nat.not_lt_zero _)
  · exact absurd (Nat.le_trans bound created) (Nat.not_le.2 lt)

/-- A new binding of a free environment is one of its own, except where nothing is ambiguous. -/
theorem frames_createBinding {e : EnvId} (free : m.IsFreeEnv e) (name : String)
    (deletable : Bool) : KeepsSince Frames m (createBinding e name deletable) where
  after s k hk tame := by
    rw [createBinding, after_bind_ok (environment_apply ..)]
    split
    · exact (frames_modifyBindings free _).after s k hk tame
    next o receiver properties =>
      have zero : m.level = 0 := by
        rcases free with zero | ⟨there, -, own⟩
        · exact zero
        · have kind := ((hk tame).grows.environment e there).kind o receiver
          exact absurd (kind.1 properties) (own o receiver)
      have defined := frames_define (.of_level_eq_zero zero o) name
        (.ofDescriptor (.data .undefined true true deletable)) true
      exact (Keeps.bind defined fun _ => .pure _).after s k hk tame

end Op

/-- An assignment of an unknown value weakens the binding. -/
theorem Environment.weakened_assign {env : Environment} {b : Bindings} (own : env.store = .own b)
    (name : String) : env.Weakened { env with store := .own (b.assign name .unknown) } := by
  simp only [Weakened, own]
  refine ⟨_, rfl, fun other x hx => ?_⟩
  unfold Bindings.assign Bindings.give
  split
  next binding found =>
    split
    · rw [Table.get?_insert]
      split
      next same =>
        subst same
        obtain rfl : binding = x := by simpa [found] using hx
        exact ⟨_, rfl, .inr rfl⟩
      next => exact ⟨x, hx, .refl x⟩
    · exact ⟨x, hx, .refl x⟩
  next => exact ⟨x, hx, .refl x⟩

namespace Op

/-- **An assignment to a binding frames a machine.** -/
theorem frames_setBinding (e : EnvId) (name : String) (v : Value) :
    Keeps Frames (setBinding e name v) where
  after s m := by
    rw [setBinding, after_bind_ok (environment_apply ..), after_bind_ok (weaken_apply ..),
      after_bind_ok (environment_apply ..)]
    split
    next b own =>
      split
      · refine (refl m : m.Frames m).modifyEnvironment (alike_withBindings _)
          fun level lt _ created => ?_
        have ambiguous : m.isAmbiguousWrite (m.realm.environment e).createdLevel = true :=
          decide_eq_true (Nat.lt_of_le_of_lt created lt)
        simp only [own, if_pos ambiguous]
        exact Environment.weakened_assign own name
      · exact (Keeps.throw _).after s m
    next o receiver _ => exact (frames_put o name _ false).after s m

theorem frames_putValue (r : Reference) (v : Value) : Keeps Frames (putValue r v) := by
  unfold putValue
  split
  · exact frames_put ..
  · exact frames_setBinding ..
  · exact frames_put ..
  · exact .throw _
  · exact .throw _
  · exact .pure _
  · exact .pure _

end Op

/-! ## Environments of one's own

A call, a handler and a named function expression bind names in an environment that they have just
created, which is free. A relation between machines that new environments, bindings in free
environments and the way out of a context or scope keep (`Entering`) is kept by all of them.
-/

/-- A relation between machines that is kept by what happens when a context or a scope with an
environment of its own is entered or left. It may rely on functions not to delete plain names;
`deletes` says that it need not. -/
class Entering (deletes : outParam Prop) (R : Machine → Machine → Prop) : Prop extends Reading R where
  addEnvironment : ∀ m e, R m (m.addEnvironment e)
  modifyBindings : ∀ {ε : Type} {m : Machine} {e : EnvId}, m.IsFreeEnv e → ∀ f,
    KeepsSince R m (Op.modifyBindings e f : Eval ε Unit)
  createBinding : ∀ {m : Machine} {e : EnvId}, m.IsFreeEnv e → ∀ name deletable,
    KeepsSince R m (Op.createBinding e name deletable)
  setBinding : ∀ e name v, Keeps R (Op.setBinding e name v)
  createScript : ∀ {ε : Type} {code : FunctionCode}, (¬ deletes → code.keepsNames = true) →
    ∀ scope, Keeps R (createScript code scope : Eval ε ObjectId)
  dropClaimed : ∀ {m n}, R m n → ∀ mark p, R m (n.dropClaimed mark p)
  /-- A context in which nothing is ambiguous is left. -/
  popContext : ∀ {m n} {c : Context}, c.ambiguity = 0 → R (m.pushContext c) n → R m n.popContext
  /-- A scope is left. -/
  setLexicalEnv : ∀ {m n e}, R (m.setLexicalEnv e) n → R m (n.setLexicalEnv m.lexicalEnv)

theorem Eval.createEnvironment_apply {ε : Type} (e : Environment) (s : Setup) (m : Machine) :
    (createEnvironment e : Eval ε EnvId) s m = .ok m.realm.nextEnvironment
      (m.addEnvironment { e with createdLevel := m.realm.ambiguityLevel }) := rfl

variable {deletes : Prop} {R : Machine → Machine → Prop} [entering : Entering deletes R]

include entering

/-! ## Declarations -/

namespace Op

variable {m : Machine} {e : EnvId} (free : m.IsFreeEnv e)

include free

/-- Names are bound in a new environment by steps that keep the relation since it was created. -/
theorem declares : Declares e (fun code => ¬ deletes → code.keepsNames = true)
    (keeping (Machine.Since R m)) where
  createBinding := entering.createBinding free
  setBinding name v := (entering.setBinding e name v).since m
  createScript names scope := (entering.createScript names scope).since m

theorem keeps_instantiate {body : List Statement} (names : ¬ deletes → bodyKeepsNames body = true)
    (arguments : Option ObjectId) : KeepsSince R m (instantiate e body arguments) := by
  refine (built_instantiate (declares free) (fun code hcode h => ?_) arguments).keeps
  exact bodyKeepsNames_hoistedFunctions body (names h) code hcode

theorem keeps_bindParameters (parameters : List Identifier) (arguments : List Value) :
    KeepsSince R m (bindParameters e parameters arguments) :=
  (built_bindParameters (declares free) parameters arguments).keeps

end Op

/-! ## Functions, handlers and calls -/

namespace Eval

/-- The name of a function expression is bound in an environment of its own. -/
theorem keeps_createFunctionValue {ε : Type} {code : FunctionCode}
    (names : ¬ deletes → code.keepsNames = true) :
    Keeps R (createFunctionValue code : Eval ε ObjectId) := by
  refine .bind .get fun k => ?_
  split
  · exact entering.createScript names _
  next id _ =>
    refine ⟨fun s m => ?_⟩
    rw [after_bind_ok (createEnvironment_apply ..)]
    refine IsTrans.trans _ _ _ (entering.addEnvironment m _) (Keeps.start (R := R) ?_ s)
    refine .bind ((entering.createScript names _).since _) fun f => ?_
    exact .bind (entering.modifyBindings (.next m _) _) fun _ => .pure f

theorem keeps_inScope (e : EnvId) {x : Run Completion} (h : Keeps R x) :
    Keeps R (inScope e x) where
  after s m := by
    unfold inScope
    rw [after_bind_ok (get_apply ..), after_bind_ok (modify_apply ..), after_ensuring]
    exact entering.setLexicalEnv (h.after s (m.setLexicalEnv e))

/-- The environment of a handler is new, and only the exception is bound in it. -/
theorem keeps_handle (name : String) {body : Run Completion} (h : Keeps R body) (thrown : Value) :
    Keeps R (handle name body thrown) := by
  refine Rule.KeepsBy.complete (.bind .get fun k => ⟨fun s m => ?_⟩)
  have created : (Rule.lift (createEnvironment (.fresh (some k.lexicalEnv)))).run s m =
      .ok (.ok m.realm.nextEnvironment) (m.addEnvironment { Environment.fresh (some k.lexicalEnv) with
        createdLevel := m.realm.ambiguityLevel }) := rfl
  rw [ExceptT.run_bind, after_bind_ok created]
  refine IsTrans.trans _ _ _ (entering.addEnvironment m _) (Keeps.start (R := R) ?_ s)
  refine Rule.KeepsBy.bind (Rule.keeps_native (entering.createBinding (.next m _) ..)) fun _ => ?_
  refine .bind (Rule.keeps_native ((entering.setBinding ..).since _)) fun _ => ?_
  exact .lift ((keeps_inScope _ h).since _)

theorem keeps_enterBody {m : Machine} {e : EnvId} (free : m.IsFreeEnv e) {code : FunctionCode}
    (names : ¬ deletes → code.keepsNames = true) (arguments : List Value) :
    KeepsSince R m (enterBody code e arguments) := by
  have bound (o : ObjectId) : KeepsSince R m (do
      Op.bindParameters e code.parameters arguments
      Op.instantiate e code.body (some o)) :=
    .bind (Op.keeps_bindParameters free ..) fun _ =>
      Op.keeps_instantiate free (fun h => code.keepsNames_eq ▸ names h) _
  refine .bind (keeps_create fun _ => ⟨rfl, rfl, nofun⟩) fun o => ?_
  refine .bind (.attempt (bound o)) fun result => ?_
  split
  · exact .pure _
  · exact .aside (reportError_keeps _)

/-- What a call does in its context. -/
theorem body_at {body : Run Completion} {closure : Closure}
    (names : ¬ deletes → closure.code.keepsNames = true) (h : Keeps R body) (f : ObjectId)
    (this : Value) (arguments : List Value) (s : Setup) (m : Machine) :
    let e := m.realm.nextEnvironment
    let k := (m.addEnvironment { Environment.fresh (some closure.scope) with
      createdLevel := m.realm.ambiguityLevel }).pushContext (.enter (some f) e this)
    R k ((do
      enterBody closure.code e arguments
      let c ← body
      return callResult c (← get).returnUnknown : Run Completion).after s k) := by
  intro e k
  have free := (IsFreeEnv.next m (some closure.scope)).pushContext (some f) e this
  exact Keeps.start (R := R) (.bind (keeps_enterBody free names arguments) fun _ =>
    .bind (h.since _) fun c => .bind .get fun k => .pure (callResult c k.returnUnknown)) s

omit entering in
/-- A call is what it does in its context, and the way out of it. -/
theorem after_callScript {body : Run Completion} {f : ObjectId} {closure : Closure} {this : Value}
    {arguments : List Value} {s : Setup} {m n : Machine} {receiver : Value}
    (found : scriptReceiver this s m = .ok receiver n) :
    let e := n.realm.nextEnvironment
    let k := n.addEnvironment { Environment.fresh (some closure.scope) with
      createdLevel := n.realm.ambiguityLevel }
    (callScript body f closure this arguments).after s m =
      ((do
        enterBody closure.code e arguments
        let c ← body
        return callResult c (← get).returnUnknown : Run Completion).after s
          (k.pushContext (.enter (some f) e receiver))).popContext.dropClaimed k.exits.size
            fun c => !c.isThrow := by
  intro e k
  rw [callScript, after_bind_ok found, after_bind_ok (createEnvironment_apply ..)]
  unfold inContext
  rw [after_bind_ok (x := mark) rfl, after_bind_ok (modify_apply ..), after_ensuring]

/-- The environment of a call is new, and nothing is ambiguous in its context. -/
theorem keeps_callScript {body : Run Completion} {closure : Closure}
    (names : ¬ deletes → closure.code.keepsNames = true) (h : Keeps R body) (f : ObjectId)
    (this : Value) (arguments : List Value) :
    Keeps R (callScript body f closure this arguments) where
  after s m := by
    obtain ⟨receiver, n, found⟩ := exists_scriptReceiver this s m
    have before : R m n := (keeps_scriptReceiver (R := fun _ => R) this).of_ok found
    have made : R n (n.addEnvironment { Environment.fresh (some closure.scope) with
        createdLevel := n.realm.ambiguityLevel }) := entering.addEnvironment n _
    rw [after_callScript found]
    refine IsTrans.trans _ _ _ before (IsTrans.trans _ _ _ made ?_)
    exact entering.dropClaimed (entering.popContext rfl (body_at names h f receiver arguments s n)) _ _

end Eval

end AbstractScript
