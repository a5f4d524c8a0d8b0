import AbstractScript.Proofs.Tracking

/-!
# Names and operators in a machine that represents a store

A name that is bound refers to the innermost handler that binds it or to the global object; reading
and assigning through the reference tracks the variable of the store. A handler runs in an
environment of its own, which represents a store with a further variable.
-/
namespace AbstractScript

open Eval Realm

variable {u : Setup} {known : List String} {Γ : Handlers}

/-! ## Bindings -/

namespace Machine

/-- Changes the table of an environment. -/
def mapBindings (m : Machine) (e : EnvId) (f : Bindings → Bindings) : Machine :=
  m.modifyEnvironment e fun env =>
    match env.store with
    | .own bindings => { env with store := .own (f bindings) }
    | .properties .. => env

theorem environment_mapBindings {m : Machine} {e : EnvId} {b : Bindings}
    (there : e.index < m.realm.environments.size) (own : (m.realm.environment e).store = .own b)
    (f : Bindings → Bindings) (other : EnvId) : (m.mapBindings e f).realm.environment other =
      if other = e then { m.realm.environment e with store := .own (f b) }
      else m.realm.environment other := by
  show (m.realm.modifyEnvironment _ _).environment other = _
  rw [environment_modifyEnvironment]
  simp only [there, and_true, own]

end Machine

namespace Op

variable {s : Setup} {m : Machine} {e : EnvId} {b : Bindings} {name : String}

theorem createBinding_own (own : (m.realm.environment e).store = .own b) (deletable : Bool) :
    createBinding e name deletable s m = .ok () (m.mapBindings e (·.create name deletable)) := by
  have looked : (environment e : Op _) s m = .ok (m.realm.environment e) m := rfl
  rw [createBinding, bind_apply, looked]
  simp only [own]
  rfl

theorem setBinding_own (own : (m.realm.environment e).store = .own b) (has : b.has name = true)
    (v : Value) : setBinding e name v s m = .ok () (m.mapBindings e
      (·.assign name (v.weakened (m.realm.environment e).createdLevel m.level))) := by
  have looked : (environment e : Op _) s m = .ok (m.realm.environment e) m := rfl
  rw [setBinding, bind_apply, looked]
  simp only [bind_apply, weaken_eq_ok, looked, own, has, if_true]
  rfl

end Op

/-! ## References -/

/-- An assignment to the variable of a handler. -/
theorem Environment.Holds.assign {e : Environment} {outer : EnvId} {s : Scope}
    (h : e.Holds outer s) {b : Bindings} (own : e.store = .own b) {name : String}
    (same : s.name = name) (v : Value) :
    Environment.Holds { e with store := .own (b.assign name v) } outer { s with value := v } where
  outer := h.outer
  created := h.created
  store := by
    obtain ⟨b', own', table⟩ := h.store
    obtain rfl : b = b' := by
      rw [own] at own'
      cases own'
      rfl
    have bound := table name
    rw [if_pos same.symm] at bound
    refine ⟨_, rfl, fun other => ?_⟩
    rw [Bindings.assign, Bindings.give, bound]
    show (b.table.insert name _).get? other = if other = s.name then _ else _
    rw [Table.get?_insert, table, same]
    split <;> rfl

namespace Machine

/-- A new environment inside the present one. -/
def withEnvironment (m : Machine) : Machine :=
  m.addEnvironment
    { Environment.fresh (some m.lexicalEnv) with createdLevel := m.realm.ambiguityLevel }

/-- A new environment that binds a name to undefined. -/
def withUndefined (m : Machine) (name : String) : Machine :=
  m.withEnvironment.mapBindings m.realm.nextEnvironment (·.create name false)

/-- A new environment that holds a variable. -/
def withVariable (m : Machine) (name : String) (v : Value) : Machine :=
  (m.withUndefined name).mapBindings m.realm.nextEnvironment (·.assign name v)

variable (m : Machine) (name : String) (v : Value)

theorem size_withEnvironment :
    m.withEnvironment.realm.environments.size = m.realm.environments.size + 1 := Array.size_push _

theorem size_withUndefined :
    (m.withUndefined name).realm.environments.size = m.realm.environments.size + 1 :=
  Array.size_modify.trans m.size_withEnvironment

theorem size_withVariable :
    (m.withVariable name v).realm.environments.size = m.realm.environments.size + 1 :=
  Array.size_modify.trans (m.size_withUndefined name)

theorem environment_withEnvironment (o : EnvId) : m.withEnvironment.realm.environment o =
    if o = m.realm.nextEnvironment then
      { Environment.fresh (some m.lexicalEnv) with createdLevel := m.realm.ambiguityLevel }
    else m.realm.environment o := environment_addEnvironment ..

theorem store_withEnvironment :
    (m.withEnvironment.realm.environment m.realm.nextEnvironment).store = .own {} := by
  rw [environment_withEnvironment, if_pos rfl]
  rfl

theorem environment_withUndefined (o : EnvId) : (m.withUndefined name).realm.environment o =
    if o = m.realm.nextEnvironment then
      { m.withEnvironment.realm.environment o with store := .own (({} : Bindings).create name false) }
    else m.realm.environment o := by
  have there : m.realm.nextEnvironment.index < m.withEnvironment.realm.environments.size := by
    rw [size_withEnvironment]
    exact Nat.lt_succ_self _
  rw [withUndefined, environment_mapBindings there m.store_withEnvironment]
  split
  next new => rw [new]
  next old => rw [environment_withEnvironment, if_neg old]

theorem holds_withUndefined :
    ((m.withUndefined name).realm.environment m.realm.nextEnvironment).Holds m.lexicalEnv
      ⟨name, .undefined, m.level⟩ := by
  rw [environment_withUndefined, if_pos rfl, environment_withEnvironment, if_pos rfl]
  refine ⟨rfl, m.synced, _, rfl, fun other => ?_⟩
  show (Table.empty.insert name _).get? other = _
  rw [Table.get?_insert]
  rfl

theorem index_lt_withUndefined :
    m.realm.nextEnvironment.index < (m.withUndefined name).realm.environments.size := by
  rw [size_withUndefined]
  exact Nat.lt_succ_self _

/-- The other environments stay as they were. -/
theorem environment_withVariable (o : EnvId) (old : o ≠ m.realm.nextEnvironment) :
    (m.withVariable name v).realm.environment o = m.realm.environment o := by
  obtain ⟨b, own, -⟩ := (m.holds_withUndefined name).store
  rw [withVariable, environment_mapBindings (m.index_lt_withUndefined name) own, if_neg old,
    environment_withUndefined, if_neg old]

/-- The new environment holds the variable and nothing else. -/
theorem holds_withVariable :
    ((m.withVariable name v).realm.environment m.realm.nextEnvironment).Holds m.lexicalEnv
      ⟨name, v, m.level⟩ := by
  have held := m.holds_withUndefined name
  obtain ⟨b, own, -⟩ := held.store
  rw [withVariable, environment_mapBindings (m.index_lt_withUndefined name) own, if_pos rfl]
  exact held.assign own rfl v

end Machine

/-- A change of another environment leaves the global environment as it was. -/
theorem Realm.HasRoot.modifyEnvironment {r : Realm} (h : r.HasRoot) {e : EnvId}
    (other : globalEnv ≠ e) (f : Environment → Environment) :
    (r.modifyEnvironment e f).HasRoot := by
  have same : (r.modifyEnvironment e f).environment globalEnv = r.environment globalEnv := by
    rw [environment_modifyEnvironment, if_neg fun changed => other changed.1]
  refine ⟨?_, same ▸ h.store, same ▸ h.outer, same ▸ h.created⟩
  show 0 < (r.environments.modify _ _).size
  rw [Array.size_modify]
  exact h.there

/-- Assigning a plain value leaves the variables of handlers plain. -/
theorem Scope.isPlain_assign {ss : List Scope} (h : ∀ s ∈ ss, s.value.isPlain = true) {v : Value}
    (plain : v.isPlain = true) (level : Nat) (name : String) :
    ∀ s ∈ Scope.assign level name v ss, s.value.isPlain = true := by
  induction ss with
  | nil => exact h
  | cons s ss ih =>
    rw [List.forall_mem_cons] at h
    rw [Scope.assign]
    split
    · exact List.forall_mem_cons.2 ⟨Value.isPlain_weakened plain _ _, h.2⟩
    · exact List.forall_mem_cons.2 ⟨h.1, ih h.2⟩

namespace Represents

variable {m : Machine} {σ : Store} {name : String}

/-- The global environment binds the global variables that have a value. -/
theorem binds_global (h : Represents known Γ m σ) (name : String) :
    m.realm.binds globalEnv name = σ.isBound name := by
  rw [Store.isBound, h.globals, inherited?, Realm.binds, h.root.store]
  show (m.realm.property? globalObject name).isSome = _
  rw [h.core.property?_global, Option.isSome_or, Option.isSome_or, Option.isSome_map,
    Option.isSome_map]

theorem resolve (h : Represents known Γ m σ) (listed : name ∈ Γ.map Prod.fst ∨ name ∈ known) :
    m.realm.resolve m.lexicalEnv name = Γ.reference name := by
  rw [h.lexicalEnv]
  exact h.handlers.resolve h.root (listed.imp_right fun listed =>
    (h.binds_global name).trans (h.bound name listed))

/-- A global variable that is stored anew. -/
theorem storeGlobal (h : Represents known Γ m σ) (free : name ∉ fixedNames) {p : Descriptor}
    {v : Value} (content : p.content = v) (plain : v.isPlain = true)
    (writable : p.isWritable = true) :
    Represents known Γ (m.storeGlobal name p) (σ.setGlobal name v) := by
  have isPlain : p.isPlain = true := by
    cases p with
    | data w =>
      subst content
      exact plain
    | accessor => cases writable
  have there : globalObject.index < m.realm.objects.size := by
    rw [h.core.size, size_core]
    decide
  have own (other : String) : (((m.storeGlobal name p).realm.object globalObject).own? other) =
      if other = name then some p else (m.realm.object globalObject).own? other := by
    show ((m.realm.modifyObject _ _).object _).own? other = _
    rw [object_modifyObject, if_pos ⟨rfl, there⟩, ObjectRecord.own?_store]
  have after : σ.setGlobal name v =
      { σ with globals := fun other => if other = name then some v else σ.globals other } :=
    if_neg free
  rw [after]
  refine { h with
    core := h.core.store free isPlain writable
    root := { h.root with }
    globals := fun other => ?_
    handlers := h.handlers.congr (Nat.le_refl _) fun _ _ => rfl
    bound := fun other listed => ?_ }
  · show (if other = name then some v else σ.globals other) = _
    rw [own]
    split
    · rw [Option.map_some, content]
    · exact h.globals other
  · show ((if other = name then some v else σ.globals other).or _).isSome = true
    split
    · rfl
    · exact h.bound other listed

end Represents

namespace Eval

variable {α β : Type} {name : String} {v : Value}

theorem tracks_of_settles {op : Op α} {a : α} {P : α → β → Prop} {b : β} (h : op.Settles a)
    (related : P a b) : Tracks u known Γ P op (pure b) := fun m _ rep =>
  have ⟨entered, ran⟩ := h u m rep.core
  ⟨a, m.withEntered entered, ran, related, { rep with }⟩

/-- Reading through the reference of a name. -/
theorem tracks_getValue (name : String) :
    Tracks u known Γ SamePlain (Op.getValue (Γ.reference name)) (Effect.read name) := by
  intro m σ rep
  refine ⟨σ.read name, m, ?_, ⟨rfl, rep.isPlain_read name⟩, rep⟩
  rcases rep.handlers.find? name with
    ⟨free, free'⟩ | ⟨e, outer, sc, found, found', same, -, -, holds⟩
  · -- no handler binds the name
    have looked : (Op.environment globalEnv : Op _) u m =
        .ok (m.realm.environment globalEnv) m := rfl
    rw [Handlers.reference, free]
    show Op.getBinding globalEnv name u m = _
    rw [Op.getBinding, bind_apply, looked]
    simp only [rep.root.store]
    rw [Op.get_global rep.core, Store.read, free', Store.global, rep.globals]
    cases (m.realm.object globalObject).own? name <;> rfl
  · -- the innermost handler that binds the name
    obtain ⟨b, own, table⟩ := holds.store
    have looked : (Op.environment e : Op _) u m = .ok (m.realm.environment e) m := rfl
    have value : b.get name = .ok sc.value := by
      rw [Bindings.get, table, if_pos same.symm]
      rfl
    rw [Handlers.reference, found]
    show Op.getBinding e name u m = _
    rw [Op.getBinding, bind_apply, looked]
    simp only [own, value]
    rw [Store.read, found']
    rfl

/-- Assigning through the reference of a name. -/
theorem tracks_putValue (plain : v.isPlain = true) (name : String) :
    Tracks u known Γ (fun _ _ => True) (Op.putValue (Γ.reference name) v) (Effect.write name v) := by
  intro m σ rep
  have weak := Value.isPlain_weakened plain
  rcases rep.handlers.find? name with
    ⟨free, free'⟩ | ⟨e, outer, sc, found, found', same, -, there, holds⟩
  · -- no handler binds the name
    have looked : (Op.environment globalEnv : Op _) u m =
        .ok (m.realm.environment globalEnv) m := rfl
    have unbound : ¬ σ.scopes.any (·.name = name) = true := by
      rw [List.find?_eq_none] at free'
      rw [List.any_eq_true]
      exact fun ⟨sc, hsc, same⟩ => free' sc hsc same
    have after : (Effect.write name v).after σ = σ.setGlobal name (v.weakened 0 σ.level) :=
      if_neg unbound
    rw [after, Handlers.reference, free]
    show ∃ a n, Op.setBinding globalEnv name v u m = .ok a n ∧ True ∧ _
    rw [Op.setBinding, bind_apply, looked]
    simp only [bind_apply, rep.root.created, Op.weaken_eq_ok, looked, rep.root.store, rep.level]
    by_cases fixed : name ∈ fixedNames
    · refine ⟨(), m, Op.put_global_fixed rep.core fixed _, trivial, ?_⟩
      rw [Store.setGlobal, if_pos fixed]
      exact rep
    · obtain ⟨p, content, writable, put⟩ :=
        Op.put_global (s := u) rep.core fixed (v.weakened 0 σ.level)
      refine ⟨(), m.storeGlobal name p, put, trivial,
        rep.storeGlobal fixed ?_ (weak 0 σ.level) writable⟩
      -- the value was weakened already
      rw [content, rep.level]
      by_cases positive : 0 < σ.level <;> simp [Value.weakened, positive]
  · -- the innermost handler that binds the name
    obtain ⟨b, own, table⟩ := holds.store
    have looked : (Op.environment e : Op _) u m = .ok (m.realm.environment e) m := rfl
    have bound : σ.scopes.any (·.name = name) = true :=
      List.any_eq_true.2 ⟨sc, List.mem_of_find?_eq_some found', decide_eq_true same⟩
    have has : b.has name = true := by
      rw [Bindings.has_iff, Bindings.names, Table.mem_keys]
      exact ⟨_, Table.get?_eq_some_iff.1 ((table name).trans (if_pos same.symm))⟩
    have after : (Effect.write name v).after σ =
        σ.withScopes (Scope.assign σ.level name v σ.scopes) := if_pos bound
    rw [after, Handlers.reference, found]
    show ∃ a n, Op.setBinding e name v u m = .ok a n ∧ True ∧ _
    rw [Op.setBinding_own own has, holds.created, rep.level]
    refine ⟨(), _, rfl, trivial, { rep with
      core := rep.core.congr rfl
      root := ?_
      handlers := rep.handlers.assign found σ.level v ?_
      plain := ?_ }⟩
    · refine rep.root.modifyEnvironment ?_ _
      rintro rfl
      rw [rep.root.store] at own
      cases own
    · intro outer' sc' same' holds'
      have level : sc.level = sc'.level := holds.created.symm.trans holds'.created
      rw [own, level]
      exact holds'.assign own same' _
    · exact Scope.isPlain_assign rep.plain plain _ _

end Eval

namespace Rule.Tracks

variable {α β : Type} {name : String}

/-- A name that is bound refers to its innermost binding. -/
theorem resolve (listed : name ∈ Γ.map Prod.fst ∨ name ∈ known) :
    Tracks u known Γ (fun r _ => r = Γ.reference name) (resolve name) (Pure.pure ()) := by
  intro m σ rep
  exact ⟨_, m, rfl, ⟨_, rfl, rep.resolve listed⟩, rep⟩

theorem referring {P : Reference → β → Prop} {r : Rule Reference} {d : Effect β}
    (h : Tracks u known Γ P r d) (kind : NodeKind) (span : Span) :
    Tracks u known Γ P (referring kind span r) d :=
  Eval.Tracks.bracket h kind span referenceOutcome

end Rule.Tracks

/-! ## Handlers -/

namespace Represents

variable {m n : Machine} {σ τ : Store} {name : String} {e : EnvId} {v : Value}

/-- A new environment that holds a variable is that of a further handler. -/
theorem push (h : Represents known Γ m σ) (contexts : n.contexts = m.contexts)
    (scripts : n.scripts = m.scripts) (exits : n.exits = m.exits) (history : n.history = m.history)
    (objects : n.realm.objects = m.realm.objects)
    (size : n.realm.environments.size = m.realm.environments.size + 1)
    (older : ∀ e, e ≠ m.realm.nextEnvironment → n.realm.environment e = m.realm.environment e)
    (holds : (n.realm.environment m.realm.nextEnvironment).Holds Γ.innermost ⟨name, v, σ.level⟩)
    (plain : v.isPlain = true) :
    Represents known ((name, m.realm.nextEnvironment) :: Γ)
      (n.setLexicalEnv m.realm.nextEnvironment) (σ.push name v) := by
  -- no environment changes but the new one
  have newest (e : EnvId) (lt : e.index < m.realm.environments.size) :
      n.realm.environment e = m.realm.environment e := by
    refine older e ?_
    rintro rfl
    exact Nat.lt_irrefl _ lt
  have root := newest globalEnv h.root.there
  have inner := h.handlers.innermost_lt h.root
  have object (o : ObjectId) : n.realm.object o = m.realm.object o := by
    rw [Realm.object, objects, Realm.object]
  refine
    { contexts := ?_
      scripts := scripts.trans h.scripts
      exits := exits ▸ h.exits
      overtaken := (show n.history.overtaken ↔ _ from history ▸ h.overtaken)
      core := h.core.congr objects
      root := ⟨?_, root ▸ h.root.store, root ▸ h.root.outer, root ▸ h.root.created⟩
      globals := fun name => ?_
      handlers := ⟨rfl, ?_, inner, holds, h.handlers.congr ?_ fun e le => ?_⟩
      plain := List.forall_mem_cons.2 ⟨plain, h.plain⟩
      bound := h.bound }
  · show n.contexts.setLexicalEnv _ = _
    rw [contexts, h.contexts]
    rfl
  · show 0 < n.realm.environments.size
    rw [size]
    exact Nat.succ_pos _
  · show σ.globals name = ((n.realm.object globalObject).own? name).map Descriptor.content
    rw [object]
    exact h.globals name
  · show m.realm.environments.size < n.realm.environments.size
    rw [size]
    exact Nat.lt_succ_self _
  · show m.realm.environments.size ≤ n.realm.environments.size
    rw [size]
    exact Nat.le_succ _
  · exact newest e (Nat.lt_of_le_of_lt le inner)

/-- After a handler its variable is gone. -/
theorem pop (h : Represents known ((name, e) :: Γ) n τ) :
    Represents known Γ (n.setLexicalEnv Γ.innermost) τ.pop := by
  have handlers := h.handlers
  have plain := h.plain
  cases scopes : τ.scopes with
  | nil =>
    rw [scopes] at handlers
    exact handlers.elim
  | cons s rest =>
    rw [scopes] at handlers plain
    rw [List.forall_mem_cons] at plain
    have tail : τ.pop.scopes = rest := by rw [Store.pop, scopes, List.tail_cons]
    exact
      { h with
        contexts := by
          show n.contexts.setLexicalEnv _ = _
          rw [h.contexts]
          rfl
        root := { h.root with }
        handlers := tail ▸ handlers.2.2.2.2
        plain := tail ▸ plain.2 }

end Represents

namespace Eval

variable {name : String} {v : Value}

/-- A handler runs its block with a new environment that holds the exception. -/
theorem handle_apply (name : String) (body : Run Completion) (v : Value) (s : Setup) (m : Machine) :
    handle name body v s m = inScope m.realm.nextEnvironment body s (m.withVariable name v) := by
  have made : (createEnvironment (.fresh (some m.lexicalEnv)) : Run EnvId) s m =
      .ok m.realm.nextEnvironment m.withEnvironment := rfl
  have bind : Op.createBinding m.realm.nextEnvironment name false s m.withEnvironment =
      .ok () (m.withUndefined name) := Op.createBinding_own m.store_withEnvironment false
  have held := m.holds_withUndefined name
  obtain ⟨b, own, table⟩ := held.store
  have has : b.has name = true := by
    rw [Bindings.has_iff, Bindings.names, Table.mem_keys]
    exact ⟨_, Table.get?_eq_some_iff.1 ((table name).trans (if_pos rfl))⟩
  -- the value is not weakened, since the environment is as new as the level
  have same : v.weakened ((m.withUndefined name).realm.environment m.realm.nextEnvironment).createdLevel
      (m.withUndefined name).level = v := by
    rw [held.created]
    exact if_neg (Nat.lt_irrefl _)
  have set : Op.setBinding m.realm.nextEnvironment name v s (m.withUndefined name) =
      .ok () (m.withVariable name v) := by
    rw [Op.setBinding_own own has, same]
    rfl
  show (Rule.lift MonadState.get >>= _ : Rule Completion).complete s m = _
  rw [Rule.complete_lift_bind (get_apply s m), Rule.complete_lift_bind made,
    Rule.complete_native_bind bind, Rule.complete_native_bind set, Rule.complete_lift]

/-- In a machine that represents a store a handler runs with a further variable of the store. -/
theorem exists_handle {m : Machine} {σ : Store} (rep : Represents known Γ m σ)
    (plain : v.isPlain = true) (name : String) (s : Setup) :
    ∃ n, (∀ body, handle name body v s m = inScope m.realm.nextEnvironment body s n) ∧
      n.lexicalEnv = Γ.innermost ∧
      Represents known ((name, m.realm.nextEnvironment) :: Γ)
        (n.setLexicalEnv m.realm.nextEnvironment) (σ.push name v) := by
  have holds := m.holds_withVariable name v
  rw [rep.lexicalEnv, show m.level = σ.level from rep.level] at holds
  exact ⟨m.withVariable name v, fun body => handle_apply name body v s m, rep.lexicalEnv,
    rep.push rfl rfl rfl rfl rfl (m.size_withVariable name v) (m.environment_withVariable name v)
      holds plain⟩

/-- A handler tracks what its block does with a further variable. -/
theorem Tracks.handle {β : Type} {P : Completion → β → Prop} {body : Run Completion}
    {d : Effect β} (h : ∀ e, Tracks u known ((name, e) :: Γ) P body d)
    (plain : v.isPlain = true) :
    Tracks u known Γ P (handle name body v) (Effect.withVariable name v d) := by
  intro m σ rep
  obtain ⟨n, run, lexicalEnv, rep⟩ := exists_handle rep plain name u
  obtain ⟨a, k, ran, related, rep⟩ := h _ _ _ rep
  refine ⟨a, k.setLexicalEnv Γ.innermost, ?_, related, rep.pop⟩
  rw [run, inScope]
  simp only [bind_apply, get_apply, modify_apply, ensuring_apply, ran, lexicalEnv]

end Eval

end AbstractScript
