import AbstractScript.Proofs.Effect
import AbstractScript.Proofs.GlobalVariables

/-!
# Machines that represent stores

The machine of a run without calls, objects and loops represents a store: it has one context, whose
ambiguous depth is the level; the environments of the handlers hold the variables; the global object
holds the global variables. A computation *tracks* an effect if, in every machine that represents a
store, it does to the machine what the effect does to the store (`Eval.Tracks`).
-/
namespace AbstractScript

open Eval Realm

/-! ## Handlers -/

/-- The names that handlers bind, with their environments, the innermost first. -/
abbrev Handlers := List (String × EnvId)

/-- The environment in which names are looked up. -/
def Handlers.innermost : Handlers → EnvId
  | [] => globalEnv
  | (_, e) :: _ => e

/-- What a name refers to. -/
def Handlers.reference (Γ : Handlers) (name : String) : Reference :=
  match Γ.find? (·.1 = name) with
  | some (_, e) => .environment e name
  | none => .environment globalEnv name

/-- An environment holds the variable of a handler and nothing else. -/
structure Environment.Holds (e : Environment) (outer : EnvId) (s : Scope) : Prop where
  outer : e.outer = some outer
  created : e.createdLevel = s.level
  store : ∃ b : Bindings, e.store = .own b ∧
    ∀ name, b.table.get? name = if name = s.name then some ⟨some s.value, true, false⟩ else none

/-- The environments of handlers hold their variables. Each is newer than those around it. -/
def Realm.Handles (r : Realm) : Handlers → List Scope → Prop
  | [], [] => True
  | (name, e) :: Γ, s :: rest => name = s.name ∧ e.index < r.environments.size ∧
      (Handlers.innermost Γ).index < e.index ∧ (r.environment e).Holds (Handlers.innermost Γ) s ∧
      r.Handles Γ rest
  | _, _ => False

/-- The global environment is as it was. -/
structure Realm.HasRoot (r : Realm) : Prop where
  there : 0 < r.environments.size
  store : (r.environment globalEnv).store = .properties globalObject false
  outer : (r.environment globalEnv).outer = none
  created : (r.environment globalEnv).createdLevel = 0

/-! ## Representation -/

/-- The context of a program that is in some ambiguous blocks and in the scope of some handlers. -/
def Handlers.context (Γ : Handlers) (level : Nat) : Context :=
  { Context.enter none globalEnv (.object globalObject) with
    lexicalEnv := Γ.innermost
    depth := level }

/-- The machine represents the store in the scope of handlers. The names in `known` are bound. -/
structure Represents (known : List String) (Γ : Handlers) (m : Machine) (σ : Store) : Prop where
  contexts : m.contexts = ⟨[Γ.context σ.level]⟩
  scripts : m.scripts = #[]
  exits : m.exits.toList.map (·.completion) = σ.exits
  overtaken : m.history.overtaken ↔ σ.overtaken
  core : m.realm.IsCore
  root : m.realm.HasRoot
  globals : ∀ name, σ.globals name =
    ((m.realm.object globalObject).own? name).map Descriptor.content
  handlers : m.realm.Handles Γ σ.scopes
  plain : ∀ s ∈ σ.scopes, s.value.isPlain = true
  bound : ∀ name ∈ known, σ.isBound name = true

namespace Represents

variable {known : List String} {Γ : Handlers} {m n : Machine} {σ τ : Store}

/-- What a rule does besides its own work has no influence on the store. -/
theorem congr (h : Represents known Γ m σ) (contexts : n.contexts = m.contexts)
    (scripts : n.scripts = m.scripts) (exits : n.exits = m.exits)
    (overtaken : n.history.overtaken ↔ m.history.overtaken) (realm : n.realm = m.realm) :
    Represents known Γ n σ where
  contexts := contexts.trans h.contexts
  scripts := scripts.trans h.scripts
  exits := exits ▸ h.exits
  overtaken := overtaken.trans h.overtaken
  core := realm ▸ h.core
  root := realm ▸ h.root
  globals := realm ▸ h.globals
  handlers := realm ▸ h.handlers
  plain := h.plain
  bound := h.bound

theorem level (h : Represents known Γ m σ) : m.level = σ.level := by
  rw [Machine.level, h.contexts]
  rfl

theorem lexicalEnv (h : Represents known Γ m σ) : m.lexicalEnv = Γ.innermost := by
  rw [Machine.lexicalEnv, h.contexts]
  rfl

theorem size_exits (h : Represents known Γ m σ) : m.exits.size = σ.exits.length := by
  rw [← h.exits, List.length_map, Array.length_toList]

theorem isPlain_global (h : Represents known Γ m σ) (name : String) :
    (σ.global name).isPlain = true := by
  rw [Store.global, h.globals]
  cases own : (m.realm.object globalObject).own? name with
  | none => exact (Store.isKnown_inherited name).plain
  | some d =>
    obtain ⟨plain, -⟩ := h.core.plain name d own
    cases d with
    | data v => exact plain
    | accessor => cases plain

theorem isPlain_read (h : Represents known Γ m σ) (name : String) :
    (σ.read name).isPlain = true := by
  unfold Store.read
  split
  next s found => exact h.plain s (List.mem_of_find?_eq_some found)
  next => exact h.isPlain_global name

end Represents

/-! ## Looking up names -/

namespace Realm

variable {r : Realm} {Γ : Handlers} {ss : List Scope}

/-- There are at least as many environments as handlers around the innermost one. -/
theorem Handles.length_le (h : r.Handles Γ ss) : Γ.length ≤ Γ.innermost.index := by
  induction Γ generalizing ss with
  | nil => exact Nat.zero_le _
  | cons γ Γ ih =>
    cases ss with
    | nil => exact h.elim
    | cons s ss =>
      obtain ⟨-, -, newer, -, rest⟩ := h
      exact Nat.lt_of_le_of_lt (ih rest) newer

theorem Handles.innermost_lt (h : r.Handles Γ ss) (root : r.HasRoot) :
    Γ.innermost.index < r.environments.size := by
  cases Γ with
  | nil => exact root.there
  | cons γ Γ =>
    cases ss with
    | nil => exact h.elim
    | cons s ss => exact h.2.1

/-- The scopes of a name are the handlers and the global environment. -/
theorem Handles.scopesWithin (h : r.Handles Γ ss) (root : r.HasRoot) {steps : Nat}
    (enough : Γ.length < steps) :
    r.scopesWithin steps (some Γ.innermost) = Γ.map Prod.snd ++ [globalEnv] := by
  induction Γ generalizing ss steps with
  | nil =>
    obtain ⟨steps, rfl⟩ := Nat.exists_eq_succ_of_ne_zero (Nat.ne_of_gt enough)
    rw [Handlers.innermost, Realm.scopesWithin, root.outer]
    cases steps <;> rfl
  | cons γ Γ ih =>
    cases ss with
    | nil => exact h.elim
    | cons s ss =>
      obtain ⟨steps, rfl⟩ :=
        Nat.exists_eq_succ_of_ne_zero (Nat.ne_of_gt (Nat.zero_lt_of_lt enough))
      obtain ⟨-, -, -, holds, rest⟩ := h
      rw [Handlers.innermost, Realm.scopesWithin, holds.outer,
        ih rest (Nat.lt_of_succ_lt_succ enough)]
      rfl

theorem Handles.scopes (h : r.Handles Γ ss) (root : r.HasRoot) :
    r.scopes Γ.innermost = Γ.map Prod.snd ++ [globalEnv] :=
  h.scopesWithin root (Nat.lt_of_le_of_lt h.length_le (h.innermost_lt root))

/-- The environment of a handler binds its own name and no other. -/
theorem binds_of_holds {e outer : EnvId} {s : Scope} (holds : (r.environment e).Holds outer s)
    (name : String) : r.binds e name = decide (s.name = name) := by
  obtain ⟨b, own, table⟩ := holds.store
  rw [Realm.binds, own]
  show b.has name = _
  by_cases same : s.name = name
  · rw [decide_eq_true same, Bindings.has_iff, Bindings.names, Table.mem_keys]
    exact ⟨_, Table.get?_eq_some_iff.1 ((table name).trans (if_pos same.symm))⟩
  · rw [decide_eq_false same, ← Bool.not_eq_true, Bindings.has_iff, Bindings.names,
      ← Table.get?_eq_none_iff, table, if_neg (Ne.symm same)]

/-- A name that a handler or the global object binds refers to the innermost binding. -/
theorem Handles.resolve (h : r.Handles Γ ss) (root : r.HasRoot) {name : String}
    (bound : name ∈ Γ.map Prod.fst ∨ r.binds globalEnv name = true) :
    r.resolve Γ.innermost name = Γ.reference name := by
  have found : (Γ.map Prod.snd ++ [globalEnv]).find? (r.binds · name) =
      some (((Γ.find? (·.1 = name)).map Prod.snd).getD globalEnv) := by
    clear root
    -- by induction on the handlers, of which the innermost comes first
    induction Γ generalizing ss with
    | nil =>
      have global := bound.resolve_left (by simp)
      simp [global]
    | cons γ Γ ih =>
      cases ss with
      | nil => exact h.elim
      | cons s ss =>
        obtain ⟨same, -, -, holds, rest⟩ := h
        rw [List.map_cons, List.cons_append, List.find?_cons, List.find?_cons,
          binds_of_holds holds name, ← same]
        by_cases here : γ.1 = name
        · rw [decide_eq_true here]
          rfl
        · rw [decide_eq_false here]
          refine ih rest (bound.imp_left fun listed => ?_)
          rw [List.map_cons, List.mem_cons] at listed
          exact listed.resolve_left (Ne.symm here)
  rw [Realm.resolve, h.scopes root, found, Handlers.reference]
  cases Γ.find? (·.1 = name) <;> rfl

/-- The handler that binds a name holds the variable of that name. -/
theorem Handles.find? (h : r.Handles Γ ss) (name : String) :
    (Γ.find? (·.1 = name) = none ∧ ss.find? (·.name = name) = none) ∨
      ∃ e outer s, Γ.find? (·.1 = name) = some (name, e) ∧ ss.find? (·.name = name) = some s ∧
        s.name = name ∧ e.index ≤ Γ.innermost.index ∧ e.index < r.environments.size ∧
        (r.environment e).Holds outer s := by
  induction Γ generalizing ss with
  | nil =>
    cases ss with
    | nil => exact .inl ⟨rfl, rfl⟩
    | cons s ss => exact h.elim
  | cons γ Γ ih =>
    cases ss with
    | nil => exact h.elim
    | cons s ss =>
      obtain ⟨n, e⟩ := γ
      obtain ⟨same, lt, newer, holds, rest⟩ := h
      rw [List.find?_cons, List.find?_cons, ← same]
      by_cases here : n = name
      · subst here
        rw [decide_eq_true rfl]
        exact .inr ⟨e, _, s, rfl, rfl, same.symm, Nat.le_refl _, lt, holds⟩
      · rw [decide_eq_false here]
        rcases ih rest with none | ⟨e', outer, s', found, found', name', le, lt', holds'⟩
        · exact .inl none
        · exact .inr ⟨e', outer, s', found, found', name', Nat.le_of_lt (Nat.lt_of_le_of_lt le newer),
            lt', holds'⟩

/-- What happens to newer environments does not matter to older handlers. -/
theorem Handles.congr {r' : Realm} (h : r.Handles Γ ss)
    (size : r.environments.size ≤ r'.environments.size)
    (same : ∀ e : EnvId, e.index ≤ Γ.innermost.index → r'.environment e = r.environment e) :
    r'.Handles Γ ss := by
  induction Γ generalizing ss with
  | nil =>
    cases ss with
    | nil => trivial
    | cons s ss => exact h.elim
  | cons γ Γ ih =>
    cases ss with
    | nil => exact h.elim
    | cons s ss =>
      obtain ⟨name, lt, newer, holds, rest⟩ := h
      refine ⟨name, Nat.lt_of_lt_of_le lt size, newer, ?_, ih rest fun e le => same e ?_⟩
      · rw [same γ.2 (Nat.le_refl _)]
        exact holds
      · exact Nat.le_of_lt (Nat.lt_of_le_of_lt le newer)

/-- A change of the innermost variable of a name. -/
theorem Handles.assign (h : r.Handles Γ ss) {name : String} {e : EnvId}
    (found : Γ.find? (·.1 = name) = some (name, e)) (level : Nat) (v : Value)
    {f : Environment → Environment}
    (changes : ∀ outer s, s.name = name → (r.environment e).Holds outer s →
      (f (r.environment e)).Holds outer { s with value := v.weakened s.level level }) :
    (r.modifyEnvironment e f).Handles Γ (Scope.assign level name v ss) := by
  have size : (r.modifyEnvironment e f).environments.size = r.environments.size :=
    Array.size_modify
  induction Γ generalizing ss with
  | nil => cases found
  | cons γ Γ ih =>
    cases ss with
    | nil => exact h.elim
    | cons s ss =>
      obtain ⟨n, e'⟩ := γ
      obtain ⟨same, lt, newer, holds, rest⟩ := h
      rw [List.find?_cons] at found
      rw [Scope.assign, ← same]
      by_cases here : n = name
      · rw [decide_eq_true here] at found
        obtain rfl : e' = e := by
          cases found
          rfl
        rw [if_pos here, same]
        refine ⟨rfl, size.symm ▸ lt, newer, ?_, rest.congr (Nat.le_of_eq size.symm) fun o le => ?_⟩
        · rw [environment_modifyEnvironment, if_pos ⟨rfl, lt⟩]
          exact changes _ _ (same.symm.trans here) holds
        -- outer environments are older, so that none of them changes
        · rw [environment_modifyEnvironment, if_neg]
          rintro ⟨rfl, -⟩
          exact absurd le (Nat.not_le.2 newer)
      · rw [decide_eq_false here] at found
        rw [if_neg here]
        refine ⟨same, size.symm ▸ lt, newer, ?_, ih rest found⟩
        -- the name is that of an outer handler
        rcases rest.find? name with ⟨none, -⟩ | ⟨e'', outer, s', found', -, -, le, -⟩
        · rw [none] at found
          cases found
        · obtain rfl : e'' = e := by
            rw [found'] at found
            cases found
            rfl
          rw [environment_modifyEnvironment, if_neg]
          · exact holds
          · rintro ⟨rfl, -⟩
            exact absurd le (Nat.not_le.2 newer)

end Realm

end AbstractScript
