import AbstractScript.Proofs.PlainOperators
import Mathlib.Data.List.Forall2

/-!
# Stores

What a program without calls, objects and loops can see and change is a *store*: its global
variables, the variables of the handlers around it, the ambiguity level and the possible exits. Two
relations matter. A store *fades* into a later one of the same run: at a positive level, what is
older than the level keeps its value or becomes unknown. A store *covers* the store of a run in which
everything is known: each of its values is unknown or the same.
-/
namespace AbstractScript

open Realm

namespace Value

/-- Unknown covers every value, and every value covers itself. -/
def Covers (a b : Value) : Prop := a = .unknown ∨ a = b

/-- A value covers itself. -/
theorem Covers.refl (a : Value) : a.Covers a := .inr rfl

/-- Unknown covers everything. -/
theorem Covers.unknown (a : Value) : Value.unknown.Covers a := .inl rfl

/-- Covering is transitive. -/
theorem Covers.trans {a b c : Value} (h : a.Covers b) (h' : b.Covers c) : a.Covers c := by
  rcases h with rfl | rfl
  · exact .unknown c
  · exact h'

/-- What a write at a level stores in a variable that was created at another level. -/
def weakened (created level : Nat) (v : Value) : Value := if created < level then .unknown else v

/-- Outside of ambiguous blocks nothing is weakened. -/
theorem weakened_zero (created : Nat) (v : Value) : v.weakened created 0 = v :=
  if_neg (Nat.not_lt_zero created)

/-- What is stored covers what was to be stored. -/
theorem weakened_covers (created level : Nat) (v : Value) : (v.weakened created level).Covers v := by
  unfold weakened
  split
  · exact .unknown v
  · exact .refl v

/-- A plain value is stored as a plain value. -/
theorem isPlain_weakened {v : Value} (plain : v.isPlain = true) (created level : Nat) :
    (v.weakened created level).isPlain = true := by
  unfold weakened
  split
  · rfl
  · exact plain

end Value

/-- The variable of a handler: its name, its value and the level at which it was created. -/
structure Scope where
  name : String
  value : Value
  level : Nat

namespace Scope

/-- Assigns at a level to the innermost variable of a name. -/
def assign (level : Nat) (name : String) (v : Value) : List Scope → List Scope
  | [] => []
  | s :: rest =>
    if s.name = name then { s with value := v.weakened s.level level } :: rest
    else s :: assign level name v rest

/-- What a variable can become at a level. One that is older than the level keeps its value or
becomes unknown. -/
structure Fades (level : Nat) (s t : Scope) : Prop where
  name : t.name = s.name
  created : t.level = s.level
  value : s.level < level → t.value.Covers s.value

/-- A variable that was created at a level or before covers the variable of the same name of a run in
which everything is known. -/
structure Covers (level : Nat) (s t : Scope) : Prop where
  name : s.name = t.name
  created : s.level ≤ level
  value : s.value.Covers t.value
  known : t.value.IsKnown

/-- A variable fades when it is left alone. -/
theorem Fades.refl (level : Nat) (s : Scope) : s.Fades level s := ⟨rfl, rfl, fun _ => .refl _⟩

/-- A variable may fade twice. -/
theorem Fades.trans {level : Nat} {s t u : Scope} (h : s.Fades level t) (h' : t.Fades level u) :
    s.Fades level u where
  name := h'.name.trans h.name
  created := h'.created.trans h.created
  value older := (h'.value (h.created ▸ older)).trans (h.value older)

/-- What covers at a level still does after it has faded at a higher one. -/
theorem Covers.fades {level higher : Nat} {s s' t : Scope} (h : s.Covers level t)
    (lt : s.level < higher) (faded : s.Fades higher s') : s'.Covers level t where
  name := faded.name.trans h.name
  created := faded.created ▸ h.created
  value := (faded.value lt).trans h.value
  known := h.known

/-- Two lists that are related to a third one entry by entry are related to each other. -/
theorem forall₂_join {α β γ : Type} {R : α → β → Prop} {S : α → γ → Prop} {T : γ → β → Prop}
    {as : List α} {bs : List β} {cs : List γ} (hb : List.Forall₂ R as bs)
    (hc : List.Forall₂ S as cs) (h : ∀ a ∈ as, ∀ b c, R a b → S a c → T c b) :
    List.Forall₂ T cs bs := by
  induction hb generalizing cs with
  | nil =>
    cases hc
    exact .nil
  | @cons a b as bs hab _ ih =>
    cases hc with
    | cons hac rest =>
      exact .cons (h a List.mem_cons_self b _ hab hac)
        (ih rest fun a' ha' => h a' (List.mem_cons_of_mem a ha'))

variable {level : Nat} {name : String} {v w : Value} {ss ts : List Scope}

/-- An assignment stores an unknown value in what is older than the level, so that it fades. -/
theorem fades_assign (level : Nat) (name : String) (v : Value) (ss : List Scope) :
    List.Forall₂ (Fades level) ss (assign level name v ss) := by
  induction ss with
  | nil => exact .nil
  | cons s ss ih =>
    rw [assign]
    split
    · refine .cons ⟨rfl, rfl, fun older => ?_⟩ (List.forall₂_same.2 fun s _ => .refl level s)
      exact .inl (if_pos older)
    · exact .cons (.refl level s) ih

/-- Variables that cover others have the same names. -/
theorem any_eq_of_covers (h : List.Forall₂ (Covers level) ss ts) (name : String) :
    ss.any (·.name = name) = ts.any (·.name = name) := by
  induction h with
  | nil => rfl
  | cons h _ ih => rw [List.any_cons, List.any_cons, h.name, ih]

/-- Both runs assign to the same variable, and what they store is covered as before. -/
theorem covers_assign (h : List.Forall₂ (Covers level) ss ts) (hv : v.Covers w) (hw : w.IsKnown) :
    List.Forall₂ (Covers level) (assign level name v ss) (assign 0 name w ts) := by
  induction h with
  | nil => exact .nil
  | @cons s t ss ts hs rest ih =>
    rw [assign, assign, hs.name]
    split
    · refine .cons ⟨rfl, hs.created, ?_, ?_⟩ rest
      · rw [Value.weakened_zero]
        exact (Value.weakened_covers _ _ v).trans hv
      · rw [Value.weakened_zero]
        exact hw
    · exact .cons hs ih

/-- A variable that is unknown covers what is assigned to the other one. -/
theorem covers_assign_right (h : List.Forall₂ (Covers level) ss ts)
    (unknown : ∀ s, ss.find? (·.name = name) = some s → s.value = .unknown) (hw : w.IsKnown) :
    List.Forall₂ (Covers level) ss (assign 0 name w ts) := by
  induction h with
  | nil => exact .nil
  | @cons s t ss ts hs rest ih =>
    rw [assign, ← hs.name]
    split
    next same =>
      refine .cons ⟨rfl, hs.created, .inl (unknown s ?_), ?_⟩ rest
      · rw [List.find?_cons, decide_eq_true same]
      · rw [Value.weakened_zero]
        exact hw
    next other =>
      refine .cons hs (ih fun s' found => unknown s' ?_)
      rw [List.find?_cons, decide_eq_false other]
      exact found

end Scope

/-- What a program without calls, objects and loops can see and change. -/
structure Store where
  /-- The values of the properties of the global object. -/
  globals : String → Option Value
  /-- The variables of the handlers, the innermost first. -/
  scopes : List Scope := []
  /-- The ambiguity level. -/
  level : Nat := 0
  /-- The completions of the possible exits. -/
  exits : List Completion := []
  /-- An abrupt completion stayed although the last block of its `try` may have exited otherwise. -/
  overtaken : Prop := False

namespace Store

/-- The value of a global variable, which the global object may inherit. -/
def global (σ : Store) (name : String) : Value :=
  (σ.globals name).getD ((inherited? name).getD .undefined)

/-- True if a global variable has a value, its own or an inherited one. -/
def isBound (σ : Store) (name : String) : Bool := ((σ.globals name).or (inherited? name)).isSome

/-- The value of a variable. -/
def read (σ : Store) (name : String) : Value :=
  match σ.scopes.find? (·.name = name) with
  | some s => s.value
  | none => σ.global name

/-- Assigns to a global variable, unless it is one that never changes. -/
def setGlobal (σ : Store) (name : String) (v : Value) : Store :=
  if name ∈ fixedNames then σ
  else { σ with globals := fun other => if other = name then some v else σ.globals other }

/-- Replaces the variables of the handlers. -/
def withScopes (σ : Store) (scopes : List Scope) : Store := { σ with scopes }

/-- Assigns to a variable. -/
def write (σ : Store) (name : String) (v : Value) : Store :=
  if σ.scopes.any (·.name = name) then σ.withScopes (Scope.assign σ.level name v σ.scopes)
  else σ.setGlobal name (v.weakened 0 σ.level)

/-- Enters an ambiguous block. -/
def enter (σ : Store) : Store := { σ with level := σ.level + 1 }

/-- Leaves all ambiguous blocks but some. -/
def leave (σ : Store) (level : Nat) : Store := { σ with level }

/-- Adds the variable of a handler. -/
def push (σ : Store) (name : String) (v : Value) : Store :=
  { σ with scopes := ⟨name, v, σ.level⟩ :: σ.scopes }

/-- Removes the variable of a handler. -/
def pop (σ : Store) : Store := { σ with scopes := σ.scopes.tail }

/-- Records a possible exit. -/
def exit (σ : Store) (c : Completion) : Store := { σ with exits := σ.exits ++ [c] }

/-! ## Fading -/

/-- What a store can become in a run: what is older than its level fades, and possible exits are
added. -/
structure Fades (σ τ : Store) : Prop where
  level : τ.level = σ.level
  exits : σ.exits <+: τ.exits
  overtaken : σ.overtaken → τ.overtaken
  scopes : List.Forall₂ (Scope.Fades σ.level) σ.scopes τ.scopes
  globals : 0 < σ.level → ∀ name, τ.globals name = some .unknown ∨ τ.globals name = σ.globals name

variable {σ τ υ : Store}

/-- A store fades when it is left alone. -/
theorem Fades.refl (σ : Store) : σ.Fades σ where
  level := rfl
  exits := List.prefix_refl _
  overtaken := id
  scopes := List.forall₂_same.2 fun s _ => .refl _ s
  globals _ _ := .inr rfl

/-- A store may fade twice. -/
theorem Fades.trans (h : σ.Fades τ) (h' : τ.Fades υ) : σ.Fades υ where
  level := h'.level.trans h.level
  exits := h.exits.trans h'.exits
  overtaken := h'.overtaken ∘ h.overtaken
  scopes := by
    have second : List.Forall₂ (Scope.Fades σ.level) τ.scopes υ.scopes := h.level ▸ h'.scopes
    exact Scope.forall₂_join second h.scopes.flip fun _ _ _ _ later earlier =>
      Scope.Fades.trans earlier later
  globals positive name := by
    rcases h'.globals (h.level ▸ positive) name with unknown | same
    · exact .inl unknown
    · rw [same]
      exact h.globals positive name

/-- A global variable that is assigned in a block fades. -/
theorem fades_setGlobal (σ : Store) (name : String) (v : Value) :
    σ.Fades (σ.setGlobal name (v.weakened 0 σ.level)) := by
  unfold setGlobal
  split
  · exact .refl σ
  · refine { Fades.refl σ with globals := fun positive other => ?_ }
    by_cases same : other = name
    · exact .inl (by simp [same, Value.weakened, positive])
    · exact .inr (if_neg same)

/-- So does whatever variable a name stands for. -/
theorem fades_write (σ : Store) (name : String) (v : Value) : σ.Fades (σ.write name v) := by
  unfold write
  split
  · exact { Fades.refl σ with scopes := Scope.fades_assign .. }
  · exact fades_setGlobal ..

/-- A further possible exit only adds to those that are there. -/
theorem fades_exit (σ : Store) (c : Completion) : σ.Fades (σ.exit c) :=
  { Fades.refl σ with exits := List.prefix_append .. }

/-- What fades in an ambiguous block fades all the more around it. -/
theorem Fades.leave (h : σ.enter.Fades τ) : σ.Fades (τ.leave σ.level) where
  level := rfl
  exits := h.exits
  overtaken := h.overtaken
  scopes := h.scopes.imp fun _ _ faded =>
    { faded with value := fun older => faded.value (Nat.lt_succ_of_lt older) }
  globals _ := h.globals (Nat.succ_pos _)

/-- The variable of a handler is gone after the handler. -/
theorem Fades.pop {name : String} {v : Value} (h : (σ.push name v).Fades τ) : σ.Fades τ.pop where
  level := h.level
  exits := h.exits
  overtaken := h.overtaken
  scopes := by
    obtain ⟨s, rest, -, faded, same⟩ := List.forall₂_cons_left_iff.1 h.scopes
    rw [Store.pop, same]
    exact faded
  globals := h.globals

/-! ## Covering -/

/-- A store covers that of a run in which everything is known, nothing is ambiguous and there are no
possible exits. -/
structure Covers (σ τ : Store) : Prop where
  level : τ.level = 0
  exits : τ.exits = []
  scopes : List.Forall₂ (Scope.Covers σ.level) σ.scopes τ.scopes
  globals : ∀ name, σ.globals name = some .unknown ∨ σ.globals name = τ.globals name
  known : ∀ name v, τ.globals name = some v → v.IsKnown

/-- Everything is older than the level. -/
structure IsInside (σ : Store) : Prop where
  positive : 0 < σ.level
  older : ∀ s ∈ σ.scopes, s.level < σ.level

/-- What the global object inherits is known. -/
theorem isKnown_inherited (name : String) : ((inherited? name).getD .undefined).IsKnown := by
  unfold inherited?
  cases own : (core.object Intrinsic.objectPrototype.id).own? name with
  | none => exact ⟨rfl, rfl⟩
  | some d =>
    have checked := List.all_eq_true.1 globals_core.2.2 _ (Table.get?_eq_some_iff.1 own)
    simp only [Bool.and_eq_true, Bool.not_eq_true'] at checked
    cases d with
    | data v => exact ⟨checked.1.1, checked.1.2⟩
    | accessor => cases checked.1.1

/-- A store still covers what it covered when a block is entered. -/
theorem Covers.enter (h : σ.Covers τ) : σ.enter.Covers τ :=
  { h with scopes := h.scopes.imp fun _ _ hs => { hs with created := Nat.le_succ_of_le hs.created } }

/-- In a new ambiguous block everything is older than the level. -/
theorem Covers.isInside_enter (h : σ.Covers τ) : σ.enter.IsInside where
  positive := Nat.succ_pos _
  older := by
    have below : ∀ {level : Nat} {ss ts : List Scope}, List.Forall₂ (Scope.Covers level) ss ts →
        ∀ s ∈ ss, s.level < level + 1 := by
      intro level ss ts h
      induction h with
      | nil => exact nofun
      | cons hs _ ih => exact List.forall_mem_cons.2 ⟨Nat.lt_succ_of_le hs.created, ih⟩
    exact below h.scopes

/-- A store that is inside an ambiguous block stays there. -/
theorem IsInside.fades (h : σ.IsInside) (faded : σ.Fades υ) : υ.IsInside where
  positive := faded.level ▸ h.positive
  older := by
    have below : ∀ {level : Nat} {ss ts : List Scope}, List.Forall₂ (Scope.Fades level) ss ts →
        (∀ s ∈ ss, s.level < level) → ∀ t ∈ ts, t.level < level := by
      intro level ss ts h
      induction h with
      | nil => simp
      | cons hs _ ih =>
        intro older
        rw [List.forall_mem_cons] at older ⊢
        exact ⟨hs.created ▸ older.1, ih older.2⟩
    rw [faded.level]
    exact below faded.scopes h.older

/-- What a store inside an ambiguous block covers is still covered when the store has faded. -/
theorem Covers.fades (h : σ.Covers τ) (inside : σ.IsInside) (faded : σ.Fades υ) : υ.Covers τ where
  level := h.level
  exits := h.exits
  scopes := Scope.forall₂_join h.scopes faded.scopes fun s hs t s' covers fades => by
    rw [faded.level]
    exact covers.fades (inside.older s hs) fades
  globals name := by
    rcases faded.globals inside.positive name with unknown | same
    · exact .inl unknown
    · rw [same]
      exact h.globals name
  known := h.known

/-- Around an ambiguous block a store covers what it covers at the end of the block. -/
theorem Covers.leave (h : σ.Covers τ) (faded : σ.enter.Fades υ) {τ' : Store} (h' : υ.Covers τ') :
    (υ.leave σ.level).Covers τ' where
  level := h'.level
  exits := h'.exits
  scopes := by
    have created : List.Forall₂ (fun s _ => s.level ≤ σ.level) υ.scopes τ.scopes :=
      Scope.forall₂_join h.scopes faded.scopes fun s _ t s' covers fades =>
        fades.created ▸ covers.created
    have both := List.forall₂_iff_get.1 created
    refine List.forall₂_iff_get.2 ⟨h'.scopes.length_eq, fun i hi hi' => ?_⟩
    exact { (List.forall₂_iff_get.1 h'.scopes).2 i hi hi' with
      created := both.2 i hi (both.1 ▸ hi) }
  globals := h'.globals
  known := h'.known

/-- Both runs may have a further variable, with values that are covered. -/
theorem Covers.push {v w : Value} (h : σ.Covers τ) (hv : v.Covers w) (hw : w.IsKnown)
    (name : String) : (σ.push name v).Covers (τ.push name w) :=
  { h with scopes := .cons ⟨rfl, Nat.le_refl _, hv, hw⟩ h.scopes }

/-- Both runs may drop their last variable. -/
theorem Covers.pop (h : σ.Covers τ) : σ.pop.Covers τ.pop :=
  { h with scopes := by simpa [Store.pop] using List.forall₂_drop 1 h.scopes }

/-- The possible exits of the covering run do not matter. -/
theorem Covers.withExits (h : σ.Covers τ) (exits : List Completion) :
    Store.Covers { σ with exits } τ := { h with }

/-! ### Variables -/

/-- A global variable is unknown or the same, and known in the covered run. -/
theorem Covers.global (h : σ.Covers τ) (name : String) :
    (σ.global name).Covers (τ.global name) ∧ (τ.global name).IsKnown := by
  unfold Store.global
  constructor
  · rcases h.globals name with unknown | same
    · rw [unknown]
      exact .unknown _
    · rw [same]
      exact .refl _
  · cases found : τ.globals name with
    | none => exact isKnown_inherited name
    | some v => exact h.known name v found

/-- So is any variable, since both runs find a name in the same place. -/
theorem Covers.read (h : σ.Covers τ) (name : String) :
    (σ.read name).Covers (τ.read name) ∧ (τ.read name).IsKnown := by
  -- both stores list the same names, so that both find a binding or neither
  have found : ∀ {ss ts : List Scope}, List.Forall₂ (Scope.Covers σ.level) ss ts →
      (ss.find? (·.name = name) = none ∧ ts.find? (·.name = name) = none) ∨
      ∃ s t, ss.find? (·.name = name) = some s ∧ ts.find? (·.name = name) = some t ∧
        s.Covers σ.level t := by
    intro ss ts h
    induction h with
    | nil => exact .inl ⟨rfl, rfl⟩
    | @cons s t ss ts hs _ ih =>
      rw [List.find?_cons, List.find?_cons, hs.name]
      by_cases same : t.name = name
      · rw [decide_eq_true same]
        exact .inr ⟨s, t, rfl, rfl, hs⟩
      · rw [decide_eq_false same]
        exact ih
  unfold Store.read
  rcases found h.scopes with ⟨noneLeft, noneRight⟩ | ⟨s, t, left, right, hs⟩
  · rw [noneLeft, noneRight]
    exact h.global name
  · rw [left, right]
    exact ⟨hs.value, hs.known⟩

/-- Both runs may assign to a global variable. -/
theorem Covers.setGlobal {v w : Value} (h : σ.Covers τ) (hv : v.Covers w) (hw : w.IsKnown)
    (name : String) : (σ.setGlobal name v).Covers (τ.setGlobal name w) := by
  unfold Store.setGlobal
  split
  · exact h
  · refine { h with globals := fun other => ?_, known := fun other u found => ?_ }
    · by_cases same : other = name
      · rcases hv with rfl | rfl <;> simp [same]
      · simpa [same] using h.globals other
    · by_cases same : other = name
      · obtain rfl : w = u := by simpa [same] using found
        exact hw
      · exact h.known other u (by simpa [same] using found)

/-- A global variable that is unknown covers every value of the other one. -/
theorem Covers.setGlobal_right {w : Value} (h : σ.Covers τ) {name : String}
    (unknown : σ.globals name = some .unknown) (hw : w.IsKnown) :
    σ.Covers (τ.setGlobal name w) := by
  unfold Store.setGlobal
  split
  · exact h
  · refine { h with globals := fun other => ?_, known := fun other u found => ?_ }
    · by_cases same : other = name
      · rw [same]
        exact .inl unknown
      · simpa [same] using h.globals other
    · by_cases same : other = name
      · obtain rfl : w = u := by simpa [same] using found
        exact hw
      · exact h.known other u (by simpa [same] using found)

/-- Both runs may assign to whatever variable a name stands for. -/
theorem Covers.write {v w : Value} (h : σ.Covers τ) (hv : v.Covers w) (hw : w.IsKnown)
    (name : String) : (σ.write name v).Covers (τ.write name w) := by
  unfold Store.write
  rw [Scope.any_eq_of_covers h.scopes, h.level, Value.weakened_zero]
  split
  · exact { h with scopes := Scope.covers_assign h.scopes hv hw }
  · exact h.setGlobal ((Value.weakened_covers _ _ v).trans hv) hw name

/-- A variable that is unknown covers every value that is assigned to the other one. -/
theorem Covers.write_right {w : Value} (h : σ.Covers τ) {name : String}
    (unknown : σ.read name = .unknown) (hw : w.IsKnown) : σ.Covers (τ.write name w) := by
  unfold Store.write
  rw [h.level, Value.weakened_zero]
  rw [Store.read] at unknown
  split
  next bound =>
    refine { h with scopes := Scope.covers_assign_right h.scopes (fun s found => ?_) hw }
    rw [found] at unknown
    exact unknown
  next free =>
    rw [← Scope.any_eq_of_covers h.scopes] at free
    have absent : σ.scopes.find? (·.name = name) = none := by
      rw [List.find?_eq_none]
      intro s hs same
      exact free (List.any_eq_true.2 ⟨s, hs, same⟩)
    rw [absent] at unknown
    -- an unbound name is unknown only as a global, for what is inherited is known
    have there : σ.globals name = some .unknown := by
      change σ.global name = .unknown at unknown
      rw [Store.global] at unknown
      cases found : σ.globals name with
      | none =>
        have known := (isKnown_inherited name).known
        rw [found, Option.getD_none] at unknown
        rw [unknown] at known
        cases known
      | some v =>
        rw [found] at unknown
        exact congrArg some unknown
    exact h.setGlobal_right there hw

end Store

end AbstractScript
