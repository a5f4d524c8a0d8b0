import AbstractScript.Proofs.Blurring
import AbstractScript.Proofs.Soundness
import Mathlib.Logic.Relation

/-!
# Variables that may or may not be assigned

An assignment in an ambiguous block leaves a variable from outside of the block unknown, so that it
has its value from before or an unknown one after everything that is evaluated in the block, and after
everything that only changes it in such blocks (`Statement.variable_kept_or_unknown`). An expression
that goes on after a call that may have thrown does so without a block, and takes what it assigns for
granted (`variable_assigned_callThenAssign`).
-/
namespace AbstractScript

/-! ## Variables -/

/-- The value of a property that has one. -/
def Descriptor.value? : Descriptor → Option Value
  | .data v _ _ _ => some v
  | .accessor .. => none

theorem Descriptor.Weakened.value? {d d' : Descriptor} {v : Value} (h : d.Weakened d')
    (value : d.value? = some v) : d'.value? = some v ∨ d'.value? = some .unknown := by
  rcases h with rfl | ⟨-, w, e, c, -, rfl⟩
  · exact .inl value
  · exact .inr rfl

/-- The value of a binding; undefined before its first value. -/
def Binding.content (x : Binding) : Value := x.value.getD .undefined

theorem Binding.Weakened.content {x x' : Binding} (h : x.Weakened x') :
    x'.content = x.content ∨ x'.content = .unknown := by
  rcases h with rfl | rfl
  · exact .inl rfl
  · exact .inr rfl

namespace Realm

/-- The value of a variable of an environment itself. A variable is a binding that cannot be deleted,
or a property with a value of an object that is no array. -/
def bound? (r : Realm) (e : EnvId) (name : String) : Option Value :=
  match (r.environment e).store with
  | .own b => (b.table.get? name).bind fun x => if x.deletable then none else some x.content
  | .properties o _ =>
    if (r.object o).cls = .array then none
    else ((r.object o).own? name).bind Descriptor.value?

/-- The ambiguity level at which an environment and its variables were created. -/
def scopeLevel (r : Realm) (e : EnvId) : Nat :=
  match (r.environment e).store with
  | .own _ => (r.environment e).createdLevel
  | .properties o _ => max (r.environment e).createdLevel (r.object o).createdLevel

/-- An environment with bindings of its own. -/
def OwnsBindings (r : Realm) (e : EnvId) : Prop := ∃ b, (r.environment e).store = .own b

instance (r : Realm) (e : EnvId) : Decidable (r.OwnsBindings e) :=
  decidable_of_iff ((r.environment e).bindings?.isSome = true) <| by
    rw [Environment.bindings?, OwnsBindings]
    cases (r.environment e).store <;> simp

variable {r r' : Realm} {e : EnvId} {name : String} {v : Value} {level : Nat}

theorem bound?_eq_some_of_own {b : Bindings} (own : (r.environment e).store = .own b) :
    r.bound? e name = some v ↔
      ∃ x, b.table.get? name = some x ∧ x.deletable = false ∧ x.content = v := by
  rw [bound?, own]
  dsimp only
  cases b.table.get? name with
  | none => simp
  | some x => cases x.deletable <;> simp

theorem bound?_eq_some_of_properties {o : ObjectId} {receiver : Bool}
    (properties : (r.environment e).store = .properties o receiver) :
    r.bound? e name = some v ↔ (r.object o).cls ≠ .array ∧
      ∃ d, (r.object o).own? name = some d ∧ d.value? = some v := by
  rw [bound?, properties]
  dsimp only
  split
  next array => simp [array]
  next ordinary => simp [ordinary, Option.bind_eq_some_iff]

/-- An environment with a variable is there. -/
theorem index_lt_of_bound? (value : r.bound? e name = some v) :
    e.index < r.environments.size := by
  by_contra missing
  rw [bound?, environment_of_size_le (Nat.not_lt.1 missing)] at value
  cases value

/-- An object with a property is there. -/
theorem index_lt_of_own? {o : ObjectId} {d : Descriptor} (own : (r.object o).own? name = some d) :
    o.index < r.objects.size := by
  by_contra missing
  rw [object_of_size_le (Nat.not_lt.1 missing)] at own
  cases own

/-- The variables of a blurred environment have their values from before or unknown ones. -/
theorem Blurred.bound? (h : r.Blurred level r') (own : r.OwnsBindings e)
    (created : r.scopeLevel e ≤ level) (value : r.bound? e name = some v) :
    r'.bound? e name = some v ∨ r'.bound? e name = some .unknown := by
  obtain ⟨b, own⟩ := own
  rw [scopeLevel, own] at created
  obtain ⟨b', own', kept⟩ := h e (index_lt_of_bound? value) created b own
  obtain ⟨x, found, lasting, rfl⟩ := (bound?_eq_some_of_own own).1 value
  obtain ⟨x', found', weakened⟩ := kept name x found lasting
  have lasting' : x'.deletable = false := weakened.deletable.trans lasting
  exact weakened.content.imp (fun same => (bound?_eq_some_of_own own').2 ⟨x', found', lasting', same⟩)
    fun unknown => (bound?_eq_some_of_own own').2 ⟨x', found', lasting', unknown⟩

/-- The variables of a framed realm have their values from before or unknown ones. -/
theorem Framed.bound? (h : r.Framed level r') (created : r.scopeLevel e ≤ level)
    (value : r.bound? e name = some v) :
    r'.bound? e name = some v ∨ r'.bound? e name = some .unknown := by
  have there := index_lt_of_bound? value
  cases store : (r.environment e).store with
  | own b =>
    have blurred : r.Blurred level r' := fun o ho created => (h.environment o ho created).blurred
    exact blurred.bound? ⟨b, store⟩ created value
  | properties o receiver =>
    rw [scopeLevel, store] at created
    obtain ⟨environment, object⟩ := Nat.max_le.1 created
    have weakened := h.environment e there environment
    simp only [Environment.Weakened, store] at weakened
    obtain ⟨ordinary, d, own, content⟩ := (bound?_eq_some_of_properties store).1 value
    have object := h.object o (index_lt_of_own? own) object
    obtain ⟨d', own', changed⟩ := object.kept name d own
    -- what is given up of an array is its length, which is no variable
    have changed : d.Weakened d' := changed.resolve_right fun length => ordinary length.1
    have ordinary' : (r'.object o).cls ≠ .array := object.cls ▸ ordinary
    exact (changed.value? content).imp
      (fun same => (bound?_eq_some_of_properties weakened).2 ⟨ordinary', d', own', same⟩)
      fun unknown => (bound?_eq_some_of_properties weakened).2 ⟨ordinary', d', own', unknown⟩

/-- An environment with bindings of its own keeps its kind. -/
theorem OwnsBindings.grow (own : r.OwnsBindings e) (there : e.index < r.environments.size)
    (grows : r.Grows r') : r'.OwnsBindings e := by
  obtain ⟨b, own⟩ := own
  cases store : (r'.environment e).store with
  | own b' => exact ⟨b', store⟩
  | properties o receiver =>
    rw [((grows.environment e there).kind o receiver).1 store] at own
    cases own

/-- The level of an environment with a variable stays as it is. -/
theorem scopeLevel_grow (grows : r.Grows r') (value : r.bound? e name = some v) :
    r'.scopeLevel e = r.scopeLevel e := by
  have there := index_lt_of_bound? value
  have alike := grows.environment e there
  cases store : (r.environment e).store with
  | own b =>
    obtain ⟨b', store'⟩ := OwnsBindings.grow ⟨b, store⟩ there grows
    rw [scopeLevel, scopeLevel, store, store']
    exact alike.createdLevel
  | properties o receiver =>
    obtain ⟨-, d, own, -⟩ := (bound?_eq_some_of_properties store).1 value
    rw [scopeLevel, scopeLevel, store, (alike.kind o receiver).2 store]
    dsimp only
    rw [alike.createdLevel, (grows.object o (index_lt_of_own? own)).createdLevel]

end Realm

/-! ## Changes of variables -/

namespace Machine

/-- A variable has two values one after the other around a new pass: something that may or may not
happen, inside of the scope of the variable. -/
def Passes (m n : Machine) (e : EnvId) (name : String) (v w : Value) : Prop :=
  ∃ before level after, n.history.passed before level after ∧ ¬ m.history.passed before level after ∧
    m.realm.scopeLevel e ≤ level ∧ before.bound? e name = some v ∧ after.bound? e name = some w

/-- What may or may not have happened to a variable. Its assignments happen in a block that was
entered after the variable was created, or the variable only changes in passes. -/
def PossiblyAssigns (m n : Machine) (e : EnvId) (name : String) : Prop :=
  m.realm.scopeLevel e < m.level ∨ ∃ v w, m.realm.bound? e name = some v ∧
    n.realm.bound? e name = some w ∧ Relation.ReflTransGen (m.Passes n e name) v w

namespace Blurring

variable {m n : Machine} {e : EnvId} {name : String} {u v w : Value} (blurring : m.Blurring n)
  (framing : m.realm.OwnsBindings e ∨ m.Framing n) (value : m.realm.bound? e name = some u)

include blurring framing value

/-- A pass leaves a variable from before as it is or makes it unknown. -/
theorem of_passes (h : m.Passes n e name v w) : w = v ∨ w = .unknown := by
  obtain ⟨before, level, after, passed, new, created, first, last⟩ := h
  obtain ⟨later, blurred⟩ := (blurring.history before level after passed).resolve_left new
  -- in the middle of the run the environment is no younger than it was at the start
  have created : before.scopeLevel e ≤ level := Realm.scopeLevel_grow later value ▸ created
  have outcome : after.bound? e name = some v ∨ after.bound? e name = some .unknown := by
    rcases framing with own | framing
    · exact blurred.bound? (own.grow (Realm.index_lt_of_bound? value) later) created first
    · exact ((framing.history before level after passed).resolve_left new).bound? created first
  simpa [last] using outcome

/-- A variable that only changes in passes has its value from before or an unknown one. -/
theorem of_reflTransGen (h : Relation.ReflTransGen (m.Passes n e name) v w) :
    w = v ∨ w = .unknown := by
  induction h with
  | refl => exact .inl rfl
  | tail _ pass ih =>
    rcases of_passes blurring framing value pass with same | unknown
    · rwa [same]
    · exact .inr unknown

/-- A variable that was possibly assigned has its value from before or an unknown one. -/
theorem bound? (possible : m.PossiblyAssigns n e name) :
    n.realm.bound? e name = some u ∨ n.realm.bound? e name = some .unknown := by
  rcases possible with lt | ⟨v, w, start, changed, passes⟩
  · rcases framing with own | framing
    · exact (blurring.blurred _ lt).bound? own (Nat.le_refl _) value
    · exact (framing.framed _ lt).bound? (Nat.le_refl _) value
  · obtain rfl : v = u := Option.some.inj (start.symm.trans value)
    rcases of_reflTransGen blurring framing value passes with rfl | rfl
    · exact .inl changed
    · exact .inr changed

end Blurring

end Machine

/-! ## The law of variables -/

/-- **What may or may not be assigned is not known afterwards.** After a statement a variable has its
value from before or an unknown one if it was only assigned possibly: the statement is evaluated in an
ambiguous block that was entered after the variable was created, or it only changes the variable in
such blocks. This holds of every binding of an environment, and of the properties of an object if no
native function can be called and the statement deletes no plain name. -/
theorem Statement.variable_kept_or_unknown (calls : Nat) (st : Statement) {s : Setup} {m : Machine}
    (running : m.contexts.isEmpty = false) {e : EnvId} {name : String} {v : Value}
    (value : m.realm.bound? e name = some v)
    (plain : m.realm.OwnsBindings e ∨ m.realm.Tame ∧ st.keepsNames = true)
    (possible : m.PossiblyAssigns ((st.evaluate (Eval.callWithin calls)).after s m) e name) :
    ((st.evaluate (Eval.callWithin calls)).after s m).realm.bound? e name = some v ∨
      ((st.evaluate (Eval.callWithin calls)).after s m).realm.bound? e name = some .unknown := by
  have blurring : m.Blurring ((st.evaluate (Eval.callWithin calls)).after s m) :=
    (Statement.keeps_evaluate (R := fun _ => Machine.Blurs) (Eval.callWithin_keeps calls) st
      fun no => absurd trivial no).after s m running
  refine blurring.bound? (plain.imp_right fun ⟨tame, names⟩ => ?_) value possible
  exact (Statement.keeps_evaluate (R := fun _ => Machine.Frames) (Eval.callWithin_keeps calls) st
    fun _ => names).after s m ⟨running, tame⟩

/-! ### Expressions that go on after a possible throw -/

open Analyzer

/-- `f(), x = false;` -/
def callThenAssign : Statement :=
  .expression default (.sequence default [callOf "f", assignAt "x" (boolAt false)])

/-- The statement in a `try`, after the declarations of a function that throws if the unknown global
is true and of a variable: `function f() { if (u) throw true; } var x = true;
try { f(), x = false; } catch (e) {}`. -/
def assigning : Program where
  span := default
  file := "assign.js"
  body :=
    [functionAt "f" [throwIfUnknown],
    .varDeclaration default [.mk default ⟨default, "x"⟩ (some (boolAt true))],
    .tryCatch default (.mk default [callThenAssign])
      (some (.mk default ⟨default, "e"⟩ (.mk default []))) none]

/-- What a run with the program is given. -/
def assignSetup : Setup := withUnknown.setup assigning

/-- The machine in which the `try` begins. -/
def assignStart : Machine := withUnknown.machineAfter assigning (assigning.body.take 2)

/-- The machine that the statement leaves. -/
def assignEnd (m : Machine) : Machine :=
  (callThenAssign.evaluate (Eval.callWithin 1)).after assignSetup m

/-- The environment of a handler with the parameter `x`. -/
def handlerScope : EnvId := assignStart.realm.nextEnvironment

/-- An ambiguous block in a handler with a parameter `x` that is true. -/
def handlerBlock : Machine :=
  ((assignStart.withVariable "x" (.bool true)).setLexicalEnv handlerScope).enterBlock

/-- In an ambiguous block the call may throw and the parameter of the handler is left unknown, although
there are native functions. -/
theorem variable_kept_or_unknown_handlerBlock :
    handlerBlock.exits.size < (assignEnd handlerBlock).exits.size ∧
      handlerBlock.realm.bound? handlerScope "x" = some (.bool true) ∧
      ((assignEnd handlerBlock).realm.bound? handlerScope "x" = some (.bool true) ∨
        (assignEnd handlerBlock).realm.bound? handlerScope "x" = some .unknown) := by
  have value : handlerBlock.realm.bound? handlerScope "x" = some (.bool true) := by decide +kernel
  exact ⟨by decide +kernel, value, Statement.variable_kept_or_unknown 1 callThenAssign
    (by decide +kernel) value (.inl (by decide +kernel)) (.inl (by decide +kernel))⟩

/-- The assignment after the call that may have thrown is taken for granted, although it does not
happen if `u` is true. -/
theorem variable_assigned_callThenAssign :
    assignStart.exits.size < (assignEnd assignStart).exits.size ∧
      assignStart.realm.bound? Realm.globalEnv "x" = some (.bool true) ∧
      (assignEnd assignStart).realm.bound? Realm.globalEnv "x" = some (.bool false) ∧
      (withUnknown.analyze assigning).global? "x" = some (.bool false) ∧
      (withUnknown.analyzeWith [("u", .bool true)] assigning).global? "x" = some (.bool true) := by
  decide +kernel

end AbstractScript
