import AbstractScript.Evaluation.Program
import AbstractScript.Proofs.Lookup

/-!
# Declarations

Before a program runs, global variables can be given values from outside, and those that the program
declares are bound to undefined unless they are bound already. At this point every global variable
can be defined anew, unless its name is one of those whose values never change.
-/
namespace AbstractScript

open Eval Realm

namespace Realm

/-- Every global variable can be defined anew, unless its name is fixed. -/
def IsOpen (r : Realm) : Prop := ∀ name d, (r.object globalObject).own? name = some d →
  d.isConfigurable = true ∨ name ∈ fixedNames

theorem isConfigurable_core_global : (core.object globalObject).properties.toList.all
    (fun e => e.2.isConfigurable || e.1 ∈ fixedNames) = true := by
  decide +kernel

theorem isOpen_core : core.IsOpen := by
  intro name d own
  have listed := List.all_eq_true.1 isConfigurable_core_global _ (Table.get?_eq_some_iff.1 own)
  simpa using listed

variable {r : Realm} {name : String}

/-- A property that can be defined anew keeps the realm open. -/
theorem IsOpen.store (h : r.IsOpen) {d : Descriptor} (configurable : d.isConfigurable = true) :
    (r.modifyObject globalObject (·.store name d)).IsOpen := by
  intro other d' own
  rw [object_modifyObject] at own
  split at own
  · rw [ObjectRecord.own?_store] at own
    split at own
    · cases own
      exact .inl configurable
    · exact h other d' own
  · exact h other d' own

/-- A new value is admitted for every name that is not fixed. -/
theorem IsCore.accept (h : r.IsCore) (open' : r.IsOpen) (free : name ∉ fixedNames) (v : Value) :
    (r.object globalObject).accept name (.plain v) = .ok (.plain v) := by
  rw [ObjectRecord.accept]
  cases own : (r.object globalObject).own? name with
  | none => exact if_pos h.extensible
  | some d =>
    obtain ⟨old, e, c, rfl⟩ := h.own?_of_not_mem_fixedNames free own
    obtain rfl : c = true := (open' name _ own).resolve_right free
    rfl

end Realm

namespace Op

variable {s : Setup} {m : Machine} {name : String}

/-- A global variable whose name is fixed keeps its value. -/
theorem createData_fixed (h : m.realm.IsCore) (fixed : name ∈ fixedNames) (v : Value) :
    createData globalObject name v s m = .ok false m := by
  obtain ⟨old, own⟩ := h.own?_of_mem_fixedNames fixed
  have rejected : (m.realm.object globalObject).accept name (.plain v) =
      .error .notConfigurable := by
    rw [ObjectRecord.accept, own]
    rfl
  rw [createData, define, bind_apply, object_apply]
  show (if (m.realm.object globalObject).cls ≠ .array then _ else _ : Op Bool) s m = _
  rw [if_pos (by simp [h.cls]), defineOrdinary, bind_apply, object_apply]
  simp only [rejected]
  rfl

end Op

/-! ## Stores -/

namespace Store

/-- Gives global variables their values. -/
def defineAll (σ : Store) (globals : List (String × Value)) : Store :=
  globals.foldl (fun σ g => σ.setGlobal g.1 g.2) σ

/-- Binds a global variable to undefined unless it is bound. -/
def declare (σ : Store) (name : String) : Store :=
  if σ.isBound name then σ else σ.setGlobal name .undefined

/-- Binds global variables to undefined unless they are bound. -/
def declareAll (σ : Store) (names : List String) : Store := names.foldl declare σ

end Store

namespace Represents

variable {known : List String} {Γ : Handlers} {m : Machine} {σ : Store} {name : String}

theorem bind (h : Represents known Γ m σ) (found : σ.isBound name = true) :
    Represents (name :: known) Γ m σ :=
  { h with bound := List.forall_mem_cons.2 ⟨found, h.bound⟩ }

theorem mono {fewer : List String} (h : Represents known Γ m σ) (subset : fewer ⊆ known) :
    Represents fewer Γ m σ :=
  { h with bound := fun name listed => h.bound name (subset listed) }

theorem isBound_of_mem_fixedNames (h : Represents known Γ m σ) (fixed : name ∈ fixedNames) :
    σ.isBound name = true := by
  obtain ⟨v, own⟩ := h.core.own?_of_mem_fixedNames fixed
  rw [Store.isBound, h.globals, own]
  rfl

end Represents

/-! ## Operations -/

section

variable {known : List String} {Γ : Handlers} {s : Setup} {m : Machine} {σ : Store} {name : String}
  {v : Value}

/-- A global variable is given a value from outside. -/
theorem exists_createData (h : Represents known Γ m σ) (open' : m.realm.IsOpen)
    (plain : v.isPlain = true) (name : String) :
    ∃ b n, Op.createData globalObject name v s m = .ok b n ∧ n.realm.IsOpen ∧
      Represents (name :: known) Γ n (σ.setGlobal name v) := by
  by_cases fixed : name ∈ fixedNames
  · refine ⟨false, m, Op.createData_fixed h.core fixed v, open', ?_⟩
    rw [Store.setGlobal, if_pos fixed]
    exact h.bind (h.isBound_of_mem_fixedNames fixed)
  · refine ⟨true, m.storeGlobal name (.plain v),
      Op.define_global h.core (h.core.accept open' fixed v) false, open'.store rfl, ?_⟩
    have content : (Descriptor.plain v).content = v := rfl
    refine (h.storeGlobal fixed content plain rfl).bind ?_
    rw [Store.isBound, Store.setGlobal, if_neg fixed]
    simp

/-- A name that the program declares is bound. -/
theorem exists_declare (h : Represents known Γ m σ) (name : String) :
    ∃ n, Op.declare globalEnv name s m = .ok () n ∧
      Represents (name :: known) Γ n (σ.declare name) := by
  have binds := h.binds_global name
  cases bound : σ.isBound name with
  | true =>
    -- a name that is bound is not declared again
    refine ⟨m, ?_, ?_⟩
    · rw [Op.declare, bind_apply, get_apply]
      simp only [binds, bound]
      rfl
    · rw [Store.declare, if_pos bound]
      exact h.bind bound
  | false =>
    -- fixed names are bound from the beginning
    have free : name ∉ fixedNames := fun fixed => by
      rw [h.isBound_of_mem_fixedNames fixed] at bound
      cases bound
    have own : (m.realm.object globalObject).own? name = none := by
      rw [Store.isBound, h.globals, Option.isSome_or, Bool.or_eq_false_iff] at bound
      simpa using bound.1
    have accepted : (m.realm.object globalObject).accept name
        (.ofDescriptor (.data .undefined true true false)) =
        .ok (.data .undefined true true false) := by
      rw [ObjectRecord.accept, own]
      exact if_pos h.core.extensible
    have looked : (Op.environment globalEnv : Op _) s m =
        .ok (m.realm.environment globalEnv) m := rfl
    refine ⟨m.storeGlobal name (.data .undefined true true false), ?_, ?_⟩
    · rw [Op.declare, bind_apply, get_apply]
      simp only [binds, bound, Bool.not_false, if_true]
      rw [Op.createBinding, bind_apply, looked]
      simp only [h.root.store]
      rw [bind_apply, Op.define_global h.core accepted true]
      rfl
    · rw [Store.declare, if_neg (Bool.eq_false_iff.1 bound)]
      refine (h.storeGlobal free rfl rfl rfl).bind ?_
      rw [Store.isBound, Store.setGlobal, if_neg free]
      simp

/-- All names that the program declares are bound. -/
theorem exists_declareAll (names : List String) (h : Represents known Γ m σ) :
    ∃ n, Op.declareAll globalEnv names s m = .ok () n ∧
      Represents (names.reverse ++ known) Γ n (σ.declareAll names) := by
  induction names generalizing known m σ with
  | nil => exact ⟨m, rfl, h⟩
  | cons name rest ih =>
    obtain ⟨n, run, h⟩ := exists_declare (s := s) h name
    obtain ⟨k, run', h⟩ := ih h
    refine ⟨k, ?_, ?_⟩
    · show (Op.declare globalEnv name >>= fun _ => Op.declareAll globalEnv rest) s m = _
      rw [bind_apply, run]
      exact run'
    · rw [List.reverse_cons, List.append_assoc]
      exact h

end

/-! ## Covering -/

namespace Store

variable {σ τ : Store}

theorem Covers.defineAll (h : σ.Covers τ) {globals : List (String × Value)}
    (known : ∀ g ∈ globals, g.2.IsKnown) :
    (σ.defineAll (globals.map fun g => (g.1, .unknown))).Covers (τ.defineAll globals) := by
  induction globals generalizing σ τ with
  | nil => exact h
  | cons g rest ih =>
    rw [List.forall_mem_cons] at known
    exact ih (h.setGlobal (.unknown _) known.1 g.1) known.2

/-- A variable that only the covering run has bound already is unknown there. -/
theorem Covers.declare (h : σ.Covers τ) (name : String) :
    (σ.declare name).Covers (τ.declare name) := by
  have undefined : Value.IsKnown .undefined := ⟨rfl, rfl⟩
  have both : σ.globals name = some .unknown ∨ σ.isBound name = τ.isBound name :=
    (h.globals name).imp_right fun same => by rw [isBound, isBound, same]
  unfold Store.declare
  rcases both with unknown | same
  · have bound : σ.isBound name = true := by
      rw [isBound, unknown]
      rfl
    rw [if_pos bound]
    split
    · exact h
    · exact h.setGlobal_right unknown undefined
  · rw [same]
    split
    · exact h
    · exact h.setGlobal (.refl _) undefined name

theorem Covers.declareAll (h : σ.Covers τ) (names : List String) :
    (σ.declareAll names).Covers (τ.declareAll names) := by
  induction names generalizing σ τ with
  | nil => exact h
  | cons name rest ih => exact ih (h.declare name)

end Store

end AbstractScript
