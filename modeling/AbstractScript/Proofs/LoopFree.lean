import AbstractScript.Proofs.Names
import AbstractScript.Proofs.SoundStatements

/-!
# The loop-free core

Programs without calls, objects, loops, switches and `delete`, whose names are in scope: declared by
the program, bound by a handler around them, or global. Every expression and every statement of this
core is sound.
-/
namespace AbstractScript

open Eval

/-- True for plain assignment, and for that of an operator that needs no object. -/
def AssignmentOperator.isCore : AssignmentOperator → Bool
  | assign => true
  | compound operator => !operator.needsObject

mutual

/-- True for an expression of the core whose names are in scope. -/
def Expression.isCore (scope : List String) : Expression → Bool
  | .literal .. => true
  | .identifier id => id.name ∈ scope
  | .unary _ operator x => operator ≠ .delete && x.isCore scope
  | .update _ _ _ x => x.isName && x.isCore scope
  | .binary _ operator x y => !operator.needsObject && x.isCore scope && y.isCore scope
  | .assignment _ operator x y => operator.isCore && x.isName && x.isCore scope && y.isCore scope
  | .logical _ _ x y => x.isCore scope && y.isCore scope
  | .conditional _ test x y => test.isCore scope && x.isCore scope && y.isCore scope
  | .sequence _ xs => allCore scope xs
  | _ => false

/-- True if each of some expressions is in the core. -/
def allCore (scope : List String) : List Expression → Bool
  | [] => true
  | x :: rest => x.isCore scope && allCore scope rest

end

/-- True if the initial value of a variable, if there is one, is in the core. -/
def Declarator.isCore (scope : List String) (d : Declarator) : Bool :=
  match d.value with
  | none => true
  | some x => x.isCore scope

mutual

/-- True for a statement of the core whose names are in scope. -/
def Statement.isCore (scope : List String) : Statement → Bool
  | .expression _ x => x.isCore scope
  | .block b => b.isCore scope
  | .empty _ => true
  | .breaks _ label => label.isSome
  | .labeled _ _ s => s.isCore scope
  | .branch _ test s t => test.isCore scope && s.isCore scope && optionCore scope t
  | .throws _ x => x.isCore scope
  | .tryCatch _ b handler finalizer =>
    b.isCore scope && handlerCore scope handler && finalizerCore scope finalizer
  | .varDeclaration _ ds => ds.all (·.isCore scope)
  | _ => false

/-- True if a statement, if there is one, is in the core. -/
def optionCore (scope : List String) : Option Statement → Bool
  | none => true
  | some s => s.isCore scope

/-- True if the statements of a block are in the core. -/
def Block.isCore (scope : List String) : Block → Bool
  | .mk _ ss => bodyCore scope ss

/-- True if some statements are in the core. -/
def bodyCore (scope : List String) : List Statement → Bool
  | [] => true
  | s :: rest => s.isCore scope && bodyCore scope rest

/-- True if the block of a handler is in the core, where its parameter is in scope. -/
def handlerCore (scope : List String) : Option CatchClause → Bool
  | none => true
  | some (.mk _ id b) => b.isCore (id.name :: scope)

/-- True if a last block is in the core. -/
def finalizerCore (scope : List String) : Option Block → Bool
  | none => true
  | some b => b.isCore scope

end

/-! ## Declared names -/

section

variable {scope : List String}

/-- What a branch declares is declared by its statements. -/
theorem declaredNames_branch {span : Span} {test : Expression} {s : Statement}
    {t : Option Statement} (h : (Statement.branch span test s t).declaredNames ⊆ scope) :
    s.declaredNames ⊆ scope ∧ ∀ s ∈ t, s.declaredNames ⊆ scope := by
  cases t with
  | none =>
    simp only [Statement.declaredNames, List.append_subset] at h
    exact ⟨h.1, nofun⟩
  | some t =>
    simp only [Statement.declaredNames, List.append_subset] at h
    refine ⟨h.1, ?_⟩
    rintro _ ⟨⟩
    exact h.2

/-- What a `try` declares is declared by its blocks. -/
theorem declaredNames_tryCatch {span : Span} {b : Block} {handler : Option CatchClause}
    {finalizer : Option Block}
    (h : (Statement.tryCatch span b handler finalizer).declaredNames ⊆ scope) :
    b.declaredNames ⊆ scope ∧ (∀ clause ∈ handler, clause.body.declaredNames ⊆ scope) ∧
      ∀ b ∈ finalizer, b.declaredNames ⊆ scope := by
  have blocks : (Statement.tryCatch span b handler finalizer).declaredNames = b.declaredNames ++
      ((handler.map (·.body.declaredNames)).getD [] ++
        (finalizer.map Block.declaredNames).getD []) := by
    rcases handler with _ | ⟨span, id, body⟩ <;> cases finalizer <;>
      simp [Statement.declaredNames, CatchClause.body]
  rw [blocks, List.append_subset, List.append_subset] at h
  refine ⟨h.1, ?_, ?_⟩
  · rintro clause ⟨⟩
    exact h.2.1
  · rintro b ⟨⟩
    exact h.2.2

end

/-! ## Functions -/

mutual

/-- The core has no function declarations. -/
theorem Statement.hoistedFunctions_eq_nil {scope : List String} (s : Statement)
    (h : s.isCore scope = true) : s.hoistedFunctions = [] := by
  cases s with
  | block b => exact b.hoistedFunctions_eq_nil h
  | labeled span label s => exact s.hoistedFunctions_eq_nil h
  | branch span test s t =>
    simp only [Statement.isCore, Bool.and_eq_true] at h
    have first := s.hoistedFunctions_eq_nil h.1.2
    cases t with
    | none => simp [Statement.hoistedFunctions, first]
    | some t => simp [Statement.hoistedFunctions, first, t.hoistedFunctions_eq_nil h.2]
  | tryCatch span b handler finalizer =>
    simp only [Statement.isCore, Bool.and_eq_true] at h
    have first := b.hoistedFunctions_eq_nil h.1.1
    rcases handler with _ | ⟨span, id, body⟩
    · cases finalizer with
      | none => simp [Statement.hoistedFunctions, first]
      | some f => simp [Statement.hoistedFunctions, first, f.hoistedFunctions_eq_nil h.2]
    · have second := body.hoistedFunctions_eq_nil h.1.2
      cases finalizer with
      | none => simp [Statement.hoistedFunctions, first, second]
      | some f => simp [Statement.hoistedFunctions, first, second, f.hoistedFunctions_eq_nil h.2]
  | switch | functionDeclaration => cases h
  | _ => rfl

theorem Block.hoistedFunctions_eq_nil {scope : List String} (b : Block)
    (h : b.isCore scope = true) : b.hoistedFunctions = [] := by
  cases b with
  | mk span ss => exact AbstractScript.hoistedFunctions_eq_nil ss h

theorem hoistedFunctions_eq_nil {scope : List String} (ss : List Statement)
    (h : bodyCore scope ss = true) : hoistedFunctions ss = [] := by
  cases ss with
  | nil => rfl
  | cons s rest =>
    simp only [bodyCore, Bool.and_eq_true] at h
    simp [hoistedFunctions, s.hoistedFunctions_eq_nil h.1, hoistedFunctions_eq_nil rest h.2]

end

/-! ## Expressions -/

section

variable {u : Setup} {known scope : List String} {call : ScriptCall}

/-- A name that is in scope refers to its innermost binding. -/
theorem Expression.refers {x : Expression} (named : x.isName = true)
    (core : x.isCore scope = true) :
    ∃ name, ∀ Γ : Handlers, Γ.Binds known scope → Refers u known Γ name (x.refer call) := by
  cases x with
  | identifier id =>
    have listed : id.name ∈ scope := of_decide_eq_true core
    exact ⟨id.name, fun Γ binds => (Rule.Tracks.resolve (binds _ listed)).referring _ _⟩
  | _ => cases named

/-- In the core only names can be assigned to. -/
theorem Expression.isName_of_isTarget {x : Expression} (core : x.isCore scope = true)
    (target : x.isTarget = true) : x.isName = true := by
  cases x with
  | identifier id => rfl
  | member | index => cases core
  | _ => cases target

variable (rules : u.rules = .core)

include rules

set_option linter.unusedSectionVars false

mutual

/-- Every expression of the core is sound. -/
theorem Expression.sound (x : Expression) (h : x.isCore scope = true) :
    SoundValue u known scope (x.evaluate call) := by
  cases x with
  | literal span v => exact (SoundValue.literal v).ruled rules _ _
  | identifier id => exact (SoundValue.identifier (of_decide_eq_true h)).ruled rules _ _
  | unary span operator x =>
    simp only [Expression.isCore, Bool.and_eq_true, decide_eq_true_eq] at h
    exact (SoundValue.unary h.1 (x.sound h.2) fun target =>
      Expression.refers (Expression.isName_of_isTarget h.2 target) h.2).ruled rules _ _
  | update span operator leading x =>
    simp only [Expression.isCore, Bool.and_eq_true] at h
    obtain ⟨name, refers⟩ := Expression.refers h.1 h.2
    exact (SoundValue.update operator leading refers).ruled rules _ _
  | binary span operator x y =>
    simp only [Expression.isCore, Bool.and_eq_true, Bool.not_eq_true'] at h
    exact (SoundValue.binary h.1.1 (x.sound h.1.2) (y.sound h.2)).ruled rules _ _
  | assignment span operator x y =>
    simp only [Expression.isCore, Bool.and_eq_true] at h
    obtain ⟨name, refers⟩ := Expression.refers h.1.1.2 h.1.2
    refine (SoundValue.assignment ?_ refers (y.sound h.2)).ruled rules _ _
    rintro o rfl
    simpa [AssignmentOperator.isCore] using h.1.1.1
  | logical span operator x y =>
    simp only [Expression.isCore, Bool.and_eq_true] at h
    exact (SoundValue.logical operator span x.span (x.sound h.1) (y.sound h.2)).ruled rules _ _
  | conditional span test x y =>
    simp only [Expression.isCore, Bool.and_eq_true] at h
    exact (SoundValue.conditional span test.span (test.sound h.1.1) (x.sound h.1.2)
      (y.sound h.2)).ruled rules _ _
  | sequence span xs => exact (SoundValue.sequence (sound_evaluateAll xs h)).ruled rules _ _
  | _ => cases h

theorem sound_evaluateAll (xs : List Expression) (h : allCore scope xs = true) :
    ∀ x ∈ evaluateAll call xs, SoundValue u known scope x := by
  cases xs with
  | nil => nofun
  | cons x rest =>
    simp only [allCore, Bool.and_eq_true] at h
    exact List.forall_mem_cons.2 ⟨x.sound h.1, sound_evaluateAll rest h.2⟩

end

/-! ## Statements -/

theorem sound_initials {ds : List Declarator} (h : ds.all (·.isCore scope) = true)
    (declared : Declarator.names ds ⊆ scope) : ∀ d ∈ Declarator.initials call ds, ∀ x ∈ d.2,
      d.1 ∈ scope ∧ SoundValue u known scope x := by
  induction ds with
  | nil => nofun
  | cons d rest ih =>
    obtain ⟨span, id, value⟩ := d
    rw [List.all_cons, Bool.and_eq_true] at h
    have listed : id.name ∈ scope := declared List.mem_cons_self
    have others : Declarator.names rest ⊆ scope := fun name hname =>
      declared (List.mem_cons_of_mem _ hname)
    refine List.forall_mem_cons.2 ⟨?_, ih h.2 others⟩
    cases value with
    | none => nofun
    | some x =>
      rintro _ ⟨⟩
      exact ⟨listed, x.sound rules h.1⟩

mutual

/-- Every statement of the core that declares names in scope is sound. -/
theorem Statement.sound {scope : List String} (s : Statement) (h : s.isCore scope = true)
    (declared : s.declaredNames ⊆ scope) : SoundEnd u known scope (s.evaluate call) := by
  cases s with
  | expression span x => exact (SoundEnd.expression (x.sound rules h)).ruled rules _ _
  | block b => exact (b.sound h declared).ruled rules _ _
  | empty span => exact (SoundEnd.pure (c := .empty) nofun nofun).ruled rules _ _
  | breaks span label => exact (SoundEnd.pure (c := .breaks _) nofun nofun).ruled rules _ _
  | labeled span label s => exact ((s.sound h declared).labeled label.name s.takesLabels).ruled rules _ _
  | branch span test s t =>
    simp only [Statement.isCore, Bool.and_eq_true] at h
    obtain ⟨first, second⟩ := declaredNames_branch declared
    exact (SoundEnd.branch span test.span (test.sound rules h.1.1) (s.sound h.1.2 first)
      (sound_evaluateAlternate t h.2 second)).ruled rules _ _
  | throws span x => exact (SoundEnd.throws (x.sound rules h)).ruled rules _ _
  | tryCatch span b handler finalizer =>
    simp only [Statement.isCore, Bool.and_eq_true] at h
    obtain ⟨first, second, last⟩ := declaredNames_tryCatch declared
    exact ((b.sound h.1.1 first).tryBlock (sound_handling handler h.1.2 second)
      (sound_evaluateFinalizer finalizer h.2 last)).ruled rules _ _
  | varDeclaration span ds =>
    exact (SoundEnd.varDeclaration (sound_initials rules h declared)).ruled rules _ _
  | _ => cases h

theorem sound_evaluateAlternate {scope : List String} (t : Option Statement)
    (h : optionCore scope t = true)
    (declared : ∀ s ∈ t, s.declaredNames ⊆ scope) :
    ∀ x ∈ evaluateAlternate call t, SoundEnd u known scope x := by
  cases t with
  | none => nofun
  | some s =>
    rintro _ ⟨⟩
    exact s.sound h (declared s rfl)

theorem Block.sound {scope : List String} (b : Block) (h : b.isCore scope = true)
    (declared : b.declaredNames ⊆ scope) : SoundEnd u known scope (b.evaluate call) := by
  cases b with
  | mk span ss => exact .runAll (sound_steps ss h declared)

theorem sound_steps {scope : List String} (ss : List Statement) (h : bodyCore scope ss = true)
    (declared : listDeclaredNames ss ⊆ scope) :
    ∀ step ∈ Statement.steps call ss, SoundEnd u known scope step.run := by
  cases ss with
  | nil => nofun
  | cons s rest =>
    simp only [bodyCore, Bool.and_eq_true] at h
    simp only [listDeclaredNames, List.append_subset] at declared
    exact List.forall_mem_cons.2 ⟨s.sound h.1 declared.1, sound_steps rest h.2 declared.2⟩

theorem sound_handling {scope : List String} (handler : Option CatchClause)
    (h : handlerCore scope handler = true)
    (declared : ∀ clause ∈ handler, clause.body.declaredNames ⊆ scope) :
    ∀ x ∈ CatchClause.handling call handler, SoundHandler u known scope x.run := by
  cases handler with
  | none => nofun
  | some clause =>
    cases clause with
    | mk span id b =>
      rintro _ ⟨⟩
      have names := declared _ rfl
      have body : SoundEnd u known (id.name :: scope) (b.evaluate call) :=
        Block.sound b h fun name hname => List.mem_cons_of_mem _ (names hname)
      exact .handle body

theorem sound_evaluateFinalizer {scope : List String} (finalizer : Option Block)
    (h : finalizerCore scope finalizer = true)
    (declared : ∀ b ∈ finalizer, b.declaredNames ⊆ scope) :
    ∀ x ∈ evaluateFinalizer call finalizer, SoundEnd u known scope x := by
  cases finalizer with
  | none => nofun
  | some b =>
    rintro _ ⟨⟩
    exact b.sound h (declared b rfl)

end

end

end AbstractScript
