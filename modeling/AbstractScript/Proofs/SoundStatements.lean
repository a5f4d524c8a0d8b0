import AbstractScript.Proofs.Simulation
import AbstractScript.Proofs.SoundExpressions

/-!
# Sound statements

A statement is sound if wherever its names are bound it tracks one effect, which lets every store
fade and simulates itself (`SoundEnd`). Each rule of the core without loops gives a sound statement
if its parts are sound.
-/
namespace AbstractScript

open Eval

theorem Completion.IsTame.updateEmpty {c : Completion} (h : c.IsTame) (value : Option Value) :
    SameEnd (c.updateEmpty value) (c.updateEmpty value) where
  same := rfl
  tame := by
    refine ⟨?_, fun throws => ?_⟩
    · rw [kind_updateEmpty]
      exact h.notReturn
    · rw [kind_updateEmpty] at throws
      obtain ⟨v, thrown, plain⟩ := h.thrown throws
      exact ⟨v, by rw [value_updateEmpty, thrown, Option.some_or], plain⟩

/-- A statement whose end where some variables are unknown accounts for its end where they are
known. -/
def SoundEnd (u : Setup) (known scope : List String) (x : Run Completion) : Prop :=
  ∃ d : Effect Completion, Effect.Fading d ∧ Effect.Simulates d d ∧
    ∀ Γ : Handlers, Γ.Binds known scope → Eval.Tracks u known Γ SameEnd x d

namespace SoundEnd

variable {u : Setup} {known scope : List String} {x y : Run Completion}

theorem ruled (rules : u.rules = .core) (h : SoundEnd u known scope x) (kind : NodeKind) (span : Span) :
    SoundEnd u known scope (ruled kind span x) := by
  obtain ⟨d, fading, simulates, tracks⟩ := h
  exact ⟨d, fading, simulates, fun Γ binds => (tracks Γ binds).ruled rules kind span⟩

/-! ## Simple statements -/

/-- A statement that ends the same way everywhere. -/
theorem pure {c : Completion} (notReturn : c.kind ≠ .returns) (notThrow : c.kind ≠ .throws) :
    SoundEnd u known scope (return c) := by
  have matched : c.Covers c := ⟨rfl, rfl, fun throws => absurd throws notThrow⟩
  refine ⟨Pure.pure c, .pure c, fun σ τ covers _ => ⟨covers, fun _ => matched, fun normal => ?_⟩,
    fun _ _ => .pure ⟨rfl, notReturn, fun throws => absurd throws notThrow⟩⟩
  exact .of_normal normal

theorem expression (h : SoundValue u known scope x) :
    SoundEnd u known scope (Rule.expression x).complete := by
  obtain ⟨d, fading, relates, tracks⟩ := h
  refine ⟨Effect.completed d, fading.completed, ?_, fun Γ binds => Rule.Tracks.complete ?_⟩
  · exact .of_normal (R := fun c c' => c.isNormal = true ∧ c'.isNormal = true)
      (.bind relates fun _ _ _ => .pure ⟨rfl, rfl⟩) fun _ _ => id
  · refine .bind (.value (tracks Γ binds)) fun v w same => ?_
    obtain ⟨rfl, -⟩ := same
    exact .pure (.of_isNormal rfl)

theorem throws (h : SoundValue u known scope x) : SoundEnd u known scope (Rule.throws x).complete := by
  obtain ⟨d, fading, relates, tracks⟩ := h
  refine ⟨do return .throws (← d), .bind fading fun _ => .pure _,
    .bind relates fading fun v w covers => ?_, fun Γ binds => Rule.Tracks.complete ?_⟩
  · intro σ τ stores _
    exact .of_isAbrupt stores rfl
      ⟨rfl, rfl, fun _ => ⟨v, w, rfl, rfl, covers.covers, covers.known⟩⟩
  · refine .bind (.value (tracks Γ binds)) fun v w same => ?_
    obtain ⟨rfl, plain⟩ := same
    exact .pure ⟨rfl, nofun, fun _ => ⟨v, rfl, plain⟩⟩

/-- The initial values of variables that are bound. -/
theorem exists_declarators {ds : List (String × Option (Run Completion))}
    (h : ∀ d ∈ ds, ∀ x ∈ d.2, d.1 ∈ scope ∧ SoundValue u known scope x) :
    ∃ d : Effect Unit, Effect.Fading d ∧ Effect.Relates (fun _ _ => True) d d ∧
      ∀ Γ : Handlers, Γ.Binds known scope →
        Rule.Tracks u known Γ (fun _ _ => True) (Rule.declarators ds) d := by
  induction ds with
  | nil => exact ⟨Pure.pure (), .pure _, .pure trivial, fun _ _ => .pure trivial⟩
  | cons first rest ih =>
    rw [List.forall_mem_cons] at h
    obtain ⟨e, fading', relates', tracks'⟩ := ih h.2
    obtain ⟨name, _ | x⟩ := first
    -- a declarator without initializer does nothing
    · exact ⟨e, fading', relates', tracks'⟩
    · obtain ⟨listed, d, fading, relates, tracks⟩ := h.1 x rfl
      refine ⟨do
        let v ← d
        Effect.write name v
        e, .bind fading fun _ => .bind (.write name _) fun _ => fading',
        .bind relates fun _ _ covers => .bind (.write covers name) fun _ _ _ => relates',
        fun Γ binds => ?_⟩
      have refers : Refers u known Γ name (Rule.resolve name) := Rule.Tracks.resolve (binds name listed)
      refine refers.bind (.bind (.value (tracks Γ binds)) fun v _ same => ?_)
      obtain ⟨rfl, plain⟩ := same
      exact .bind (.native (tracks_putValue plain name)) fun _ _ _ => tracks' Γ binds

theorem varDeclaration {ds : List (String × Option (Run Completion))}
    (h : ∀ d ∈ ds, ∀ x ∈ d.2, d.1 ∈ scope ∧ SoundValue u known scope x) :
    SoundEnd u known scope (Rule.varDeclaration ds).complete := by
  obtain ⟨d, fading, relates, tracks⟩ := exists_declarators h
  refine ⟨do
    d
    return .empty, .bind fading fun _ => .pure _, ?_, fun Γ binds => Rule.Tracks.complete ?_⟩
  · exact .of_normal (R := fun c c' => c.isNormal = true ∧ c'.isNormal = true)
      (.bind relates fun _ _ _ => .pure ⟨rfl, rfl⟩) fun _ _ => id
  · exact .bind (tracks Γ binds) fun _ _ _ => .pure (.of_isNormal rfl)

/-! ## Statement lists -/

/-- What may or may not happen after the last statement is nothing. -/
theorem ambiguously_runAll_nil (c : Completion) : (do
    let _ ← Effect.ambiguously (Effect.runAll none [])
    return c : Effect Completion) = Pure.pure c := rfl

/-- Statements in order track the effects of the statements in order. -/
theorem tracks_runAll {Γ : Handlers} {steps : List Step} {ds : List (Effect Completion)}
    (tracks : List.Forall₂ (fun s d => Eval.Tracks u known Γ SameEnd s.run d) steps ds)
    (fading : ∀ d ∈ ds, Effect.Fading d) (value : Option Value) :
    Eval.Tracks u known Γ SameEnd (Step.runAll value steps) (Effect.runAll value ds) := by
  induction tracks generalizing value with
  | nil => exact .pure (.of_isNormal rfl)
  | @cons s d rest ds first others ih =>
    rw [List.forall_mem_cons] at fading
    have ih := ih fading.2
    -- whether exits were noted since the mark is the same on both sides
    refine .bind .mark fun mark _ same => ?_
    subst same
    refine .bind first fun c _ ended => ?_
    obtain ⟨rfl, tame⟩ := ended
    split
    · exact .pure (tame.updateEmpty value)
    · refine .bind (.hasExitsSince mark) fun since _ same => ?_
      subst same
      split
      · cases others with
        | nil =>
          rw [ambiguously_runAll_nil]
          exact .pure (.of_isNormal rfl)
        | cons =>
          exact .bind ((ih none).ambiguously (.runAll fading.2 none) _)
            fun _ _ _ => .pure (.of_isNormal rfl)
      · exact ih _

/-- Sound statements have effects. -/
theorem exists_effects {steps : List Step} (h : ∀ s ∈ steps, SoundEnd u known scope s.run) :
    ∃ ds : List (Effect Completion), (∀ d ∈ ds, Effect.Fading d) ∧
      (∀ d ∈ ds, Effect.Simulates d d) ∧ ∀ Γ : Handlers, Γ.Binds known scope →
        List.Forall₂ (fun s d => Eval.Tracks u known Γ SameEnd s.run d) steps ds := by
  induction steps with
  | nil => exact ⟨[], by simp, by simp, fun _ _ => .nil⟩
  | cons s rest ih =>
    rw [List.forall_mem_cons] at h
    obtain ⟨d, fading, simulates, tracks⟩ := h.1
    obtain ⟨ds, fading', simulates', tracks'⟩ := ih h.2
    exact ⟨d :: ds, List.forall_mem_cons.2 ⟨fading, fading'⟩,
      List.forall_mem_cons.2 ⟨simulates, simulates'⟩,
      fun Γ binds => .cons (tracks Γ binds) (tracks' Γ binds)⟩

theorem runAll {steps : List Step} (h : ∀ s ∈ steps, SoundEnd u known scope s.run) :
    SoundEnd u known scope (Step.runAll none steps) := by
  obtain ⟨ds, fading, simulates, tracks⟩ := exists_effects h
  exact ⟨Effect.runAll none ds, .runAll fading none, .runAll fading simulates none none,
    fun Γ binds => tracks_runAll (tracks Γ binds) fading none⟩

/-! ## Labels and branches -/

theorem labeled (h : SoundEnd u known scope x) (label : String) (passesOn : Bool) :
    SoundEnd u known scope (labeled label passesOn x) := by
  obtain ⟨d, fading, simulates, tracks⟩ := h
  refine ⟨Effect.labeled label d, .labeled fading label, .labeled simulates fading label,
    fun Γ binds => ?_⟩
  refine .aside_bind (.modify (fun _ => rfl) (fun _ => rfl) (fun _ => rfl) (fun _ => rfl)
    fun _ => rfl) fun _ => .bind .mark fun mark _ same => ?_
  subst same
  refine .bind (tracks Γ binds) fun c _ ended => ?_
  obtain ⟨rfl, tame⟩ := ended
  refine .bind (.claim mark _) fun _ _ _ => .pure ?_
  split
  · exact .of_isNormal rfl
  · exact ⟨rfl, tame⟩

theorem branch (span testSpan : Span) (hx : SoundValue u known scope x) (hy : SoundEnd u known scope y)
    {alternate : Option (Run Completion)} (hz : ∀ z ∈ alternate, SoundEnd u known scope z) :
    SoundEnd u known scope (Rule.branch span testSpan x y alternate).complete := by
  obtain ⟨t, fadingTest, relates, tracksTest⟩ := hx
  obtain ⟨d, fading, simulates, tracks⟩ := hy
  have other : SoundEnd u known scope (alternate.getD (return .empty)) := by
    cases alternate with
    | none => exact pure nofun nofun
    | some z => exact hz z rfl
  obtain ⟨e, fading', simulates', tracks'⟩ := other
  refine ⟨Effect.branch t d e, .branch fadingTest fading fading',
    .branch relates simulates simulates' fadingTest fading fading',
    fun Γ binds => Rule.Tracks.complete ?_⟩
  refine .bind (.value (tracksTest Γ binds)) fun v _ same => ?_
  obtain ⟨rfl, -⟩ := same
  cases v.toBool? with
  | some b =>
    cases b with
    | true => exact .lift (tracks Γ binds)
    | false => exact .lift (tracks' Γ binds)
  | none =>
    -- with an unknown test both branches run, as steps that possibly happen
    refine .aside_bind (aside_markUnknown _) fun _ => .lift (.ambiguously ?_ ?_ span)
    · refine .bind (tracks Γ binds) fun c _ ended => ?_
      obtain ⟨rfl, tame⟩ := ended
      exact .bind (.note tame) fun _ _ _ => tracks' Γ binds
    · exact .bind fading fun c => .bind (.note c) fun _ => fading'

end SoundEnd

/-! ## Exceptions -/

/-- A handler that is sound for every exception. -/
def SoundHandler (u : Setup) (known scope : List String) (h : Value → Run Completion) : Prop :=
  ∃ d : Value → Effect Completion, (∀ v, Effect.Fading (d v)) ∧
    (∀ v w, Effect.ValueCovers v w → Effect.Simulates (d v) (d w)) ∧
    ∀ Γ : Handlers, Γ.Binds known scope → ∀ v : Value, v.isPlain = true →
      Eval.Tracks u known Γ SameEnd (h v) (d v)

theorem SoundHandler.handle {u : Setup} {known scope : List String} {name : String} {body : Run Completion}
    (h : SoundEnd u known (name :: scope) body) : SoundHandler u known scope (handle name body) := by
  obtain ⟨d, fading, simulates, tracks⟩ := h
  refine ⟨fun v => Effect.withVariable name v d, fun v => .withVariable fading name v,
    fun v w covers => .withVariable simulates covers name, fun Γ binds v plain => ?_⟩
  refine .handle (fun e => tracks _ ?_) plain
  intro other listed
  rcases List.mem_cons.1 listed with rfl | listed
  · exact .inl List.mem_cons_self
  · exact (binds other listed).imp_left (List.mem_cons_of_mem _)

section

variable {u : Setup} {known : List String} {Γ : Handlers} {c : Completion}

theorem tracks_handleThrows {h : Handling} {d : Value → Effect Completion}
    (tracks : ∀ v : Value, v.isPlain = true → Eval.Tracks u known Γ SameEnd (h.run v) (d v))
    (fading : ∀ v, Effect.Fading (d v)) (mark : Nat) (tame : c.IsTame) :
    Eval.Tracks u known Γ SameEnd (handleThrows mark c h) (Effect.handleThrows mark c d) := by
  refine .bind (.claim mark _) fun possible _ same => ?_
  subst same
  split
  next throws =>
    obtain ⟨v, thrown, plain⟩ := tame.thrown (of_decide_eq_true throws)
    have value : c.getValue = v := by rw [Completion.getValue, thrown, Option.getD_some]
    rw [value]
    exact tracks v plain
  next =>
    rw [List.isEmpty_map]
    cases possible.isEmpty with
    | true => exact .pure ⟨rfl, tame⟩
    | false =>
      exact .bind ((tracks .unknown rfl).ambiguously (fading .unknown) h.span)
        fun _ _ _ => .pure ⟨rfl, tame⟩

/-- Recording that an abrupt completion stayed. -/
theorem tracks_overtake (p : Machine → Bool) (q : Nat → Prop)
    (same : ∀ m, p m ↔ q m.exits.size) : Eval.Tracks u known Γ (fun _ _ => True)
      (modify fun m => m.recordOvertaken (p m) : Run Unit) (Effect.overtake q) := by
  intro m σ rep
  refine ⟨(), m.recordOvertaken (p m), rfl, trivial, { rep with overtaken := ?_ }⟩
  show (m.history.overtaken || p m) = true ↔ (σ.overtaken ∨ q σ.exits.length)
  rw [Bool.or_eq_true, rep.overtaken, same, rep.size_exits]

theorem tracks_finish {f : Run Completion} {d : Effect Completion}
    (tracks : Eval.Tracks u known Γ SameEnd f d) (tame : c.IsTame) :
    Eval.Tracks u known Γ SameEnd (finish c f) (Effect.finish c d) := by
  refine .bind .mark fun mark _ same => ?_
  subst same
  refine .bind tracks fun final _ ended => ?_
  obtain ⟨rfl, tame'⟩ := ended
  refine .bind (tracks_overtake _ _ fun _ => by simp [and_assoc]) fun _ _ _ => .pure ?_
  split
  · exact ⟨rfl, tame'⟩
  · exact ⟨rfl, tame⟩

/-- What is left of a completion after the handler of a `try`, if there is one. -/
def Eval.handled (handler : Option Handling) (mark : Nat) (c : Completion) : Run Completion :=
  match handler with
  | some h => handleThrows mark c h
  | none => return c

/-- What is left of a completion after the last block of a `try`, if there is one. -/
def Eval.finished (finalizer : Option (Run Completion)) (c : Completion) : Run Completion :=
  match finalizer with
  | some f => finish c f
  | none => return c

theorem tryBlock_eq (block : Run Completion) (handler : Option Handling)
    (finalizer : Option (Run Completion)) : tryBlock block handler finalizer = (do
      let mark ← mark
      let c ← guarded handler.isSome block
      finished finalizer (← handled handler mark c)) := by
  cases handler <;> rfl

/-- The store does not show the ledger. -/
theorem tracks_guarded {block : Run Completion} {d : Effect Completion}
    (h : Eval.Tracks u known Γ SameEnd block d) (handled : Bool) :
    Eval.Tracks u known Γ SameEnd (guarded handled block) d := by
  have size : Eval.Aside u known Γ ledgerSize := fun m _ rep => ⟨m.ledger.size, m, rfl, trivial, rep⟩
  refine .aside_bind size fun _ => ?_
  refine .bind (g := fun b => Pure.pure b) h fun c c' related => ?_
  exact .aside_bind (.modify (fun _ => rfl) (fun _ => rfl) (fun _ => rfl) (fun _ => rfl)
    fun _ => rfl) fun _ => .pure related

/-- The handler of a `try`, if there is one, has an effect. -/
theorem exists_handled {scope : List String} {handler : Option Handling}
    (h : ∀ h ∈ handler, SoundHandler u known scope h.run) :
    ∃ d : Option (Value → Effect Completion), (∀ h ∈ d, ∀ v, Effect.Fading (h v)) ∧
      (∀ h ∈ d, ∀ v w, Effect.ValueCovers v w → Effect.Simulates (h v) (h w)) ∧
      ∀ Γ : Handlers, Γ.Binds known scope → ∀ (mark : Nat) (c : Completion), c.IsTame →
        Eval.Tracks u known Γ SameEnd (handled handler mark c) (Effect.handled d mark c) := by
  cases handler with
  | none => exact ⟨none, nofun, nofun, fun _ _ _ _ tame => .pure ⟨rfl, tame⟩⟩
  | some handling =>
    obtain ⟨d, fading, simulates, tracks⟩ := h handling rfl
    refine ⟨some d, ?_, ?_, fun Γ binds mark c tame =>
      tracks_handleThrows (tracks Γ binds) fading mark tame⟩
    · rintro _ ⟨⟩
      exact fading
    · rintro _ ⟨⟩
      exact simulates

/-- The last block of a `try`, if there is one, has an effect. -/
theorem exists_finished {scope : List String} {finalizer : Option (Run Completion)}
    (h : ∀ f ∈ finalizer, SoundEnd u known scope f) :
    ∃ d : Option (Effect Completion), (∀ f ∈ d, Effect.Fading f) ∧
      (∀ f ∈ d, Effect.Simulates f f) ∧ ∀ Γ : Handlers, Γ.Binds known scope →
        ∀ c : Completion, c.IsTame →
          Eval.Tracks u known Γ SameEnd (finished finalizer c) (Effect.finished d c) := by
  cases finalizer with
  | none => exact ⟨none, nofun, nofun, fun _ _ _ tame => .pure ⟨rfl, tame⟩⟩
  | some f =>
    obtain ⟨d, fading, simulates, tracks⟩ := h f rfl
    refine ⟨some d, ?_, ?_, fun Γ binds c tame => tracks_finish (tracks Γ binds) tame⟩
    · rintro _ ⟨⟩
      exact fading
    · rintro _ ⟨⟩
      exact simulates

theorem SoundEnd.tryBlock {scope : List String} {x : Run Completion}
    (hx : SoundEnd u known scope x) {handler : Option Handling}
    (hh : ∀ h ∈ handler, SoundHandler u known scope h.run) {finalizer : Option (Run Completion)}
    (hf : ∀ f ∈ finalizer, SoundEnd u known scope f) :
    SoundEnd u known scope (tryBlock x handler finalizer) := by
  obtain ⟨d, fading, simulates, tracks⟩ := hx
  obtain ⟨h, fadingHandler, simulatesHandler, tracksHandler⟩ := exists_handled hh
  obtain ⟨f, fadingLast, simulatesLast, tracksLast⟩ := exists_finished hf
  refine ⟨Effect.tryBlock d h f, .tryBlock fading fadingHandler fadingLast,
    .tryBlock fading simulates fadingHandler simulatesHandler fadingLast simulatesLast,
    fun Γ binds => ?_⟩
  rw [tryBlock_eq]
  refine .bind .mark fun mark _ same => ?_
  subst same
  refine .bind (tracks_guarded (tracks Γ binds) _) fun c _ ended => ?_
  obtain ⟨rfl, tame⟩ := ended
  refine .bind (tracksHandler Γ binds mark c tame) fun c _ ended => ?_
  obtain ⟨rfl, tame⟩ := ended
  exact tracksLast Γ binds c tame

end

end AbstractScript
