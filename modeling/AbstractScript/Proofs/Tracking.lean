import AbstractScript.Evaluation.Program
import AbstractScript.Proofs.Representation

/-!
# Computations that track effects

What the parts of a rule do to a machine that represents a store. Each of them succeeds and leaves a
machine that represents the store after an effect; this composes (`Eval.Tracks.bind`,
`Rule.Tracks.bind`), so that a rule tracks the effect that is composed in the same way.
-/
namespace AbstractScript

open Eval Realm

variable {u : Setup} {known : List String} {Γ : Handlers}

namespace Eval

variable {ε α β γ δ : Type}

/-- In a machine that represents a store, the computation succeeds with a result that is related to
that of the effect, and it leaves a machine that represents the store after the effect. -/
def Tracks (u : Setup) (known : List String) (Γ : Handlers) (P : α → β → Prop) (x : Eval ε α)
    (d : Effect β) : Prop :=
  ∀ m σ, Represents known Γ m σ →
    ∃ a n, x u m = .ok a n ∧ P a (d.result σ) ∧ Represents known Γ n (d.after σ)

/-- The computation has no influence on the store. -/
abbrev Aside (u : Setup) (known : List String) (Γ : Handlers) (x : Eval ε α) : Prop :=
  Tracks u known Γ (fun _ _ => True) x (pure ())

namespace Tracks

variable {P : α → β → Prop} {Q : γ → δ → Prop}

/-- To return a value tracks the effect that gives a related one. -/
theorem pure {a : α} {b : β} (h : P a b) : Tracks u known Γ P (pure a : Eval ε α) (pure b) :=
  fun m _ rep => ⟨a, m, rfl, h, rep⟩

/-- What tracks two effects one after the other tracks their composition. -/
theorem bind {x : Eval ε α} {d : Effect β} {f : α → Eval ε γ} {g : β → Effect δ}
    (h : Tracks u known Γ P x d) (hf : ∀ a b, P a b → Tracks u known Γ Q (f a) (g b)) :
    Tracks u known Γ Q (x >>= f) (d >>= g) := by
  intro m σ rep
  obtain ⟨a, n, run, related, rep⟩ := h m σ rep
  rw [bind_apply, run]
  exact hf a _ related n _ rep

/-- What has no influence on the store leaves the effect to the rest. -/
theorem aside_bind {x : Eval ε α} {f : α → Eval ε γ} {d : Effect δ} (h : Aside u known Γ x)
    (hf : ∀ a, Tracks u known Γ Q (f a) d) : Tracks u known Γ Q (x >>= f) d :=
  bind (g := fun _ => d) h fun a _ _ => hf a

/-- To read the setup is no effect. -/
theorem setup (f : Setup → α) : Aside u known Γ (setup f : Eval ε α) :=
  fun m _ rep => ⟨f u, m, rfl, trivial, rep⟩

/-- To read the machine is no effect. -/
theorem get : Aside u known Γ (get : Eval ε Machine) := fun m _ rep => ⟨m, m, rfl, trivial, rep⟩

/-- A change of the machine that the store does not show. -/
theorem modify {f : Machine → Machine} (contexts : ∀ m, (f m).contexts = m.contexts)
    (scripts : ∀ m, (f m).scripts = m.scripts) (exits : ∀ m, (f m).exits = m.exits)
    (overtaken : ∀ m, (f m).history = m.history) (realm : ∀ m, (f m).realm = m.realm) :
    Aside u known Γ (modify f : Eval ε Unit) := fun m _ rep =>
  ⟨(), f m, rfl, trivial, rep.congr (contexts m) (scripts m) (exits m)
    (by rw [overtaken m]) (realm m)⟩

/-- What is done on the way out may only touch what does not represent the store. -/
theorem ensuring {x : Eval ε α} {d : Effect β} (h : Tracks u known Γ P x d) {f : Machine → Machine}
    (contexts : ∀ m, (f m).contexts = m.contexts) (scripts : ∀ m, (f m).scripts = m.scripts)
    (exits : ∀ m, (f m).exits = m.exits) (overtaken : ∀ m, (f m).history = m.history)
    (realm : ∀ m, (f m).realm = m.realm) : Tracks u known Γ P (x.ensuring f) d := by
  intro m σ rep
  obtain ⟨a, n, run, related, rep⟩ := h m σ rep
  refine ⟨a, f n, ?_, related, rep.congr (contexts n) (scripts n) (exits n)
    (by rw [overtaken n]) (realm n)⟩
  rw [ensuring_apply, run]

end Tracks

/-! ## Events and rules -/

/-- An event is no effect. -/
theorem aside_emit (e : Event) : Aside u known Γ (emit e : Eval ε Unit) :=
  .modify (fun _ => rfl) (fun _ => rfl) (fun _ => rfl) (fun _ => rfl) fun _ => rfl

/-- Neither is the mark of an unknown expression. -/
theorem aside_markUnknown (span : Span) : Aside u known Γ (markUnknown span : Eval ε Unit) :=
  .aside_bind (.setup _) fun _ =>
    .modify (fun _ => rfl) (fun _ => rfl) (fun _ => rfl) (fun _ => rfl) fun _ => rfl

/-- The events around a rule are no effect. -/
theorem Tracks.bracket {P : α → β → Prop} {body : Run α} {d : Effect β}
    (h : Tracks u known Γ P body d) (kind : NodeKind) (span : Span) (outcome : α → Completion) :
    Tracks u known Γ P (bracket kind span outcome body) d := by
  refine .aside_bind (.setup _) fun file => .aside_bind .get fun m => ?_
  refine .aside_bind (.modify (fun _ => rfl) (fun _ => rfl) (fun _ => rfl) (fun _ => rfl)
    fun _ => rfl) fun _ => .aside_bind (aside_emit _) fun _ => ?_
  refine .bind (g := fun b => Pure.pure b) (.ensuring h (fun _ => rfl) (fun _ => rfl)
    (fun _ => rfl) (fun _ => rfl) fun _ => rfl) fun a b related => ?_
  exact .aside_bind .get fun m => .aside_bind (aside_emit _) fun _ => .pure related

/-- With the core rules a node tracks what its rule tracks. -/
theorem Tracks.ruled (rules : u.rules = .core) {P : Completion → β → Prop} {core : Run Completion} {d : Effect β}
    (h : Tracks u known Γ P core d) (kind : NodeKind) (span : Span) :
    Tracks u known Γ P (ruled kind span core) d := by
  intro m σ rep
  obtain ⟨c, n, run, related, rep⟩ := h.bracket kind span id m σ rep
  refine ⟨c, n, ?_, related, rep⟩
  have handler : (Eval.setup (·.rules.handler? kind) : Run (Option Handler)) u m =
      .ok (some (.core kind)) m := by
    rw [setup_apply, rules]
    rfl
  rw [Eval.ruled, bind_apply, handler]
  simp only [Handler.apply, if_true]
  exact run

/-! ## Possible exits -/

/-- The machine has as many possible exits as the store. -/
theorem Tracks.mark : Tracks u known Γ (fun a b => a = b) (mark : Eval ε Nat) Effect.mark :=
  fun m _ rep => ⟨m.exits.size, m, rfl, rep.size_exits, rep⟩

/-- So it has exits since a mark when the store has. -/
theorem Tracks.hasExitsSince (mark : Nat) :
    Tracks u known Γ (fun a b => a = b) (hasExitsSince mark : Eval ε Bool)
      (Effect.hasExitsSince mark) := fun m σ rep => by
  refine ⟨decide (mark < m.exits.size), m, rfl, ?_, rep⟩
  rw [rep.size_exits]
  rfl

end Eval

/-- A completion that the core language can have: no return, and a throw has a plain value. -/
structure Completion.IsTame (c : Completion) : Prop where
  notReturn : c.kind ≠ .returns
  thrown : c.kind = .throws → ∃ v, c.value = some v ∧ v.isPlain = true

/-- The same completion, and a tame one. -/
structure SameEnd (c c' : Completion) : Prop where
  same : c = c'
  tame : c'.IsTame

/-- A normal completion is a tame one. -/
theorem SameEnd.of_isNormal {c : Completion} (normal : c.isNormal = true) : SameEnd c c := by
  have kind : c.kind = .normal := of_decide_eq_true normal
  exact ⟨rfl, by rw [kind]; decide, fun throws => by rw [kind] at throws; cases throws⟩

namespace Eval

variable {ε α β : Type}

/-- A tame completion that is noted becomes a possible exit on both sides. -/
theorem Tracks.note {c : Completion} (tame : c.IsTame) :
    Tracks u known Γ (fun _ _ => True) (note c : Eval ε Unit) (Effect.note c) := by
  intro m σ rep
  refine ⟨(), m.noteExit c, rfl, trivial, ?_⟩
  -- a tame completion that is abrupt is listed on both sides
  have added (abrupt : c.isAbrupt = true) : Represents known Γ (m.addExit c)
      ((Effect.note c).after σ) := by
    have after : (Effect.note c).after σ = σ.exit c := if_pos abrupt
    rw [after]
    exact { rep with exits := by simp [Machine.addExit, Store.exit, rep.exits] }
  unfold Machine.noteExit
  split
  next normal =>
    have after : (Effect.note c).after σ = σ := by
      refine if_neg ?_
      simp [Completion.isAbrupt, Completion.isNormal, normal]
    rw [after]
    exact rep
  next returns => exact absurd returns tame.notReturn
  next kind => exact added (by simp [Completion.isAbrupt, Completion.isNormal, kind])
  next kind => exact added (by simp [Completion.isAbrupt, Completion.isNormal, kind])
  next kind => exact added (by simp [Completion.isAbrupt, Completion.isNormal, kind])

/-- Exits are claimed on both sides, and those of the machine have the same completions. -/
theorem Tracks.claim (mark : Nat) (p : Completion → Bool) :
    Tracks u known Γ (fun l l' => l.map (·.completion) = l') (claim mark p : Eval ε _)
      (Effect.claim mark p) := by
  intro m σ rep
  have since : (m.exitsSince mark).map (·.completion) = σ.exits.drop mark := by
    rw [Machine.exitsSince_eq_drop, List.map_drop, rep.exits]
  have chosen (q : Completion → Bool) : ((m.exitsSince mark).filter (q ·.completion)).map
      (·.completion) = (σ.exits.drop mark).filter q := by
    rw [← since, List.filter_map]
    rfl
  refine ⟨m.claimed mark p, m.dropClaimed mark p, rfl, chosen p, ?_⟩
  have exits : (m.dropClaimed mark p).exits.toList.map (·.completion) =
      ((Effect.claim mark p).after σ).exits := by
    rw [Machine.exits_dropClaimed, List.map_append, List.map_take, rep.exits, chosen fun c => !p c]
    rfl
  -- apart from the exits, only what records the run is changed
  obtain ⟨left, ledger, course, same⟩ : ∃ left ledger course,
      m.dropClaimed mark p = { m with exits := left, ledger, course } := by
    unfold Machine.dropClaimed
    split
    · exact ⟨m.exits, m.ledger, m.course, rfl⟩
    · exact ⟨_, _, _, rfl⟩
  rw [same] at exits ⊢
  exact { rep with exits := exits }

/-- The record of a pass is no effect. -/
theorem Tracks.recorded {P : α → β → Prop} {x : Eval ε α} {d : Effect β}
    (h : Tracks u known Γ P x d) : Tracks u known Γ P (recorded x) d := by
  intro m σ rep
  obtain ⟨a, n, run, related, rep⟩ := h m σ rep
  refine ⟨a, m.recordPass n, ?_, related, rep.congr rfl rfl rfl Iff.rfl rfl⟩
  rw [Eval.recorded, run]

end Eval

namespace Represents

variable {m : Machine} {σ τ : Store}

/-- Another ambiguous depth of the context is another level of the store. -/
theorem withLevel (h : Represents known Γ m σ) (level : Nat) :
    Represents known Γ (m.withContexts ⟨[Γ.context level]⟩) (σ.leave level) :=
  { h with
    contexts := rfl
    core := h.core.congr rfl
    root := { h.root with }
    handlers := h.handlers.congr (Nat.le_refl _) fun _ _ => rfl }

end Represents

namespace Eval

variable {ε α β : Type}

/-- The level of the store is that of the one context, in a block and after it. -/
theorem Tracks.inBlock {P : α → β → Prop} {x : Eval ε α} {d : Effect β}
    (h : Tracks u known Γ P x d) (hd : Effect.Fading d) (span : Span) :
    Tracks u known Γ P (inBlock span x) (Effect.inBlock d) := by
  refine .aside_bind (.setup _) fun file => .aside_bind (.modify (fun _ => rfl) (fun _ => rfl)
    (fun _ => rfl) (fun _ => rfl) fun _ => rfl) fun _ => ?_
  intro m σ rep
  have entered : m.enterBlock = m.withContexts ⟨[Γ.context (σ.level + 1)]⟩ := by
    rw [Machine.enterBlock, rep.contexts]
    rfl
  have index : m.contexts.enterIndex? = some 0 := by
    rw [rep.contexts]
    rfl
  -- the block itself runs one level deeper
  obtain ⟨a, n, run, related, rep'⟩ := h _ _ (rep.withLevel (σ.level + 1))
  have exited : n.exitBlock (some 0) = n.withContexts ⟨[Γ.context σ.level]⟩ := by
    have level : (d.after σ.enter).level = σ.level + 1 := (hd σ.enter).level
    have left : ContextStack.exitBlock ⟨[Γ.context (σ.level + 1)]⟩ 0 = ⟨[Γ.context σ.level]⟩ := rfl
    rw [Machine.exitBlock, rep'.contexts]
    show n.withContexts (ContextStack.exitBlock ⟨[Γ.context (d.after σ.enter).level]⟩ 0) = _
    rw [level, left]
  refine ⟨a, n.exitBlock (some 0), ?_, related, ?_⟩
  · simp only [bind_apply, get_apply, index, modify_apply, ensuring_apply, entered, run]
  · rw [exited]
    exact rep'.withLevel σ.level

/-- What may or may not happen is noted on both sides. -/
theorem Tracks.ambiguously {x : Run Completion} {d : Effect Completion}
    (h : Tracks u known Γ SameEnd x d) (hd : Effect.Fading d) (span : Span) :
    Tracks u known Γ SameEnd (ambiguously span x) (Effect.ambiguously d) := by
  have noted : Effect.Fading (do
      let c ← d
      Effect.note c
      return possibly c) := .bind hd fun c => .bind (.note c) fun _ => .pure _
  refine .recorded (.inBlock (.bind h fun c c' ended => ?_) noted span)
  obtain ⟨rfl, tame⟩ := ended
  refine .bind (.note tame) fun _ _ _ => .pure (.of_isNormal ?_)
  unfold possibly
  split <;> rfl

end Eval

/-! ## Rules -/

/-- An expression has ended with a plain value. -/
structure GivesValue (c : Completion) (v : Value) : Prop where
  same : c = .normal v
  plain : v.isPlain = true

/-- The same value, and a plain one. -/
structure SamePlain (v w : Value) : Prop where
  same : v = w
  plain : w.isPlain = true

namespace Rule

variable {α β γ δ : Type} {P : α → β → Prop} {Q : γ → δ → Prop}

/-- A part of a rule does not end the rule, and it tracks an effect. -/
def Tracks (u : Setup) (known : List String) (Γ : Handlers) (P : α → β → Prop) (r : Rule α)
    (d : Effect β) : Prop :=
  Eval.Tracks u known Γ (fun a b => ∃ a', a = .ok a' ∧ P a' b) r.run d

namespace Tracks

/-- A rule that returns a value tracks the effect that gives a related one. -/
theorem pure {a : α} {b : β} (h : P a b) : Tracks u known Γ P (pure a) (pure b) :=
  Eval.Tracks.pure ⟨a, rfl, h⟩

/-- Rules are composed as effects are. -/
theorem bind {r : Rule α} {d : Effect β} {f : α → Rule γ} {g : β → Effect δ}
    (h : Tracks u known Γ P r d) (hf : ∀ a b, P a b → Tracks u known Γ Q (f a) (g b)) :
    Tracks u known Γ Q (r >>= f) (d >>= g) := by
  rw [Tracks, ExceptT.run_bind]
  refine Eval.Tracks.bind h fun a b related => ?_
  obtain ⟨a', rfl, related⟩ := related
  exact hf a' b related

/-- An evaluation tracks as a rule what it tracks by itself. -/
theorem lift {x : Run α} {d : Effect β} (h : Eval.Tracks u known Γ P x d) :
    Tracks u known Γ P (lift x) d := by
  show Eval.Tracks u known Γ _ (Except.ok <$> x) d
  rw [map_eq_pure_bind]
  exact Eval.Tracks.bind (g := fun b => Pure.pure b) h fun a b related => .pure ⟨a, rfl, related⟩

/-- What has no influence on the store leaves the effect to the rest. -/
theorem aside_bind {x : Run α} {f : α → Rule γ} {d : Effect δ} (h : Aside u known Γ x)
    (hf : ∀ a, Tracks u known Γ Q (f a) d) : Tracks u known Γ Q (Rule.lift x >>= f) d :=
  bind (g := fun _ => d) (.lift h) fun a _ _ => hf a

/-- A rule that ends with a completion tracks the same effect as an evaluation. -/
theorem complete {r : Rule Completion} {P : Completion → β → Prop} {d : Effect β}
    (h : Tracks u known Γ P r d) : Eval.Tracks u known Γ P r.complete d := by
  refine Eval.Tracks.bind (g := fun b => Pure.pure b) h fun a b related => ?_
  obtain ⟨c, rfl, related⟩ := related
  exact .pure related

/-- An operation that succeeds tracks the same effect as a step of a rule. -/
theorem native {op : Op α} {d : Effect β} (h : Eval.Tracks u known Γ P op d) :
    Tracks u known Γ P (native op) d := by
  intro m σ rep
  obtain ⟨a, n, run, related, rep⟩ := h m σ rep
  refine ⟨.ok a, n, ?_, ⟨a, rfl, related⟩, rep⟩
  have attempted : (op.attempt : Run _) u m = .ok (.ok a) n := by rw [Op.attempt, run]
  show (Rule.lift op.attempt >>= _ : Rule α).run u m = _
  rw [ExceptT.run_bind]
  show (((Except.ok <$> op.attempt : Run (Except Completion _))) >>= _) u m = _
  rw [map_eq_pure_bind, bind_assoc, bind_apply, attempted]
  rfl

end Tracks

/-- The value of an expression. -/
theorem Tracks.value {x : Run Completion} {d : Effect Value}
    (h : Eval.Tracks u known Γ GivesValue x d) : Tracks u known Γ SamePlain (value x) d := by
  refine .bind (g := fun v => Pure.pure v) (.lift h) fun c v given => ?_
  obtain ⟨rfl, plain⟩ := given
  exact .pure ⟨rfl, plain⟩

end Rule

end AbstractScript
