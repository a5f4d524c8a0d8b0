import AbstractScript.Evaluation.Tree
import AbstractScript.Proofs.Lookup

/-!
# Sound expressions

An expression is sound if wherever its names are bound it tracks one effect, which lets every store
fade and keeps one store covering another (`SoundValue`). Then its value where some variables are
unknown is unknown or the value where they are known. Each rule of the core gives a sound expression
if its parts are sound.
-/
namespace AbstractScript

open Eval

/-- Each name of a scope is bound by a handler or listed as a global name. -/
def Handlers.Binds (Γ : Handlers) (known scope : List String) : Prop :=
  ∀ name ∈ scope, name ∈ Γ.map Prod.fst ∨ name ∈ known

/-- An expression whose value may be unknown but is never wrong. -/
def SoundValue (u : Setup) (known scope : List String) (x : Run Completion) : Prop :=
  ∃ d : Effect Value, Effect.Fading d ∧ Effect.Relates Effect.ValueCovers d d ∧
    ∀ Γ : Handlers, Γ.Binds known scope → Eval.Tracks u known Γ GivesValue x d

namespace Effect

/-! ## Effects of expressions -/

namespace ValueCovers

variable {a b a' b' : Value}

/-- A known value covers itself. -/
theorem refl (h : a.IsKnown) : ValueCovers a a := ⟨.refl a, h⟩

/-- A function that keeps unknown and known values apart. -/
theorem map {f : Value → Value} (unknown : f .unknown = .unknown)
    (known : ∀ v : Value, v.IsKnown → (f v).IsKnown) (h : ValueCovers a b) :
    ValueCovers (f a) (f b) := by
  refine ⟨?_, known b h.known⟩
  rcases h.covers with rfl | rfl
  · exact .inl unknown
  · exact .refl _

/-- Operators on primitives are unknown where an operand is, and otherwise agree. -/
theorem applied {operator : BinaryOperator} (allowed : operator.needsObject = false)
    (h : ValueCovers a b) (h' : ValueCovers a' b') :
    ValueCovers (Value.applied operator a a') (Value.applied operator b b') := by
  refine ⟨?_, h.known.applied allowed h'.known⟩
  rcases h.covers with rfl | rfl
  · exact .inl (Value.applied_of_isUnknown (.inl rfl))
  · rcases h'.covers with rfl | rfl
    · exact .inl (Value.applied_of_isUnknown (.inr rfl))
    · exact .refl _

/-- The last of some values is covered by the last of those that cover them. -/
theorem getLastD {vs ws : List Value} (h : List.Forall₂ ValueCovers vs ws)
    (default : ValueCovers a b) : ValueCovers (vs.getLastD a) (ws.getLastD b) := by
  induction h generalizing a b with
  | nil => exact default
  | cons covers _ ih =>
    rw [List.getLastD_cons, List.getLastD_cons]
    exact ih covers

end ValueCovers

variable {d e : Effect Value}

/-- The completion of an expression. -/
def completed (d : Effect Value) : Effect Completion := do return .normal (← d)

/-- An expression that may or may not be evaluated. Its value is unknown. -/
def possibly (d : Effect Value) : Effect Value := do
  let _ ← ambiguously (completed d)
  return .unknown

namespace Fading

/-- To complete with the value lets stores fade as the expression does. -/
theorem completed (hd : Fading d) : Fading (completed d) := .bind hd fun _ => .pure _

/-- An expression that may or may not be evaluated lets stores fade. -/
theorem possibly (hd : Fading d) : Fading (possibly d) :=
  .bind (.ambiguously hd.completed) fun _ => .pure _

end Fading

/-- Changes a variable by a function of its number, if the number is known. -/
def update (f : Float → Float) (leading : Bool) (name : String) : Effect Value := do
  let v ← read name
  match v.primitive.primitiveToNumber? with
  | none => return .unknown
  | some old =>
    write name (.number (f old))
    return .number (if leading then f old else old)

/-- An update writes at most once. -/
theorem Fading.update (f : Float → Float) (leading : Bool) (name : String) :
    Fading (update f leading name) := by
  refine .bind (.read name) fun v => ?_
  split
  · exact .pure _
  · exact .bind (.write name _) fun _ => .pure _

/-- An update of an unknown variable leaves it unknown, and any other agrees. -/
theorem Relates.update (f : Float → Float) (leading : Bool) (name : String) :
    Relates ValueCovers (update f leading name) (update f leading name) := by
  intro σ τ covers
  obtain ⟨covered, isKnown⟩ := covers.read name
  obtain ⟨old, converted⟩ := isKnown.isPrimitive_primitive.primitiveToNumber?
  have number (x : Float) : (Value.number x).IsKnown := ⟨rfl, rfl⟩
  have run (υ : Store) (same : υ.read name = τ.read name) : Effect.update f leading name υ =
      (.number (if leading then f old else old), υ.write name (.number (f old))) := by
    show (match (υ.read name).primitive.primitiveToNumber? with | none => _ | some old => _ :
      Effect Value) υ = _
    rw [same, converted]
    rfl
  rcases covered with unknown | same
  · -- a variable that is unknown stays so while the other run assigns to it
    have left : Effect.update f leading name σ = (.unknown, σ) := by
      show (match (σ.read name).primitive.primitiveToNumber? with | none => _ | some old => _ :
        Effect Value) σ = _
      rw [unknown]
      rfl
    rw [result, after, result, after, left, run τ rfl]
    exact ⟨⟨.unknown _, number _⟩, covers.write_right unknown (number _)⟩
  · rw [result, after, result, after, run σ same, run τ rfl]
    exact ⟨.refl (number _), covers.write (.refl _) (number _) name⟩

/-- What may or may not be evaluated covers what it includes. -/
theorem Relates.possibly (hd : Fading d) (h : Includes Value.IsKnown d e) :
    Relates ValueCovers (possibly d) e := by
  have noted (c : Completion) : Fading (do
      note c
      return Eval.possibly c) := .bind (.note c) fun _ => .pure _
  have inner := (h.bind_right hd fun v => .pure (Completion.normal v)).bind_right hd.completed noted
  intro σ τ covers
  obtain ⟨known, covers⟩ := inner.inBlock (.bind hd.completed noted) σ τ covers
  exact ⟨⟨.unknown _, known⟩, covers⟩

/-- The right operand is evaluated unless the left one decides. -/
def logical (operator : LogicalOperator) (d e : Effect Value) : Effect Value := do
  let v ← d
  match v.toBool? with
  | some b => if Rule.decides operator b then return v else e
  | none => possibly e

/-- The second operand may be skipped, evaluated or both at once. -/
theorem Fading.logical (operator : LogicalOperator) (hd : Fading d) (he : Fading e) :
    Fading (logical operator d e) := by
  refine .bind hd fun v => ?_
  split
  · split
    · exact .pure _
    · exact he
  · exact he.possibly

/-- An unknown first operand makes the result unknown, which covers either outcome. -/
theorem Relates.logical (operator : LogicalOperator) (hd : Relates ValueCovers d d) (he : Fading e)
    (h : Relates ValueCovers e e) :
    Relates ValueCovers (logical operator d e) (logical operator d e) := by
  refine .bind hd fun v w related => ?_
  obtain ⟨b, decided⟩ := related.known.toBool?
  rw [decided]
  rcases related.covers with rfl | rfl
  · -- the right operand may or may not be evaluated
    show Relates _ (Effect.possibly e) (if _ then Pure.pure w else e)
    split
    · exact .possibly he (.of_fading he related.known)
    · exact .possibly he (.of_relates h fun _ _ => ValueCovers.known)
  · rw [decided]
    by_cases first : Rule.decides operator b = true
    · simp only [first, if_true]
      exact .pure related
    · simp only [first]
      exact h

/-- One of two expressions is evaluated. -/
def choice (t d e : Effect Value) : Effect Value := do
  match (← t).toBool? with
  | some true => d
  | some false => e
  | none => possibly do
    let _ ← d
    e

/-- One of the branches is evaluated, or both as something that may or may not happen. -/
theorem Fading.choice {t : Effect Value} (ht : Fading t) (hd : Fading d) (he : Fading e) :
    Fading (choice t d e) := by
  refine .bind ht fun v => ?_
  split
  · exact hd
  · exact he
  · exact Fading.possibly (.bind hd fun _ => he)

/-- An unknown condition makes the result unknown, which covers either branch. -/
theorem Relates.choice {t : Effect Value} (ht : Relates ValueCovers t t) (hd : Fading d)
    (he : Fading e) (h : Relates ValueCovers d d) (h' : Relates ValueCovers e e) :
    Relates ValueCovers (choice t d e) (choice t d e) := by
  refine .bind ht fun v w related => ?_
  obtain ⟨b, decided⟩ := related.known.toBool?
  rw [decided]
  rcases related.covers with rfl | rfl
  · -- either expression is evaluated in the one run, and both in the other
    have both : Fading (do
        let _ ← d
        e) := .bind hd fun _ => he
    cases b with
    | true =>
      exact .possibly both (.bind_right (.of_relates h fun _ _ => ValueCovers.known) hd fun _ => he)
    | false =>
      exact .possibly both (.bind_left hd fun _ => .of_relates h' fun _ _ => ValueCovers.known)
  · rw [decided]
    cases b with
    | true => exact h
    | false => exact h'

end Effect

/-- An expression that ends with its value. -/
theorem Eval.Tracks.completed {u : Setup} {known : List String} {Γ : Handlers} {x : Run Completion}
    {d : Effect Value} (h : Eval.Tracks u known Γ GivesValue x d) :
    Eval.Tracks u known Γ SameEnd x (Effect.completed d) := by
  intro m σ rep
  obtain ⟨c, n, run, given, rep⟩ := h m σ rep
  refine ⟨c, n, run, ?_, rep⟩
  rw [given.same]
  exact .of_isNormal rfl

/-! ## Simple expressions -/

/-- What is referred to is the innermost binding of a name. -/
def Refers (u : Setup) (known : List String) (Γ : Handlers) (name : String)
    (reference : Rule Reference) : Prop :=
  Rule.Tracks u known Γ (fun r _ => r = Γ.reference name) reference (pure ())

/-- What is referred to is known, so the rest goes on with it. -/
theorem Refers.bind {u : Setup} {known : List String} {Γ : Handlers} {name : String} {α β : Type}
    {reference : Rule Reference} (h : Refers u known Γ name reference) {f : Reference → Rule α}
    {Q : α → β → Prop} {d : Effect β} (hf : Rule.Tracks u known Γ Q (f (Γ.reference name)) d) :
    Rule.Tracks u known Γ Q (reference >>= f) d :=
  Rule.Tracks.bind (g := fun _ => d) h fun _ _ same => same ▸ hf

/-- The number of an operand, changed by a function. -/
def Value.mapNumber (f : Float → Float) (v : Value) : Value :=
  .ofNumber? (v.primitive.primitiveToNumber?.map f)

namespace SoundValue

variable {u : Setup} {known scope : List String} {x y z : Run Completion} {name : String}

/-- The events around an expression are no effect on a store. -/
theorem ruled (rules : u.rules = .core) (h : SoundValue u known scope x) (kind : NodeKind) (span : Span) :
    SoundValue u known scope (ruled kind span x) := by
  obtain ⟨d, fading, relates, tracks⟩ := h
  exact ⟨d, fading, relates, fun Γ binds => (tracks Γ binds).ruled rules kind span⟩

/-- A known value is sound. -/
theorem pure {v : Value} (h : v.IsKnown) : SoundValue u known scope (return .normal v) :=
  ⟨Pure.pure v, .pure v, .pure (.refl h), fun _ _ => .pure ⟨rfl, h.plain⟩⟩

/-- A literal is a known value. -/
theorem literal (v : LiteralValue) : SoundValue u known scope (return .normal v.value) := by
  cases v <;> exact pure ⟨rfl, rfl⟩

/-- A function of the value of an expression. -/
theorem map (h : SoundValue u known scope x) {k : Value → Rule Completion} {f : Value → Value}
    (tracks : ∀ Γ v, v.isPlain = true → Rule.Tracks u known Γ GivesValue (k v) (Pure.pure (f v)))
    (covers : ∀ a b, Effect.ValueCovers a b → Effect.ValueCovers (f a) (f b)) :
    SoundValue u known scope (do k (← Rule.value x)).complete := by
  obtain ⟨d, fading, relates, tracks'⟩ := h
  refine ⟨do return f (← d), .bind fading fun _ => .pure _,
    .bind relates fun a b related => .pure (covers a b related), fun Γ binds => ?_⟩
  refine Rule.Tracks.complete (.bind (.value (tracks' Γ binds)) fun v w same => ?_)
  obtain ⟨rfl, plain⟩ := same
  exact tracks Γ v plain

/-- A function of the value of a name. -/
theorem mapName {reference : Rule Reference}
    (refers : ∀ Γ : Handlers, Γ.Binds known scope → Refers u known Γ name reference)
    {k : Reference → Value → Rule Completion} {f : Value → Value}
    (tracks : ∀ Γ v, v.isPlain = true →
      Rule.Tracks u known Γ GivesValue (k (Γ.reference name) v) (Pure.pure (f v)))
    (covers : ∀ a b, Effect.ValueCovers a b → Effect.ValueCovers (f a) (f b)) :
    SoundValue u known scope (do
      let r ← reference
      let v ← Rule.native (Op.getValue r)
      k r v).complete := by
  refine ⟨do return f (← Effect.read name), .bind (.read name) fun _ => .pure _,
    .bind (.read name) fun a b related => .pure (covers a b related), fun Γ binds => ?_⟩
  refine Rule.Tracks.complete ((refers Γ binds).bind ?_)
  refine .bind (.native (tracks_getValue name)) fun v w same => ?_
  obtain ⟨rfl, plain⟩ := same
  exact tracks Γ v plain

/-- A name of the scope reads its innermost binding. -/
theorem identifier (listed : name ∈ scope) :
    SoundValue u known scope (Rule.read (Rule.resolve name)).complete :=
  mapName (k := fun _ v => return .normal v) (f := id)
    (fun _ binds => Rule.Tracks.resolve (binds name listed))
    (fun _ _ plain => .pure ⟨rfl, plain⟩) fun _ _ => id

/-! ## Operators with one operand -/

/-- The completion of an operation that settles. -/
theorem tracks_settled {Γ : Handlers} {op : Op Value} {v : Value} (settles : op.Settles v)
    (plain : v.isPlain = true) : Rule.Tracks u known Γ GivesValue
      (do return .normal (← Rule.native op)) (Pure.pure v) := by
  refine .bind (g := fun w => Pure.pure w) (.native (tracks_of_settles (P := SamePlain) settles
    ⟨rfl, plain⟩)) fun a b same => ?_
  obtain ⟨rfl, plain⟩ := same
  exact .pure ⟨rfl, plain⟩

/-- The type of a name of the scope is that of its innermost binding. -/
theorem typeOfReference {reference : Rule Reference}
    (refers : ∀ Γ : Handlers, Γ.Binds known scope → Refers u known Γ name reference) :
    SoundValue u known scope (Rule.typeOfReference reference).complete := by
  refine ⟨do return Value.typed (← Effect.read name), .bind (.read name) fun _ => .pure _,
    .bind (.read name) fun a b covers => .pure (covers.map rfl fun v known => known.typed),
    fun Γ binds => Rule.Tracks.complete ((refers Γ binds).bind ?_)⟩
  have bound : (Γ.reference name).isUnresolvable = false := by
    rw [Handlers.reference]
    split <;> rfl
  rw [bound]
  refine .bind (.native (tracks_getValue name)) fun v w same => ?_
  obtain ⟨rfl, plain⟩ := same
  exact tracks_settled (Op.settles_typeOf plain) Value.isPlain_typed

/-- The type of a value is a function of it. -/
theorem typeOf (h : SoundValue u known scope x) : SoundValue u known scope
    (do return .normal (← Rule.native (Op.typeOf (← Rule.value x))) : Rule Completion).complete :=
  h.map (fun _ _ plain => tracks_settled (Op.settles_typeOf plain) Value.isPlain_typed)
    fun _ _ covers => covers.map rfl fun _ known => known.typed

/-- So is the result of an operator on its number. -/
theorem numericUnary (h : SoundValue u known scope x) (f : Float → Float) : SoundValue u known scope
    (do return .normal (← Rule.native (Op.numericUnary f (← Rule.value x))) :
      Rule Completion).complete := by
  refine h.map (f := Value.mapNumber f) (fun Γ v plain =>
    tracks_settled (Op.settles_numericUnary f plain) ?_) fun a b covers => covers.map rfl ?_
  · show (Value.ofNumber? _).isPlain = true
    cases v.primitive.primitiveToNumber?.map f <;> rfl
  · intro v known
    obtain ⟨number, converted⟩ := known.isPrimitive_primitive.primitiveToNumber?
    rw [Value.mapNumber, converted]
    exact ⟨rfl, rfl⟩

/-- So is its negation, which is unknown if its truth is. -/
theorem logicalNot (h : SoundValue u known scope x) : SoundValue u known scope
    (do return .normal (.ofBool? ((← Rule.value x).toBool?.map not)) : Rule Completion).complete := by
  refine h.map (f := fun v => .ofBool? (v.toBool?.map not)) (fun Γ v _ => .pure ⟨rfl, ?_⟩)
    fun a b covers => covers.map (f := fun v => .ofBool? (v.toBool?.map not)) rfl fun v known => ?_
  · cases v.toBool?.map not <;> rfl
  · obtain ⟨b, decided⟩ := known.toBool?
    simp only [decided]
    exact ⟨rfl, rfl⟩

/-- Every operator before its operand but `delete`. A name is referred to, and any other operand is
evaluated. -/
theorem unary {operator : UnaryOperator} (allowed : operator ≠ .delete) {isTarget : Bool}
    {reference : Rule Reference} (h : SoundValue u known scope x)
    (refers : isTarget = true → ∃ name, ∀ Γ : Handlers, Γ.Binds known scope →
      Refers u known Γ name reference) :
    SoundValue u known scope (Rule.unary operator isTarget reference x).complete := by
  cases operator with
  | delete => exact absurd rfl allowed
  | typeOf =>
    cases isTarget with
    | true =>
      obtain ⟨name, refers⟩ := refers rfl
      exact typeOfReference refers
    | false => exact h.typeOf
  | void =>
    exact h.map (f := fun _ => .undefined) (fun _ _ _ => .pure ⟨rfl, rfl⟩)
      fun _ _ _ => .refl ⟨rfl, rfl⟩
  | logicalNot => exact h.logicalNot
  | minus => exact h.numericUnary _
  | plus => exact h.numericUnary _
  | bitwiseNot => exact h.numericUnary _

/-- Changing a name by one. -/
theorem update (operator : UpdateOperator) (leading : Bool) {reference : Rule Reference}
    (refers : ∀ Γ : Handlers, Γ.Binds known scope → Refers u known Γ name reference) :
    SoundValue u known scope (Rule.update operator leading reference).complete := by
  refine ⟨Effect.update (Rule.updated operator) leading name, .update _ _ _, .update _ _ _,
    fun Γ binds => Rule.Tracks.complete ((refers Γ binds).bind ?_)⟩
  refine .bind (.native (tracks_getValue name)) fun v w same => ?_
  obtain ⟨rfl, plain⟩ := same
  have settled : Rule.Tracks u known Γ (fun a _ => a = v.primitive.primitiveToNumber?)
      (Rule.native (Op.toNumber? v)) (Pure.pure ()) :=
    .native (tracks_of_settles (Op.settles_toNumber? plain) rfl)
  refine .bind (g := fun _ => _) settled fun a _ same => ?_
  rw [same]
  cases v.primitive.primitiveToNumber? with
  | none => exact .pure ⟨rfl, rfl⟩
  | some old => exact .bind (.native (tracks_putValue rfl name)) fun _ _ _ => .pure ⟨rfl, rfl⟩

/-! ## Operators with two operands -/

/-- A binary operator combines two sound operands. -/
theorem binary {operator : BinaryOperator} (allowed : operator.needsObject = false)
    (hx : SoundValue u known scope x) (hy : SoundValue u known scope y) :
    SoundValue u known scope (Rule.binary operator x y).complete := by
  obtain ⟨d, fading, relates, tracks⟩ := hx
  obtain ⟨e, fading', relates', tracks'⟩ := hy
  refine ⟨do
    let a ← d
    let b ← e
    return Value.applied operator a b, .bind fading fun _ => .bind fading' fun _ => .pure _,
    .bind relates fun _ _ ha => .bind relates' fun _ _ hb => .pure (ha.applied allowed hb),
    fun Γ binds => Rule.Tracks.complete ?_⟩
  refine .bind (.value (tracks Γ binds)) fun a _ same => ?_
  obtain ⟨rfl, plain⟩ := same
  refine .bind (.value (tracks' Γ binds)) fun b _ same => ?_
  obtain ⟨rfl, plain'⟩ := same
  exact tracks_settled (Op.settles_apply allowed plain plain')
    (Value.isPlain_applied allowed plain plain')

/-- An assignment to a name stores the value of an expression or of an operator. -/
theorem assignment {operator : AssignmentOperator}
    (allowed : ∀ o, operator = .compound o → o.needsObject = false) {reference : Rule Reference}
    (refers : ∀ Γ : Handlers, Γ.Binds known scope → Refers u known Γ name reference)
    (hx : SoundValue u known scope x) :
    SoundValue u known scope (Rule.assignment operator reference x).complete := by
  obtain ⟨d, fading, relates, tracks⟩ := hx
  -- a compound operator reads the name before it evaluates its right side
  have assigned : ∃ e : Effect Value, Effect.Fading e ∧ Effect.Relates Effect.ValueCovers e e ∧
      ∀ Γ : Handlers, Γ.Binds known scope → Rule.Tracks u known Γ SamePlain
        (Rule.assigned operator (Γ.reference name) x) e := by
    cases operator with
    | assign => exact ⟨d, fading, relates, fun Γ binds => .value (tracks Γ binds)⟩
    | compound o =>
      have allowed := allowed o rfl
      refine ⟨do
        let old ← Effect.read name
        let v ← d
        return Value.applied o old v, .bind (.read name) fun _ => .bind fading fun _ => .pure _,
        .bind (.read name) fun _ _ ha => .bind relates fun _ _ hb => .pure (ha.applied allowed hb),
        fun Γ binds => .bind (.native (tracks_getValue name)) fun old _ same => ?_⟩
      obtain ⟨rfl, plain⟩ := same
      refine .bind (.value (tracks Γ binds)) fun v _ same => ?_
      obtain ⟨rfl, plain'⟩ := same
      exact .native (tracks_of_settles (Op.settles_apply allowed plain plain')
        ⟨rfl, Value.isPlain_applied allowed plain plain'⟩)
  obtain ⟨e, fading, relates, tracks⟩ := assigned
  refine ⟨do
    let v ← e
    Effect.write name v
    return v, .bind fading fun _ => .bind (.write name _) fun _ => .pure _,
    .bind relates fun _ _ covers => .bind (.write covers name) fun _ _ _ => .pure covers,
    fun Γ binds => Rule.Tracks.complete ((refers Γ binds).bind ?_)⟩
  refine .bind (tracks Γ binds) fun v _ same => ?_
  obtain ⟨rfl, plain⟩ := same
  exact .bind (.native (tracks_putValue plain name)) fun _ _ _ => .pure ⟨rfl, plain⟩

/-! ## Conditions -/

/-- A logical operator is sound, whether or not its first operand is known. -/
theorem logical (operator : LogicalOperator) (span leftSpan : Span)
    (hx : SoundValue u known scope x) (hy : SoundValue u known scope y) :
    SoundValue u known scope (Rule.logical operator span leftSpan x y).complete := by
  obtain ⟨d, fading, relates, tracks⟩ := hx
  obtain ⟨e, fading', relates', tracks'⟩ := hy
  refine ⟨Effect.logical operator d e, .logical operator fading fading',
    .logical operator relates fading' relates', fun Γ binds => Rule.Tracks.complete ?_⟩
  refine .bind (.value (tracks Γ binds)) fun v _ same => ?_
  obtain ⟨rfl, plain⟩ := same
  cases v.toBool? with
  | some b =>
    by_cases first : Rule.decides operator b = true
    -- a left side that decides is the value of the whole
    · simp only [first, if_true]
      exact .pure ⟨rfl, plain⟩
    · simp only [first]
      refine .bind (g := fun w => Pure.pure w) (.value (tracks' Γ binds)) fun w _ same => ?_
      exact .pure ⟨congrArg _ same.same, same.plain⟩
  | none =>
    -- with an unknown left side the right side may or may not run
    refine .aside_bind (aside_markUnknown _) fun _ => ?_
    exact .bind (.lift (.ambiguously (tracks' Γ binds).completed fading'.completed span))
      fun _ _ _ => .pure ⟨rfl, rfl⟩

/-- So is a conditional, whether or not its condition is known. -/
theorem conditional (span testSpan : Span) (hx : SoundValue u known scope x)
    (hy : SoundValue u known scope y) (hz : SoundValue u known scope z) :
    SoundValue u known scope (Rule.conditional span testSpan x y z).complete := by
  obtain ⟨t, fadingTest, relatesTest, tracksTest⟩ := hx
  obtain ⟨d, fading, relates, tracks⟩ := hy
  obtain ⟨e, fading', relates', tracks'⟩ := hz
  refine ⟨Effect.choice t d e, .choice fadingTest fading fading',
    .choice relatesTest fading fading' relates relates', fun Γ binds => Rule.Tracks.complete ?_⟩
  refine .bind (.value (tracksTest Γ binds)) fun v _ same => ?_
  obtain ⟨rfl, -⟩ := same
  cases v.toBool? with
  | some b =>
    cases b with
    | true => exact .lift (tracks Γ binds)
    | false => exact .lift (tracks' Γ binds)
  | none =>
    -- with an unknown test both sides run, as steps that possibly happen
    refine .aside_bind (aside_markUnknown _) fun _ => ?_
    have both : Effect.Fading (do
        let _ ← d
        e) := .bind fading fun _ => fading'
    have tracksBoth : Eval.Tracks u known Γ GivesValue (do
        let _ ← y
        z) (do
        let _ ← d
        e) := .bind (tracks Γ binds) fun _ _ _ => tracks' Γ binds
    exact .bind (.lift (.ambiguously tracksBoth.completed both.completed span))
      fun _ _ _ => .pure ⟨rfl, rfl⟩

/-! ## Sequences -/

/-- A sequence is sound with the value of its last expression. -/
theorem sequence {xs : List (Run Completion)} (h : ∀ x ∈ xs, SoundValue u known scope x) :
    SoundValue u known scope (Rule.sequence xs).complete := by
  -- the values of all expressions are sound, of which the last is the result
  suffices all : ∃ d : Effect (List Value), Effect.Fading d ∧
      Effect.Relates (List.Forall₂ Effect.ValueCovers) d d ∧ ∀ Γ : Handlers, Γ.Binds known scope →
        Rule.Tracks u known Γ (fun vs ws => vs = ws ∧ ∀ v ∈ ws, v.isPlain = true) (Rule.values xs) d by
    obtain ⟨d, fading, relates, tracks⟩ := all
    refine ⟨do return (← d).getLastD .undefined, .bind fading fun _ => .pure _,
      .bind relates fun vs ws covers => .pure ?_, fun Γ binds => Rule.Tracks.complete ?_⟩
    · exact Effect.ValueCovers.getLastD covers (.refl ⟨rfl, rfl⟩)
    · refine .bind (tracks Γ binds) fun vs _ same => ?_
      obtain ⟨rfl, plain⟩ := same
      refine .pure ⟨rfl, ?_⟩
      have last : vs.getLastD .undefined ∈ Value.undefined :: vs := List.getLastD_mem_cons
      rcases List.mem_cons.1 last with none | listed
      · rw [none]
        rfl
      · exact plain _ listed
  induction xs with
  | nil => exact ⟨Pure.pure [], .pure _, .pure .nil, fun _ _ => .pure ⟨rfl, by simp⟩⟩
  | cons x xs ih =>
    rw [List.forall_mem_cons] at h
    obtain ⟨d, fading, relates, tracks⟩ := h.1
    obtain ⟨e, fading', relates', tracks'⟩ := ih h.2
    refine ⟨do
      let v ← d
      return v :: (← e), .bind fading fun _ => .bind fading' fun _ => .pure _,
      .bind relates fun _ _ covers => .bind relates' fun _ _ covers' => .pure (.cons covers covers'),
      fun Γ binds => .bind (.value (tracks Γ binds)) fun v _ same => ?_⟩
    obtain ⟨rfl, plain⟩ := same
    refine .bind (tracks' Γ binds) fun vs _ same => ?_
    obtain ⟨rfl, plain'⟩ := same
    exact .pure ⟨rfl, List.forall_mem_cons.2 ⟨plain, plain'⟩⟩

end SoundValue

end AbstractScript
