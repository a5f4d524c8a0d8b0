import AbstractScript.Evaluation.Statement
import AbstractScript.Proofs.Store

/-!
# Effects on stores

The rules of the loop-free core, as functions of a store. Each effect lets a store fade
(`Effect.Fading`). An expression keeps one store covering another and gives values that cover each
other (`Effect.Relates`). A statement may do less in the covering run, which then has recorded what it
left out as a possible exit (`Effect.Simulates`); this holds as long as no abrupt completion is
overtaken.
-/
namespace AbstractScript

/-- What a computation does to a store, and what it gives. -/
def Effect (α : Type) : Type := Store → α × Store

namespace Effect

variable {α β γ δ : Type}

instance : Monad Effect where
  pure a := fun σ => (a, σ)
  bind d f := fun σ => f (d σ).1 (d σ).2

/-- The store after an effect. -/
def after (d : Effect α) (σ : Store) : Store := (d σ).2

/-- The result of an effect. -/
def result (d : Effect α) (σ : Store) : α := (d σ).1

/-- To return a value gives it. -/
@[simp] theorem result_pure (a : α) (σ : Store) : (pure a : Effect α).result σ = a := rfl

/-- To return a value leaves the store. -/
@[simp] theorem after_pure (a : α) (σ : Store) : (pure a : Effect α).after σ = σ := rfl

/-- The result of two effects is that of the second, in the store the first leaves. -/
@[simp] theorem result_bind (d : Effect α) (f : α → Effect β) (σ : Store) :
    (d >>= f).result σ = (f (d.result σ)).result (d.after σ) := rfl

/-- The store after two effects is the one the second leaves. -/
@[simp] theorem after_bind (d : Effect α) (f : α → Effect β) (σ : Store) :
    (d >>= f).after σ = (f (d.result σ)).after (d.after σ) := rfl

/-! ## Steps -/

/-- The value of a variable. -/
def read (name : String) : Effect Value := fun σ => (σ.read name, σ)

/-- Assigns to a variable. -/
def write (name : String) (v : Value) : Effect Unit := fun σ => ((), σ.write name v)

/-- The number of possible exits. -/
def mark : Effect Nat := fun σ => (σ.exits.length, σ)

/-- True if there are possible exits since a mark. -/
def hasExitsSince (mark : Nat) : Effect Bool := fun σ => (decide (mark < σ.exits.length), σ)

/-- Accounts for a completion that may have happened. -/
def note (c : Completion) : Effect Unit := fun σ => ((), if c.isAbrupt then σ.exit c else σ)

/-- Takes the possible exits since a mark whose completions are claimed. -/
def claim (mark : Nat) (p : Completion → Bool) : Effect (List Completion) := fun σ =>
  ((σ.exits.drop mark).filter p,
    { σ with exits := σ.exits.take mark ++ (σ.exits.drop mark).filter fun c => !p c })

/-- An abrupt completion stayed, if a condition on the possible exits holds. -/
def overtake (p : Nat → Prop) : Effect Unit := fun σ =>
  ((), { σ with overtaken := σ.overtaken ∨ p σ.exits.length })

/-- Runs an effect in an ambiguous block. -/
def inBlock (d : Effect α) : Effect α := fun σ =>
  (d.result σ.enter, (d.after σ.enter).leave σ.level)

/-- Something that may or may not happen. -/
def ambiguously (d : Effect Completion) : Effect Completion :=
  inBlock do
    let c ← d
    note c
    return Eval.possibly c

/-- Runs an effect with a further variable. -/
def withVariable (name : String) (v : Value) (d : Effect α) : Effect α := fun σ =>
  (d.result (σ.push name v), (d.after (σ.push name v)).pop)

/-! ## Statements -/

/-- Statements in order, up to one that does not complete normally. -/
def runAll (value : Option Value) : List (Effect Completion) → Effect Completion
  | [] => return .finished value
  | d :: rest => do
    let mark ← mark
    let c ← d
    if c.isAbrupt then return c.updateEmpty value
    if ← hasExitsSince mark then
      let _ ← ambiguously (runAll none rest)
      return .finished (c.value <|> value)
    else runAll (c.value <|> value) rest

/-- One of two statements, or both as something that may or may not happen. -/
def branch (test : Effect Value) (x y : Effect Completion) : Effect Completion := do
  match (← test).toBool? with
  | some true => x
  | some false => y
  | none =>
    ambiguously do
      note (← x)
      y

/-- A statement with a label. -/
def labeled (label : String) (d : Effect Completion) : Effect Completion := do
  let mark ← mark
  let c ← d
  let _ ← claim mark (Completion.leavesLabel label)
  return if c.leavesLabel label then .finished c.value else c

/-- Handles what the block of a `try` has thrown or may have thrown since a mark. -/
def handleThrows (mark : Nat) (c : Completion) (h : Value → Effect Completion) :
    Effect Completion := do
  let possible ← claim mark Completion.isThrow
  if c.isThrow then h c.getValue
  else if possible.isEmpty then return c
  else
    let _ ← ambiguously (h .unknown)
    return c

/-- Runs the last block of a `try`, which may replace the completion. -/
def finish (c : Completion) (finalizer : Effect Completion) : Effect Completion := do
  let mark ← mark
  let final ← finalizer
  overtake fun count => c.isAbrupt ∧ final.isNormal ∧ mark < count
  return if final.isAbrupt then final else c

/-- What is left of a completion after the handler of a `try`, if there is one. -/
def handled (handler : Option (Value → Effect Completion)) (mark : Nat) (c : Completion) :
    Effect Completion :=
  match handler with
  | some h => handleThrows mark c h
  | none => return c

/-- What is left of a completion after the last block of a `try`, if there is one. -/
def finished (finalizer : Option (Effect Completion)) (c : Completion) : Effect Completion :=
  match finalizer with
  | some f => finish c f
  | none => return c

/-- A `try`. -/
def tryBlock (block : Effect Completion) (handler : Option (Value → Effect Completion))
    (finalizer : Option (Effect Completion)) : Effect Completion := do
  let mark ← mark
  let c ← block
  finished finalizer (← handled handler mark c)

/-! ## Fading -/

/-- The effect lets every store fade. -/
def Fading (d : Effect α) : Prop := ∀ σ : Store, σ.Fades (d.after σ)

namespace Fading

/-- To return a value leaves the store as it is. -/
theorem pure (a : α) : Fading (pure a) := fun σ => .refl σ

/-- Two effects let a store fade one after the other. -/
theorem bind {d : Effect α} {f : α → Effect β} (hd : Fading d) (hf : ∀ a, Fading (f a)) :
    Fading (d >>= f) := fun σ => (hd σ).trans (hf _ _)

/-- To read leaves the store as it is. -/
theorem read (name : String) : Fading (read name) := fun σ => .refl σ

/-- To write is to let fade, since an unknown value is written to what is older than the block. -/
theorem write (name : String) (v : Value) : Fading (write name v) :=
  fun σ => σ.fades_write name v

/-- To take a mark leaves the store as it is. -/
theorem mark : Fading mark := fun σ => .refl σ

/-- So does a look at the possible exits. -/
theorem hasExitsSince (mark : Nat) : Fading (hasExitsSince mark) := fun σ => .refl σ

/-- A completion that is noted is a further possible exit, behind those that are there. -/
theorem note (c : Completion) : Fading (note c) := by
  intro σ
  show σ.Fades (if c.isAbrupt then σ.exit c else σ)
  split
  · exact σ.fades_exit c
  · exact .refl σ

/-- The record of an overtaken completion is never taken back. -/
theorem overtake (p : Nat → Prop) : Fading (overtake p) :=
  fun σ => { Store.Fades.refl σ with overtaken := .inl }

/-- A block that is left lets the store around it fade. -/
theorem inBlock {d : Effect α} (hd : Fading d) : Fading (inBlock d) := fun σ => (hd σ.enter).leave

/-- So does something that may or may not happen. -/
theorem ambiguously {d : Effect Completion} (hd : Fading d) : Fading (ambiguously d) :=
  .inBlock (.bind hd fun c => .bind (.note c) fun _ => .pure _)

/-- A further variable that is dropped at the end lets the others fade. -/
theorem withVariable {d : Effect α} (hd : Fading d) (name : String) (v : Value) :
    Fading (withVariable name v d) := fun σ => (hd (σ.push name v)).pop

/-- A list of statements lets a store fade, whether the rest is certain or not. -/
theorem runAll {ds : List (Effect Completion)} (h : ∀ d ∈ ds, Fading d) (value : Option Value) :
    Fading (runAll value ds) := by
  induction ds generalizing value with
  | nil => exact .pure _
  | cons d rest ih =>
    have ih (value) := ih (fun d hd => h d (List.mem_cons_of_mem _ hd)) value
    refine .bind .mark fun mark => .bind (h d List.mem_cons_self) fun c => ?_
    split
    · exact .pure _
    · refine .bind (.hasExitsSince mark) fun since => ?_
      split
      · exact .bind (.ambiguously (ih none)) fun _ => .pure _
      · exact ih _

/-- A choice lets a store fade, whether or not its condition is known. -/
theorem branch {test : Effect Value} {x y : Effect Completion} (ht : Fading test) (hx : Fading x)
    (hy : Fading y) : Fading (branch test x y) := by
  refine .bind ht fun v => ?_
  split
  · exact hx
  · exact hy
  · exact .ambiguously (.bind hx fun c => .bind (.note c) fun _ => hy)

/-- A claim after an effect leaves the possible exits before the effect. -/
theorem claim_after {σ τ : Store} (faded : σ.Fades τ) (p : Completion → Bool) :
    σ.Fades ((claim σ.exits.length p).after τ) := by
  refine { faded with exits := ?_ }
  obtain ⟨more, same⟩ := faded.exits
  refine ⟨more.filter fun c => !p c, ?_⟩
  show σ.exits ++ _ = τ.exits.take _ ++ (τ.exits.drop _).filter _
  rw [← same, List.take_left, List.drop_left]

/-- A label claims only exits recorded since its statement began. -/
theorem labeled {d : Effect Completion} (hd : Fading d) (label : String) :
    Fading (labeled label d) := fun σ => claim_after (hd σ) _

/-- After its claim, a handler lets stores fade. -/
theorem handleThrows_claimed {h : Value → Effect Completion} (hh : ∀ v, Fading (h v)) (mark : Nat)
    (c : Completion) (σ : Store) :
    ((claim mark Completion.isThrow).after σ).Fades ((handleThrows mark c h).after σ) := by
  have rest (possible : List Completion) : Fading (if c.isThrow then h c.getValue
      else if possible.isEmpty then return c
      else do
        let _ ← Effect.ambiguously (h .unknown)
        return c) := by
    split
    · exact hh _
    · split
      · exact .pure _
      · exact .bind (.ambiguously (hh _)) fun _ => .pure _
  exact rest _ _

/-- A last block lets a store fade after whatever it follows. -/
theorem finish {f : Effect Completion} (hf : Fading f) (c : Completion) : Fading (finish c f) :=
  .bind .mark fun _ => .bind hf fun _ => .bind (.overtake _) fun _ => .pure _

variable {handler : Option (Value → Effect Completion)} {finalizer : Option (Effect Completion)}

/-- A handler leaves the possible exits before its mark. -/
theorem handled {σ τ : Store} (faded : σ.Fades τ) (hh : ∀ h ∈ handler, ∀ v, Fading (h v))
    (c : Completion) : σ.Fades ((handled handler σ.exits.length c).after τ) := by
  cases handler with
  | none => exact faded
  | some h => exact (claim_after faded Completion.isThrow).trans (handleThrows_claimed (hh h rfl) ..)

/-- What was overtaken before a handler stays so. -/
theorem overtaken_handled (hh : ∀ h ∈ handler, ∀ v, Fading (h v)) (mark : Nat) (c : Completion)
    {σ : Store} (before : σ.overtaken) : ((Effect.handled handler mark c).after σ).overtaken := by
  cases handler with
  | none => exact before
  | some h => exact (handleThrows_claimed (hh h rfl) mark c σ).overtaken before

/-- With or without a last block, what comes after the block of a `try` lets a store fade. -/
theorem finished (hf : ∀ f ∈ finalizer, Fading f) (c : Completion) :
    Fading (finished finalizer c) := by
  cases finalizer with
  | none => exact .pure c
  | some f => exact .finish (hf f rfl) c

/-- A `try` lets a store fade if its blocks do. -/
theorem tryBlock {block : Effect Completion} (hb : Fading block)
    (hh : ∀ h ∈ handler, ∀ v, Fading (h v)) (hf : ∀ f ∈ finalizer, Fading f) :
    Fading (tryBlock block handler finalizer) :=
  fun σ => (handled (hb σ) hh _).trans (finished hf _ _)

end Fading

/-! ## Expressions -/

/-- From a store that covers another one, two effects lead to stores of which the first covers the
second, with related results. -/
def Relates (R : α → β → Prop) (d : Effect α) (e : Effect β) : Prop :=
  ∀ σ τ : Store, σ.Covers τ → R (d.result σ) (e.result τ) ∧ (d.after σ).Covers (e.after τ)

/-- Inside an ambiguous block, an effect covers what another one does, and the result of that one has
a property. -/
def Includes (Q : β → Prop) (d : Effect α) (e : Effect β) : Prop :=
  ∀ σ τ : Store, σ.IsInside → σ.Covers τ → Q (e.result τ) ∧ (d.after σ).Covers (e.after τ)

namespace Relates

variable {R : α → β → Prop} {S : γ → δ → Prop}

/-- Related values are related results. -/
theorem pure {a : α} {b : β} (h : R a b) : Relates R (pure a) (pure b) :=
  fun _ _ covers => ⟨h, covers⟩

/-- Related results may be handed on. -/
theorem bind {d : Effect α} {e : Effect β} {f : α → Effect γ} {g : β → Effect δ}
    (h : Relates R d e) (hf : ∀ a b, R a b → Relates S (f a) (g b)) :
    Relates S (d >>= f) (e >>= g) := by
  intro σ τ covers
  obtain ⟨related, covers⟩ := h σ τ covers
  exact hf _ _ related _ _ covers

end Relates

namespace Includes

variable {Q : β → Prop}

/-- What is related inside a block is included, with what is known of the result on the right. -/
theorem of_relates {R : α → β → Prop} {d : Effect α} {e : Effect β} (h : Relates R d e)
    (right : ∀ a b, R a b → Q b) : Includes Q d e := fun σ τ _ covers =>
  ⟨right _ _ (h σ τ covers).1, (h σ τ covers).2⟩

/-- What fades inside an ambiguous block covers a run that does nothing. -/
theorem of_fading {d : Effect α} (hd : Fading d) {b : β} (h : Q b) : Includes Q d (pure b) :=
  fun σ _ inside covers => ⟨h, covers.fades inside (hd σ)⟩

/-- The covering run may do something more first. -/
theorem bind_left {d : Effect α} {f : α → Effect γ} {e : Effect β} (hd : Fading d)
    (h : ∀ a, Includes Q (f a) e) : Includes Q (d >>= f) e := by
  intro σ τ inside covers
  exact h _ _ τ (inside.fades (hd σ)) (covers.fades inside (hd σ))

/-- The covering run may do something more afterwards. -/
theorem bind_right {d : Effect α} {f : α → Effect γ} {e : Effect β} (h : Includes Q d e)
    (hd : Fading d) (hf : ∀ a, Fading (f a)) : Includes Q (d >>= f) e := by
  intro σ τ inside covers
  obtain ⟨right, covers⟩ := h σ τ inside covers
  exact ⟨right, covers.fades (inside.fades (hd σ)) (hf _ _)⟩

/-- Around an ambiguous block, what it includes is covered. -/
theorem inBlock {d : Effect α} {e : Effect β} (h : Includes Q d e) (hd : Fading d) :
    Relates (fun _ b => Q b) (inBlock d) e := by
  intro σ τ covers
  obtain ⟨right, covers'⟩ := h σ.enter τ covers.isInside_enter covers.enter
  exact ⟨right, covers.leave (hd σ.enter) covers'⟩

end Includes

/-- A value covers another one, which is known. -/
structure ValueCovers (a b : Value) : Prop where
  covers : a.Covers b
  known : b.IsKnown

/-- Variables of a store cover those of the store it covers. -/
theorem Relates.read (name : String) : Relates ValueCovers (read name) (read name) :=
  fun _ _ covers => ⟨⟨(covers.read name).1, (covers.read name).2⟩, covers⟩

/-- Values that cover each other may be written on both sides. -/
theorem Relates.write {v w : Value} (h : ValueCovers v w) (name : String) :
    Relates (fun _ _ => True) (write name v) (write name w) :=
  fun _ _ covers => ⟨trivial, covers.write h.covers h.known name⟩

/-! ## Statements -/

end Effect

namespace Completion

/-- A completion covers another one: they are of one kind and have the same aim, and the thrown value
covers the other one. -/
structure Covers (c c' : Completion) : Prop where
  kind : c.kind = c'.kind
  target : c.target = c'.target
  thrown : c'.kind = .throws → ∃ v w, c.value = some v ∧ c'.value = some w ∧ v.Covers w ∧ w.IsKnown

variable {c c' : Completion}

/-- A completion is abrupt or normal. -/
theorem not_isAbrupt_iff : ¬ c.isAbrupt = true ↔ c.isNormal = true := by simp [Completion.isAbrupt]

/-- Completions that cover each other are abrupt alike. -/
theorem Covers.isAbrupt (h : c.Covers c') : c.isAbrupt = c'.isAbrupt := by
  rw [Completion.isAbrupt, Completion.isAbrupt, isNormal, isNormal, h.kind]

/-- They throw alike. -/
theorem Covers.isThrow (h : c.Covers c') : c.isThrow = c'.isThrow := by
  rw [Completion.isThrow, Completion.isThrow, h.kind]

/-- They leave the same labels. -/
theorem Covers.leavesLabel (h : c.Covers c') (label : String) :
    c.leavesLabel label = c'.leavesLabel label := by
  rw [Completion.leavesLabel, Completion.leavesLabel, h.kind, h.target]

/-- They cover each other with any values filled in, since a throw has its value already. -/
theorem Covers.updateEmpty (h : c.Covers c') (value value' : Option Value) :
    (c.updateEmpty value).Covers (c'.updateEmpty value') where
  kind := by rw [kind_updateEmpty, kind_updateEmpty, h.kind]
  target := by
    have same (c : Completion) (value : Option Value) : (c.updateEmpty value).target = c.target := by
      unfold Completion.updateEmpty
      split <;> rfl
    rw [same, same, h.target]
  thrown throws := by
    rw [kind_updateEmpty] at throws
    obtain ⟨v, w, hv, hw, covers⟩ := h.thrown throws
    exact ⟨v, w, by rw [value_updateEmpty, hv, Option.some_or],
      by rw [value_updateEmpty, hw, Option.some_or], covers⟩

end Completion

namespace Store

/-- A completion is normal, or one of the possible exits since a mark covers it. -/
def Accounts (σ : Store) (mark : Nat) (c : Completion) : Prop :=
  c.isNormal = true ∨ ∃ x ∈ σ.exits.drop mark, x.Covers c

/-- A normal completion needs no exit. -/
theorem Accounts.of_normal {σ : Store} {mark : Nat} {c : Completion} (h : c.isNormal = true) :
    σ.Accounts mark c := .inl h

/-- Later stores account for what earlier ones do, and so do earlier marks. -/
theorem Accounts.mono {σ τ : Store} {mark earlier : Nat} {c : Completion} (h : σ.Accounts mark c)
    (le : earlier ≤ mark) (grown : σ.exits <+: τ.exits) : τ.Accounts earlier c := by
  refine h.imp_right fun ⟨x, hx, covers⟩ => ⟨x, ?_, covers⟩
  obtain ⟨more, same⟩ := grown
  have old : x ∈ σ.exits.drop earlier := by
    have split : (σ.exits.drop earlier).drop (mark - earlier) = σ.exits.drop mark := by
      rw [List.drop_drop, Nat.add_sub_cancel' le]
    rw [← split] at hx
    exact List.mem_of_mem_drop hx
  have shorter : earlier ≤ σ.exits.length := by
    by_contra longer
    rw [List.drop_eq_nil_of_le (by omega)] at old
    cases old
  rw [← same, List.drop_append_of_le_length shorter]
  exact List.mem_append_left _ old

/-- To fill in a value leaves an abrupt completion accounted for. -/
theorem Accounts.updateEmpty {σ : Store} {mark : Nat} {c : Completion} (h : σ.Accounts mark c)
    (abrupt : c.isAbrupt = true) (value : Option Value) : σ.Accounts mark (c.updateEmpty value) := by
  rcases h with normal | ⟨x, hx, covers⟩
  · simp [Completion.isAbrupt, normal] at abrupt
  · refine .inr ⟨x, hx, ?_⟩
    have same := covers.updateEmpty none value
    have left : x.updateEmpty none = x := by
      unfold Completion.updateEmpty
      split
      next => rfl
      next h => rw [← h]
    rw [left] at same
    exact same

/-- Without possible exits since a mark, what is accounted for is normal. -/
theorem Accounts.isNormal {σ : Store} {mark : Nat} {c : Completion} (h : σ.Accounts mark c)
    (none : σ.exits.length ≤ mark) : c.isNormal = true := by
  rcases h with normal | ⟨x, hx, -⟩
  · exact normal
  · rw [List.drop_eq_nil_of_le none] at hx
    cases hx

end Store

end AbstractScript
