import AbstractScript.Proofs.Balance
import AbstractScript.Proofs.WrittenFunctions

/-!
# Jumps and where they end

The *free* jumps of a statement are the breaks, continues and returns in it that lead out of it. A
loop ends the unlabelled breaks and continues of its body and those that are aimed at one of its
labels; a switch ends breaks; a labelled statement ends the breaks that are aimed at its label. In a
well-scoped program no jump leads out of the program, and only returns lead out of a function
(`Program.WellScoped`). A completion *fits* the free jumps of a statement if it is one of them or no
jump at all (`Completion.Fits`).
-/
namespace AbstractScript

open Eval

/-! ## Free jumps -/

/-- A jump. -/
inductive Jump where
  | breaks (label : Option String)
  | continues (label : Option String)
  | returns
  deriving DecidableEq, Repr

namespace Jump

/-- True for a jump that leads to a loop with the given labels or behind it. -/
def staysInLoop (labels : List String) : Jump → Bool
  | breaks none => true
  | breaks (some label) => label ∈ labels
  | continues none => true
  | continues (some label) => label ∈ labels
  | returns => false

/-- True for a jump that leads behind a switch with the given labels. -/
def staysInSwitch (labels : List String) : Jump → Bool
  | breaks none => true
  | breaks (some label) => label ∈ labels
  | continues _ => false
  | returns => false

/-- True for a jump that leads behind a statement with the given label. -/
def staysInLabel (label : String) : Jump → Bool
  | breaks target => target = some label
  | continues _ => false
  | returns => false

end Jump

mutual

/-- The jumps that lead out of a statement with labels. -/
def Statement.jumps (labels : List String) : Statement → List Jump
  | .block b => b.jumps
  | .returns .. => [.returns]
  | .breaks _ label => [.breaks (label.map (·.name))]
  | .continues _ label => [.continues (label.map (·.name))]
  | .labeled _ label s =>
    (s.jumps (if s.takesLabels then labels ++ [label.name] else [])).filter
      (!·.staysInLabel label.name)
  | .branch _ _ s t => s.jumps [] ++ alternateJumps t
  | .switch _ _ cs => (casesJumps cs).filter (!·.staysInSwitch labels)
  | .tryCatch _ b handler finalizer =>
    b.jumps ++ (handlerJumps handler ++ finalizerJumps finalizer)
  | .whileLoop _ _ s => (s.jumps []).filter (!·.staysInLoop labels)
  | .doWhileLoop _ _ s => (s.jumps []).filter (!·.staysInLoop labels)
  | .forLoop _ _ _ _ s => (s.jumps []).filter (!·.staysInLoop labels)
  | .forInLoop _ _ _ s => (s.jumps []).filter (!·.staysInLoop labels)
  | .expression .. => []
  | .empty _ => []
  | .debugger _ => []
  | .throws .. => []
  | .varDeclaration .. => []
  | .functionDeclaration _ => []

/-- The jumps that lead out of the second statement of an `if`, if there is one. -/
def alternateJumps : Option Statement → List Jump
  | none => []
  | some s => s.jumps []

/-- The jumps that lead out of some statements. -/
def bodyJumps : List Statement → List Jump
  | [] => []
  | s :: rest => s.jumps [] ++ bodyJumps rest

/-- The jumps that lead out of a block. -/
def Block.jumps : Block → List Jump
  | .mk _ ss => bodyJumps ss

/-- The jumps that lead out of the last block of a `try`, if there is one. -/
def finalizerJumps : Option Block → List Jump
  | none => []
  | some b => b.jumps

/-- The jumps that lead out of the handler of a `try`, if there is one. -/
def handlerJumps : Option CatchClause → List Jump
  | none => []
  | some (.mk _ _ b) => b.jumps

/-- The jumps that lead out of the cases of a switch. -/
def casesJumps : List SwitchCase → List Jump
  | [] => []
  | .mk _ _ ss :: rest => bodyJumps ss ++ casesJumps rest

end

/-- A program whose jumps stay in their scopes: none leads out of the program, and only returns lead
out of a function. -/
structure Program.WellScoped (p : Program) : Prop where
  body : bodyJumps p.body = []
  functions : ∀ code ∈ p.functions, ∀ j ∈ bodyJumps code.body, j = .returns

/-! ## Completions that jump -/

namespace Completion

/-- The jump that a completion is. -/
def jump? (c : Completion) : Option Jump :=
  match c.kind with
  | .breaks => some (.breaks c.target)
  | .continues => some (.continues c.target)
  | .returns => some .returns
  | .normal => none
  | .throws => none

/-- The end of an expression: a value, or a throw of a value. -/
structure Valued (c : Completion) : Prop where
  kind : c.kind = .normal ∨ c.kind = .throws
  value : c.value.isSome = true

/-- A completion that is no jump, or else one of some jumps. It is no return in an ambiguous block,
and a throw has a value. -/
structure Fits (depth : Nat) (free : List Jump) (c : Completion) : Prop where
  jump : ∀ j, c.jump? = some j → j ∈ free
  returns : c.kind = .returns → depth = 0
  throws : c.kind = .throws → c.value.isSome = true

theorem valued_normal (v : Value) : (normal v).Valued := ⟨.inl rfl, rfl⟩

theorem valued_unknown : unknown.Valued := valued_normal .unknown

theorem Valued.jump? {c : Completion} (h : c.Valued) : c.jump? = none := by
  unfold Completion.jump?
  rcases h.kind with normal | throws
  · rw [normal]
  · rw [throws]

theorem Valued.fits {c : Completion} (h : c.Valued) (depth : Nat) (free : List Jump) :
    c.Fits depth free where
  jump j hj := by
    rw [h.jump?] at hj
    cases hj
  returns kind := by
    rcases h.kind with normal | throws
    · rw [normal] at kind
      cases kind
    · rw [throws] at kind
      cases kind
  throws _ := h.value

theorem fits_finished (depth : Nat) (free : List Jump) (v : Option Value) :
    (finished v).Fits depth free where
  jump j hj := by cases hj
  returns kind := by cases kind
  throws kind := by cases kind

theorem fits_of_isNormal {c : Completion} (h : c.isNormal = true) (depth : Nat) (free : List Jump) :
    c.Fits depth free := by
  have kind : c.kind = .normal := of_decide_eq_true h
  constructor
  · intro j hj
    rw [Completion.jump?, kind] at hj
    cases hj
  · intro returns
    rw [kind] at returns
    cases returns
  · intro throws
    rw [kind] at throws
    cases throws

namespace Fits

variable {depth : Nat} {free free' : List Jump} {c : Completion}

theorem mono (h : c.Fits depth free) (sub : free ⊆ free') : c.Fits depth free' :=
  ⟨fun j hj => sub (h.jump j hj), h.returns, h.throws⟩

theorem left (h : c.Fits depth free) : c.Fits depth (free ++ free') :=
  h.mono (List.subset_append_left _ _)

theorem right (h : c.Fits depth free') : c.Fits depth (free ++ free') :=
  h.mono (List.subset_append_right _ _)

theorem updateEmpty (h : c.Fits depth free) (v : Option Value) :
    (c.updateEmpty v).Fits depth free := by
  have jump : (c.updateEmpty v).jump? = c.jump? := by
    unfold Completion.updateEmpty
    split <;> rfl
  constructor
  · rw [jump]
    exact h.jump
  · rw [kind_updateEmpty]
    exact h.returns
  · rw [kind_updateEmpty, value_updateEmpty]
    intro kind
    rw [Option.isSome_or, h.throws kind, Bool.true_or]

/-- A completion fits the jumps that a statement does not end, unless the statement ends it. -/
theorem filter (h : c.Fits depth free) {p : Jump → Bool}
    (leaves : ∀ j, c.jump? = some j → p j = false) :
    c.Fits depth (free.filter (!p ·)) := by
  refine ⟨fun j hj => ?_, h.returns, h.throws⟩
  rw [List.mem_filter, leaves j hj]
  exact ⟨h.jump j hj, rfl⟩

end Fits

/-- The jumps that stay in a loop are those that end a pass of it. -/
theorem staysInLoop_of_jump? {c : Completion} {j : Jump} (h : c.jump? = some j)
    (labels : List String) : j.staysInLoop labels = c.endsPass labels := by
  obtain ⟨kind, value, target⟩ := c
  cases kind <;> cases h <;> cases target <;> rfl

theorem staysInSwitch_of_jump? {c : Completion} {j : Jump} (h : c.jump? = some j)
    (labels : List String) : j.staysInSwitch labels = c.leavesSwitch labels := by
  obtain ⟨kind, value, target⟩ := c
  cases kind <;> cases h <;> cases target <;> rfl

theorem staysInLabel_of_jump? {c : Completion} {j : Jump} (h : c.jump? = some j)
    (label : String) : j.staysInLabel label = c.leavesLabel label := by
  obtain ⟨kind, value, target⟩ := c
  cases kind <;> cases h <;> rfl

end Completion

/-- With more labels a statement ends more jumps. -/
theorem Jump.staysInLoop_mono {labels labels' : List String} (h : labels ⊆ labels') {j : Jump}
    (stays : j.staysInLoop labels = true) : j.staysInLoop labels' = true := by
  match j with
  | .breaks none => rfl
  | .breaks (some label) => exact decide_eq_true (h (of_decide_eq_true stays))
  | .continues none => rfl
  | .continues (some label) => exact decide_eq_true (h (of_decide_eq_true stays))
  | .returns => cases stays

theorem Jump.staysInSwitch_mono {labels labels' : List String} (h : labels ⊆ labels') {j : Jump}
    (stays : j.staysInSwitch labels = true) : j.staysInSwitch labels' = true := by
  match j with
  | .breaks none => rfl
  | .breaks (some label) => exact decide_eq_true (h (of_decide_eq_true stays))
  | .continues _ => cases stays
  | .returns => cases stays

/-! ## How computations end -/

/-- Nodes are evaluated by the core rules from a machine at an ambiguous depth, in which the statement
that is about to be evaluated has the given labels. -/
structure Begins (depth : Nat) (labels : List String) (s : Setup) (m : Machine) : Prop where
  rules : s.rules = .core
  depth : m.contexts.depth = depth
  labels : labels ⊆ m.labels

/-- What has begun goes on at the same depth in contexts that are kept. -/
theorem Begins.next {depth : Nat} {labels : List String} {s : Setup} {m n : Machine}
    (h : Begins depth labels s m) (kept : m.contexts.Kept n.contexts) : Begins depth [] s n :=
  ⟨h.rules, kept.depth_eq.trans h.depth, List.nil_subset _⟩

namespace Eval

variable {α β : Type}

/-- How a computation ends that begins at an ambiguous depth with labels: it keeps the contexts, and
its result has a property. -/
structure Ends (depth : Nat) (labels : List String) (P : α → Prop) (x : Run α) : Prop where
  contexts : ∀ {s m}, Begins depth labels s m → m.contexts.Kept (x.after s m).contexts
  result : ∀ {s m a n}, Begins depth labels s m → x s m = .ok a n → P a

namespace Ends

variable {depth : Nat} {labels : List String} {P : α → Prop} {Q : β → Prop}

theorem mono {P' : α → Prop} {x : Run α} (h : ∀ a, P a → P' a) (hx : Ends depth labels P x) :
    Ends depth labels P' x :=
  ⟨hx.contexts, fun begins run => h _ (hx.result begins run)⟩

/-- What is true without labels is true with labels. -/
theorem given {x : Run α} (hx : Ends depth [] P x) : Ends depth labels P x :=
  ⟨fun begins => hx.contexts (begins.next (.refl _)),
    fun begins run => hx.result (begins.next (.refl _)) run⟩

/-- Whatever a computation gives that keeps the contexts. -/
theorem of_contexts {x : Run α}
    (h : ∀ (s : Setup) (m : Machine), m.contexts.Kept (x.after s m).contexts) :
    Ends depth [] (fun _ => True) x :=
  ⟨fun {s m} _ => h s m, fun _ _ => trivial⟩

/-- Whatever a balanced computation gives. -/
theorem of_steady {x : Run α} (h : Keeps Machine.Steady x) : Ends depth [] (fun _ => True) x :=
  .of_contexts fun s m => (h.after s m).contexts

theorem pure {a : α} (h : P a) : Ends depth [] P (pure a) where
  contexts {_ m} _ := .refl m.contexts
  result := by
    rintro s m b n - run
    cases run
    exact h

theorem throw (e : FatalError) : Ends depth [] P (throw e : Run α) where
  contexts {_ m} _ := .refl m.contexts
  result := by
    rintro s m a n - run
    cases run

theorem get : Ends depth [] (·.contexts.depth = depth) (get : Run Machine) where
  contexts {_ m} _ := .refl m.contexts
  result := by
    rintro s m a n begins run
    cases run
    exact begins.depth

theorem setup (f : Setup → α) : Ends depth [] (fun _ => True) (setup f : Run α) :=
  .of_steady (.setup f)

/-- A step and what follows it, which may rely on what the step gives. -/
theorem bind {x : Run α} {f : α → Run β} (hx : Ends depth labels P x)
    (hf : ∀ a, P a → Ends depth [] Q (f a)) : Ends depth labels Q (x >>= f) where
  contexts := by
    -- the second step begins at the depth at which the first one has ended
    intro s m begins
    have first := hx.contexts begins
    rw [after] at first
    rw [after_bind]
    cases run : x s m with
    | ok a n =>
      rw [run] at first
      exact first.trans ((hf a (hx.result begins run)).contexts (begins.next first))
    | error e n =>
      rw [run] at first
      exact first
  result := by
    intro s m b n begins run
    obtain ⟨a, k, first, second⟩ := bind_eq_ok_iff.1 run
    have kept := hx.contexts begins
    rw [after, first] at kept
    exact (hf a (hx.result begins first)).result (begins.next kept) second

end Ends

end Eval

end AbstractScript
