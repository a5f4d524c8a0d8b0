import AbstractScript.Proofs.Framing
import Mathlib.Data.List.Infix

/-!
# Ambiguous depths

An evaluation leaves the contexts as they were, except that the running one may have returned, so
that it ends in as many ambiguous blocks as it began in. What is evaluated in a further block is
*deeper*: it is in more blocks, and all that was created outside of the block is written ambiguously
there.
-/
namespace AbstractScript

namespace ContextStack

theorem depth_enterBlock {s : ContextStack} (h : s.isEmpty = false) :
    s.enterBlock.depth = s.depth + 1 := by
  match s, h with
  | ⟨c :: rest⟩, _ => rfl

theorem isEmpty_of_isAmbiguous {s : ContextStack} (h : s.isAmbiguous = true) :
    s.isEmpty = false := by
  rcases s with ⟨_ | ⟨c, rest⟩⟩
  · cases h
  · rfl

theorem depth_le_enterBlock (s : ContextStack) : s.depth ≤ s.enterBlock.depth := by
  rcases s with ⟨_ | ⟨c, rest⟩⟩
  · exact Nat.le_refl _
  · exact Nat.le_succ _

theorem level_le_enterBlock (s : ContextStack) : s.level ≤ s.enterBlock.level := by
  rcases s with ⟨_ | ⟨c, rest⟩⟩
  · exact Nat.le_refl _
  · rw [level_enterBlock rfl]
    exact Nat.le_succ _

end ContextStack

namespace Machine

/-- The same contexts, of which the running one may have returned. -/
def InPlace (m n : Machine) : Prop := m.contexts.Kept n.contexts

instance : IsPreorder Machine InPlace where
  refl m := .refl m.contexts
  trans _ _ _ h h' := h.trans h'

/-- The second machine is in more ambiguous blocks than the first one, and what is created in the
first one is written ambiguously in the second one. -/
structure Deeper (m n : Machine) : Prop where
  depth : m.contexts.depth < n.contexts.depth
  level : m.level < n.level

instance (m n : Machine) : Decidable (m.Deeper n) :=
  decidable_of_iff (m.contexts.depth < n.contexts.depth ∧ m.level < n.level)
    ⟨fun h => ⟨h.1, h.2⟩, fun h => ⟨h.depth, h.level⟩⟩

variable {m n k : Machine}

theorem Steady.inPlace (h : m.Steady n) : m.InPlace n := h.contexts

/-- Possible exits that were recorded before are still there. -/
theorem Steady.exits_le (h : m.Steady n) : m.exits.size ≤ n.exits.size := by
  simpa using h.exits.length_le

/-- What is in place stays at the depth that it is at. -/
theorem Deeper.inPlace (h : m.Deeper n) (kept : n.InPlace k) : m.Deeper k where
  depth := kept.depth_eq ▸ h.depth
  level := Nat.lt_of_lt_of_le h.level kept.level_le

theorem Deeper.steady (h : m.Deeper n) (steady : n.Steady k) : m.Deeper k :=
  h.inPlace steady.inPlace

/-- A block is not less deep than what is around it. -/
theorem Deeper.enterBlock (h : m.Deeper n) : m.Deeper n.enterBlock where
  depth := Nat.lt_of_lt_of_le h.depth n.contexts.depth_le_enterBlock
  level := Nat.lt_of_lt_of_le h.level n.contexts.level_le_enterBlock

/-- What is in place is not deeper. -/
theorem InPlace.not_deeper (h : m.InPlace n) : ¬ m.Deeper n := fun deeper =>
  absurd deeper.depth (Nat.not_lt.2 (Nat.le_of_eq h.depth_eq))

/-- An ambiguous block is deeper than all machines before it in the same contexts. -/
theorem InPlace.deeper (h : m.InPlace n) (running : m.contexts.isEmpty = false) :
    m.Deeper n.enterBlock := by
  have entered : n.contexts.isEmpty = false := h.running running
  have depth : n.enterBlock.contexts.depth = m.contexts.depth + 1 :=
    (ContextStack.depth_enterBlock entered).trans (congrArg (· + 1) h.depth_eq)
  have level : n.enterBlock.level = n.level + 1 := ContextStack.level_enterBlock entered
  have grown : m.level ≤ n.level := h.level_le
  constructor <;> omega

theorem Steady.deeper (h : m.Steady n) (running : m.contexts.isEmpty = false) :
    m.Deeper n.enterBlock :=
  h.inPlace.deeper running

/-- What is in place in an ambiguous block is in place when the block is left. -/
theorem InPlace.exitBlock (h : m.enterBlock.InPlace n) :
    m.InPlace (n.exitBlock m.contexts.enterIndex?) := by
  cases entered : m.contexts.enterIndex? with
  | none =>
    rwa [InPlace, Machine.enterBlock, Machine.withContexts,
      ContextStack.enterBlock_eq_self entered] at h
  | some index => exact ContextStack.Kept.exitBlock entered h

/-! ### Contexts that may have returned -/

theorem returnUnknown_congr (h : n.contexts = m.contexts) : n.returnUnknown = m.returnUnknown := by
  rw [returnUnknown, returnUnknown, h]

theorem returnUnknown_of_markReturned (h : n.contexts = m.contexts.markReturned)
    (running : m.contexts.isEmpty = false) : n.returnUnknown = true := by
  rw [returnUnknown, h]
  match m.contexts, running with
  | ⟨c :: rest⟩, _ => rfl

/-- A return in an ambiguous block marks the running context. -/
theorem returnUnknown_markReturnUnknown (running : m.contexts.isEmpty = false) :
    m.markReturnUnknown.returnUnknown = true := by
  unfold markReturnUnknown
  split
  next none =>
    rw [ContextStack.running?, List.head?_eq_none_iff] at none
    rw [ContextStack.isEmpty, none] at running
    cases running
  next => exact returnUnknown_of_markReturned rfl running

/-- A context that may have returned stays one. -/
theorem InPlace.returnUnknown (h : m.InPlace n) (marked : m.returnUnknown = true) :
    n.returnUnknown = true := by
  rcases h with same | same
  · rwa [returnUnknown_congr same]
  · refine returnUnknown_of_markReturned same ?_
    cases empty : m.contexts.isEmpty with
    | false => rfl
    | true =>
      rw [ContextStack.isEmpty, List.isEmpty_iff] at empty
      rw [Machine.returnUnknown, ContextStack.running?, empty] at marked
      cases marked

theorem returnUnknown_exitBlock (index : Option Nat) :
    (m.exitBlock index).returnUnknown = m.returnUnknown := by
  cases index with
  | none => rfl
  | some i =>
    rw [returnUnknown, returnUnknown]
    show (((m.contexts.exitBlock i).running?).map Context.returnUnknown).getD false = _
    rcases m.contexts with ⟨_ | ⟨c, rest⟩⟩
    · rfl
    · rw [ContextStack.exitBlock, ContextStack.exitBlock.exit]
      split <;> rfl

theorem returnUnknown_setLexicalEnv (e : EnvId) :
    (m.setLexicalEnv e).returnUnknown = m.returnUnknown := by
  show (((m.contexts.setLexicalEnv e).running?).map Context.returnUnknown).getD false = _
  rw [returnUnknown]
  rcases m.contexts with ⟨_ | ⟨c, rest⟩⟩ <;> rfl

end Machine

/-! ## Possible exits -/

theorem Completion.isAbrupt_of_isThrow {c : Completion} (h : c.isThrow = true) :
    c.isAbrupt = true := by
  have kind : c.kind = .throws := of_decide_eq_true h
  simp [isAbrupt, isNormal, kind]

namespace Machine

variable {m n : Machine} {mark : Nat} {e : PossibleExit}

/-- An exit since a mark is one since an earlier mark. -/
theorem mem_exitsSince_of_le {mark' : Nat} (le : mark' ≤ mark) (h : e ∈ m.exitsSince mark) :
    e ∈ m.exitsSince mark' := by
  rw [exitsSince_eq_drop] at h ⊢
  exact List.drop_subset_drop_left _ le h

/-- A possible exit stays recorded. -/
theorem Steady.mem_exitsSince (steady : m.Steady n) (h : e ∈ m.exitsSince mark) :
    e ∈ n.exitsSince mark := by
  rw [exitsSince_eq_drop] at h ⊢
  exact (steady.exits.drop mark).subset h

/-- A claim leaves the possible exits that it does not take. -/
theorem mem_exitsSince_dropClaimed {p : Completion → Bool} (le : mark ≤ m.exits.size)
    (h : e ∈ m.exitsSince mark) (other : p e.completion = false) :
    e ∈ (m.dropClaimed mark p).exitsSince mark := by
  have front : (m.exits.toList.take mark).length = mark := List.length_take_of_le (by simpa using le)
  rw [exitsSince_eq_drop, exits_dropClaimed, List.drop_left' front]
  exact List.mem_filter.2 ⟨h, by simp [other]⟩

/-- A throw that may have happened is the last possible exit. -/
theorem mem_exitsSince_noteExit {c : Completion} (throws : c.isThrow = true)
    (le : mark ≤ m.exits.size) : ∃ e ∈ (m.noteExit c).exitsSince mark, e.completion = c := by
  have kind : c.kind = .throws := of_decide_eq_true throws
  have noted : (m.noteExit c).exits = m.exits.push ⟨c, m.location?, m.frames⟩ := by
    rw [noteExit, kind]
    rfl
  refine ⟨⟨c, m.location?, m.frames⟩, ?_, rfl⟩
  rw [exitsSince_eq_drop, noted, Array.toList_push, List.drop_append_of_le_length (by simpa using le)]
  exact List.mem_append_right _ (List.mem_singleton_self _)

end Machine

/-! ## What may or may not happen -/

namespace Eval

variable {ε α : Type}

/-- Only the machine in which its block begins matters to what may or may not happen. -/
theorem ambiguously_congr (span : Span) {x y : Eval ε Completion} {s : Setup} {m : Machine}
    (h : x s (m.markBlock (span.location s.file)).enterBlock =
      y s (m.markBlock (span.location s.file)).enterBlock) :
    ambiguously span x s m = ambiguously span y s m := by
  unfold ambiguously recorded inBlock
  simp only [bind_apply, setup_apply, modify_apply, get_apply, ensuring_apply, h]

theorem claim_apply (mark : Nat) (p : Completion → Bool) (s : Setup) (m : Machine) :
    (claim mark p : Eval ε _) s m = .ok (m.claimed mark p) (m.dropClaimed mark p) := rfl

/-- A block succeeds if what is run in it does. -/
theorem exists_of_inBlock {span : Span} {x : Run α} {s : Setup} {m n : Machine} {a : α}
    (run : recorded (inBlock span x) s m = .ok a n) :
    ∃ k, x s (m.markBlock (span.location s.file)).enterBlock = .ok a k := by
  unfold recorded inBlock at run
  simp only [bind_apply, setup_apply, modify_apply, get_apply, ensuring_apply] at run
  cases ran : x s (m.markBlock (span.location s.file)).enterBlock with
  | ok b k =>
    rw [ran] at run
    cases run
    exact ⟨k, rfl⟩
  | error e k =>
    rw [ran] at run
    cases run

/-- What may or may not happen leaves the possible exits of what is run, and the completion as one
of them if it is a jump or a throw. -/
theorem exists_of_ambiguously {span : Span} {x : Eval ε Completion} {s : Setup} {m n : Machine}
    {a : Completion} (run : ambiguously span x s m = .ok a n) :
    ∃ c k, x s (m.markBlock (span.location s.file)).enterBlock = .ok c k ∧
      n.exits = (k.noteExit c).exits := by
  unfold ambiguously recorded inBlock at run
  simp only [bind_apply, setup_apply, modify_apply, get_apply, ensuring_apply, note] at run
  cases ran : x s (m.markBlock (span.location s.file)).enterBlock with
  | ok c k =>
    rw [ran] at run
    cases run
    refine ⟨c, k, rfl, ?_⟩
    show (Machine.exitBlock _ _).exits = _
    unfold Machine.exitBlock
    split <;> rfl
  | error e k =>
    rw [ran] at run
    cases run

/-- If something that may or may not happen ends with a throw, or has recorded the throw as a possible
exit, then the throw is a possible exit afterwards. -/
theorem recorded_of_ambiguously {span : Span} {x : Eval ε Completion} {s : Setup} {m n : Machine}
    {a thrown : Completion} (run : ambiguously span x s m = .ok a n) (steady : Keeps Machine.Steady x)
    (throws : thrown.isThrow = true)
    (h : ∀ c k, x s (m.markBlock (span.location s.file)).enterBlock = .ok c k →
      (∃ e ∈ k.exitsSince m.exits.size, ∃ w, e.completion = thrown.updateEmpty w) ∨
        ∃ w, c = thrown.updateEmpty w) :
    ∃ e ∈ n.exitsSince m.exits.size, ∃ w, e.completion = thrown.updateEmpty w := by
  obtain ⟨c, k, ran, noted⟩ := exists_of_ambiguously run
  have same : n.exitsSince m.exits.size = (k.noteExit c).exitsSince m.exits.size := by
    rw [Machine.exitsSince, Machine.exitsSince, noted]
  rw [same]
  rcases h c k ran with ⟨e, recorded, filled⟩ | ⟨w, rfl⟩
  · exact ⟨e, (Machine.Steady.noteExit k c).mem_exitsSince recorded, filled⟩
  · have throws' : (thrown.updateEmpty w).isThrow = true := by
      rwa [Completion.isThrow, Completion.kind_updateEmpty]
    obtain ⟨e, recorded, filled⟩ :=
      Machine.mem_exitsSince_noteExit throws' (steady.of_ok ran).exits_le
    exact ⟨e, recorded, w, filled⟩

theorem isNormal_possibly (c : Completion) : (possibly c).isNormal = true := by
  unfold possibly
  split <;> rfl

end Eval

end AbstractScript
