import AbstractScript.Proofs.Plan
import Mathlib.Algebra.GroupWithZero.Nat

/-!
# The deeds of a plan

A plan visits some of its parts at the ambiguous depth at which it is run, and others in blocks of its
own. Its *deeds* tell which, in order (`Plan.deeds`). Whatever reports of abandoned loops a run leaves
were made by the parts that it has visited, except for those that the plan has made itself
(`Plan.Reports`).
-/
namespace AbstractScript

open Eval

/-- Something that a plan does with its parts. -/
inductive Deed (P : Type) where
  /-- A visit outside of all blocks of the plan. -/
  | visit (v : Visit P)
  /-- An ambiguous block, with the visits in it. -/
  | block (span : Span) (inside : List (Visit P))

namespace Deed

variable {P : Type}

/-- The visits that a deed consists of. -/
def visits : Deed P → List (Visit P)
  | visit v => [v]
  | block _ vs => vs

/-- The visits of a deed that are in a block. -/
def inside : Deed P → List (Visit P)
  | visit _ => []
  | block _ vs => vs

/-- True for a visit outside of all blocks to a part of a kind. -/
def goesTo (p : P → Bool) : Deed P → Bool
  | visit v => p v.part
  | block .. => false

def isBlock : Deed P → Bool
  | visit _ => false
  | block .. => true

end Deed

namespace Plan

variable {P α β : Type}

/-- What a run of a plan does with its parts, in order. -/
def deeds (parts : P → Run Completion) (s : Setup) {α : Type} : Plan P α → Machine → List (Deed P)
  | .pure _, _ => []
  | .act _ _, _ => []
  | .part p, m => [.visit ⟨p, m, parts p s m⟩]
  | .bind x f, m => x.deeds parts s m ++
      match x.run parts s m with
      | .ok a n => (f a).deeds parts s n
      | .error _ _ => []
  | .ambiguously span x, m =>
      [.block span (x.visits parts s (m.markBlock (span.location s.file)).enterBlock)]

section

variable {parts : P → Run Completion} {s : Setup} {m n : Machine}

theorem deeds_bind (x : Plan P α) (f : α → Plan P β) :
    (x >>= f).deeds parts s m = x.deeds parts s m ++
      match x.run parts s m with
      | .ok a n => (f a).deeds parts s n
      | .error _ _ => [] := by
  show deeds parts s (.bind x f) m = _
  rw [deeds]

theorem deeds_bind_ok {x : Plan P α} {f : α → Plan P β} {a : α} (h : x.run parts s m = .ok a n) :
    (x >>= f).deeds parts s m = x.deeds parts s m ++ (f a).deeds parts s n := by
  rw [deeds_bind, h]

theorem deeds_bind_error {x : Plan P α} {f : α → Plan P β} {e : FatalError}
    (h : x.run parts s m = .error e n) : (x >>= f).deeds parts s m = x.deeds parts s m := by
  rw [deeds_bind, h]
  exact List.append_nil _

/-- The deeds of a plan are made up of its visits. -/
theorem flatMap_visits_deeds (x : Plan P α) :
    (x.deeds parts s m).flatMap Deed.visits = x.visits parts s m := by
  induction x generalizing m with
  | pure a => rfl
  | act x kept => rfl
  | part p => rfl
  | bind x f ihx ihf =>
    rw [deeds, visits, List.flatMap_append, ihx]
    cases x.run parts s m with
    | ok a n => exact congrArg _ (ihf a)
    | error e n => rfl
  | ambiguously span x ih => exact List.flatMap_singleton ..

/-! ## Depths -/

/-- A visit outside of all blocks is in place, and a visit in a block is deeper than the plan. -/
theorem depth_of_mem_deeds (h : ∀ p, Keeps Machine.InPlace (parts p)) (x : Plan P α)
    (since : m.InPlace n) {d : Deed P} (done : d ∈ x.deeds parts s n) :
    (∀ v, d = .visit v → m.InPlace v.before) ∧
      (m.contexts.isEmpty = false → ∀ v ∈ d.inside, m.Deeper v.before) := by
  -- by induction on the plan: only an ambiguous block leads to visits inside a deed
  induction x generalizing n with
  | pure a => cases done
  | act x kept => cases done
  | part p =>
    obtain rfl := List.mem_singleton.1 done
    constructor
    · intro v same
      cases same
      exact since
    · intro _ v none
      cases none
  | bind x f ihx ihf =>
    rw [deeds, List.mem_append] at done
    rcases done with first | later
    · exact ihx since first
    · cases ran : x.run parts s n with
      | ok a k =>
        rw [ran] at later
        exact ihf a (IsTrans.trans _ _ _ since ((inPlace_run h x).of_ok ran)) later
      | error e k =>
        rw [ran] at later
        cases later
  | ambiguously span x ih =>
    obtain rfl := List.mem_singleton.1 done
    constructor
    · intro v other
      cases other
    · intro running v visited
      have within : v ∈ (ambiguously span x).visits parts s n := visited
      exact deeper_ambiguously h since running within

end

end Plan

/-! ## Reports of abandoned loops -/

namespace Machine

/-- The number of loops that were reported to be abandoned. -/
def loopReports (m : Machine) : Nat := m.diagnostics.toList.countP (·.kind = .maxIterations)

theorem loopReports_congr {m n : Machine} (h : n.diagnostics = m.diagnostics) :
    n.loopReports = m.loopReports := by
  rw [loopReports, loopReports, h]

theorem Steady.loopReports_le {m n : Machine} (h : m.Steady n) : m.loopReports ≤ n.loopReports :=
  h.logs.diagnostics.sublist.countP_le

end Machine

/-- The number of loops that are reported to be abandoned in a visit. -/
def Visit.loopReports {P : Type} (v : Visit P) : Nat := v.after.loopReports - v.before.loopReports

namespace Eval

theorem after_reportMaxIterations (s : Setup) (m : Machine) :
    ((reportMaxIterations : Run Unit).after s m).loopReports = m.loopReports + 1 := by
  show (m.diagnostics.push _).toList.countP _ = _
  rw [Array.toList_push, List.countP_append]
  rfl

/-- Entering and leaving a block reports nothing. -/
theorem loopReports_ambiguously (span : Span) (x : Run Completion) (s : Setup) (m : Machine) :
    ((ambiguously span x).after s m).loopReports =
      (x.after s (m.markBlock (span.location s.file)).enterBlock).loopReports := by
  obtain ⟨left, -⟩ := ambiguously_eq span x s m
  -- neither a noted exit nor the end of a block is a report
  have noted (n : Machine) (c : Completion) : (n.noteExit c).diagnostics = n.diagnostics := by
    unfold Machine.noteExit Machine.markReturnUnknown
    split
    · rfl
    · split <;> rfl
    · rfl
    · rfl
    · rfl
  have exits (n : Machine) (index : Option Nat) : (n.exitBlock index).diagnostics = n.diagnostics := by
    cases index <;> rfl
  rw [left]
  refine Machine.loopReports_congr ((exits _ _).trans ?_)
  rw [after_bind, Eval.after]
  cases x s (m.markBlock (span.location s.file)).enterBlock with
  | ok c n => exact noted n c
  | error e n => rfl

end Eval

namespace Plan

variable {P α β : Type} {parts : P → Run Completion} {s : Setup} {m n : Machine}

/-- A run of a plan has made a number of reports itself: as many are there afterwards that were not
there before and that no part has made. -/
def Reports (parts : P → Run Completion) (s : Setup) (x : Plan P α) (m : Machine) (own : Nat) : Prop :=
  ((x.run parts).after s m).loopReports =
    m.loopReports + ((x.visits parts s m).map Visit.loopReports).sum + own

/-- A plan that makes no reports itself. -/
def Silent : {α : Type} → Plan P α → Prop
  | _, .pure _ => True
  | _, .act x _ => ∀ s m, (x.after s m).loopReports = m.loopReports
  | _, .part _ => True
  | _, .bind x f => x.Silent ∧ ∀ a, (f a).Silent
  | _, .ambiguously _ x => x.Silent

theorem Reports.bind_ok {x : Plan P α} {f : α → Plan P β} {a : α} {own own' : Nat}
    (ran : x.run parts s m = .ok a n) (hx : x.Reports parts s m own)
    (hf : (f a).Reports parts s n own') : (x >>= f).Reports parts s m (own + own') := by
  have first : (x.run parts).after s m = n := by rw [Eval.after, ran]
  have later : ((x >>= f).run parts).after s m = ((f a).run parts).after s n := after_bind_ok ran
  rw [Reports, first] at hx
  rw [Reports] at hf
  rw [Reports, later, hf, hx, visits_bind_ok ran, List.map_append, List.sum_append]
  omega

theorem Reports.bind_error {x : Plan P α} {f : α → Plan P β} {e : FatalError} {own : Nat}
    (ran : x.run parts s m = .error e n) (hx : x.Reports parts s m own) :
    (x >>= f).Reports parts s m own := by
  have later : ((x >>= f).run parts).after s m = (x.run parts).after s m := by
    show ((x.run parts) >>= _).after s m = _
    rw [after_bind, Eval.after, ran]
  have visited : (x >>= f).visits parts s m = x.visits parts s m := by
    rw [visits_bind, ran]
    exact List.append_nil _
  rw [Reports, later, visited]
  exact hx

theorem Silent.bind {x : Plan P α} {f : α → Plan P β} (hx : x.Silent) (hf : ∀ a, (f a).Silent) :
    (x >>= f).Silent := ⟨hx, hf⟩

/-- All reports of a silent plan are made by its parts. -/
theorem Silent.reports (steady : ∀ p, Keeps Machine.Steady (parts p)) {x : Plan P α}
    (silent : x.Silent) : x.Reports parts s m 0 := by
  -- by induction on the plan: what a part reports is counted with its visit
  induction x generalizing m with
  | pure a => exact (Nat.add_zero _).symm
  | act x kept => exact silent s m
  | part p =>
    have grown : m.loopReports ≤ ((parts p).after s m).loopReports :=
      ((steady p).after s m).loopReports_le
    have left : (Visit.mk p m (parts p s m)).after = (parts p).after s m :=
      Visit.after_of_result rfl
    rw [Reports, run, visits, List.map_singleton, List.sum_singleton, Visit.loopReports, left]
    dsimp only
    omega
  | bind x f ihx ihf =>
    have first : x.Reports parts s m 0 := ihx silent.1
    cases ran : x.run parts s m with
    | ok a n => exact first.bind_ok ran (ihf a (silent.2 a))
    | error e n => exact first.bind_error ran
  | ambiguously span x ih =>
    have inside := ih silent (m := (m.markBlock (span.location s.file)).enterBlock)
    rw [Reports] at inside ⊢
    rw [run, loopReports_ambiguously, inside]
    rfl

/-! ### Silent acts -/

theorem silent_claim (mark : Nat) (p : Completion → Bool) : (claim mark p : Plan P _).Silent :=
  fun _ m => Machine.loopReports_congr (m.diagnostics_dropClaimed mark p)

theorem reports_reportMaxIterations :
    (reportMaxIterations : Plan P Unit).Reports parts s m 1 :=
  after_reportMaxIterations s m

end Plan

end AbstractScript
