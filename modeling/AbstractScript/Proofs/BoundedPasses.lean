import AbstractScript.Proofs.Deeds
import AbstractScript.Proofs.NameLoopPlan

/-!
# Plans that make a bounded number of passes

Some parts of a plan open a pass, and one of them is its body. A plan is *bounded* if it makes exactly
the passes that are about to start, up to a limit, if it reports exactly that one more was about to
start, and if its last deeds are blocks of its own with the body at most once (`Plan.Bounded`). Plans
are bounded by their steps: either a plan closes the loop, so that it only enters blocks
(`Plan.Closes`), or it visits parts and goes on with a plan that is bounded by what is left of the
limit (`Plan.Bounded.bind`).
-/
namespace AbstractScript

/-- A body that ends so lets its loop go on. -/
def Completion.goesOn (labels : List String) (c : Completion) : Bool :=
  c.isNormal || (c.kind = .continues && c.targets labels)

namespace Deed

variable {P : Type} {ds : List (Deed P)}

/-- A block is not a part, so it goes to none. -/
theorem goesTo_of_isBlock {d : Deed P} (block : d.isBlock = true) (p : P → Bool) :
    d.goesTo p = false := by
  cases d with
  | visit v => cases block
  | block span vs => rfl

/-- A visit has nothing inside. -/
theorem inside_of_not_isBlock {d : Deed P} (visit : d.isBlock = false) : d.inside = [] := by
  cases d with
  | visit v => rfl
  | block span vs => cases visit

/-- The visits in blocks are among all visits. -/
theorem inside_sublist : (ds.flatMap inside).Sublist (ds.flatMap visits) := by
  induction ds with
  | nil => exact .slnil
  | cons d ds ih =>
    refine List.Sublist.append ?_ ih
    cases d with
    | visit v => exact List.nil_sublist _
    | block span vs => exact .refl vs

/-- Among visits there is nothing inside. -/
theorem flatMap_inside_eq_nil (visits : ∀ d ∈ ds, d.isBlock = false) : ds.flatMap inside = [] :=
  List.flatMap_eq_nil_iff.2 fun d hd => inside_of_not_isBlock (visits d hd)

end Deed

namespace Plan

variable {P α β : Type} {opens body : P → Bool} {parts : P → Run Completion} {s : Setup}
  {m n : Machine}

/-! ## Steps of plans -/

/-- A result that is given first adds no deeds. -/
theorem deeds_pure_bind (a : α) (f : α → Plan P β) :
    (Pure.pure a >>= f : Plan P β).deeds parts s m = (f a).deeds parts s m :=
  deeds_bind ..

/-- The deeds of three steps do not depend on how the steps are grouped. -/
theorem deeds_assoc {γ : Type} (x : Plan P α) (f : α → Plan P β) (g : β → Plan P γ) :
    ((x >>= f) >>= g).deeds parts s m = (x >>= fun a => f a >>= g).deeds parts s m := by
  have steps : (x >>= f).run parts s m = (x.run parts >>= fun a => (f a).run parts) s m := rfl
  rw [deeds_bind, deeds_bind, deeds_bind, steps, Eval.bind_apply]
  cases x.run parts s m with
  | ok a n => rw [List.append_assoc, ← deeds_bind]
  | error e n => rw [List.append_nil]

/-- Neither does the run. -/
theorem run_assoc {γ : Type} (x : Plan P α) (f : α → Plan P β) (g : β → Plan P γ) :
    ((x >>= f) >>= g).run parts = (x >>= fun a => f a >>= g).run parts :=
  bind_assoc (x.run parts) (fun a => (f a).run parts) fun b => (g b).run parts

/-- Neither do the reports. -/
theorem reports_assoc {γ : Type} {x : Plan P α} {f : α → Plan P β} {g : β → Plan P γ} {own : Nat} :
    ((x >>= f) >>= g).Reports parts s m own ↔ (x >>= fun a => f a >>= g).Reports parts s m own := by
  rw [Reports, Reports, run_assoc, visits_assoc]

/-- A result that is given first reports nothing. -/
theorem reports_pure_bind {a : α} {f : α → Plan P β} {own : Nat} :
    (Pure.pure a >>= f).Reports parts s m own ↔ (f a).Reports parts s m own := by
  have run : (Pure.pure a >>= f).run parts = (f a).run parts :=
    pure_bind a fun a => (f a).run parts
  rw [Reports, Reports, run, visits_pure_bind]

/-! ## Visits to bodies -/

/-- A plan visits bodies at most a number of times. -/
def VisitsAtMost (body : P → Bool) (parts : P → Run Completion) (x : Plan P α) (b : Nat) : Prop :=
  ∀ s m, (x.visits parts s m).countP (body ·.part) ≤ b

namespace VisitsAtMost

variable {b b' : Nat}

/-- Without steps no body is visited. -/
theorem pure (a : α) : VisitsAtMost body parts (Pure.pure a) b := fun _ _ => Nat.zero_le b

/-- An action visits no body. -/
theorem act {x : Run α} (kept : Eval.Keeps Machine.InPlace x) :
    VisitsAtMost body parts (.act x kept) b := fun _ _ => Nat.zero_le b

/-- A part is one visit, to a body or not. -/
theorem part (p : P) : VisitsAtMost body parts (.part p) (if body p then 1 else 0) := by
  intro s m
  rw [visits, List.countP_singleton]

/-- The visits of two steps add up. -/
theorem bind {x : Plan P α} {f : α → Plan P β} (hx : VisitsAtMost body parts x b)
    (hf : ∀ a, VisitsAtMost body parts (f a) b') : VisitsAtMost body parts (x >>= f) (b + b') := by
  intro s m
  rw [visits_bind, List.countP_append]
  refine Nat.add_le_add (hx s m) ?_
  cases x.run parts s m with
  | ok a n => exact hf a s n
  | error e n => exact Nat.zero_le b'

/-- Steps without bodies may follow. -/
theorem bind_none {x : Plan P α} {f : α → Plan P β} (hx : VisitsAtMost body parts x b)
    (hf : ∀ a, VisitsAtMost body parts (f a) 0) : VisitsAtMost body parts (x >>= f) b := hx.bind hf

/-- In a block that may or may not happen each body is visited as often as the plan says. -/
theorem ambiguously {x : Plan P Completion} (h : VisitsAtMost body parts x b) (span : Span) :
    VisitsAtMost body parts (.ambiguously span x) b := fun s m =>
  h s (m.markBlock (span.location s.file)).enterBlock

/-- A part that is no body is not counted. -/
theorem part_bind {p : P} (other : body p = false) {f : Completion → Plan P β}
    (hf : ∀ c, VisitsAtMost body parts (f c) b) : VisitsAtMost body parts (.part p >>= f) b := by
  have first : VisitsAtMost body parts (.part p) (if body p then 1 else 0) := part p
  rw [other, if_neg Bool.false_ne_true] at first
  exact Nat.zero_add b ▸ first.bind hf

end VisitsAtMost

/-! ## The end of a loop -/

/-- A plan that gives a result and does nothing. -/
def Ends (parts : P → Run Completion) (x : Plan P α) (a : α) : Prop :=
  ∀ s m, x.run parts s m = .ok a m ∧ x.deeds parts s m = []

namespace Ends

/-- A plan without steps ends with its result. -/
theorem pure (a : α) : Ends parts (Pure.pure a) a := fun _ _ => ⟨rfl, rfl⟩

/-- A result that is given first does not delay the end. -/
theorem pure_bind {a : α} {f : α → Plan P β} {b : β} (h : Ends parts (f a) b) :
    Ends parts (Pure.pure a >>= f) b := by
  intro s m
  obtain ⟨run, none⟩ := h s m
  exact ⟨(run_bind_apply ..).trans run, (deeds_pure_bind a f).trans none⟩

/-- A plan that ends reports nothing. -/
theorem reports {x : Plan P α} {a : α} (h : Ends parts x a) : x.Reports parts s m 0 := by
  obtain ⟨run, none⟩ := h s m
  rw [Reports, ← flatMap_visits_deeds, none, Eval.after, run]
  rfl

end Ends

/-- A plan that ends a loop: it reports nothing itself, and it enters blocks only, in which it visits
bodies at most a number of times. -/
structure Closes (body : P → Bool) (parts : P → Run Completion) (x : Plan P α) (b : Nat) : Prop where
  silent : x.Silent
  blocks : ∀ s m, ∀ d ∈ x.deeds parts s m, d.isBlock = true
  bodies : VisitsAtMost body parts x b

namespace Closes

variable {b b' : Nat}

/-- A plan without steps closes a loop. -/
theorem pure (a : α) : Closes body parts (Pure.pure a) b :=
  ⟨trivial, (fun _ _ _ none => nomatch none), .pure a⟩

/-- So does an action that reports nothing. -/
theorem act {x : Run α} (kept : Eval.Keeps Machine.InPlace x)
    (silent : ∀ s m, (x.after s m).loopReports = m.loopReports) :
    Closes body parts (.act x kept) b :=
  ⟨silent, (fun _ _ _ none => nomatch none), .act kept⟩

/-- So does a block, with the bodies that are visited in it. -/
theorem ambiguously {x : Plan P Completion} (silent : x.Silent)
    (bodies : VisitsAtMost body parts x b) (span : Span) :
    Closes body parts (.ambiguously span x) b where
  silent := silent
  blocks s m d done := by
    obtain rfl := List.mem_singleton.1 done
    rfl
  bodies := bodies.ambiguously span

/-- Two steps close a loop together. -/
theorem bind {x : Plan P α} {f : α → Plan P β} (hx : Closes body parts x b)
    (hf : ∀ a, Closes body parts (f a) b') : Closes body parts (x >>= f) (b + b') where
  silent := ⟨hx.silent, fun a => (hf a).silent⟩
  blocks s m d done := by
    rw [deeds_bind, List.mem_append] at done
    rcases done with first | later
    · exact hx.blocks s m d first
    · cases ran : x.run parts s m with
      | ok a n =>
        rw [ran] at later
        exact (hf a).blocks s n d later
      | error e n =>
        rw [ran] at later
        cases later
  bodies := hx.bodies.bind fun a => (hf a).bodies

/-- A step without bodies may come first. -/
theorem none_bind {x : Plan P α} {f : α → Plan P β} (hx : Closes body parts x 0)
    (hf : ∀ a, Closes body parts (f a) b) : Closes body parts (x >>= f) b :=
  Nat.zero_add b ▸ hx.bind hf

/-- Steps without bodies may follow. -/
theorem bind_none {x : Plan P α} {f : α → Plan P β} (hx : Closes body parts x b)
    (hf : ∀ a, Closes body parts (f a) 0) : Closes body parts (x >>= f) b := hx.bind hf

/-- The result of a closing step may be changed. -/
theorem bind_pure {x : Plan P α} (hx : Closes body parts x b) (f : α → β) :
    Closes body parts (x >>= fun a => Pure.pure (f a)) b := hx.bind_none fun a => pure (f a)

/-- To take a mark closes a loop. -/
theorem mark : Closes body parts (Plan.mark : Plan P Nat) b :=
  act _ fun _ _ => Machine.loopReports_congr rfl

/-- So does the claim of the exits of the passes. -/
theorem claimPasses (labels : List String) (mark : Nat) :
    Closes body parts (Plan.claimPasses labels mark : Plan P Unit) b := by
  have silent := silent_claim (P := P) mark (Completion.endsPass labels)
  exact none_bind (act _ silent) fun _ => pure ()

end Closes

/-! ## Bounded plans -/

/-- A plan makes exactly the passes that are about to start (`starts k` says that the pass with the
number `k` is), up to a limit, and visits their bodies; `due` bodies more belong to passes that began
before. It reports at most once itself, and does so exactly if a pass is about to start when the limit
is reached. It visits the body at most once in a block, and only enters blocks after the first one. -/
structure Bounded (opens body : P → Bool) (parts : P → Run Completion) (s : Setup) (limit due : Nat)
    (starts : Nat → Prop) (x : Plan P α) (m : Machine) : Prop where
  passes : ∀ k, k < (x.deeds parts s m).countP (·.goesTo opens) ↔ k < limit ∧ starts k
  bodies : (x.deeds parts s m).countP (·.goesTo body) ≤
    (x.deeds parts s m).countP (·.goesTo opens) + due
  once : ((x.deeds parts s m).flatMap Deed.inside).countP (body ·.part) ≤ 1
  last : (x.deeds parts s m).Pairwise fun d e => d.isBlock = true → e.isBlock = true
  reports : ∃ own ≤ 1, x.Reports parts s m own ∧ (own = 1 ↔ starts limit)

namespace Bounded

variable {limit due due' : Nat} {starts starts' : Nat → Prop}

/-- Which pass is about to start may be told in another way. -/
theorem congr {x : Plan P α} (h : Bounded opens body parts s limit due starts x m)
    (same : ∀ k, starts k ↔ starts' k) : Bounded opens body parts s limit due starts' x m := by
  obtain rfl : starts = starts' := funext fun k => propext (same k)
  exact h

/-- How the steps are grouped does not matter. -/
theorem assoc {γ : Type} {x : Plan P α} {f : α → Plan P β} {g : β → Plan P γ}
    (h : Bounded opens body parts s limit due starts (x >>= fun a => f a >>= g) m) :
    Bounded opens body parts s limit due starts ((x >>= f) >>= g) m := by
  obtain ⟨passes, bodies, once, last, own, few, reports, exact'⟩ := h
  rw [← deeds_assoc] at passes bodies once last
  exact ⟨passes, bodies, once, last, own, few, reports_assoc.2 reports, exact'⟩

/-- A result that is given first changes no bound. -/
theorem pure_bind {a : α} {f : α → Plan P β}
    (h : Bounded opens body parts s limit due starts (f a) m) :
    Bounded opens body parts s limit due starts (Pure.pure a >>= f) m := by
  obtain ⟨passes, bodies, once, last, own, few, reports, exact'⟩ := h
  rw [← deeds_pure_bind a f] at passes bodies once last
  exact ⟨passes, bodies, once, last, own, few, reports_pure_bind.2 reports, exact'⟩

/-- Deeds that are blocks make no pass, and none comes after them. -/
theorem of_blocks {x : Plan P α} (blocks : ∀ d ∈ x.deeds parts s m, d.isBlock = true)
    (bodies : (x.visits parts s m).countP (body ·.part) ≤ 1) {own : Nat} (few : own ≤ 1)
    (reports : x.Reports parts s m own) (exact' : own = 1 ↔ starts limit)
    (none : ∀ k < limit, ¬ starts k) : Bounded opens body parts s limit due starts x m := by
  -- no deed is a visit outside of all blocks
  have untouched (p : P → Bool) : (x.deeds parts s m).countP (·.goesTo p) = 0 := by
    rw [List.countP_eq_zero]
    intro d hd
    rw [Deed.goesTo_of_isBlock (blocks d hd)]
    exact Bool.false_ne_true
  constructor
  · intro k
    rw [untouched]
    constructor
    · intro negative
      exact absurd negative (Nat.not_lt_zero k)
    · rintro ⟨few, started⟩
      exact absurd started (none k few)
  · rw [untouched body]
    exact Nat.zero_le _
  · refine Nat.le_trans Deed.inside_sublist.countP_le ?_
    rwa [flatMap_visits_deeds]
  · exact List.pairwise_of_forall_mem_list fun d _ e he _ => blocks e he
  · exact ⟨own, few, reports, exact'⟩

variable (steady : ∀ p, Eval.Keeps Machine.Steady (parts p))

include steady

/-- What ends a loop is bounded if no pass is about to start. -/
theorem of_closes {x : Plan P α} (closes : Closes body parts x 1) (none : ∀ k, ¬ starts k) :
    Bounded opens body parts s limit due starts x m := by
  have silent : (0 = 1 ↔ starts limit) :=
    iff_of_false Nat.zero_ne_one (none limit)
  exact of_blocks (closes.blocks s m) (closes.bodies s m) (Nat.zero_le 1)
    (closes.silent.reports steady) silent fun k _ => none k

/-- What ends a loop is bounded if nothing is done afterwards. -/
theorem closed_then {x : Plan P α} {f : α → Plan P β} (closes : Closes body parts x 1)
    (later : ∀ a n, x.run parts s m = .ok a n → ∃ b, Ends parts (f a) b)
    (none : ∀ k, ¬ starts k) : Bounded opens body parts s limit due starts (x >>= f) m := by
  have never : (0 = 1 ↔ starts limit) := iff_of_false Nat.zero_ne_one (none limit)
  -- what comes later only gives its end, and adds no deeds
  have same : (x >>= f).deeds parts s m = x.deeds parts s m := by
    cases ran : x.run parts s m with
    | ok a n =>
      obtain ⟨b, ends⟩ := later a n ran
      rw [deeds_bind_ok ran, (ends s n).2, List.append_nil]
    | error e n => exact deeds_bind_error ran
  have reports : (x >>= f).Reports parts s m 0 := by
    have first : x.Reports parts s m 0 := closes.silent.reports steady
    cases ran : x.run parts s m with
    | ok a n =>
      obtain ⟨b, ends⟩ := later a n ran
      exact first.bind_ok ran ends.reports
    | error e n => exact first.bind_error ran
  refine of_blocks ?_ ?_ (Nat.zero_le 1) reports never fun k _ => none k
  · rw [same]
    exact closes.blocks s m
  · rw [← flatMap_visits_deeds, same, flatMap_visits_deeds]
    exact closes.bodies s m

/-- When the limit is reached and a pass is about to start, a loop ends with a report. -/
theorem exceeded {f : Unit → Plan P α} (closes : Closes body parts (f ()) 1) (first : starts 0) :
    Bounded opens body parts s 0 due starts (Plan.reportMaxIterations >>= f) m := by
  have ran : (Plan.reportMaxIterations : Plan P Unit).run parts s m =
      .ok () ((Eval.reportMaxIterations : Run Unit).after s m) := rfl
  have reports := reports_reportMaxIterations.bind_ok ran (closes.silent.reports steady)
  refine of_blocks ?_ ?_ (Nat.le_refl 1) reports (iff_of_true rfl first) fun k negative => ?_
  · rw [deeds_bind_ok ran]
    exact closes.blocks s _
  · rw [visits_bind_ok ran]
    exact closes.bodies s _
  · exact absurd negative (Nat.not_lt_zero k)

/-- A plan is bounded if it visits parts of which some open passes, and then goes on with a plan that
is bounded by what is left of the limit. -/
theorem bind (opened : Nat) {x : Plan P α} {f : α → Plan P β}
    (visits : ∀ d ∈ x.deeds parts s m, d.isBlock = false) (silent : x.Silent)
    (opening : (x.deeds parts s m).countP (·.goesTo opens) = opened)
    (bodies : (x.deeds parts s m).countP (·.goesTo body) + due' ≤ opened + due)
    (first : ∀ k < opened, starts k)
    (ok : ∀ a n, x.run parts s m = .ok a n →
      Bounded opens body parts s limit due' (fun k => starts (k + opened)) (f a) n)
    (error : ∀ e n, x.run parts s m = .error e n → ∀ k, ¬ starts (k + opened)) :
    Bounded opens body parts s (limit + opened) due starts (x >>= f) m := by
  have outside : (x.deeds parts s m).flatMap Deed.inside = [] := Deed.flatMap_inside_eq_nil visits
  have unordered (ds : List (Deed P)) : ∀ d ∈ x.deeds parts s m, ∀ e ∈ ds,
      d.isBlock = true → e.isBlock = true := by
    intro d hd e _ block
    rw [visits d hd] at block
    cases block
  -- a pass is one of the first ones, or it is counted from there
  have split (k : Nat) : k < opened ∨ ∃ k', k = k' + opened := by
    by_cases first : k < opened
    · exact .inl first
    · exact .inr ⟨k - opened, by omega⟩
  cases ran : x.run parts s m with
  | ok a n =>
    obtain ⟨passes, bodies', once, last, own, few, reports, exact'⟩ := ok a n ran
    constructor
    · intro k
      rw [deeds_bind_ok ran, List.countP_append, opening]
      obtain early | ⟨k, rfl⟩ := split k
      · exact iff_of_true (by omega) ⟨by omega, first k early⟩
      · rw [Nat.add_comm k, Nat.add_lt_add_iff_left, passes k, Nat.add_comm opened k,
          Nat.add_lt_add_iff_right]
    · rw [deeds_bind_ok ran, List.countP_append, List.countP_append, opening]
      omega
    · rw [deeds_bind_ok ran, List.flatMap_append, outside]
      exact once
    · rw [deeds_bind_ok ran, List.pairwise_append]
      exact ⟨List.pairwise_of_forall_mem_list (unordered _), last, unordered _⟩
    · have reports := (silent.reports steady).bind_ok ran reports
      rw [Nat.zero_add] at reports
      exact ⟨own, few, reports, exact'⟩
  | error e n =>
    have ended := error e n ran
    constructor
    · intro k
      rw [deeds_bind_error ran, opening]
      obtain early | ⟨k, rfl⟩ := split k
      · exact iff_of_true early ⟨by omega, first k early⟩
      · exact iff_of_false (by omega) fun started => ended k started.2
    · rw [deeds_bind_error ran, opening]
      omega
    · rw [deeds_bind_error ran, outside]
      exact Nat.zero_le 1
    · rw [deeds_bind_error ran]
      exact List.pairwise_of_forall_mem_list (unordered _)
    · refine ⟨0, Nat.zero_le 1, (silent.reports steady).bind_error ran, ?_⟩
      exact iff_of_false Nat.zero_ne_one (ended limit)

/-- A step without parts does not matter. -/
theorem bind_act {x : Run α} {kept : Eval.Keeps Machine.InPlace x} {f : α → Plan P β}
    (silent : ∀ s m, (x.after s m).loopReports = m.loopReports)
    (ok : ∀ a n, x s m = .ok a n → Bounded opens body parts s limit due starts (f a) n)
    (error : ∀ e n, x s m = .error e n → ∀ k, ¬ starts k) :
    Bounded opens body parts s limit due starts (Plan.act x kept >>= f) m :=
  bind steady 0 (fun _ none => nomatch none) silent rfl (Nat.le_of_eq rfl)
    (fun k negative => absurd negative (Nat.not_lt_zero k)) ok error

/-- A look at the setup and at the machine does not matter. -/
theorem bind_look {x : Run α} {kept : Eval.Keeps Machine.InPlace x} {f : α → Plan P β}
    {g : Setup → Machine → α} (looks : ∀ s m, x s m = .ok (g s m) m)
    (ok : Bounded opens body parts s limit due starts (f (g s m)) m) :
    Bounded opens body parts s limit due starts (Plan.act x kept >>= f) m := by
  refine bind_act steady (fun s m => ?_) ?_ ?_
  · rw [Eval.after, looks]
  · intro a n ran
    cases (looks s m).symm.trans ran
    exact ok
  · intro e n ran
    cases (looks s m).symm.trans ran

/-- A part that opens no pass. -/
theorem bind_part (due' : Nat) {p : P} (other : opens p = false) {f : Completion → Plan P β}
    (bodies : (if body p then 1 else 0) + due' ≤ due)
    (ok : ∀ c n, parts p s m = .ok c n → Bounded opens body parts s limit due' starts (f c) n)
    (error : ∀ e n, parts p s m = .error e n → ∀ k, ¬ starts k) :
    Bounded opens body parts s limit due starts (.part p >>= f) m := by
  refine bind steady 0 ?_ trivial ?_ ?_ ?_ ok error
  · exact List.forall_mem_singleton.2 rfl
  · exact (List.countP_singleton ..).trans (if_neg (by simp [Deed.goesTo, other]))
  · have count : ((Plan.part p).deeds parts s m).countP (·.goesTo body) = if body p then 1 else 0 :=
      List.countP_singleton ..
    rw [count]
    omega
  · exact fun k negative => absurd negative (Nat.not_lt_zero k)

/-- A part that opens a pass. -/
theorem bind_open (due' : Nat) {p : P} (opening : opens p = true) {f : Completion → Plan P β}
    (bodies : (if body p then 1 else 0) + due' ≤ 1 + due) (first : starts 0)
    (ok : ∀ c n, parts p s m = .ok c n →
      Bounded opens body parts s limit due' (fun k => starts (k + 1)) (f c) n)
    (error : ∀ e n, parts p s m = .error e n → ∀ k, ¬ starts (k + 1)) :
    Bounded opens body parts s (limit + 1) due starts (.part p >>= f) m := by
  refine bind steady 1 ?_ trivial ?_ ?_ ?_ ok error
  · exact List.forall_mem_singleton.2 rfl
  · exact (List.countP_singleton ..).trans (if_pos opening)
  · have count : ((Plan.part p).deeds parts s m).countP (·.goesTo body) = if body p then 1 else 0 :=
      List.countP_singleton ..
    rw [count]
    omega
  · intro k only
    obtain rfl : k = 0 := by omega
    exact first

/-- What follows a body is bounded: the loop goes on if the body lets it and has recorded no possible
exit since a mark, and else it is closed. -/
theorem afterBody {labels : List String} {mark : Nat} {value : Option Value} {c : Completion}
    {rest : Plan P Unit} (closes : Closes body parts rest 1) {f : Pass → Plan P Completion}
    (ended : ∀ c, Ends parts (f (.ended c)) c)
    (next : c.goesOn labels = true → m.exits.size ≤ mark →
      ∀ value, Bounded opens body parts s limit due starts (f (.next value)) m)
    (stop : ¬ (c.goesOn labels = true ∧ m.exits.size ≤ mark) → ∀ k, ¬ starts k) :
    Bounded opens body parts s limit due starts
      (Plan.afterBody labels mark value c rest >>= f) m := by
  unfold Plan.afterBody
  dsimp only
  split
  next passes =>
    refine assoc (bind_look steady (fun _ _ => rfl) ?_)
    -- once the body has recorded possible exits, what is left of the loop closes it
    by_cases exited : mark < m.exits.size
    · rw [if_pos (decide_eq_true exited)]
      refine closed_then steady ?_ ?_ (stop fun ⟨_, few⟩ => absurd few (Nat.not_le.2 exited))
      · exact .none_bind (.claimPasses labels mark) fun _ => closes.bind_pure _
      · intro p n ran
        obtain ⟨_, _, -, ran⟩ := run_bind_eq_ok_iff.1 ran
        obtain ⟨_, _, -, last⟩ := run_bind_eq_ok_iff.1 ran
        cases last
        exact ⟨_, ended _⟩
    · rw [if_neg (by simpa using exited)]
      exact pure_bind (next passes (Nat.not_lt.1 exited) _)
  next stays =>
    have stop := stop fun ⟨goes, _⟩ => stays goes
    -- a `break` of the loop claims the possible exits, any other end is handed on
    split
    · refine closed_then steady (.none_bind (.claimPasses labels mark) fun _ => .pure _) ?_ stop
      intro p n ran
      obtain ⟨_, _, -, last⟩ := run_bind_eq_ok_iff.1 ran
      cases last
      exact ⟨_, ended _⟩
    · refine closed_then steady (.pure _) ?_ stop
      intro p n last
      cases last
      exact ⟨_, ended _⟩

end Bounded

end Plan

/-! ## Bounded runs -/

/-- The deeds of a run from `m` to `n` are bounded exactly by a limit, where `starts k` says that the
pass with the number `k` is about to start. -/
structure BoundedRun {P : Type} (opens body : P → Bool) (limit : Nat) (starts : Nat → Prop)
    (ds : List (Deed P)) (m n : Machine) : Prop where
  /-- The passes that are made outside of all blocks are those that are about to start, up to the
  limit. -/
  passes : ∀ k, k < ds.countP (·.goesTo opens) ↔ k < limit ∧ starts k
  /-- The body is visited outside of all blocks at most as often as the limit says. -/
  bodies : ds.countP (·.goesTo body) ≤ limit
  /-- One report at most is made by the run and not by a part of it, and it is made exactly if one more
  pass is about to start. -/
  reports : ∃ own ≤ 1, n.loopReports =
      m.loopReports + ((ds.flatMap Deed.visits).map Visit.loopReports).sum + own ∧
    (own = 1 ↔ starts limit)
  /-- The body is visited in a block at most once. -/
  once : (ds.flatMap Deed.inside).countP (body ·.part) ≤ 1
  /-- After a block only blocks are entered. -/
  last : ds.Pairwise fun d e => d.isBlock = true → e.isBlock = true
  /-- What is visited outside of all blocks is visited at the ambiguous depth of `m`. -/
  place : ∀ v, .visit v ∈ ds → m.InPlace v.before
  /-- What is visited in a block is visited deeper. -/
  deeper : m.contexts.isEmpty = false → ∀ d ∈ ds, ∀ v ∈ d.inside, m.Deeper v.before

/-- A bounded plan has bounded runs. -/
theorem Plan.Bounded.boundedRun {P α : Type} {opens body : P → Bool} {parts : P → Run Completion}
    {s : Setup} {limit : Nat} {starts : Nat → Prop} {x : Plan P α} {m : Machine}
    (steady : ∀ p, Eval.Keeps Machine.Steady (parts p))
    (h : Bounded opens body parts s limit 0 starts x m) :
    BoundedRun opens body limit starts (x.deeds parts s m) m ((x.run parts).after s m) := by
  obtain ⟨passes, bodies, once, last, own, few, reports, exact'⟩ := h
  have inPlace : ∀ p, Eval.Keeps Machine.InPlace (parts p) := inPlace_of_steady steady
  constructor
  · exact passes
  · -- the limit itself is no pass that is made
    have few : (x.deeds parts s m).countP (·.goesTo opens) ≤ limit :=
      Nat.not_lt.1 fun many => Nat.lt_irrefl limit ((passes limit).1 many).1
    exact Nat.le_trans bodies few
  · rw [Reports, ← flatMap_visits_deeds] at reports
    exact ⟨own, few, reports, exact'⟩
  · exact once
  · exact last
  · exact fun v done => (depth_of_mem_deeds inPlace x (refl m) done).1 v rfl
  · exact fun running d done => (depth_of_mem_deeds inPlace x (refl m) done).2 running

end AbstractScript
