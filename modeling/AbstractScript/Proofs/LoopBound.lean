import AbstractScript.Proofs.BoundedPasses
import AbstractScript.Proofs.LoopPlan
import AbstractScript.Proofs.Soundness

/-!
# The bound of a loop is exact

A loop makes the passes that are about to start (`Loop.Begins`, `NameLoop.Begins`), up to the limit
for loops. It reports exactly that one more pass was about to start, and then evaluates its body once
more in an ambiguous block (`Statement.loops_bounded`). Neither a loop that ends after as many passes
as there may be is reported, nor one over names of which some are deleted in time.
-/
namespace AbstractScript

open Eval

/-! ## Loops with a test -/

namespace Loop

/-- A loop goes on to its body in `j`: its test is skipped or true. -/
def GoesOn (l : Loop) (s : Setup) (tested : Bool) (m j : Machine) : Prop :=
  if tested then l.check s m = .ok .goOn j else j = m

/-- The update of a loop, if there is one, ends normally in `i`. -/
def Updates (l : Loop) (s : Setup) (n i : Machine) : Prop :=
  match l.update with
  | none => i = n
  | some update => ∃ c, update s n = .ok c i ∧ c.isAbrupt = false

/-- A loop makes a pass that began in `m` and whose body begins in `j`, and goes on with its test in
`i`: the body lets it go on, no possible exit was recorded in the pass up to there, and the update
ends normally. -/
def MakesPass (l : Loop) (labels : List String) (s : Setup) (m j i : Machine) : Prop :=
  ∃ c n, l.body s j = .ok c n ∧ c.goesOn labels = true ∧ n.exits.size ≤ m.exits.size ∧
    l.Updates s n i

/-- The pass with a number is about to start in a loop: all passes before it are made, and the loop
goes on to its body. -/
inductive Begins (l : Loop) (labels : List String) (s : Setup) : Nat → Bool → Machine → Prop where
  | here {tested : Bool} {m j : Machine} (goesOn : l.GoesOn s tested m j) :
    l.Begins labels s 0 tested m
  | later {k : Nat} {tested : Bool} {m j i : Machine} (goesOn : l.GoesOn s tested m j)
    (passed : l.MakesPass labels s m j i) (next : l.Begins labels s k true i) :
    l.Begins labels s (k + 1) tested m

variable {l : Loop} {labels : List String} {s : Setup} {tested : Bool} {m j i : Machine} {k : Nat}

theorem GoesOn.unique (h : l.GoesOn s tested m j) (h' : l.GoesOn s tested m i) : j = i := by
  cases tested with
  | false => exact Eq.trans h (Eq.symm h')
  | true =>
    have same : (.ok .goOn j : EStateM.Result FatalError Machine LoopTest) = .ok .goOn i :=
      Eq.trans (Eq.symm h) h'
    cases same
    rfl

theorem Updates.unique (h : l.Updates s m j) (h' : l.Updates s m i) : j = i := by
  unfold Updates at h h'
  split at h
  next none =>
    rw [none] at h'
    exact Eq.trans h (Eq.symm h')
  next update some =>
    rw [some] at h'
    obtain ⟨c, ran, -⟩ := h
    obtain ⟨c', ran', -⟩ := h'
    cases ran.symm.trans ran'
    rfl

theorem begins_zero (goesOn : l.GoesOn s tested m j) : l.Begins labels s 0 tested m := .here goesOn

/-- The first pass leads to the others. -/
theorem begins_succ (goesOn : l.GoesOn s tested m j) :
    l.Begins labels s (k + 1) tested m ↔
      ∃ i, l.MakesPass labels s m j i ∧ l.Begins labels s k true i := by
  constructor
  · intro begins
    cases begins with
    | later goesOn' passed next =>
      obtain rfl := goesOn.unique goesOn'
      exact ⟨_, passed, next⟩
  · rintro ⟨i, passed, next⟩
    exact .later goesOn passed next

theorem not_begins (stops : ∀ j, ¬ l.GoesOn s tested m j) : ¬ l.Begins labels s k tested m := by
  intro begins
  cases begins with
  | here goesOn => exact stops _ goesOn
  | later goesOn => exact stops _ goesOn

/-- True for the body of a loop. -/
def isBody : Part → Bool
  | .body => true
  | _ => false

namespace Shape

open Plan

variable (k : Shape) (parts : Part → Run Completion) {n : Machine} {value : Option Value}

/-! ### How a loop is closed -/

theorem bodyAndUpdate_visitsAtMost : VisitsAtMost isBody parts k.bodyAndUpdate 1 := by
  refine .bind_none (.part _) fun c => ?_
  split
  · exact .pure _
  · split
    · exact .part_bind rfl fun _ => .pure _
    · exact .pure _

theorem inOrder_visitsAtMost {ps : List Part} (others : ∀ p ∈ ps, isBody p = false) :
    VisitsAtMost isBody parts (inOrder ps) 0 := by
  induction ps with
  | nil => exact .pure _
  | cons p rest ih =>
    obtain ⟨first, later⟩ := List.forall_mem_cons.1 others
    refine .part_bind first fun c => ?_
    split
    · exact .pure _
    · exact ih later

theorem silent_bodyAndUpdate : k.bodyAndUpdate.Silent := by
  refine .bind trivial fun c => ?_
  split
  · trivial
  · split
    · exact ⟨trivial, fun _ => trivial⟩
    · trivial

theorem silent_inOrder (ps : List Part) : (inOrder ps).Silent := by
  induction ps with
  | nil => trivial
  | cons p rest ih =>
    refine .bind trivial fun c => ?_
    split
    · trivial
    · exact ih

theorem isBody_updateAndTest : ∀ p ∈ k.updateAndTest, isBody p = false := by
  intro p listed
  obtain ⟨span, test, updates⟩ := k
  cases test <;> cases updates <;> simp [updateAndTest] at listed
  · subst listed; rfl
  · subst listed; rfl
  · rcases listed with rfl | rfl <;> rfl

theorem closes_representative (labels : List String) :
    Closes isBody parts (k.representative labels) 1 := by
  refine .none_bind .mark fun mark => .bind_none ?_ fun _ => .claimPasses labels mark
  exact .ambiguously k.silent_bodyAndUpdate (k.bodyAndUpdate_visitsAtMost parts) k.span

theorem closes_remainder (labels : List String) : Closes isBody parts (k.remainder labels) 1 := by
  refine .none_bind ?_ fun _ => k.closes_representative parts labels
  exact .ambiguously (silent_inOrder _) (inOrder_visitsAtMost parts k.isBody_updateAndTest) k.span

theorem closes_giveUp (labels : List String) (value : Option Value) :
    Closes isBody parts (k.giveUp labels value) 1 :=
  (k.closes_representative parts labels).bind_pure _

/-! ### Passes -/

variable {parts} (steady : ∀ p, Eval.Keeps Machine.Steady (parts p))
  {limit due : Nat} {starts : Nat → Prop}

/-- A test is visited at the depth of the loop, and nothing else is. -/
theorem deeds_check {d : Deed Part} (done : d ∈ k.check.deeds parts s m) :
    ∃ v, d = .visit v ∧ v.part = .test := by
  obtain ⟨span, _ | test, updates⟩ := k
  · cases done
  · unfold check at done
    rw [deeds_bind, List.mem_append] at done
    rcases done with first | later
    · exact ⟨_, List.mem_singleton.1 first, rfl⟩
    · exfalso
      split at later
      · split at later
        · cases later
        · split at later <;> cases later
      · cases later

theorem silent_check : k.check.Silent := by
  obtain ⟨span, _ | test, updates⟩ := k
  · trivial
  · refine .bind trivial fun c => ?_
    split
    · trivial
    · split
      · trivial
      · trivial
      · exact ⟨fun _ _ => Machine.loopReports_congr rfl, fun _ => trivial⟩

include steady

/-- What follows the test of a loop is bounded if what follows a true test is. -/
theorem bounded_check {f : LoopTest → Plan Part Completion}
    (ended : ∀ t j, t ≠ .goOn → (∀ i, ¬ starts i) →
      Bounded isBody isBody parts s limit due starts (f t) j)
    (goOn : ∀ j, (k.loop parts).check s n = .ok .goOn j →
      Bounded isBody isBody parts s limit due starts (f .goOn) j)
    (stops : (∀ j, (k.loop parts).check s n ≠ .ok .goOn j) → ∀ i, ¬ starts i) :
    Bounded isBody isBody parts s limit due starts (k.check >>= f) n := by
  -- a check visits the test alone
  have other (d : Deed Part) (done : d ∈ k.check.deeds parts s n) : d.goesTo isBody = false := by
    obtain ⟨v, rfl, test⟩ := k.deeds_check done
    rw [Deed.goesTo, test]
    rfl
  have none : (k.check.deeds parts s n).countP (·.goesTo isBody) = 0 := by
    rw [List.countP_eq_zero]
    intro d done
    rw [other d done]
    exact Bool.false_ne_true
  refine .bind steady 0 ?_ k.silent_check none (by rw [none]) ?_ ?_ ?_
  · intro d done
    obtain ⟨v, rfl, -⟩ := k.deeds_check done
    rfl
  · exact fun i negative => absurd negative (Nat.not_lt_zero i)
  · intro t j ran
    rw [run_check] at ran
    by_cases goes : t = .goOn
    · subst goes
      exact goOn j ran
    · refine ended t j goes (stops fun j' ran' => goes ?_)
      rw [ran] at ran'
      cases ran'
      rfl
  · intro e j ran
    rw [run_check] at ran
    refine stops fun j' ran' => ?_
    rw [ran] at ran'
    cases ran'

/-- What follows the end of a loop before a pass is bounded if what follows its going on is. -/
theorem bounded_beforeBody {f : Option Completion → Plan Part Completion}
    (ended : ∀ c, f (some c) = pure c) (tested : Bool)
    (goesOn : ∀ j, (k.loop parts).GoesOn s tested n j →
      Bounded isBody isBody parts s limit due starts (f none) j)
    (stops : (∀ j, ¬ (k.loop parts).GoesOn s tested n j) → ∀ i, ¬ starts i) :
    Bounded isBody isBody parts s limit due starts (k.beforeBody labels tested value >>= f) n := by
  unfold beforeBody
  cases tested with
  | false => exact .pure_bind (goesOn n rfl)
  | true =>
    refine .assoc (k.bounded_check steady ?_ (fun j ran => .pure_bind (goesOn j ran)) stops)
    intro t j other none
    cases t with
    | goOn => exact absurd rfl other
    | unknown =>
      -- a loop that is given up enters blocks only
      refine .closed_then steady ((k.closes_giveUp parts labels value).bind_pure _) ?_ none
      intro a i ran
      obtain ⟨c, _, -, last⟩ := run_bind_eq_ok_iff.1 ran
      cases last
      exact ⟨c, ended c ▸ .pure c⟩
    | stop | abrupt =>
      refine .pure_bind (.of_closes steady ?_ none)
      exact ended _ ▸ .pure _

/-- What follows the update of a pass is bounded if what follows a normal update is. -/
theorem bounded_update {f : Pass → Plan Part Completion} (ended : ∀ c, f (.ended c) = pure c)
    (goesOn : ∀ i, (k.loop parts).Updates s n i →
      Bounded isBody isBody parts s limit due starts (f (.next value)) i)
    (stops : (∀ i, ¬ (k.loop parts).Updates s n i) → ∀ i, ¬ starts i) :
    Bounded isBody isBody parts s limit due starts ((if k.updates then do
        let c ← .part .update
        return if c.isAbrupt then .ended c else .next value
      else return .next value) >>= f : Plan Part Completion) n := by
  obtain ⟨span, test, _ | _⟩ := k
  · exact .pure_bind (goesOn n rfl)
  -- the loop does not go on from an update that is abrupt
  · have result {r : EStateM.Result FatalError Machine Completion}
        (ran : parts .update s n = r) (abrupt : ∀ c i, r = .ok c i → c.isAbrupt = true) (i : Machine) :
        ¬ Updates (loop ⟨span, test, true⟩ parts) s n i := by
      rintro ⟨c, ran', normal⟩
      have abrupt := abrupt c i (ran.symm.trans ran')
      rw [normal] at abrupt
      cases abrupt
    refine .assoc (.bind_part steady due rfl (Nat.le_of_eq (Nat.zero_add due)) ?_ ?_)
    · intro c i ran
      refine .pure_bind ?_
      cases abrupt : c.isAbrupt with
      | true =>
        rw [if_pos rfl, ended]
        refine .of_closes steady (.pure c) (stops (result ran fun c' _ same => ?_))
        cases same
        exact abrupt
      | false =>
        rw [if_neg Bool.false_ne_true]
        exact goesOn i ⟨c, ran, abrupt⟩
    · exact fun e i ran => stops (result ran fun _ _ other => by cases other)

/-- A pass that is about to start is made, and what follows it is bounded if what follows its making is. -/
theorem bounded_pass (labels : List String) (goesOn : (k.loop parts).GoesOn s tested m n)
    {passes : Nat} {f : Pass → Plan Part Completion} (ended : ∀ c, f (.ended c) = pure c)
    (next : ∀ i value, Bounded isBody isBody parts s passes 0
      (fun i' => (k.loop parts).Begins labels s i' true i) (f (.next value)) i) :
    Bounded isBody isBody parts s (passes + 1) 0
      (fun i => (k.loop parts).Begins labels s i tested m)
      (k.pass labels m.exits.size value >>= f) n := by
  unfold pass
  refine .assoc (.bind_open steady 0 rfl (Nat.le_refl 1) (begins_zero goesOn) ?_ ?_)
  · intro c i body
    -- what a later pass that is about to start says of this one
    have made {i' : Nat} (begins : (k.loop parts).Begins labels s (i' + 1) tested m) :
        (c.goesOn labels = true ∧ i.exits.size ≤ m.exits.size) ∧
          ∃ j, (k.loop parts).Updates s i j ∧ (k.loop parts).Begins labels s i' true j := by
      obtain ⟨j, ⟨c', _, body', goes, few, updates⟩, next⟩ := (begins_succ goesOn).1 begins
      cases body.symm.trans body'
      exact ⟨⟨goes, few⟩, j, updates, next⟩
    refine .assoc (.afterBody steady (k.closes_remainder parts labels) ?_ ?_ ?_)
    · exact fun c => .pure_bind (ended c ▸ .pure c)
    · intro goes few value'
      refine k.bounded_update steady ended ?_ ?_
      · intro j updates
        refine (next j value').congr fun i' => ?_
        constructor
        · intro begins
          exact (begins_succ goesOn).2 ⟨j, ⟨c, i, body, goes, few, updates⟩, begins⟩
        · intro begins
          obtain ⟨-, j', updates', next⟩ := made begins
          obtain rfl := updates.unique updates'
          exact next
      · intro stops i' begins
        obtain ⟨-, j, updates, -⟩ := made begins
        exact stops j updates
    · exact fun no _ begins => no (made begins).1
  · rintro e i failed i' begins
    obtain ⟨_, ⟨c, _, body, -⟩, -⟩ := (begins_succ goesOn).1 begins
    cases failed.symm.trans body

/-- The passes of a loop are bounded by the passes that are left. -/
theorem bounded_iterate (labels : List String) (passes : Nat) (tested : Bool) :
    Bounded isBody isBody parts s passes 0 (fun i => (k.loop parts).Begins labels s i tested n)
      (k.iterate labels passes tested value) n := by
  -- by induction on the passes that are left: the first pass leads to the others
  induction passes generalizing n tested value with
  | zero =>
    unfold iterate
    refine k.bounded_beforeBody steady (fun _ => rfl) tested ?_ fun stops i => not_begins stops
    intro j goesOn
    exact .exceeded steady (k.closes_giveUp parts labels value) (begins_zero goesOn)
  | succ passes ih =>
    unfold iterate
    refine .bind_look steady (fun _ _ => rfl) ?_
    refine k.bounded_beforeBody steady (fun _ => rfl) tested ?_ fun stops i => not_begins stops
    intro j goesOn
    exact k.bounded_pass steady labels goesOn (fun _ => rfl) fun i value => ih true

/-- The passes of a loop are bounded by the limit for loops. -/
theorem bounded_evaluate (loops : s.options.evaluateLoops = true) (labels : List String)
    (testFirst : Bool) :
    Bounded isBody isBody parts s s.options.maxLoopIterations 0
      (fun i => (k.loop parts).Begins labels s i testFirst n) (k.evaluate labels testFirst) n := by
  refine .bind_look steady (fun _ _ => rfl) ?_
  rw [if_pos loops]
  exact k.bounded_iterate steady labels _ testFirst

end Shape

/-- What a loop does with its parts, in order. -/
def deeds (l : Loop) (labels : List String) (testFirst : Bool) (s : Setup) (m : Machine) :
    List (Deed Part) :=
  (l.shape.evaluate labels testFirst).deeds l.parts s m

end Loop

/-! ## Loops over names -/

/-- The conversion to an object reports no loop. -/
theorem Plan.silent_toObject? {P : Type} (v : Value) : (Plan.toObject? v : Plan P _).Silent := by
  intro s m
  cases v with
  | undefined | null =>
    show (m.diagnostics.push _).toList.countP _ = _
    rw [Array.toList_push, List.countP_append]
    rfl
  | _ => exact Machine.loopReports_congr rfl

namespace NameLoop

/-- A loop makes a pass for a name from `m` on, and goes on with the next name in `i`: the variable is
assigned, the body lets the loop go on, and no possible exit was recorded in the pass. -/
def MakesPass (l : NameLoop) (labels : List String) (s : Setup) (name : String) (m i : Machine) :
    Prop :=
  ∃ c j c', l.assign (.string name) s m = .ok c j ∧ c.isAbrupt = false ∧ l.body s j = .ok c' i ∧
    c'.goesOn labels = true ∧ i.exits.size ≤ m.exits.size

/-- The pass with a number is about to start among the passes for the names of an object. Names that
the object does not have any more do not count. -/
inductive BeginsFrom (l : NameLoop) (labels : List String) (s : Setup) (o : ObjectId) :
    Nat → List String → Machine → Prop where
  | here {name : String} {rest : List String} {m : Machine}
    (present : m.realm.hasProperty o name = true) : l.BeginsFrom labels s o 0 (name :: rest) m
  | deleted {k : Nat} {name : String} {rest : List String} {m : Machine}
    (absent : m.realm.hasProperty o name = false) (next : l.BeginsFrom labels s o k rest m) :
    l.BeginsFrom labels s o k (name :: rest) m
  | later {k : Nat} {name : String} {rest : List String} {m i : Machine}
    (present : m.realm.hasProperty o name = true) (passed : l.MakesPass labels s name m i)
    (next : l.BeginsFrom labels s o k rest i) : l.BeginsFrom labels s o (k + 1) (name :: rest) m

/-- The pass with a number is about to start in a loop: its object is evaluated and converted, and
then the pass is about to start for the names of the object. -/
def Begins (l : NameLoop) (labels : List String) (s : Setup) (k : Nat) (m : Machine) : Prop :=
  ∃ c j o i, l.object.2 s m = .ok c j ∧ c.isAbrupt = false ∧
    (Rule.native (Op.toObject? c.getValue)).run s j = .ok (.ok (some o)) i ∧
      l.BeginsFrom labels s o k (i.realm.enumerableNames o) i

variable {l : NameLoop} {labels : List String} {s : Setup} {o : ObjectId} {name : String}
  {rest : List String} {m i : Machine} {k : Nat}

theorem beginsFrom_deleted (absent : m.realm.hasProperty o name = false) :
    l.BeginsFrom labels s o k (name :: rest) m ↔ l.BeginsFrom labels s o k rest m := by
  constructor
  · intro begins
    cases begins with
    | here present | later present => rw [absent] at present; cases present
    | deleted _ next => exact next
  · exact .deleted absent

/-- The pass for a name that the object has leads to the others. -/
theorem beginsFrom_succ (present : m.realm.hasProperty o name = true) :
    l.BeginsFrom labels s o (k + 1) (name :: rest) m ↔
      ∃ i, l.MakesPass labels s name m i ∧ l.BeginsFrom labels s o k rest i := by
  constructor
  · intro begins
    cases begins with
    | deleted absent => rw [present] at absent; cases absent
    | later _ passed next => exact ⟨_, passed, next⟩
  · rintro ⟨i, passed, next⟩
    exact .later present passed next

/-- True for the assignment to the variable of a loop, with which a pass begins. -/
def isAssign : Part → Bool
  | .assign _ => true
  | _ => false

/-- True for the body of a loop. -/
def isBody : Part → Bool
  | .body => true
  | _ => false

namespace Shape

open Plan

variable (k : Shape) (parts : Part → Run Completion) {n : Machine} {value : Option Value}

theorem assignAndBody_visitsAtMost : VisitsAtMost isBody parts assignAndBody 1 := by
  refine .part_bind rfl fun c => ?_
  split
  · exact .pure _
  · exact .part _

theorem silent_assignAndBody : assignAndBody.Silent := by
  refine .bind trivial fun c => ?_
  split <;> trivial

theorem closes_representative (labels : List String) :
    Closes isBody parts (k.representative labels) 1 := by
  refine .none_bind .mark fun mark => .bind_none ?_ fun _ => .claimPasses labels mark
  exact .ambiguously silent_assignAndBody (assignAndBody_visitsAtMost parts) k.span

theorem closes_giveUp (labels : List String) : Closes isBody parts (k.giveUp labels) 1 :=
  (k.closes_representative parts labels).bind_pure _

variable {parts} (steady : ∀ p, Eval.Keeps Machine.Steady (parts p))

include steady

/-- A pass for a name that the object has is made, and what follows it is bounded if what follows its
making is. -/
theorem bounded_pass (labels : List String) {o : ObjectId} {name : String} {names : List String}
    (present : n.realm.hasProperty o name = true) {passes : Nat}
    {f : Pass → Plan Part Completion} (ended : ∀ c, f (.ended c) = pure c)
    (next : ∀ i value, Bounded isAssign isBody parts s passes 0
      (fun i' => (k.loop parts).BeginsFrom labels s o i' names i) (f (.next value)) i) :
    Bounded isAssign isBody parts s (passes + 1) 0
      (fun i => (k.loop parts).BeginsFrom labels s o i (name :: names) n)
      (k.pass labels value name >>= f) n := by
  unfold pass
  refine .assoc (.bind_look steady (fun _ _ => rfl) ?_)
  refine .assoc (.bind_open steady 1 rfl (Nat.le_refl 1) (.here present) ?_ ?_)
  · intro c j assigned
    -- what a later pass that is about to start says of this one
    have made {i' : Nat} (begins : (k.loop parts).BeginsFrom labels s o (i' + 1) (name :: names) n) :
        c.isAbrupt = false ∧ ∃ c' i, parts .body s j = .ok c' i ∧
          (c'.goesOn labels = true ∧ i.exits.size ≤ n.exits.size) ∧
            (k.loop parts).BeginsFrom labels s o i' names i := by
      obtain ⟨i, ⟨c₂, j₂, c', assigned', normal, body, goes, few⟩, next⟩ :=
        (beginsFrom_succ present).1 begins
      cases assigned.symm.trans assigned'
      exact ⟨normal, c', i, body, ⟨goes, few⟩, next⟩
    cases abrupt : c.isAbrupt with
    | true =>
      refine .pure_bind (.of_closes steady (ended c ▸ .pure c) fun i' begins => ?_)
      have normal := (made begins).1
      rw [abrupt] at normal
      cases normal
    | false =>
      refine .assoc (.bind_part steady 0 rfl (Nat.le_refl 1) ?_ ?_)
      · intro c' i body
        refine .afterBody steady (k.closes_representative parts labels)
          (fun c => ended c ▸ .pure c) ?_ ?_
        · intro goes few value'
          refine (next i value').congr fun i' => ?_
          constructor
          · intro begins
            exact .later present ⟨c, j, c', assigned, abrupt, body, goes, few⟩ begins
          · intro begins
            obtain ⟨-, c₂, i₂, body', -, next⟩ := made begins
            cases body.symm.trans body'
            exact next
        · intro no i' begins
          obtain ⟨-, c₂, i₂, body', goes, -⟩ := made begins
          cases body.symm.trans body'
          exact no goes
      · intro e i failed i' begins
        obtain ⟨-, c₂, i₂, body, -⟩ := made begins
        cases failed.symm.trans body
  · intro e j failed i' begins
    obtain ⟨i, ⟨c, j', c', assigned, -⟩, -⟩ := (beginsFrom_succ present).1 begins
    cases failed.symm.trans assigned

/-- The passes over names are bounded by the passes that are left. -/
theorem bounded_visit (labels : List String) (o : ObjectId) (names : List String) (passes : Nat) :
    Bounded isAssign isBody parts s passes 0
      (fun i => (k.loop parts).BeginsFrom labels s o i names n)
      (k.visit labels o passes value names) n := by
  -- by induction on the names; a name that is deleted leaves the passes as they are
  induction names generalizing n passes value with
  | nil =>
    have ended : k.visit labels o passes value [] = Pure.pure (Completion.finished value) := by
      cases passes <;> rfl
    rw [ended]
    exact .of_closes steady (.pure _) fun i begins => by cases begins
  | cons name rest ih =>
    unfold visit
    refine .bind_look steady (fun _ _ => rfl) ?_
    dsimp only
    cases present : n.realm.hasProperty o name with
    | false => exact (ih passes).congr fun i => (beginsFrom_deleted present).symm
    | true =>
      cases passes with
      | zero =>
        exact .exceeded steady ((k.closes_representative parts labels).bind_pure _) (.here present)
      | succ passes =>
        exact k.bounded_pass steady labels present (fun _ => rfl) fun i value => ih passes

/-- The passes of a loop over the names of an object that was found are bounded by the limit. -/
theorem bounded_visitFound (labels : List String) (found : Except Completion (Option ObjectId)) :
    Bounded isAssign isBody parts s s.options.maxLoopIterations 0
      (fun i => ∃ o, found = .ok (some o) ∧
        (k.loop parts).BeginsFrom labels s o i (n.realm.enumerableNames o) n)
      (k.visitFound labels found) n := by
  rcases found with c | _ | o
  · refine .of_closes steady (.pure c) ?_
    rintro i ⟨o, other, -⟩
    cases other
  · refine .of_closes steady (.pure _) ?_
    rintro i ⟨o, other, -⟩
    cases other
  · refine .bind_look steady (fun _ _ => rfl) (.bind_look steady (fun _ _ => rfl) ?_)
    refine (k.bounded_visit steady labels o _ _).congr fun i => ?_
    constructor
    · intro begins
      exact ⟨o, rfl, begins⟩
    · rintro ⟨_, same, begins⟩
      cases same
      exact begins

/-- The passes of a loop over the names of a value are bounded by the limit for loops. -/
theorem bounded_visitValue (labels : List String) (v : Value) :
    Bounded isAssign isBody parts s s.options.maxLoopIterations 0
      (fun i => ∃ o j, (Rule.native (Op.toObject? v)).run s n = .ok (.ok (some o)) j ∧
        (k.loop parts).BeginsFrom labels s o i (j.realm.enumerableNames o) j)
      (k.visitValue labels v) n := by
  -- a value that is known is converted to the object whose names are visited
  have converted : Bounded isAssign isBody parts s s.options.maxLoopIterations 0
      (fun i => ∃ o j, (Rule.native (Op.toObject? v)).run s n = .ok (.ok (some o)) j ∧
        (k.loop parts).BeginsFrom labels s o i (j.realm.enumerableNames o) j)
      (Plan.toObject? v >>= k.visitFound labels) n := by
    refine .bind_act steady (silent_toObject? (P := Part) v) ?_ ?_
    · intro found j ran
      refine (k.bounded_visitFound steady labels found).congr fun i => ?_
      constructor
      · rintro ⟨o, rfl, begins⟩
        exact ⟨o, j, ran, begins⟩
      · rintro ⟨o, j', ran', begins⟩
        cases ran.symm.trans ran'
        exact ⟨o, rfl, begins⟩
    · rintro e j failed i ⟨o, j', ran, -⟩
      cases failed.symm.trans ran
  cases v with
  | undefined | null =>
    refine .of_closes steady (.pure _) ?_
    rintro i ⟨o, j, ran, -⟩
    cases ran
  | unknown =>
    refine .of_closes steady (.none_bind (.act _ fun _ _ => Machine.loopReports_congr rfl) fun _ =>
      k.closes_giveUp parts labels) ?_
    rintro i ⟨o, j, ran, -⟩
    cases ran
  | bool _ | number _ | string _ | object _ => exact converted

/-- The passes of a loop over names are bounded by the limit for loops. -/
theorem bounded_evaluate (loops : s.options.evaluateLoops = true) (labels : List String) :
    Bounded isAssign isBody parts s s.options.maxLoopIterations 0
      (fun i => (k.loop parts).Begins labels s i n) (k.evaluate labels) n := by
  refine .bind_part steady 0 rfl (Nat.le_refl 0) ?_ ?_
  · intro c j ran
    have same {c' : Completion} {j' : Machine} (ran' : parts .object s n = .ok c' j') :
        c = c' ∧ j = j' := by
      cases ran.symm.trans ran'
      exact ⟨rfl, rfl⟩
    cases abrupt : c.isAbrupt with
    | true =>
      refine .of_closes steady (.pure c) ?_
      rintro i ⟨c', j', o, i', ran', normal, -⟩
      rw [← (same ran').1, abrupt] at normal
      cases normal
    | false =>
      refine .bind_look steady (fun _ _ => rfl) ?_
      dsimp only
      rw [if_pos loops]
      refine (k.bounded_visitValue steady labels c.getValue).congr fun i => ?_
      constructor
      · rintro ⟨o, i', object, begins⟩
        exact ⟨c, j, o, i', ran, abrupt, object, begins⟩
      · rintro ⟨c', j', o, i', ran', -, object, begins⟩
        obtain ⟨rfl, rfl⟩ := same ran'
        exact ⟨o, i', object, begins⟩
  · rintro e j failed i ⟨c, j', o, i', ran, -⟩
    cases failed.symm.trans ran

end Shape

/-- What a loop does with its parts, in order. -/
def deeds (l : NameLoop) (labels : List String) (s : Setup) (m : Machine) : List (Deed Part) :=
  (l.shape.evaluate labels).deeds l.parts s m

end NameLoop

/-! ## The bound of a loop -/

/-- **The bound of a loop is exact.** A loop makes the passes that are about to start, as many as the
limit allows. It reports exactly that one more pass was about to start, and then visits its body once
more in a block of its own, after which it does nothing outside of blocks.

The loop of a statement is what the statement evaluates (`Statement.evaluate_loop`,
`Statement.evaluate_nameLoop`), and its deeds are those of its evaluation (`Loop.run_shape`,
`NameLoop.run_shape`). -/
theorem Statement.loops_bounded (calls : Nat) (st : Statement) {s : Setup}
    (loops : s.options.evaluateLoops = true) (labels : List String) (m : Machine) :
    (∀ testFirst l, st.loop? (callWithin calls) = some (testFirst, l) →
      BoundedRun Loop.isBody Loop.isBody s.options.maxLoopIterations
        (fun k => l.Begins labels s k testFirst m) (l.deeds labels testFirst s m) m
        ((l.evaluate labels testFirst).after s m)) ∧
    ∀ l, st.nameLoop? (callWithin calls) = some l →
      BoundedRun NameLoop.isAssign NameLoop.isBody s.options.maxLoopIterations
        (fun k => l.Begins labels s k m) (l.deeds labels s m) m
        ((l.evaluate labels).complete.after s m) := by
  constructor
  · intro testFirst l written
    have steady : ∀ p, Eval.Keeps Machine.Steady (l.parts p) := Loop.keeps_parts
      (Statement.keeps_loop? (callWithin_keeps calls) (fun no => absurd trivial no) written)
    have bounded := l.shape.bounded_evaluate (n := m) steady loops labels testFirst
    rw [Loop.Shape.loop_shape] at bounded
    rw [← l.run_shape]
    exact bounded.boundedRun steady
  · intro l written
    have steady : ∀ p, Eval.Keeps Machine.Steady (l.parts p) := NameLoop.keeps_parts
      (Statement.keeps_nameLoop? (callWithin_keeps calls) (fun no => absurd trivial no) written)
    have bounded := l.shape.bounded_evaluate (n := m) steady loops labels
    rw [← l.run_shape]
    exact bounded.boundedRun steady

/-! ### Loops at the limit -/

open Analyzer

/-- A program with a loop: `var x; loop`. -/
def Loop.alone (loop : Statement) : Program where
  span := default
  file := "loop.js"
  body := [.varDeclaration default [.mk default ⟨default, "x"⟩ none], loop]

/-- What a run is given in which loops make two passes at most. -/
def Loop.twoPasses (loop : Statement) : Setup :=
  { withUnknown.setup (alone loop) with options := { maxLoopIterations := 2 } }

/-- The machine in which the loop begins. -/
def Loop.aloneStart (loop : Statement) : Machine :=
  withUnknown.machineAfter (alone loop) ((alone loop).body.take 1)

/-- `while (true) ;` -/
def Loop.endless : Statement := .whileLoop default (boolAt true) (.empty default)

/-- `for (x in "ab") ;` -/
def NameLoop.ofTwo : Statement :=
  .forInLoop default (.expression (nameAt "x")) (.literal default (.string "ab")) (.empty default)

/-- A loop without end makes two passes and is reported. A loop over two names makes two passes as
well, and is not reported. -/
theorem Statement.loops_bounded_twoPasses :
    (∃ l, Loop.endless.loop? (callWithin 1) = some (true, l) ∧
      BoundedRun Loop.isBody Loop.isBody 2
        (fun k => l.Begins [] (Loop.twoPasses Loop.endless) k true (Loop.aloneStart Loop.endless))
        (l.deeds [] true (Loop.twoPasses Loop.endless) (Loop.aloneStart Loop.endless))
        (Loop.aloneStart Loop.endless)
        ((l.evaluate [] true).after (Loop.twoPasses Loop.endless) (Loop.aloneStart Loop.endless)) ∧
      (l.deeds [] true (Loop.twoPasses Loop.endless) (Loop.aloneStart Loop.endless)).countP
        (·.goesTo Loop.isBody) = 2 ∧
      ((l.evaluate [] true).after (Loop.twoPasses Loop.endless)
        (Loop.aloneStart Loop.endless)).loopReports = 1) ∧
    ∃ l, NameLoop.ofTwo.nameLoop? (callWithin 1) = some l ∧
      BoundedRun NameLoop.isAssign NameLoop.isBody 2
        (fun k => l.Begins [] (Loop.twoPasses NameLoop.ofTwo) k (Loop.aloneStart NameLoop.ofTwo))
        (l.deeds [] (Loop.twoPasses NameLoop.ofTwo) (Loop.aloneStart NameLoop.ofTwo))
        (Loop.aloneStart NameLoop.ofTwo)
        ((l.evaluate []).complete.after (Loop.twoPasses NameLoop.ofTwo)
          (Loop.aloneStart NameLoop.ofTwo)) ∧
      (l.deeds [] (Loop.twoPasses NameLoop.ofTwo) (Loop.aloneStart NameLoop.ofTwo)).countP
        (·.goesTo NameLoop.isAssign) = 2 ∧
      ((l.evaluate []).complete.after (Loop.twoPasses NameLoop.ofTwo)
        (Loop.aloneStart NameLoop.ofTwo)).loopReports = 0 := by
  constructor
  · have loops : (Loop.twoPasses Loop.endless).options.evaluateLoops = true := rfl
    refine ⟨_, rfl, ?_, by decide +kernel, by decide +kernel⟩
    exact (Statement.loops_bounded 1 Loop.endless loops [] _).1 true _ rfl
  · have loops : (Loop.twoPasses NameLoop.ofTwo).options.evaluateLoops = true := rfl
    refine ⟨_, rfl, ?_, by decide +kernel, by decide +kernel⟩
    exact (Statement.loops_bounded 1 NameLoop.ofTwo loops [] _).2 _ rfl

end AbstractScript
