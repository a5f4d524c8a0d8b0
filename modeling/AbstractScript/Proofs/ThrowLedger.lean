import AbstractScript.Proofs.Chronicle
import AbstractScript.Proofs.Soundness

/-!
# The ledger of possible throws

A throw in an ambiguous block is recorded as a possible exit. The ledger of a run tells what happens
to it. If the block of a `try` with a handler was being evaluated, the innermost such `try` removes it
when its block ends, and nothing else does; if there was none, the throw is reported after the run,
with the place and the stack of rules of the moment that recorded it, in the order of recording
(`Analyzer.possible_throws_accounted`).
-/
namespace AbstractScript

open Eval Machine

/-! ## Ledgers -/

/-- A ledger accounts for the throws in it, except for those that still wait, in the order of
recording. -/
inductive Accounted : List LedgerEntry → List PossibleExit → Prop where
  | nil : Accounted [] []
  /-- A throw that is recorded waits. -/
  | throws {t : List LedgerEntry} {waiting : List PossibleExit} {c : Completion} {stack : List Frame}
    (h : Accounted t waiting) (isThrow : c.isThrow = true) :
    Accounted (t ++ [.recorded c stack])
      (waiting ++ [⟨c, stack.head?.map Frame.location, stack⟩])
  /-- Another completion that is recorded. -/
  | jump {t : List LedgerEntry} {waiting : List PossibleExit} {c : Completion} {stack : List Frame}
    (h : Accounted t waiting) (other : c.isThrow = false) :
    Accounted (t ++ [.recorded c stack]) waiting
  /-- Another completion that reaches its target. -/
  | landed {t : List LedgerEntry} {waiting : List PossibleExit} {e : PossibleExit}
    (h : Accounted t waiting) (other : e.completion.isThrow = false) :
    Accounted (t ++ [.removed e]) waiting
  /-- The block of a `try` with a handler ends. What waits of its throws is removed, all of it. -/
  | handled {t block : List LedgerEntry} {waiting caught : List PossibleExit}
    (h : Accounted t waiting) (inside : Accounted block caught) :
    Accounted (t ++ block ++ .handled block.length :: caught.map .removed) waiting

namespace LedgerEntry

/-- The throw that an entry records. -/
def thrown? : LedgerEntry → Option PossibleExit
  | .recorded c stack =>
    if c.isThrow then some ⟨c, stack.head?.map Frame.location, stack⟩ else none
  | _ => none

/-- The throw that an entry removes. -/
def caught? : LedgerEntry → Option PossibleExit
  | .removed e => if e.completion.isThrow then some e else none
  | _ => none

@[simp] theorem thrown?_removed (e : PossibleExit) : (removed e).thrown? = none := rfl

@[simp] theorem thrown?_handled (length : Nat) : (handled length).thrown? = none := rfl

@[simp] theorem caught?_recorded (c : Completion) (stack : List Frame) :
    (recorded c stack).caught? = none := rfl

@[simp] theorem caught?_handled (length : Nat) : (handled length).caught? = none := rfl

/-- What is removed from the throws is removed. -/
theorem filterMap_caught? (es : List PossibleExit) (throws : ∀ e ∈ es, e.completion.isThrow = true) :
    (es.map removed).filterMap caught? = es := by
  induction es with
  | nil => rfl
  | cons e es ih =>
    have first : (removed e).caught? = some e := if_pos (throws e List.mem_cons_self)
    rw [List.map_cons, List.filterMap_cons_some first,
      ih fun e' he' => throws e' (List.mem_cons_of_mem e he')]

theorem filterMap_thrown? (es : List PossibleExit) : (es.map removed).filterMap thrown? = [] := by
  rw [List.filterMap_map]
  exact List.filterMap_eq_nil_iff.2 fun _ _ => rfl

end LedgerEntry

namespace Accounted

open LedgerEntry List

variable {t t' : List LedgerEntry} {waiting waiting' : List PossibleExit}

theorem append (h : Accounted t waiting) (h' : Accounted t' waiting') :
    Accounted (t ++ t') (waiting ++ waiting') := by
  induction h' with
  | nil => simpa using h
  | throws _ isThrow ih =>
    rw [← List.append_assoc, ← List.append_assoc]
    exact ih.throws isThrow
  | jump _ other ih =>
    rw [← List.append_assoc]
    exact ih.jump other
  | landed _ other ih =>
    rw [← List.append_assoc]
    exact ih.landed other
  | handled _ inside ih _ =>
    rw [← List.append_assoc, ← List.append_assoc]
    exact ih.handled inside

theorem others_landed (es : List PossibleExit) (other : ∀ e ∈ es, e.completion.isThrow = false) :
    Accounted (es.map .removed) [] := by
  induction es with
  | nil => exact .nil
  | cons e es ih =>
    have first : Accounted [.removed e] [] := .landed .nil (other e List.mem_cons_self)
    exact first.append (ih fun e' he' => other e' (List.mem_cons_of_mem e he'))

/-- All that waits is a throw. -/
theorem isThrow_of_mem (h : Accounted t waiting) {e : PossibleExit} (he : e ∈ waiting) :
    e.completion.isThrow = true := by
  induction h with
  | nil => cases he
  | throws _ isThrow ih =>
    rcases List.mem_append.1 he with earlier | last
    · exact ih earlier
    · rw [List.mem_singleton.1 last]
      exact isThrow
  | jump _ _ ih => exact ih he
  | landed _ _ ih => exact ih he
  | handled _ _ ih _ => exact ih he

/-- The throws that wait are in the order of recording. -/
theorem sublist_thrown (h : Accounted t waiting) : waiting.Sublist (t.filterMap thrown?) := by
  induction h with
  | nil => exact .slnil
  | throws _ isThrow ih =>
    rw [List.filterMap_append]
    exact ih.append (by simp [thrown?, isThrow])
  | jump _ other ih => simpa [thrown?, other] using ih
  | landed _ _ ih => simpa [List.filterMap_cons] using ih
  | handled _ _ ih _ =>
    rw [List.filterMap_append, List.filterMap_append, List.append_assoc]
    exact ih.trans (List.sublist_append_left ..)

/-- Each throw is either removed once or still waits. -/
theorem perm_thrown (h : Accounted t waiting) :
    (t.filterMap thrown?).Perm (t.filterMap caught? ++ waiting) := by
  induction h with
  | nil => exact .nil
  | throws _ isThrow ih =>
    simpa [List.filterMap_cons, thrown?, isThrow] using ih.append_right _
  | jump _ other ih => simpa [List.filterMap_cons, thrown?, other] using ih
  | landed _ other ih => simpa [List.filterMap_cons, caught?, other] using ih
  | @handled t block waiting caught _ inside ih ih' =>
    have removed := filterMap_caught? caught fun _ => inside.isThrow_of_mem
    -- what a block caught was waiting inside it, so that it counts once on either side
    simp only [List.filterMap_append, List.filterMap_cons, thrown?_handled, caught?_handled, removed,
      filterMap_thrown?, List.append_nil, List.append_assoc]
    calc t.filterMap thrown? ++ block.filterMap thrown?
      _ ~ (t.filterMap caught? ++ waiting) ++ (block.filterMap caught? ++ caught) := ih.append ih'
      _ = t.filterMap caught? ++ (waiting ++ (block.filterMap caught? ++ caught)) :=
        List.append_assoc ..
      _ ~ t.filterMap caught? ++ ((block.filterMap caught? ++ caught) ++ waiting) :=
        List.perm_append_comm.append_left _
      _ = t.filterMap caught? ++ (block.filterMap caught? ++ (caught ++ waiting)) := by
        rw [List.append_assoc]

end Accounted

namespace Machine

/-- The throws that may have happened and that no `try` has claimed. -/
def throws (m : Machine) : List PossibleExit := m.exits.toList.filter (·.completion.isThrow)

/-- The ledger accounts for the throws that are added, and none of them is reported yet. -/
structure Settles (m n : Machine) : Prop where
  accounts : ∃ t added, n.ledger.toList = m.ledger.toList ++ t ∧ Accounted t added ∧
    n.throws = m.throws ++ added
  reports : ∃ ds : List Diagnostic, (∀ d ∈ ds, d.kind ≠ .possiblyUncaught) ∧
    n.diagnostics.toList = m.diagnostics.toList ++ ds

namespace Settles

variable {m n k : Machine}

theorem of_told (throws : n.throws = m.throws) (told : m.Told n) : m.Settles n where
  accounts := ⟨[], [], by simp [told.ledger], .nil, by simp [throws]⟩
  reports := told.reported.imp fun _ h => ⟨h.1, h.2.1⟩

theorem trans (h : m.Settles n) (h' : n.Settles k) : m.Settles k where
  accounts := by
    obtain ⟨t, added, ledger, accounted, throws⟩ := h.accounts
    obtain ⟨t', added', ledger', accounted', throws'⟩ := h'.accounts
    refine ⟨t ++ t', added ++ added', ?_, accounted.append accounted', ?_⟩
    · rw [ledger', ledger, List.append_assoc]
    · rw [throws', throws, List.append_assoc]
  reports := by
    obtain ⟨ds, other, diagnostics⟩ := h.reports
    obtain ⟨ds', other', diagnostics'⟩ := h'.reports
    refine ⟨ds ++ ds', fun d hd => ?_, ?_⟩
    · exact (List.mem_append.1 hd).elim (other d) (other' d)
    · rw [diagnostics', diagnostics, List.append_assoc]

instance : IsPreorder Machine Settles where
  refl m := .of_told rfl .of_eq
  trans _ _ _ := trans

theorem addExit (m : Machine) (c : Completion) : m.Settles (m.addExit c) where
  accounts := by
    cases isThrow : c.isThrow with
    | true =>
      exact ⟨[.recorded c m.frames], [⟨c, m.location?, m.frames⟩], Array.toList_push,
        .throws .nil isThrow, by simp [throws, Machine.addExit, isThrow]⟩
    | false =>
      exact ⟨[.recorded c m.frames], [], Array.toList_push, .jump .nil isThrow,
        by simp [throws, Machine.addExit, isThrow]⟩
  reports := ⟨[], nofun, (List.append_nil _).symm⟩

end Settles

/-! ## Claims -/

theorem ledger_dropClaimed (m : Machine) (mark : Nat) (p : Completion → Bool) :
    (m.dropClaimed mark p).ledger.toList =
      m.ledger.toList ++ (m.claimed mark p).map LedgerEntry.removed := by
  unfold dropClaimed
  split
  next small => simp [claimed, exitsSince_eq_drop, List.drop_of_length_le, small]
  next => simp

end Machine

/-- A claim of other completions leaves all throws. -/
theorem Machine.Settles.claim {p : Completion → Bool} (others : ∀ c, c.isThrow = true → p c = false)
    (m : Machine) (mark : Nat) : m.Settles (m.dropClaimed mark p) where
  accounts := by
    refine ⟨_, [], ledger_dropClaimed m mark p, .others_landed _ fun e he => ?_, ?_⟩
    · obtain ⟨-, chosen⟩ := List.mem_filter.1 he
      by_contra throws
      rw [others _ (Bool.of_not_eq_false throws)] at chosen
      cases chosen
    · have kept : ((m.exitsSince mark).filter fun e => !p e.completion).filter
          (·.completion.isThrow) = (m.exitsSince mark).filter (·.completion.isThrow) := by
        rw [List.filter_filter]
        refine List.filter_congr fun e _ => ?_
        cases throws : e.completion.isThrow with
        | true => simp [others _ throws]
        | false => rfl
      rw [throws, exits_dropClaimed, List.filter_append, kept, ← List.filter_append,
        exitsSince_eq_drop, List.take_append_drop, List.append_nil, throws]
  reports := ⟨[], nofun, by simp [diagnostics_dropClaimed]⟩

/-- The `try` removes what its block has recorded, and only that. -/
theorem Machine.Settles.handled {m n : Machine} (steady : m.Steady n) (h : m.Settles n) :
    m.Settles (m.endHandled n) where
  accounts := by
    obtain ⟨t, added, ledger, accounted, throws⟩ := h.accounts
    obtain ⟨new, exits⟩ := steady.exits
    have since : (n.exitsSince m.exits.size).filter (·.completion.isThrow) = added := by
      rw [Machine.throws, Machine.throws, ← exits, List.filter_append] at throws
      rw [exitsSince_eq_drop, ← exits, ← Array.length_toList, List.drop_left]
      exact List.append_cancel_left throws
    -- the entry names exactly the part of the ledger that the block has added
    have length : n.ledger.size - m.ledger.size = t.length := by
      rw [← Array.length_toList, ← Array.length_toList, ledger, List.length_append,
        Nat.add_sub_cancel_left]
    refine ⟨t ++ .handled t.length :: added.map .removed, [], ?_, .handled .nil accounted, ?_⟩
    · rw [endHandled, ledger_dropClaimed, claimed]
      show (n.ledger.push _).toList ++ ((n.exitsSince m.exits.size).filter _).map _ = _
      rw [since, Array.toList_push, ledger, length]
      simp
    -- no throw stays among the exits of the block
    · have left : n.exits.toList.take m.exits.size = m.exits.toList := by
        rw [← exits, ← Array.length_toList, List.take_left]
      rw [Machine.throws, endHandled, exits_dropClaimed, List.filter_append, List.filter_filter]
      have none (es : List PossibleExit) : es.filter (fun e => e.completion.isThrow &&
          !e.completion.isThrow) = [] := List.filter_eq_nil_iff.2 fun e _ => by simp
      rw [none]
      show (n.exits.toList.take m.exits.size).filter _ ++ _ = _
      rw [left]
      rfl
  reports := by
    obtain ⟨ds, other, diagnostics⟩ := h.reports
    exact ⟨ds, other, by rw [endHandled, diagnostics_dropClaimed]; exact diagnostics⟩

instance : Chronicle Settles where
  apart h := .of_told (by rw [throws, throws, h.exits]) h.told
  rule _ h _ := ⟨h.accounts, h.reports⟩
  addExit := Settles.addExit
  claim := Settles.claim
  handled := Settles.handled

/-! ## Runs -/

namespace Analyzer

variable {a : Analyzer} {p : Program} {c : Completion}

/-- **Every possible throw is accounted for once.** In a run that succeeds, the ledger accounts for
the throws that are recorded: each is removed once, by the innermost `try` with a handler whose block
was being evaluated, or waits until the end. Those that wait are reported at the end, each once, in
the order of recording and with the place and the stack of rules of that moment; no other diagnostic
is about a possible throw. -/
theorem possible_throws_accounted (h : (a.analyze p).result = .ok c) :
    ∃ waiting ds, Accounted (a.analyze p).machine.ledger.toList waiting ∧
      ((a.analyze p).machine.ledger.toList.filterMap LedgerEntry.thrown?).Perm
        ((a.analyze p).machine.ledger.toList.filterMap LedgerEntry.caught? ++ waiting) ∧
      waiting.Sublist ((a.analyze p).machine.ledger.toList.filterMap LedgerEntry.thrown?) ∧
      (a.analyze p).machine.diagnostics.toList =
        ds ++ waiting.map (·.report (a.analyze p).machine.realm) ∧
      ∀ d ∈ ds, d.kind ≠ .possiblyUncaught := by
  obtain ⟨m, -, settled, reported⟩ := recounts_analyze (S := Settles) h
  obtain ⟨t, waiting, ledger, accounted, throws⟩ := settled.accounts
  obtain ⟨ds, other, diagnostics⟩ := settled.reports
  -- the reports change neither the realm nor the ledger
  obtain ⟨n, run, end'⟩ := exists_reportPossibleThrows (u := a.setup p) m.exits.toList m.dropExits
  have run : (reportPossibleThrows : Run Unit) (a.setup p) m = .ok () n := run
  rw [reported] at run
  injection run with _ same
  rw [same]
  replace ledger : n.ledger.toList = t := (congrArg Array.toList end'.ledger).trans ledger
  replace throws : m.exits.toList.filter (·.completion.isThrow) = waiting := throws
  refine ⟨waiting, ds, ledger ▸ accounted, ledger ▸ accounted.perm_thrown,
    ledger ▸ accounted.sublist_thrown, ?_, other⟩
  rw [end'.diagnostics, throws, end'.realm]
  exact congrArg (· ++ _) diagnostics

/-- `try { if (u) throw true; } catch (e) {} if (u) throw true;` -/
def caughtAndUncaught : Program where
  span := default
  file := "caught.js"
  body :=
    [.tryCatch default (.mk default [throwIfUnknown])
      (some (.mk default ⟨default, "e"⟩ (.mk default []))) none, throwIfUnknown]

/-- Of two throws that are recorded, the first is removed and the second is reported. -/
theorem possible_throws_accounted_caughtAndUncaught :
    ∃ c, (withUnknown.analyze caughtAndUncaught).result = .ok c ∧ ∃ waiting,
      Accounted (withUnknown.analyze caughtAndUncaught).machine.ledger.toList waiting ∧
      ((withUnknown.analyze caughtAndUncaught).machine.ledger.toList.filterMap
        LedgerEntry.thrown?).length = 2 ∧
      ((withUnknown.analyze caughtAndUncaught).machine.ledger.toList.filterMap
        LedgerEntry.caught?).length = 1 ∧
      waiting.length = 1 := by
  obtain ⟨c, ends⟩ := Analysis.exists_result
    (b := withUnknown.analyze caughtAndUncaught) (by decide +kernel)
  obtain ⟨waiting, -, accounted, once, -⟩ := possible_throws_accounted ends
  have thrown : ((withUnknown.analyze caughtAndUncaught).machine.ledger.toList.filterMap
      LedgerEntry.thrown?).length = 2 := by decide +kernel
  have caught : ((withUnknown.analyze caughtAndUncaught).machine.ledger.toList.filterMap
      LedgerEntry.caught?).length = 1 := by decide +kernel
  have count := once.length_eq
  rw [List.length_append, thrown, caught] at count
  exact ⟨c, ends, waiting, accounted, thrown, caught, by omega⟩

end Analyzer

end AbstractScript
