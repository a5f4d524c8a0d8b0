import AbstractScript.Proofs.Chronicle
import AbstractScript.Proofs.Soundness

/-!
# The events of a run

The events of a run that succeeds are properly nested: each rule that begins ends, with the kind, the
location and the ambiguous depth that it began with, after all rules that began inside it. At every
event the stack of rules is what the events so far say. What is left of the events are the diagnostics
of the run (`Analyzer.events_wellFormed`).
-/
namespace AbstractScript

open Eval Machine

/-! ## Sequences of events -/

namespace Event

/-- Properly nested events. A rule ends with the kind, location and depth that it begins with. -/
inductive Nested : List Event → Prop where
  | nil : Nested []
  | diagnostic (d : Diagnostic) {later : List Event} (h : Nested later) :
    Nested (.diagnostic d :: later)
  | rule (kind : NodeKind) (location : Location) (depth : Nat) (c : Completion)
    {inner later : List Event} (h : Nested inner) (h' : Nested later) :
    Nested (.enter kind location depth :: inner ++ .leave kind location depth c :: later)

/-- What an event does to a stack of rules. A rule is on the stack from its first event on, until its
last event. -/
def apply (stack : List Frame) : Event → List Frame
  | .enter kind location _ => ⟨kind, location⟩ :: stack
  | .leave .. => stack.tail
  | .diagnostic _ => stack

/-- The rules that events have begun and not ended, the innermost first. -/
def openRules (es : List Event) : List Frame := es.foldl apply []

/-- The stacks of rules at events that begin with a stack. -/
def ruleStacks (stack : List Frame) : List Event → List (List Frame)
  | [] => []
  | e :: es => e.apply stack :: ruleStacks (e.apply stack) es

/-- The diagnostic that an event is about. -/
def diagnostic? : Event → Option Diagnostic
  | .diagnostic d => some d
  | _ => none

theorem Nested.append {es es' : List Event} (h : Nested es) (h' : Nested es') : Nested (es ++ es') := by
  induction h with
  | nil => exact h'
  | diagnostic d _ ih => exact .diagnostic d ih
  | rule kind location depth c inside _ _ ih =>
    rw [List.append_assoc]
    exact .rule kind location depth c inside ih

theorem nested_diagnostics (ds : List Diagnostic) : Nested (ds.map .diagnostic) := by
  induction ds with
  | nil => exact .nil
  | cons d ds ih => exact .diagnostic d ih

/-- Rules that end leave the stack as they found it. -/
theorem Nested.foldl_apply {es : List Event} (h : Nested es) (stack : List Frame) :
    es.foldl apply stack = stack := by
  induction h generalizing stack with
  | nil => rfl
  | diagnostic d _ ih => exact ih stack
  | rule kind location depth c _ _ inside later =>
    rw [List.foldl_append, List.foldl_cons, List.foldl_cons, inside]
    exact later stack

theorem ruleStacks_append (es es' : List Event) (stack : List Frame) :
    ruleStacks stack (es ++ es') = ruleStacks stack es ++ ruleStacks (es.foldl apply stack) es' := by
  induction es generalizing stack with
  | nil => rfl
  | cons e es ih => exact congrArg (List.cons _) (ih _)

theorem length_ruleStacks (es : List Event) (stack : List Frame) :
    (ruleStacks stack es).length = es.length := by
  induction es generalizing stack with
  | nil => rfl
  | cons e es ih => exact congrArg Nat.succ (ih _)

theorem ruleStacks_diagnostics (ds : List Diagnostic) (stack : List Frame) :
    ruleStacks stack (ds.map .diagnostic) = ds.map fun _ => stack := by
  induction ds with
  | nil => rfl
  | cons d ds ih => exact congrArg (List.cons _) ih

theorem getElem?_ruleStacks (es : List Event) (stack : List Frame) (i : Nat) :
    (ruleStacks stack es)[i]? = es[i]?.map fun _ => (es.take (i + 1)).foldl apply stack := by
  induction es generalizing stack i with
  | nil => rfl
  | cons e es ih =>
    cases i with
    | zero => rfl
    | succ i => exact ih _ i

theorem filterMap_diagnostics (ds : List Diagnostic) :
    (ds.map Event.diagnostic).filterMap diagnostic? = ds := by
  rw [List.filterMap_map]
  exact List.filterMap_some

end Event

/-! ## The chronicle of events -/

namespace Machine

/-- Properly nested events are added, with the stacks of rules at them, and the diagnostics that are
added are those that the events are about. -/
structure Streams (m n : Machine) : Prop where
  observed : n.observed = m.observed
  frames : n.frames = m.frames
  added : m.observed = true → ∃ es : List Event, Event.Nested es ∧
    n.events.toList = m.events.toList ++ es ∧
    n.traces.toList = m.traces.toList ++ Event.ruleStacks m.frames es ∧
    n.diagnostics.toList = m.diagnostics.toList ++ es.filterMap Event.diagnostic?

namespace Streams

variable {m n k : Machine}

theorem of_told (frames : n.frames = m.frames) (told : m.Told n) : m.Streams n where
  observed := told.observed
  frames := frames
  added watched := by
    obtain ⟨ds, -, diagnostics, rest⟩ := told.reported
    obtain ⟨events, traces⟩ := rest watched
    refine ⟨ds.map .diagnostic, Event.nested_diagnostics ds, events, ?_, ?_⟩
    · rw [traces, Event.ruleStacks_diagnostics]
    · rw [diagnostics, Event.filterMap_diagnostics]

theorem trans (h : m.Streams n) (h' : n.Streams k) : m.Streams k where
  observed := h'.observed.trans h.observed
  frames := h'.frames.trans h.frames
  added watched := by
    obtain ⟨es, nested, events, traces, diagnostics⟩ := h.added watched
    obtain ⟨es', nested', events', traces', diagnostics'⟩ := h'.added (h.observed.trans watched)
    refine ⟨es ++ es', nested.append nested', ?_, ?_, ?_⟩
    · rw [events', events, List.append_assoc]
    · rw [traces', traces, Event.ruleStacks_append, nested.foldl_apply, h.frames, List.append_assoc]
    · rw [diagnostics', diagnostics, List.filterMap_append, List.append_assoc]

instance : IsPreorder Machine Streams where
  refl m := .of_told rfl .of_eq
  trans _ _ _ := trans

theorem dropClaimed (m : Machine) (mark : Nat) (p : Completion → Bool) :
    m.Streams (m.dropClaimed mark p) := by
  unfold Machine.dropClaimed
  split
  · exact refl m
  · exact ⟨rfl, rfl, fun _ => ⟨[], .nil, by simp [Event.ruleStacks]⟩⟩

/-- The events of a rule surround those between them. -/
theorem rule {f : Frame} (depth : n.contexts.depth = m.contexts.depth)
    (h : (m.beginRule f).Streams n) (c : Completion) : m.Streams (n.endRule f c) where
  observed := h.observed
  frames := congrArg List.tail h.frames
  added watched := by
    obtain ⟨es, nested, events, traces, diagnostics⟩ := h.added watched
    have watched' : n.popFrame.observed = true := h.observed.trans watched
    -- the rule fires one event when it begins and one when it ends
    have begun : (m.beginRule f).events.toList =
        m.events.toList ++ [.enter f.kind f.location m.contexts.depth] := by
      simp [beginRule, pushFrame, fire, watched]
    have begun' : (m.beginRule f).traces.toList = m.traces.toList ++ [f :: m.frames] := by
      simp [beginRule, pushFrame, fire, watched]
    have ended : (n.endRule f c).events.toList =
        n.events.toList ++ [.leave f.kind f.location m.contexts.depth c] := by
      simp only [endRule, fire, watched', if_true]
      rw [← depth]
      exact Array.toList_push
    have ended' : (n.endRule f c).traces.toList = n.traces.toList ++ [m.frames] := by
      simp only [endRule, fire, watched', if_true]
      rw [Array.toList_push, show n.popFrame.frames = m.frames from congrArg List.tail h.frames]
      rfl
    refine ⟨_, .rule f.kind f.location m.contexts.depth c nested .nil, ?_, ?_, ?_⟩
    · rw [ended, events, begun]
      simp
    · rw [ended', traces, begun', List.cons_append, Event.ruleStacks, Event.ruleStacks_append,
        nested.foldl_apply]
      simp [Event.ruleStacks, Event.apply, beginRule, pushFrame, fire]
    · show n.diagnostics.toList = _
      rw [diagnostics, List.cons_append, List.filterMap_cons_none rfl, List.filterMap_append,
        List.filterMap_cons_none rfl, List.filterMap_nil, List.append_nil]
      simp [beginRule, pushFrame, fire]

/-- A report is an event and a diagnostic. -/
theorem report (m : Machine) (d : Diagnostic) :
    m.Streams { m.fire (.diagnostic d) with diagnostics := m.diagnostics.push d } where
  observed := rfl
  frames := rfl
  added watched := by
    refine ⟨[.diagnostic d], .diagnostic d .nil, ?_, ?_, Array.toList_push⟩
    · simp [fire, watched]
    · simp [fire, watched, Event.ruleStacks, Event.apply]

end Streams

end Machine

instance : Chronicle Streams where
  apart h := .of_told h.frames h.told
  rule := Streams.rule
  addExit m c := ⟨rfl, rfl, fun _ => ⟨[], .nil, by simp [addExit, Event.ruleStacks]⟩⟩
  claim _ m mark := .dropClaimed m mark _
  handled {m n} _ h := by
    have closed : n.Streams (n.enterLedger true (.handled (n.ledger.size - m.ledger.size))) :=
      ⟨rfl, rfl, fun _ => ⟨[], .nil, by simp [enterLedger, Event.ruleStacks]⟩⟩
    exact (h.trans closed).trans (.dropClaimed ..)

/-! ## Runs -/

/-- Reports are events and diagnostics, whatever they are about. -/
theorem Eval.streams_reportPossibleThrows : Keeps Streams reportPossibleThrows := by
  have forgotten (m : Machine) : m.Streams m.dropExits := .of_told rfl .of_eq
  refine .bind (.modifyGet forgotten) fun exits => .forM fun e _ => .when (.bind .get fun _ => ?_)
  exact ⟨fun s m => by rw [after_report]; exact .report m _⟩

namespace Analyzer

variable {a : Analyzer} {p : Program} {c : Completion}

/-- **The event stream is well-formed.** In a run that someone watches and that succeeds, the events
are properly nested, the stack of rules at each event consists of the rules that the events up to this
one have begun and not ended, and the other events are, one for one, the diagnostics of the run. -/
theorem events_wellFormed (watched : a.observed = true) (h : (a.analyze p).result = .ok c) :
    Event.Nested (a.analyze p).machine.events.toList ∧
      (a.analyze p).machine.traces.size = (a.analyze p).machine.events.size ∧
      (∀ i stack, (a.analyze p).machine.traces[i]? = some stack →
        stack = Event.openRules ((a.analyze p).machine.events.toList.take (i + 1))) ∧
      (a.analyze p).machine.events.toList.filterMap Event.diagnostic? =
        (a.analyze p).machine.diagnostics.toList := by
  obtain ⟨m, -, evaluated, reported⟩ := recounts_analyze (S := Streams) h
  have streams : a.begun.Streams (a.analyze p).machine :=
    evaluated.trans (streams_reportPossibleThrows.of_ok reported)
  obtain ⟨es, nested, events, traces, diagnostics⟩ := streams.added watched
  replace events : (a.analyze p).machine.events.toList = es := events
  replace traces : (a.analyze p).machine.traces.toList = Event.ruleStacks [] es := traces
  -- each trace is the stack of the rules that are open after its event
  have found (i : Nat) : (a.analyze p).machine.traces[i]? =
      es[i]?.map fun _ => Event.openRules (es.take (i + 1)) := by
    rw [← Array.getElem?_toList, traces, Event.getElem?_ruleStacks]
    rfl
  refine ⟨events ▸ nested, ?_, fun i stack at' => ?_, events ▸ diagnostics.symm⟩
  · rw [← Array.length_toList, ← Array.length_toList, traces, events, Event.length_ruleStacks]
  · rw [found] at at'
    obtain ⟨-, -, rfl⟩ := Option.map_eq_some_iff.1 at'
    rw [events]

/-- A watched analyzer with one unknown global. -/
def watchful : Analyzer := { withUnknown with observed := true }

/-- The report of the possible throw comes after the last rule. -/
theorem events_wellFormed_unguardedThrow : watchful.observed = true ∧
    ∃ c, (watchful.analyze unguardedThrow).result = .ok c ∧
      Event.Nested (watchful.analyze unguardedThrow).machine.events.toList ∧
      (watchful.analyze unguardedThrow).machine.events.toList.filterMap Event.diagnostic? =
        (watchful.analyze unguardedThrow).machine.diagnostics.toList ∧
      (watchful.analyze unguardedThrow).machine.events.size = 11 := by
  obtain ⟨c, ends⟩ := Analysis.exists_result
    (b := watchful.analyze unguardedThrow) (by decide +kernel)
  obtain ⟨nested, -, -, reports⟩ := events_wellFormed (a := watchful) rfl ends
  exact ⟨rfl, c, ends, nested, reports, by decide +kernel⟩

end Analyzer

end AbstractScript
