import AbstractScript.Machine

/-!
# Ambiguous blocks

Code that may or may not run is evaluated once, in an ambiguous block. An abrupt completion there is
only possible: a return makes the result of the running context unknown, any other is recorded as a
possible exit until the statement that it is aimed at claims it. A *mark* is the number of possible
exits at some moment; the exits after a mark are those recorded since.
-/
namespace AbstractScript

namespace Machine

/-- The possible exits recorded since a mark. -/
def exitsSince (m : Machine) (mark : Nat) : List PossibleExit :=
  (m.exits.extract mark m.exits.size).toList

/-- The possible exits since a mark whose completions are claimed. -/
def claimed (m : Machine) (mark : Nat) (p : Completion → Bool) : List PossibleExit :=
  (m.exitsSince mark).filter (p ·.completion)

/-- Forgets the possible exits since a mark whose completions are claimed. -/
def dropClaimed (m : Machine) (mark : Nat) (p : Completion → Bool) : Machine :=
  if m.exits.size ≤ mark then m
  else
    let kept := (m.exitsSince mark).filter fun e => !p e.completion
    { m with
      exits := m.exits.shrink mark ++ kept
      ledger := m.ledger ++ (m.claimed mark p).map LedgerEntry.removed }.tick

theorem exitsSince_eq_drop (m : Machine) (mark : Nat) :
    m.exitsSince mark = m.exits.toList.drop mark := by
  rw [exitsSince, Array.toList_extract, List.extract_eq_take_drop]
  exact List.take_of_length_le (by simp)

/-- The possible exits before a mark stay, and so do those after it that are not claimed. -/
theorem exits_dropClaimed (m : Machine) (mark : Nat) (p : Completion → Bool) :
    (m.dropClaimed mark p).exits.toList =
      m.exits.toList.take mark ++ (m.exitsSince mark).filter fun e => !p e.completion := by
  unfold dropClaimed
  split
  next small => simp [exitsSince_eq_drop, List.take_of_length_le, List.drop_of_length_le, small]
  next => simp

/-- Forgets all possible exits. -/
def dropExits (m : Machine) : Machine := { m with exits := #[] }.tick

/-- Enters an ambiguous block. -/
def enterBlock (m : Machine) : Machine := m.withContexts m.contexts.enterBlock

/-- Leaves the ambiguous block that was entered under a number. -/
def exitBlock (m : Machine) (index : Option Nat) : Machine :=
  match index with
  | some i => m.withContexts (m.contexts.exitBlock i)
  | none => m

/-- Records where an ambiguous block is entered. -/
def markBlock (m : Machine) (l : Location) : Machine :=
  { m with ambiguousBlocks := addLocation m.ambiguousBlocks l }

/-- Records a possible exit at the current place. -/
def addExit (m : Machine) (c : Completion) : Machine :=
  { m with
    exits := m.exits.push ⟨c, m.location?, m.frames⟩
    ledger := m.ledger.push (.recorded c m.frames) }.tick

/-- Accounts for a completion that may have happened. -/
def noteExit (m : Machine) (c : Completion) : Machine :=
  match c.kind with
  | .normal => m
  | .returns => m.markReturnUnknown
  | .breaks | .continues | .throws => m.addExit c

end Machine

namespace Eval

variable {ε α : Type}

/-- The number of possible exits. -/
def mark : Eval ε Nat := return (← get).exits.size

/-- True if there are possible exits since a mark. -/
def hasExitsSince (mark : Nat) : Eval ε Bool := return mark < (← get).exits.size

/-- Accounts for a completion that may have happened. -/
def note (c : Completion) : Eval ε Unit := modify (·.noteExit c)

/-- Takes the possible exits since a mark whose completions are claimed. -/
def claim (mark : Nat) (p : Completion → Bool) : Eval ε (List PossibleExit) :=
  modifyGet fun m => (m.claimed mark p, m.dropClaimed mark p)

/-- Runs a computation in an ambiguous block. -/
def inBlock (span : Span) (x : Eval ε α) : Eval ε α := do
  let file ← setup Setup.file
  modify (·.markBlock (span.location file))
  let index := (← get).contexts.enterIndex?
  modify (·.enterBlock)
  ensuring x (·.exitBlock index)

/-- What is left of a completion that may have happened. -/
def possibly (c : Completion) : Completion :=
  if c.kind = .returns then .normal .undefined else .empty

/-- Runs a computation and adds it to the history. -/
@[inline] def recorded (x : Eval ε α) : Eval ε α := fun s before =>
  match x s before with
  | .ok a after => .ok a (before.recordPass after)
  | .error e after => .error e (before.recordPass after)

/-- Evaluates something that may or may not happen. The result is a normal completion. -/
def ambiguously (span : Span) (x : Eval ε Completion) : Eval ε Completion :=
  recorded <| inBlock span do
    let c ← x
    note c
    return possibly c

end Eval

end AbstractScript
