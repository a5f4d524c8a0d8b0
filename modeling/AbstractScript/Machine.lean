import AbstractScript.Context
import AbstractScript.Realm
import AbstractScript.Report
import AbstractScript.Rules

/-!
# The state of a run

The setup of a run stays as it is; the machine is what evaluation changes. Two monads work on it:
`Op` for operations that can raise a native error, and `Run` for the evaluation of nodes, which can
only fail fatally. A failure of either keeps the machine.
-/
namespace AbstractScript

/-- What a run is given. -/
structure Setup where
  options : Options
  rules : Rules
  /-- The name of the file that the program was read from. -/
  file : String
  /-- Events are recorded. -/
  observed : Bool := false

/-- What happened in a run. No evaluation reads it. -/
structure History where
  /-- Something was evaluated that may or may not happen: the realm before it, the ambiguity level
  around it and the realm after it. -/
  passed : Realm → Nat → Realm → Prop := fun _ _ _ => False
  /-- An abrupt completion stayed although the last block of its `try` may have exited otherwise. -/
  overtaken : Bool := false

/-- What of the state of a run refers to objects and environments. -/
structure Moment where
  realm : Realm
  contexts : ContextStack
  exits : Array PossibleExit
  scripts : Array ObjectId
  invoked : List ObjectId

/-- A native function is entered: the realm, the function, its receiver and its arguments. -/
structure NativeEntry where
  realm : Realm
  function : Native
  receiver : Value
  arguments : List Value

/-- What a run changes. -/
structure Machine where
  realm : Realm
  contexts : ContextStack := {}
  /-- The labels of the statement that is about to be evaluated. -/
  labels : List String := []
  /-- The functions of the program in order of creation. -/
  scripts : Array ObjectId := #[]
  /-- The functions of the program that were called. -/
  invoked : List ObjectId := []
  /-- Abrupt completions that may have happened and are not accounted for. -/
  exits : Array PossibleExit := #[]
  /-- The rules that are being evaluated, the innermost first. -/
  frames : List Frame := []
  diagnostics : Array Diagnostic := #[]
  /-- Where conditions were unknown. -/
  unknownConditions : Array Location := #[]
  /-- Where ambiguous blocks were entered. -/
  ambiguousBlocks : Array Location := #[]
  /-- Someone watches the events. -/
  observed : Bool := false
  /-- What a subscriber has seen. -/
  events : Array Event := #[]
  /-- For each of the events, the rules that were being evaluated at it. No evaluation reads it. -/
  traces : Array (List Frame) := #[]
  /-- The moments at the events. No evaluation reads it. -/
  seen : Moment → Prop := fun _ => False
  /-- The native functions that were entered. No evaluation reads it. -/
  entered : NativeEntry → Prop := fun _ => False
  /-- What happened to the possible exits. No evaluation reads it. -/
  ledger : Array LedgerEntry := #[]
  history : History := {}
  /-- Two moments of the run so far, the first not after the second. No evaluation reads it. -/
  course : Moment → Moment → Prop := fun _ _ => False
  /-- The number of rules that were begun. No evaluation reads it. -/
  dispatched : Nat := 0
  /-- The realm knows the ambiguity level of the contexts. -/
  synced : realm.ambiguityLevel = contexts.level

instance : Inhabited Machine := ⟨{ realm := default, synced := rfl }⟩

/-- A computation on the machine that can fail with an `ε`. -/
abbrev Eval (ε : Type) := ReaderT Setup (EStateM ε Machine)

/-- An operation that can raise a native error. -/
abbrev Op := Eval NativeError

/-- The evaluation of a node. -/
abbrev Run := Eval FatalError

namespace Machine

/-- The total ambiguity of all contexts. -/
def level (m : Machine) : Nat := m.contexts.level

/-- True if a write to something created at a level may or may not happen. -/
def isAmbiguousWrite (m : Machine) (createdLevel : Nat) : Bool := createdLevel < m.level

/-- The environment in which names are looked up. -/
def lexicalEnv (m : Machine) : EnvId :=
  (m.contexts.running?.map Context.lexicalEnv).getD Realm.globalEnv

/-- The environment in which variables are created. -/
def variableEnv (m : Machine) : EnvId :=
  (m.contexts.running?.map Context.variableEnv).getD Realm.globalEnv

/-- The value of `this`. -/
def this (m : Machine) : Value :=
  (m.contexts.running?.map Context.this).getD (.object Realm.globalObject)

/-- True if the running context may have returned. -/
def returnUnknown (m : Machine) : Bool :=
  (m.contexts.running?.map Context.returnUnknown).getD false

/-- Where the innermost rule is. -/
def location? (m : Machine) : Option Location := m.frames.head?.map Frame.location

/-- The present moment of the run. -/
def moment (m : Machine) : Moment where
  realm := m.realm
  contexts := m.contexts
  exits := m.exits
  scripts := m.scripts
  invoked := m.invoked

/-- Adds the present moment to the course of the run, after all others. Whatever changes something
that a moment consists of does so. -/
@[inline, reducible] def tick (m : Machine) : Machine :=
  { m with
    course := fun x y => m.course x y ∨ (y = m.moment ∧ (m.course x x ∨ x = m.moment)) }

/-- Adds an object. -/
def addObject (m : Machine) (record : ObjectRecord) : Machine :=
  { m with realm := m.realm.addObject record }.tick

/-- Adds an environment. -/
def addEnvironment (m : Machine) (e : Environment) : Machine :=
  { m with realm := m.realm.addEnvironment e }.tick

/-- Changes an object. -/
def modifyObject (m : Machine) (o : ObjectId) (f : ObjectRecord → ObjectRecord) : Machine :=
  { m with realm := m.realm.modifyObject o f }.tick

/-- Changes an environment. -/
def modifyEnvironment (m : Machine) (e : EnvId) (f : Environment → Environment) : Machine :=
  { m with realm := m.realm.modifyEnvironment e f }.tick

/-- Adds a function of the program. -/
def addScript (m : Machine) (f : ObjectId) : Machine :=
  { m with scripts := m.scripts.push f }.tick

/-- Records that a function is called. -/
def markInvoked (m : Machine) (f : ObjectId) : Machine :=
  if f ∈ m.invoked then m else { m with invoked := f :: m.invoked }.tick

/-- Adds a location that is not there yet. -/
def addLocation (ls : Array Location) (l : Location) : Array Location :=
  if ls.contains l then ls else ls.push l

/-- Replaces the contexts. The realm is told the new ambiguity level. -/
def withContexts (m : Machine) (s : ContextStack) : Machine :=
  { m with
    contexts := s
    realm := { m.realm with ambiguityLevel := s.level }
    synced := rfl }.tick

/-- Adds a running context. -/
def pushContext (m : Machine) (c : Context) : Machine := m.withContexts (m.contexts.push c)

/-- Removes the running context. -/
def popContext (m : Machine) : Machine := m.withContexts m.contexts.pop

/-- Makes an environment the one in which names are looked up. -/
def setLexicalEnv (m : Machine) (e : EnvId) : Machine :=
  { m with
    contexts := m.contexts.setLexicalEnv e
    synced := m.synced.trans (m.contexts.level_setLexicalEnv e).symm }.tick

/-- Begins a rule. -/
def pushFrame (m : Machine) (f : Frame) : Machine :=
  { m with frames := f :: m.frames, dispatched := m.dispatched + 1 }

/-- Ends the innermost rule. -/
def popFrame (m : Machine) : Machine := { m with frames := m.frames.tail }

/-- Fires an event. It is recorded if someone watches. -/
def fire (m : Machine) (e : Event) : Machine :=
  { m with
    events := if m.observed then m.events.push e else m.events
    traces := if m.observed then m.traces.push m.frames else m.traces
    seen := fun x => m.seen x ∨ x = m.moment }

/-- Records that a native function is entered. -/
def enterNative (m : Machine) (f : Native) (this : Value) (arguments : List Value) : Machine :=
  { m with entered := fun e => m.entered e ∨ e = ⟨m.realm, f, this, arguments⟩ }

/-- Adds to the ledger under a condition. -/
def enterLedger (m : Machine) (p : Bool) (e : LedgerEntry) : Machine :=
  { m with ledger := if p then m.ledger.push e else m.ledger }

/-- The running context may have returned. -/
def markReturnUnknown (m : Machine) : Machine :=
  match m.contexts.running? with
  | none => m.withContexts m.contexts
  | some c =>
    (m.withContexts m.contexts.markReturned).modifyEnvironment c.variableEnv fun e =>
      { e with ambiguousReturn := true }

/-- Adds to the history that something was evaluated between two machines. -/
@[inline] def recordPass (before after : Machine) : Machine :=
  { after with
    history.passed := fun r level r' =>
      after.history.passed r level r' ∨
        (r = before.realm ∧ level = before.level ∧ r' = after.realm) }

/-- Adds to the history that an abrupt completion stayed, if it did so under a condition. -/
@[inline] def recordOvertaken (m : Machine) (p : Bool) : Machine :=
  { m with history.overtaken := m.history.overtaken || p }

end Machine

namespace Eval

variable {ε : Type}

/-- What the setup says. -/
def setup {α : Type} (f : Setup → α) : Eval ε α := fun s => pure (f s)

/-- Begins to watch the events if the setup says so. -/
def watch : Eval ε Unit := do
  let observed ← setup Setup.observed
  modify fun m => { m with observed }

/-- Fires an event. -/
def emit (e : Event) : Eval ε Unit := modify (·.fire e)

/-- Reports a diagnostic. -/
def report (d : Diagnostic) : Eval ε Unit := do
  emit (.diagnostic d)
  modify fun m => { m with diagnostics := m.diagnostics.push d }

/-- Reports a diagnostic at the current place. -/
def reportHere (kind : DiagnosticKind) (message : String) : Eval ε Unit := do
  let m ← get
  report ⟨kind, message, m.location?, m.frames⟩

/-- Reports a native error. -/
def reportError (e : NativeError) : Eval ε Unit := reportHere (.native e.kind) e.message

/-- Reports that a loop was abandoned. -/
def reportMaxIterations : Eval ε Unit := do
  let limit ← setup (·.options.maxLoopIterations)
  reportHere .maxIterations ("Maximum application loop iteration limit of " ++ Nat.repr limit ++
    " reached, could not fully process code")

/-- Reports that a call was not followed. -/
def reportMaxRecursion : Eval ε Unit := do
  let limit ← setup (·.options.maxRecursionLimit)
  reportHere .maxRecursion ("Maximum application recursion limit of " ++ Nat.repr limit ++
    " reached, could not fully process code")

/-- Marks an unknown condition. -/
def markUnknown (span : Span) : Eval ε Unit := do
  let file ← setup Setup.file
  modify fun m => { m with
    unknownConditions := Machine.addLocation m.unknownConditions (span.location file) }

/-! ## Objects and environments -/

/-- An object. -/
def object (o : ObjectId) : Eval ε ObjectRecord := return (← get).realm.object o

/-- Changes an object. -/
def modifyObject (o : ObjectId) (f : ObjectRecord → ObjectRecord) : Eval ε Unit :=
  modify (·.modifyObject o f)

/-- Adds an object that depends on the ambiguity level. -/
def create (record : Nat → ObjectRecord) : Eval ε ObjectId :=
  modifyGet fun m => (m.realm.nextObject, m.addObject (record m.realm.ambiguityLevel))

/-- Adds an object of a class. -/
def createObject (cls : ObjectClass) (prototype : Option ObjectId) : Eval ε ObjectId :=
  create fun level => { cls, prototype, createdLevel := level }

/-- Adds an object without properties. -/
def createPlain : Eval ε ObjectId := create Realm.plainRecord

/-- Adds an array. -/
def createArray (elements : List Value) : Eval ε ObjectId := create (Realm.arrayRecord · elements)

/-- Adds a function. -/
def createFunction (callable : Callable) : Eval ε ObjectId :=
  create (Realm.functionRecord · callable)

/-- Adds an environment. -/
def createEnvironment (e : Environment) : Eval ε EnvId :=
  modifyGet fun m =>
    (m.realm.nextEnvironment, m.addEnvironment { e with createdLevel := m.realm.ambiguityLevel })

/-- Runs a computation and changes the machine after it, whether it fails or not. -/
def ensuring {α : Type} (x : Eval ε α) (f : Machine → Machine) : Eval ε α := fun s m =>
  match x s m with
  | .ok a m => .ok a (f m)
  | .error e m => .error e (f m)

/-! ## Runs of composed computations -/

variable {α β : Type}

@[simp] theorem pure_apply (a : α) (s : Setup) (m : Machine) :
    (pure a : Eval ε α) s m = .ok a m := rfl

@[simp] theorem throw_apply (e : ε) (s : Setup) (m : Machine) :
    (throw e : Eval ε α) s m = .error e m := rfl

theorem bind_apply (x : Eval ε α) (f : α → Eval ε β) (s : Setup) (m : Machine) :
    (x >>= f) s m = match x s m with
      | .ok a m => f a s m
      | .error e m => .error e m := by
  change EStateM.bind (x s) (fun a => f a s) m = _
  rw [EStateM.bind]
  cases x s m <;> rfl

/-- A computation followed by another one succeeds if both do, one after the other. -/
theorem bind_eq_ok_iff {x : Eval ε α} {f : α → Eval ε β} {s : Setup} {m n : Machine} {b : β} :
    (x >>= f) s m = .ok b n ↔ ∃ a k, x s m = .ok a k ∧ f a s k = .ok b n := by
  rw [bind_apply]
  constructor
  · intro h
    cases r : x s m with
    | ok a k => exact ⟨a, k, rfl, by simpa [r] using h⟩
    | error e k => simp [r] at h
  · rintro ⟨a, k, r, h⟩
    simpa [r] using h

@[simp] theorem get_apply (s : Setup) (m : Machine) :
    (get : Eval ε Machine) s m = .ok m m := rfl

@[simp] theorem modify_apply (f : Machine → Machine) (s : Setup) (m : Machine) :
    (modify f : Eval ε Unit) s m = .ok () (f m) := rfl

@[simp] theorem setup_apply (f : Setup → α) (s : Setup) (m : Machine) :
    (setup f : Eval ε α) s m = .ok (f s) m := rfl

/-- What is ensured is done after a success and after a failure. -/
theorem ensuring_apply (x : Eval ε α) (f : Machine → Machine) (s : Setup) (m : Machine) :
    x.ensuring f s m = match x s m with
      | .ok a m => .ok a (f m)
      | .error e m => .error e (f m) := rfl

end Eval

/-- Runs an operation and gives its result or its native error. -/
def Op.attempt {ε α : Type} (op : Op α) : Eval ε (Except NativeError α) := fun s m =>
  match op s m with
  | .ok a m => .ok (.ok a) m
  | .error e m => .ok (.error e) m

/-- An attempt never fails. -/
theorem Op.attempt_ne_error {ε α : Type} (op : Op α) (s : Setup) (m n : Machine) (e : ε) :
    (op.attempt : Eval ε _) s m ≠ .error e n := by
  unfold Op.attempt
  cases op s m <;> simp

end AbstractScript
