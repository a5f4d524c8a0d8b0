import AbstractScript.Environment

/-!
# Completions and references

How the evaluation of a node ended, and what an assignable expression refers to.
-/
namespace AbstractScript

/-- The ways in which evaluation ends. -/
inductive CompletionKind where
  | normal
  | returns
  | throws
  | breaks
  | continues
  deriving DecidableEq, Repr, Inhabited

namespace CompletionKind

/-- Every kind. -/
def all : List CompletionKind := [normal, returns, throws, breaks, continues]

/-- The name of a kind. -/
def name : CompletionKind → String
  | normal => "Normal"
  | returns => "Return"
  | throws => "Throw"
  | breaks => "Break"
  | continues => "Continue"

/-- The kind of a given name. -/
def ofName? (s : String) : Option CompletionKind := all.find? (·.name = s)

end CompletionKind

/-- How evaluation ended, with its value and the label that a jump is aimed at. -/
structure Completion where
  kind : CompletionKind
  value : Option Value := none
  target : Option String := none
  deriving DecidableEq, Repr, Inhabited

namespace Completion

/-- The end of a node without a value. -/
def empty : Completion := { kind := .normal }

/-- The end of a node with a value. -/
def normal (v : Value) : Completion := { kind := .normal, value := some v }

/-- The end of a statement list, loop or switch. -/
def finished (v : Option Value) : Completion := { kind := .normal, value := v }

/-- An unknown value. -/
def unknown : Completion := normal .unknown

/-- A return. -/
def returns (v : Value) : Completion := { kind := .returns, value := some v }

/-- A throw. -/
def throws (v : Value) : Completion := { kind := .throws, value := some v }

/-- A break, possibly to a label. -/
def breaks (label : Option String) : Completion := { kind := .breaks, target := label }

/-- A continue, possibly of a labelled loop. -/
def continues (label : Option String) : Completion := { kind := .continues, target := label }

/-- True if evaluation goes on after the node. -/
def isNormal (c : Completion) : Bool := c.kind = .normal

/-- True if evaluation does not go on after the node. -/
def isAbrupt (c : Completion) : Bool := !c.isNormal

/-- True for a throw. -/
def isThrow (c : Completion) : Bool := c.kind = .throws

/-- The value, or undefined. -/
def getValue (c : Completion) : Value := c.value.getD .undefined

/-- Gives a value to a completion without one. -/
def updateEmpty (c : Completion) (v : Option Value) : Completion :=
  match c.value with
  | some _ => c
  | none => { c with value := v }

@[simp] theorem kind_updateEmpty (c : Completion) (v : Option Value) :
    (c.updateEmpty v).kind = c.kind := by
  unfold updateEmpty
  split <;> rfl

@[simp] theorem value_updateEmpty (c : Completion) (v : Option Value) :
    (c.updateEmpty v).value = c.value.or v := by
  unfold updateEmpty
  split <;> simp [*]

/-- True if a jump is aimed at a statement with the given labels. -/
def targets (labels : List String) (c : Completion) : Bool :=
  match c.target with
  | none => true
  | some label => label ∈ labels

/-- True for a jump that leaves or continues a loop with the given labels. -/
def endsPass (labels : List String) (c : Completion) : Bool :=
  (c.kind = .breaks || c.kind = .continues) && c.targets labels

/-- True for a break out of a switch with the given labels. -/
def leavesSwitch (labels : List String) (c : Completion) : Bool :=
  c.kind = .breaks && c.targets labels

/-- True for a break to a label. -/
def leavesLabel (label : String) (c : Completion) : Bool :=
  c.kind = .breaks && c.target = some label

/-! ### A throw is no jump -/

variable (c : Completion) (throws : c.isThrow = true)

include throws

theorem endsPass_of_isThrow (labels : List String) : c.endsPass labels = false := by
  simp [endsPass, of_decide_eq_true throws]

theorem leavesSwitch_of_isThrow (labels : List String) : c.leavesSwitch labels = false := by
  simp [leavesSwitch, of_decide_eq_true throws]

theorem leavesLabel_of_isThrow (label : String) : c.leavesLabel label = false := by
  simp [leavesLabel, of_decide_eq_true throws]

end Completion

/-- Where the thing referred to is kept. -/
inductive ReferenceBase where
  /-- A property of a value. -/
  | value (v : Value)
  | environment (e : EnvId)
  /-- No binding of the name was found. -/
  | unresolvable
  /-- It cannot be determined what is referred to. -/
  | unknown
  deriving DecidableEq, Repr

/-- What an assignable expression refers to. -/
structure Reference where
  base : ReferenceBase
  name : String
  deriving DecidableEq, Repr

namespace Reference

/-- A property of a value. -/
def property (v : Value) (name : String) : Reference := ⟨.value v, name⟩

/-- A binding of an environment. -/
def environment (e : EnvId) (name : String) : Reference := ⟨.environment e, name⟩

/-- A name without a binding. -/
def unresolvable (name : String) : Reference := ⟨.unresolvable, name⟩

/-- A reference that cannot be determined. -/
def unknown : Reference := ⟨.unknown, ""⟩

/-- True for a property of a value. -/
def isProperty (r : Reference) : Bool :=
  match r.base with
  | .value _ => true
  | _ => false

/-- True for a name without a binding. -/
def isUnresolvable (r : Reference) : Bool := r.base = .unresolvable

/-- The receiver of a call through the reference. -/
def thisValue (r : Reference) : Value :=
  match r.base with
  | .value v => v
  | .unknown => .unknown
  | _ => .undefined

end Reference

end AbstractScript
