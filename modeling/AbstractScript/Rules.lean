import AbstractScript.Errors

/-!
# The registry of rules

A registry tells for each kind of node how nodes of that kind are evaluated: by the core rule of
some kind, by a rule that does nothing, or not at all.
-/
namespace AbstractScript

/-- How a node is evaluated. -/
inductive Handler where
  /-- By the core rule for nodes of a kind. -/
  | core (kind : NodeKind)
  /-- Without effect or value. -/
  | idle
  deriving DecidableEq, Repr

/-- The handlers by kind. -/
structure Rules where
  handler? : NodeKind → Option Handler

namespace Rules

/-- No rule for any kind. -/
def none : Rules := ⟨fun _ => .none⟩

/-- The core rule for every kind. -/
def core : Rules := ⟨fun k => some (.core k)⟩

instance : Inhabited Rules := ⟨none⟩

/-- True if there is a rule for a kind. -/
def has (r : Rules) (k : NodeKind) : Bool := (r.handler? k).isSome

/-- Sets or removes the rule for a kind. -/
def set (r : Rules) (k : NodeKind) (h : Option Handler) : Rules :=
  ⟨fun k' => if k' = k then h else r.handler? k'⟩

@[simp] theorem handler?_set (r : Rules) (k other : NodeKind) (h : Option Handler) :
    (r.set k h).handler? other = if other = k then h else r.handler? other := rfl

/-- Adds a rule for a kind that has none. -/
def register (r : Rules) (k : NodeKind) (h : Handler) : Except FatalError Rules :=
  if r.has k then .error (.duplicateRule k) else .ok (r.set k (some h))

/-- Removes the rule for a kind. -/
def unregister (r : Rules) (k : NodeKind) : Rules := r.set k .none

/-- The number of kinds with a rule. -/
def size (r : Rules) : Nat := (NodeKind.all.filter r.has).length

/-- True if no kind has a rule. -/
def isEmpty (r : Rules) : Bool := r.size = 0

end Rules

end AbstractScript
