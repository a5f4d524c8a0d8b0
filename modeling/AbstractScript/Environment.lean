import AbstractScript.Object.Record

/-!
# Environments

An environment binds names, either in a table of its own or as the properties of an object, and
may have an outer environment. Bindings keep the order in which names were bound: `names_create` and
`names_assign` tell what happens to the names, `get_create` and `get_assign` to the values.
-/
namespace AbstractScript

/-- A binding of a name. A binding without a value has not been initialised. -/
structure Binding where
  value : Option Value
  mutable : Bool
  deletable : Bool
  deriving Repr, Inhabited

/-- Bindings in a table. -/
structure Bindings where
  table : Table Binding := .empty
  deriving Repr

namespace Bindings

/-- True if a name is bound. -/
def has (b : Bindings) (name : String) : Bool := b.table.contains name

/-- The names in order. -/
def names (b : Bindings) : List String := b.table.keys

/-- Binds a name to undefined. -/
def create (b : Bindings) (name : String) (deletable : Bool) : Bindings :=
  ⟨b.table.insert name ⟨some .undefined, true, deletable⟩⟩

/-- Binds a name that can be given a value once. -/
def createImmutable (b : Bindings) (name : String) : Bindings :=
  ⟨b.table.insert name ⟨none, false, false⟩⟩

/-- Gives a binding a value, unless there is no such binding or it does not take one. -/
def give (takes : Binding → Bool) (b : Bindings) (name : String) (v : Value) : Bindings :=
  match b.table.get? name with
  | some binding =>
    if takes binding then ⟨b.table.insert name { binding with value := some v }⟩ else b
  | none => b

/-- Gives a binding its first value. -/
def fill : Bindings → String → Value → Bindings := give (·.value.isNone)

/-- Replaces the value of a binding. An immutable binding keeps its value. -/
def assign : Bindings → String → Value → Bindings := give (·.mutable)

/-- Assigns to a name that is bound. -/
def set (b : Bindings) (name : String) (v : Value) : Except NativeError Bindings :=
  if b.has name then .ok (b.assign name v) else .error (.notDefined name)

/-- The value of a binding; undefined before its first value. -/
def get (b : Bindings) (name : String) : Except NativeError Value :=
  match b.table.get? name with
  | some binding => .ok (binding.value.getD .undefined)
  | none => .error (.notDefined name)

/-- Removes a binding if it is deletable. The answer tells whether it is gone. -/
def delete (b : Bindings) (name : String) : Bindings × Bool :=
  match b.table.get? name with
  | none => (b, true)
  | some binding => if binding.deletable then (⟨b.table.erase name⟩, true) else (b, false)

theorem has_iff {b : Bindings} {name : String} : b.has name = true ↔ name ∈ b.names :=
  Table.contains_iff

theorem names_create (b : Bindings) (name : String) (deletable : Bool) :
    (b.create name deletable).names = if name ∈ b.names then b.names else b.names ++ [name] :=
  Table.keys_insert ..

/-- A created binding is undefined, and no other binding changes. -/
theorem get_create (b : Bindings) (name other : String) (deletable : Bool) :
    (b.create name deletable).get other =
      if other = name then .ok .undefined else b.get other := by
  by_cases h : other = name <;> simp [create, get, Table.get?_insert, h]

/-- To give a binding a value binds no name. -/
theorem names_give (takes : Binding → Bool) (b : Bindings) (name : String) (v : Value) :
    (b.give takes name v).names = b.names := by
  unfold give
  split
  next binding h =>
    split
    · have bound : name ∈ b.table.keys :=
        Table.mem_keys.2 ⟨binding, Table.get?_eq_some_iff.1 h⟩
      simp [names, Table.keys_insert, bound]
    · rfl
  next => rfl

theorem names_assign (b : Bindings) (name : String) (v : Value) :
    (b.assign name v).names = b.names := names_give ..

/-- An assignment to a mutable binding gives it the value, and no other binding changes. -/
theorem get_assign {b : Bindings} {name : String} {binding : Binding}
    (bound : b.table.get? name = some binding) (mutable : binding.mutable = true) (v : Value)
    (other : String) :
    (b.assign name v).get other = if other = name then .ok v else b.get other := by
  by_cases h : other = name <;> simp [assign, give, bound, mutable, get, Table.get?_insert, h]

end Bindings

/-- Where the bindings of an environment are kept. -/
inductive BindingStore where
  | own (bindings : Bindings)
  /-- The properties of an object; it may also serve as the receiver of calls. -/
  | properties (object : ObjectId) (providesReceiver : Bool)

/-- An environment. -/
structure Environment where
  store : BindingStore
  outer : Option EnvId
  /-- A return that may or may not have been taken was reached while this environment was the
  running one. -/
  ambiguousReturn : Bool := false
  /-- The ambiguity level at which the environment was created. -/
  createdLevel : Nat := 0

instance : Inhabited Environment := ⟨{ store := .own {}, outer := none }⟩

namespace Environment

/-- An environment without bindings. -/
def fresh (outer : Option EnvId) : Environment := { store := .own {}, outer }

/-- The own table of bindings. -/
def bindings? (e : Environment) : Option Bindings :=
  match e.store with
  | .own b => some b
  | .properties .. => none

end Environment

end AbstractScript
