import AbstractScript.Completion
import AbstractScript.Operation.Property

/-!
# Bindings

Names are looked up from an environment outwards. The bindings of an environment are entries of its
own table or properties of its object; an assignment that may or may not happen stores an unknown
value in either.
-/
namespace AbstractScript

namespace Realm

/-- True if an environment itself binds a name. -/
def binds (r : Realm) (e : EnvId) (name : String) : Bool :=
  match (r.environment e).store with
  | .own bindings => bindings.has name
  | .properties o _ => r.hasProperty o name

/-- The environments from one outwards, at most `steps` of them. -/
def scopesWithin (r : Realm) : Nat → Option EnvId → List EnvId
  | 0, _ => []
  | _, none => []
  | steps + 1, some e => e :: r.scopesWithin steps (r.environment e).outer

/-- An environment and those around it, the nearest first. An environment is created inside older
ones, so that there are no more of them than in the table. -/
def scopes (r : Realm) (e : EnvId) : List EnvId := r.scopesWithin r.environments.size (some e)

/-- What a name refers to in an environment: a binding of the nearest one that has it. -/
def resolve (r : Realm) (e : EnvId) (name : String) : Reference :=
  match (r.scopes e).find? (r.binds · name) with
  | some scope => .environment scope name
  | none => .unresolvable name

/-- The receiver of a call of a function that an environment binds. -/
def implicitThis (r : Realm) (e : EnvId) : Value :=
  match (r.environment e).store with
  | .properties o true => .object o
  | _ => .undefined

end Realm

namespace Op

open Eval

/-- An environment. -/
def environment {ε : Type} (e : EnvId) : Eval ε Environment :=
  return (← MonadState.get).realm.environment e

/-- Changes the table of an environment. -/
def modifyBindings {ε : Type} (e : EnvId) (f : Bindings → Bindings) : Eval ε Unit :=
  modify (·.modifyEnvironment e fun env =>
    match env.store with
    | .own bindings => { env with store := .own (f bindings) }
    | .properties .. => env)

/-- What a computation that may fail gives as an operation. -/
def ofExcept {α : Type} : Except NativeError α → Op α
  | .ok a => return a
  | .error e => throw e

variable [Natives]

/-- The value of a binding. -/
def getBinding (e : EnvId) (name : String) : Op Value := do
  match (← environment e).store with
  | .own bindings => ofExcept (bindings.get name)
  | .properties o _ => get o name

/-- Assigns to a binding. -/
def setBinding (e : EnvId) (name : String) (v : Value) : Op Unit := do
  let v ← weaken (← environment e).createdLevel v
  match (← environment e).store with
  | .own bindings =>
    if bindings.has name then modifyBindings e (·.assign name v) else throw (.notDefined name)
  | .properties o _ => put o name v false

/-- Binds a name to undefined. -/
def createBinding (e : EnvId) (name : String) (deletable : Bool) : Op Unit := do
  match (← environment e).store with
  | .own _ => modifyBindings e (·.create name deletable)
  | .properties o _ =>
    let _ ← define o name (.ofDescriptor (.data .undefined true true deletable)) true

omit [Natives] in
/-- Removes a binding. The answer tells whether it is gone. -/
def deleteBinding (e : EnvId) (name : String) : Op Bool := do
  match (← environment e).store with
  | .own bindings =>
    let (_, gone) := bindings.delete name
    modifyBindings e fun b => (b.delete name).1
    return gone
  | .properties o _ => delete o name false

/-! ## Reading and assigning through references

An assignment to a name without a binding creates a property of the global object. What is assigned
to a property of a primitive, or through an unknown reference, is lost.
-/

/-- What is referred to. -/
def getValue (r : Reference) : Op Value :=
  match r.base with
  | .value v => getOf v r.name
  | .environment e => getBinding e r.name
  | .unresolvable => throw (.notDefined r.name)
  | .unknown => return .unknown

/-- Replaces what is referred to. -/
def putValue (r : Reference) (v : Value) : Op Unit :=
  match r.base with
  | .unresolvable => put Realm.globalObject r.name v false
  | .environment e => setBinding e r.name v
  | .value (.object o) => put o r.name v false
  | .value .undefined | .value .null =>
    typeError ("Cannot set property '" ++ r.name ++ "' of " ++ r.thisValue.display)
  | .value _ | .unknown => return

end Op

end AbstractScript
