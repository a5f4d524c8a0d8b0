import AbstractScript.Proofs.Beginning

/-!
# References are intact

At every moment of a run with the core objects, whatever refers to an object or an environment refers
to one in the table, prototypes are older than the objects that inherit from them, and outer
environments are older than those inside them (`Moment.Intact`). Hence nothing but their ends limits
the walks along prototypes, in which properties and their names are looked up, and the walks outwards
through environments, in which names are resolved (`Realm.Intact.walk_chain`,
`Realm.Intact.walk_scopes`).
-/
namespace AbstractScript

/-! ## Intact moments -/

namespace Realm

/-- The object is in the table. -/
def HasObject (r : Realm) (o : ObjectId) : Prop := o.index < r.objects.size

/-- The environment is in the table. -/
def HasEnvironment (r : Realm) (e : EnvId) : Prop := e.index < r.environments.size

/-- If the value is an object, it is in the table. -/
def HasValue (r : Realm) (v : Value) : Prop := ∀ o, v = .object o → r.HasObject o

/-- What objects and environments refer to is in the tables, and what they are built on is older. -/
structure Intact (r : Realm) : Prop where
  prototype : ∀ o p, (r.object o).prototype = some p → r.HasObject p ∧ p.index < o.index
  value : ∀ o name v writable enumerable configurable,
    (r.object o).own? name = some (.data v writable enumerable configurable) → r.HasValue v
  getter : ∀ o name g s enumerable configurable,
    (r.object o).own? name = some (.accessor (some g) s enumerable configurable) → r.HasObject g
  setter : ∀ o name g s enumerable configurable,
    (r.object o).own? name = some (.accessor g (some s) enumerable configurable) → r.HasObject s
  primitive : ∀ o v, (r.object o).primitive = some v → r.HasValue v
  call : ∀ o name v construct,
    (r.object o).callable = some (.native name (some (.constant v)) construct) → r.HasValue v
  construct : ∀ o name v call,
    (r.object o).callable = some (.native name call (some (.constant v))) → r.HasValue v
  scope : ∀ o closure,
    (r.object o).callable = some (.script closure) → r.HasEnvironment closure.scope
  binding : ∀ e bindings name binding v, (r.environment e).store = .own bindings →
    bindings.table.get? name = some binding → binding.value = some v → r.HasValue v
  bindingObject : ∀ e o receiver,
    (r.environment e).store = .properties o receiver → r.HasObject o
  outer : ∀ e f, (r.environment e).outer = some f → r.HasEnvironment f ∧ f.index < e.index

end Realm

/-- What a context refers to is in the tables. -/
structure Context.Intact (r : Realm) (c : Context) : Prop where
  function : ∀ f, c.function = some f → r.HasObject f
  lexicalEnv : r.HasEnvironment c.lexicalEnv
  variableEnv : r.HasEnvironment c.variableEnv
  this : r.HasValue c.this

/-- Whatever the state of a run refers to is in the tables. -/
structure Moment.Intact (x : Moment) : Prop where
  realm : x.realm.Intact
  context : ∀ c ∈ x.contexts.contexts, c.Intact x.realm
  exit : ∀ e ∈ x.exits, ∀ v, e.completion.value = some v → x.realm.HasValue v
  script : ∀ f ∈ x.scripts, x.realm.HasObject f
  invoked : ∀ f ∈ x.invoked, x.realm.HasObject f

/-- A sound moment is intact if references are asked to be in range. -/
theorem Moment.Sound.intact {L : Law} {x : Moment} (sound : x.Sound L) (tracked : L.tracked) :
    x.Intact := by
  -- what the world of a moment holds is in the tables of its realm
  have object {o : ObjectId} (held : (L.world x).Holds o) : x.realm.HasObject o := held tracked
  have environment {e : EnvId} (held : (L.world x).Holds e) : x.realm.HasEnvironment e :=
    held tracked
  have value {v : Value} (held : (L.world x).Holds v) : x.realm.HasValue v := by
    rintro o rfl
    exact held tracked
  have own {o : ObjectId} {name : String} {d : Descriptor}
      (found : (x.realm.object o).own? name = some d) : (L.world x).Holds d :=
    (ObjectRecord.Held.own? (sound.object o) name).of_some found
  have callable {o : ObjectId} {f : Callable} (found : (x.realm.object o).callable = some f) :
      (L.world x).Holds f := (sound.object o).callable.of_some found
  constructor
  case realm =>
    constructor
    case prototype =>
      exact fun o p inherits =>
        ⟨object ((sound.object o).prototype.of_some inherits), sound.prototype tracked o p inherits⟩
    case value => exact fun _ _ _ _ _ _ found => value (own found)
    case getter => exact fun _ _ _ _ _ _ found => object (own found).1
    case setter => exact fun _ _ _ _ _ _ found => object (own found).2
    case primitive => exact fun o _ found => value ((sound.object o).primitive.of_some found)
    case call => exact fun _ _ _ _ found => value (callable found).1
    case construct => exact fun _ _ _ _ found => value (callable found).2
    case scope => exact fun _ _ found => environment (callable found).2
    case binding =>
      intro e bindings name binding v store found given
      have held := (sound.environment e).1
      rw [store] at held
      have held : (L.world x).Holds binding.value := held name binding found
      exact value (held.of_some given)
    case bindingObject =>
      intro e o receiver store
      have held := (sound.environment e).1
      rw [store] at held
      exact object held
    case outer =>
      exact fun e f inside =>
        ⟨environment ((sound.environment e).2.of_some inside), sound.outer tracked e f inside⟩
  case context =>
    intro c hc
    have held := sound.contexts c hc
    exact ⟨fun f found => object (held.function.of_some found), environment held.lexicalEnv,
      environment held.variableEnv, value held.this⟩
  case exit =>
    intro e he v given
    have held : (L.world x).Holds e.completion.value := sound.exits e he
    exact value (held.of_some given)
  case script => exact fun f hf => object (sound.scripts f hf)
  case invoked => exact fun f hf => object (sound.invoked f hf)

/-! ## Walks -/

section

variable {α : Type} {next : α → Option α} {there : α → Prop}

/-- A walk from one thing to the next, up to one that is the last. Everything on it is there. -/
inductive Walk (next : α → Option α) (there : α → Prop) : α → List α → Prop where
  | last {a : α} (here : there a) (ends : next a = none) : Walk next there a [a]
  | step {a b : α} {rest : List α} (here : there a) (goes : next a = some b)
    (later : Walk next there b rest) : Walk next there a (a :: rest)

/-- A walk on which a number decreases is what is found in more steps than this number. -/
theorem Walk.of_within (rank : α → Nat) {within : Nat → Option α → List α}
    (none : ∀ steps, within steps none = [])
    (some : ∀ steps a, within (steps + 1) (some a) = a :: within steps (next a))
    (decreases : ∀ a b, next a = .some b → there b ∧ rank b < rank a) {steps : Nat} {a : α}
    (here : there a) (enough : rank a < steps) : Walk next there a (within steps (.some a)) := by
  induction steps generalizing a with
  | zero => exact absurd enough (Nat.not_lt_zero _)
  | succ steps ih =>
    rw [some]
    cases goes : next a with
    | none =>
      rw [none]
      exact .last here goes
    | some b =>
      obtain ⟨later, less⟩ := decreases a b goes
      exact .step here goes (ih later (by omega))

end

namespace Realm

variable {r : Realm}

/-- The walk along prototypes ends, and all objects on it are in the table. -/
theorem Intact.walk_chain (h : r.Intact) {o : ObjectId} (ho : r.HasObject o) :
    Walk (fun o => (r.object o).prototype) r.HasObject o (r.chain o) := by
  refine .of_within ObjectId.index (fun steps => ?_) (fun _ _ => rfl) h.prototype ho ho
  cases steps <;> rfl

/-- The walk outwards through environments ends, and all environments on it are in the table. -/
theorem Intact.walk_scopes (h : r.Intact) {e : EnvId} (he : r.HasEnvironment e) :
    Walk (fun e => (r.environment e).outer) r.HasEnvironment e (r.scopes e) := by
  refine .of_within EnvId.index (fun steps => ?_) (fun _ _ => rfl) h.outer he he
  cases steps <;> rfl

end Realm

/-! ## Runs -/

namespace Analyzer

/-- **No dangling and no cyclic references.** At every moment of a run with the core objects
references are intact, and the walks along prototypes and through environments end without leaving
the tables. -/
theorem moment_intact {a : Analyzer} (core : a.catalogue = .core) (p : Program) {x : Moment}
    (moment : (a.analyze p).machine.course x x) :
    x.Intact ∧
      (∀ o, x.realm.HasObject o → Walk (fun o => (x.realm.object o).prototype) x.realm.HasObject o
        (x.realm.chain o)) ∧
      ∀ e, x.realm.HasEnvironment e → Walk (fun e => (x.realm.environment e).outer)
        x.realm.HasEnvironment e (x.realm.scopes e) := by
  have intact := ((valid_core core p).sound x moment).intact trivial
  exact ⟨intact, fun _ => intact.realm.walk_chain, fun _ => intact.realm.walk_scopes⟩

/-- The program `(function f() {})()`. -/
def calledFunction : Program where
  span := default
  file := ""
  body := [.expression default
    (.call default (.function (.mk default (some ⟨default, "f"⟩) [] default [])) [])]

/-- References are intact after a call of a function that is named. -/
theorem moment_intact_calledFunction :
    let x := (plain.analyze calledFunction).machine.moment
    (plain.analyze calledFunction).machine.course x x ∧ x.Intact ∧
      (∀ o, x.realm.HasObject o → Walk (fun o => (x.realm.object o).prototype) x.realm.HasObject o
        (x.realm.chain o)) ∧
      ∀ e, x.realm.HasEnvironment e → Walk (fun e => (x.realm.environment e).outer)
        x.realm.HasEnvironment e (x.realm.scopes e) := by
  have present := (valid_core catalogue_plain calledFunction).present
  exact ⟨present, moment_intact catalogue_plain calledFunction present⟩

end Analyzer

end AbstractScript
