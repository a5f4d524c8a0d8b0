import AbstractScript.Proofs.DecidingNatives

/-!
# Bindings and operators decide

Bindings and declarations store harmless values and give harmless values, functions are created from
direct code, and operators make primitives of harmless operands.
-/
namespace AbstractScript

open Eval Realm

variable {s : Setup} {P : Prop} {ε α : Type}

/-! ## Functions -/

namespace Eval

/-- A function of the program is a new object, fresh because its code is direct. -/
theorem createScript_decides {code : FunctionCode} (direct : P → code.isIn .direct = true)
    (scope : EnvId) : Decides s P (createScript code scope : Eval ε ObjectId) fun f =>
      core.objects.size ≤ f.index := by
  refine Decides.bind (.create fun given level => ?_) fun f => ?_
  · exact ObjectRecord.fresh_functionRecord level (direct given)
  refine Decides.bind (.create fun _ => ObjectRecord.fresh_plainRecord) fun p => ?_
  refine Decides.bind (.modifyNew (fun given => given.1.2) fun given record fresh => ?_) fun _ => ?_
  · refine (fresh.store rfl rfl).store ?_ rfl
    exact Value.isDefinite_of_isHarmless (Value.isHarmless_of_new given.2)
  refine Decides.bind (.modifyNew (fun given => given.1.2) fun given record fresh => ?_) fun _ => ?_
  · refine fresh.store ?_ rfl
    exact Value.isDefinite_of_isHarmless (Value.isHarmless_of_new given.1.1.2)
  refine Decides.bind (R := fun _ => True) (.modify (fun _ => rfl) fun _ m hm => ?_) fun _ => ?_
  · have now : (m.addScript f).moment.Definite := ⟨hm.now.realm, hm.now.contexts, hm.now.exits⟩
    exact hm.tick now rfl rfl rfl rfl rfl
  · exact .pure fun given => given.1.1.1.1.2

end Eval

namespace Op

variable {name : String} {v : Value}

/-- The bindings of an environment may be changed in a way that keeps them harmless. -/
theorem modifyBindings_decides (e : EnvId) {f : Bindings → Bindings}
    (keeps : P → ∀ b : Bindings, b.IsHarmless → (f b).IsHarmless) :
    Decides s P (modifyBindings e f : Eval ε Unit) fun _ => True := by
  refine .modify (fun _ => rfl) fun given m hm => ?_
  refine hm.tick ⟨hm.now.realm.modifyEnvironment e fun env definite => ?_, hm.now.contexts,
    hm.now.exits⟩ rfl rfl rfl rfl rfl
  split
  next b own => exact keeps given b (definite.own own)
  next => exact definite

/-- An environment that is read is definite. -/
theorem environment_decides (e : EnvId) :
    Decides s P (environment e : Eval ε Environment) Environment.Definite := by
  refine (Decides.look (·.environment e)).gives ?_
  rintro - _ ⟨r, hr, rfl⟩
  exact hr.environments e

/-- A binding may be created, in an environment of its own or in the global object. -/
theorem createBinding_decides (e : EnvId) (name : String) (deletable : Bool) :
    Decides s P (createBinding e name deletable) fun _ => True := by
  refine (environment_decides e).bind fun env => ?_
  split
  · exact modifyBindings_decides e fun _ b harmless => harmless.create name deletable
  next store =>
    refine (define_decides (fun given => ?_) true).bind fun _ => .pure fun _ => trivial
    exact ⟨.inl (given.2.properties store).1, rfl, rfl⟩

/-- A binding may be set to a harmless value. -/
theorem setBinding_decides (e : EnvId) (name : String) (harmless : P → v.isHarmless = true) :
    Decides s P (setBinding e name v) fun _ => True := by
  refine (environment_decides e).bind fun env => (weaken_decides ..).bind fun w => ?_
  refine (environment_decides e).bind fun env' => ?_
  have stored (given : ((P ∧ env.Definite) ∧ w = v) ∧ env'.Definite) : w.isHarmless = true :=
    given.1.2 ▸ harmless given.1.1.1
  split
  · split
    · exact modifyBindings_decides e fun given b hb => hb.give _ name (stored given)
    · exact .throw _
  next store =>
    exact put_decides (fun given => ⟨.inl (given.2.properties store).1, stored given⟩) false

/-- A binding gives a harmless value, unless it is that of the constructor of functions. -/
theorem getBinding_decides (e : EnvId) (plain : P → name ≠ "Function") :
    Decides s P (getBinding e name) fun v => v.isHarmless = true := by
  refine (environment_decides e).bind fun env => ?_
  split
  next b own =>
    cases found : b.get name with
    | ok v => exact .pure fun given => (given.2.own own).get found
    | error e => exact .throw e
  next o receiver store =>
    by_cases same : o = globalObject
    · subst same
      exact getGlobal_decides fun given => plain given.1
    · exact .absurd (built_get ..).keeps fun given => same (given.2.properties store).1

/-! ## Declarations -/

/-- A name may be declared. -/
theorem declare_decides (e : EnvId) (name : String) : Decides s P (declare e name) fun _ => True := by
  refine Decides.get.bind fun m => ?_
  split
  · exact createBinding_decides ..
  · exact .pure fun _ => trivial

/-- A function may be declared if its code is direct. -/
theorem declareFunction_decides (e : EnvId) {code : FunctionCode}
    (direct : P → code.isIn .direct = true) :
    Decides s P (declareFunction e code) fun _ => True := by
  refine Decides.get.bind fun m => ?_
  refine (createScript_decides (fun given => direct given.1) _).bind fun f => ?_
  refine (declare_decides e _).bind fun _ => setBinding_decides e _ fun given => ?_
  exact Value.isHarmless_of_new given.1.2

/-- All declarations of a body may be made, with an arguments object that is new. -/
theorem instantiate_decides (e : EnvId) {body : List Statement} {arguments : Option ObjectId}
    (direct : P → bodyIsIn .direct body = true)
    (new : P → ∀ o, arguments = some o → core.objects.size ≤ o.index) :
    Decides s P (instantiate e body arguments) fun _ => True := by
  have declared {Q : Prop} : Decides s Q (declareAll e (varNames body)) fun _ => True :=
    .forM fun name _ => declare_decides e name
  refine Decides.bind (.forM fun code hcode => ?_) fun _ => ?_
  · exact declareFunction_decides e fun given =>
      bodyIsIn_hoistedFunctions body (direct given) code hcode
  · split
    next o =>
      refine Decides.bind (R := fun _ => True) (Decides.get.bind fun m => ?_) fun _ => declared
      split
      · refine (createBinding_decides ..).bind fun _ => setBinding_decides e _ fun given => ?_
        exact Value.isHarmless_of_new (new given.1.1.1 o rfl)
      · exact .pure fun _ => trivial
    · exact declared

/-- Parameters may be bound to harmless arguments. -/
theorem bindParameters_decides (e : EnvId) (parameters : List Identifier) {arguments : List Value}
    (harmless : P → ∀ v ∈ arguments, v.isHarmless = true) :
    Decides s P (bindParameters e parameters arguments) fun _ => True := by
  induction parameters generalizing arguments P with
  | nil => exact .pure fun _ => trivial
  | cons p rest ih =>
    refine (declare_decides e _).bind fun _ => (setBinding_decides e _ fun given => ?_).bind fun _ => ?_
    · cases arguments with
      | nil => rfl
      | cons v vs => exact harmless given.1 v List.mem_cons_self
    · exact ih fun given v hv => harmless given.1.1 v (List.mem_of_mem_tail hv)

end Op

/-- A function value of direct code is a new object. -/
theorem Eval.createFunctionValue_decides {code : FunctionCode}
    (direct : P → code.isIn .direct = true) :
    Decides s P (createFunctionValue code : Eval ε ObjectId) fun f =>
      core.objects.size ≤ f.index := by
  refine Decides.get.bind fun m => ?_
  split
  · exact createScript_decides (fun given => direct given.1) _
  next id _ =>
    refine Decides.bind (.createEnvironment fun _ => Environment.definite_fresh _) fun e => ?_
    refine (createScript_decides (fun given => direct given.1.1) e).bind fun f => ?_
    refine (Op.modifyBindings_decides e fun given b hb => ?_).bind fun _ => .pure (·.1.2)
    exact (hb.createImmutable id.name).give _ id.name (Value.isHarmless_of_new given.2)

/-! ## Names -/

/-- A reference by a name. -/
def Reference.IsNamed (r : Reference) : Prop :=
  (∃ e, r.base = .environment e) ∨ r.base = .unresolvable

/-- A reference by a name that does not stand for the constructor of functions. -/
structure Reference.IsPlain (r : Reference) : Prop where
  named : r.IsNamed
  plain : r.name ≠ "Function"

namespace Op

variable {r : Reference}

/-- A plain reference gives a harmless value. -/
theorem getValue_decides (plain : P → r.IsPlain) :
    Decides s P (getValue r) fun v => v.isHarmless = true := by
  unfold getValue
  split
  next v base =>
    refine .absurd (built_getOf ..).keeps fun given => ?_
    rcases (plain given).named with ⟨e, same⟩ | same <;> cases base.symm.trans same
  · exact getBinding_decides _ fun given => (plain given).plain
  · exact .throw _
  next base =>
    refine .absurd (.pure _) fun given => ?_
    rcases (plain given).named with ⟨e, same⟩ | same <;> cases base.symm.trans same

/-- A harmless value may be put through the reference of a name. -/
theorem putValue_decides {v : Value} (named : P → r.IsNamed) (harmless : P → v.isHarmless = true) :
    Decides s P (putValue r v) fun _ => True := by
  unfold putValue
  split
  · exact put_decides (fun given => ⟨.inl rfl, harmless given⟩) false
  · exact setBinding_decides _ _ harmless
  next o base =>
    refine .absurd (built_put ..).keeps fun given => ?_
    rcases named given with ⟨e, same⟩ | same <;> cases base.symm.trans same
  · exact .throw _
  · exact .throw _
  · exact .pure fun _ => trivial
  · exact .pure fun _ => trivial

end Op

namespace Rule

/-- A name that is looked up refers to a binding of that name. -/
theorem resolve_decides (name : String) :
    Decides s P (resolve name) fun r => r.IsNamed ∧ r.name = name := by
  refine Decides.get.bind fun m => .pure fun _ => ?_
  unfold Realm.resolve
  split
  next scope _ => exact ⟨.inl ⟨scope, rfl⟩, rfl⟩
  · exact ⟨.inr rfl, rfl⟩

/-- The reference is plain for any other name than that of the constructor of functions. -/
theorem resolve_isPlain {name : String} (plain : name ≠ "Function") :
    Decides s P (resolve name) Reference.IsPlain :=
  (resolve_decides name).gives fun _ _ hr => ⟨hr.1, hr.2 ▸ plain⟩

/-- A function that a name stands for is called without a receiver. -/
theorem receiver_decides {r : Reference} (named : P → r.IsNamed) :
    Decides s P (receiver r) fun v => v = .undefined := by
  unfold receiver
  split
  next e _ =>
    refine Decides.get.bind fun m => .pure fun given => ?_
    rw [implicitThis]
    split
    next store => cases ((given.2.now.realm.environments e).properties store).2
    · rfl
  next other =>
    refine .pure fun given => ?_
    rcases named given with ⟨e, same⟩ | same
    · exact (other e same).elim
    · rw [Reference.thisValue, same]

end Rule

/-! ## Operators -/

namespace Op

variable {a b : Value}

/-- An operator on numbers makes a number of definite operands. -/
theorem numeric_decides (f : Float → Float → Float) (ha : P → a.isDefinite = true)
    (hb : P → b.isDefinite = true) : Decides s P (numeric f a b) Value.IsPrimitive := by
  refine (toNumber?_decides ha).bind fun x => ?_
  refine (toNumber?_decides fun given => hb given.1).bind fun y => ?_
  split
  · exact .pure fun _ => ⟨rfl, rfl⟩
  next unknown =>
    refine .pure fun ⟨⟨_, x', hx⟩, y', hy⟩ => ?_
    exact (unknown x' y' hx hy).elim

/-- So does a comparison make a truth value. -/
theorem ordered_decides (test : Ordering → Bool) (ha : P → a.isDefinite = true)
    (hb : P → b.isDefinite = true) : Decides s P (ordered test a b) Value.IsPrimitive := by
  have compared : Decides s P (Op.compare a b) fun c => c ≠ .unknown := by
    refine (toPrimitive_decides ha _).bind fun a' => ?_
    refine (toPrimitive_decides (fun given => hb given.1) _).bind fun b' => .pure fun given => ?_
    exact given.1.2.compare_ne_unknown given.2
  refine compared.bind fun c => ?_
  split
  · exact .pure fun _ => ⟨rfl, rfl⟩
  · exact .pure fun _ => ⟨rfl, rfl⟩
  · exact .pure fun given => (given.2 rfl).elim

/-- Loose equality of definite values is decided. -/
theorem looselyEqual?_decides (ha : P → a.isDefinite = true) (hb : P → b.isDefinite = true) :
    Decides s P (looselyEqual? a b) fun e => ∃ e', e = some e' := by
  have primitive {v : Value} (definite : P → v.isDefinite = true) (other : v.isObject = false)
      (given : P) : v.IsPrimitive := Value.isPrimitive_of_isDefinite (definite given) other
  unfold looselyEqual?
  split
  · exact .pure fun _ => ⟨_, rfl⟩
  -- an object is compared with a primitive value by its own primitive value
  next o notObject =>
    have plain : b.isObject = false := by
      cases b <;> first | rfl | exact (notObject _ rfl).elim
    split
    · refine (toPrimitive_decides ha _).bind fun a' => .pure fun given => ?_
      exact given.2.looselyEqual? (primitive hb plain given.1)
    · refine .pure fun given => ?_
      rw [Value.isUnknown_of_isDefinite (hb given)]
      exact ⟨false, rfl⟩
  next o notObject =>
    have plain : a.isObject = false := by
      cases a <;> first | rfl | exact (notObject _ rfl).elim
    split
    · refine (toPrimitive_decides hb _).bind fun b' => .pure fun given => ?_
      exact (primitive ha plain given.1).looselyEqual? given.2
    · refine .pure fun given => ?_
      rw [Value.isUnknown_of_isDefinite (ha given)]
      exact ⟨false, rfl⟩
  next left right _ =>
    refine .pure fun given => (primitive ha ?_ given).looselyEqual? (primitive hb ?_ given)
    · cases a <;> first | rfl | exact (left _ rfl).elim
    · cases b <;> first | rfl | exact (right _ rfl).elim

/-- The texts of two primitives are known, so they are joined. -/
theorem joinTexts_decides (ha : P → a.IsPrimitive) (hb : P → b.IsPrimitive) :
    Decides s P (match a.primitiveToString?, b.primitiveToString? with
      | some s, some t => return .string (s ++ t)
      | _, _ => return .unknown : Op Value) Value.IsPrimitive := by
  split
  · exact .pure fun _ => ⟨rfl, rfl⟩
  next unknown =>
    refine .pure fun given => ?_
    obtain ⟨x, hx⟩ := (ha given).primitiveToString?
    obtain ⟨y, hy⟩ := (hb given).primitiveToString?
    exact (unknown x y hx hy).elim

/-- The sum of primitives is a primitive. -/
theorem addPrimitives_decides (ha : P → a.IsPrimitive) (hb : P → b.IsPrimitive) :
    Decides s P (addPrimitives a b) Value.IsPrimitive := by
  have definite {v : Value} (h : v.IsPrimitive) : v.isDefinite = true :=
    Value.isDefinite_of_isHarmless (Value.isHarmless_of_isPrimitive h)
  unfold addPrimitives
  split
  · exact .pure fun given => by cases (ha given).known
  · exact .pure fun given => by cases (hb given).known
  · exact joinTexts_decides ha hb
  · exact joinTexts_decides ha hb
  · exact numeric_decides _ (fun given => definite (ha given)) fun given => definite (hb given)

/-- So is the sum of definite values, which are converted first. -/
theorem add_decides (ha : P → a.isDefinite = true) (hb : P → b.isDefinite = true) :
    Decides s P (add a b) Value.IsPrimitive := by
  refine (toPrimitive_decides ha _).bind fun a' => ?_
  refine (toPrimitive_decides (fun given => hb given.1) _).bind fun b' => ?_
  exact addPrimitives_decides (fun given => given.1.2) And.right

/-- Operators other than those that need an object make primitives of definite operands. -/
theorem apply_decides {operator : BinaryOperator} (allowed : operator.needsObject = false)
    (ha : P → a.isDefinite = true) (hb : P → b.isDefinite = true) :
    Decides s P (apply operator a b) Value.IsPrimitive := by
  have strict : Decides s P (return Value.ofBool? (Value.strictlyEqual? a b) : Op Value)
      Value.IsPrimitive ∧ Decides s P
        (return Value.ofBool? ((Value.strictlyEqual? a b).map not) : Op Value) Value.IsPrimitive := by
    constructor <;> refine .pure fun given => ?_ <;>
      rw [Value.strictlyEqual?, Value.isUnknown_of_isDefinite (ha given),
        Value.isUnknown_of_isDefinite (hb given)] <;> exact ⟨rfl, rfl⟩
  unfold apply
  split
  next unknown =>
    -- neither operand is unknown
    refine .pure fun given => ?_
    rw [Value.anyUnknown, List.any_cons, List.any_cons, Value.isUnknown_of_isDefinite (ha given),
      Value.isUnknown_of_isDefinite (hb given)] at unknown
    cases unknown
  · cases operator with
    | strictlyEqual => exact strict.1
    | strictlyUnequal => exact strict.2
    | looselyEqual | looselyUnequal =>
      refine (looselyEqual?_decides ha hb).bind fun e => .pure fun given => ?_
      obtain ⟨-, e', rfl⟩ := given
      exact ⟨rfl, rfl⟩
    | lessThan | lessThanEqual | greaterThan | greaterThanEqual => exact ordered_decides _ ha hb
    | add => exact add_decides ha hb
    | contains | instanceOf => cases allowed
    | _ => exact numeric_decides _ ha hb

/-- An operator on one number makes a number. -/
theorem numericUnary_decides (f : Float → Float) (ha : P → a.isDefinite = true) :
    Decides s P (numericUnary f a) Value.IsPrimitive := by
  refine (toNumber?_decides ha).bind fun x => .pure fun given => ?_
  obtain ⟨-, y, rfl⟩ := given
  exact ⟨rfl, rfl⟩

/-- The type of a value is a text. -/
theorem typeOf_decides (ha : P → a.isDefinite = true) :
    Decides s P (typeOf a) Value.IsPrimitive := by
  refine Decides.get.bind fun m => .pure fun given => ?_
  have definite := ha given.1
  cases a with
  | unknown => cases definite
  | _ => exact ⟨rfl, rfl⟩

end Op

end AbstractScript
