import AbstractScript.Proofs.Lookup

/-!
# What a function binds when it is entered

A call binds parameters, function declarations, `arguments` and variables in an environment that it
has just created, so that nothing that it binds is weakened. The last declaration of a name counts
most, then the last parameter of that name, then `arguments`; every other variable is undefined
(`FunctionCode.entry`). Entering a function binds exactly these names to these values, at every
ambiguity level (`Eval.enterBody_entry`).
-/
namespace AbstractScript

open Eval

/-! ## What is bound -/

/-- What parameters are bound to: the argument at the same place, or undefined. -/
def parameterEntries (parameters : List Identifier) (arguments : List Value) :
    List (String × Value) :=
  parameters.mapIdx fun i p => (p.name, arguments[i]?.getD .undefined)

/-- What function declarations are bound to: the function that is created for each. -/
def functionEntries (codes : List FunctionCode) (functions : List ObjectId) :
    List (String × Value) :=
  (codes.zip functions).map fun (code, f) => (code.name, .object f)

/-- What a function binds a name to when it is entered with some arguments, given its `arguments`
object and the functions that are created for its declarations. Of several entries of a name the
last one counts. -/
def FunctionCode.entry (code : FunctionCode) (arguments : List Value) (o : ObjectId)
    (functions : List ObjectId) (name : String) : Option Value :=
  (((functionEntries (hoistedFunctions code.body) functions).reverse.lookup name).or
    ((parameterEntries code.parameters arguments).reverse.lookup name)).or
      ((if name = "arguments" then some (.object o) else none).or
        (if name ∈ varNames code.body then some .undefined else none))

/-- The first parameter takes the first argument, or undefined, and the others take the rest. -/
theorem parameterEntries_cons (p : Identifier) (rest : List Identifier) (arguments : List Value) :
    parameterEntries (p :: rest) arguments =
      (p.name, arguments.headD .undefined) :: parameterEntries rest arguments.tail := by
  rw [parameterEntries, List.mapIdx_cons, parameterEntries]
  cases arguments <;> simp

/-- The last of the entries of a name is the one of the rest, if there is one. -/
theorem lookup_reverse_cons (x : String × Value) (rest : List (String × Value)) (name : String) :
    (x :: rest).reverse.lookup name =
      (rest.reverse.lookup name).or (if name = x.1 then some x.2 else none) := by
  rw [List.reverse_cons, List.lookup_append]
  refine congrArg _ ?_
  show (match name == x.1 with
    | true => some x.2
    | false => none) = _
  by_cases same : name = x.1
  · rw [if_pos same, beq_iff_eq.2 same]
  · rw [if_neg same, beq_false_of_ne same]

/-- The last entry of a name counts, and every name with an entry has one that counts. -/
theorem isSome_lookup_reverse {entries : List (String × Value)} {name : String} :
    (entries.reverse.lookup name).isSome = true ↔ name ∈ entries.map Prod.fst := by
  induction entries with
  | nil => simp
  | cons x rest ih =>
    rw [lookup_reverse_cons, Option.isSome_or, Bool.or_eq_true, ih, List.map_cons, List.mem_cons]
    split <;> simp_all

/-- The names that parameters bind are theirs. -/
theorem names_parameterEntries (parameters : List Identifier) (arguments : List Value) :
    (parameterEntries parameters arguments).map Prod.fst = parameters.map Identifier.name := by
  induction parameters generalizing arguments with
  | nil => rfl
  | cons p rest ih => rw [parameterEntries_cons, List.map_cons, ih, List.map_cons]

/-- The names that declarations bind are those of their functions. -/
theorem names_functionEntries {codes : List FunctionCode} {functions : List ObjectId}
    (all : functions.length = codes.length) :
    (functionEntries codes functions).map Prod.fst = codes.map FunctionCode.name := by
  have names : (functionEntries codes functions).map Prod.fst =
      ((codes.zip functions).map Prod.fst).map FunctionCode.name := by
    rw [functionEntries, List.map_map, List.map_map]
    rfl
  rw [names, List.map_fst_zip (Nat.le_of_eq all.symm)]

/-! ## Environments that hold variables -/

namespace Machine

/-- An environment of one's own that holds variables with given values. Writing to it is certain. -/
structure Variables (m : Machine) (e : EnvId) (value? : String → Option Value) : Prop where
  there : e.index < m.realm.environments.size
  certain : m.level ≤ (m.realm.environment e).createdLevel
  store : ∃ b, (m.realm.environment e).store = .own b ∧
    ∀ name, b.table.get? name = (value? name).map fun v => ⟨some v, true, false⟩

variable {m : Machine} {e : EnvId} {value? value?' : String → Option Value} {name : String}

/-- The values of variables may be told in another way. -/
theorem Variables.congr (h : m.Variables e value?) (same : ∀ name, value?' name = value? name) :
    m.Variables e value?' := by
  rwa [show value?' = value? from funext same]

/-- Exactly the names that have a value are bound. -/
theorem Variables.binds (h : m.Variables e value?) (name : String) :
    m.realm.binds e name = (value? name).isSome := by
  obtain ⟨b, own, table⟩ := h.store
  rw [Realm.binds, own, Bool.eq_iff_iff, Bindings.has_iff, ← not_iff_not]
  refine Table.get?_eq_none_iff.symm.trans ?_
  rw [table]
  cases value? name <;> simp

/-- A variable gives its value. -/
theorem Variables.getBinding (h : m.Variables e value?) {v : Value}
    (value : value? name = some v) (s : Setup) : Op.getBinding e name s m = .ok v m := by
  obtain ⟨b, own, table⟩ := h.store
  have looked : (Op.environment e : Op _) s m = .ok (m.realm.environment e) m := rfl
  rw [Op.getBinding, bind_apply, looked]
  simp only [own, Bindings.get, table, value]
  rfl

/-- A change of the table of an environment that holds variables. -/
theorem Variables.mapBindings (h : m.Variables e value?) {f : Bindings → Bindings}
    (change : ∀ b : Bindings,
      (∀ name, b.table.get? name = (value? name).map fun v => ⟨some v, true, false⟩) →
        ∀ name, (f b).table.get? name = (value?' name).map fun v => ⟨some v, true, false⟩) :
    (m.mapBindings e f).Variables e value?' := by
  obtain ⟨b, own, table⟩ := h.store
  have after := environment_mapBindings h.there own f e
  rw [if_pos rfl] at after
  refine ⟨?_, ?_, f b, ?_, change b table⟩
  · exact Nat.lt_of_lt_of_eq h.there Array.size_modify.symm
  · rw [after]
    exact h.certain
  · rw [after]

/-- Between two machines functions are created for codes, in order, with an environment around them.
Nothing else is changed but environments and further objects. -/
structure Creates (e : EnvId) (codes : List FunctionCode) (functions : List ObjectId)
    (m n : Machine) : Prop where
  contexts : n.contexts = m.contexts
  diagnostics : n.diagnostics = m.diagnostics
  size : m.realm.objects.size ≤ n.realm.objects.size
  older : ∀ o, o.index < m.realm.objects.size → n.realm.object o = m.realm.object o
  scripts : n.scripts.toList = m.scripts.toList ++ functions
  created : List.Forall₂ (fun code f =>
    (m.realm.objects.size ≤ f.index ∧ f.index < n.realm.objects.size) ∧
      (n.realm.object f).callable = some (.script ⟨code, e⟩)) codes functions

/-- Nothing is created when nothing is done. -/
theorem Creates.refl (e : EnvId) (m : Machine) : Creates e [] [] m m :=
  ⟨rfl, rfl, Nat.le_refl _, fun _ _ => rfl, (List.append_nil _).symm, .nil⟩

/-- A change of bindings creates nothing. -/
theorem Creates.mapBindings (e : EnvId) (f : Bindings → Bindings) :
    Creates e [] [] m (m.mapBindings e f) :=
  ⟨rfl, rfl, Nat.le_refl _, fun _ _ => rfl, (List.append_nil _).symm, .nil⟩

/-- Functions that are created in two steps are created in order. -/
theorem Creates.trans {n k : Machine} {codes codes' : List FunctionCode}
    {functions functions' : List ObjectId} (h : Creates e codes functions m n)
    (h' : Creates e codes' functions' n k) :
    Creates e (codes ++ codes') (functions ++ functions') m k where
  contexts := h'.contexts.trans h.contexts
  diagnostics := h'.diagnostics.trans h.diagnostics
  size := Nat.le_trans h.size h'.size
  older o there := (h'.older o (Nat.lt_of_lt_of_le there h.size)).trans (h.older o there)
  scripts := by rw [h'.scripts, h.scripts, List.append_assoc]
  created := by
    refine List.rel_append ?_ ?_
    · refine h.created.imp fun code f ⟨⟨new, there⟩, function⟩ => ?_
      exact ⟨⟨new, Nat.lt_of_lt_of_le there h'.size⟩, by rw [h'.older f there, function]⟩
    · exact h'.created.imp fun code f ⟨⟨new, there⟩, function⟩ =>
        ⟨⟨Nat.le_trans h.size new, there⟩, function⟩

end Machine

/-! ## Steps -/

namespace Op

open Machine

/-- A computation that succeeds, leaves given variables in an environment and creates functions. -/
def Enters (e : EnvId) (value? : String → Option Value) (codes : List FunctionCode)
    (functions : List ObjectId) (x : Op Unit) (s : Setup) (m : Machine) : Prop :=
  ∃ n, x s m = .ok () n ∧ n.Variables e value? ∧ Creates e codes functions m n

section

variable {s : Setup} {m : Machine} {e : EnvId} {value? more? : String → Option Value}
  {codes codes' : List FunctionCode} {functions functions' : List ObjectId}

/-- One step of the entry after another. -/
theorem Enters.bind {x : Op Unit} {y : Unit → Op Unit} (h : Enters e value? codes functions x s m)
    (h' : ∀ n, n.Variables e value? → Creates e codes functions m n →
      Enters e more? codes' functions' (y ()) s n) :
    Enters e more? (codes ++ codes') (functions ++ functions') (x >>= y) s m := by
  obtain ⟨n, ran, holds, creates⟩ := h
  obtain ⟨k, ran', holds', creates'⟩ := h' n holds creates
  exact ⟨k, by rw [bind_apply, ran]; exact ran', holds', creates.trans creates'⟩

/-- What is bound may be told in another way. -/
theorem Enters.congr {x : Op Unit} (h : Enters e value? codes functions x s m)
    (same : ∀ name, more? name = value? name) : Enters e more? codes functions x s m := by
  obtain ⟨n, ran, holds, creates⟩ := h
  exact ⟨n, ran, holds.congr same, creates⟩

/-- A step that does nothing leaves the variables. -/
theorem Enters.pure (h : m.Variables e value?) : Enters e value? [] [] (pure ()) s m :=
  ⟨m, rfl, h, .refl e m⟩

variable (h : m.Variables e value?)

include h

/-- A new binding is a variable that is undefined. -/
theorem enters_createBinding (name : String) :
    Enters e (fun other => if other = name then some .undefined else value? other) [] []
      (createBinding e name false) s m := by
  obtain ⟨b, own, -⟩ := h.store
  refine ⟨_, createBinding_own own false, h.mapBindings fun b table other => ?_, .mapBindings ..⟩
  rw [Bindings.create, Table.get?_insert, table]
  split <;> rfl

/-- An assignment to a variable stores the value as it is, since the environment is as new as the
ambiguity level. -/
theorem enters_setBinding {name : String} {old : Value} (bound : value? name = some old)
    (v : Value) : Enters e (fun other => if other = name then some v else value? other) [] []
      (setBinding e name v) s m := by
  obtain ⟨b, own, table⟩ := h.store
  have has : b.has name = true := by
    have binds := h.binds name
    rwa [Realm.binds, own, bound] at binds
  have ran := setBinding_own (s := s) own has v
  rw [Value.weakened, if_neg (Nat.not_lt.2 h.certain)] at ran
  refine ⟨_, ran, h.mapBindings fun b table other => ?_, .mapBindings ..⟩
  rw [Bindings.assign, Bindings.give, table, bound]
  show (b.table.insert name _).get? other = _
  rw [Table.get?_insert, table]
  split <;> rfl

/-- A declaration adds a variable, unless the name is bound already. -/
theorem enters_declare (name : String) :
    Enters e (fun other => (value? other).or (if other = name then some .undefined else none)) [] []
      (declare e name) s m := by
  have looked : declare e name s m =
      (if !m.realm.binds e name then createBinding e name false else Pure.pure ()) s m := rfl
  rw [Enters, looked, h.binds]
  cases bound : value? name with
  | none =>
    refine (enters_createBinding h name).congr fun other => ?_
    split
    next same => rw [same, bound, Option.none_or]
    next => rw [Option.or_none]
  | some v =>
    refine (Enters.pure h).congr fun other => ?_
    split
    next same => rw [same, bound, Option.some_or]
    next => rw [Option.or_none]

/-- A name that is declared and assigned has the value, whether or not it was bound before. -/
theorem enters_declareAndSet (name : String) (v : Value) :
    Enters e (fun other => if other = name then some v else value? other) [] []
      (do
        declare e name
        setBinding e name v) s m := by
  refine (enters_declare h name).bind fun n holds _ => ?_
  have bound : ∃ old,
      (value? name).or (if name = name then some .undefined else none) = some old := by
    cases value? name <;> simp
  obtain ⟨old, bound⟩ := bound
  refine (enters_setBinding holds bound v).congr fun other => ?_
  split
  next => rfl
  next => rw [Option.or_none]

/-! ## The four passes -/

/-- The last parameter of a name decides, and what was bound before is hidden by it. -/
theorem enters_bindParameters (parameters : List Identifier) (arguments : List Value) :
    Enters e (fun name => ((parameterEntries parameters arguments).reverse.lookup name).or
        (value? name)) [] []
      (bindParameters e parameters arguments) s m := by
  induction parameters generalizing arguments m value? with
  | nil => exact Enters.pure h
  | cons p rest ih =>
    have first := enters_declareAndSet (s := s) h p.name (arguments.headD .undefined)
    -- A later parameter of the same name overwrites this one: its entry comes first in the lookup.
    have both := first.bind (y := fun _ => bindParameters e rest arguments.tail) fun n holds _ =>
      ih holds arguments.tail
    unfold bindParameters
    rw [← bind_assoc]
    refine both.congr fun name => ?_
    rw [parameterEntries_cons, lookup_reverse_cons, Option.or_assoc]
    refine congrArg _ ?_
    split <;> rfl

end

end Op

/-! ## Function declarations -/

/-- A function of the program and the prototype of its instances are created. -/
def Machine.withScript (m : Machine) (code : FunctionCode) (scope : EnvId) : Machine :=
  let n := m.addObject (Realm.functionRecord m.realm.ambiguityLevel (.script ⟨code, scope⟩))
  let f := m.realm.nextObject
  let p := n.realm.nextObject
  let k := (n.addObject (Realm.plainRecord m.realm.ambiguityLevel)).modifyObject f fun r =>
    (r.store "length" (.fixed (.nat code.parameters.length))).store "prototype"
      (.data (.object p) true false false)
  (k.modifyObject p (·.store "constructor" (.hidden (.object f)))).addScript f

/-- The creation of a function never fails. -/
theorem Eval.createScript_apply {ε : Type} (code : FunctionCode) (scope : EnvId) (s : Setup)
    (m : Machine) : (createScript code scope : Eval ε ObjectId) s m =
      .ok m.realm.nextObject (m.withScript code scope) := rfl

/-- What calling objects does is not changed by changes that keep it. -/
theorem Realm.callable_modifyObject (r : Realm) (o p : ObjectId) {f : ObjectRecord → ObjectRecord}
    (keeps : ∀ record : ObjectRecord, (f record).callable = record.callable) :
    ((r.modifyObject o f).object p).callable = (r.object p).callable := by
  rw [object_modifyObject]
  split
  next same => rw [keeps, same.1]
  next => rfl

namespace Machine

variable (m : Machine) (code : FunctionCode) (scope : EnvId)

/-- A function comes with the prototype of its instances. -/
theorem size_withScript :
    (m.withScript code scope).realm.objects.size = m.realm.objects.size + 2 := by
  simp [withScript, addScript, modifyObject, addObject, Realm.modifyObject, Realm.addObject]

/-- Older objects are not touched by it. -/
theorem object_withScript {o : ObjectId} (old : o.index < m.realm.objects.size) :
    (m.withScript code scope).realm.object o = m.realm.object o := by
  have notFunction : o ≠ m.realm.nextObject := by
    rintro rfl
    exact Nat.lt_irrefl _ old
  have notPrototype : o ≠ (m.realm.addObject
      (Realm.functionRecord m.realm.ambiguityLevel (.script ⟨code, scope⟩))).nextObject := by
    rintro rfl
    simp only [Realm.nextObject, Realm.addObject, Array.size_push] at old
    omega
  -- The four changes in turn, the last one first: only the function and its prototype are written.
  show (Realm.modifyObject (Realm.modifyObject (Realm.addObject (Realm.addObject ..) _) ..)
    ..).object o = _
  rw [Realm.object_modifyObject, if_neg fun h => notPrototype h.1, Realm.object_modifyObject,
    if_neg fun h => notFunction h.1, Realm.object_addObject, if_neg notPrototype,
    Realm.object_addObject, if_neg notFunction]

/-- The object that is created runs the code in its scope. -/
theorem callable_withScript :
    ((m.withScript code scope).realm.object m.realm.nextObject).callable =
      some (.script ⟨code, scope⟩) := by
  have notPrototype : m.realm.nextObject ≠ (m.realm.addObject
      (Realm.functionRecord m.realm.ambiguityLevel (.script ⟨code, scope⟩))).nextObject := by
    simp [Realm.addObject, Realm.nextObject]
  show ((Realm.modifyObject (Realm.modifyObject (Realm.addObject (Realm.addObject ..) _) ..)
    ..).object m.realm.nextObject).callable = _
  rw [Realm.callable_modifyObject, Realm.callable_modifyObject, Realm.object_addObject,
    if_neg notPrototype, Realm.object_addObject, if_pos rfl]
  · rfl
  · exact fun _ => rfl
  · exact fun _ => rfl

/-- Variables are not changed by it. -/
theorem Variables.withScript {m : Machine} {e : EnvId} {value? : String → Option Value}
    (h : m.Variables e value?) (code : FunctionCode) (scope : EnvId) :
    (m.withScript code scope).Variables e value? := ⟨h.there, h.certain, h.store⟩

/-- One function is created, for the code and in the scope that are given. -/
theorem Creates.withScript (m : Machine) (code : FunctionCode) (e : EnvId) :
    Creates e [code] [m.realm.nextObject] m (m.withScript code e) where
  contexts := rfl
  diagnostics := rfl
  size := by
    rw [size_withScript]
    omega
  older _ := object_withScript m code e
  scripts := Array.toList_push
  created := by
    refine .cons ⟨⟨Nat.le_refl _, ?_⟩, callable_withScript m code e⟩ .nil
    rw [size_withScript]
    show m.realm.objects.size < _
    omega

end Machine

namespace Op

variable {s : Setup} {m : Machine} {e : EnvId} {value? : String → Option Value}

/-- A function declaration binds its name to the function that is created for it, whatever was bound
to the name before. -/
theorem enters_declareFunction (h : m.Variables e value?) (scope : m.lexicalEnv = e)
    (code : FunctionCode) :
    Enters e (fun name =>
        if name = code.name then some (.object m.realm.nextObject) else value? name)
      [code] [m.realm.nextObject] (declareFunction e code) s m := by
  have bound := enters_declareAndSet (s := s) (h.withScript code e) code.name
    (.object m.realm.nextObject)
  obtain ⟨n, ran, holds, creates⟩ := bound
  refine ⟨n, ?_, holds, (Machine.Creates.withScript m code e).trans creates⟩
  rw [declareFunction, bind_apply, get_apply]
  simp only [scope]
  rw [bind_apply, createScript_apply]
  exact ran

/-- The functions of a body are created in order, and the last one of a name is bound to it. -/
theorem enters_declareFunctions (h : m.Variables e value?) (scope : m.lexicalEnv = e)
    (codes : List FunctionCode) : ∃ functions,
    Enters e (fun name => ((functionEntries codes functions).reverse.lookup name).or (value? name))
      codes functions (codes.forM (declareFunction e)) s m := by
  induction codes generalizing m value? with
  | nil => exact ⟨[], .pure h⟩
  | cons code rest ih =>
    obtain ⟨n, ran, holds, creates⟩ := enters_declareFunction (s := s) h scope code
    -- The next function closes over the same environment, since no context was entered or left.
    have scope' : n.lexicalEnv = e := by
      rw [Machine.lexicalEnv, creates.contexts]
      exact scope
    obtain ⟨functions, k, ran', holds', creates'⟩ := ih holds scope'
    refine ⟨m.realm.nextObject :: functions, k, ?_, holds'.congr fun name => ?_,
      creates.trans creates'⟩
    · show (declareFunction e code >>= fun _ => rest.forM (declareFunction e)) s m = _
      rw [bind_apply, ran]
      exact ran'
    · show Option.or (((code.name, Value.object m.realm.nextObject) ::
        functionEntries rest functions).reverse.lookup name) _ = _
      rw [lookup_reverse_cons, Option.or_assoc]
      refine congrArg _ ?_
      split <;> rfl

/-- `arguments` is bound unless a parameter or a function has this name. -/
theorem enters_declareArguments (h : m.Variables e value?) (o : ObjectId) :
    Enters e (fun name => (value? name).or (if name = "arguments" then some (.object o) else none))
      [] [] (declareArguments e o) s m := by
  have looked : declareArguments e o s m = (if !m.realm.binds e "arguments" then
      (do
        createBinding e "arguments" false
        setBinding e "arguments" (.object o)) else Pure.pure ()) s m := rfl
  rw [Enters, looked, h.binds]
  -- a parameter, variable or function of that name hides the arguments
  cases bound : value? "arguments" with
  | none =>
    have first := enters_createBinding (s := s) h "arguments"
    refine (first.bind (y := fun _ => setBinding e "arguments" (.object o)) fun n holds _ =>
      enters_setBinding holds (if_pos rfl) (.object o)).congr fun other => ?_
    split
    next same => rw [same, bound, Option.none_or]
    next => rw [Option.or_none]
  | some v =>
    refine (Enters.pure h).congr fun other => ?_
    split
    next same => rw [same, bound, Option.some_or]
    next => rw [Option.or_none]

/-- The names that are not bound yet become variables that are undefined. -/
theorem enters_declareAll (h : m.Variables e value?) (names : List String) :
    Enters e (fun name => (value? name).or (if name ∈ names then some .undefined else none)) [] []
      (declareAll e names) s m := by
  induction names generalizing m value? with
  | nil => exact (Enters.pure h).congr fun name => by rw [if_neg List.not_mem_nil, Option.or_none]
  | cons first rest ih =>
    have both := (enters_declare (s := s) h first).bind (y := fun _ => declareAll e rest)
      fun n holds _ => ih holds
    refine both.congr fun name => ?_
    rw [Option.or_assoc]
    refine congrArg _ ?_
    by_cases same : name = first
    · simp [same]
    · simp [same]

/-- What a body declares comes last of what is bound, apart from its functions. -/
theorem enters_instantiate (h : m.Variables e value?) (scope : m.lexicalEnv = e)
    (body : List Statement) (o : ObjectId) : ∃ functions,
    Enters e (fun name => ((((functionEntries (hoistedFunctions body) functions).reverse.lookup
      name).or (value? name)).or (if name = "arguments" then some (.object o) else none)).or
        (if name ∈ varNames body then some .undefined else none))
      (hoistedFunctions body) functions (instantiate e body (some o)) s m := by
  obtain ⟨functions, declared⟩ := enters_declareFunctions (s := s) h scope (hoistedFunctions body)
  have rest (n : Machine) (holds : n.Variables e fun name =>
      ((functionEntries (hoistedFunctions body) functions).reverse.lookup name).or (value? name)) :=
    (enters_declareArguments (s := s) holds o).bind (y := fun _ => declareAll e (varNames body))
      fun n holds _ => enters_declareAll holds (varNames body)
  have all := declared.bind (y := fun _ => do
    declareArguments e o
    declareAll e (varNames body)) fun n holds _ => rest n holds
  simp only [List.append_nil] at all
  exact ⟨functions, all⟩

end Op

/-! ## The entry -/

/-- A call runs in a context and an environment of its own. -/
def Machine.inCall (m : Machine) (f : Option ObjectId) (scope : EnvId) (receiver : Value) :
    Machine :=
  (m.addEnvironment { Environment.fresh (some scope) with
    createdLevel := m.realm.ambiguityLevel }).pushContext
      (.enter f m.realm.nextEnvironment receiver)

/-- The environment of a call holds nothing at first. -/
theorem Machine.variables_inCall (m : Machine) (f : Option ObjectId) (scope : EnvId)
    (receiver : Value) :
    (m.inCall f scope receiver).Variables m.realm.nextEnvironment fun _ => none := by
  have new : (m.inCall f scope receiver).realm.environment m.realm.nextEnvironment =
      { Environment.fresh (some scope) with createdLevel := m.realm.ambiguityLevel } := by
    show (m.realm.addEnvironment _).environment _ = _
    rw [Realm.environment_addEnvironment, if_pos rfl]
  refine ⟨?_, ?_, {}, ?_, fun _ => rfl⟩
  · exact Nat.lt_of_lt_of_eq (Nat.lt_succ_self _) (Array.size_push _).symm
  · rw [new]
    exact Nat.le_of_eq ((Nat.zero_add _).trans m.synced.symm)
  · rw [new]
    rfl

/-- The names that an entry binds are those of the parameters, the functions, `arguments` and the
variables. -/
theorem FunctionCode.isSome_entry (code : FunctionCode) (arguments : List Value) (o : ObjectId)
    {functions : List ObjectId} (all : functions.length = (hoistedFunctions code.body).length)
    (name : String) : (code.entry arguments o functions name).isSome = true ↔
      name ∈ code.parameters.map Identifier.name ∨
        name ∈ (hoistedFunctions code.body).map FunctionCode.name ∨
        name = "arguments" ∨ name ∈ varNames code.body := by
  rw [entry, Option.isSome_or, Option.isSome_or, Option.isSome_or]
  simp only [Bool.or_eq_true, isSome_lookup_reverse, names_parameterEntries,
    names_functionEntries all, Option.isSome_ite]
  tauto

/-- **A function is entered with exactly the names that it binds**: its parameters, its function
declarations, `arguments` and its variables. No error occurs, whatever the ambiguity level, and each
name has the value that the entry of the function gives it. -/
theorem Eval.enterBody_entry (s : Setup) (m : Machine) (f : Option ObjectId) (scope : EnvId)
    (receiver : Value) (code : FunctionCode) (arguments : List Value) :
    let e := m.realm.nextEnvironment
    let k := m.inCall f scope receiver
    let o := k.realm.nextObject
    let record := Realm.argumentsRecord k.realm.ambiguityLevel arguments
    ∃ functions n,
      (do
        Op.bindParameters e code.parameters arguments
        Op.instantiate e code.body (some o) : Op Unit) s (k.addObject record) = .ok () n ∧
      enterBody code e arguments s k = .ok () n ∧
      (∀ name, n.realm.binds e name = true ↔
        name ∈ code.parameters.map Identifier.name ∨
          name ∈ (hoistedFunctions code.body).map FunctionCode.name ∨
          name = "arguments" ∨ name ∈ varNames code.body) ∧
      (∀ name v, code.entry arguments o functions name = some v →
        Op.getBinding e name s n = .ok v n) ∧
      n.realm.object o = record ∧
      n.scripts.toList = m.scripts.toList ++ functions ∧
      List.Forall₂ (fun declared g => m.realm.objects.size < g.index ∧
        (n.realm.object g).callable = some (.script ⟨declared, e⟩))
          (hoistedFunctions code.body) functions := by
  intro e k o record
  -- The `arguments` object is created before anything is bound, and bound only in the third pass.
  have start : (k.addObject record).Variables e fun _ => none :=
    let h := m.variables_inCall f scope receiver
    ⟨h.there, h.certain, h.store⟩
  have bound := Op.enters_bindParameters (s := s) start code.parameters arguments
  obtain ⟨i, first, holds, entered⟩ := bound
  have inside : i.lexicalEnv = e := by
    rw [Machine.lexicalEnv, entered.contexts]
    rfl
  obtain ⟨functions, n, last, holds', creates⟩ :=
    Op.enters_instantiate (s := s) holds inside code.body o
  have ran : (do
      Op.bindParameters e code.parameters arguments
      Op.instantiate e code.body (some o) : Op Unit) s (k.addObject record) = .ok () n := by
    rw [bind_apply, first]
    exact last
  have entry : n.Variables e (code.entry arguments o functions) := holds'.congr fun name => by
    rw [Option.or_none, FunctionCode.entry, ← Option.or_assoc]
  have both := entered.trans creates
  have there : o.index < (k.addObject record).realm.objects.size :=
    Nat.lt_of_lt_of_eq (Nat.lt_succ_self _) (Array.size_push _).symm
  refine ⟨functions, n, ran, ?_, fun name => ?_, fun name v => (entry.getBinding · s), ?_,
    both.scripts, ?_⟩
  · have attempted : (Op.attempt (do
        Op.bindParameters e code.parameters arguments
        Op.instantiate e code.body (some o)) : Run _) s (k.addObject record) = .ok (.ok ()) n := by
      rw [Op.attempt, ran]
    show (Op.attempt _ >>= _ : Run Unit) s (k.addObject record) = _
    rw [bind_apply, attempted]
    rfl
  · rw [entry.binds]
    exact code.isSome_entry arguments o both.created.length_eq.symm name
  · rw [both.older o there]
    show (Realm.addObject _ _).object _ = _
    rw [Realm.object_addObject, if_pos rfl]
  · exact both.created.imp fun declared g made => ⟨Nat.lt_of_lt_of_le there made.1.1, made.2⟩

end AbstractScript
