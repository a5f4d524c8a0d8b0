import AbstractScript.Evaluation.Function
import AbstractScript.Proofs.LawfulNatives

/-!
# Functions and calls are lawful

A rule costs one step more than what it does between its events. An ambiguous block costs what is
done in it. A call of a function of the program costs what its body costs, in a world with one more
context; whether there is room for the context is known from the number of contexts that there are.
-/
namespace AbstractScript

open Eval World

variable {L : Law} {w : World} {c : Nat}

/-! ## Rules in general -/

namespace Eval

/-- A mark is a number and costs nothing. -/
theorem lawful_mark {ε : Type} : (mark : Eval ε Nat).Lawful L c w := .get_bind fun _ => .free _

/-- To look for exits since a mark costs nothing. -/
theorem lawful_hasExitsSince {ε : Type} (mark : Nat) :
    (hasExitsSince mark : Eval ε Bool).Lawful L c w := .get_bind fun _ => .free _

/-- A completion may be noted if what it carries is tracked. -/
theorem lawful_note {ε : Type} {completion : Completion} (held : w.Holds completion) :
    (note completion : Eval ε Unit).Lawful L c w :=
  .modify fun _ valid grows => valid.noteExit (grows.lift held)

/-- The exits that are claimed were held by the machine, and the others still are. -/
theorem lawful_claim {ε : Type} (mark : Nat) (p : Completion → Bool) :
    (claim mark p : Eval ε (List PossibleExit)).Lawful L c w := by
  refine .modifyGet fun m valid _ => ?_
  have dropped : m.Reaches L c (m.dropClaimed mark p) := valid.dropClaimed mark p
  refine ⟨dropped, dropped.grows.lift fun e he => ?_⟩
  exact valid.holds_exitsSince mark e ((List.mem_filter.1 he).1)

/-- To take the labels of a statement costs nothing. -/
theorem lawful_takeLabels : takeLabels.Lawful L c w :=
  .modifyGet fun _ valid _ => ⟨Machine.Unmoved.reaches ⟨rfl, rfl, rfl⟩ valid, Unlocated.holds _ _⟩

/-- What may or may not happen gives no value that could be tracked. -/
theorem holds_possibly {completion : Completion} : w.Holds (possibly completion) := by
  unfold possibly
  split <;> trivial

/-- Something that may or may not happen costs what it costs to evaluate it. -/
theorem lawful_ambiguously {ε : Type} (span : Span) {x : Eval ε Completion}
    (hx : x.Lawful L c w) : (ambiguously span x).Lawful L c w := by
  have body : Eval.Lawful L c w (do
      let completion ← x
      note completion
      return possibly completion : Eval ε Completion) := by
    refine hx.bind_free fun _ completion held => ?_
    exact .bind (lawful_note held) fun _ _ _ => .pure holds_possibly
  have block : Eval.Lawful L c w (inBlock span (do
      let completion ← x
      note completion
      return possibly completion : Eval ε Completion)) := by
    refine .setup_bind (.bind (.of_unmoved (.modify fun _ => ⟨rfl, rfl, rfl⟩)) ?_)
    intro _ grows _ _
    refine .get_bind fun m => .bind (.modify fun _ valid _ => valid.enterBlock) fun more _ _ => ?_
    have body := body.grow (grows.trans more)
    refine ⟨fun n valid grows => (body.run n valid grows).ensuring fun k reached => ?_⟩
    exact reached.valid.exitBlock _
  exact ⟨fun m valid grows => (block.run m valid grows).recorded⟩

/-- A rule costs one step more than what is done between its events. -/
theorem lawful_bracket {α : Type} [Located α] (kind : NodeKind) (span : Span)
    (outcome : α → Completion) {body : Run α} (h : body.Lawful L c w) :
    (bracket kind span outcome body).Lawful L (c + 1) w := by
  refine .setup_bind (.get_bind fun m => Lawful.mono (c := 1 + c) ?_ (by omega))
  refine .bind_add (.modify fun _ valid _ => valid.pushFrame _) fun grows _ _ => ?_
  refine .bind (.of_unmoved (emit_unmoved _)) fun more _ _ => ?_
  have framed : (Eval.ensuring body Machine.popFrame).Lawful L c w :=
    ⟨fun n valid grows => (h.run n valid grows).ensuring fun k reached =>
      (Machine.Valid.unmoved_popFrame k).reaches reached.valid⟩
  refine .bind_free (framed.grow (grows.trans more)) fun _ a held => ?_
  refine .get_bind fun _ => .bind (.of_unmoved (emit_unmoved _)) fun grows _ _ => ?_
  exact .pure (grows.lift held)

/-- The handler of a foreign node costs nothing beyond the events around it. -/
theorem lawful_onForeignNode (kind : NodeKind) (span : Span) :
    (Rule.onForeignNode kind span).Lawful L c w := by
  unfold Rule.onForeignNode
  split
  · exact .pure trivial
  · exact .pure trivial
  · exact .get_bind_at fun _ valid _ => .pure valid valid.holds_this
  · exact Rule.Lawful.complete (r := Rule.malformed _ _) (.lift (.throw _))

/-- A node costs one step more than what the core rule of its kind does with it. -/
theorem lawful_ruled (kind : NodeKind) (span : Span) {core : Run Completion}
    (h : core.Lawful L c w) : (ruled kind span core).Lawful L (c + 1) w := by
  refine .setup_bind ?_
  split
  · refine lawful_bracket kind span id ?_
    unfold Handler.apply
    split
    · exact .pure trivial
    · split
      · exact h
      · exact lawful_onForeignNode ..
  · exact .throw _

end Eval

namespace Rule

/-- A name that is looked up refers to an environment that is tracked. -/
theorem lawful_resolve (name : String) : (resolve name).Lawful L c w :=
  .get_bind_at fun _ valid _ =>
    .of_ok rfl (.refl valid) (valid.holds_resolve valid.holds_lexicalEnv name)

/-- A reference costs one step more than what is done to find it. -/
theorem lawful_referring (kind : NodeKind) (span : Span) {r : Rule Reference}
    (h : r.Lawful L c w) : (referring kind span r).Lawful L (c + 1) w :=
  lawful_bracket kind span referenceOutcome h

/-- A malformed node throws without a value of its own. -/
theorem lawful_malformed {α : Type} [Located α] (kind : NodeKind) (span : Span) :
    (malformed kind span : Rule α).Lawful L c w := .lift (.throw _)

end Rule

/-! ## Functions of the program -/

/-- A property that is new is stored in an object that can get more. -/
theorem ObjectRecord.Lasting.store_new {r : ObjectRecord} {name : String} {p : Descriptor}
    (new : r.own? name = none) (more : r.extensible = true) : r.Lasting (r.store name p) :=
  .store (fun _ => more) fun d own => by
    rw [new] at own
    cases own

namespace Eval

variable {ε : Type}

/-- A function that is created holds its closure, or what its native holds. -/
theorem lawful_createFunction {callable : Callable} (held : w.Holds callable) :
    (createFunction callable : Eval ε ObjectId).Lawful L c w :=
  lawful_create
    (fun grows intrinsic _ => ⟨intrinsic .functionPrototype, holds_empty, trivial, grows.lift held⟩)
    fun _ array => nomatch array

/-- A created object is new, and the others stay as they are. -/
theorem create_ok {record : Nat → ObjectRecord} {s : Setup} {m n : Machine} {o : ObjectId}
    (run : (create record : Eval ε ObjectId) s m = .ok o n) :
    n.realm.object o = record m.realm.ambiguityLevel ∧
      (∀ p, p ≠ o → n.realm.object p = m.realm.object p) ∧
      m.realm.objects.size = o.index ∧ o.index < n.realm.objects.size := by
  cases run
  refine ⟨?_, fun p ne => ?_, rfl, ?_⟩
  · exact (Realm.object_addObject ..).trans (if_pos rfl)
  · exact (Realm.object_addObject ..).trans (if_neg ne)
  · simp [Machine.addObject, Realm.addObject, Realm.nextObject]

/-- A change of an object leaves the others as they are. -/
theorem modifyObject_ok {o p : ObjectId} {f : ObjectRecord → ObjectRecord} {s : Setup}
    {m n : Machine} {u : Unit} (run : (modifyObject o f : Eval ε Unit) s m = .ok u n)
    (ne : p ≠ o) : n.realm.object p = m.realm.object p := by
  cases run
  exact (Realm.object_modifyObject ..).trans (if_neg fun h => ne h.1)

/-- A function and its prototype are new objects, so that properties can be stored in them. -/
theorem lawful_createScript {code : FunctionCode} {scope : EnvId} (hcode : w.Holds code)
    (hscope : w.Holds scope) : (createScript code scope : Eval ε ObjectId).Lawful L c w := by
  refine ⟨fun m valid grows => ?_⟩
  have closure : (m.world L).Holds (Callable.script ⟨code, scope⟩) :=
    ⟨grows.lift hcode, grows.lift hscope⟩
  refine .bind ((lawful_createFunction closure).at_machine valid) fun f n run reached hf => ?_
  obtain ⟨function, -, -, before⟩ := create_ok run
  refine .bind (lawful_createPlain.at_machine reached.valid) fun p k run reached hp => ?_
  obtain ⟨plain, kept, after, -⟩ := create_ok run
  -- The second object is not the first one, so that both still have no properties.
  have ne : f ≠ p := by
    rintro rfl
    omega
  have hf := reached.grows.lift hf
  refine .bind (.modifyObject reached.valid ?_ fun _ => ?_) fun _ l run stored _ => ?_
  · refine ObjectRecord.Held.store (ObjectRecord.Held.store (reached.valid.object f) ?_ _) ?_ _
    · exact (trivial : World.Holds _ (Value.nat _))
    · exact hp
  · rw [kept f ne, function]
    refine (ObjectRecord.Lasting.store_new rfl rfl).trans (.store_new ?_ rfl)
    rw [ObjectRecord.own?_store, if_neg (by decide)]
    rfl
  · have hf := stored.grows.lift hf
    refine .bind (.modifyObject stored.valid ?_ fun _ => ?_) fun _ l _ linked _ => ?_
    · exact ObjectRecord.Held.store (p := .hidden (.object f)) (stored.valid.object p) hf _
    · rw [modifyObject_ok run ne.symm, plain]
      exact .store_new rfl rfl
    · have hf := linked.grows.lift hf
      refine .bind (.modify (linked.valid.addScript hf)) fun _ _ _ added _ => ?_
      exact .pure added.valid (added.grows.lift hf)

/-- A named function is created in an environment that binds its name. -/
theorem lawful_createFunctionValue {code : FunctionCode} (hcode : w.Holds code) :
    (createFunctionValue code : Eval ε ObjectId).Lawful L c w := by
  refine .get_bind_at fun m valid grows => Lawful.at_machine ?_ valid
  have hcode := grows.lift hcode
  have scope := valid.holds_lexicalEnv
  split
  · exact lawful_createScript hcode scope
  next id _ =>
    have fresh : (m.world L).Holds (Environment.fresh (some m.lexicalEnv)) := ⟨holds_empty, scope⟩
    refine .bind (lawful_createEnvironment fresh) fun grows e he => ?_
    refine .bind (lawful_createScript (grows.lift hcode) he) fun _ f hf => ?_
    refine .bind (Op.lawful_modifyBindings e fun grows b hb => ?_) fun grows _ _ => ?_
    · exact Bindings.holds_give (Bindings.holds_createImmutable hb id.name) (grows.lift hf) _ id.name
    · exact .pure (grows.lift hf)

end Eval

/-! ## Declarations -/

namespace Op

/-- To declare a name costs nothing. -/
theorem lawful_declare (e : EnvId) (name : String) : (declare e name).Lawful L c w :=
  .get_bind fun _ => .when fun _ => lawful_createBinding ..

/-- A declared function holds its code. -/
theorem lawful_declareFunction {e : EnvId} {code : FunctionCode} (hcode : w.Holds code) :
    (declareFunction e code).Lawful L c w := by
  refine .get_bind_at fun m valid grows => Lawful.at_machine ?_ valid
  refine .bind (lawful_createScript (grows.lift hcode) valid.holds_lexicalEnv) fun _ f hf => ?_
  exact .bind (lawful_declare e code.name) fun grows _ _ =>
    lawful_setBinding e (v := .object f) (grows.lift hf)

/-- To declare the arguments binds an object that is tracked. -/
theorem lawful_declareArguments {e : EnvId} {o : ObjectId} (ho : w.Holds o) :
    (declareArguments e o).Lawful L c w :=
  .get_bind fun _ => .when fun _ => .bind (lawful_createBinding ..) fun grows _ _ =>
    lawful_setBinding e (v := .object o) (grows.lift ho)

/-- What a body declares is bound if the code of its functions may be evaluated. -/
theorem lawful_instantiate {e : EnvId} {body : List Statement} {arguments : Option ObjectId}
    (hbody : w.Holds (hoistedFunctions body)) (harguments : w.Holds arguments) :
    (instantiate e body arguments).Lawful L c w := by
  have declared {w : World} : (declareAll e (varNames body)).Lawful L c w :=
    .forM (Unlocated.holds _ _) fun _ name _ _ => lawful_declare e name
  refine .bind (.forM hbody fun _ _ _ hcode => lawful_declareFunction hcode) fun grows _ _ => ?_
  cases arguments with
  | none => exact declared
  | some o =>
    have ho : w.Holds o := harguments
    exact .bind (lawful_declareArguments (grows.lift ho)) fun _ _ _ => declared

/-- Parameters are bound to arguments that are tracked, or to undefined. -/
theorem lawful_bindParameters {e : EnvId} (parameters : List Identifier) {arguments : List Value}
    (harguments : w.Holds arguments) : (bindParameters e parameters arguments).Lawful L c w := by
  induction parameters generalizing arguments w c with
  | nil => exact .pure trivial
  | cons p rest ih =>
    refine .bind (lawful_declare e p.name) fun grows _ _ => ?_
    have harguments := grows.lift harguments
    refine .bind (lawful_setBinding e ?_) fun grows _ _ => ?_
    · cases arguments with
      | nil => trivial
      | cons v _ => exact harguments v List.mem_cons_self
    · exact ih fun v hv => grows.lift (harguments v (List.mem_of_mem_tail hv))

end Op

/-! ## Calls -/

/-- The world inside a call has one more context. -/
def World.entered (w : World) : World := { w with contexts := w.contexts + 1 }

/-- The count of contexts in a call is that outside and one more. -/
theorem World.contexts_entered (w : World) : w.entered.contexts = w.contexts + 1 := rfl

/-- A world that grows around a call grows in it. -/
theorem World.Grows.entered {w w' : World} (h : w.Grows w') : w.entered.Grows w'.entered :=
  ⟨⟨h.object, h.environment, h.code⟩, congrArg (· + 1) h.contexts⟩

/-- Calls of functions of the program are lawful. -/
structure ScriptCall.Lawful (L : Law) (cost : Nat) (w : World) (call : ScriptCall) : Prop where
  run : ∀ {w' f closure this arguments}, w.Grows w' → w'.Holds f → w'.Holds closure →
    w'.Holds this → w'.Holds arguments → (call f closure this arguments).Lawful L cost w'

/-- Calls stay lawful in a world that has grown. -/
theorem ScriptCall.Lawful.grow {w' : World} {call : ScriptCall} (h : call.Lawful L c w)
    (grows : w.Grows w') : call.Lawful L c w' := ⟨fun more => h.run (grows.trans more)⟩

namespace Eval

variable {this : Value} {arguments : List Value}

/-- The receiver of a call is given, is the global object or stands for a primitive. -/
theorem lawful_scriptReceiver (hthis : w.Holds this) : (scriptReceiver this).Lawful L c w := by
  unfold scriptReceiver
  split
  · exact ⟨fun _ valid _ => .pure valid (valid.intrinsic .global)⟩
  · exact ⟨fun _ valid _ => .pure valid (valid.intrinsic .global)⟩
  · exact .pure trivial
  · exact .pure hthis
  · refine .bind (.attempt (Op.lawful_toObject? hthis)) fun _ o ho => ?_
    split
    next o => exact .pure ho
    next => exact .pure trivial

/-- To enter a body creates the arguments, binds the parameters and declares what is hoisted. -/
theorem lawful_enterBody {code : FunctionCode} {e : EnvId}
    (hbody : w.Holds (hoistedFunctions code.body)) (harguments : w.Holds arguments) :
    (enterBody code e arguments).Lawful L c w := by
  have created : (create (Realm.argumentsRecord · arguments) : Run ObjectId).Lawful L 0 w := by
    refine lawful_create (fun grows intrinsic _ => ?_) fun _ array => nomatch array
    refine ⟨intrinsic .objectPrototype, holds_insert (holds_indexed fun d hd => ?_) ?_, trivial,
      trivial⟩
    · obtain ⟨v, hv, rfl⟩ := List.mem_map.1 hd
      exact grows.lift (harguments v hv)
    · exact (trivial : World.Holds _ (Value.nat _))
  refine .bind created fun grows o ho => .bind (.attempt ?_) fun _ result _ => ?_
  · exact .bind (Op.lawful_bindParameters _ (grows.lift harguments)) fun more _ _ =>
      Op.lawful_instantiate ((grows.trans more).lift hbody) (more.lift ho)
  · split
    · exact .pure trivial
    · exact .of_unmoved (reportError_unmoved _)

/-- What a call gives is what the body gives, or unknown. -/
theorem holds_callResult {completion : Completion} (h : w.Holds completion) (returned : Bool) :
    w.Holds (callResult completion returned) := by
  unfold callResult
  split
  · exact h
  · split
    · trivial
    · split
      · exact Completion.holds_getValue h
      · trivial

/-- A context is left with as many contexts as before it was entered. -/
theorem reaches_popContext {m n : Machine} {context : Context}
    (inside : (m.pushContext context).Reaches L c n) : m.Reaches L c n.popContext where
  valid := by
    have sound := inside.valid.now_sound
    refine inside.valid.withContexts (ContextStack.holds_pop sound.contexts) ?_
    have fewer : n.contexts.pop.size ≤ n.contexts.size := by
      simp [ContextStack.pop, ContextStack.size, List.length_tail]
    exact Nat.le_trans fewer sound.depth
  course _ _ hxy := .inl (inside.course _ _ (.inl hxy))
  precedes := by
    have before : m.moment.Precedes L (m.pushContext context).moment := .of_realm rfl rfl
    have behind : n.moment.Precedes L n.popContext.moment := .of_realm rfl rfl
    exact before.trans (inside.precedes.trans behind)
  contexts := by
    have more : n.contexts.size = m.contexts.size + 1 := inside.contexts
    show n.contexts.contexts.tail.length = m.contexts.size
    rw [List.length_tail]
    exact Nat.sub_eq_of_eq_add more
  dispatched := inside.dispatched

/-- What is done in a new context is lawful if there is room for the context. -/
theorem lawful_inContext {α : Type} [Located α] {context : Context} {x : Run α}
    (room : w.contexts < L.limit) (held : w.Holds context)
    (hx : x.Lawful L c w.entered) : (inContext context x).Lawful L c w := by
  refine ⟨fun m valid grows => ?_⟩
  have pushed : (m.pushContext context).Valid L := by
    refine valid.withContexts (ContextStack.holds_push valid.now_sound.contexts (grows.lift held)) ?_
    have same : m.contexts.size = w.contexts := grows.contexts
    rw [ContextStack.size_push, same]
    exact room
  have inside := hx.run (m.pushContext context) pushed grows.entered
  -- The context is left whether the computation succeeds or fails.
  have left {n : Machine} (reached : (m.pushContext context).Reaches L c n) :=
    reaches_popContext reached
  have claimed {n : Machine} (reached : (m.pushContext context).Reaches L c n) :
      n.popContext.Reaches L 0 (n.popContext.dropClaimed m.exits.size fun c => !c.isThrow) :=
    (left reached).valid.dropClaimed _ _
  refine ⟨?_, fun a n run => ?_⟩
  · unfold inContext
    rw [after_bind_ok (x := mark) (a := m.exits.size) (n := m) rfl,
      after_bind_ok (modify_apply ..), after_ensuring]
    exact (left inside.reaches).trans (claimed inside.reaches)
  · obtain ⟨_, _, marked, run⟩ := bind_eq_ok_iff.1 run
    cases marked
    obtain ⟨_, _, entered, run⟩ := bind_eq_ok_iff.1 run
    cases entered
    rw [ensuring_apply] at run
    cases inner : x L.setup (m.pushContext context) with
    | ok b k =>
      rw [inner] at run
      cases run
      have reached := inside.reaches_ok inner
      have popped : k.moment.Precedes L k.popContext.moment := .of_realm rfl rfl
      exact (popped.trans (claimed reached).precedes).le.lift (inside.holds _ k inner)
    | error e k =>
      rw [inner] at run
      cases run

/-- A call costs what the body of the function costs. -/
theorem lawful_callScript {body : Run Completion} {f : ObjectId} {closure : Closure}
    (room : w.contexts < L.limit)
    (declared : w.Holds (hoistedFunctions closure.code.body)) (hf : w.Holds f)
    (hclosure : w.Holds closure) (hthis : w.Holds this) (harguments : w.Holds arguments)
    (hbody : body.Lawful L c w.entered) :
    (callScript body f closure this arguments).Lawful L c w := by
  refine .bind (lawful_scriptReceiver hthis) fun grows receiver hreceiver => ?_
  have fresh : World.Holds _ (Environment.fresh (some closure.scope)) :=
    ⟨holds_empty, grows.lift hclosure.2⟩
  refine .bind (lawful_createEnvironment fresh) fun more e he => ?_
  have grows := grows.trans more
  -- the context of the call refers to what has been created for it
  have context : World.Holds _ (Context.enter (some f) e receiver) :=
    ⟨grows.lift hf, he, he, more.lift hreceiver⟩
  refine lawful_inContext (grows.contexts ▸ room) context ?_
  refine .bind (lawful_enterBody ?_ ?_) fun inside _ _ => ?_
  · exact grows.entered.lift (declared : w.entered.Holds (hoistedFunctions closure.code.body))
  · exact grows.entered.lift (harguments : w.entered.Holds arguments)
  · have hbody := hbody.grow (grows.entered.trans inside)
    refine hbody.bind_free fun _ completion held => ?_
    exact .get_bind fun _ => .pure (holds_callResult held _)

/-- A fault of an operation becomes a completion, which holds nothing new. -/
theorem lawful_recover {op : Op Completion} (h : op.Lawful L c w) : (recover op).Lawful L c w :=
  Rule.Lawful.complete (.native h)

/-- To mark a function that is tracked costs nothing. -/
theorem lawful_markInvoked {f : ObjectId} (hf : w.Holds f) : (markInvoked f).Lawful L c w :=
  .modify fun _ valid grows => valid.markInvoked (grows.lift hf)

/-- What a native function gives is the value of a completion. -/
theorem lawful_runNative {native : Native} (hnative : w.Holds native) (hthis : w.Holds this)
    (harguments : w.Holds arguments) :
    (recover (Completion.normal <$> native.call this arguments)).Lawful L c w :=
  lawful_recover <| .map
    ((LawfulNatives.call hnative hthis harguments).mono (Nat.zero_le c)) fun _ _ hv => hv

/-- A call costs what a call of a function of the program costs; natives cost nothing. -/
theorem lawful_callFunction {call : ScriptCall} {f : ObjectId} (calls : call.Lawful L c w)
    (hf : w.Holds f) (hthis : w.Holds this) (harguments : w.Holds arguments) :
    (callFunction call f this arguments).Lawful L c w := by
  refine .bind (lawful_markInvoked hf) fun grows _ _ => .bind (.object f) fun more record hr => ?_
  have grows := grows.trans more
  have hthis := grows.lift hthis
  have harguments := grows.lift harguments
  split
  next name native construct found =>
    split
    · exact .pure trivial
    · exact lawful_runNative (hr.callable.of_some found).1 hthis harguments
  next => exact lawful_recover (.throw _)
  next closure found =>
    exact calls.run grows (grows.lift hf) (hr.callable.of_some found) hthis harguments
  next => exact lawful_recover (.throw _)

/-- The prototype of what is constructed is the property of the function, or the intrinsic object.
-/
theorem lawful_instancePrototype {f : ObjectId} (hf : w.Holds f) :
    (instancePrototype f).Lawful L c w := by
  refine .bind (Op.lawful_get hf) fun _ v hv => ?_
  split
  next p => exact .pure hv
  next => exact ⟨fun _ valid _ => .pure valid (valid.intrinsic .objectPrototype)⟩

/-- What a construction gives is what the body gives, or the new object. -/
theorem holds_constructResult {o : ObjectId} {completion : Completion} (ho : w.Holds o)
    (h : w.Holds completion) : w.Holds (constructResult o completion) := by
  unfold constructResult
  split
  · exact h
  · split
    · exact Completion.holds_getValue h
    · exact ho

/-- A construction costs what a call costs. -/
theorem lawful_construct {call : ScriptCall} {f : ObjectId} (calls : call.Lawful L c w)
    (hf : w.Holds f) (harguments : w.Holds arguments) :
    (construct call f arguments).Lawful L c w := by
  refine .bind (lawful_markInvoked hf) fun grows _ _ => .bind (.object f) fun more record hr => ?_
  have grows := grows.trans more
  have harguments := grows.lift harguments
  have hf := grows.lift hf
  split
  next name call native found =>
    split
    · exact .pure trivial
    · exact lawful_runNative (hr.callable.of_some found).2 trivial harguments
  next closure found =>
    -- the function is called with a new object
    refine Rule.Lawful.complete (.bind (.native (lawful_instancePrototype hf)) fun more p hp => ?_)
    have grows := grows.trans more
    have hf := more.lift hf
    have hclosure := more.lift (hr.callable.of_some found)
    have harguments := more.lift harguments
    refine .bind (.lift (lawful_createObject hp nofun)) fun more o ho => ?_
    have hthis : World.Holds _ (Value.object o) := ho
    have called := calls.run (grows.trans more) (more.lift hf) (more.lift hclosure) hthis
      (more.lift harguments)
    refine .bind_free (.lift called) fun grows completion held => ?_
    exact .pure (holds_constructResult (grows.lift ho) held)
  next => exact lawful_recover (.throw _)

end Eval

end AbstractScript
