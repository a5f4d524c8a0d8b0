import AbstractScript.Proofs.CoreRealm
import AbstractScript.Proofs.Installation
import AbstractScript.Proofs.LawfulTree

/-!
# Sound beginnings

With the core objects every run begins in a sound moment (`Machine.sound_start_core`): what the core
objects refer to is checked once. With other objects it does so if references are not asked to be in
range (`Analyzer.sound_start`), since no function of the program is there yet. From its beginning on
a run is lawful, which bounds the rules it begins (`Analyzer.dispatched_le`) and says what its objects
keep (`Analyzer.object_lasting`).
-/
namespace AbstractScript

/-! ## Runs are lawful

The code that a run may evaluate is that of the functions written in the program. If the moment in
which a run begins is sound, the run is lawful at the cost of the program, and of the visits to the
functions that were never called, if they are visited (`Analyzer.reaches`).
-/

section

open Eval World

variable {L : Law} {w : World} {c : Nat} {codes : List FunctionCode}

namespace Eval

/-- The number of contexts that can still be added is known from the number of those there are. -/
theorem lawful_depthLeft_bind {α : Type} [Located α] {f : Nat → Run α}
    (hf : w.contexts ≤ L.limit →
      (f (L.setup.options.maxRecursionLimit - w.contexts)).Lawful L c w) :
    (depthLeft >>= f).Lawful L c w := by
  refine ⟨fun m valid grows => ?_⟩
  have size : m.contexts.size = w.contexts := grows.contexts
  have lawful := (hf (size ▸ valid.now_sound.depth)).run m valid grows
  rw [← size] at lawful
  exact ⟨lawful.reaches, lawful.holds⟩

/-- The cost of a call at the outermost level of a world. -/
def outerCost (L : Law) (codes : List FunctionCode) (w : World) : Nat :=
  callCost L.loops codes (L.setup.options.maxRecursionLimit - w.contexts)

theorem outerCost_grow {w' : World} (grows : w.Grows w') :
    outerCost L codes w' = outerCost L codes w := by
  rw [outerCost, outerCost, grows.contexts]

theorem lawful_outermost (code : L.code = (· ∈ codes)) (closed : Closed codes)
    (depth : w.contexts ≤ L.limit) :
    (callWithin (L.setup.options.maxRecursionLimit - w.contexts)).Lawful L (outerCost L codes w) w :=
  lawful_callWithin code closed _ (by unfold Law.limit at depth ⊢; omega)

/-! ## The program -/

theorem lawful_enterProgram {body : List Statement} (h : w.Holds (hoistedFunctions body)) :
    (enterProgram body).Lawful L c w := by
  refine .get_bind fun m => .bind (.attempt (Op.lawful_instantiate h trivial)) fun _ result _ => ?_
  split
  · exact .pure trivial
  · exact .of_unmoved (reportError_unmoved _)

theorem lawful_runProgram (code : L.code = (· ∈ codes)) (closed : Closed codes)
    {body : List Statement} (h : w.Holds (bodyFunctions body)) :
    (runProgram body).Lawful L (bodyCost L.loops (outerCost L codes w) body) w := by
  have declared : w.Holds (hoistedFunctions body) := fun code hcode =>
    h code (hoistedFunctions_subset body hcode)
  refine .bind (lawful_enterProgram declared) fun grows _ _ => ?_
  -- The depth is read after the declarations, which add no context.
  rw [← outerCost_grow grows]
  refine lawful_depthLeft_bind fun depth => ?_
  have steps := Statement.lawful_steps (lawful_outermost code closed depth) body (grows.lift h)
  refine .bind_free steps.fresh fun _ completion held => ?_
  split
  · refine .get_bind fun _ => .bind (.of_unmoved (reportHere_unmoved ..)) fun more _ _ => ?_
    exact .pure (more.lift held)
  · exact .pure held

/-! ## After the program -/

theorem lawful_reportPossibleThrow (e : PossibleExit) :
    (reportPossibleThrow e).Lawful L c w := by
  refine .when fun _ => .get_bind fun _ => ?_
  exact .of_unmoved (report_unmoved _)

theorem lawful_reportPossibleThrows : reportPossibleThrows.Lawful L c w := by
  refine .bind (.modifyGet fun m valid _ => ?_) fun _ exits held => ?_
  · have dropped : m.Reaches L 0 m.dropExits := valid.dropExits
    exact ⟨dropped, dropped.grows.lift valid.now_sound.exits⟩
  · refine .forM (fun e he => held e (Array.mem_toList_iff.1 he)) fun _ e _ _ => ?_
    exact lawful_reportPossibleThrow e

theorem lawful_visitFunction (code : L.code = (· ∈ codes)) (closed : Closed codes) {f : ObjectId}
    (hf : w.Holds f) : (visitFunction f).Lawful L (outerCost L codes w) w := by
  refine .get_bind fun m => ?_
  split
  · exact .pure trivial
  · refine .bind (.object f) fun grows record _ => ?_
    rw [← outerCost_grow grows]
    split
    next closure _ =>
      refine .bind_free (lawful_ambiguously _ (lawful_depthLeft_bind fun depth => ?_)) fun _ _ _ =>
        .pure trivial
      refine lawful_callFunction (lawful_outermost code closed depth) (grows.lift hf) trivial ?_
      intro v hv
      obtain ⟨_, -, rfl⟩ := List.mem_map.1 hv
      exact trivial
    · exact .pure trivial

/-- Of the functions that were created each is visited at most once. -/
theorem lawful_visitFunctions (code : L.code = (· ∈ codes)) (closed : Closed codes)
    (steps index : Nat) :
    (visitFunctions steps index).Lawful L (steps * outerCost L codes w) w := by
  induction steps generalizing index w with
  | zero => exact .pure trivial
  | succ steps ih =>
    rw [Nat.succ_mul, Nat.add_comm]
    refine .get_bind_at fun m valid grows => ?_
    rw [← outerCost_grow grows]
    refine Lawful.at_machine ?_ valid
    split
    · exact .pure trivial
    next f found =>
      have hf : (m.world L).Holds f := valid.now_sound.scripts f (Array.mem_of_getElem? found)
      refine .bind_add (lawful_visitFunction code closed hf) fun more _ _ => ?_
      rw [← outerCost_grow more]
      exact ih (index + 1)

/-! ## The run -/

theorem lawful_defineUnknown (name : String) : (defineUnknown name).Lawful L c w := by
  refine ⟨fun m valid grows => Lawful.at_machine (m := m) ?_ valid⟩
  have global : (m.world L).Holds Realm.globalObject := valid.intrinsic .global
  refine .bind (.attempt (Op.lawful_createData global trivial)) fun _ result _ => ?_
  split
  · exact .pure trivial
  · exact .of_unmoved (reportError_unmoved _)

/-- What the visits to functions cost that were never called. -/
def visitCost (L : Law) (codes : List FunctionCode) (w : World) : Nat :=
  if L.setup.options.processUnvisitedCode then visitLimit * outerCost L codes w else 0

/-- A run costs what its program costs, and what the visits to functions cost. -/
theorem lawful_analyze (names : List String) {p : Program} (code : L.code = (· ∈ p.functions))
    (h : w.Holds p.functions) : (analyze names p).Lawful L
      (bodyCost L.loops (outerCost L p.functions w) p.body + 1 + visitCost L p.functions w) w := by
  refine .bind (.of_unmoved watch_unmoved) fun first _ _ => ?_
  refine .bind (.forM (Unlocated.holds _ _) fun _ name _ _ => lawful_defineUnknown name) ?_
  intro _ more _ _
  have grows := first.trans more
  rw [visitCost, ← outerCost_grow grows]
  have body := lawful_runProgram code p.functions_closed (grows.lift h)
  refine .bind_add (lawful_ruled .program p.span body) fun more completion held => ?_
  rw [← outerCost_grow more]
  -- possible throws are reported last, whether functions are visited before or not
  have reported {w' : World} {completion : Completion} (held : w'.Holds completion) :
      Eval.Lawful L 0 w' (do
        reportPossibleThrows
        return completion) :=
    .bind lawful_reportPossibleThrows fun more _ _ => .pure (more.lift held)
  refine .setup_bind ?_
  split
  · exact .bind_free (lawful_visitFunctions code p.functions_closed ..) fun more _ _ =>
      reported (more.lift held)
  · exact reported held

end Eval

/-! ## Beginnings -/

/-- A run begins in a valid machine if its first moment is sound. -/
theorem Machine.valid_start {realm : Realm} (sound : (Machine.start realm).moment.Sound L) :
    (Machine.start realm).Valid L where
  -- the first moment is the only one so far
  present := .inr ⟨rfl, .inr rfl⟩
  last x hx := by
    rcases hx with none | ⟨rfl, -⟩
    · exact none.elim
    · exact .inr ⟨rfl, .inr rfl⟩
  sound x hx := by
    rcases hx with none | ⟨rfl, -⟩
    · exact none.elim
    · exact sound
  lasting x y hxy := by
    rcases hxy with none | ⟨rfl, none | rfl⟩
    · exact none.elim
    · exact none.elim
    · exact .refl _
  now x hx := by
    rcases hx with none | ⟨rfl, -⟩
    · exact none.elim
    · exact .refl _

namespace Analyzer

/-- The law of a run of a program: the functions that are written in it may be evaluated. -/
def law (a : Analyzer) (p : Program) (tracked : Prop) : Law where
  setup := { options := a.options, rules := a.rules, file := p.file, observed := a.observed }
  code := (· ∈ p.functions)
  tracked

/-- A run whose first moment is sound is lawful. -/
theorem reaches (a : Analyzer) (p : Program) {tracked : Prop}
    (sound : (Machine.start a.realm).moment.Sound (a.law p tracked)) :
    let w := (Machine.start a.realm).world (a.law p tracked)
    (Machine.start a.realm).Reaches (a.law p tracked)
      (bodyCost (a.law p tracked).loops (outerCost (a.law p tracked) p.functions w) p.body + 1 +
        visitCost (a.law p tracked) p.functions w) (a.analyze p).machine := by
  rw [machine_analyze]
  have valid := Machine.valid_start sound
  exact ((lawful_analyze a.unknownGlobals rfl fun _ => id).at_machine valid).reaches

end Analyzer

end

open World

/-! ## What an object refers to -/

/-- The objects that a value refers to. -/
def Value.references : Value → List ObjectId
  | object o => [o]
  | _ => []

/-- The objects that a property refers to. -/
def Descriptor.references : Descriptor → List ObjectId
  | data v .. => v.references
  | accessor g s .. => g.toList ++ s.toList

/-- The objects that a native function refers to. -/
def Native.references : Native → List ObjectId
  | constant v => v.references
  | _ => []

/-- The objects that a native function refers to when it is called and with `new`. -/
def Callable.references : Callable → List ObjectId
  | native _ call construct =>
    call.toList.flatMap Native.references ++ construct.toList.flatMap Native.references
  | script _ => []

/-- The objects that an object refers to. -/
def ObjectRecord.references (r : ObjectRecord) : List ObjectId :=
  r.prototype.toList ++ r.properties.toList.flatMap (·.2.references) ++
    r.primitive.toList.flatMap Value.references ++ r.callable.toList.flatMap Callable.references

section

variable {w : World}

theorem Value.holds_of_references {v : Value} (h : ∀ o ∈ v.references, w.object o) :
    w.Holds v := by
  cases v with
  | object o => exact h o (List.mem_singleton_self o)
  | _ => trivial

theorem Descriptor.holds_of_references {d : Descriptor} (h : ∀ o ∈ d.references, w.object o) :
    w.Holds d := by
  cases d with
  | data v => exact Value.holds_of_references h
  | accessor g s =>
    obtain ⟨hg, hs⟩ := List.forall_mem_append.1 h
    constructor
    · cases g with
      | none => trivial
      | some f => exact hg f (List.mem_singleton_self f)
    · cases s with
      | none => trivial
      | some f => exact hs f (List.mem_singleton_self f)

theorem Native.holds_of_references {f : Native} (h : ∀ o ∈ f.references, w.object o) :
    w.Holds f := by
  cases f with
  | constant v => exact Value.holds_of_references h
  | _ => trivial

/-- What there may be is there if what it refers to is. -/
theorem World.holds_of_flatMap {α : Type} [Located α] {f : α → List ObjectId} {x : Option α}
    (h : ∀ o ∈ x.toList.flatMap f, w.object o)
    (held : ∀ a, x = some a → (∀ o ∈ f a, w.object o) → w.Holds a) : w.Holds x := by
  cases x with
  | none => trivial
  | some a => exact held a rfl fun o ho => h o (by simpa using ho)

/-- An object of the host is held if the objects are there that it refers to. -/
theorem ObjectRecord.holds_of_references {r : ObjectRecord} (h : ∀ o ∈ r.references, w.object o)
    (free : r.ScriptFree) : w.Holds r := by
  obtain ⟨h, callable⟩ := List.forall_mem_append.1 h
  obtain ⟨h, primitive⟩ := List.forall_mem_append.1 h
  obtain ⟨prototype, properties⟩ := List.forall_mem_append.1 h
  refine ⟨?_, fun name d found => ?_, ?_, ?_⟩
  · cases inherits : r.prototype with
    | none => trivial
    | some p =>
      rw [inherits] at prototype
      exact prototype p (List.mem_singleton_self p)
  · refine Descriptor.holds_of_references fun o ho => properties o ?_
    exact List.mem_flatMap.2 ⟨(name, d), Table.get?_eq_some_iff.1 found, ho⟩
  · exact holds_of_flatMap primitive fun v _ => Value.holds_of_references
  -- no closure can be called yet, so that what is called is a native function
  · refine holds_of_flatMap callable fun f found h => ?_
    cases f with
    | native name call construct =>
      obtain ⟨hcall, hconstruct⟩ := List.forall_mem_append.1 h
      exact ⟨holds_of_flatMap hcall fun f _ => Native.holds_of_references,
        holds_of_flatMap hconstruct fun f _ => Native.holds_of_references⟩
    | script closure => exact absurd found (free closure)

/-- Where all objects and environments are there, every environment is held. -/
theorem Environment.holds_of_all (object : ∀ o, w.object o) (environment : ∀ e, w.environment e)
    (env : Environment) : w.Holds env := by
  constructor
  · cases env.store with
    | own b =>
      rintro name ⟨value, _, _⟩ -
      show w.Holds value
      cases value with
      | none => trivial
      | some v => exact Value.holds_of_references fun o _ => object o
    | properties o _ => exact object o
  · cases env.outer with
    | none => trivial
    | some e => exact environment e

end

/-! ## The first moment -/

namespace Machine

/-- What a run begins with is sound if the realm is. -/
theorem sound_start {L : Law} {realm : Realm}
    (object : ∀ o, (L.world (start realm).moment).Holds (realm.object o))
    (environment : ∀ e, (L.world (start realm).moment).Holds (realm.environment e))
    (prototype : L.tracked → ∀ o p, (realm.object o).prototype = some p → p.index < o.index)
    (outer : L.tracked → ∀ e f, (realm.environment e).outer = some f → f.index < e.index)
    (length : L.tracked → ∀ o, (realm.object o).HasLength)
    (intrinsics : L.tracked → Intrinsic.all.length ≤ realm.objects.size)
    (globalEnv : L.tracked → 0 < realm.environments.size) : (start realm).moment.Sound L where
  object := object
  environment := environment
  -- the only context is the one of the program, whose value of `this` is the global object
  contexts context hcontext := by
    rw [List.mem_singleton.1 hcontext]
    have global : (L.world (start realm).moment).Holds Realm.globalObject := fun tracked =>
      Nat.lt_of_lt_of_le (by decide) (intrinsics tracked)
    exact ⟨trivial, globalEnv, globalEnv, global⟩
  exits := nofun
  scripts := nofun
  invoked := nofun
  depth := Nat.le_max_left ..
  prototype := prototype
  outer := outer
  length := length
  intrinsics := intrinsics
  globalEnv := globalEnv

end Machine

/-! ## The core objects -/

namespace ObjectRecord

/-- What is checked of an object in a table: what it refers to is in the table, its prototype comes
before it, and it has a length if it is an array. -/
def isSoundAt (r : ObjectRecord) (size index : Nat) : Bool :=
  r.references.all (·.index < size) && r.prototype.all (·.index < index) &&
    (r.cls != .array || match r.own? "length" with
      | some (.data _ _ false false) => true
      | _ => false)

end ObjectRecord

namespace Environment

/-- What is checked of an environment in a table: it binds the properties of an object, and there is
nothing around it. -/
def isSoundRoot (e : Environment) (size : Nat) : Bool :=
  e.outer.isNone && match e.store with
    | .own b => b.table.toList.isEmpty
    | .properties o _ => o.index < size

end Environment

namespace Realm

theorem isSound_core_objects : core.objects.toList.zipIdx.all
    (fun (record, index) => record.isSoundAt core.objects.size index) = true := by
  decide +kernel

theorem isSound_core_environments : core.environments.toList.all
    (fun e => e.isSoundRoot core.objects.size) = true := by
  decide +kernel

theorem environments_core : 0 < core.environments.size := by decide +kernel

/-- What is checked of the entries of a table is true of whatever is found in it, if it is true of
the default. -/
theorem getD_of_zipIdx_all {α : Type} {table : Array α} {default : α} {p : α × Nat → Bool}
    (all : table.toList.zipIdx.all p = true) (i : Nat) (missing : p (default, i) = true) :
    p (table.getD i default, i) = true := by
  rw [Array.getD_eq_getD_getElem?]
  cases found : table[i]? with
  | none => exact missing
  | some a =>
    have listed : (a, i) ∈ table.toList.zipIdx := List.mem_zipIdx_iff_getElem?.2 (by simpa using found)
    exact List.all_eq_true.1 all _ listed

theorem isSoundAt_core (o : ObjectId) :
    (core.object o).isSoundAt core.objects.size o.index = true :=
  getD_of_zipIdx_all isSound_core_objects o.index rfl

theorem isSoundRoot_core (e : EnvId) :
    (core.environment e).isSoundRoot core.objects.size = true := by
  rw [environment, Array.getD_eq_getD_getElem?]
  cases found : core.environments[e.index]? with
  | none => rfl
  | some env =>
    exact List.all_eq_true.1 isSound_core_environments env
      (Array.mem_toList_iff.2 (Array.mem_of_getElem? found))

end Realm

namespace ObjectRecord

variable {r : ObjectRecord} {size index : Nat}

theorem isSoundAt_iff : r.isSoundAt size index = true ↔
    (∀ o ∈ r.references, o.index < size) ∧ (∀ p, r.prototype = some p → p.index < index) ∧
      r.HasLength := by
  unfold isSoundAt HasLength
  simp only [Bool.and_eq_true, List.all_eq_true, decide_eq_true_eq, Option.all_eq_true, and_assoc]
  refine and_congr_right fun _ => and_congr_right fun _ => ?_
  simp only [Bool.or_eq_true, bne_iff_ne, ne_eq]
  by_cases array : r.cls = .array
  · simp only [array, not_true_eq_false, false_or, true_imp_iff]
    split
    next v w own => simp [own]
    next other => simpa using other
  · simp [array]

end ObjectRecord

theorem Environment.holds_of_isSoundRoot {w : World} {env : Environment} {size : Nat}
    (sound : env.isSoundRoot size = true) (object : ∀ o : ObjectId, o.index < size → w.object o) :
    w.Holds env ∧ env.outer = none := by
  unfold isSoundRoot at sound
  simp only [Bool.and_eq_true, Option.isNone_iff_eq_none] at sound
  obtain ⟨outer, store⟩ := sound
  refine ⟨⟨?_, outer ▸ trivial⟩, outer⟩
  cases same : env.store with
  | own b =>
    rw [same] at store
    intro name binding found
    have listed := Table.get?_eq_some_iff.1 found
    rw [List.isEmpty_iff.1 store] at listed
    cases listed
  | properties o _ =>
    rw [same] at store
    exact object o (of_decide_eq_true store)

/-- With the core objects a run begins in a sound moment. -/
theorem Machine.sound_start_core {L : Law} : (start Realm.core).moment.Sound L := by
  have there (o : ObjectId) (ho : o.index < Realm.core.objects.size) :
      (L.world (start Realm.core).moment).object o := fun _ => ho
  have free : Realm.core.ScriptFree := by
    unfold Realm.core
    exact Realm.scriptFree_withObjects _
  have objects (o : ObjectId) := ObjectRecord.isSoundAt_iff.1 (Realm.isSoundAt_core o)
  have environments (e : EnvId) :=
    Environment.holds_of_isSoundRoot (Realm.isSoundRoot_core e) there
  refine sound_start (fun o => ?_) (fun e => (environments e).1) (fun _ o => (objects o).2.1)
    (fun _ e f outer => ?_) (fun _ o => (objects o).2.2) (fun _ => ?_) fun _ => ?_
  · exact ObjectRecord.holds_of_references (fun q hq => there q ((objects o).1 q hq)) (free.object o)
  · rw [(environments e).2] at outer
    cases outer
  · rw [Realm.size_core]
    decide
  · exact Realm.environments_core

namespace Analyzer

/-- Without references that are asked to be in range every run begins in a sound moment. -/
theorem sound_start (a : Analyzer) (p : Program) :
    (Machine.start a.realm).moment.Sound (a.law p False) := by
  have free := Realm.scriptFree_withObjects a.catalogue
  refine Machine.sound_start (fun o => ?_) (fun e => ?_) nofun nofun nofun nofun nofun
  · exact ObjectRecord.holds_of_references (fun _ _ tracked => tracked.elim) (free.object o)
  · exact Environment.holds_of_all (fun _ tracked => tracked.elim) (fun _ tracked => tracked.elim) _

/-- The realm of an analyzer with the core objects. -/
theorem realm_eq_core {a : Analyzer} (core : a.catalogue = .core) : a.realm = Realm.core := by
  unfold Realm.core
  rw [realm, core]

/-- With the core objects every run is lawful. -/
theorem valid_core {a : Analyzer} (core : a.catalogue = .core) (p : Program) :
    (a.analyze p).machine.Valid (a.law p True) := by
  have sound : (Machine.start a.realm).moment.Sound (a.law p True) := by
    rw [realm_eq_core core]
    exact Machine.sound_start_core
  exact (a.reaches p sound).valid

/-- The course of a run leads from its first moment to its last one. -/
theorem course_start (a : Analyzer) (p : Program) :
    (a.analyze p).machine.course (Machine.start a.realm).moment (a.analyze p).machine.moment := by
  have reached := a.reaches p (a.sound_start p)
  refine reached.valid.last _ (reached.course _ _ ?_)
  exact (Machine.valid_start (a.sound_start p)).present

/-- An analyzer with the core objects. It does not unfold, so that no run is evaluated. -/
@[irreducible] def plain : Analyzer := {}

theorem catalogue_plain : plain.catalogue = .core := by rw [plain]

/-! ## Every analysis ends

A run begins at most as many rules as its program costs, whatever the rules, the built-in objects and
the unknown globals are. The cost depends on the program, the limit for loops and the limit for
contexts only (`Program.cost`). -/

/-- **Every analysis ends.** With valid options, and without visits to functions that were never
called, a run begins at most as many rules as the program costs, and never are there more contexts
than allowed. -/
theorem dispatched_le (a : Analyzer) (valid : a.options.validate = .ok a.options)
    (visits : a.options.processUnvisitedCode = false) (p : Program) :
    (a.analyze p).machine.dispatched ≤
        p.cost a.options.maxLoopIterations a.options.maxRecursionLimit ∧
      ∀ x, (a.analyze p).machine.course x x →
        x.contexts.size ≤ a.options.maxRecursionLimit := by
  have reached := a.reaches p (a.sound_start p)
  obtain ⟨-, -, positive⟩ := Options.validate_eq_ok_iff.1 valid
  have limit : (a.law p False).limit = a.options.maxRecursionLimit := Nat.max_eq_right positive
  refine ⟨?_, fun x hx => limit ▸ (reached.valid.sound x hx).depth⟩
  have unvisited (w : World) : Eval.visitCost (a.law p False) p.functions w = 0 := by
    rw [Eval.visitCost, if_neg]
    exact Bool.eq_false_iff.1 visits
  have bound := reached.dispatched
  rw [unvisited] at bound
  -- In the first moment no rule has begun, and there is one context.
  refine Nat.le_trans bound (Nat.le_of_eq ?_)
  exact Nat.zero_add _

/-- The program `for (;;) f()`, where `f` calls itself. -/
def endless : Program where
  span := default
  file := ""
  body :=
    let call : Statement := .expression default (.call default (.identifier ⟨default, "f"⟩) [])
    [.functionDeclaration (.mk default (some ⟨default, "f"⟩) [] default [call]),
      .forLoop default none none none call]

/-- A loop without an end and a function that calls itself are given up. -/
theorem dispatched_le_endless :
    let a : Analyzer := { options := { maxLoopIterations := 2, maxRecursionLimit := 3 } }
    (a.analyze endless).machine.dispatched ≤ endless.cost 2 3 ∧
      ∀ x, (a.analyze endless).machine.course x x → x.contexts.size ≤ 3 :=
  dispatched_le { options := { maxLoopIterations := 2, maxRecursionLimit := 3 } } rfl rfl endless

/-! ## Objects last

In a run with the core objects every object that there is at one moment lasts to every later one:
what an object keeps is said by `ObjectRecord.Lasting`. It does not matter what code is evaluated in
between, and whether it may or may not happen. -/

/-- **Object invariants over whole runs.** From one moment of a run with the core objects to every
later one, every object keeps its class, its prototype, that it is not extensible, that it has not
got a property if it is not extensible, and its properties that are not configurable. A frozen object
never changes. -/
theorem object_lasting {a : Analyzer} (core : a.catalogue = .core) (p : Program) {x y : Moment}
    (later : (a.analyze p).machine.course x y) {o : ObjectId}
    (there : o.index < x.realm.objects.size) :
    o.index < y.realm.objects.size ∧ (x.realm.object o).Lasting (y.realm.object o) := by
  have precedes := (valid_core core p).lasting x y later
  exact ⟨Nat.lt_of_lt_of_le there precedes.objects, precedes.lasting trivial o there⟩

/-- The program `x = true`. -/
def globalAssignment : Program where
  span := default
  file := ""
  body := [.expression default
    (.assignment default .assign (.identifier ⟨default, "x"⟩) (.literal default (.bool true)))]

/-- The global object lasts while a variable is assigned. -/
theorem object_lasting_globalAssignment :
    (plain.analyze globalAssignment).machine.course (Machine.start plain.realm).moment
        (plain.analyze globalAssignment).machine.moment ∧
      Realm.globalObject.index <
        (plain.analyze globalAssignment).machine.moment.realm.objects.size ∧
      ((Machine.start plain.realm).moment.realm.object Realm.globalObject).Lasting
        ((plain.analyze globalAssignment).machine.moment.realm.object Realm.globalObject) := by
  have there : Realm.globalObject.index < (Machine.start plain.realm).moment.realm.objects.size := by
    rw [realm_eq_core catalogue_plain]
    exact Nat.lt_of_lt_of_eq (by decide) Realm.size_core.symm
  have later := plain.course_start globalAssignment
  exact ⟨later, object_lasting catalogue_plain globalAssignment later there⟩

end Analyzer

end AbstractScript
