import AbstractScript.Proofs.Keeps
import AbstractScript.Proofs.Located

/-!
# The integrity of a run

A law says how a run is set up, which code it may evaluate and whether references are tracked. A
moment of a run is *sound* if it refers only to what there is, prototypes and outer environments are
older than what they belong to, arrays have lengths, and there are no more contexts than allowed. A
machine is *valid* if all moments of its course so far are sound and objects have lasted from each
to every later one (`Machine.Valid`). Every change that an evaluation makes leaves a valid machine,
if what it stores is held by the world and what it does to an object lasts.
-/
namespace AbstractScript

/-- What a run is given, and what is asked of it. -/
structure Law where
  setup : Setup
  /-- The code that may be evaluated. -/
  code : FunctionCode → Prop
  /-- References are asked to be in range. -/
  tracked : Prop

/-- The limit for the passes of a loop. -/
abbrev Law.loops (L : Law) : Nat := L.setup.options.maxLoopIterations

/-- The limit for contexts. There is always one. -/
def Law.limit (L : Law) : Nat := max 1 L.setup.options.maxRecursionLimit

variable {L : Law}

/-- What can be referred to at a moment. -/
def Law.world (L : Law) (x : Moment) : World where
  object o := L.tracked → o.index < x.realm.objects.size
  environment e := L.tracked → e.index < x.realm.environments.size
  code := L.code
  contexts := x.contexts.size

/-! ## Moments -/

namespace Moment

/-- A moment refers to what there is, without a cycle. -/
structure Sound (L : Law) (x : Moment) : Prop where
  object : ∀ o, (L.world x).Holds (x.realm.object o)
  environment : ∀ e, (L.world x).Holds (x.realm.environment e)
  contexts : (L.world x).Holds x.contexts
  exits : (L.world x).Holds x.exits
  scripts : (L.world x).Holds x.scripts
  invoked : (L.world x).Holds x.invoked
  /-- There are no more contexts than allowed. -/
  depth : x.contexts.size ≤ L.limit
  /-- Prototypes are older than the objects that inherit from them. -/
  prototype : L.tracked → ∀ o p, (x.realm.object o).prototype = some p → p.index < o.index
  /-- Outer environments are older than the environments inside them. -/
  outer : L.tracked → ∀ e f, (x.realm.environment e).outer = some f → f.index < e.index
  length : L.tracked → ∀ o, (x.realm.object o).HasLength
  intrinsics : L.tracked → Intrinsic.all.length ≤ x.realm.objects.size
  globalEnv : L.tracked → 0 < x.realm.environments.size

/-- Objects and environments are added, and objects last. -/
structure Precedes (L : Law) (x y : Moment) : Prop where
  objects : x.realm.objects.size ≤ y.realm.objects.size
  environments : x.realm.environments.size ≤ y.realm.environments.size
  lasting : L.tracked → ∀ o, o.index < x.realm.objects.size →
    (x.realm.object o).Lasting (y.realm.object o)

namespace Precedes

variable {x y z : Moment}

/-- A moment precedes itself. -/
theorem refl (x : Moment) : x.Precedes L x := ⟨Nat.le_refl _, Nat.le_refl _, fun _ _ _ => .refl _⟩

/-- Moments precede each other along the course of a run. -/
theorem trans (h : x.Precedes L y) (h' : y.Precedes L z) : x.Precedes L z where
  objects := Nat.le_trans h.objects h'.objects
  environments := Nat.le_trans h.environments h'.environments
  lasting tracked o ho :=
    (h.lasting tracked o ho).trans (h'.lasting tracked o (Nat.lt_of_lt_of_le ho h.objects))

/-- The same objects and environments precede each other. -/
theorem of_realm (h : y.realm.objects = x.realm.objects)
    (h' : y.realm.environments = x.realm.environments) : x.Precedes L y where
  objects := Nat.le_of_eq (by rw [h])
  environments := Nat.le_of_eq (by rw [h'])
  lasting _ o _ := by
    rw [Realm.object, Realm.object, h]
    exact .refl _

/-- What a moment tracks, every later one tracks. -/
theorem le (h : x.Precedes L y) : (L.world x).Le (L.world y) where
  object _ ho tracked := Nat.lt_of_lt_of_le (ho tracked) h.objects
  environment _ he tracked := Nat.lt_of_lt_of_le (he tracked) h.environments
  code _ := id

end Precedes

/-- A sound moment stays so with a realm whose objects and environments are sound. -/
theorem Sound.withRealm {x : Moment} (h : x.Sound L) {r : Realm}
    (precedes : x.Precedes L { x with realm := r })
    (object : ∀ o, (L.world { x with realm := r }).Holds (r.object o))
    (environment : ∀ e, (L.world { x with realm := r }).Holds (r.environment e))
    (prototype : L.tracked → ∀ o p, (r.object o).prototype = some p → p.index < o.index)
    (outer : L.tracked → ∀ e f, (r.environment e).outer = some f → f.index < e.index)
    (length : L.tracked → ∀ o, (r.object o).HasLength) : ({ x with realm := r } : Moment).Sound L :=
  have le := precedes.le
  { object, environment, prototype, outer, length
    contexts := le.lift h.contexts
    exits := le.lift h.exits
    scripts := le.lift h.scripts
    invoked := le.lift h.invoked
    depth := h.depth
    intrinsics := fun tracked => Nat.le_trans (h.intrinsics tracked) precedes.objects
    globalEnv := fun tracked => Nat.lt_of_lt_of_le (h.globalEnv tracked) precedes.environments }

/-- A sound moment stays so with other contexts, possible exits and lists of functions that refer
only to what there is. -/
theorem Sound.withReferences {x y : Moment} (h : x.Sound L)
    (objects : y.realm.objects = x.realm.objects)
    (environments : y.realm.environments = x.realm.environments)
    (contexts : (L.world x).Holds y.contexts) (exits : (L.world x).Holds y.exits)
    (scripts : (L.world x).Holds y.scripts) (invoked : (L.world x).Holds y.invoked)
    (depth : y.contexts.size ≤ L.limit) : y.Sound L := by
  have le : (L.world x).Le (L.world y) := (Precedes.of_realm objects environments).le
  -- neither of the tables changes
  have object : y.realm.object = x.realm.object := by
    funext o
    rw [Realm.object, objects, Realm.object]
  have environment : y.realm.environment = x.realm.environment := by
    funext e
    rw [Realm.environment, environments, Realm.environment]
  exact
    { object := fun o => object ▸ le.lift (h.object o)
      environment := fun e => environment ▸ le.lift (h.environment e)
      contexts := le.lift contexts
      exits := le.lift exits
      scripts := le.lift scripts
      invoked := le.lift invoked
      depth := depth
      prototype := object ▸ h.prototype
      outer := environment ▸ h.outer
      length := object ▸ h.length
      intrinsics := objects ▸ h.intrinsics
      globalEnv := environments ▸ h.globalEnv }

end Moment

/-! ## Machines -/

namespace Machine

/-- What there is now. -/
def world (L : Law) (m : Machine) : World := L.world m.moment

/-- Every moment of the course so far is sound, and objects have lasted. -/
structure Valid (L : Law) (m : Machine) : Prop where
  present : m.course m.moment m.moment
  /-- The present moment is the last one. -/
  last : ∀ x, m.course x x → m.course x m.moment
  sound : ∀ x, m.course x x → x.Sound L
  lasting : ∀ x y, m.course x y → x.Precedes L y
  now : ∀ x, m.course x x → x.Precedes L m.moment

/-- The present moment of a valid machine is sound. -/
theorem Valid.now_sound {m : Machine} (h : m.Valid L) : m.moment.Sound L := h.sound _ h.present

/-- What an evaluation leaves that begins at most a number of rules. -/
structure Reaches (L : Law) (cost : Nat) (m n : Machine) : Prop where
  valid : n.Valid L
  course : ∀ x y, m.course x y → n.course x y
  precedes : m.moment.Precedes L n.moment
  contexts : n.contexts.size = m.contexts.size
  dispatched : n.dispatched ≤ m.dispatched + cost

variable {m n k : Machine} {c d : Nat}

/-- A valid machine is reached by doing nothing. -/
theorem Reaches.refl (h : m.Valid L) : m.Reaches L c m :=
  ⟨h, fun _ _ => id, .refl _, rfl, Nat.le_add_right _ _⟩

/-- One stretch after another costs what both cost. -/
theorem Reaches.trans (h : m.Reaches L c n) (h' : n.Reaches L d k) : m.Reaches L (c + d) k where
  valid := h'.valid
  course x y hxy := h'.course x y (h.course x y hxy)
  precedes := h.precedes.trans h'.precedes
  contexts := h'.contexts.trans h.contexts
  dispatched := by
    have first := h.dispatched
    have second := h'.dispatched
    omega

/-- The cost may be overestimated. -/
theorem Reaches.mono (h : m.Reaches L c n) (le : c ≤ d) : m.Reaches L d n :=
  ⟨h.valid, h.course, h.precedes, h.contexts,
    Nat.le_trans h.dispatched (Nat.add_le_add_left le _)⟩

/-- The world grows along a run. -/
theorem Reaches.grows (h : m.Reaches L c n) : (m.world L).Grows (n.world L) :=
  ⟨h.precedes.le, h.contexts⟩

/-- A change that leaves a sound moment, to which objects last, leaves a valid machine. -/
theorem Valid.tick (h : m.Valid L) (course : n.course = m.course) (sound : n.moment.Sound L)
    (after : m.moment.Precedes L n.moment) : n.tick.Valid L where
  present := .inr ⟨rfl, .inr rfl⟩
  -- the new moment is the present one, all others were there before
  last x hx := by
    rcases hx with earlier | ⟨rfl, -⟩
    · exact .inr ⟨rfl, .inl earlier⟩
    · exact .inr ⟨rfl, .inr rfl⟩
  sound x hx := by
    rcases hx with earlier | ⟨rfl, -⟩
    · exact h.sound x (course ▸ earlier)
    · exact sound
  lasting x y hxy := by
    rcases hxy with earlier | ⟨rfl, before | rfl⟩
    · exact h.lasting x y (course ▸ earlier)
    · exact (h.now x (course ▸ before)).trans after
    · exact .refl _
  now x hx := by
    rcases hx with earlier | ⟨rfl, -⟩
    · exact (h.now x (course ▸ earlier)).trans after
    · exact .refl _

/-- A change that adds a moment to the course. No rule begins. -/
theorem Valid.reaches_tick (h : m.Valid L) (course : n.course = m.course)
    (dispatched : n.dispatched = m.dispatched) (contexts : n.contexts.size = m.contexts.size)
    (sound : n.moment.Sound L) (after : m.moment.Precedes L n.moment) : m.Reaches L c n.tick where
  valid := h.tick course sound after
  course _ _ hxy := .inl (course ▸ hxy)
  precedes := after
  contexts := contexts
  dispatched := dispatched ▸ Nat.le_add_right _ _

/-- What changes nothing that is recorded leaves a valid machine. -/
theorem Valid.congr (h : m.Valid L) (moment : n.moment = m.moment) (course : n.course = m.course) :
    n.Valid L where
  present := by
    rw [moment, course]
    exact h.present
  last x hx := by
    rw [moment, course]
    exact h.last x (course ▸ hx)
  sound x hx := h.sound x (course ▸ hx)
  lasting x y hxy := h.lasting x y (course ▸ hxy)
  now x hx := by
    rw [moment]
    exact h.now x (course ▸ hx)

/-- Nothing that is recorded changes, and no rule begins. -/
structure Unmoved (m n : Machine) : Prop where
  moment : n.moment = m.moment
  course : n.course = m.course
  dispatched : n.dispatched = m.dispatched

/-- A change aside from the course of a run reaches at any cost. -/
theorem Unmoved.reaches (h : m.Unmoved n) (valid : m.Valid L) : m.Reaches L c n where
  valid := valid.congr h.moment h.course
  course _ _ hxy := h.course ▸ hxy
  precedes := by
    rw [h.moment]
    exact .refl _
  contexts := congrArg (fun x : Moment => x.contexts.size) h.moment
  dispatched := by
    rw [h.dispatched]
    exact Nat.le_add_right _ _

instance : IsPreorder Machine Unmoved where
  refl _ := ⟨rfl, rfl, rfl⟩
  trans _ _ _ h h' :=
    ⟨h'.moment.trans h.moment, h'.course.trans h.course, h'.dispatched.trans h.dispatched⟩

/-! ## Changes of objects and environments -/

namespace Valid

/-- The intrinsic objects are there. -/
theorem intrinsic (h : m.Valid L) (i : Intrinsic) : (m.world L).Holds i.id := fun tracked => by
  have bound : i.id.index < Intrinsic.all.length := by cases i <;> decide
  exact Nat.lt_of_lt_of_le bound (h.now_sound.intrinsics tracked)

/-- So is the global environment. -/
theorem globalEnv (h : m.Valid L) : (m.world L).Holds Realm.globalEnv :=
  fun tracked => h.now_sound.globalEnv tracked

/-- What an object holds is there. -/
theorem object (h : m.Valid L) (o : ObjectId) : (m.world L).Holds (m.realm.object o) :=
  h.now_sound.object o

/-- What an environment holds is there. -/
theorem environment (h : m.Valid L) (e : EnvId) : (m.world L).Holds (m.realm.environment e) :=
  h.now_sound.environment e

/-- An object is added that inherits from one that there is. -/
theorem addObject (h : m.Valid L) {record : ObjectRecord} (held : (m.world L).Holds record)
    (length : L.tracked → record.HasLength) : m.Reaches L c (m.addObject record) := by
  have sound := h.now_sound
  have precedes : m.moment.Precedes L { m.moment with realm := m.realm.addObject record } :=
    { objects := by simp [moment, Realm.addObject]
      environments := Nat.le_refl _
      lasting := fun _ o ho => by
        rw [Realm.object_addObject, if_neg]
        · exact .refl _
        · rintro rfl
          exact absurd ho (Nat.lt_irrefl _) }
  have le := precedes.le
  refine h.reaches_tick rfl rfl rfl ?_ precedes
  refine sound.withRealm precedes (fun o => ?_) (fun e => le.lift (sound.environment e))
    (fun tracked o p inherits => ?_) sound.outer fun tracked o => ?_
  · rw [Realm.object_addObject]
    split
    · exact le.lift held
    · exact le.lift (sound.object o)
  · rw [Realm.object_addObject] at inherits
    split at inherits
    -- What the new object inherits from was there, so that it is older.
    next new =>
      subst new
      exact held.prototype.of_some inherits tracked
    next => exact sound.prototype tracked o p inherits
  · rw [Realm.object_addObject]
    split
    · exact length tracked
    · exact sound.length tracked o

/-- An environment is added inside one that there is. -/
theorem addEnvironment (h : m.Valid L) {env : Environment} (held : (m.world L).Holds env) :
    m.Reaches L c (m.addEnvironment env) := by
  have sound := h.now_sound
  have precedes : m.moment.Precedes L { m.moment with realm := m.realm.addEnvironment env } :=
    { objects := Nat.le_refl _
      environments := by simp [moment, Realm.addEnvironment]
      lasting := fun _ o _ => .refl _ }
  have le := precedes.le
  refine h.reaches_tick rfl rfl rfl ?_ precedes
  refine sound.withRealm precedes (fun o => le.lift (sound.object o)) (fun e => ?_)
    sound.prototype (fun tracked e f inside => ?_) sound.length
  -- the new environment is held by assumption, the others as before
  · rw [Realm.environment_addEnvironment]
    split
    · exact le.lift held
    · exact le.lift (sound.environment e)
  · rw [Realm.environment_addEnvironment] at inside
    split at inside
    next new =>
      subst new
      exact World.Holds.of_some (x := env.outer) held.2 inside tracked
    next => exact sound.outer tracked e f inside

/-- An object is changed to one that it lasts to. -/
theorem modifyObject (h : m.Valid L) (o : ObjectId) {f : ObjectRecord → ObjectRecord}
    (held : (m.world L).Holds (f (m.realm.object o)))
    (lasting : L.tracked → (m.realm.object o).Lasting (f (m.realm.object o))) :
    m.Reaches L c (m.modifyObject o f) := by
  have sound := h.now_sound
  -- Whichever object is looked at, it is the changed one or the one from before.
  have either (p : ObjectId) : (m.realm.modifyObject o f).object p = m.realm.object p ∨
      p = o ∧ (m.realm.modifyObject o f).object p = f (m.realm.object o) := by
    rw [Realm.object_modifyObject]
    split
    next same => exact .inr ⟨same.1, rfl⟩
    next => exact .inl rfl
  have last (tracked : L.tracked) (p : ObjectId) :
      (m.realm.object p).Lasting ((m.realm.modifyObject o f).object p) := by
    rcases either p with same | ⟨rfl, new⟩
    · rw [same]
      exact .refl _
    · rw [new]
      exact lasting tracked
  have precedes : m.moment.Precedes L { m.moment with realm := m.realm.modifyObject o f } :=
    { objects := by simp [moment, Realm.modifyObject]
      environments := Nat.le_refl _
      lasting := fun tracked p _ => last tracked p }
  have le := precedes.le
  refine h.reaches_tick rfl rfl rfl ?_ precedes
  -- Prototypes and lengths last, since they belong to what lasts of an object.
  refine sound.withRealm precedes (fun p => ?_) (fun e => le.lift (sound.environment e))
    (fun tracked p q inherits => ?_) sound.outer fun tracked p => ?_
  · rcases either p with same | ⟨rfl, new⟩
    · rw [same]
      exact le.lift (sound.object p)
    · rw [new]
      exact le.lift held
  · exact sound.prototype tracked p q ((last tracked p).prototype.symm.trans inherits)
  · exact (sound.length tracked p).lasting (last tracked p)

/-- The bindings of an environment are changed. -/
theorem modifyEnvironment (h : m.Valid L) (e : EnvId) {f : Environment → Environment}
    (held : (m.world L).Holds (f (m.realm.environment e)))
    (outer : (f (m.realm.environment e)).outer = (m.realm.environment e).outer) :
    m.Reaches L c (m.modifyEnvironment e f) := by
  have sound := h.now_sound
  -- all other environments stay as they are
  have either (p : EnvId) :
      (m.realm.modifyEnvironment e f).environment p = m.realm.environment p ∨
        p = e ∧ (m.realm.modifyEnvironment e f).environment p = f (m.realm.environment e) := by
    rw [Realm.environment_modifyEnvironment]
    split
    next same => exact .inr ⟨same.1, rfl⟩
    next => exact .inl rfl
  have precedes : m.moment.Precedes L { m.moment with realm := m.realm.modifyEnvironment e f } :=
    { objects := Nat.le_refl _
      environments := by simp [moment, Realm.modifyEnvironment]
      lasting := fun _ o _ => .refl _ }
  have le := precedes.le
  refine h.reaches_tick rfl rfl rfl ?_ precedes
  refine sound.withRealm precedes (fun o => le.lift (sound.object o)) (fun p => ?_)
    sound.prototype (fun tracked p q inside => ?_) sound.length
  · rcases either p with same | ⟨rfl, new⟩
    · rw [same]
      exact le.lift (sound.environment p)
    · rw [new]
      exact le.lift held
  · rcases either p with same | ⟨rfl, new⟩
    · rw [same] at inside
      exact sound.outer tracked p q inside
    · rw [new, outer] at inside
      exact sound.outer tracked p q inside

/-! ## Changes of contexts, possible exits and lists of functions -/

/-- The contexts are replaced. Of the realm only the ambiguity level changes. -/
theorem withContexts (h : m.Valid L) {s : ContextStack}
    (held : (m.world L).Holds s) (depth : s.size ≤ L.limit) :
    (m.withContexts s).Valid L := by
  have sound := h.now_sound
  refine h.tick rfl ?_ (.of_realm rfl rfl)
  exact sound.withReferences rfl rfl held sound.exits sound.scripts sound.invoked depth

/-- The contexts are replaced by as many others. -/
theorem replaceContexts (h : m.Valid L) {s : ContextStack} (held : (m.world L).Holds s)
    (size : s.size = m.contexts.size) : m.Reaches L c (m.withContexts s) where
  valid := h.withContexts held (size ▸ h.now_sound.depth)
  course _ _ := .inl
  precedes := .of_realm rfl rfl
  contexts := size
  dispatched := Nat.le_add_right _ _

/-- The environment of a scope may be any that is there. -/
theorem setLexicalEnv (h : m.Valid L) {e : EnvId} (held : (m.world L).Holds e) :
    m.Reaches L c (m.setLexicalEnv e) := by
  have sound := h.now_sound
  have size : (m.contexts.setLexicalEnv e).size = m.contexts.size :=
    ContextStack.size_modifyRunning ..
  refine h.reaches_tick rfl rfl size ?_ (.of_realm rfl rfl)
  exact sound.withReferences rfl rfl (ContextStack.holds_setLexicalEnv sound.contexts held)
    sound.exits sound.scripts sound.invoked (size ▸ sound.depth)

/-- A function of the program may be recorded when its object is there. -/
theorem addScript (h : m.Valid L) {f : ObjectId} (held : (m.world L).Holds f) :
    m.Reaches L c (m.addScript f) := by
  have sound := h.now_sound
  refine h.reaches_tick rfl rfl rfl ?_ (.of_realm rfl rfl)
  refine sound.withReferences rfl rfl sound.contexts sound.exits ?_ sound.invoked sound.depth
  intro g hg
  rcases Array.mem_push.1 hg with earlier | rfl
  · exact sound.scripts g earlier
  · exact held

/-- So may an invocation of it. -/
theorem markInvoked (h : m.Valid L) {f : ObjectId} (held : (m.world L).Holds f) :
    m.Reaches L c (m.markInvoked f) := by
  have sound := h.now_sound
  unfold Machine.markInvoked
  split
  · exact .refl h
  · refine h.reaches_tick rfl rfl rfl ?_ (.of_realm rfl rfl)
    refine sound.withReferences rfl rfl sound.contexts sound.exits sound.scripts ?_ sound.depth
    intro g hg
    rcases List.mem_cons.1 hg with rfl | earlier
    · exact held
    · exact sound.invoked g earlier

/-- The possible exits are replaced. -/
theorem withExits (h : m.Valid L) {exits : Array PossibleExit} {ledger : Array LedgerEntry}
    (held : (m.world L).Holds exits) :
    m.Reaches L c { m with exits := exits, ledger := ledger }.tick := by
  have sound := h.now_sound
  refine h.reaches_tick rfl rfl rfl ?_ (.of_realm rfl rfl)
  exact sound.withReferences rfl rfl sound.contexts held sound.scripts sound.invoked sound.depth

/-- The possible exits may be forgotten. -/
theorem dropExits (h : m.Valid L) : m.Reaches L c m.dropExits :=
  h.withExits fun _ he => nomatch he

/-- An exit may be added when its value is there. -/
theorem addExit (h : m.Valid L) {completion : Completion} (held : (m.world L).Holds completion) :
    m.Reaches L c (m.addExit completion) := by
  refine h.withExits fun e he => ?_
  rcases Array.mem_push.1 he with earlier | rfl
  · exact h.now_sound.exits e earlier
  · exact held

/-- What the exits since a mark carry is there. -/
theorem holds_exitsSince (h : m.Valid L) (mark : Nat) : (m.world L).Holds (m.exitsSince mark) := by
  intro e he
  rw [exitsSince_eq_drop] at he
  exact h.now_sound.exits e (Array.mem_toList_iff.1 (List.mem_of_mem_drop he))

/-- Exits may be claimed. -/
theorem dropClaimed (h : m.Valid L) (mark : Nat) (p : Completion → Bool) :
    m.Reaches L c (m.dropClaimed mark p) := by
  unfold Machine.dropClaimed
  split
  · exact .refl h
  · refine h.withExits fun e he => ?_
    have mem : e ∈ m.exits.toList.take mark ∨ e ∈ m.exitsSince mark ∧ p e.completion = false := by
      rw [← Array.mem_toList_iff] at he
      simpa using he
    rcases mem with before | ⟨since, -⟩
    · exact h.now_sound.exits e (Array.mem_toList_iff.1 (List.mem_of_mem_take before))
    · exact h.holds_exitsSince mark e since

/-! ## Changes that evaluation makes -/

/-- A block may be entered, whatever the level. -/
theorem enterBlock (h : m.Valid L) : m.Reaches L c m.enterBlock :=
  h.replaceContexts (ContextStack.holds_enterBlock h.now_sound.contexts)
    (ContextStack.size_modifyRunning ..)

/-- A block may be left. -/
theorem exitBlock (h : m.Valid L) (index : Option Nat) : m.Reaches L c (m.exitBlock index) := by
  cases index with
  | none => exact .refl h
  | some i =>
    exact h.replaceContexts (ContextStack.holds_exitBlock h.now_sound.contexts i)
      (ContextStack.size_exitBlock ..)

/-- The running context may be marked as possibly returned. -/
theorem markReturnUnknown (h : m.Valid L) : m.Reaches L c m.markReturnUnknown := by
  unfold Machine.markReturnUnknown
  split
  · exact h.replaceContexts h.now_sound.contexts rfl
  · have marked : m.Reaches L 0 (m.withContexts m.contexts.markReturned) :=
      h.replaceContexts (ContextStack.holds_markReturned h.now_sound.contexts)
        (ContextStack.size_modifyRunning ..)
    refine (marked.trans (marked.valid.modifyEnvironment (c := c) _ ?_ rfl)).mono (by omega)
    exact marked.valid.environment _

/-- A completion may be noted when its value is there. -/
theorem noteExit (h : m.Valid L) {completion : Completion} (held : (m.world L).Holds completion) :
    m.Reaches L c (m.noteExit completion) := by
  unfold Machine.noteExit
  split
  · exact .refl h
  · exact h.markReturnUnknown
  all_goals exact h.addExit held

/-- The record of a pass does not matter to the course. -/
theorem recordPass (before : Machine) (h : m.Reaches L c n) :
    m.Reaches L c (before.recordPass n) :=
  ⟨h.valid.congr rfl rfl, h.course, h.precedes, h.contexts, h.dispatched⟩

/-- A rule begins. -/
theorem pushFrame (h : m.Valid L) (f : Frame) : m.Reaches L 1 (m.pushFrame f) where
  valid := h.congr rfl rfl
  course _ _ := id
  precedes := .refl _
  contexts := rfl
  dispatched := Nat.le_refl _

/-- The rules in progress are not part of a moment. -/
theorem unmoved_popFrame (m : Machine) : m.Unmoved m.popFrame := ⟨rfl, rfl, rfl⟩

end Valid

end Machine

end AbstractScript
