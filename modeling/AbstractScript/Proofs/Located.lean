import AbstractScript.Proofs.Lasting

/-!
# References into a realm

A *world* says which objects and environments there are and which code may be evaluated. It *holds*
a value, a property, an environment or anything else that refers to them if it refers only to what
there is. What a world holds is held by every world that has grown from it (`World.Grows.lift`).
-/
namespace AbstractScript

/-- What can be referred to, and the number of contexts. -/
structure World where
  object : ObjectId → Prop
  environment : EnvId → Prop
  code : FunctionCode → Prop
  contexts : Nat

/-- What can be referred to in a world can be referred to in another. -/
structure World.Le (w w' : World) : Prop where
  object : ∀ o, w.object o → w'.object o
  environment : ∀ e, w.environment e → w'.environment e
  code : ∀ c, w.code c → w'.code c

/-- Objects and environments are added, and the contexts stay. -/
structure World.Grows (w w' : World) : Prop extends World.Le w w' where
  contexts : w'.contexts = w.contexts

namespace World.Grows

variable {w w' w'' : World}

theorem refl (w : World) : w.Grows w := ⟨⟨fun _ => id, fun _ => id, fun _ => id⟩, rfl⟩

theorem trans (h : w.Grows w') (h' : w'.Grows w'') : w.Grows w'' where
  object o ho := h'.object o (h.object o ho)
  environment e he := h'.environment e (h.environment e he)
  code c hc := h'.code c (h.code c hc)
  contexts := h'.contexts.trans h.contexts

end World.Grows

/-- Things that may refer to objects, environments and code. -/
class Located (α : Type) where
  held : World → α → Prop
  lift : ∀ {w w' : World} {a : α}, w.Le w' → held w a → held w' a

/-- Everything that a thing refers to is there. -/
def World.Holds {α : Type} [Located α] (w : World) (a : α) : Prop := Located.held w a

/-- What is held is held by every world in which as much can be referred to. -/
theorem World.Le.lift {α : Type} [Located α] {w w' : World} {a : α} (h : w.Le w')
    (held : w.Holds a) : w'.Holds a := Located.lift h held

/-- What is held stays so. -/
theorem World.Grows.lift {α : Type} [Located α] {w w' : World} {a : α} (h : w.Grows w')
    (held : w.Holds a) : w'.Holds a := h.toLe.lift held

/-- Things that refer to nothing. -/
@[reducible] def Located.trivial (α : Type) : Located α := ⟨fun _ _ => True, fun _ h => h⟩

instance : Located Unit := .trivial _
instance : Located Bool := .trivial _
instance : Located Nat := .trivial _
instance : Located Float := .trivial _
instance : Located String := .trivial _
instance : Located UInt16 := .trivial _
instance : Located NativeError := .trivial _

instance : Located ObjectId := ⟨World.object, fun h => h.object _⟩

instance : Located EnvId := ⟨World.environment, fun h => h.environment _⟩

instance : Located FunctionCode := ⟨World.code, fun h => h.code _⟩

/-! ## Containers -/

section

variable {α β : Type} [Located α] [Located β]

instance : Located (Option α) where
  held w
    | some a => w.Holds a
    | none => True
  lift {w w' x} h held := by
    cases x with
    | some a => exact h.lift (a := a) held
    | none => trivial

instance : Located (List α) where
  held w l := ∀ a ∈ l, w.Holds a
  lift h held a mem := h.lift (held a mem)

instance : Located (Array α) where
  held w l := ∀ a ∈ l, w.Holds a
  lift h held a mem := h.lift (held a mem)

instance : Located (α × β) where
  held w p := w.Holds p.1 ∧ w.Holds p.2
  lift h held := ⟨h.lift held.1, h.lift held.2⟩

instance : Located (Except α β) where
  held w
    | .error a => w.Holds a
    | .ok b => w.Holds b
  lift {w w' x} h held := by
    cases x with
    | error a => exact h.lift (a := a) held
    | ok b => exact h.lift (a := b) held

instance : Located (Table α) where
  held w t := ∀ name a, t.get? name = some a → w.Holds a
  lift h held name a found := h.lift (held name a found)

end

/-! ## Values, properties and objects -/

namespace Value

/-- The objects that a value refers to are there. -/
def Held (w : World) : Value → Prop
  | object o => w.object o
  | _ => True

end Value

instance : Located Value where
  held w v := v.Held w
  lift {w w' v} h held := by
    cases v with
    | object o => exact h.object o held
    | _ => trivial

instance : Located Descriptor where
  held w
    | .data v .. => w.Holds v
    | .accessor g s .. => w.Holds g ∧ w.Holds s
  lift {w w' d} h held := by
    cases d with
    | data v => exact h.lift (a := v) held
    | accessor g s => exact ⟨h.lift held.1, h.lift held.2⟩

instance : Located Definition where
  held w d := w.Holds d.descriptor
  lift h held := h.lift (α := Descriptor) held

instance : Located Native where
  held w
    | .constant v => w.Holds v
    | _ => True
  lift {w w' f} h held := by
    cases f with
    | constant v => exact h.lift (a := v) held
    | _ => trivial

instance : Located Closure where
  held w c := w.Holds c.code ∧ w.Holds c.scope
  lift h held := ⟨h.lift held.1, h.lift held.2⟩

instance : Located Callable where
  held w
    | .native _ call construct => w.Holds call ∧ w.Holds construct
    | .script closure => w.Holds closure
  lift {w w' f} h held := by
    cases f with
    | native name call construct => exact ⟨h.lift held.1, h.lift held.2⟩
    | script closure => exact h.lift (a := closure) held

/-- What an object refers to is there. -/
structure ObjectRecord.Held (w : World) (r : ObjectRecord) : Prop where
  prototype : w.Holds r.prototype
  properties : w.Holds r.properties
  primitive : w.Holds r.primitive
  callable : w.Holds r.callable

instance : Located ObjectRecord where
  held w r := r.Held w
  lift h held := ⟨h.lift held.1, h.lift held.2, h.lift held.3, h.lift held.4⟩

/-! ## Environments and contexts -/

instance : Located Binding where
  held w b := w.Holds b.value
  lift h held := h.lift (α := Option Value) held

instance : Located Bindings where
  held w b := w.Holds b.table
  lift h held := h.lift (α := Table Binding) held

instance : Located BindingStore where
  held w
    | .own b => w.Holds b
    | .properties o _ => w.Holds o
  lift {w w' s} h held := by
    cases s with
    | own b => exact h.lift (a := b) held
    | properties o receiver => exact h.lift (a := o) held

instance : Located Environment where
  held w e := w.Holds e.store ∧ w.Holds e.outer
  lift h held := ⟨h.lift held.1, h.lift held.2⟩

/-- What a context refers to is there. -/
structure Context.Held (w : World) (c : Context) : Prop where
  function : w.Holds c.function
  lexicalEnv : w.Holds c.lexicalEnv
  variableEnv : w.Holds c.variableEnv
  this : w.Holds c.this

instance : Located Context where
  held w c := c.Held w
  lift h held := ⟨h.lift held.1, h.lift held.2, h.lift held.3, h.lift held.4⟩

instance : Located ContextStack where
  held w s := w.Holds s.contexts
  lift h held := h.lift (α := List Context) held

/-! ## Completions and references -/

instance : Located Completion where
  held w c := w.Holds c.value
  lift h held := h.lift (α := Option Value) held

instance : Located PossibleExit where
  held w e := w.Holds e.completion
  lift h held := h.lift (α := Completion) held

instance : Located ReferenceBase where
  held w
    | .value v => w.Holds v
    | .environment e => w.Holds e
    | _ => True
  lift {w w' b} h held := by
    cases b with
    | value v => exact h.lift (a := v) held
    | environment e => exact h.lift (a := e) held
    | _ => trivial

instance : Located Reference where
  held w r := w.Holds r.base
  lift h held := h.lift (α := ReferenceBase) held

/-! ## What is held of changed things -/

variable {w : World}

/-- Things that are held everywhere, since they refer to nothing. -/
class Unlocated (α : Type) [Located α] : Prop where
  holds : ∀ (w : World) (a : α), w.Holds a

instance : Unlocated Bool := ⟨fun _ _ => trivial⟩
instance : Unlocated Nat := ⟨fun _ _ => trivial⟩
instance : Unlocated Float := ⟨fun _ _ => trivial⟩
instance : Unlocated String := ⟨fun _ _ => trivial⟩
instance : Unlocated UInt16 := ⟨fun _ _ => trivial⟩

section

variable {α : Type} [Located α] [Unlocated α]

instance : Unlocated (Option α) where
  holds w x := by
    cases x with
    | none => trivial
    | some a => exact Unlocated.holds w a

instance : Unlocated (List α) := ⟨fun w _ a _ => Unlocated.holds w a⟩

end

namespace Value

/-- A truth value refers to nothing, and neither does an unknown one. -/
theorem holds_ofBool? (b : Option Bool) : w.Holds (ofBool? b) := by cases b <;> trivial

/-- So it is with numbers. -/
theorem holds_ofNumber? (x : Option Float) : w.Holds (ofNumber? x) := by cases x <;> trivial

/-- So it is with texts. -/
theorem holds_ofString? (s : Option String) : w.Holds (ofString? s) := by cases s <;> trivial

end Value

namespace World

variable {α : Type} [Located α]

/-- What there may be is held, so it is held if it is there. -/
theorem Holds.of_some {x : Option α} {a : α} (h : w.Holds x) (found : x = some a) : w.Holds a := by
  subst found
  exact h

/-- What stands in for a thing that is missing is held with it. -/
theorem holds_getD {x : Option α} {a : α} (h : w.Holds x) (default : w.Holds a) :
    w.Holds (x.getD a) := by
  cases x with
  | none => exact default
  | some b => exact h

theorem holds_or {x y : Option α} (hx : w.Holds x) (hy : w.Holds y) : w.Holds (x.or y) := by
  cases x with
  | none => exact hy
  | some a => exact hx

theorem holds_orElse {x y : Option α} (hx : w.Holds x) (hy : w.Holds y) : w.Holds (x <|> y) := by
  cases x with
  | none => exact hy
  | some a => exact hx

/-- A table holds what is put into it. -/
theorem holds_insert {t : Table α} {name : String} {a : α} (h : w.Holds t) (new : w.Holds a) :
    w.Holds (t.insert name a) := by
  intro other b found
  rw [Table.get?_insert] at found
  split at found
  · cases found
    exact new
  · exact h other b found

/-- A table from which something is taken holds the rest. -/
theorem holds_erase {t : Table α} (h : w.Holds t) (name : String) : w.Holds (t.erase name) := by
  intro other b found
  rw [Table.get?_erase] at found
  split at found
  · cases found
  · exact h other b found

theorem holds_empty : w.Holds (Table.empty : Table α) := by
  intro name a found
  cases found

/-- A table of the elements of a list holds what the list holds. -/
theorem holds_indexed {l : List α} (h : w.Holds l) : w.Holds (Table.indexed l) := by
  intro name a found
  have listed := Table.get?_eq_some_iff.1 found
  simp only [Table.indexed, Table.toList, List.mem_mapIdx, Prod.mk.injEq] at listed
  obtain ⟨i, hi, -, rfl⟩ := listed
  exact h _ (List.getElem_mem hi)

end World

open World

/-! ### Definitions -/

namespace Descriptor

variable {p : Descriptor}

/-- An accessor that gets a value instead loses its functions. -/
theorem holds_asData (h : w.Holds p) : w.Holds p.asData := by
  cases p with
  | data v => exact h
  | accessor g s => trivial

/-- A property that becomes an accessor loses its value and has no functions yet. -/
theorem holds_asAccessor (h : w.Holds p) : w.Holds p.asAccessor := by
  cases p with
  | data v => exact ⟨trivial, trivial⟩
  | accessor g s => exact h

/-- Of a property that gets a value nothing else is new. -/
theorem holds_setValue (h : w.Holds p) {v : Value} (hv : w.Holds v) : w.Holds (p.setValue v) := by
  cases p with
  | data v => exact hv
  | accessor g s => exact h

theorem holds_setWritable (h : w.Holds p) (b : Bool) : w.Holds (p.setWritable b) := by
  cases p <;> exact h

/-- Of a property that gets a getter nothing else is new. -/
theorem holds_setGetter (h : w.Holds p) {g : Option ObjectId} (hg : w.Holds g) :
    w.Holds (p.setGetter g) := by
  cases p with
  | data v => exact h
  | accessor _ s => exact ⟨hg, h.2⟩

/-- Of a property that gets a setter nothing else is new. -/
theorem holds_setSetter (h : w.Holds p) {s : Option ObjectId} (hs : w.Holds s) :
    w.Holds (p.setSetter s) := by
  cases p with
  | data v => exact h
  | accessor g _ => exact ⟨h.1, hs⟩

theorem holds_withEnumerable (h : w.Holds p) (b : Bool) : w.Holds (p.withEnumerable b) := by
  cases p <;> exact h

theorem holds_withConfigurable (h : w.Holds p) (b : Bool) : w.Holds (p.withConfigurable b) := by
  cases p <;> exact h

end Descriptor

namespace Definition

variable {d : Definition} {v : Value} {base : Descriptor}

/-- A definition may be given a value that is held. -/
theorem holds_withValue (h : w.Holds d) (hv : w.Holds v) : w.Holds (d.withValue v) :=
  Descriptor.holds_setValue (Descriptor.holds_asData (p := d.descriptor) h) hv

theorem holds_withWritable (h : w.Holds d) (b : Bool) : w.Holds (d.withWritable b) :=
  Descriptor.holds_setWritable (Descriptor.holds_asData (p := d.descriptor) h) b

/-- A definition may be given a getter that is held. -/
theorem holds_withGetter (h : w.Holds d) {g : Option ObjectId} (hg : w.Holds g) :
    w.Holds (d.withGetter g) :=
  Descriptor.holds_setGetter (Descriptor.holds_asAccessor (p := d.descriptor) h) hg

/-- A definition may be given a setter that is held. -/
theorem holds_withSetter (h : w.Holds d) {s : Option ObjectId} (hs : w.Holds s) :
    w.Holds (d.withSetter s) :=
  Descriptor.holds_setSetter (Descriptor.holds_asAccessor (p := d.descriptor) h) hs

theorem holds_withEnumerable (h : w.Holds d) (b : Bool) : w.Holds (d.withEnumerable b) :=
  Descriptor.holds_withEnumerable (p := d.descriptor) h b

theorem holds_withConfigurable (h : w.Holds d) (b : Bool) : w.Holds (d.withConfigurable b) :=
  Descriptor.holds_withConfigurable (p := d.descriptor) h b

theorem holds_empty : w.Holds Definition.empty := trivial

theorem holds_value (h : w.Holds v) : w.Holds (value v) := holds_withValue holds_empty h

theorem holds_plain (h : w.Holds v) : w.Holds (plain v) := h

/-- The value that a definition gives is held with it. -/
theorem holds_value? (h : w.Holds d) : w.Holds d.value? := by
  unfold value?
  split
  next v _ _ _ given =>
    have : w.Holds d.descriptor := h
    rw [given] at this
    split
    · exact this
    · trivial
  next => trivial

/-- What a definition lacks is completed with what refers to nothing. -/
theorem holds_complete (h : w.Holds d) : w.Holds d.complete := by
  have : w.Holds d.descriptor := h
  unfold complete
  extract_lets e c
  split
  next g s _ _ given =>
    rw [given] at this
    split
    · refine ⟨?_, ?_⟩ <;> split
      · exact this.1
      · trivial
      · exact this.2
      · trivial
    · trivial
  next v _ _ _ given =>
    rw [given] at this
    show w.Holds (if d.hasValue then v else .undefined)
    split
    · exact this
    · trivial

/-- A property that a definition changes keeps what the definition says nothing of. -/
theorem holds_mergeInto (h : w.Holds d) (hbase : w.Holds base) : w.Holds (d.mergeInto base) := by
  have given : w.Holds d.descriptor := h
  unfold mergeInto
  extract_lets fields listed
  have fields_held : w.Holds fields := by
    unfold fields
    split
    next v _ _ _ v' _ _ _ same =>
      rw [same] at given
      show w.Holds (if d.hasValue then v' else v)
      split
      · exact given
      · exact hbase
    next g s _ _ g' s' _ _ same =>
      rw [same] at given
      refine ⟨?_, ?_⟩ <;> split
      · exact given.1
      · exact hbase.1
      · exact given.2
      · exact hbase.2
    next => exact hbase
  have listed_held : w.Holds listed := by
    unfold listed
    split
    · exact Descriptor.holds_withEnumerable fields_held _
    · exact fields_held
  split
  · exact Descriptor.holds_withConfigurable listed_held _
  · exact listed_held

/-- What a definition makes of a property refers to what either of them refers to. -/
theorem holds_apply {current result : Descriptor} (h : w.Holds d) (hcurrent : w.Holds current)
    (applied : d.apply current = .ok result) : w.Holds result := by
  rcases apply_cases applied with ⟨-, rfl⟩ | ⟨-, -, rfl⟩ | ⟨-, rfl⟩
  · exact hcurrent
  · exact holds_mergeInto h hcurrent
  · refine holds_mergeInto h ?_
    split
    · exact ⟨trivial, trivial⟩
    · trivial

end Definition

/-! ### Objects -/

namespace ObjectRecord

variable {r : ObjectRecord} {name : String} {p : Descriptor}

/-- An own property is held with its record. -/
theorem Held.own? (h : w.Holds r) (name : String) : w.Holds (r.own? name) := by
  cases own : r.own? name with
  | none => trivial
  | some d => exact h.properties name d own

/-- A record holds what is stored in it. -/
theorem Held.store (h : w.Holds r) (hp : w.Holds p) (name : String) : w.Holds (r.store name p) :=
  ⟨h.prototype, holds_insert h.properties hp, h.primitive, h.callable⟩

/-- A record from which a property is removed holds the others. -/
theorem Held.remove (h : w.Holds r) (name : String) : w.Holds (r.remove name) :=
  ⟨h.prototype, holds_erase h.properties name, h.primitive, h.callable⟩

/-- A record that is closed holds what it held. -/
theorem Held.preventExtensions (h : w.Holds r) : w.Holds r.preventExtensions :=
  ⟨h.prototype, h.properties, h.primitive, h.callable⟩

/-- What a record accepts is a property that it had, changed by what it is asked for. -/
theorem Held.accept {d : Definition} (h : w.Holds r) (hd : w.Holds d)
    (accepted : r.accept name d = .ok p) : w.Holds p := by
  unfold ObjectRecord.accept at accepted
  split at accepted
  · split at accepted
    · cases accepted
      exact Definition.holds_complete hd
    · cases accepted
  next current own => exact Definition.holds_apply hd (Held.own? h name |>.of_some own) accepted

end ObjectRecord

/-! ### Bindings -/

namespace Bindings

variable {b : Bindings} {v : Value}

/-- A new binding is undefined. -/
theorem holds_create (h : w.Holds b) (name : String) (deletable : Bool) :
    w.Holds (b.create name deletable) :=
  holds_insert (t := b.table) h trivial

/-- A new binding that cannot be assigned is undefined too. -/
theorem holds_createImmutable (h : w.Holds b) (name : String) :
    w.Holds (b.createImmutable name) :=
  holds_insert (t := b.table) h trivial

/-- A binding may be given a value that is held. -/
theorem holds_give (h : w.Holds b) (hv : w.Holds v) (takes : Binding → Bool) (name : String) :
    w.Holds (b.give takes name v) := by
  unfold give
  split
  · split
    · exact holds_insert (t := b.table) h hv
    · exact h
  · exact h

/-- Bindings without one of them hold the others. -/
theorem holds_delete (h : w.Holds b) (name : String) : w.Holds (b.delete name).1 := by
  unfold delete
  split
  · exact h
  · split
    · exact holds_erase (t := b.table) h name
    · exact h

/-- The value of a binding is held with it. -/
theorem holds_get (h : w.Holds b) (name : String) : w.Holds (b.get name) := by
  unfold get
  split
  next binding found => exact holds_getD (x := binding.value) (h name binding found) trivial
  next => trivial

end Bindings

/-! ### Contexts -/

namespace ContextStack

variable {s : ContextStack}

/-- The innermost context may be changed to one that is held. -/
theorem holds_modifyRunning (h : w.Holds s) {f : Context → Context}
    (hf : ∀ c, w.Holds c → w.Holds (f c)) : w.Holds (s.modifyRunning f) := by
  rcases s with ⟨_ | ⟨c, rest⟩⟩
  · exact h
  · intro d hd
    rcases List.mem_cons.1 hd with rfl | later
    · exact hf c (h c List.mem_cons_self)
    · exact h d (List.mem_cons_of_mem c later)

/-- A context that is held may be pushed. -/
theorem holds_push (h : w.Holds s) {c : Context} (hc : w.Holds c) : w.Holds (s.push c) := by
  intro d hd
  rcases List.mem_cons.1 hd with rfl | later
  · exact hc
  · exact h d later

theorem holds_pop (h : w.Holds s) : w.Holds s.pop :=
  fun c hc => h c (List.mem_of_mem_tail hc)

/-- The environment for names may be changed to one that is held. -/
theorem holds_setLexicalEnv (h : w.Holds s) {e : EnvId} (he : w.Holds e) :
    w.Holds (s.setLexicalEnv e) :=
  holds_modifyRunning h fun _ hc => ⟨hc.function, he, hc.variableEnv, hc.this⟩

theorem holds_markReturned (h : w.Holds s) : w.Holds s.markReturned :=
  holds_modifyRunning h fun _ hc => ⟨hc.function, hc.lexicalEnv, hc.variableEnv, hc.this⟩

theorem holds_enterBlock (h : w.Holds s) : w.Holds s.enterBlock :=
  holds_modifyRunning h fun _ hc => ⟨hc.function, hc.lexicalEnv, hc.variableEnv, hc.this⟩

/-- To leave a block is to lower depths, which refer to nothing. -/
theorem holds_exit {l : List Context} (h : w.Holds l) (index : Nat) :
    w.Holds (exitBlock.exit index l) := by
  induction l with
  | nil => exact h
  | cons c rest ih =>
    have later : w.Holds rest := fun d hd => h d (List.mem_cons_of_mem c hd)
    have first : w.Holds c := h c List.mem_cons_self
    rw [exitBlock.exit]
    split
    · rintro d hd
      rcases List.mem_cons.1 hd with rfl | hd
      · exact ⟨first.function, first.lexicalEnv, first.variableEnv, first.this⟩
      · exact later d hd
    · intro d hd
      rcases List.mem_cons.1 hd with rfl | hd
      · exact first
      · exact ih later d hd

theorem holds_exitBlock (h : w.Holds s) (index : Nat) : w.Holds (s.exitBlock index) :=
  holds_exit (l := s.contexts) h index

/-- No context is lost when a block is left. -/
theorem length_exit (cs : List Context) (index : Nat) :
    (exitBlock.exit index cs).length = cs.length := by
  induction cs with
  | nil => rfl
  | cons c rest ih =>
    rw [exitBlock.exit]
    split
    · rfl
    · rw [List.length_cons, ih, List.length_cons]

/-- The stack is as deep as before when a block is left. -/
theorem size_exitBlock (s : ContextStack) (index : Nat) : (s.exitBlock index).size = s.size :=
  length_exit s.contexts index

end ContextStack

/-! ### Completions -/

namespace Completion

variable {c : Completion} {v : Option Value}

/-- The value of a completion is held with it. -/
theorem holds_getValue (h : w.Holds c) : w.Holds c.getValue := holds_getD (x := c.value) h trivial

/-- A completion without a value may be given one that is held. -/
theorem holds_updateEmpty (h : w.Holds c) (hv : w.Holds v) : w.Holds (c.updateEmpty v) := by
  show w.Holds (c.updateEmpty v).value
  rw [value_updateEmpty]
  exact holds_or (x := c.value) h hv

end Completion

end AbstractScript
