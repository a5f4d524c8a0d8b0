import AbstractScript.Operation.Arithmetic
import AbstractScript.Operation.Binding
import AbstractScript.Proofs.Lawful

/-!
# Operations are lawful

Every operation on objects, properties, bindings and references is lawful if the native functions
are and it is given only what there is. A definition of a property is checked by the object; the
length of an array is stored without a check, but only while it is writable.
-/
namespace AbstractScript

open Eval World

variable {L : Law} {w : World} {c : Nat}

/-! ## What is found -/

namespace Machine.Valid

variable {m : Machine}

/-- A property that is found refers only to what there is. -/
theorem holds_findProperty? (h : m.Valid L) (objects : List ObjectId) (name : String) :
    (m.world L).Holds (m.realm.findProperty? objects name) := by
  cases found : m.realm.findProperty? objects name with
  | none => trivial
  | some d =>
    obtain ⟨o, -, own⟩ := List.exists_of_findSome?_eq_some found
    exact own ▸ ObjectRecord.Held.own? (h.object o) name

/-- A property that an object of a lawful realm shows, own or inherited, holds only what is tracked.
-/
theorem holds_property? (h : m.Valid L) (o : ObjectId) (name : String) :
    (m.world L).Holds (m.realm.property? o name) := h.holds_findProperty? ..

/-- The environments around one that there is are there. -/
theorem holds_scopesWithin (h : m.Valid L) (steps : Nat) {e : Option EnvId}
    (held : (m.world L).Holds e) : (m.world L).Holds (m.realm.scopesWithin steps e) := by
  induction steps generalizing e with
  | zero => exact fun _ hs => nomatch hs
  | succ steps ih =>
    cases e with
    | none => exact fun _ hs => nomatch hs
    | some e =>
      have outer := ih (h.environment e).2
      intro scope hs
      rcases List.mem_cons.1 hs with rfl | later
      · exact held
      · exact outer scope later

/-- Looking a name up from an environment that is tracked stays among the tracked environments. -/
theorem holds_resolve (h : m.Valid L) {e : EnvId} (held : (m.world L).Holds e) (name : String) :
    (m.world L).Holds (m.realm.resolve e name) := by
  unfold Realm.resolve
  split
  next scope found =>
    have scopes : (m.world L).Holds (m.realm.scopes e) := h.holds_scopesWithin _ (e := some e) held
    exact scopes scope (List.mem_of_find?_eq_some found)
  next => trivial

/-- The object that a `with` lends as the receiver of a call is one its environment holds. -/
theorem holds_implicitThis (h : m.Valid L) (e : EnvId) :
    (m.world L).Holds (m.realm.implicitThis e) := by
  have held := (h.environment e).1
  unfold Realm.implicitThis
  split
  next o store =>
    rw [store] at held
    exact held
  next => trivial

/-- The context that is running refers to what there is, and so does the global one. -/
theorem holds_running? (h : m.Valid L) : (m.world L).Holds m.contexts.running? := by
  cases running : m.contexts.running? with
  | none => trivial
  | some c => exact h.now_sound.contexts c (List.mem_of_mem_head? running)

/-- The environment that names are resolved in is tracked at every lawful moment. -/
theorem holds_lexicalEnv (h : m.Valid L) : (m.world L).Holds m.lexicalEnv := by
  have held := h.holds_running?
  unfold lexicalEnv
  cases running : m.contexts.running? with
  | none => exact h.globalEnv
  | some c => exact (held.of_some running).lexicalEnv

/-- So is the receiver, the global object when no context is open. -/
theorem holds_this (h : m.Valid L) : (m.world L).Holds m.this := by
  have held := h.holds_running?
  unfold this
  cases running : m.contexts.running? with
  | none => exact h.intrinsic .global
  | some c => exact (held.of_some running).this

end Machine.Valid

/-! ## New objects and environments -/

namespace Eval

variable {ε : Type}

/-- An object is created that inherits from one that there is. -/
theorem lawful_create {record : Nat → ObjectRecord}
    (held : ∀ {w'}, w.Grows w' → (∀ i : Intrinsic, w'.Holds i.id) → ∀ level, w'.Holds (record level))
    (length : ∀ level, (record level).HasLength) :
    (create record : Eval ε ObjectId).Lawful L c w := by
  refine .modifyGet fun m valid grows => ⟨?_, fun _ => ?_⟩
  · exact valid.addObject (held grows valid.intrinsic _) fun _ => length _
  · simp [Realm.nextObject, Machine.moment, Machine.addObject, Realm.addObject]

/-- A fresh object is lawful unless it claims to be an array, which only `createArray` sets up. -/
theorem lawful_createObject {cls : ObjectClass} {prototype : Option ObjectId}
    (held : w.Holds prototype) (ne : cls ≠ .array) :
    (createObject cls prototype : Eval ε ObjectId).Lawful L c w :=
  lawful_create (fun grows _ _ => ⟨grows.lift held, holds_empty, trivial, trivial⟩)
    fun _ array => absurd array ne

/-- Plain objects need nothing beyond the prototype that the setup supplies. -/
theorem lawful_createPlain : (createPlain : Eval ε ObjectId).Lawful L c w :=
  lawful_create
    (fun _ intrinsic _ => ⟨intrinsic .objectPrototype, holds_empty, trivial, trivial⟩)
    fun _ array => nomatch array

/-- A fresh array is lawful with its length set to the number of elements, so lengths stay sound. -/
theorem lawful_createArray {elements : List Value} (held : w.Holds elements) :
    (createArray elements : Eval ε ObjectId).Lawful L c w := by
  refine lawful_create (fun grows intrinsic _ => ⟨intrinsic .arrayPrototype, ?_, trivial, trivial⟩)
    fun _ _ => ⟨.nat elements.length, true, ?_⟩
  · refine holds_insert (holds_indexed fun d hd => ?_) trivial
    obtain ⟨v, hv, rfl⟩ := List.mem_map.1 hd
    exact grows.lift (held v hv)
  · rw [ObjectRecord.own?, Realm.arrayRecord, Table.get?_insert, if_pos rfl]
    rfl

/-- A fresh environment is lawful when what it holds, its outer environment included, is tracked. -/
theorem lawful_createEnvironment {e : Environment} (held : w.Holds e) :
    (createEnvironment e : Eval ε EnvId).Lawful L c w := by
  refine .modifyGet fun m valid grows => ⟨?_, fun _ => ?_⟩
  · have held : (m.world L).Holds { e with createdLevel := m.realm.ambiguityLevel } :=
      (grows.lift held : (m.world L).Holds e)
    exact valid.addEnvironment held
  · simp [Realm.nextEnvironment, Machine.moment, Machine.addEnvironment, Realm.addEnvironment]

end Eval

/-- The native functions are lawful. -/
class LawfulNatives (L : Law) [Natives] : Prop where
  call : ∀ {w : World} {f : Native} {this : Value} {arguments : List Value},
    w.Holds f → w.Holds this → w.Holds arguments → (Natives.call f this arguments).Lawful L 0 w

namespace Op

variable {o : ObjectId} {name : String} {v : Value} {d : Definition} {strict : Bool}

/-! ## Conversions -/

/-- Looking a property up changes nothing and finds only what is tracked. -/
theorem lawful_property? (o : ObjectId) (name : String) : (property? o name).Lawful L c w :=
  .get_bind_at fun _ valid _ => .pure valid (valid.holds_property? o name)

/-- Asking for a property changes nothing. -/
theorem lawful_hasProperty (o : ObjectId) (name : String) : (hasProperty o name).Lawful L c w :=
  .get_bind fun _ => .free _

/-- Wrapping a primitive allocates one lawful object; an object is handed back as it is. -/
theorem lawful_toObject? (hv : w.Holds v) : (toObject? v).Lawful L c w := by
  unfold toObject?
  split
  · exact .pure hv
  · exact .pure trivial
  · refine .map (lawful_create ?_ fun _ array => nomatch array) fun _ _ ho => ho
    exact fun _ intrinsic _ => ⟨intrinsic .booleanPrototype, holds_empty, trivial, trivial⟩
  · refine .map (lawful_create ?_ fun _ array => nomatch array) fun _ _ ho => ho
    exact fun _ intrinsic _ => ⟨intrinsic .numberPrototype, holds_empty, trivial, trivial⟩
  · refine .map (lawful_create ?_ fun _ array => nomatch array) fun _ _ ho => ho
    refine fun _ intrinsic _ => ⟨intrinsic .stringPrototype, ?_, trivial, trivial⟩
    refine holds_insert (holds_indexed fun d hd => ?_) trivial
    obtain ⟨u, -, rfl⟩ := List.mem_map.1 hd
    trivial
  · exact .throw _
  · exact .throw _

section

variable [Natives] [LawfulNatives L]

/-- A native function is run that an object calls. -/
theorem lawful_callNative {record : ObjectRecord} {label : String} {native : Native}
    {construct : Option Native} {this : Value} {arguments : List Value} (hr : w.Holds record)
    (found : record.callable = some (.native label (some native) construct))
    (hthis : w.Holds this) (harguments : w.Holds arguments) :
    (Natives.call native this arguments).Lawful L c w :=
  (LawfulNatives.call (hr.callable.of_some found).1 hthis harguments).mono (Nat.zero_le c)

/-- The walk over the methods of a conversion is lawful: every method is called with lawful
arguments. -/
theorem lawful_convertBy (ho : w.Holds o) (methods : List String) :
    (convertBy o methods).Lawful L c w := by
  induction methods generalizing w with
  | nil => exact .throw _
  | cons method rest ih =>
    refine .bind (lawful_property? o method) fun grows d _ => ?_
    have ho := grows.lift ho
    split
    · exact ih ho
    · exact .pure trivial
    · exact .pure trivial
    · refine .bind (.object _) fun grows record hr => ?_
      have ho := grows.lift ho
      split
      next found =>
        refine .bind (lawful_callNative hr found ho nofun) fun grows v hv => ?_
        split
        · exact ih (grows.lift ho)
        · exact .pure hv
      next => exact .pure trivial
      next => exact ih ho
    · exact ih ho

/-- Conversion to a primitive is lawful for either hint, since both orders are walks over methods.
-/
theorem lawful_toPrimitive (hv : w.Holds v) (hint : Hint) :
    (toPrimitive v hint).Lawful L c w := by
  unfold toPrimitive
  split
  · exact lawful_convertBy hv _
  · exact .pure hv

/-- Conversion to a number is a conversion to a primitive that may raise afterwards. -/
theorem lawful_toNumber? (hv : w.Holds v) : (toNumber? v).Lawful L c w :=
  .bind (lawful_toPrimitive hv _) fun _ _ _ => .free _

/-- Conversion to a text is the same, with the other hint. -/
theorem lawful_toText? (hv : w.Holds v) : (toText? v).Lawful L c w :=
  .bind (lawful_toPrimitive hv _) fun _ _ _ => .free _

end

/-! ## Definitions -/

/-- What a definition of a property does, if it is accepted. -/
theorem defineOrdinary_true {s : Setup} {m n : Machine}
    (h : defineOrdinary o name d strict s m = .ok true n) :
    ∃ p, (m.realm.object o).accept name d = .ok p ∧ n = m.modifyObject o (·.store name p) := by
  unfold defineOrdinary at h
  obtain ⟨r, k, found, h⟩ := bind_eq_ok_iff.1 h
  cases found
  cases accepted : (m.realm.object o).accept name d with
  | ok p =>
    rw [accepted] at h
    cases h
    exact ⟨p, rfl, rfl⟩
  | error rejection =>
    rw [accepted] at h
    cases strict <;> cases h

/-- Defining a property of an ordinary object is lawful at a machine where the descriptor is
tracked. -/
theorem lawfulAt_defineOrdinary {m : Machine} (valid : m.Valid L) (hd : (m.world L).Holds d) :
    (defineOrdinary o name d strict).LawfulAt L c m := by
  have defined : (defineOrdinary o name d strict).Lawful L c (m.world L) := by
    refine .object_bind fun n valid grows => ?_
    split
    next p accepted =>
      have hp := ObjectRecord.Held.accept (valid.object o) (grows.lift hd) accepted
      refine .bind (.modifyObject valid (ObjectRecord.Held.store (valid.object o) hp name)
        fun _ => .accept accepted) fun _ n _ reached _ => ?_
      exact .pure reached.valid trivial
    next =>
      split
      · exact .throw _ valid
      · exact .pure valid trivial
  exact defined.at_machine valid

/-- A refusal raises or does nothing. -/
theorem lawful_reject : (reject strict name).Lawful L c w := by
  unfold reject
  split
  · exact .throw _
  · exact .pure trivial

/-! ### Lengths of arrays -/

/-- Setting the length directly is lawful while the length may still be written. -/
theorem lawfulAt_setLength {m : Machine} (valid : m.Valid L) (n : Nat) (writable : Bool)
    (length : L.tracked → (m.realm.object o).HasWritableLength) :
    (setLength o n writable).LawfulAt L c m :=
  .modifyObject valid
    (ObjectRecord.Held.store (p := lengthDescriptor n writable) (valid.object o) trivial _)
    fun tracked => .setLength (length tracked) n writable

/-- The length that an array has, as far as it is known. -/
theorem hasWritableLength_of_arrayLength? {r : ObjectRecord} {length : Nat} (h : r.HasLength)
    (array : r.cls = .array) (known : arrayLength? r = some (length, true)) :
    r.HasWritableLength := by
  obtain ⟨v, w, own⟩ := h array
  rw [arrayLength?, own] at known
  cases v <;> cases known
  exact ⟨_, own⟩

/-- The length is writable still if it was. -/
def KeepsLength (o : ObjectId) (m n : Machine) : Prop :=
  (m.realm.object o).HasWritableLength → (n.realm.object o).HasWritableLength

instance : IsPreorder Machine (KeepsLength o) where
  refl _ := id
  trans _ _ _ h h' := fun length => h' (h length)

/-- A change of an object that keeps the length of records keeps its length. -/
theorem keepsLength_modifyObject {m : Machine} {f : ObjectRecord → ObjectRecord}
    (h : (m.realm.object o).HasWritableLength → (f (m.realm.object o)).HasWritableLength) :
    KeepsLength o m (m.modifyObject o f) := by
  intro length
  rw [Machine.modifyObject, Realm.object_modifyObject]
  split
  · exact h length
  · exact length

/-- Deleting elements leaves the length and its flags alone. -/
theorem keepsLength_removeElements (indices : List Nat) :
    Keeps (KeepsLength o) (removeElements o indices) := by
  induction indices with
  | nil => exact .pure _
  | cons index rest ih =>
    refine ⟨fun s m => ?_⟩
    rw [removeElements, after_object_bind]
    split
    next removed =>
      refine Keeps.bind_at ?_ fun _ => ih
      exact keepsLength_modifyObject fun length => length.remove removed
    next => exact (Keeps.pure _).after s m

/-- Deleting elements is lawful, one index after the other. -/
theorem lawful_removeElements (indices : List Nat) : (removeElements o indices).Lawful L c w := by
  induction indices generalizing w with
  | nil => exact .pure trivial
  | cons index rest ih =>
    refine .object_bind fun m valid grows => ?_
    split
    next removed =>
      have removal := ObjectRecord.Held.remove (valid.object o) (Nat.repr index)
      refine .bind (.modifyObject valid removal fun _ => .remove removed) fun _ n _ reached _ => ?_
      exact ih.at_machine reached.valid
    next => exact .pure valid trivial

/-- An element of an array is defined. Its length is stored only if it is writable. -/
theorem lawfulAt_defineElement {m : Machine} (valid : m.Valid L) (hd : (m.world L).Holds d)
    (array : (m.realm.object o).cls = .array) (ne : "length" ≠ name) (index : Nat) :
    (defineElement o index name d strict).LawfulAt L c m := by
  have defined : (defineElement o index name d strict).LawfulAt L 0 m := by
    refine .object_bind ?_
    split
    next => exact lawfulAt_defineOrdinary valid hd
    next length writable known =>
      split
      next => exact lawful_reject.at_machine valid
      next admitted =>
        refine .bind (lawfulAt_defineOrdinary valid hd) fun accepted n run reached _ => ?_
        cases accepted with
        | false => exact lawful_reject.at_machine reached.valid
        | true =>
          -- The length is writable, since the element is beyond it and it was defined.
          have longer (beyond : length ≤ index) (tracked : L.tracked) :
              (n.realm.object o).HasWritableLength := by
            obtain rfl : writable = true := by simpa [beyond] using admitted
            obtain ⟨p, -, rfl⟩ := defineOrdinary_true run
            refine keepsLength_modifyObject (fun length => length.store ne p) ?_
            exact hasWritableLength_of_arrayLength? (valid.now_sound.length tracked o) array known
          split
          next =>
            split
            next beyond =>
              refine .bind (lawfulAt_setLength reached.valid _ _ (longer beyond)) ?_
              exact fun _ n _ reached _ => .pure reached.valid trivial
            next => exact .pure reached.valid trivial
          next contra => exact absurd rfl contra
  exact defined.mono (Nat.zero_le c)

/-- An array is made shorter. Its length is stored while it is writable. -/
theorem lawfulAt_truncate {m : Machine} (valid : m.Valid L) (hd : (m.world L).Holds d)
    (length : L.tracked → (m.realm.object o).HasWritableLength) (n : Nat) :
    (truncate o n d strict).LawfulAt L c m := by
  unfold truncate
  extract_lets staysWritable definition
  have held : (m.world L).Holds definition := by
    unfold definition
    split
    · exact hd
    · exact Definition.holds_withWritable hd true
  -- the length stays writable while elements are removed
  have given : definition.hasWritable = true → definition.descriptor.isWritable = true := by
    unfold definition
    split
    next stays =>
      intro listed
      simpa [staysWritable, listed] using stays
    next =>
      intro _
      cases h : d.descriptor <;> simp [Definition.withWritable, h] <;> rfl
  refine .bind (lawfulAt_defineOrdinary valid held) fun accepted k run reached _ => ?_
  cases accepted with
  | false => exact .pure reached.valid trivial
  | true =>
    have length (tracked : L.tracked) : (k.realm.object o).HasWritableLength := by
      obtain ⟨p, accepted, rfl⟩ := defineOrdinary_true run
      exact keepsLength_modifyObject (fun length => length.accept accepted given) (length tracked)
    have definition_held := reached.grows.lift held
    refine .object_bind (.bind ((lawful_removeElements _).at_machine reached.valid) ?_)
    intro left l run removed _
    cases left with
    | some index =>
      have length (tracked : L.tracked) : (l.realm.object o).HasWritableLength :=
        (keepsLength_removeElements _).of_ok run (length tracked)
      refine .bind (lawfulAt_setLength removed.valid _ _ length) fun _ _ _ reached _ => ?_
      exact lawful_reject.at_machine reached.valid
    | none =>
      have fixed : (l.world L).Holds (Definition.empty.withWritable false) :=
        Definition.holds_withWritable Definition.holds_empty false
      dsimp only
      split
      · refine .bind (lawfulAt_defineOrdinary removed.valid fixed) fun _ _ _ reached _ => ?_
        exact .pure reached.valid trivial
      · exact .pure removed.valid trivial

/-- An array gets a length that is known. -/
theorem lawfulAt_resize {m : Machine} (valid : m.Valid L) (hd : (m.world L).Holds d)
    (array : L.tracked → (m.realm.object o).cls = .array) (n : Nat) :
    LawfulAt L c m (do
      match arrayLength? (← object o) with
      | none => defineOrdinary o "length" d strict
      | some (old, writable) =>
        if old ≤ n then defineOrdinary o "length" d strict
        else if !writable then reject strict "length"
        else truncate o n d strict : Op Bool) := by
  refine .object_bind ?_
  split
  next => exact lawfulAt_defineOrdinary valid hd
  next old writable known =>
    split
    next => exact lawfulAt_defineOrdinary valid hd
    next =>
      split
      next => exact lawful_reject.at_machine valid
      next admitted =>
        obtain rfl : writable = true := by simpa using admitted
        refine lawfulAt_truncate valid hd (fun tracked => ?_) n
        exact hasWritableLength_of_arrayLength? (valid.now_sound.length tracked o) (array tracked)
          known

section

variable [Natives] [LawfulNatives L]

/-- The length of an array is defined. A conversion of the new length leaves it an array. -/
theorem lawfulAt_defineLength {m : Machine} (valid : m.Valid L) (ho : (m.world L).Holds o)
    (hd : (m.world L).Holds d) (array : (m.realm.object o).cls = .array) :
    (defineLength o d strict).LawfulAt L c m := by
  unfold defineLength
  have value := Definition.holds_value? hd
  split
  next => exact lawfulAt_defineOrdinary valid hd
  next v found =>
    refine .bind ((lawful_toNumber? (value.of_some found)).at_machine valid) ?_
    intro x n _ reached _
    have hd := reached.grows.lift hd
    -- the conversion may have called functions, but an array stays one
    have array (tracked : L.tracked) : (n.realm.object o).cls = .array :=
      (reached.precedes.lasting tracked o (ho tracked)).cls.trans array
    cases x with
    | none => exact lawfulAt_defineOrdinary reached.valid (Definition.holds_withValue hd trivial)
    | some x =>
      have hd := Definition.holds_withValue (v := .nat (Number.toUInt32 x).toNat) hd trivial
      dsimp only
      split
      · exact .bind (.throw _ reached.valid) fun _ _ run => nomatch run
      · exact lawfulAt_resize reached.valid hd array _

/-- A property is defined. -/
theorem lawful_define (ho : w.Holds o) (hd : w.Holds d) :
    (define o name d strict).Lawful L c w := by
  refine .object_bind fun m valid grows => ?_
  have hd := grows.lift hd
  split
  next => exact lawfulAt_defineOrdinary valid hd
  next array =>
    have array : (m.realm.object o).cls = .array := by simpa using array
    split
    next => exact lawfulAt_defineLength valid (grows.lift ho) hd array
    next ne =>
      split
      next index _ => exact lawfulAt_defineElement valid hd array (Ne.symm ne) index
      next => exact lawfulAt_defineOrdinary valid hd

/-- Creating a plain data property is one way of defining a property. -/
theorem lawful_createData (ho : w.Holds o) (hv : w.Holds v) :
    (createData o name v).Lawful L c w := lawful_define ho (Definition.holds_plain hv)

/-! ## Reading and writing -/

/-- Calling an accessor is lawful: the function is whatever the realm says it is. -/
theorem lawful_callAccessor {f : ObjectId} {this : Value} {arguments : List Value}
    (hthis : w.Holds this) (harguments : w.Holds arguments) :
    (callAccessor f this arguments).Lawful L c w := by
  refine .bind (.object f) fun grows record hr => ?_
  split
  next found => exact lawful_callNative hr found (grows.lift hthis) (grows.lift harguments)
  next => exact .pure trivial

/-- Reading a property for a receiver is lawful, a getter being a call. -/
theorem lawful_getFor {this : Value} (hthis : w.Holds this) :
    (getFor o this name).Lawful L c w := by
  refine .bind (lawful_property? o name) fun grows d hd => ?_
  split
  · exact .pure trivial
  · exact .pure hd
  · exact .pure trivial
  · exact lawful_callAccessor (grows.lift hthis) nofun

/-- Reading with the object as its own receiver. -/
theorem lawful_get (ho : w.Holds o) : (get o name).Lawful L c w := lawful_getFor ho

/-- Reading a property of any value goes through the object that stands for it. -/
theorem lawful_getOf (hv : w.Holds v) : (getOf v name).Lawful L c w := by
  unfold getOf
  split
  · exact .pure trivial
  · exact lawful_get hv
  · split
    next unit found =>
      refine .pure ?_
      -- what is read of a string is a string or a number
      unfold stringProperty? at found
      split at found
      · cases found
        trivial
      · split at found
        · obtain ⟨u, -, rfl⟩ := Option.map_eq_some_iff.1 found
          trivial
        · cases found
    next => exact lawful_getFor hv
  · refine .bind (lawful_toObject? hv) fun grows o _ => ?_
    split
    · exact lawful_getFor (grows.lift hv)
    · exact .pure trivial

omit [Natives] [LawfulNatives L] in
/-- Weakening a value puts an unknown one in its place, which is tracked everywhere. -/
theorem lawful_weaken {ε : Type} (level : Nat) (hv : w.Holds v) :
    (weaken level v : Eval ε Value).Lawful L c w := by
  refine .get_bind fun m => .pure ?_
  split
  · trivial
  · exact hv

/-- Writing is lawful: it defines a property, changes one in place or calls a setter. -/
theorem lawful_put (ho : w.Holds o) (hv : w.Holds v) : (put o name v strict).Lawful L c w := by
  refine .get_bind fun m => ?_
  split
  · split
    · exact .bind (.throw _) fun _ _ _ => .pure trivial
    · exact .pure trivial
  · refine .bind (.object o) fun grows record _ => ?_
    have ho := grows.lift ho
    refine .bind (lawful_weaken _ (grows.lift hv)) fun grows v hv => ?_
    have ho := grows.lift ho
    split
    · exact .bind (lawful_define ho (Definition.holds_value hv)) fun _ _ _ => .pure trivial
    · refine .bind (lawful_property? ..) fun grows d _ => ?_
      have ho := grows.lift ho
      have hv := grows.lift hv
      split
      · refine .bind (lawful_callAccessor ho ?_) fun _ _ _ => .pure trivial
        exact List.forall_mem_singleton.2 hv
      · exact .bind (lawful_define ho (Definition.holds_plain hv)) fun _ _ _ => .pure trivial

end

/-- Deleting removes a property only where its flags allow it, so what lasts is kept. -/
theorem lawful_delete (o : ObjectId) (name : String) (strict : Bool) :
    (delete o name strict).Lawful L c w := by
  refine .object_bind fun m valid _ => ?_
  split
  next removed =>
    refine .bind (.modifyObject valid (ObjectRecord.Held.remove (valid.object o) name)
      fun _ => .remove removed) fun _ n _ reached _ => ?_
    exact .pure reached.valid trivial
  next =>
    split
    · exact .throw _ valid
    · exact .pure valid trivial

/-! ## Bindings and references -/

/-- Reading an environment is lawful. -/
theorem lawful_environment {ε : Type} (e : EnvId) :
    (environment e : Eval ε Environment).Lawful L c w :=
  .get_bind_at fun _ valid _ => .pure valid (valid.environment e)

/-- The bindings of an environment are changed to some that refer to what there is. -/
theorem lawful_modifyBindings {ε : Type} (e : EnvId) {f : Bindings → Bindings}
    (h : ∀ {w'}, w.Grows w' → ∀ b, w'.Holds b → w'.Holds (f b)) :
    (modifyBindings e f : Eval ε Unit).Lawful L c w := by
  refine .modify fun m valid grows => valid.modifyEnvironment e ?_ ?_
  · have held := valid.environment e
    split
    next b store =>
      have bindings := held.1
      rw [store] at bindings
      exact ⟨h grows b bindings, held.2⟩
    next => exact held
  · split <;> rfl

/-- A result that was computed outside the machine is lawful when its value is tracked. -/
theorem lawful_ofExcept {α : Type} [Located α] {x : Except NativeError α} (hx : w.Holds x) :
    (ofExcept x).Lawful L c w := by
  cases x with
  | ok a => exact .pure hx
  | error e => exact .throw e

/-- Deleting a binding touches one environment, or one property of an object that serves as one. -/
theorem lawful_deleteBinding (e : EnvId) (name : String) :
    (deleteBinding e name).Lawful L c w := by
  refine .bind (lawful_environment e) fun _ env _ => ?_
  split
  · refine .bind (lawful_modifyBindings e fun _ b hb => Bindings.holds_delete hb name) ?_
    exact fun _ _ _ => .pure trivial
  · exact lawful_delete ..

section

variable [Natives] [LawfulNatives L]

/-- Reading a binding is reading a slot or a property. -/
theorem lawful_getBinding (e : EnvId) (name : String) : (getBinding e name).Lawful L c w := by
  refine .bind (lawful_environment e) fun _ env henv => ?_
  have store := henv.1
  split
  next b own =>
    rw [own] at store
    exact lawful_ofExcept (Bindings.holds_get store name)
  next o _ own =>
    rw [own] at store
    exact lawful_get store

/-- Writing a binding is writing a slot or a property. -/
theorem lawful_setBinding (e : EnvId) (hv : w.Holds v) : (setBinding e name v).Lawful L c w := by
  refine .bind (lawful_environment e) fun grows env _ => ?_
  refine .bind (lawful_weaken _ (grows.lift hv)) fun grows v hv => ?_
  refine .bind (lawful_environment e) fun grows env henv => ?_
  have hv := grows.lift hv
  have store := henv.1
  split
  next b own =>
    split
    · exact lawful_modifyBindings e fun grows b hb => Bindings.holds_give hb (grows.lift hv) _ name
    · exact .throw _
  next o _ own =>
    rw [own] at store
    exact lawful_put store hv

/-- Creating a binding is lawful: the new one is undefined. -/
theorem lawful_createBinding (e : EnvId) (name : String) (deletable : Bool) :
    (createBinding e name deletable).Lawful L c w := by
  refine .bind (lawful_environment e) fun _ env henv => ?_
  have store := henv.1
  split
  next => exact lawful_modifyBindings e fun _ b hb => Bindings.holds_create hb name deletable
  next o _ own =>
    rw [own] at store
    refine .bind (lawful_define store ?_) fun _ _ _ => .pure trivial
    exact (trivial : World.Holds _ Value.undefined)

/-- The value that a lawful reference stands for is got lawfully. -/
theorem lawful_getValue {r : Reference} (hr : w.Holds r) : (getValue r).Lawful L c w := by
  have base : w.Holds r.base := hr
  unfold getValue
  split
  next v found =>
    rw [found] at base
    exact lawful_getOf base
  next => exact lawful_getBinding ..
  next => exact .throw _
  next => exact .pure trivial

/-- Writing through a lawful reference is lawful; an unresolvable one goes to the global object. -/
theorem lawful_putValue {r : Reference} (hr : w.Holds r) (hv : w.Holds v) :
    (putValue r v).Lawful L c w := by
  have base : w.Holds r.base := hr
  unfold putValue
  split
  next =>
    refine ⟨fun m valid grows => ?_⟩
    exact (lawful_put (valid.intrinsic .global) (grows.lift hv)).at_machine valid
  next => exact lawful_setBinding _ hv
  next o found =>
    rw [found] at base
    exact lawful_put base hv
  next => exact .throw _
  next => exact .throw _
  next => exact .pure trivial
  next => exact .pure trivial

/-! ## Operators -/

/-- An arithmetic operator converts both operands and yields a number. -/
theorem lawful_numeric {a b : Value} (f : Float → Float → Float) (ha : w.Holds a)
    (hb : w.Holds b) : (numeric f a b).Lawful L c w := by
  refine .bind (lawful_toNumber? ha) fun grows x _ => ?_
  refine .bind (lawful_toNumber? (grows.lift hb)) fun _ y _ => ?_
  split <;> exact .pure trivial

/-- The sum of two primitives is a number or a text. -/
theorem lawful_addPrimitives {a b : Value} (ha : w.Holds a) (hb : w.Holds b) :
    (addPrimitives a b).Lawful L c w := by
  unfold addPrimitives
  split
  · exact .pure trivial
  · exact .pure trivial
  · split <;> exact .pure trivial
  · split <;> exact .pure trivial
  · exact lawful_numeric _ ha hb

instance : Located Comparison := .trivial _

/-- A comparison converts its operands and tracks nothing new. -/
theorem lawful_compare {a b : Value} (ha : w.Holds a) (hb : w.Holds b) :
    (compare a b).Lawful L c w :=
  .bind (lawful_toPrimitive ha _) fun grows _ _ =>
    .bind (lawful_toPrimitive (grows.lift hb) _) fun _ _ _ => .pure trivial

/-- The four orderings share the one comparison. -/
theorem lawful_ordered {a b : Value} (test : Ordering → Bool) (ha : w.Holds a) (hb : w.Holds b) :
    (ordered test a b).Lawful L c w := by
  refine .bind (lawful_compare ha hb) fun _ order _ => ?_
  split <;> exact .pure trivial

/-- Loose equality is lawful through all the conversions that it tries. -/
theorem lawful_looselyEqual? {a b : Value} (ha : w.Holds a) (hb : w.Holds b) :
    (looselyEqual? a b).Lawful L c w := by
  unfold looselyEqual?
  split
  · exact .free _
  · split
    · exact .bind (lawful_toPrimitive ha _) fun _ _ _ => .free _
    · exact .free _
  · split
    · exact .bind (lawful_toPrimitive hb _) fun _ _ _ => .free _
    · exact .free _
  · exact .free _

/-- The `in` operator only looks the property up. -/
theorem lawful_contains {key target : Value} (hkey : w.Holds key) :
    (contains key target).Lawful L c w := by
  unfold contains
  split
  · refine .bind (lawful_toText? hkey) fun _ name _ => ?_
    split
    · exact .bind (lawful_hasProperty ..) fun _ _ _ => .pure trivial
    · exact .pure trivial
  · exact .throw _

/-- The `instanceof` operator reads one property and walks the prototypes. -/
theorem lawful_instanceOf {v constructor : Value} (hconstructor : w.Holds constructor) :
    (instanceOf v constructor).Lawful L c w := by
  unfold instanceOf
  split
  · refine .bind (.object _) fun grows record _ => ?_
    extract_lets rest
    have rest_lawful (u : Unit) : (rest u).Lawful L c w := by
      unfold rest
      split
      · refine .bind (lawful_get hconstructor) fun _ p _ => ?_
        split
        · exact .get_bind fun _ => .pure trivial
        · exact .pure trivial
        · exact .throw _
      · exact .pure trivial
    split
    · exact .bind (.throw _) fun more u _ => (rest_lawful u).grow (grows.trans more)
    · exact (rest_lawful ()).grow grows
  · exact .throw _

/-- Every binary operator on known operands is lawful. -/
theorem lawful_applyKnown {a b : Value} (operator : BinaryOperator) (ha : w.Holds a)
    (hb : w.Holds b) : (applyKnown operator a b).Lawful L c w := by
  cases operator
  case strictlyEqual | strictlyUnequal => exact .pure (Value.holds_ofBool? _)
  case looselyEqual | looselyUnequal =>
    exact .bind (lawful_looselyEqual? ha hb) fun _ _ _ => .pure (Value.holds_ofBool? _)
  case lessThan | lessThanEqual | greaterThan | greaterThanEqual => exact lawful_ordered _ ha hb
  case add =>
    refine .bind (lawful_toPrimitive ha _) fun grows a ha => ?_
    refine .bind (lawful_toPrimitive (grows.lift hb) _) fun grows b hb => ?_
    exact lawful_addPrimitives (grows.lift ha) hb
  case contains => exact lawful_contains ha
  case instanceOf => exact lawful_instanceOf hb
  all_goals exact lawful_numeric _ ha hb

/-- An unknown operand makes the result unknown, which is lawful for every operator. -/
theorem lawful_apply {a b : Value} (operator : BinaryOperator) (ha : w.Holds a) (hb : w.Holds b) :
    (apply operator a b).Lawful L c w := by
  unfold apply
  split
  · exact .pure trivial
  · exact lawful_applyKnown operator ha hb

/-- A unary operator on numbers converts its operand and yields a number. -/
theorem lawful_numericUnary (f : Float → Float) (hv : w.Holds v) :
    (numericUnary f v).Lawful L c w :=
  .bind (lawful_toNumber? hv) fun _ _ _ => .pure (Value.holds_ofNumber? _)

omit [Natives] [LawfulNatives L] in
/-- The name of a type is a text. -/
theorem lawful_typeOf (v : Value) : (typeOf v).Lawful L c w :=
  .get_bind fun _ => .pure (Value.holds_ofString? _)

end

end Op

end AbstractScript
