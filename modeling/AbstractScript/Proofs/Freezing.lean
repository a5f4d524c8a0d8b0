import AbstractScript.Builtin.Objects
import AbstractScript.Proofs.FittingArrays

/-!
# Sealed and frozen objects

`Object.seal` and `Object.freeze` define every property of an object anew, one after the other, and
then forbid further ones. Each definition is accepted, whatever the order of the properties is and
whatever the ones before it have made read-only; so both succeed, and nothing but flags changes
(`Builtin.seal_and_freeze`).
-/
namespace AbstractScript

open Eval

/-! ## Properties -/

namespace Descriptor

/-- The property as one that cannot be removed or defined anew. -/
def sealed (d : Descriptor) : Descriptor := d.withConfigurable false

/-- The property as one that cannot be changed in any way. -/
def frozen (d : Descriptor) : Descriptor := d.sealed.setWritable false

/-- A change of a property that keeps what it holds and whether it is listed. -/
structure KeepsContents (f : Descriptor → Descriptor) : Prop where
  data : ∀ v w e c, ∃ w' c', f (data v w e c) = data v w' e c'
  accessor : ∀ g s e c, ∃ c', f (accessor g s e c) = accessor g s e c'

theorem keepsContents_sealed : KeepsContents sealed where
  data _ w _ _ := ⟨w, false, rfl⟩
  accessor _ _ _ _ := ⟨false, rfl⟩

theorem keepsContents_frozen : KeepsContents frozen where
  data _ _ _ _ := ⟨false, false, rfl⟩
  accessor _ _ _ _ := ⟨false, rfl⟩

@[simp] theorem isConfigurable_sealed (d : Descriptor) : d.sealed.isConfigurable = false := by
  cases d <;> rfl

@[simp] theorem isConfigurable_frozen (d : Descriptor) : d.frozen.isConfigurable = false := by
  cases d <;> rfl

@[simp] theorem isWritable_frozen (d : Descriptor) : d.frozen.isWritable = false := by
  cases d <;> rfl

end Descriptor

namespace Builtin

/-- A restriction of properties: each property admits the definition, which gives no value, and
becomes another one. -/
structure Restricts (restrict : Descriptor → Definition) (f : Descriptor → Descriptor) : Prop where
  apply : ∀ d, (restrict d).apply d = .ok (f d)
  value? : ∀ d, (restrict d).value? = none
  keeps : Descriptor.KeepsContents f

theorem restricts_sealing : Restricts (fun _ => sealing) Descriptor.sealed where
  apply d := by
    cases d with
    | data v w e c => cases c <;> rfl
    | accessor g s e c => cases c <;> rfl
  value? _ := rfl
  keeps := Descriptor.keepsContents_sealed

theorem restricts_freezing : Restricts freezing Descriptor.frozen where
  apply d := by
    cases d with
    | data v w e c => cases w <;> cases c <;> rfl
    | accessor g s e c => cases c <;> rfl
  value? d := by cases d <;> rfl
  keeps := Descriptor.keepsContents_frozen

end Builtin

/-! ## Objects -/

namespace ObjectRecord

variable {f : Descriptor → Descriptor} {names : List String} {name : String} {r r' : ObjectRecord}

/-- What a restriction of some properties leaves of an object. -/
structure Restricted (f : Descriptor → Descriptor) (names : List String) (r r' : ObjectRecord) :
    Prop where
  own : ∀ name, r'.own? name = if name ∈ names then (r.own? name).map f else r.own? name
  keys : r'.keys = r.keys
  rest : r' = { r with properties := r'.properties }

/-- What a restriction of all properties leaves of an object: each property is restricted, the keys
keep their order, and no property can be added. -/
structure Closed (f : Descriptor → Descriptor) (r r' : ObjectRecord) : Prop where
  own : ∀ name, r'.own? name = (r.own? name).map f
  keys : r'.keys = r.keys
  rest : r' = { r with properties := r'.properties, extensible := false }

theorem Restricted.refl (f : Descriptor → Descriptor) (r : ObjectRecord) : r.Restricted f [] r where
  own _ := by simp
  keys := rfl
  rest := rfl

/-- One more property is restricted. -/
theorem Restricted.store (h : r.Restricted f names r') {d : Descriptor} (own : r.own? name = some d) :
    r.Restricted f (names ++ [name]) (r'.store name (f d)) where
  own other := by
    rw [own?_store]
    by_cases same : other = name
    · subst same
      simp [own]
    · simp [same, h.own other]
  keys := by
    have listed : name ∈ r.keys := mem_keys_iff.2 ⟨d, own⟩
    rw [keys_store, h.keys, if_pos listed]
  rest := by
    rw [h.rest]
    rfl

/-- A restriction leaves the indices and the length of an array as they are. -/
theorem Restricted.isFitting (h : r.Restricted f names r') (keeps : Descriptor.KeepsContents f)
    (fits : r.IsFitting) : r'.IsFitting := by
  refine fits.congr (by rw [h.rest]) h.keys ?_
  have own := h.own "length"
  -- what counts of the length is its value, which no restriction changes
  unfold Op.arrayLength?
  cases before : r.own? "length" with
  | none =>
    rw [before, Option.map_none, ite_self] at own
    rw [own]
  | some d =>
    rw [before, Option.map_some] at own
    cases d with
    | data v w e c =>
      obtain ⟨w', c', kept⟩ := keeps.data v w e c
      split at own
      · rw [own, kept]
        cases v <;> rfl
      · rw [own]
    | accessor g s e c =>
      obtain ⟨c', kept⟩ := keeps.accessor g s e c
      split at own
      · rw [own, kept]
      · rw [own]

/-- When all properties are restricted, forbidding further ones closes the object. -/
theorem Restricted.closed (h : r.Restricted f r.keys r') : r.Closed f r'.preventExtensions where
  own name := by
    show r'.own? name = _
    rw [h.own]
    split
    next => rfl
    next absent => rw [own?_eq_none_iff.2 absent, Option.map_none]
  keys := h.keys
  rest := by
    rw [h.rest]
    rfl

/-- The properties of a closed object are restricted ones. -/
theorem Closed.all (h : r.Closed f r') {p : Descriptor → Bool} (hp : ∀ d, p (f d) = true) :
    (r'.properties.toList.all (p ·.2) && !r'.extensible) = true := by
  have extensible : r'.extensible = false := by rw [h.rest]
  rw [extensible, Bool.not_false, Bool.and_true, List.all_eq_true]
  rintro ⟨name, d⟩ listed
  have own : r'.own? name = some d := Table.get?_eq_some_iff.2 listed
  rw [h.own] at own
  obtain ⟨d', -, rfl⟩ := Option.map_eq_some_iff.1 own
  exact hp d'

end ObjectRecord

/-! ## Runs -/

namespace Builtin

variable {restrict : Descriptor → Definition} {f : Descriptor → Descriptor} {o : ObjectId}
  {s : Setup} {m : Machine} {arguments : List Value}

/-- What is done with each of the names in turn: if there still is a property, it is restricted. -/
def restrictOwn [Natives] (restrict : Descriptor → Definition) (o : ObjectId) (name : String) :
    Op Unit := do
  if let some d := (← object o).own? name then
    let _ ← Op.define o name (restrict d) true

/-- Properties are restricted one after the other. -/
theorem exists_forM {body : String → Op Unit} (keeps : Descriptor.KeepsContents f)
    (each : ∀ name d (k : Machine), (k.realm.object o).IsFitting →
      (k.realm.object o).own? name = some d →
        body name s k = .ok () (k.modifyObject o (·.store name (f d))))
    {r : ObjectRecord} (fits : r.IsFitting) {done : List String} (rest : List String)
    (nodup : (done ++ rest).Nodup) (listed : ∀ name ∈ rest, name ∈ r.keys)
    (there : o.index < m.realm.objects.size) (h : r.Restricted f done (m.realm.object o)) :
    ∃ n, rest.forM body s m = .ok () n ∧ n.realm.objects.size = m.realm.objects.size ∧
      (∀ other, other ≠ o → n.realm.object other = m.realm.object other) ∧
      r.Restricted f (done ++ rest) (n.realm.object o) := by
  induction rest generalizing done m with
  | nil =>
    rw [List.append_nil]
    exact ⟨m, rfl, rfl, fun _ _ => rfl, h⟩
  | cons name rest ih =>
    -- the property has not been restricted yet
    have new : name ∉ done := fun old =>
      (List.nodup_append.1 nodup).2.2 name old name List.mem_cons_self rfl
    obtain ⟨d, own⟩ := ObjectRecord.mem_keys_iff.1 (listed name List.mem_cons_self)
    have now : (m.realm.object o).own? name = some d := by rw [h.own, if_neg new, own]
    let k := m.modifyObject o (·.store name (f d))
    have step : body name s m = .ok () k := each name d m (h.isFitting keeps fits) now
    have size : k.realm.objects.size = m.realm.objects.size := Array.size_modify ..
    have stored : r.Restricted f (done ++ [name]) (k.realm.object o) := by
      rw [Op.object_modifyObject there]
      exact h.store own
    rw [List.append_cons] at nodup ⊢
    obtain ⟨n, run, size', others, restricted⟩ := ih nodup
      (fun other hother => listed other (List.mem_cons_of_mem _ hother)) (size ▸ there) stored
    refine ⟨n, ?_, size'.trans size, fun other ne => (others other ne).trans ?_, restricted⟩
    · show (body name >>= fun _ => rest.forM body) s m = _
      rw [bind_apply, step]
      exact run
    · show (m.realm.modifyObject o (·.store name (f d))).object other = _
      rw [Realm.object_modifyObject, if_neg fun same => ne same.1]

/-- A restriction of all properties succeeds and closes the object. -/
theorem close_closes [Natives] (restricts : Restricts restrict f)
    (there : o.index < m.realm.objects.size) (fits : (m.realm.object o).IsFitting)
    (first : argument arguments 0 = .object o) (this : Value) :
    ∃ n, close restrict this arguments s m = .ok (.object o) n ∧
      (∀ other, other ≠ o → n.realm.object other = m.realm.object other) ∧
      (m.realm.object o).Closed f (n.realm.object o) := by
  let r := m.realm.object o
  let body := restrictOwn restrict o
  -- every property is defined by its own contents once more
  have each (name : String) (d : Descriptor) (k : Machine) (fits : (k.realm.object o).IsFitting)
      (own : (k.realm.object o).own? name = some d) :
      body name s k = .ok () (k.modifyObject o (·.store name (f d))) := by
    have accepted : (k.realm.object o).accept name (restrict d) = .ok (f d) := by
      rw [ObjectRecord.accept, own]
      exact restricts.apply d
    have listed := ObjectRecord.mem_keys_iff.2 ⟨d, own⟩
    have defined (strict : Bool) : Op.define o name (restrict d) strict s k =
        .ok true (k.modifyObject o (·.store name (f d))) :=
      Op.define_of_isFitting fits listed (fun _ => restricts.value? d) accepted
    have read : (object o : Op _) s k = .ok (k.realm.object o) k := rfl
    simp only [body, restrictOwn, bind_apply, read, own, defined, pure_apply]
  obtain ⟨n, run, size, others, restricted⟩ := exists_forM restricts.keeps each fits r.keys
    (by rw [List.nil_append]; exact r.nodup_keys) (fun _ => id) there (.refl f r)
  -- at last no property can be added
  refine ⟨n.modifyObject o (·.preventExtensions), ?_, fun other ne => ?_, ?_⟩
  · have required : requireObject (argument arguments 0) s m = .ok o m := by
      rw [first]
      rfl
    exact bind_eq_ok_iff.2 ⟨o, m, required, bind_eq_ok_iff.2 ⟨r, m, rfl,
      bind_eq_ok_iff.2 ⟨(), n, run, rfl⟩⟩⟩
  · show (n.realm.modifyObject o (·.preventExtensions)).object other = _
    rw [Realm.object_modifyObject, if_neg fun same => ne same.1]
    exact others other ne
  · rw [Op.object_modifyObject (size ▸ there)]
    exact restricted.closed

/-- A closed object is closed in any way that its restricted properties are. -/
theorem isClosed_of_closed {p : Descriptor → Bool} {r : ObjectRecord}
    (closed : r.Closed f (m.realm.object o)) (hp : ∀ d, p (f d) = true)
    (first : argument arguments 0 = .object o) (this : Value) :
    isClosed p this arguments s m = .ok (.bool true) m := by
  have required : requireObject (argument arguments 0) s m = .ok o m := by
    rw [first]
    rfl
  have all := closed.all hp
  rw [isClosed, bind_apply, required]
  show EStateM.Result.ok (Value.bool (_ && !(m.realm.object o).extensible)) m = _
  rw [all]

theorem isExtensible_apply (first : argument arguments 0 = .object o) (this : Value) :
    isExtensible this arguments s m = .ok (.bool (m.realm.object o).extensible) m := by
  have required : requireObject (argument arguments 0) s m = .ok o m := by
    rw [first]
    rfl
  rw [isExtensible, bind_apply, required]
  rfl

/-- **Sealing and freezing succeed and change flags only**, whatever the object is, unless it is an
array with an index that is not below its length. They return the object. Afterwards it is sealed, or
sealed and frozen, and not extensible. Its keys keep their order and its properties keep what they
hold and whether they are listed; what is writable becomes read-only by freezing alone. No other
object changes. -/
theorem seal_and_freeze [Natives] (there : o.index < m.realm.objects.size)
    (fits : (m.realm.object o).IsFitting) (first : argument arguments 0 = .object o)
    (this : Value) (s : Setup) :
    (∃ n, sealObject this arguments s m = .ok (.object o) n ∧
      (∀ other, other ≠ o → n.realm.object other = m.realm.object other) ∧
      (m.realm.object o).Closed Descriptor.sealed (n.realm.object o) ∧
      isSealed this arguments s n = .ok (.bool true) n ∧
      isExtensible this arguments s n = .ok (.bool false) n) ∧
    ∃ n, freezeObject this arguments s m = .ok (.object o) n ∧
      (∀ other, other ≠ o → n.realm.object other = m.realm.object other) ∧
      (m.realm.object o).Closed Descriptor.frozen (n.realm.object o) ∧
      isSealed this arguments s n = .ok (.bool true) n ∧
      isFrozen this arguments s n = .ok (.bool true) n ∧
      isExtensible this arguments s n = .ok (.bool false) n := by
  have fixed {f : Descriptor → Descriptor} {n : Machine}
      (closed : (m.realm.object o).Closed f (n.realm.object o)) :
      isExtensible this arguments s n = .ok (.bool false) n := by
    rw [isExtensible_apply first, closed.rest]
  constructor
  · obtain ⟨n, run, others, closed⟩ := close_closes (s := s) restricts_sealing there fits first this
    exact ⟨n, run, others, closed, isClosed_of_closed closed (by simp) first this, fixed closed⟩
  · obtain ⟨n, run, others, closed⟩ := close_closes (s := s) restricts_freezing there fits first this
    exact ⟨n, run, others, closed, isClosed_of_closed closed (by simp) first this,
      isClosed_of_closed closed (by simp) first this, fixed closed⟩

/-- An array of one element is frozen. -/
theorem seal_and_freeze_array :
    let m := Op.withRecord (Realm.arrayRecord 0 [.null])
    let o := Realm.initial.nextObject
    o.index < m.realm.objects.size ∧ (m.realm.object o).IsFitting ∧
      argument [.object o] 0 = .object o ∧
      ∃ n, freezeObject .undefined [.object o] ⟨{}, .core, "", false⟩ m = .ok (.object o) n ∧
        (n.realm.object o).own? "0" = some (.data .null false true false) ∧
        isFrozen .undefined [.object o] ⟨{}, .core, "", false⟩ n = .ok (.bool true) n := by
  intro m o
  have first : argument [.object o] 0 = .object o := rfl
  have there : o.index < m.realm.objects.size := by decide +kernel
  have record : m.realm.object o = Realm.arrayRecord 0 [.null] := by
    show (Realm.initial.addObject _).object Realm.initial.nextObject = _
    rw [Realm.object_addObject, if_pos rfl]
  have fits : (m.realm.object o).IsFitting := by
    rw [record]
    exact (ObjectRecord.isSized_arrayRecord 0 [.null]).isFitting
  have own : (m.realm.object o).own? "0" = some (.plain .null) := by decide +kernel
  clear_value m o
  obtain ⟨-, n, run, -, closed, -, frozen, -⟩ :=
    seal_and_freeze there fits first .undefined
      ⟨{}, .core, "", false⟩
  refine ⟨there, fits, first, n, run, ?_, frozen⟩
  rw [closed.own, own]
  rfl

end Builtin

end AbstractScript
