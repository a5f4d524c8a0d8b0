import AbstractScript.Analysis.Run
import AbstractScript.Proofs.FramedOperations

/-!
# Assignments that may or may not happen

What an object is like after an assignment that may or may not happen has to cover both outcomes: a
property that the assignment can change is unknown afterwards. This holds of every assignment that
changes one property only (`Op.put_covers_both`). It fails of an array that has to grow, since the
new length is stored as if the assignment were certain (`Op.put_misses_growth`).
-/
namespace AbstractScript

open Eval Machine

/-! ## Look-ups do not depend on contexts -/

namespace Realm

variable {r r' : Realm}

theorem object_congr (same : r'.objects = r.objects) (o : ObjectId) : r'.object o = r.object o := by
  rw [object, same, object]

theorem chainWithin_of_prototype {steps : Nat} {o : Option ObjectId}
    (same : ∀ p ∈ r.chainWithin steps o, (r'.object p).prototype = (r.object p).prototype) :
    r'.chainWithin steps o = r.chainWithin steps o := by
  induction steps generalizing o with
  | zero => rfl
  | succ steps ih =>
    cases o with
    | none => rfl
    | some o =>
      rw [chainWithin, List.forall_mem_cons] at same
      rw [chainWithin, chainWithin, same.1, ih same.2]

theorem chainWithin_congr (same : r'.objects = r.objects) (steps : Nat) (o : Option ObjectId) :
    r'.chainWithin steps o = r.chainWithin steps o :=
  chainWithin_of_prototype fun p _ => by rw [object_congr same]

/-- More steps lead further along a chain. -/
theorem chainWithin_subset {steps more : Nat} (le : steps ≤ more) {o : Option ObjectId} :
    r.chainWithin steps o ⊆ r.chainWithin more o := by
  induction more generalizing steps o with
  | zero =>
    obtain rfl := Nat.le_zero.1 le
    exact List.Subset.refl _
  | succ more ih =>
    cases o with
    | none => cases steps <;> exact List.Subset.refl _
    | some o =>
      cases steps with
      | zero => exact List.nil_subset _
      | succ steps => exact List.cons_subset_cons _ (ih (Nat.le_of_succ_le_succ le))

theorem property?_congr (same : r'.objects = r.objects) (o : ObjectId) (name : String) :
    r'.property? o name = r.property? o name := by
  have objects : r'.object = r.object := funext (object_congr same)
  rw [property?, property?, chain, chain, same, chainWithin_congr same, findProperty?, findProperty?,
    objects]

theorem canPut_congr (same : r'.objects = r.objects) (o : ObjectId) (name : String) :
    r'.canPut o name = r.canPut o name := by
  have objects : r'.object = r.object := funext (object_congr same)
  rw [canPut, canPut, prototypes, prototypes, chain, chain, same, chainWithin_congr same,
    findProperty?, findProperty?, objects]

/-- A property that an object does not have itself is looked for on its prototypes. -/
theorem property?_of_absent {o : ObjectId} {name : String} (there : o.index < r.objects.size)
    (absent : (r.object o).own? name = none) :
    r.property? o name = r.findProperty? (r.prototypes o) name := by
  rw [property?, prototypes, chain]
  cases size : r.objects.size with
  | zero => omega
  | succ n =>
    rw [chainWithin, findProperty?, List.findSome?_cons, absent]
    rfl

/-- An own property is found. -/
theorem hasProperty_of_own {o : ObjectId} {name : String} {d : Descriptor}
    (own : (r.object o).own? name = some d) : r.hasProperty o name = true := by
  rw [hasProperty, property?_of_own own]
  rfl

/-- The function that an assignment to a property runs, if the property is not found as a value. -/
def setter? (r : Realm) (o : ObjectId) (name : String) : Option ObjectId :=
  match r.property? o name with
  | some (.accessor _ f _ _) => f
  | _ => none

end Realm

/-! ## What an assignment stores -/

namespace ObjectRecord

/-- True for functions that run no program code. -/
def IsNative (r : ObjectRecord) : Prop :=
  ∃ name native construct, r.callable = some (.native name (some native) construct)

/-- The property that an assignment of a value leaves. -/
def assigned (r : ObjectRecord) (name : String) (v : Value) : Descriptor :=
  match r.own? name with
  | some d => d.setValue v
  | none => .plain v

/-- The index of an element of an array, the length of the array and whether that is writable. -/
def element? (r : ObjectRecord) (name : String) : Option (Nat × Nat × Bool) :=
  if r.cls = .array then
    (Number.arrayIndex? name).bind fun index =>
      (Op.arrayLength? r).map fun (length, writable) => (index, length, writable)
  else none

/-- The object after an assignment that nothing prevents. An element beyond the end of an array
makes the array longer, unless its length is read-only. -/
def assign (r : ObjectRecord) (name : String) (v : Value) : ObjectRecord :=
  let stored := r.store name (r.assigned name v)
  match r.element? name with
  | some (index, length, writable) =>
    if index < length then stored
    else if writable then stored.store "length" (Op.lengthDescriptor (index + 1) true)
    else r
  | none => stored

variable {r : ObjectRecord} {name : String} {v : Value} {d : Definition}

/-- An unknown value is all that an assignment of it leaves of a property. -/
theorem isUnknown_assigned (plain : ∀ g f e c, r.own? name ≠ some (.accessor g f e c)) :
    (r.assigned name .unknown).IsUnknown := by
  unfold assigned
  cases own : r.own? name with
  | none => exact ⟨true, true, true, rfl⟩
  | some d =>
    cases d with
    | data v w e c => exact ⟨w, e, c, rfl⟩
    | accessor g f e c => exact absurd own (plain g f e c)

/-- An assignment to a property that is no element of an array changes this property only. -/
theorem own?_assign_of_element?_eq_none (none : r.element? name = none) (v : Value)
    (other : String) :
    (r.assign name v).own? other =
      if other = name then some (r.assigned name v) else r.own? other := by
  rw [assign, none]
  exact own?_store ..

/-- What an assignment leaves of other properties does not depend on the value. -/
theorem own?_assign_of_ne {other : String} (ne : other ≠ name) (v w : Value) :
    (r.assign name v).own? other = (r.assign name w).own? other := by
  unfold assign
  split
  · split
    · simp [ne]
    · split <;> simp [ne]
  · simp [ne]

theorem element?_of_ne_array (ordinary : r.cls ≠ .array) : r.element? name = none := if_neg ordinary

theorem element?_length (r : ObjectRecord) : r.element? "length" = none := by
  rw [element?, show Number.arrayIndex? "length" = none by decide]
  exact ite_self none

/-- An assignment has its effect, or a read-only length prevents it whatever the value is. -/
theorem own?_assign (r : ObjectRecord) (name : String) :
    (∀ v, r.assign name v = r) ∨
      ∀ v, (r.assign name v).own? name = some (r.assigned name v) := by
  unfold assign
  cases found : r.element? name with
  | none => exact .inr fun v => by simp
  | some place =>
    obtain ⟨index, length, writable⟩ := place
    have element : "length" ≠ name := by
      unfold element? at found
      split at found
      · obtain ⟨i, isIndex, -⟩ := Option.bind_eq_some_iff.1 found
        exact Op.length_ne_arrayIndex isIndex
      · cases found
    by_cases inside : index < length
    · exact .inr fun v => by simp [inside]
    · cases writable
      · exact .inl fun v => by simp [inside]
      · exact .inr fun v => by simp [inside, element.symm]

/-- A definition that an assignment of a value makes: of the value of a property that can be
written, or of a new property. -/
inductive Assigns (r : ObjectRecord) (name : String) (v : Value) : Definition → Prop
  | old {w : Value} {e c : Bool} (h : r.own? name = some (.data w true e c)) :
    Assigns r name v (.value v)
  | new (h : r.own? name = none) (more : r.extensible = true) : Assigns r name v (.plain v)

theorem Assigns.accept (h : r.Assigns name v d) : r.accept name d = .ok (r.assigned name v) := by
  cases h with
  | old own =>
    rw [ObjectRecord.accept, assigned, own]
    rename_i c
    cases c <;> rfl
  | new absent more =>
    rw [ObjectRecord.accept, assigned, absent]
    exact if_pos more

theorem Assigns.value? (h : r.Assigns name v d) : d.value? = some v := by
  cases h <;> rfl

theorem Assigns.withValue (h : r.Assigns name v d) : d.withValue v = d := by
  cases h <;> rfl

end ObjectRecord

namespace Op

variable {m : Machine} {o : ObjectId} {name : String} {v : Value} {d : Definition}

theorem object_modifyObject (there : o.index < m.realm.objects.size)
    (f : ObjectRecord → ObjectRecord) :
    (m.modifyObject o f).realm.object o = f (m.realm.object o) := by
  rw [Machine.modifyObject, Realm.object_modifyObject, if_pos ⟨rfl, there⟩]

theorem object_defineOrdinary (there : o.index < m.realm.objects.size)
    (h : (m.realm.object o).Assigns name v d) (strict : Bool) (s : Setup) :
    ((defineOrdinary o name d strict).after s m).realm.object o =
      (m.realm.object o).store name ((m.realm.object o).assigned name v) := by
  rw [Eval.after, defineOrdinary_apply, h.accept]
  exact object_modifyObject there _

theorem object_defineElement (there : o.index < m.realm.objects.size)
    (h : (m.realm.object o).Assigns name v d) (array : (m.realm.object o).cls = .array) {index : Nat}
    (isIndex : Number.arrayIndex? name = some index) (strict : Bool) (s : Setup) :
    ((defineElement o index name d strict).after s m).realm.object o =
      (m.realm.object o).assign name v := by
  rw [defineElement, after_object_bind]
  cases known : arrayLength? (m.realm.object o) with
  | none =>
    rw [ObjectRecord.assign, ObjectRecord.element?, if_pos array, isIndex, known]
    exact object_defineOrdinary there h strict s
  | some place =>
    obtain ⟨length, writable⟩ := place
    have element : (m.realm.object o).element? name = some (index, length, writable) := by
      rw [ObjectRecord.element?, if_pos array, isIndex, known]
      rfl
    simp only [ObjectRecord.assign, element]
    by_cases inside : index < length
    · rw [if_neg (by simp [Nat.not_le.2 inside]), after_bind, defineOrdinary_apply, h.accept]
      simp only [if_pos inside, if_neg (Nat.not_le.2 inside)]
      exact object_modifyObject there _
    · have beyond : length ≤ index := Nat.not_lt.1 inside
      -- an element behind the end makes the array longer, if its length is writable
      cases writable with
      | false =>
        rw [if_pos (by simp [beyond])]
        simp only [if_neg inside, Bool.false_eq_true, if_false]
        cases strict <;> rfl
      | true =>
        rw [if_neg (by simp), after_bind, defineOrdinary_apply, h.accept]
        simp only [if_neg inside, if_pos beyond, if_true]
        have stored := object_modifyObject there
          (·.store name ((m.realm.object o).assigned name v))
        rw [← stored]
        refine object_modifyObject ?_ _
        simpa [Machine.modifyObject, Realm.modifyObject] using there

/-- A definition that an assignment makes has the effect of the assignment. The length of an array
has to be unknown; otherwise the array may have to become shorter. -/
theorem object_define (there : o.index < m.realm.objects.size)
    (h : (m.realm.object o).Assigns name v d)
    (length : (m.realm.object o).cls = .array → name = "length" → v = .unknown) (strict : Bool)
    (s : Setup) :
    ((define o name d strict).after s m).realm.object o = (m.realm.object o).assign name v := by
  have ordinary (none : (m.realm.object o).element? name = none) :
      ((defineOrdinary o name d strict).after s m).realm.object o =
        (m.realm.object o).assign name v := by
    rw [object_defineOrdinary there h, ObjectRecord.assign, none]
  rw [define, after_object_bind]
  split
  next other => exact ordinary (by rw [ObjectRecord.element?, if_neg other])
  next array =>
    have array : (m.realm.object o).cls = .array := Decidable.not_not.1 array
    split
    next isLength =>
      -- a length is only defined by an unknown value here
      obtain rfl := length array isLength
      subst isLength
      rw [defineLength, h.value?, after_bind]
      show ((defineOrdinary o "length" (d.withValue .unknown) strict).after s m).realm.object o = _
      rw [h.withValue]
      refine ordinary ?_
      rw [ObjectRecord.element?, if_pos array, show Number.arrayIndex? "length" = none by decide]
      rfl
    next =>
      split
      next index isIndex => exact object_defineElement there h array isIndex strict s
      next noIndex =>
        exact ordinary (by rw [ObjectRecord.element?, if_pos array, noIndex]; rfl)

/-! ## The three ways of an assignment -/

theorem put_readOnly (refused : m.realm.canPut o name = false) (v : Value) (strict : Bool)
    (s : Setup) : (put o name v strict).after s m = m := by
  rw [put, after_get_bind, if_pos (by simp [refused])]
  cases strict <;> rfl

/-- A function of the program is not run as an accessor. -/
theorem callAccessor_of_not_native {f : ObjectId} (script : ¬ (m.realm.object f).IsNative)
    (this : Value) (arguments : List Value) (s : Setup) :
    (callAccessor f this arguments).after s m = m := by
  rw [callAccessor, after_object_bind]
  split
  next is => exact absurd ⟨_, _, _, is⟩ script
  next => rfl

/-- A setter of the program is not run. -/
theorem put_setter {f : ObjectId}
    (accessor : ∀ v w e c, (m.realm.object o).own? name ≠ some (.data v w e c))
    (found : m.realm.setter? o name = some f) (script : ¬ (m.realm.object f).IsNative) (v : Value)
    (strict : Bool) (s : Setup) : (put o name v strict).after s m = m := by
  cases allowed : m.realm.canPut o name with
  | false => exact put_readOnly allowed v strict s
  | true =>
    rw [put, after_get_bind, if_neg (by simp [allowed]), after_object_bind,
      after_bind_ok (weaken_apply ..)]
    split
    next own => exact absurd own (accessor _ _ _ _)
    next =>
      rw [after_bind_ok (property?_apply ..)]
      unfold Realm.setter? at found
      split at found
      next is =>
        subst found
        rw [is]
        exact (after_bind_pure ..).trans (callAccessor_of_not_native script _ _ s)
      next => cases found

/-- An assignment that nothing prevents stores the value, or an unknown one. -/
theorem put_stores (there : o.index < m.realm.objects.size)
    (allowed : m.realm.canPut o name = true)
    (data : (∃ v w e c, (m.realm.object o).own? name = some (.data v w e c)) ∨
      m.realm.setter? o name = none)
    (stored : (m.realm.object o).cls = .array → name = "length" →
      m.isAmbiguousWrite (m.realm.object o).createdLevel = true) (v : Value) (strict : Bool)
    (s : Setup) :
    ((put o name v strict).after s m).realm.object o = (m.realm.object o).assign name
      (if m.isAmbiguousWrite (m.realm.object o).createdLevel then .unknown else v) := by
  rw [put, after_get_bind, if_neg (by simp [allowed]), after_object_bind,
    after_bind_ok (weaken_apply ..)]
  have length (array : (m.realm.object o).cls = .array) (isLength : name = "length") :
      (if m.isAmbiguousWrite (m.realm.object o).createdLevel then .unknown else v) =
        Value.unknown := if_pos (stored array isLength)
  split
  next w writable e c own =>
    obtain rfl : writable = true := by simpa [Realm.canPut, own] using allowed
    exact (congrArg (fun n : Machine => n.realm.object o) (after_bind_pure ..)).trans
      (object_define there (.old own) length strict s)
  next notData =>
    have none : m.realm.setter? o name = none := by
      refine data.resolve_left ?_
      rintro ⟨w, writable, e, c, own⟩
      exact notData w writable e c own
    have absent : (m.realm.object o).own? name = Option.none := by
      cases own : (m.realm.object o).own? name with
      | none => rfl
      | some d =>
        cases d with
        | data w writable e c => exact (notData w writable e c own).elim
        | accessor g f e c =>
          simp [Realm.setter?, Realm.property?_of_own own] at none
          simp [Realm.canPut, own, none] at allowed
    -- a new property is allowed, so that the object is extensible
    have more : (m.realm.object o).extensible = true := by
      simp only [Realm.canPut, absent, ← Realm.property?_of_absent there absent] at allowed
      split at allowed
      · exact allowed
      next found =>
        simp only [Realm.setter?, found] at none
        simp [none] at allowed
      · exact (Bool.and_eq_true_iff.1 allowed).1
    rw [after_bind_ok (property?_apply ..)]
    split
    next found => simp [Realm.setter?, found] at none
    next =>
      exact (congrArg (fun n : Machine => n.realm.object o) (after_bind_pure ..)).trans
        (object_define there (.new absent more) length strict s)

/-- An assignment runs a setter, or finds a value or nothing. -/
theorem setter_or_data (m : Machine) (o : ObjectId) (name : String) :
    (∃ f, m.realm.setter? o name = some f ∧
        ∀ w writable e c, (m.realm.object o).own? name ≠ some (.data w writable e c)) ∨
      (∃ w writable e c, (m.realm.object o).own? name = some (.data w writable e c)) ∨
        m.realm.setter? o name = none := by
  cases found : m.realm.setter? o name with
  | none => exact .inr (.inr rfl)
  | some f =>
    by_cases data : ∃ w writable e c, (m.realm.object o).own? name = some (.data w writable e c)
    · exact .inr (.inl data)
    · exact .inl ⟨f, rfl, fun w writable e c own => data ⟨w, writable, e, c, own⟩⟩

/-- What an assignment replaces without a setter is no accessor. -/
theorem plain_of_canPut (allowed : m.realm.canPut o name = true)
    (data : (∃ w writable e c, (m.realm.object o).own? name = some (.data w writable e c)) ∨
      m.realm.setter? o name = none) (g f : Option ObjectId) (e c : Bool) :
    (m.realm.object o).own? name ≠ some (.accessor g f e c) := by
  intro own
  rcases data with ⟨w, writable, e', c', own'⟩ | none
  · rw [own] at own'
    cases own'
  · rw [Realm.setter?, Realm.property?_of_own own] at none
    subst none
    simp [Realm.canPut, own] at allowed

/-! ## Both outcomes -/

/-- A property is unknown after a change that may or may not happen, or it is the same without the
change, after the change and after the possible change. -/
def Covers (before certain possible : ObjectRecord) (name : String) : Prop :=
  (∃ d, possible.own? name = some d ∧ d.IsUnknown) ∨
    (certain.own? name = before.own? name ∧ possible.own? name = before.own? name)

/-- What an unknown value leaves of an object covers what any value leaves of it, if the value
changes no other property. -/
theorem covers_assign {r : ObjectRecord} {name : String} (v : Value)
    (plain : ∀ g f e c, r.own? name ≠ some (.accessor g f e c)) {other : String}
    (alone : other ≠ name → (r.assign name v).own? other = r.own? other) :
    Covers r (r.assign name v) (r.assign name .unknown) other := by
  by_cases ne : other = name
  · subst ne
    rcases r.own?_assign other with without | stored
    · exact .inr ⟨by rw [without], by rw [without]⟩
    · exact .inl ⟨_, stored .unknown, ObjectRecord.isUnknown_assigned plain⟩
  · refine .inr ⟨alone ne, ?_⟩
    rw [ObjectRecord.own?_assign_of_ne ne .unknown v]
    exact alone ne

/-- An unknown length covers every change that is made to the length only. -/
theorem covers_assign_length {r c : ObjectRecord}
    (plain : ∀ g f e c, r.own? "length" ≠ some (.accessor g f e c)) {other : String}
    (alone : other ≠ "length" → c.own? other = r.own? other) :
    Covers r c (r.assign "length" .unknown) other := by
  have possible := ObjectRecord.own?_assign_of_element?_eq_none r.element?_length .unknown other
  by_cases ne : other = "length"
  · rw [if_pos ne] at possible
    exact .inl ⟨_, possible, ObjectRecord.isUnknown_assigned plain⟩
  · rw [if_neg ne] at possible
    exact .inr ⟨alone ne, possible⟩

/-- **An assignment that may or may not happen covers both outcomes**, if no setter of the system
runs and, in an array, if the assignment changes no property besides the one that it names. -/
theorem put_covers_both (there : o.index < m.realm.objects.size)
    (possible : m.isAmbiguousWrite (m.realm.object o).createdLevel = true)
    {contexts : ContextStack}
    (certain : (m.withContexts contexts).isAmbiguousWrite (m.realm.object o).createdLevel = false)
    (script : ∀ f, m.realm.setter? o name = some f → ¬ (m.realm.object f).IsNative)
    (v : Value) (strict : Bool) (s : Setup)
    (alone : (m.realm.object o).cls = .array → ∀ other, other ≠ name →
      (((put o name v strict).after s (m.withContexts contexts)).realm.object o).own? other =
        (m.realm.object o).own? other) (other : String) :
    Covers (m.realm.object o)
      (((put o name v strict).after s (m.withContexts contexts)).realm.object o)
      (((put o name v strict).after s m).realm.object o) other := by
  have objects : (m.withContexts contexts).realm.objects = m.realm.objects := rfl
  -- Whether the assignment can succeed, and by what, is the same in both contexts.
  have allowed : (m.withContexts contexts).realm.canPut o name = m.realm.canPut o name :=
    Realm.canPut_congr objects o name
  have setter : (m.withContexts contexts).realm.setter? o name = m.realm.setter? o name := by
    rw [Realm.setter?, Realm.property?_congr objects, Realm.setter?]
  cases can : m.realm.canPut o name with
  | false =>
    rw [put_readOnly can, put_readOnly (allowed.trans can)]
    exact .inr ⟨rfl, rfl⟩
  | true =>
    rcases setter_or_data m o name with ⟨f, found, accessor⟩ | data
    · rw [put_setter accessor found (script f found),
        put_setter (m := m.withContexts contexts) accessor (setter.trans found) (script f found)]
      exact .inr ⟨rfl, rfl⟩
    · have plain := plain_of_canPut can data
      rw [put_stores there can data (fun _ _ => possible), if_pos possible]
      by_cases length : (m.realm.object o).cls = .array ∧ name = "length"
      · obtain ⟨array, rfl⟩ := length
        exact covers_assign_length plain (alone array other)
      · have stored := put_stores (m := m.withContexts contexts) there (allowed.trans can)
          (data.imp_right setter.trans) (fun array isLength => absurd ⟨array, isLength⟩ length)
          v strict s
        have certain' : ¬ (m.withContexts contexts).isAmbiguousWrite
            ((m.withContexts contexts).realm.object o).createdLevel = true :=
          Bool.eq_false_iff.1 certain
        rw [if_neg certain'] at stored
        rw [stored]
        refine covers_assign v plain fun ne => ?_
        by_cases array : (m.realm.object o).cls = .array
        · have := alone array other ne
          rwa [stored] at this
        · rw [ObjectRecord.own?_assign_of_element?_eq_none
            (ObjectRecord.element?_of_ne_array array), if_neg ne]

/-- The machine at the start of a run, with a further object. -/
def withRecord (record : ObjectRecord) : Machine := .start (Realm.initial.addObject record)

/-- An assignment to a new property of an object in an ambiguous block. -/
theorem put_covers_both_plain :
    Covers
      ((withRecord (Realm.plainRecord 0)).enterBlock.realm.object Realm.initial.nextObject)
      (((put Realm.initial.nextObject "x" .null false).after ⟨{}, .core, "", false⟩
        ((withRecord (Realm.plainRecord 0)).enterBlock.withContexts
          (withRecord (Realm.plainRecord 0)).contexts)).realm.object Realm.initial.nextObject)
      (((put Realm.initial.nextObject "x" .null false).after ⟨{}, .core, "", false⟩
        (withRecord (Realm.plainRecord 0)).enterBlock).realm.object Realm.initial.nextObject)
      "x" :=
  put_covers_both (by decide +kernel) (by decide +kernel) (by decide +kernel)
    (fun f found => absurd ((found.symm.trans (by decide +kernel)) : some f = none) nofun) _ _ _
    (fun array => absurd array (by decide +kernel)) "x"

/-- **An array that may have to grow gets a definite length.** In an ambiguous block, an assignment
to an index beyond the end of an array of length one leaves the length six, which covers only one
outcome. -/
theorem put_misses_growth :
    (withRecord (Realm.arrayRecord 0 [.null])).enterBlock.isAmbiguousWrite 0 = true ∧
    ((withRecord (Realm.arrayRecord 0 [.null])).enterBlock.withContexts
      (withRecord (Realm.arrayRecord 0 [.null])).contexts).isAmbiguousWrite 0 = false ∧
    ¬ Covers
      ((withRecord (Realm.arrayRecord 0 [.null])).enterBlock.realm.object Realm.initial.nextObject)
      (((put Realm.initial.nextObject "5" .null false).after ⟨{}, .core, "", false⟩
        ((withRecord (Realm.arrayRecord 0 [.null])).enterBlock.withContexts
          (withRecord (Realm.arrayRecord 0 [.null])).contexts)).realm.object
            Realm.initial.nextObject)
      (((put Realm.initial.nextObject "5" .null false).after ⟨{}, .core, "", false⟩
        (withRecord (Realm.arrayRecord 0 [.null])).enterBlock).realm.object
          Realm.initial.nextObject)
      "length" := by
  have before :
      ((withRecord (Realm.arrayRecord 0 [.null])).enterBlock.realm.object
        Realm.initial.nextObject).own? "length" = some (lengthDescriptor 1 true) := by
    decide +kernel
  have possible :
      (((put Realm.initial.nextObject "5" .null false).after ⟨{}, .core, "", false⟩
        (withRecord (Realm.arrayRecord 0 [.null])).enterBlock).realm.object
          Realm.initial.nextObject).own? "length" = some (lengthDescriptor 6 true) := by
    decide +kernel
  refine ⟨by decide +kernel, by decide +kernel, ?_⟩
  rintro (⟨d, own, w, e, c, rfl⟩ | ⟨-, same⟩)
  · rw [possible] at own
    cases own
  · rw [before, possible] at same
    exact absurd same (by decide +kernel)

end Op

end AbstractScript
