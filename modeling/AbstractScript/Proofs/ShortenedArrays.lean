import AbstractScript.Proofs.FittingArrays
import AbstractScript.Proofs.OwnProperty
import Mathlib.Data.List.TakeWhile

/-!
# Arrays that become shorter

When an array gets a smaller length its elements are removed from the last one on. One that cannot be
removed stays, and with it all elements before it: the length then ends just behind it. The length
becomes read-only all the same if that is asked for (`Op.truncate_standard`).
-/
namespace AbstractScript

open Eval Number

/-! ## The first element that fails a test -/

section

variable {p : Nat → Bool} {l : List Nat} {b i : Nat}

/-- Of a list in descending order, what is in front of the first failure is what is greater. -/
theorem mem_takeWhile_iff_of_find? (sorted : l.Pairwise (· ≥ ·))
    (first : l.find? (!p ·) = some b) (hi : i ∈ l) : i ∈ l.takeWhile p ↔ b < i := by
  -- by induction on the list: what fails first is the greatest that fails
  induction l with
  | nil => cases hi
  | cons a l ih =>
    obtain ⟨le, sorted⟩ := List.pairwise_cons.1 sorted
    by_cases passes : p a = true
    · rw [List.find?_cons_of_neg (by simp [passes])] at first
      have fails : p b = false := by simpa using List.find?_some first
      have less : b < a := by
        refine Nat.lt_of_le_of_ne (le b (List.mem_of_find?_eq_some first)) ?_
        rintro rfl
        rw [passes] at fails
        cases fails
      rw [List.takeWhile_cons_of_pos passes, List.mem_cons]
      constructor
      · rintro (rfl | there)
        · exact less
        · exact (ih sorted first ((List.takeWhile_subset p) there)).1 there
      · intro less
        rcases List.mem_cons.1 hi with rfl | hi
        · exact .inl rfl
        · exact .inr ((ih sorted first hi).2 less)
    · rw [List.find?_cons_of_pos (by simpa using passes)] at first
      obtain rfl := Option.some.inj first
      rw [List.takeWhile_cons_of_neg passes]
      constructor
      · intro h
        cases h
      · intro less
        rcases List.mem_cons.1 hi with rfl | hi
        · exact absurd less (Nat.lt_irrefl _)
        · exact absurd (le i hi) (Nat.not_le.2 less)

/-- If nothing fails, everything is in front of the first failure. -/
theorem takeWhile_eq_self_of_find? (none : l.find? (!p ·) = none) : l.takeWhile p = l := by
  rw [List.takeWhile_eq_self_iff]
  intro a ha
  simpa using List.find?_eq_none.1 none a ha

end

/-! ## Arrays -/

namespace ObjectRecord

/-- An array of a length that is writable or not. All indices are below the length. -/
structure IsArray (r : ObjectRecord) (n : Nat) (w : Bool) : Prop where
  cls : r.cls = .array
  length : r.own? "length" = some (Op.lengthDescriptor n w)
  small : n ≤ maxLength
  below : r.Below n

/-- What the removal of some properties leaves of an object. -/
structure Cleared (names : List String) (r r' : ObjectRecord) : Prop where
  own : ∀ name, r'.own? name = if name ∈ names then none else r.own? name
  keys : r'.keys = r.keys.filter (· ∉ names)
  rest : r' = { r with properties := r'.properties }

/-- True for an index that is absent or can be removed. -/
def isRemovable (r : ObjectRecord) (index : Nat) : Bool := r.canDelete (Nat.repr index)

/-- True for the name of an index at or above a number. -/
def isIndexFrom (n : Nat) (name : String) : Bool := (arrayIndex? name).any (n ≤ ·)

/-- What is left of an array that is made shorter: all properties but the indices at or above the
new length, in the same order. -/
structure Truncated (n : Nat) (w : Bool) (r r' : ObjectRecord) : Prop where
  array : r'.IsArray n w
  own : ∀ name, name ≠ "length" →
    r'.own? name = if isIndexFrom n name then none else r.own? name
  keys : r'.keys = r.keys.filter (!isIndexFrom n ·)
  rest : r' = { r with properties := r'.properties }

/-- The greatest index at or above a number that cannot be removed. -/
structure IsLastFixed (r : ObjectRecord) (n last : Nat) : Prop where
  above : n ≤ last
  small : last < maxLength
  fixed : r.isRemovable last = false
  greatest : ∀ index < maxLength, n ≤ index → r.isRemovable index = false → index ≤ last

variable {r r' : ObjectRecord} {n index : Nat} {w : Bool} {name : String} {names : List String}

theorem IsArray.arrayLength? (h : r.IsArray n w) : Op.arrayLength? r = some (n, w) := by
  rw [arrayLength?_of_own h.length, Nat.min_eq_left h.small]

/-- The length is one of the properties. -/
theorem IsArray.length_mem_keys (h : r.IsArray n w) : "length" ∈ r.keys :=
  mem_keys_iff.2 ⟨_, h.length⟩

theorem isIndexFrom_repr (small : index < maxLength) :
    isIndexFrom n (Nat.repr index) = decide (n ≤ index) := by
  rw [isIndexFrom, arrayIndex?_eq_some_iff.2 ⟨rfl, small⟩]
  rfl

theorem isIndexFrom_iff :
    isIndexFrom n name = true ↔ ∃ index < maxLength, name = Nat.repr index ∧ n ≤ index := by
  constructor
  · intro h
    unfold isIndexFrom at h
    cases element : arrayIndex? name with
    | none =>
      rw [element] at h
      cases h
    | some index =>
      rw [element] at h
      obtain ⟨rfl, small⟩ := arrayIndex?_eq_some_iff.1 element
      exact ⟨index, small, rfl, of_decide_eq_true h⟩
  · rintro ⟨index, small, rfl, above⟩
    rw [isIndexFrom_repr small]
    exact decide_eq_true above

theorem isIndexFrom_length (n : Nat) : isIndexFrom n "length" = false := by
  rw [← Bool.not_eq_true, isIndexFrom_iff]
  rintro ⟨index, -, same, -⟩
  exact repr_ne_length index same.symm

/-- What can be removed does not keep anything else from being removed. -/
theorem canDelete_remove (removable : r.canDelete name = true) (other : String) :
    (r.remove name).canDelete other = r.canDelete other := by
  by_cases same : other = name
  · subst same
    rw [removable, canDelete, own?_remove, if_pos rfl]
  · rw [canDelete, own?_remove, if_neg same, canDelete]

theorem Cleared.refl (r : ObjectRecord) : r.Cleared [] r where
  own _ := by simp
  keys := (List.filter_eq_self.2 fun _ _ => by simp).symm
  rest := rfl

/-- One more property is removed before the others. -/
theorem Cleared.cons (h : (r.remove name).Cleared names r') : r.Cleared (name :: names) r' where
  own other := by
    rw [h.own, own?_remove]
    by_cases same : other = name <;> by_cases listed : other ∈ names <;> simp [same, listed]
  keys := by
    rw [h.keys, keys_remove, List.filter_filter]
    refine List.filter_congr fun other _ => ?_
    by_cases same : other = name <;> by_cases listed : other ∈ names <;> simp [same, listed]
  rest := by
    rw [h.rest]
    rfl

end ObjectRecord

/-! ## The removal of elements -/

namespace Op

open ObjectRecord

variable {o : ObjectId} {name : String} {d : Definition} {strict : Bool} {s : Setup} {m : Machine}

/-- Elements are removed up to the first that cannot be removed, which is the answer. -/
theorem removeElements_apply (there : o.index < m.realm.objects.size) (indices : List Nat)
    (s : Setup) :
    ∃ n, removeElements o indices s m =
        .ok (indices.find? (!(m.realm.object o).isRemovable ·)) n ∧
      n.realm.objects.size = m.realm.objects.size ∧
      (∀ other, other ≠ o → n.realm.object other = m.realm.object other) ∧
      (m.realm.object o).Cleared
        ((indices.takeWhile (m.realm.object o).isRemovable).map Nat.repr) (n.realm.object o) := by
  -- by induction on the indices: removing one element changes nothing about the others
  induction indices generalizing m with
  | nil => exact ⟨m, rfl, rfl, fun _ _ => rfl, .refl _⟩
  | cons index rest ih =>
    have step : removeElements o (index :: rest) s m =
        (if (m.realm.object o).isRemovable index = true then
          modifyObject o (·.remove (Nat.repr index)) >>= fun _ => removeElements o rest
        else pure (some index) : Op _) s m := by
      rw [removeElements, bind_apply]
      rfl
    by_cases removable : (m.realm.object o).isRemovable index = true
    · let k := m.modifyObject o (·.remove (Nat.repr index))
      have size : k.realm.objects.size = m.realm.objects.size := Array.size_modify ..
      have removed : k.realm.object o = (m.realm.object o).remove (Nat.repr index) :=
        object_modifyObject there _
      have same : (k.realm.object o).isRemovable = (m.realm.object o).isRemovable := by
        funext other
        rw [removed]
        exact canDelete_remove removable _
      obtain ⟨n, run, size', others, cleared⟩ := ih (m := k) (size ▸ there)
      rw [same] at run cleared
      refine ⟨n, ?_, size'.trans size, fun other ne => (others other ne).trans ?_, ?_⟩
      · rw [step, if_pos removable, List.find?_cons_of_neg (by simp [removable])]
        exact bind_eq_ok_iff.2 ⟨(), k, rfl, run⟩
      · exact (Realm.object_modifyObject ..).trans (if_neg fun same => ne same.1)
      · rw [List.takeWhile_cons_of_pos removable]
        rw [removed] at cleared
        exact cleared.cons
    · refine ⟨m, ?_, rfl, fun _ _ => rfl, ?_⟩
      · rw [step, if_neg removable, List.find?_cons_of_pos (by simpa using removable)]
        rfl
      · rw [List.takeWhile_cons_of_neg removable]
        exact .refl _

/-- An array is in the table of objects. -/
theorem index_lt_of_isArray {n : Nat} {w : Bool} (array : (m.realm.object o).IsArray n w) :
    o.index < m.realm.objects.size := by
  refine Nat.lt_of_not_le fun outside => ?_
  have cls := array.cls
  rw [Realm.object_of_size_le outside] at cls
  cases cls

/-- A change of one object leaves the others as they are. -/
theorem object_modifyObject_of_ne {other : ObjectId} (ne : other ≠ o)
    (f : ObjectRecord → ObjectRecord) :
    (m.modifyObject o f).realm.object other = m.realm.object other :=
  (Realm.object_modifyObject ..).trans (if_neg fun same => ne same.1)

end Op

/-! ## The definition of a smaller length -/

namespace Standard

/-- Of a length that is writable, anything that keeps its flags can be defined. -/
theorem rejects_lengthDescriptor {given : Fields} (data : given.isData = true) (extensible : Bool)
    (n : Nat) : rejects extensible (some (Op.lengthDescriptor n true)) given =
      keepsFlags (Op.lengthDescriptor n true) given := by
  have generic : given.isGeneric = false := by rw [Fields.isGeneric, data]; rfl
  have kind : ((Op.lengthDescriptor n true).isData != given.isData) = false := by rw [data]; rfl
  rw [rejects_some, generic, kind]
  exact Bool.or_false _

end Standard

namespace Definition

variable {d : Definition} {v : Value}

/-- A value is given by definitions of data only. -/
theorem data_of_value? (given : d.value? = some v) :
    d.hasValue = true ∧ ∃ w e c, d.descriptor = .data v w e c := by
  unfold value? at given
  split at given
  next v' w e c is =>
    split at given
    next has =>
      obtain rfl := Option.some.inj given
      exact ⟨has, w, e, c, is⟩
    next => cases given
  next => cases given

/-- Another definition of data that gives the same flags. -/
structure HasFlagsOf (d d' : Definition) : Prop where
  data : d'.descriptor.isData = true
  accessor : d'.isAccessor = d.isAccessor
  configurable : d'.fields.configurable = d.fields.configurable
  enumerable : d'.fields.enumerable = d.fields.enumerable

theorem hasFlagsOf_withWritable (given : d.value? = some v) (w : Bool) :
    d.HasFlagsOf (d.withWritable w) := by
  obtain ⟨-, w', e, c, is⟩ := data_of_value? given
  refine ⟨?_, rfl, ?_, ?_⟩
  · simp [withWritable, is, Descriptor.asData, Descriptor.setWritable, Descriptor.isData]
  · rw [configurable_fields, configurable_fields]
    simp [withWritable, is, Descriptor.asData, Descriptor.setWritable, Descriptor.isConfigurable]
  · rw [enumerable_fields, enumerable_fields]
    simp [withWritable, is, Descriptor.asData, Descriptor.setWritable, Descriptor.isEnumerable]

theorem hasFlagsOf_withValue (given : d.value? = some v) (v' : Value) :
    d.HasFlagsOf (d.withValue v') := by
  obtain ⟨-, w', e, c, is⟩ := data_of_value? given
  refine ⟨?_, rfl, ?_, ?_⟩
  · simp [withValue, is, Descriptor.asData, Descriptor.setValue, Descriptor.isData]
  · rw [configurable_fields, configurable_fields]
    simp [withValue, is, Descriptor.asData, Descriptor.setValue, Descriptor.isConfigurable]
  · rw [enumerable_fields, enumerable_fields]
    simp [withValue, is, Descriptor.asData, Descriptor.setValue, Descriptor.isEnumerable]

/-- A value that is replaced, or made writable or not, is given as before. -/
theorem HasFlagsOf.isShaped {d' : Definition} (h : d.HasFlagsOf d') (shaped : d.IsShaped)
    (given : d.value? = some v) : d'.IsShaped := by
  obtain ⟨-, w', e, c, is⟩ := data_of_value? given
  have accessor : d'.isAccessor = false := by
    rw [h.accessor]
    exact shaped.isAccessor_eq_false (by rw [is]; rfl)
  refine ⟨fun _ => h.data, fun functions => ?_⟩
  rw [accessor] at functions
  cases functions

theorem HasFlagsOf.keepsFlags {d' : Definition} (h : d.HasFlagsOf d') (current : Descriptor) :
    Standard.keepsFlags current d'.fields = Standard.keepsFlags current d.fields := by
  rw [Standard.keepsFlags, h.configurable, h.enumerable, Standard.keepsFlags]

theorem isData_of_value? (given : d.value? = some v) : d.fields.isData = true := by
  obtain ⟨has, w, e, c, is⟩ := data_of_value? given
  simp [fields, Fields.isData, has, is, Descriptor.fields]

end Definition

namespace ObjectRecord

variable {r r' : ObjectRecord} {n length : Nat} {d : Definition}

/-- A length that is writable is replaced by one that is not made read-only. -/
theorem IsArray.accept_length (h : r.IsArray n true) (shaped : d.IsShaped)
    (value : d.value? = some (.nat length))
    (writable : d.hasWritable = true → d.descriptor.isWritable = true)
    (admissible : Standard.keepsFlags (Op.lengthDescriptor n true) d.fields = false) :
    r.accept "length" d = .ok (Op.lengthDescriptor length true) := by
  have standard := accept_standard shaped r "length"
  rw [h.length, Standard.rejects_lengthDescriptor (Definition.isData_of_value? value)] at standard
  cases accepted : r.accept "length" d with
  | error rejection =>
    rw [accepted, admissible] at standard
    cases standard
  | ok p =>
    have before : r.HasWritableLength := ⟨_, h.length⟩
    obtain ⟨v, own⟩ := before.accept accepted writable
    rw [own?_store, if_pos rfl] at own
    rw [accept, h.length] at accepted
    obtain ⟨w, rfl⟩ := Definition.apply_value accepted
    rw [value] at own ⊢
    cases own
    rfl

/-- The new length: just behind the last element that cannot be removed, or as asked for. -/
def newLength (length : Nat) (left : Option Nat) : Nat := (left.map (· + 1)).getD length

theorem le_newLength {left : Option Nat} (h : ∀ last ∈ left, length ≤ last) :
    length ≤ newLength length left := by
  cases left with
  | none => exact Nat.le_refl _
  | some last => exact Nat.le_succ_of_le (h last rfl)

/-- The indices that are removed are those at or above the new length. -/
theorem mem_removed_iff {left : Option Nat}
    (first : (Op.indicesFrom r length).find? (!r.isRemovable ·) = left) (name : String) :
    name ∈ ((Op.indicesFrom r length).takeWhile r.isRemovable).map Nat.repr ↔
      isIndexFrom (newLength length left) name = true ∧ name ∈ r.keys := by
  have sorted := Op.pairwise_indicesFrom r length
  have above : ∀ last ∈ left, length ≤ last := by
    rintro last ⟨⟩
    exact (Op.mem_indicesFrom.1 (List.mem_of_find?_eq_some first)).2.2
  -- what is removed lies behind the new length
  have removed (index : Nat) (hi : index ∈ Op.indicesFrom r length) :
      index ∈ (Op.indicesFrom r length).takeWhile r.isRemovable ↔
        newLength length left ≤ index := by
    cases left with
    | none =>
      rw [takeWhile_eq_self_of_find? first]
      exact ⟨fun _ => (Op.mem_indicesFrom.1 hi).2.2, fun _ => hi⟩
    | some last => exact mem_takeWhile_iff_of_find? sorted first hi
  rw [List.mem_map, isIndexFrom_iff]
  constructor
  · rintro ⟨index, there, rfl⟩
    have among := List.takeWhile_subset _ there
    obtain ⟨listed, small, -⟩ := Op.mem_indicesFrom.1 among
    exact ⟨⟨index, small, rfl, (removed index among).1 there⟩, listed⟩
  · rintro ⟨⟨index, small, rfl, beyond⟩, listed⟩
    have among := Op.mem_indicesFrom.2 ⟨listed, small, Nat.le_trans (le_newLength above) beyond⟩
    exact ⟨index, (removed index among).2 beyond, rfl⟩

/-- What is left once the indices are removed and the length is stored is an array that is
shorter. -/
theorem Cleared.truncated {left : Option Nat} {names : List String} {p : Descriptor} {w w' : Bool}
    (h : (r.store "length" p).Cleared names r') (array : r.IsArray n w)
    (small : newLength length left ≤ maxLength)
    (removed : ∀ name, name ∈ names ↔
      isIndexFrom (newLength length left) name = true ∧ name ∈ (r.store "length" p).keys) :
    r.Truncated (newLength length left) w'
      (r'.store "length" (Op.lengthDescriptor (newLength length left) w')) := by
  -- the length is no element, so that it stays
  have stays : "length" ∉ names := by
    rw [removed, isIndexFrom_length]
    rintro ⟨beyond, -⟩
    cases beyond
  have kept : r'.keys = r.keys.filter (!isIndexFrom (newLength length left) ·) := by
    rw [h.keys, keys_store, if_pos array.length_mem_keys]
    refine List.filter_congr fun name listed => ?_
    have there : name ∈ (r.store "length" p).keys := mem_keys_store.2 (.inr listed)
    by_cases beyond : isIndexFrom (newLength length left) name = true
    · simp [(removed name).2 ⟨beyond, there⟩, beyond]
    · have absent : name ∉ names := fun listed' => beyond ((removed name).1 listed').1
      simp [absent, beyond]
  have listed : "length" ∈ r'.keys := by
    rw [kept, List.mem_filter, isIndexFrom_length]
    exact ⟨array.length_mem_keys, rfl⟩
  have keys : (r'.store "length" (Op.lengthDescriptor (newLength length left) w')).keys =
      r.keys.filter (!isIndexFrom (newLength length left) ·) := by
    rw [keys_store, if_pos listed, kept]
  refine ⟨⟨?_, ?_, small, ?_⟩, fun name other => ?_, keys, ?_⟩
  · show r'.cls = .array
    rw [h.rest]
    exact array.cls
  · rw [own?_store, if_pos rfl]
  · intro index small listed
    rw [keys, List.mem_filter, isIndexFrom_repr small] at listed
    simpa using listed.2
  · rw [own?_store, if_neg other, h.own, own?_store, if_neg other]
    by_cases beyond : isIndexFrom (newLength length left) name = true
    · rw [if_pos beyond]
      by_cases there : name ∈ (r.store "length" p).keys
      · rw [if_pos ((removed name).2 ⟨beyond, there⟩)]
      · have absent := own?_eq_none_iff.2 there
        rw [own?_store, if_neg other] at absent
        rw [absent, ite_self]
    · have absent : name ∉ names := fun listed' => beyond ((removed name).1 listed').1
      rw [if_neg beyond, if_neg absent]
  · rw [h.rest]
    rfl

/-- What cannot be removed is there. -/
theorem mem_keys_of_isRemovable {index : Nat} (fixed : r.isRemovable index = false) :
    Nat.repr index ∈ r.keys := by
  rw [← Classical.not_not (a := _ ∈ _), ← own?_eq_none_iff]
  intro absent
  rw [isRemovable, canDelete, absent] at fixed
  cases fixed

theorem isRemovable_storeLength (p : Descriptor) :
    (r.store "length" p).isRemovable = r.isRemovable := by
  funext index
  rw [isRemovable, canDelete, own?_store, if_neg (repr_ne_length index)]
  rfl

/-- The first failure among the indices in descending order is the greatest one. -/
theorem isLastFixed_of_find? {last : Nat}
    (first : (Op.indicesFrom r length).find? (!r.isRemovable ·) = some last) :
    r.IsLastFixed length last := by
  obtain ⟨-, small, above⟩ := Op.mem_indicesFrom.1 (List.mem_of_find?_eq_some first)
  refine ⟨above, small, by simpa using List.find?_some first, ?_⟩
  intro index small' above' fixed
  refine Nat.le_of_not_lt fun less => ?_
  have among := Op.mem_indicesFrom.2 ⟨mem_keys_of_isRemovable fixed, small', above'⟩
  have front := (mem_takeWhile_iff_of_find? (Op.pairwise_indicesFrom r length) first among).2 less
  have removable := List.mem_takeWhile_imp front
  rw [fixed] at removable
  cases removable

theorem isRemovable_of_find? (none : (Op.indicesFrom r length).find? (!r.isRemovable ·) = none)
    {index : Nat} (small : index < maxLength) (above : length ≤ index) :
    r.isRemovable index = true := by
  rw [← Bool.not_eq_false]
  intro fixed
  have among := Op.mem_indicesFrom.2 ⟨mem_keys_of_isRemovable fixed, small, above⟩
  have removable := List.find?_eq_none.1 none index among
  rw [fixed] at removable
  exact removable rfl

end ObjectRecord

/-- A definition that does not make a property read-only. -/
def Definition.staysWritable (d : Definition) : Bool := !d.hasWritable || d.descriptor.isWritable

namespace Op

open ObjectRecord

variable {o : ObjectId} {name : String} {d : Definition} {strict : Bool} {s : Setup} {m : Machine}
  {n length : Nat}

/-- An array whose length is shorter now, and whose elements beyond are removed up to the last one
that cannot be removed. -/
theorem removeElements_truncates (array : (m.realm.object o).IsArray n true) (less : length < n)
    (s : Setup) :
    let k := m.modifyObject o (·.store "length" (lengthDescriptor length true))
    ∃ left l, removeElements o (indicesFrom (k.realm.object o) length) s k = .ok left l ∧
      (indicesFrom ((m.realm.object o).store "length" (lengthDescriptor length true)) length).find?
        (!(m.realm.object o).isRemovable ·) = left ∧
      (∀ other, other ≠ o → l.realm.object other = m.realm.object other) ∧
      l.realm.objects.size = m.realm.objects.size ∧
      (l.realm.object o).own? "length" = some (lengthDescriptor length true) ∧
      ∀ w, (m.realm.object o).Truncated (newLength length left) w
        ((l.realm.object o).store "length" (lengthDescriptor (newLength length left) w)) := by
  intro k
  let r := (m.realm.object o).store "length" (lengthDescriptor length true)
  have stored : k.realm.object o = r := object_modifyObject (index_lt_of_isArray array) _
  have size : k.realm.objects.size = m.realm.objects.size := Array.size_modify ..
  have there : o.index < k.realm.objects.size := size ▸ index_lt_of_isArray array
  obtain ⟨l, run, size', others, cleared⟩ := removeElements_apply there (indicesFrom r length) s
  rw [stored] at run cleared ⊢
  -- whether an element can be removed does not depend on the length
  have first : (indicesFrom r length).find? (!r.isRemovable ·) =
      (indicesFrom r length).find? (!(m.realm.object o).isRemovable ·) := by
    rw [isRemovable_storeLength]
  refine ⟨_, l, run, first.symm, fun other ne => ?_, size'.trans size, ?_, fun w => ?_⟩
  · rw [others other ne, object_modifyObject_of_ne ne]
  · rw [cleared.own, if_neg, own?_store, if_pos rfl]
    intro removed
    have beyond := ((mem_removed_iff rfl "length").1 removed).1
    rw [isIndexFrom_length] at beyond
    cases beyond
  · refine cleared.truncated array ?_ (mem_removed_iff rfl)
    cases left : (indicesFrom r length).find? (!r.isRemovable ·) with
    | none => exact Nat.le_of_lt (Nat.lt_of_lt_of_le less array.small)
    | some last => exact (isLastFixed_of_find? left).small

/-- What remains to be done once the elements are removed up to one that is left. -/
def finishTruncation (o : ObjectId) (d : Definition) (strict : Bool) : Option Nat → Op Bool
  | some index => do
    setLength o (index + 1) d.staysWritable
    reject strict "length"
  | none => do
    if !d.staysWritable then
      let _ ← defineOrdinary o "length" (Definition.empty.withWritable false) false
    return true

/-- **The definition of a smaller length** of an array whose length is writable. The length becomes
what is asked for, or one more than the last element beyond that cannot be removed; in the latter
case the definition is rejected. The elements at or above the new length are removed, and the length
becomes read-only if that is asked for. -/
theorem truncate_standard (shaped : d.IsShaped) (array : (m.realm.object o).IsArray n true)
    (less : length < n) (value : d.value? = some (.nat length))
    (admissible : Standard.keepsFlags (lengthDescriptor n true) d.fields = false) (strict : Bool)
    (s : Setup) :
    ∃ k, (∀ other, other ≠ o → k.realm.object other = m.realm.object other) ∧
      ((∃ last, (m.realm.object o).IsLastFixed length last ∧
          truncate o length d strict s m = reject strict "length" s k ∧
          (m.realm.object o).Truncated (last + 1) d.staysWritable (k.realm.object o)) ∨
        ((∀ index < maxLength, length ≤ index → (m.realm.object o).isRemovable index = true) ∧
          truncate o length d strict s m = .ok true k ∧
          (m.realm.object o).Truncated length d.staysWritable (k.realm.object o))) := by
  obtain ⟨left, l, run, first, others, size, own, truncated⟩ :=
    removeElements_truncates (s := s) array less
  have there : o.index < l.realm.objects.size := by
    rw [size]
    exact index_lt_of_isArray array
  have accepted : (m.realm.object o).accept "length"
      (if d.staysWritable then d else d.withWritable true) = .ok (lengthDescriptor length true) := by
    by_cases stays : d.staysWritable = true
    · rw [if_pos stays]
      refine array.accept_length shaped value (fun given => ?_) admissible
      simpa [Definition.staysWritable, given] using stays
    · rw [if_neg stays]
      have flags := Definition.hasFlagsOf_withWritable value true
      refine array.accept_length (flags.isShaped shaped value)
        (Definition.value?_withWritable value true) (fun _ => ?_) ?_
      · obtain ⟨-, w, e, c, is⟩ := Definition.data_of_value? value
        simp [Definition.withWritable, is, Descriptor.asData, Descriptor.setWritable,
          Descriptor.isWritable]
      · rw [flags.keepsFlags, admissible]
  -- `k` is the machine after the new length, still writable, has been stored
  let k := m.modifyObject o (·.store "length" (lengthDescriptor length true))
  have step : truncate o length d strict s m = finishTruncation o d strict left s l := by
    have defined : defineOrdinary o "length" (if d.staysWritable then d else d.withWritable true)
        strict s m = .ok true k := by rw [defineOrdinary_apply, accepted]
    show (defineOrdinary o "length" (if d.staysWritable then d else d.withWritable true) strict >>=
      fun admitted => _ : Op Bool) s m = _
    rw [bind_apply, defined]
    show (removeElements o (indicesFrom (k.realm.object o) length) >>= fun left => _ : Op Bool) s k = _
    rw [bind_apply, run]
    cases left <;> rfl
  cases left with
  | some last =>
    -- an element that cannot be removed stops the loop just behind itself
    have fixed := isLastFixed_of_find? (r := (m.realm.object o).store "length"
      (lengthDescriptor length true)) (by rw [isRemovable_storeLength]; exact first)
    refine ⟨l.modifyObject o (·.store "length" (lengthDescriptor (last + 1) d.staysWritable)),
      fun other ne => (object_modifyObject_of_ne ne _).trans (others other ne),
      .inl ⟨last, ⟨fixed.above, fixed.small, ?_, ?_⟩, ?_, ?_⟩⟩
    · rw [← isRemovable_storeLength]
      exact fixed.fixed
    · rw [← isRemovable_storeLength]
      exact fixed.greatest
    · rw [step]
      show (setLength o (last + 1) d.staysWritable >>= fun _ => reject strict "length") s l = _
      rw [bind_apply]
      rfl
    · rw [object_modifyObject there]
      exact truncated d.staysWritable
  | none =>
    have removable (index : Nat) (small : index < maxLength) (above : length ≤ index) :
        (m.realm.object o).isRemovable index = true := by
      rw [← isRemovable_storeLength (r := m.realm.object o) (lengthDescriptor length true)]
      exact isRemovable_of_find? (by rw [isRemovable_storeLength]; exact first) small above
    by_cases stays : d.staysWritable = true
    · refine ⟨l, others, .inr ⟨removable, ?_, ?_⟩⟩
      · rw [step]
        simp only [finishTruncation, stays, Bool.not_true, Bool.false_eq_true, if_false]
        rfl
      · have same := truncated true
        rw [show newLength length none = length from rfl, store_of_own? own] at same
        rwa [stays]
    -- a length that is to be read-only becomes so once the elements are gone
    · have readOnly : d.staysWritable = false := by simpa using stays
      have accepted : (l.realm.object o).accept "length" (Definition.empty.withWritable false) =
          .ok (lengthDescriptor length false) := by
        rw [accept, own]
        rfl
      have defined : defineOrdinary o "length" (Definition.empty.withWritable false) false s l =
          .ok true (l.modifyObject o (·.store "length" (lengthDescriptor length false))) := by
        rw [defineOrdinary_apply, accepted]
      refine ⟨l.modifyObject o (·.store "length" (lengthDescriptor length false)),
        fun other ne => (object_modifyObject_of_ne ne _).trans (others other ne),
        .inr ⟨removable, ?_, ?_⟩⟩
      · rw [step]
        simp only [finishTruncation, readOnly, Bool.not_false, if_true, bind_apply, defined, pure_apply]
      · rw [object_modifyObject there, readOnly]
        exact truncated false

end Op

end AbstractScript
