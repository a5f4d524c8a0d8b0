import AbstractScript.Proofs.FramedOperations
import AbstractScript.Proofs.Lasting
import AbstractScript.Proofs.WholeNumbers

/-!
# Lengths of arrays

The length of an array is above all its indices, as long as it is known (`ObjectRecord.IsSized`).
An element beyond the length makes the array longer, and a smaller length removes elements. While a
property is defined the length may be behind the elements; after it, it is not
(`Op.resizes_define`).
-/
namespace AbstractScript

open Eval Number

/-! ## Values that definitions leave -/

namespace Definition

variable {d : Definition} {v : Value} {w e c : Bool}

/-- The value of a property is the value given, if there is one. -/
theorem mergeInto_value (d : Definition) (v : Value) (w e c : Bool) :
    ∃ w' e' c', d.mergeInto (.data v w e c) = .data (d.value?.getD v) w' e' c' := by
  unfold mergeInto value?
  cases d.descriptor <;> cases d.hasConfigurable <;> cases d.hasEnumerable <;>
    cases d.hasValue <;> exact ⟨_, _, _, rfl⟩

/-- A definition that leaves a value that is not configurable leaves the value given. -/
theorem apply_value {p : Descriptor} (h : d.apply (.data v w e false) = .ok p) :
    ∃ w', p = .data (d.value?.getD v) w' e false := by
  have last := apply_lasting h rfl
  have enumerable := last.enumerable
  have configurable := last.configurable
  obtain ⟨w', e', c', rfl⟩ : ∃ w' e' c', p = .data (d.value?.getD v) w' e' c' := by
    rcases apply_cases h with ⟨nothing, rfl⟩ | ⟨-, -, rfl⟩ | ⟨fixed, -⟩
    · have absent : d.value? = none := by
        have given : d.hasValue = false := by
          simp only [isEmpty, Bool.and_eq_true, Bool.not_eq_true'] at nothing
          exact nothing.1.2
        unfold value?
        cases d.descriptor <;> simp [given]
      exact ⟨w, e, false, by rw [absent]; rfl⟩
    · exact mergeInto_value ..
    · cases fixed
  obtain rfl : e' = e := enumerable
  obtain rfl : c' = false := configurable
  exact ⟨w', rfl⟩

/-- The writable flag is given apart from the value. -/
theorem value?_withWritable (given : d.value? = some v) (w : Bool) :
    (d.withWritable w).value? = some v := by
  unfold value? at given
  unfold value? withWritable
  cases h : d.descriptor with
  | data =>
    rw [h] at given
    exact given
  | accessor =>
    rw [h] at given
    cases given

theorem value?_withValue (d : Definition) (v : Value) : (d.withValue v).value? = some v := by
  unfold value? withValue
  cases d.descriptor <;> rfl

end Definition

/-! ## Arrays whose length is right -/

namespace ObjectRecord

/-- The indices of an object are below a number. -/
def Below (r : ObjectRecord) (n : Nat) : Prop :=
  ∀ index < maxLength, Nat.repr index ∈ r.keys → index < n

/-- The length of an array is known. -/
def HasKnownLength (r : ObjectRecord) : Prop :=
  r.cls = .array → ∃ x w e c, r.own? "length" = some (.data (.number x) w e c)

/-- The length of an array is known and above all indices. -/
def IsSized (r : ObjectRecord) : Prop :=
  r.cls = .array →
    ∃ n w, r.own? "length" = some (.data (.nat n) w false false) ∧ r.Below n

variable {r : ObjectRecord} {name : String} {n : Nat} {p : Descriptor}

theorem IsSized.of_cls (h : r.cls ≠ .array) : r.IsSized := fun array => absurd array h

theorem Below.mono {m : Nat} (h : r.Below m) (le : min m maxLength ≤ n) : r.Below n :=
  fun index small listed =>
    Nat.lt_of_lt_of_le (Nat.lt_min.2 ⟨h index small listed, small⟩) le

theorem repr_ne_length (index : Nat) : Nat.repr index ≠ "length" := by
  intro same
  have letter : 'l' ∈ (Nat.repr index).toList := by
    rw [same]
    decide
  exact absurd (isDigit_of_mem_repr letter) (by decide)

theorem mem_keys_store {other : String} :
    other ∈ (r.store name p).keys ↔ other = name ∨ other ∈ r.keys := by
  rw [keys_store]
  split
  next there => exact ⟨.inr, fun h => h.elim (fun same => same ▸ there) id⟩
  next => rw [List.mem_append, List.mem_singleton, or_comm]

theorem Below.store (h : r.Below n)
    (inside : ∀ index < maxLength, name = Nat.repr index → index < n) (p : Descriptor) :
    (r.store name p).Below n := by
  intro index small listed
  rcases mem_keys_store.1 listed with same | before
  · exact inside index small same.symm
  · exact h index small before

theorem Below.storeLength (h : r.Below n) (p : Descriptor) : (r.store "length" p).Below n :=
  h.store (fun index _ same => absurd same.symm (repr_ne_length index)) p

theorem Below.remove (h : r.Below n) (name : String) : (r.remove name).Below n := by
  intro index small listed
  rw [keys_remove] at listed
  exact h index small (List.mem_filter.1 listed).1

/-- An array is created with a length above its indices. -/
theorem isSized_arrayRecord (level : Nat) (elements : List Value) :
    (Realm.arrayRecord level elements).IsSized := by
  intro _
  refine ⟨elements.length, true, ?_, fun index _ listed => ?_⟩
  · rw [own?, Realm.arrayRecord, Table.get?_insert, if_pos rfl]
    rfl
  obtain ⟨d, own⟩ := Option.ne_none_iff_exists'.1 fun none => own?_eq_none_iff.1 none listed
  rw [own?, Realm.arrayRecord, Table.get?_insert, if_neg (repr_ne_length index),
    Table.get?_eq_some_iff] at own
  simp only [Table.indexed, Table.toList, List.mem_mapIdx, Prod.mk.injEq, repr_inj] at own
  obtain ⟨i, inside, rfl, -⟩ := own
  simpa using inside

/-- The length that is read of an array. -/
theorem arrayLength?_of_own {w : Bool} (own : r.own? "length" = some (.data (.nat n) w false false)) :
    Op.arrayLength? r = some (min n maxLength, w) := by
  rw [Op.arrayLength?, own]
  show some (clampLength (Float.ofNat n), w) = _
  rw [clampLength_ofNat]

/-- Of the length of an array, what is defined is a length above all indices, or no length at all. -/
theorem IsSized.storeLength (h : r.IsSized) (array : r.cls = .array) {d : Definition}
    (accepted : r.accept "length" d = .ok p)
    (enough : ∀ v, d.value? = some v → v = .unknown ∨ ∃ n, v = .nat n ∧ r.Below n)
    (known : (r.store "length" p).HasKnownLength) : (r.store "length" p).IsSized := by
  intro _
  obtain ⟨n, w, own, below⟩ := h array
  -- of a length only the value changes, and whether it is writable
  rw [accept, own] at accepted
  obtain ⟨w', rfl⟩ := Definition.apply_value accepted
  have stored : (r.store "length" (.data (d.value?.getD (.nat n)) w' false false)).own? "length" =
      some (.data (d.value?.getD (.nat n)) w' false false) := by rw [own?_store, if_pos rfl]
  cases given : d.value? with
  | none =>
    rw [given] at stored
    exact ⟨n, w', stored, below.storeLength _⟩
  | some v =>
    rw [given] at stored known
    rcases enough v given with rfl | ⟨length, rfl, above⟩
    -- the length is known afterwards, so that it is not replaced by an unknown one
    · obtain ⟨x, w'', e, c, own'⟩ := known array
      cases stored.symm.trans own'
    · exact ⟨length, w', stored, above.storeLength _⟩

/-- Another property leaves the length as it is. -/
theorem IsSized.store (h : r.IsSized) (other : name ≠ "length")
    (inside : ∀ index < maxLength, name = Nat.repr index → ∀ n w,
      r.own? "length" = some (.data (.nat n) w false false) → index < n) (p : Descriptor) :
    (r.store name p).IsSized := by
  intro array
  obtain ⟨n, w, own, below⟩ := h array
  refine ⟨n, w, by rw [own?_store, if_neg (Ne.symm other), own], ?_⟩
  exact below.store (fun index small same => inside index small same n w own) p

/-- What is removed is no length. -/
theorem IsSized.remove (h : r.IsSized) (removable : r.canDelete name = true) :
    (r.remove name).IsSized := by
  intro array
  obtain ⟨n, w, own, below⟩ := h array
  refine ⟨n, w, ?_, below.remove name⟩
  rw [own?_remove, if_neg, own]
  rintro rfl
  rw [canDelete, own] at removable
  cases removable

theorem IsSized.preventExtensions (h : r.IsSized) : r.preventExtensions.IsSized := h

end ObjectRecord

/-! ## The course of a run -/

namespace Machine

/-- The present moment is in the course of the run, and after all others. -/
structure IsAhead (m : Machine) : Prop where
  present : m.course m.moment m.moment
  last : ∀ x, m.course x x → m.course x m.moment

/-- The run goes on without events. -/
structure Onward (m n : Machine) : Prop where
  course : ∀ x y, m.course x y → n.course x y
  seen : n.seen = m.seen
  ahead : m.IsAhead → n.IsAhead

variable {m n k : Machine}

theorem Onward.refl (m : Machine) : m.Onward m := ⟨fun _ _ => id, rfl, id⟩

instance : IsPreorder Machine Onward where
  refl := Onward.refl
  trans _ _ _ h h' := ⟨fun x y => h'.course x y ∘ h.course x y, h'.seen.trans h.seen, h'.ahead ∘ h.ahead⟩

theorem isAhead_tick (m : Machine) : m.tick.IsAhead where
  present := .inr ⟨rfl, .inr rfl⟩
  last _ hx := .inr ⟨rfl, hx.elim .inl fun h => h.2⟩

/-- A new moment. -/
theorem Onward.tick (m n : Machine) (course : n.course = m.course := by rfl)
    (seen : n.seen = m.seen := by rfl) : m.Onward n.tick where
  course _ _ h := .inl (course ▸ h)
  seen := seen
  ahead _ := n.isAhead_tick

/-- The run goes on, and of its objects one becomes a record. -/
structure Reshapes (o : ObjectId) (r : ObjectRecord) (m n : Machine) : Prop where
  onward : m.Onward n
  others : ∀ p, p ≠ o → n.realm.object p = m.realm.object p
  object : n.realm.object o = r

variable {o : ObjectId} {r : ObjectRecord}

theorem Reshapes.refl (o : ObjectId) (m : Machine) : m.Reshapes o (m.realm.object o) m :=
  ⟨.refl m, fun _ _ => rfl, rfl⟩

theorem Reshapes.trans {r' : ObjectRecord} (h : m.Reshapes o r n) (h' : n.Reshapes o r' k) :
    m.Reshapes o r' k :=
  ⟨IsTrans.trans _ _ _ h.onward h'.onward, fun p ne => (h'.others p ne).trans (h.others p ne),
    h'.object⟩

/-- An array is in the table of objects, so that it changes. -/
theorem Reshapes.modify (h : m.Reshapes o r n) (array : r.cls = .array)
    (f : ObjectRecord → ObjectRecord) : m.Reshapes o (f r) (n.modifyObject o f) where
  onward := IsTrans.trans _ _ _ h.onward (.tick n _)
  others p ne := by
    rw [modifyObject, Realm.object_modifyObject, if_neg fun same => ne same.1]
    exact h.others p ne
  object := by
    rw [modifyObject, Realm.object_modifyObject, if_pos, h.object]
    refine ⟨rfl, Nat.lt_of_not_le fun outside => ?_⟩
    have default := h.object.symm.trans (Realm.object_of_size_le outside)
    rw [default] at array
    cases array

/-- The run goes on, and of its objects one changes. If it is an array with a length above its
indices, it is so afterwards, unless its length is unknown then. -/
structure Resizes (o : ObjectId) (m n : Machine) : Prop where
  onward : m.Onward n
  others : ∀ p, p ≠ o → n.realm.object p = m.realm.object p
  sized : (m.realm.object o).IsSized → (n.realm.object o).HasKnownLength →
    (n.realm.object o).IsSized

theorem Resizes.refl (o : ObjectId) (m : Machine) : m.Resizes o m :=
  ⟨.refl m, fun _ _ => rfl, fun h _ => h⟩

theorem Reshapes.resizes (h : m.Reshapes o r n)
    (sized : (m.realm.object o).IsSized → r.HasKnownLength → r.IsSized) : m.Resizes o n :=
  ⟨h.onward, h.others, by rw [h.object]; exact sized⟩

/-- What is done to an object that is no array is of no interest. -/
theorem Resizes.modify (other : (m.realm.object o).cls ≠ .array) {f : ObjectRecord → ObjectRecord}
    (alike : ∀ r : ObjectRecord, r.Alike (f r)) : m.Resizes o (m.modifyObject o f) where
  onward := .tick m _
  others p ne := by
    rw [modifyObject, Realm.object_modifyObject, if_neg fun same => ne same.1]
  sized _ _ := by
    refine .of_cls fun array => other ?_
    rw [modifyObject, Realm.object_modifyObject] at array
    split at array
    · exact (alike _).cls.symm.trans array
    · exact array

end Machine

/-! ## Operations on arrays -/

/-- An array stays one. -/
theorem Realm.Grows.cls_eq_array {r r' : Realm} (h : r.Grows r') {o : ObjectId}
    (array : (r.object o).cls = .array) : (r'.object o).cls = .array := by
  refine (h.object o (Nat.lt_of_not_le fun outside => ?_)).cls.trans array
  rw [Realm.object_of_size_le outside] at array
  cases array

namespace Op

open Machine

variable {o : ObjectId} {name : String} {d : Definition} {strict : Bool} {s : Setup} {m : Machine}

theorem after_reject (strict : Bool) (name : String) (s : Setup) (m : Machine) :
    (reject strict name).after s m = m := by
  unfold reject
  cases strict <;> rfl

/-- The indices to be removed. -/
theorem mem_indicesFrom {r : ObjectRecord} {length index : Nat} :
    index ∈ indicesFrom r length ↔ Nat.repr index ∈ r.keys ∧ index < maxLength ∧ length ≤ index := by
  simp only [indicesFrom, List.mem_mergeSort, List.mem_filter, List.mem_filterMap,
    arrayIndex?_eq_some_iff, decide_eq_true_eq]
  constructor
  · rintro ⟨⟨_, listed, rfl, small⟩, above⟩
    exact ⟨listed, small, above⟩
  · rintro ⟨listed, small, above⟩
    exact ⟨⟨_, listed, rfl, small⟩, above⟩

theorem pairwise_indicesFrom (r : ObjectRecord) (length : Nat) :
    (indicesFrom r length).Pairwise (· ≥ ·) := by
  have sorted := @List.pairwise_mergeSort _ (fun a b : Nat => decide (a ≥ b))
    (fun a b c => by simp only [decide_eq_true_eq]; omega)
    (fun a b => by simp only [Bool.or_eq_true, decide_eq_true_eq]; omega)
    ((r.keys.filterMap arrayIndex?).filter (length ≤ ·))
  exact sorted.imp of_decide_eq_true

/-- What is left of an array whose elements are removed from the last one on: its length stays, and
of the indices to be removed those stay that are not above the first that cannot be removed. -/
structure Removes (indices : List Nat) (left : Option Nat) (r r' : ObjectRecord) : Prop where
  cls : r'.cls = r.cls
  length : r'.own? "length" = r.own? "length"
  keys : ∀ name ∈ r'.keys, name ∈ r.keys
  stays : ∀ index ∈ indices, Nat.repr index ∈ r'.keys → ∃ last ∈ left, index ≤ last
  among : ∀ last ∈ left, last ∈ indices

/-- All indices are below the length, or below the end of what could not be removed. -/
theorem Removes.below {length : Nat} {left : Option Nat} {r r' : ObjectRecord}
    (h : Removes (indicesFrom r length) left r r') : r'.Below ((left.map (· + 1)).getD length) := by
  intro index small listed
  rcases Nat.lt_or_ge index length with inside | beyond
  · refine Nat.lt_of_lt_of_le inside ?_
    cases left with
    | none => exact Nat.le_refl _
    | some last => exact Nat.le_succ_of_le (mem_indicesFrom.1 (h.among last rfl)).2.2
  · obtain ⟨last, rfl, le⟩ :=
      h.stays index (mem_indicesFrom.2 ⟨h.keys _ listed, small, beyond⟩) listed
    exact Nat.lt_succ_of_le le

theorem removeElements_reshapes {indices : List Nat} (sorted : indices.Pairwise (· ≥ ·)) (s : Setup)
    (array : (m.realm.object o).cls = .array) :
    ∃ left n r, removeElements o indices s m = .ok left n ∧ m.Reshapes o r n ∧
      Removes indices left (m.realm.object o) r := by
  induction indices generalizing m with
  | nil => exact ⟨none, m, _, rfl, .refl o m, rfl, rfl, fun _ => id, nofun, nofun⟩
  | cons index rest ih =>
    have below : ∀ other ∈ index :: rest, other ≤ index :=
      List.forall_mem_cons.2 ⟨Nat.le_refl _, (List.pairwise_cons.1 sorted).1⟩
    by_cases removable : (m.realm.object o).canDelete (Nat.repr index) = true
    · have removed := (Reshapes.refl o m).modify array (·.remove (Nat.repr index))
      obtain ⟨left, n, r, run, reshapes, removes⟩ := ih (List.pairwise_cons.1 sorted).2
        (m := m.modifyObject o (·.remove (Nat.repr index))) (removed.object ▸ array)
      rw [removed.object] at removes
      refine ⟨left, n, r, ?_, removed.trans reshapes, removes.cls, ?_, ?_, ?_, ?_⟩
      · rw [removeElements, bind_apply]
        show (if (m.realm.object o).canDelete (Nat.repr index) = true then _ else _ : Op _) s m = _
        rw [if_pos removable]
        exact run
      · rw [removes.length, ObjectRecord.own?_remove, if_neg]
        exact Ne.symm (ObjectRecord.repr_ne_length index)
      · intro name listed
        have listed := removes.keys name listed
        rw [ObjectRecord.keys_remove] at listed
        exact (List.mem_filter.1 listed).1
      · refine List.forall_mem_cons.2 ⟨fun listed => ?_, removes.stays⟩
        -- the index itself has been removed
        have listed := removes.keys _ listed
        rw [ObjectRecord.keys_remove] at listed
        simp at listed
      · exact fun last hlast => List.mem_cons_of_mem _ (removes.among last hlast)
    · refine ⟨some index, m, _, ?_, .refl o m, rfl, rfl, fun _ => id, ?_, ?_⟩
      · rw [removeElements, bind_apply]
        show (if (m.realm.object o).canDelete (Nat.repr index) = true then _ else _ : Op _) s m = _
        rw [if_neg removable]
        rfl
      · exact fun other listed _ => ⟨index, rfl, below other listed⟩
      · rintro last ⟨⟩
        exact List.mem_cons_self

/-- The length of an array that is known is replaced and its elements beyond are removed. -/
theorem resizes_truncate {length : Nat} (array : (m.realm.object o).cls = .array)
    (given : d.value? = some (.nat length)) : m.Resizes o ((truncate o length d strict).after s m) := by
  unfold truncate
  extract_lets staysWritable definition
  have value : definition.value? = some (.nat length) := by
    unfold definition
    split
    · exact given
    · exact Definition.value?_withWritable given true
  -- the length is stored first, and stays writable until the elements are removed
  rw [after_bind, defineOrdinary_apply]
  cases accepted : (m.realm.object o).accept "length" definition with
  | error rejection => cases strict <;> exact .refl o m
  | ok p =>
    dsimp only
    rw [if_neg (by decide), after_object_bind]
    have stored := (Reshapes.refl o m).modify array (·.store "length" p)
    rw [stored.object]
    obtain ⟨left, n, r, run, reshapes, removes⟩ :=
      removeElements_reshapes (m := m.modifyObject o (·.store "length" p))
        (pairwise_indicesFrom ((m.realm.object o).store "length" p) length) s
        ((congrArg ObjectRecord.cls stored.object).trans array)
    rw [stored.object] at removes
    rw [after_bind_ok run]
    have reshapes := stored.trans reshapes
    have array' : r.cls = .array := removes.cls.trans array
    cases left with
    -- an element cannot be removed: the length is set right behind it
    | some last =>
      have resized := reshapes.modify array'
        (·.store "length" (lengthDescriptor (last + 1) staysWritable))
      have grown : ((setLength o (last + 1) staysWritable >>= fun _ => reject strict "length")).after
          s n = n.modifyObject o (·.store "length" (lengthDescriptor (last + 1) staysWritable)) := by
        rw [after_bind_ok (x := setLength o (last + 1) staysWritable) rfl, after_reject]
      dsimp only
      rw [grown]
      refine resized.resizes fun _ _ _ => ⟨last + 1, staysWritable, ?_, removes.below.storeLength _⟩
      rw [ObjectRecord.own?_store, if_pos rfl]
      rfl
    -- no element is left behind the length, which may become read-only now
    | none =>
      have sized : (m.realm.object o).IsSized → r.IsSized := by
        intro sized _
        obtain ⟨n, w, own, -⟩ := sized array
        rw [ObjectRecord.accept, own] at accepted
        obtain ⟨w', rfl⟩ := Definition.apply_value accepted
        refine ⟨length, w', ?_, removes.below⟩
        rw [removes.length, ObjectRecord.own?_store, if_pos rfl, value]
        rfl
      dsimp only
      split
      · rw [after_bind, defineOrdinary_apply, reshapes.object]
        cases readOnly : r.accept "length" (Definition.empty.withWritable false) with
        | ok q =>
          refine (reshapes.modify array' (·.store "length" q)).resizes fun before => ?_
          refine (sized before).storeLength array' readOnly fun v given => ?_
          cases given
        | error rejection => exact reshapes.resizes fun before _ => sized before
      · exact reshapes.resizes fun before _ => sized before

/-- What is stored of an array by an ordinary definition. -/
theorem resizes_defineOrdinary (array : (m.realm.object o).cls = .array)
    (sized : ∀ p, (m.realm.object o).accept name d = .ok p → (m.realm.object o).IsSized →
      ((m.realm.object o).store name p).HasKnownLength →
      ((m.realm.object o).store name p).IsSized) :
    m.Resizes o ((defineOrdinary o name d strict).after s m) := by
  rw [Eval.after, defineOrdinary_apply]
  cases accepted : (m.realm.object o).accept name d with
  | ok p => exact ((Reshapes.refl o m).modify array (·.store name p)).resizes (sized p accepted)
  | error rejection => cases strict <;> exact .refl o m

/-- The definition of a length that is unknown, or not less than the current one. -/
theorem resizes_defineOrdinary_length (array : (m.realm.object o).cls = .array)
    (enough : (m.realm.object o).IsSized → ∀ v, d.value? = some v →
      v = .unknown ∨ ∃ n, v = .nat n ∧ (m.realm.object o).Below n) :
    m.Resizes o ((defineOrdinary o "length" d strict).after s m) :=
  resizes_defineOrdinary array fun _ accepted sized => sized.storeLength array accepted (enough sized)

/-- The definition of a length that is a number. -/
theorem resizes_replaceLength {length : Nat} (array : (m.realm.object o).cls = .array)
    (given : d.value? = some (.nat length)) :
    m.Resizes o (after (do
      match arrayLength? (← object o) with
      | none => defineOrdinary o "length" d strict
      | some (old, writable) =>
        if old ≤ length then defineOrdinary o "length" d strict
        else if !writable then reject strict "length"
        else truncate o length d strict) s m) := by
  rw [after_object_bind]
  split
  -- the length of an array whose length is right can be read
  next none =>
    refine resizes_defineOrdinary_length array fun sized => ?_
    obtain ⟨n, w, own, -⟩ := sized array
    rw [ObjectRecord.arrayLength?_of_own own] at none
    cases none
  next old writable some =>
    split
    next le =>
      refine resizes_defineOrdinary_length array fun sized v given' => .inr ⟨length, ?_, ?_⟩
      · exact Option.some.inj (given'.symm.trans given)
      · obtain ⟨n, w, own, below⟩ := sized array
        rw [ObjectRecord.arrayLength?_of_own own] at some
        cases some
        exact below.mono le
    next =>
      split
      · rw [after_reject]
        exact .refl o m
      · exact resizes_truncate array given

/-- The definition of an element, which may make the array longer. -/
theorem resizes_defineElement {index : Nat} (array : (m.realm.object o).cls = .array)
    (element : arrayIndex? name = some index) :
    m.Resizes o ((defineElement o index name d strict).after s m) := by
  obtain ⟨rfl, -⟩ := arrayIndex?_eq_some_iff.1 element
  have other := ObjectRecord.repr_ne_length index
  rw [defineElement, after_object_bind]
  split
  next none =>
    refine resizes_defineOrdinary array fun p _ sized _ => ?_
    obtain ⟨n, w, own, -⟩ := sized array
    rw [ObjectRecord.arrayLength?_of_own own] at none
    cases none
  next length writable some =>
    split
    · rw [after_reject]
      exact .refl o m
    · rw [after_bind, defineOrdinary_apply]
      cases accepted : (m.realm.object o).accept (Nat.repr index) d with
      | error rejection =>
        show m.Resizes o ((reject strict (Nat.repr index)).after s m)
        rw [after_reject]
        exact .refl o m
      | ok p =>
        have stored := (Reshapes.refl o m).modify array (·.store (Nat.repr index) p)
        dsimp only
        rw [if_pos rfl]
        -- only an element behind the end changes the length
        by_cases beyond : length ≤ index
        · rw [if_pos beyond]
          refine (stored.modify array
            (·.store "length" (lengthDescriptor (index + 1) true))).resizes fun sized _ _ => ?_
          obtain ⟨n, w, own, below⟩ := sized array
          rw [ObjectRecord.arrayLength?_of_own own] at some
          cases some
          refine ⟨index + 1, true, by rw [ObjectRecord.own?_store, if_pos rfl]; rfl, ?_⟩
          have grown : (m.realm.object o).Below (index + 1) := below.mono (Nat.le_succ_of_le beyond)
          refine (grown.store (fun other _ same => ?_) p).storeLength _
          exact Nat.lt_succ_of_le (Nat.le_of_eq (repr_inj.1 same).symm)
        · rw [if_neg beyond]
          refine stored.resizes fun sized _ => sized.store other (fun i small same n w own => ?_) p
          obtain rfl := repr_inj.1 same
          rw [ObjectRecord.arrayLength?_of_own own] at some
          cases some
          exact Nat.lt_of_lt_of_le (Nat.lt_of_not_le beyond) (Nat.min_le_left ..)

/-- Another property is defined. -/
theorem resizes_defineOther (array : (m.realm.object o).cls = .array) (other : name ≠ "length")
    (none : arrayIndex? name = none) : m.Resizes o ((defineOrdinary o name d strict).after s m) := by
  refine resizes_defineOrdinary array fun p _ sized _ => sized.store other (fun i small same => ?_) p
  rw [arrayIndex?_eq_some_iff.2 ⟨same, small⟩] at none
  cases none

/-- An ordinary object may be defined as it likes. -/
theorem resizes_defineOrdinary_of_cls (ordinary : (m.realm.object o).cls ≠ .array) :
    m.Resizes o ((defineOrdinary o name d strict).after s m) := by
  rw [Eval.after, defineOrdinary_apply]
  cases accepted : (m.realm.object o).accept name d with
  | ok p => exact .modify ordinary fun r => .store r name p
  | error rejection => cases strict <;> exact .refl o m

theorem resizes_delete : m.Resizes o ((delete o name strict).after s m) := by
  rw [delete, after_object_bind]
  split
  next removable =>
    show m.Resizes o (m.modifyObject o (·.remove name))
    by_cases array : (m.realm.object o).cls = .array
    · exact ((Reshapes.refl o m).modify array (·.remove name)).resizes fun sized _ =>
        sized.remove removable
    · exact .modify array fun r => .remove r name
  next => cases strict <;> exact .refl o m

theorem resizes_preventExtensions (o : ObjectId) (m : Machine) :
    m.Resizes o (m.modifyObject o (·.preventExtensions)) := by
  by_cases array : (m.realm.object o).cls = .array
  · exact ((Reshapes.refl o m).modify array (·.preventExtensions)).resizes fun sized _ =>
      sized.preventExtensions
  · exact .modify array fun _ => ⟨rfl, rfl, rfl, rfl, rfl⟩

end Op

end AbstractScript
