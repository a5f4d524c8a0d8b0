import AbstractScript.Operation.Property
import AbstractScript.Proofs.SameValue

/-!
# What lasts of an object

An object keeps its class and its prototype. Once it is not extensible it stays so and gets no
further properties. A property that is not configurable stays what it is, except that a writable
value can be replaced and made read-only. So nothing of a frozen object ever changes
(`ObjectRecord.Lasting`).

Every change that an object admits is such a change: definitions are checked against what is there
(`Definition.apply_lasting`), and what is removed is configurable.
-/
namespace AbstractScript

/-! ## Tables that do not change -/

namespace Table

variable {α : Type}

theorem ext_entries {t u : Table α} (h : t.entries = u.entries) : t = u := by
  cases t
  cases u
  cases h
  rfl

/-- Inserting what is there changes nothing. -/
theorem insert_of_get? {t : Table α} {name : String} {a : α} (h : t.get? name = some a) :
    t.insert name a = t := by
  unfold insert
  split
  next i found =>
    obtain ⟨hi, here, -⟩ := Array.findIdx?_eq_some_iff_getElem.1 found
    -- The entry at the place is the one that is there, so that replacing it has no effect.
    have listed : (name, a) ∈ t.toList := get?_eq_some_iff.1 h
    have old : (name, t.entries[i].2) ∈ t.toList := by
      have mem := Array.getElem_mem_toList hi
      rwa [show t.entries[i] = (name, t.entries[i].2) by rw [← eq_of_beq here]] at mem
    have same : t.entries[i] = (name, a) := by
      have := (get?_eq_some_iff.2 old).symm.trans (get?_eq_some_iff.2 listed)
      rw [← eq_of_beq here, ← Option.some.inj this]
    refine ext_entries (Array.ext (by simp) fun j hj hj' => ?_)
    rw [Array.getElem_modify]
    split
    next at_place =>
      subst at_place
      rw [same]
    next => rfl
  next missing =>
    rw [get?_eq_none_iff.2 (indexOf?_eq_none_iff.1 missing)] at h
    cases h

/-- Removing what is not there changes nothing. -/
theorem erase_of_get? {t : Table α} {name : String} (h : t.get? name = none) :
    t.erase name = t := by
  refine ext_entries (Array.filter_eq_self.2 fun e he => ?_)
  have absent : name ∉ t.keys := get?_eq_none_iff.1 h
  rw [bne_iff_ne]
  rintro rfl
  exact absent (mem_keys.2 ⟨e.2, by simpa [toList] using he⟩)

end Table

/-- A change that leaves an object as it is leaves the realm as it is. -/
theorem Realm.modifyObject_of_fixed {r : Realm} {o : ObjectId} {f : ObjectRecord → ObjectRecord}
    (fixed : f (r.object o) = r.object o) : r.modifyObject o f = r := by
  have same : r.objects.modify o.index f = r.objects := by
    refine Array.ext (by simp) fun i before after => ?_
    rw [Array.getElem_modify]
    split
    next here =>
      subst here
      have found : r.object o = r.objects[o.index] := by
        rw [object, Array.getD_eq_getD_getElem?, Array.getElem?_eq_getElem after]
        rfl
      rw [← found, fixed, found]
    · rfl
  rw [modifyObject, same]

/-! ## Properties -/

namespace Descriptor

/-- What lasts of a property that is not configurable. -/
structure Lasting (d d' : Descriptor) : Prop where
  configurable : d'.isConfigurable = false
  enumerable : d'.isEnumerable = d.isEnumerable
  kind : d'.isData = d.isData
  /-- An accessor keeps its functions, and what is not writable keeps its value. -/
  readOnly : d.isWritable = false → d' = d

variable {d d' d'' : Descriptor}

theorem Lasting.refl (h : d.isConfigurable = false) : d.Lasting d := ⟨h, rfl, rfl, fun _ => rfl⟩

theorem Lasting.trans (h : d.Lasting d') (h' : d'.Lasting d'') : d.Lasting d'' where
  configurable := h'.configurable
  enumerable := h'.enumerable.trans h.enumerable
  kind := h'.kind.trans h.kind
  readOnly fixed := by
    obtain rfl := h.readOnly fixed
    exact h'.readOnly fixed

theorem withEnumerable_self (d : Descriptor) : d.withEnumerable d.isEnumerable = d := by
  cases d <;> rfl

theorem withConfigurable_self (d : Descriptor) : d.withConfigurable d.isConfigurable = d := by
  cases d <;> rfl

end Descriptor

namespace Definition

variable {d : Definition} {base current result : Descriptor}

theorem isConfigurable_mergeInto (d : Definition) (base : Descriptor) :
    (d.mergeInto base).isConfigurable =
      if d.hasConfigurable then d.descriptor.isConfigurable else base.isConfigurable := by
  unfold mergeInto
  cases base <;> cases d.descriptor <;> cases d.hasConfigurable <;> cases d.hasEnumerable <;> rfl

theorem isEnumerable_mergeInto (d : Definition) (base : Descriptor) :
    (d.mergeInto base).isEnumerable =
      if d.hasEnumerable then d.descriptor.isEnumerable else base.isEnumerable := by
  unfold mergeInto
  cases base <;> cases d.descriptor <;> cases d.hasConfigurable <;> cases d.hasEnumerable <;> rfl

theorem isData_mergeInto (d : Definition) (base : Descriptor) :
    (d.mergeInto base).isData = base.isData := by
  unfold mergeInto
  cases base <;> cases d.descriptor <;> cases d.hasConfigurable <;> cases d.hasEnumerable <;> rfl

/-- A writable property stays so unless a definition says otherwise. -/
theorem isWritable_mergeInto (writable : base.isWritable = true)
    (given : d.hasWritable = true → d.descriptor.isWritable = true) :
    (d.mergeInto base).isWritable = true := by
  cases base with
  | accessor g s e c => cases writable
  | data v w e c =>
    obtain rfl : w = true := writable
    unfold mergeInto
    cases h : d.descriptor with
    | accessor g s e' c' => cases d.hasConfigurable <;> cases d.hasEnumerable <;> rfl
    | data v' w' e' c' =>
      have written : (if d.hasWritable then w' else true) = true := by
        rw [h] at given
        split
        next listed => exact given listed
        next => rfl
      dsimp only
      rw [written]
      cases d.hasConfigurable <;> cases d.hasEnumerable <;> rfl

/-- What a checked definition leaves of the flags of a property that is not configurable. -/
theorem checkFlags_lasting (h : d.checkFlags current = .ok ()) (fixed : current.isConfigurable = false) :
    (d.hasConfigurable = true → d.descriptor.isConfigurable = false) ∧
      (d.hasEnumerable = true → d.descriptor.isEnumerable = current.isEnumerable) := by
  unfold checkFlags at h
  rw [if_neg (by simp [fixed])] at h
  split at h
  · cases h
  next configurable =>
    split at h
    · cases h
    next enumerable =>
      refine ⟨fun given => ?_, fun given => ?_⟩
      · simpa [given] using configurable
      · simpa [given] using enumerable

/-- What a checked definition gives of the value of a read-only property is what is there. -/
theorem checkContents_data {v v' : Value} {w' e e' c' : Bool}
    (contents : d.isGeneric = true ∨ d.checkContents (.data v false e false) = .ok ())
    (given : d.descriptor = .data v' w' e' c') :
    (d.hasValue = true → v' = v) ∧ (d.hasWritable = true → w' = false) := by
  rcases contents with generic | checked
  · simp only [isGeneric, isData, Bool.and_eq_true, Bool.not_eq_true', Bool.or_eq_false_iff] at generic
    exact ⟨fun h => by simp [generic.1.1] at h, fun h => by simp [generic.1.2] at h⟩
  · simp only [checkContents, given] at checked
    split at checked
    · cases checked
    next writable =>
      split at checked
      · cases checked
      next value =>
        refine ⟨fun h => ?_, fun h => ?_⟩
        · exact Value.same_iff.1 (by simpa [h] using value)
        · simpa [h] using writable

/-- What a checked definition gives of the functions of an accessor is what is there. -/
theorem checkContents_accessor {g s g' s' : Option ObjectId} {e e' c' : Bool}
    (contents : d.isGeneric = true ∨ d.checkContents (.accessor g s e false) = .ok ())
    (given : d.descriptor = .accessor g' s' e' c') :
    (d.hasGetter = true → g' = g) ∧ (d.hasSetter = true → s' = s) := by
  rcases contents with generic | checked
  · simp only [isGeneric, isAccessor, Bool.and_eq_true, Bool.not_eq_true',
      Bool.or_eq_false_iff] at generic
    exact ⟨fun h => by simp [generic.2.1] at h, fun h => by simp [generic.2.2] at h⟩
  · simp only [checkContents, given] at checked
    split at checked
    · cases checked
    next getter =>
      split at checked
      · cases checked
      next setter =>
        refine ⟨fun h => ?_, fun h => ?_⟩
        · simpa [h] using getter
        · simpa [h] using setter

/-- A checked definition of a read-only property gives what is there. -/
theorem mergeInto_readOnly
    (flags : (d.hasConfigurable = true → d.descriptor.isConfigurable = false) ∧
      (d.hasEnumerable = true → d.descriptor.isEnumerable = current.isEnumerable))
    (contents : d.isGeneric = true ∨ d.checkContents current = .ok ())
    (fixed : current.isConfigurable = false) (readOnly : current.isWritable = false) :
    d.mergeInto current = current := by
  obtain ⟨configurable, enumerable⟩ := flags
  unfold mergeInto
  extract_lets fields listed
  -- neither the contents nor the flags can change
  have kept : fields = current := by
    unfold fields
    cases current with
    | data v w e c =>
      obtain rfl : c = false := fixed
      obtain rfl : w = false := readOnly
      cases given : d.descriptor with
      | data v' w' e' c' =>
        obtain ⟨value, writable⟩ := checkContents_data contents given
        simp only [Descriptor.data.injEq, and_true, ite_eq_right_iff]
        exact ⟨value, writable⟩
      | accessor g' s' e' c' => rfl
    | accessor g s e c =>
      obtain rfl : c = false := fixed
      cases given : d.descriptor with
      | data v' w' e' c' => rfl
      | accessor g' s' e' c' =>
        obtain ⟨getter, setter⟩ := checkContents_accessor contents given
        simp only [Descriptor.accessor.injEq, and_true, ite_eq_right_iff]
        exact ⟨getter, setter⟩
  have listed_kept : listed = current := by
    unfold listed
    rw [kept]
    split
    next given => rw [enumerable given, Descriptor.withEnumerable_self]
    next => rfl
  rw [listed_kept]
  split
  next given => rw [configurable given, ← fixed, Descriptor.withConfigurable_self]
  next => rfl

/-- What a definition that is accepted makes of a property: nothing new, a property of the same kind
with what is given replaced, or a property of the other kind, if it was configurable. -/
theorem apply_cases (h : d.apply current = .ok result) :
    (d.isEmpty = true ∧ result = current) ∨
      (d.checkFlags current = .ok () ∧
        (d.isGeneric = true ∨ d.checkContents current = .ok ()) ∧ result = d.mergeInto current) ∨
      (current.isConfigurable = true ∧
        result = d.mergeInto (if current.isData then current.blankAccessor else current.blankData)) := by
  unfold apply at h
  split at h
  next empty =>
    cases h
    exact .inl ⟨empty, rfl⟩
  cases checked : d.checkFlags current with
  | error rejection =>
    rw [checked] at h
    cases h
  | ok u =>
    rw [checked] at h
    change (if d.isGeneric then _ else _) = _ at h
    split at h
    next generic =>
      cases h
      exact .inr (.inl ⟨rfl, .inl generic, rfl⟩)
    next =>
      split at h
      next =>
        -- only a configurable property becomes one of the other kind
        cases configurable : current.isConfigurable with
        | false =>
          rw [configurable] at h
          cases h
        | true =>
          rw [configurable] at h
          cases h
          exact .inr (.inr ⟨rfl, rfl⟩)
      next =>
        cases contents : d.checkContents current with
        | error rejection =>
          rw [contents] at h
          cases h
        | ok u =>
          rw [contents] at h
          cases h
          exact .inr (.inl ⟨rfl, .inr rfl, rfl⟩)

/-- **A definition that is accepted leaves a property that lasts.** -/
theorem apply_lasting (h : d.apply current = .ok result) (fixed : current.isConfigurable = false) :
    current.Lasting result := by
  rcases apply_cases h with ⟨-, rfl⟩ | ⟨checked, contents, rfl⟩ | ⟨configurable, -⟩
  · exact .refl fixed
  · have flags := checkFlags_lasting checked fixed
    refine ⟨?_, ?_, isData_mergeInto d current, mergeInto_readOnly flags contents fixed⟩
    · rw [isConfigurable_mergeInto]
      split
      next given => exact flags.1 given
      next => exact fixed
    · rw [isEnumerable_mergeInto]
      split
      next given => exact flags.2 given
      next => rfl
  · rw [fixed] at configurable
    cases configurable

end Definition

/-! ## Objects -/

namespace ObjectRecord

/-- No property of the object can be changed in any way, and none can be added. -/
structure IsFrozen (r : ObjectRecord) : Prop where
  closed : r.extensible = false
  property : ∀ name d, r.own? name = some d → d.isConfigurable = false ∧ d.isWritable = false

/-- What lasts of an object. -/
structure Lasting (r r' : ObjectRecord) : Prop where
  cls : r'.cls = r.cls
  prototype : r'.prototype = r.prototype
  closed : r.extensible = false → r'.extensible = false
  /-- An object that is not extensible gets no properties. -/
  absent : r.extensible = false → ∀ name, r.own? name = none → r'.own? name = none
  /-- A property that is not configurable stays. -/
  property : ∀ name d, r.own? name = some d → d.isConfigurable = false →
    ∃ d', r'.own? name = some d' ∧ d.Lasting d'
  /-- A frozen object never changes. -/
  frozen : r.IsFrozen → r' = r

variable {r r' r'' : ObjectRecord} {name : String} {d : Definition} {p : Descriptor}

theorem Lasting.refl (r : ObjectRecord) : r.Lasting r where
  cls := rfl
  prototype := rfl
  closed := id
  absent _ _ := id
  property _ d own fixed := ⟨d, own, .refl fixed⟩
  frozen _ := rfl

theorem Lasting.trans (h : r.Lasting r') (h' : r'.Lasting r'') : r.Lasting r'' where
  cls := h'.cls.trans h.cls
  prototype := h'.prototype.trans h.prototype
  closed c := h'.closed (h.closed c)
  absent c name own := h'.absent (h.closed c) name (h.absent c name own)
  property name d own fixed := by
    obtain ⟨d', own', lasting⟩ := h.property name d own fixed
    obtain ⟨d'', own'', lasting'⟩ := h'.property name d' own' lasting.configurable
    exact ⟨d'', own'', lasting.trans lasting'⟩
  frozen f := by
    obtain rfl := h.frozen f
    exact h'.frozen f

theorem store_of_own? (own : r.own? name = some p) : r.store name p = r := by
  rw [store, Table.insert_of_get? own]

theorem remove_of_own? (own : r.own? name = none) : r.remove name = r := by
  rw [remove, Table.erase_of_get? own]

/-- A stored property makes a lasting change if there is a place for it, or if what it replaces
lasts. -/
theorem Lasting.store (new : r.own? name = none → r.extensible = true)
    (old : ∀ d, r.own? name = some d → d.isConfigurable = false → d.Lasting p) :
    r.Lasting (r.store name p) where
  cls := rfl
  prototype := rfl
  closed := id
  absent closed other own := by
    rw [own?_store, if_neg, own]
    rintro rfl
    rw [new own] at closed
    cases closed
  property other d own fixed := by
    rw [own?_store]
    split
    next same =>
      subst same
      exact ⟨p, rfl, old d own fixed⟩
    next => exact ⟨d, own, .refl fixed⟩
  -- a frozen object has no new properties, and all others store what they have
  frozen f := by
    cases own : r.own? name with
    | none =>
      have closed := f.closed
      rw [new own] at closed
      cases closed
    | some d =>
      obtain ⟨fixed, readOnly⟩ := f.property name d own
      obtain rfl := (old d own fixed).readOnly readOnly
      exact store_of_own? own

/-- What an object accepts is a lasting change. -/
theorem Lasting.accept (h : r.accept name d = .ok p) : r.Lasting (r.store name p) := by
  unfold ObjectRecord.accept at h
  refine .store (fun own => ?_) fun current own fixed => ?_
  · rw [own] at h
    simp only at h
    split at h
    next more => exact more
    next => cases h
  · rw [own] at h
    exact Definition.apply_lasting h fixed

/-- What can be removed does not have to last. -/
theorem Lasting.remove (h : r.canDelete name = true) : r.Lasting (r.remove name) where
  cls := rfl
  prototype := rfl
  closed := id
  absent _ other own := by
    rw [own?_remove]
    split
    · rfl
    · exact own
  property other d own fixed := by
    rw [own?_remove, if_neg]
    · exact ⟨d, own, .refl fixed⟩
    · rintro rfl
      rw [canDelete, own] at h
      simp [fixed] at h
  -- nothing of a frozen object can be removed
  frozen f := by
    cases own : r.own? name with
    | none => exact remove_of_own? own
    | some d =>
      rw [canDelete, own] at h
      simp [(f.property name d own).1] at h

theorem Lasting.preventExtensions (r : ObjectRecord) : r.Lasting r.preventExtensions where
  cls := rfl
  prototype := rfl
  closed _ := rfl
  absent _ _ := id
  property _ d own fixed := ⟨d, own, .refl fixed⟩
  frozen f := by
    rw [ObjectRecord.preventExtensions, ← f.closed]

/-! ## Lengths of arrays -/

/-- A length that can be replaced. -/
def HasWritableLength (r : ObjectRecord) : Prop :=
  ∃ v, r.own? "length" = some (.data v true false false)

/-- An array has a length: a value that is not listed and cannot be removed. -/
def HasLength (r : ObjectRecord) : Prop :=
  r.cls = .array → ∃ v w, r.own? "length" = some (.data v w false false)

theorem HasLength.lasting (h : r.HasLength) (lasting : r.Lasting r') : r'.HasLength := by
  intro array
  obtain ⟨v, w, own⟩ := h (lasting.cls.symm.trans array)
  obtain ⟨d, own', last⟩ := lasting.property "length" _ own rfl
  refine own' ▸ ?_
  have kind := last.kind
  have enumerable := last.enumerable
  have configurable := last.configurable
  cases d with
  | data v' w' e c =>
    obtain rfl : e = false := enumerable
    obtain rfl : c = false := configurable
    exact ⟨v', w', rfl⟩
  | accessor g s e c => cases kind

/-- The length of an array can be replaced without a check as long as it is writable. -/
theorem Lasting.setLength (h : r.HasWritableLength) (n : Nat) (w : Bool) :
    r.Lasting (r.store "length" (Op.lengthDescriptor n w)) := by
  obtain ⟨v, own⟩ := h
  refine .store (fun none => ?_) fun d own' fixed => ?_
  · rw [own] at none
    cases none
  · rw [own] at own'
    cases own'
    exact ⟨rfl, rfl, rfl, fun readOnly => nomatch readOnly⟩

theorem HasWritableLength.store (h : r.HasWritableLength) (ne : "length" ≠ name)
    (p : Descriptor) : (r.store name p).HasWritableLength := by
  obtain ⟨v, own⟩ := h
  exact ⟨v, by rw [own?_store, if_neg ne, own]⟩

/-- A definition that does not make the length read-only leaves it writable. -/
theorem HasWritableLength.accept (h : r.HasWritableLength) (accepted : r.accept "length" d = .ok p)
    (given : d.hasWritable = true → d.descriptor.isWritable = true) :
    (r.store "length" p).HasWritableLength := by
  obtain ⟨v, own⟩ := h
  rw [ObjectRecord.accept, own] at accepted
  have last := Definition.apply_lasting accepted rfl
  have writable : p.isWritable = true := by
    rcases Definition.apply_cases accepted with ⟨-, rfl⟩ | ⟨-, -, rfl⟩ | ⟨configurable, -⟩
    · rfl
    · exact Definition.isWritable_mergeInto rfl given
    · cases configurable
  -- flags of a property that is not configurable stay as they are
  have enumerable := last.enumerable
  have configurable := last.configurable
  cases p with
  | accessor g s e c => cases writable
  | data v' w e c =>
    obtain rfl : w = true := writable
    obtain rfl : e = false := enumerable
    obtain rfl : c = false := configurable
    exact ⟨v', by rw [own?_store, if_pos rfl]⟩

theorem HasWritableLength.remove (h : r.HasWritableLength) (removed : r.canDelete name = true) :
    (r.remove name).HasWritableLength := by
  obtain ⟨v, own⟩ := h
  refine ⟨v, ?_⟩
  rw [own?_remove, if_neg, own]
  rintro rfl
  rw [canDelete, own] at removed
  cases removed

end ObjectRecord

end AbstractScript
