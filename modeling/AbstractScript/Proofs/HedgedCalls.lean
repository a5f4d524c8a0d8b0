import AbstractScript.Builtin.Arrays
import AbstractScript.Proofs.Freezing
import AbstractScript.Proofs.OrdinaryAssignment
import AbstractScript.Proofs.ShortenedArrays

/-!
# Calls of built-in functions that may or may not happen

A call that may or may not happen should leave the properties of an older object as they are, or
unknown (`ObjectRecord.Hedged`). The methods that assign to the elements of an array do so, as long as
their assignments neither run other built-in functions nor fail half way. Definitions are made as if
they were certain, so that the functions that define properties and restrict objects hedge only what
they would not change anyway (`Builtin.hedged_calls`).
-/
namespace AbstractScript

open Eval

/-! ## Objects -/

namespace ObjectRecord

/-- What a call that may or may not happen should leave of an object. -/
structure Hedged (r r' : ObjectRecord) : Prop where
  extensible : r'.extensible = r.extensible
  kept : ∀ name d, r.own? name = some d → ∃ d', r'.own? name = some d' ∧ (d' = d ∨ d'.IsUnknown)
  added : ∀ name d', r.own? name = none → r'.own? name = some d' → d'.IsUnknown

variable {r r' r'' : ObjectRecord} {name : String}

/-- An object that is left alone is hedged. -/
theorem Hedged.refl (r : ObjectRecord) : r.Hedged r where
  extensible := rfl
  kept _ d own := ⟨d, own, .inl rfl⟩
  added name d' absent own := by
    rw [absent] at own
    cases own

/-- Hedged twice is hedged. -/
theorem Hedged.trans (h : r.Hedged r') (h' : r'.Hedged r'') : r.Hedged r'' where
  extensible := h'.extensible.trans h.extensible
  kept name d own := by
    obtain ⟨d', own', first⟩ := h.kept name d own
    obtain ⟨d'', own'', second⟩ := h'.kept name d' own'
    refine ⟨d'', own'', ?_⟩
    rcases second with rfl | unknown
    · exact first
    · exact .inr unknown
  added name d'' absent own'' := by
    cases between : r'.own? name with
    | none => exact h'.added name d'' between own''
    | some d' =>
      obtain ⟨d, own, second⟩ := h'.kept name d' between
      obtain rfl : d = d'' := Option.some.inj (own.symm.trans own'')
      rcases second with rfl | unknown
      · exact h.added name d absent between
      · exact unknown

/-- A property that is stored hedges an object if it is the one from before, or unknown. -/
theorem hedged_store_iff (p : Descriptor) :
    r.Hedged (r.store name p) ↔ r.own? name = some p ∨ p.IsUnknown := by
  constructor
  · intro h
    cases own : r.own? name with
    | none => exact .inr (h.added name p own (by rw [own?_store, if_pos rfl]))
    | some d =>
      obtain ⟨d', own', kept⟩ := h.kept name d own
      rw [own?_store, if_pos rfl] at own'
      obtain rfl := Option.some.inj own'
      exact kept.imp_left (congrArg some ·.symm)
  · intro either
    refine ⟨rfl, fun other d own => ?_, fun other d absent own => ?_⟩
    · by_cases same : other = name
      · subst same
        refine ⟨p, by rw [own?_store, if_pos rfl], either.imp_left fun before => ?_⟩
        exact Option.some.inj (before.symm.trans own)
      · exact ⟨d, by rw [own?_store, if_neg same, own], .inl rfl⟩
    · by_cases same : other = name
      · subst same
        rw [own?_store, if_pos rfl] at own
        obtain rfl := Option.some.inj own
        refine either.resolve_left fun before => ?_
        rw [absent] at before
        cases before
      · rw [own?_store, if_neg same, absent] at own
        cases own

/-! ## Arrays that may have to grow -/

/-- What assignments of unknown values leave of an object: they hedge it, but the length of an array
stays known when the array gets longer. -/
structure Grown (r r' : ObjectRecord) : Prop where
  cls : r'.cls = r.cls
  extensible : r'.extensible = r.extensible
  kept : ∀ name d, r.own? name = some d → ∃ d', r'.own? name = some d' ∧
    (d' = d ∨ d'.IsUnknown ∨ r.IsLength name ∧ r'.IsLength name)
  added : ∀ name d', r.own? name = none → r'.own? name = some d' → d'.IsUnknown

/-- What is unknown is not the known length of an array. -/
theorem not_isLength_of_isUnknown {d : Descriptor} (own : r.own? name = some d) (h : d.IsUnknown) :
    ¬ r.IsLength name := by
  rintro ⟨-, -, x, w, e, c, known⟩
  obtain ⟨w', e', c', rfl⟩ := h
  rw [own] at known
  cases known

/-- A property is the length of an array as long as the class and the property stay the same. -/
theorem IsLength.congr (h : r.IsLength name) (cls : r'.cls = r.cls)
    (own : r'.own? name = r.own? name) : r'.IsLength name := by
  obtain ⟨array, is, x, w, e, c, known⟩ := h
  exact ⟨cls.trans array, is, x, w, e, c, own.trans known⟩

/-- What is hedged has grown at most. -/
theorem Hedged.grown (h : r.Hedged r') (cls : r'.cls = r.cls) : r.Grown r' where
  cls := cls
  extensible := h.extensible
  kept name d own := by
    obtain ⟨d', own', either⟩ := h.kept name d own
    exact ⟨d', own', either.imp_right .inl⟩
  added := h.added

/-- An object that is left alone has grown at most. -/
theorem Grown.refl (r : ObjectRecord) : r.Grown r := (Hedged.refl r).grown rfl

/-- So has one that has grown at most twice. -/
theorem Grown.trans (h : r.Grown r') (h' : r'.Grown r'') : r.Grown r'' where
  cls := h'.cls.trans h.cls
  extensible := h'.extensible.trans h.extensible
  kept name d own := by
    obtain ⟨d', own', first⟩ := h.kept name d own
    obtain ⟨d'', own'', second⟩ := h'.kept name d' own'
    refine ⟨d'', own'', ?_⟩
    rcases second with rfl | unknown | ⟨before, after⟩
    · -- what is a length after the first step is so after the second
      refine first.imp_right (.imp_right ?_)
      rintro ⟨before, after⟩
      exact ⟨before, after.congr h'.cls (own''.trans own'.symm)⟩
    · exact .inr (.inl unknown)
    · rcases first with rfl | unknown | ⟨length, -⟩
      · exact .inr (.inr ⟨before.congr h.cls.symm (own.trans own'.symm), after⟩)
      · exact absurd before (not_isLength_of_isUnknown own' unknown)
      · exact .inr (.inr ⟨length, after⟩)
  added name d'' absent own'' := by
    cases between : r'.own? name with
    | none => exact h'.added name d'' between own''
    | some d' =>
      have unknown := h.added name d' absent between
      obtain ⟨d, own, second⟩ := h'.kept name d' between
      obtain rfl : d = d'' := Option.some.inj (own.symm.trans own'')
      rcases second with rfl | unknown' | ⟨before, -⟩
      · exact unknown
      · exact unknown'
      · exact absurd before (not_isLength_of_isUnknown between unknown)

/-- An object is hedged if it is no array, or an array with a length that is not known any more. -/
theorem Grown.hedged (h : r.Grown r') (unknown : ¬ r'.IsLength "length") : r.Hedged r' where
  extensible := h.extensible
  kept name d own := by
    obtain ⟨d', own', first⟩ := h.kept name d own
    refine ⟨d', own', first.imp_right fun h => h.resolve_right ?_⟩
    rintro ⟨-, array, rfl, known⟩
    exact unknown ⟨array, rfl, known⟩
  added := h.added

/-- A length that is known may become another one that is known. -/
theorem grown_storeLength (known : r.IsLength "length") (n : Nat) (w : Bool) :
    r.Grown (r.store "length" (Op.lengthDescriptor n w)) where
  cls := rfl
  extensible := rfl
  kept name d own := by
    by_cases same : name = "length"
    · subst same
      refine ⟨_, by rw [own?_store, if_pos rfl], .inr (.inr ⟨known, known.1, rfl, ?_⟩)⟩
      exact ⟨Float.ofNat n, w, false, false, by rw [own?_store, if_pos rfl]; rfl⟩
    · exact ⟨d, by rw [own?_store, if_neg same, own], .inl rfl⟩
  added name d absent own := by
    by_cases same : name = "length"
    · subst same
      obtain ⟨-, -, x, w, e, c, own'⟩ := known
      rw [absent] at own'
      cases own'
    · rw [own?_store, if_neg same, absent] at own
      cases own

/-- An assignment of an unknown value lets an array grow at most. -/
theorem grown_assign (plain : ∀ g f e c, r.own? name ≠ some (.accessor g f e c)) :
    r.Grown (r.assign name .unknown) := by
  have stored : r.Grown (r.store name (r.assigned name .unknown)) :=
    ((hedged_store_iff _).2 (.inr (isUnknown_assigned plain))).grown rfl
  unfold assign
  split
  next index length writable found =>
    split
    · exact stored
    · split
      · refine stored.trans (grown_storeLength ?_ _ _)
        unfold element? at found
        split at found
        next array =>
          obtain ⟨i, isIndex, known⟩ := Option.bind_eq_some_iff.1 found
          obtain ⟨place, known, -⟩ := Option.map_eq_some_iff.1 known
          exact (Op.isLength_of_arrayLength? array known).store (Op.length_ne_arrayIndex isIndex) _
        next => cases found
      · exact .refl r
  next => exact stored

end ObjectRecord

/-! ## Built-in functions that are not run -/

/-- The properties of an object change, and nothing else. -/
structure Machine.Touches (o : ObjectId) (m n : Machine) : Prop where
  level : n.level = m.level
  size : n.realm.objects.size = m.realm.objects.size
  others : ∀ p, p ≠ o → n.realm.object p = m.realm.object p
  alike : (m.realm.object o).Alike (n.realm.object o)

/-- No accessor of an object and of its prototypes is a built-in function. -/
def Realm.IsInert (r : Realm) (o : ObjectId) : Prop :=
  ∀ p ∈ r.chain o, ∀ name g f e c, (r.object p).own? name = some (.accessor g f e c) →
    ∀ h, h ∈ g ∨ h ∈ f → ¬ (r.object h).IsNative

/-- Assignments of unknown values leave something of an object, and touch nothing else. -/
structure Machine.Alters (o : ObjectId) (m n : Machine) : Prop where
  touches : m.Touches o n
  grown : (m.realm.object o).Grown (n.realm.object o)

/-- Assignments to an object may or may not happen, and run no built-in function. -/
structure Machine.Hedges (o : ObjectId) (m : Machine) : Prop where
  there : o.index < m.realm.objects.size
  possible : m.isAmbiguousWrite (m.realm.object o).createdLevel = true
  inert : m.realm.IsInert o

namespace Machine

variable {o : ObjectId} {m n k : Machine}

/-- Nothing is touched when nothing is done. -/
theorem Touches.refl (o : ObjectId) (m : Machine) : m.Touches o m :=
  ⟨rfl, rfl, fun _ _ => rfl, .refl _⟩

/-- Two steps that touch only one object touch only that one. -/
theorem Touches.trans (h : m.Touches o n) (h' : n.Touches o k) : m.Touches o k :=
  ⟨h'.level.trans h.level, h'.size.trans h.size, fun p ne => (h'.others p ne).trans (h.others p ne),
    h.alike.trans h'.alike⟩

/-- A change of one object touches that one only. -/
theorem touches_modifyObject (m : Machine) {f : ObjectRecord → ObjectRecord}
    (alike : ∀ r : ObjectRecord, r.Alike (f r)) : m.Touches o (m.modifyObject o f) where
  level := rfl
  size := Array.size_modify ..
  others p ne := by
    rw [modifyObject, Realm.object_modifyObject, if_neg fun same => ne same.1]
  alike := by
    rw [modifyObject, Realm.object_modifyObject]
    split
    · exact alike _
    · exact .refl _

/-- All objects stay alike. -/
theorem Touches.alike_object (h : m.Touches o n) (p : ObjectId) :
    (m.realm.object p).Alike (n.realm.object p) := by
  by_cases same : p = o
  · exact same ▸ h.alike
  · exact h.others p same ▸ .refl _

/-- The prototypes that an object has stay the same. -/
theorem Touches.chain (h : m.Touches o n) (p : ObjectId) : n.realm.chain p = m.realm.chain p := by
  rw [Realm.chain, Realm.chain, h.size]
  exact Realm.chainWithin_of_prototype fun p _ => (h.alike_object p).prototype

/-- Nothing is altered when nothing is done. -/
theorem Alters.refl (o : ObjectId) (m : Machine) : m.Alters o m := ⟨.refl o m, .refl _⟩

/-- Two steps of assignments make one. -/
theorem Alters.trans (h : m.Alters o n) (h' : n.Alters o k) : m.Alters o k :=
  ⟨h.touches.trans h'.touches, h.grown.trans h'.grown⟩

/-- Two steps one after the other. -/
theorem Alters.bind {α β : Type} {x : Op α} {f : α → Op β} {s : Setup}
    (first : m.Alters o (x.after s m))
    (next : ∀ a k, x s m = .ok a k → m.Alters o k → k.Alters o ((f a).after s k)) :
    m.Alters o ((x >>= f).after s m) := by
  rw [Eval.after_bind]
  rw [Eval.after] at first
  cases run : x s m with
  | error e k =>
    rw [run] at first
    exact first
  | ok a k =>
    rw [run] at first
    exact first.trans (next a k run first)

/-- No accessor is new. -/
theorem Alters.accessor (h : m.Alters o n) {p : ObjectId} {name : String} {g f : Option ObjectId}
    {e c : Bool} (own : (n.realm.object p).own? name = some (.accessor g f e c)) :
    (m.realm.object p).own? name = some (.accessor g f e c) := by
  by_cases same : p = o
  · subst same
    cases before : (m.realm.object p).own? name with
    | none =>
      obtain ⟨w, e', c', is⟩ := h.grown.added name _ before own
      cases is
    | some d =>
      obtain ⟨d', own', either⟩ := h.grown.kept name d before
      obtain rfl := Option.some.inj (own'.symm.trans own)
      rcases either with rfl | ⟨w, e', c', is⟩ | ⟨-, -, -, x, w, e', c', known⟩
      · rfl
      · cases is
      · rw [own] at known
        cases known
  · rwa [h.touches.others p same] at own

/-- What hedges an object goes on to do so after its properties were touched, if no accessor is new.
-/
theorem Touches.hedges (h : m.Touches o n)
    (accessor : ∀ p name g f e c, (n.realm.object p).own? name = some (.accessor g f e c) →
      (m.realm.object p).own? name = some (.accessor g f e c)) (hm : m.Hedges o) : n.Hedges o where
  there := h.size ▸ hm.there
  possible := by
    rw [isAmbiguousWrite, h.level, h.alike.createdLevel]
    exact hm.possible
  inert p hp name g f e c own q hq := by
    rintro ⟨text, native, construct, is⟩
    rw [h.chain] at hp
    rw [(h.alike_object q).callable] at is
    exact hm.inert p hp name g f e c (accessor p name g f e c own) q hq
      ⟨text, native, construct, is⟩

/-- It does so after assignments, since these store no accessors. -/
theorem Alters.hedges (h : m.Alters o n) (hm : m.Hedges o) : n.Hedges o :=
  h.touches.hedges (fun _ _ _ _ _ _ => h.accessor) hm

end Machine

/-- An accessor that is found is no built-in function. -/
theorem Realm.IsInert.found {r : Realm} {o : ObjectId} (inert : r.IsInert o) {name : String}
    {g f : Option ObjectId} {e c : Bool} (found : r.property? o name = some (.accessor g f e c)) :
    ∀ h, h ∈ g ∨ h ∈ f → ¬ (r.object h).IsNative := by
  obtain ⟨p, hp, own⟩ := List.exists_of_findSome?_eq_some found
  exact inert p hp name g f e c own

/-- An object whose properties are all data, up its chain, runs nothing when it is read or written.
-/
theorem Realm.isInert_of_isData {r : Realm} {o : ObjectId}
    (all : ∀ p ∈ r.chain o, (r.object p).properties.toList.all (·.2.isData) = true) :
    r.IsInert o := by
  intro p hp name g f e c own
  have data := List.all_eq_true.1 (all p hp) _ (Table.get?_eq_some_iff.1 own)
  cases data

/-! ## Assignments -/

namespace Op

open Machine

variable {o : ObjectId} {name : String} {d : Definition} {strict : Bool} {s : Setup} {m n : Machine}

/-- To define an ordinary property touches the object only. -/
theorem touches_defineOrdinary : m.Touches o ((defineOrdinary o name d strict).after s m) := by
  rw [Eval.after, defineOrdinary_apply]
  cases (m.realm.object o).accept name d with
  | ok p => exact touches_modifyObject m fun r => .store r name p
  | error rejection => cases strict <;> exact .refl o m

/-- So does the definition of an element, with the length it requires. -/
theorem touches_defineElement (index : Nat) :
    m.Touches o ((defineElement o index name d strict).after s m) := by
  rw [defineElement, after_object_bind]
  split
  next => exact touches_defineOrdinary
  next length writable known =>
    split
    next =>
      rw [after_reject]
      exact .refl o m
    next =>
      rw [after_bind, defineOrdinary_apply]
      cases (m.realm.object o).accept name d with
      | ok p =>
        have stored : m.Touches o (m.modifyObject o (·.store name p)) :=
          touches_modifyObject m fun r => .store r name p
        by_cases beyond : length ≤ index
        · simp only [if_pos beyond]
          exact stored.trans (touches_modifyObject _ fun r => .store r ..)
        · simp only [if_neg beyond]
          exact stored
      | error rejection =>
        show m.Touches o ((reject strict name).after s m)
        rw [after_reject]
        exact .refl o m

/-- A value that is unknown is not converted. -/
theorem touches_define_unknown (value : d.value? = some .unknown) :
    m.Touches o ((define o name d strict).after s m) := by
  rw [define, after_object_bind]
  split
  next => exact touches_defineOrdinary
  next =>
    split
    next isLength =>
      subst isLength
      rw [defineLength, value, after_bind]
      show m.Touches o ((defineOrdinary o "length" (d.withValue .unknown) strict).after s m)
      exact touches_defineOrdinary
    next =>
      split
      next index _ => exact touches_defineElement index
      next => exact touches_defineOrdinary

/-- An assignment that runs no accessor touches the object only. -/
theorem touches_put (hm : m.Hedges o) (name : String) (v : Value) (strict : Bool) (s : Setup) :
    m.Touches o ((put o name v strict).after s m) := by
  cases allowed : m.realm.canPut o name with
  | false =>
    rw [put_readOnly allowed]
    exact .refl o m
  | true =>
    rw [put, after_get_bind, if_neg (by simp [allowed]), after_object_bind,
      after_bind_ok (weaken_apply ..), if_pos hm.possible]
    split
    next =>
      rw [after_bind_pure]
      exact touches_define_unknown rfl
    next =>
      rw [after_bind_ok (property?_apply ..)]
      split
      -- no setter of an inert object is a native function, so that nothing is done
      next g f e c found =>
        rw [after_bind_pure, callAccessor_of_not_native (hm.inert.found found f (.inr rfl))]
        exact .refl o m
      next =>
        rw [after_bind_pure]
        exact touches_define_unknown rfl

/-- A setter that is found is no built-in function. -/
theorem not_isNative_of_setter? (hm : m.Hedges o) {f : ObjectId}
    (found : m.realm.setter? o name = some f) : ¬ (m.realm.object f).IsNative := by
  unfold Realm.setter? at found
  split at found
  next g f' e c nearest =>
    subst found
    exact hm.inert.found nearest f (.inr rfl)
  next => cases found

/-- An assignment that may or may not happen makes one property unknown, and may let an array grow. -/
theorem alters_put (hm : m.Hedges o) (name : String) (v : Value) (strict : Bool) (s : Setup) :
    m.Alters o ((put o name v strict).after s m) where
  touches := touches_put hm name v strict s
  grown := by
    cases allowed : m.realm.canPut o name with
    | false =>
      rw [put_readOnly allowed]
      exact .refl _
    | true =>
      rcases setter_or_data m o name with ⟨f, found, accessor⟩ | data
      · rw [put_setter accessor found (not_isNative_of_setter? hm found)]
        exact .refl _
      · rw [put_stores hm.there allowed data fun _ _ => hm.possible, if_pos hm.possible]
        exact ObjectRecord.grown_assign (plain_of_canPut allowed data)

/-- An assignment of a length that may or may not happen changes nothing, or makes the length
unknown. -/
theorem put_length_cases (hm : m.Hedges o) (v : Value) (strict : Bool) (s : Setup) :
    ((put o "length" v strict).after s m = m ∧
      (m.realm.canPut o "length" = true → ¬ (m.realm.object o).IsLength "length")) ∨
      ∃ d : Descriptor, d.IsUnknown ∧
        ((put o "length" v strict).after s m).realm.object o =
          (m.realm.object o).store "length" d := by
  cases allowed : m.realm.canPut o "length" with
  | false => exact .inl ⟨put_readOnly allowed v strict s, fun h => absurd h Bool.false_ne_true⟩
  | true =>
    rcases setter_or_data m o "length" with ⟨f, found, accessor⟩ | data
    · refine .inl ⟨put_setter accessor found (not_isNative_of_setter? hm found) v strict s, ?_⟩
      rintro - ⟨-, -, x, w, e, c, own⟩
      exact accessor _ _ _ _ own
    · refine .inr ⟨(m.realm.object o).assigned "length" .unknown,
        ObjectRecord.isUnknown_assigned (plain_of_canPut allowed data), ?_⟩
      rw [put_stores hm.there allowed data fun _ _ => hm.possible, if_pos hm.possible,
        ObjectRecord.assign, ObjectRecord.element?_length]

/-- Once the length has been assigned to, it is not known any more. -/
theorem not_isLength_of_put (hm : m.Hedges o) {v : Value}
    (run : put o "length" v true s m = .ok () n) : ¬ (n.realm.object o).IsLength "length" := by
  have allowed : m.realm.canPut o "length" = true := by
    rw [← Bool.not_eq_false]
    intro refused
    rw [put_refused refused, if_pos rfl] at run
    cases run
  have after : (put o "length" v true).after s m = n := by rw [Eval.after, run]
  rcases put_length_cases hm v true s with ⟨same, other⟩ | ⟨d, unknown, stored⟩
  · rw [← after, same]
    exact other allowed
  · rw [after] at stored
    rw [stored]
    exact ObjectRecord.not_isLength_of_isUnknown (by rw [ObjectRecord.own?_store, if_pos rfl]) unknown

/-- The assignment of a length alone hedges an object, and leaves all other properties. -/
theorem hedged_put_length (hm : m.Hedges o) (v : Value) (strict : Bool) (s : Setup) :
    (m.realm.object o).Hedged (((put o "length" v strict).after s m).realm.object o) ∧
      ∀ name, name ≠ "length" →
        (((put o "length" v strict).after s m).realm.object o).own? name =
          (m.realm.object o).own? name := by
  rcases put_length_cases hm v strict s with ⟨same, -⟩ | ⟨d, unknown, stored⟩
  · rw [same]
    exact ⟨.refl _, fun _ _ => rfl⟩
  · rw [stored]
    exact ⟨(ObjectRecord.hedged_store_iff d).2 (.inr unknown), fun name ne => by
      rw [ObjectRecord.own?_store, if_neg ne]⟩

/-! ## Reading -/

/-- Reading a property runs no built-in function. -/
theorem get_of_inert (inert : m.realm.IsInert o) (name : String) (s : Setup) :
    ∃ v, get o name s m = .ok v m ∧
      ((∃ w e c, m.realm.property? o name = some (.data v w e c)) ∨ v.isObject = false) := by
  have looked : (property? o name : Op _) s m = .ok (m.realm.property? o name) m := rfl
  cases found : m.realm.property? o name with
  | none => exact ⟨.undefined, by rw [get, getFor, bind_apply, looked, found]; rfl, .inr rfl⟩
  | some d =>
    cases d with
    | data v w e c =>
      exact ⟨v, by rw [get, getFor, bind_apply, looked, found]; rfl, .inl ⟨w, e, c, rfl⟩⟩
    | accessor g f e c =>
      cases g with
      | none => exact ⟨.undefined, by rw [get, getFor, bind_apply, looked, found]; rfl, .inr rfl⟩
      | some g =>
        refine ⟨.unknown, ?_, .inr rfl⟩
        rw [get, getFor, bind_apply, looked, found]
        exact callAccessor_apply (inert.found found g (.inl rfl)) ..

/-- A primitive is converted without looking at the machine. -/
theorem toNumber?_of_not_isObject {v : Value} (primitive : v.isObject = false) (s : Setup)
    (m : Machine) : toNumber? v s m = .ok v.primitiveToNumber? m := by
  cases v with
  | object => cases primitive
  | _ => rfl

end Op

/-! ## Methods of arrays -/

namespace Builtin

variable {o : ObjectId} {s : Setup} {m : Machine}

/-- The length of the receiver is read, and nothing changes. -/
theorem withLength?_of_inert (inert : m.realm.IsInert o)
    (primitive : ∀ v w e c, m.realm.property? o "length" = some (.data v w e c) →
      v.isObject = false) (s : Setup) :
    ∃ x : Option Nat, withLength? (.object o) s m = .ok (x.map (o, ·)) m := by
  obtain ⟨v, run, either⟩ := Op.get_of_inert inert "length" s
  have simple : v.isObject = false := by
    rcases either with ⟨w, e, c, found⟩ | simple
    · exact primitive v w e c found
    · exact simple
  have receiver : (Op.toObject? (.object o) : Op _) s m = .ok (some o) m := rfl
  refine ⟨v.primitiveToNumber?.map fun x => (Number.toUInt32 x).toNat, ?_⟩
  simp only [withLength?, bind_apply, receiver, run, Op.toNumber?_of_not_isObject simple, pure_apply,
    Option.map_map]
  rfl

/-- Elements that are assigned one after the other only let the array grow. -/
theorem alters_putElements (hm : m.Hedges o) (index : Nat) (values : List Value) (s : Setup) :
    m.Alters o ((putElements o index values).after s m) := by
  induction values generalizing index m with
  | nil => exact .refl o m
  | cons v rest ih =>
    exact (Op.alters_put hm (Nat.repr index) v true s).bind fun _ k _ alters =>
      ih (alters.hedges hm) (index + 1)

/-- The rest of `pop` hedges an object if it removes no property of it. -/
theorem hedged_of_delete (hm : m.Hedges o) {name : String} (other : name ≠ "length") (length : Nat)
    (element : Value) (s : Setup)
    (kept : ∀ name' ∈ (m.realm.object o).keys,
      name' ∈ (((Op.delete o name true >>= fun _ => putLength o length >>= fun _ =>
        pure element : Op Value).after s m).realm.object o).keys) :
    (m.realm.object o).Hedged (((Op.delete o name true >>= fun _ => putLength o length >>= fun _ =>
      pure element : Op Value).after s m).realm.object o) := by
  have step : Op.delete o name true s m =
      if (m.realm.object o).canDelete name then .ok true (m.modifyObject o (·.remove name))
      else .error (.typeError ("Cannot delete property '" ++ name ++ "'")) m := by
    rw [Op.delete, bind_apply]
    show (if (m.realm.object o).canDelete name = true then _ else _ : Op Bool) s m = _
    split <;> rfl
  by_cases removable : (m.realm.object o).canDelete name = true
  · rw [if_pos removable] at step
    rw [after_bind_ok step, after_bind_pure] at kept ⊢
    let k := m.modifyObject o (·.remove name)
    have removed : k.realm.object o = (m.realm.object o).remove name :=
      Op.object_modifyObject hm.there _
    have hk : k.Hedges o := by
      refine (Machine.touches_modifyObject m fun r => .remove r _).hedges ?_ hm
      intro p other g f e c own
      by_cases same : p = o
      · subst same
        rw [removed, ObjectRecord.own?_remove] at own
        split at own
        · cases own
        · exact own
      · rwa [Machine.modifyObject, Realm.object_modifyObject, if_neg fun both => same both.1] at own
    obtain ⟨hedged, others⟩ := Op.hedged_put_length hk (.nat length) true s
    cases own : (m.realm.object o).own? name with
    | none =>
      rw [removed, ObjectRecord.remove_of_own? own] at hedged
      exact hedged
    | some d =>
      -- the property would be gone
      have listed := kept name (ObjectRecord.mem_keys_iff.2 ⟨d, own⟩)
      obtain ⟨d', after⟩ := ObjectRecord.mem_keys_iff.1 listed
      have gone := others name other
      rw [removed, ObjectRecord.own?_remove, if_pos rfl] at gone
      cases gone.symm.trans after
  · rw [if_neg removable] at step
    rw [after_bind, step]
    exact .refl _

section

variable (hm : m.Hedges o)
  (primitive : ∀ v w e c, m.realm.property? o "length" = some (.data v w e c) → v.isObject = false)

include hm primitive

/-- `push` leaves all but the length of an array hedged. -/
theorem alters_push (arguments : List Value) (s : Setup) :
    m.Alters o ((push (.object o) arguments).after s m) := by
  obtain ⟨x, read⟩ := withLength?_of_inert hm.inert primitive s
  rw [push, after_bind_ok read]
  cases x with
  | none => exact .refl o m
  | some length =>
    refine (alters_putElements hm length arguments s).bind fun _ k _ alters => ?_
    exact (Op.alters_put (alters.hedges hm) "length" _ true s).bind fun _ k _ _ => .refl o k

/-- When `push` returns, nothing has changed, or the length is not known any more. -/
theorem push_ok {arguments : List Value} {v : Value} {n : Machine}
    (run : push (.object o) arguments s m = .ok v n) :
    n = m ∨ ¬ (n.realm.object o).IsLength "length" := by
  obtain ⟨x, read⟩ := withLength?_of_inert hm.inert primitive s
  rw [push, bind_apply, read] at run
  cases x with
  | none =>
    cases run
    exact .inl rfl
  | some length =>
    obtain ⟨_, k, elements, run⟩ := bind_eq_ok_iff.1 run
    obtain ⟨_, l, last, run⟩ := bind_eq_ok_iff.1 run
    cases run
    have alters := alters_putElements hm length arguments s
    rw [Eval.after, elements] at alters
    exact .inr (Op.not_isLength_of_put (alters.hedges hm) last)

/-- **`push` hedges** an object that is no array, and an array if it returns. -/
theorem push_hedges (arguments : List Value) (s : Setup)
    (returns : (m.realm.object o).cls = .array →
      ∃ v n, push (.object o) arguments s m = .ok v n) :
    (m.realm.object o).Hedged (((push (.object o) arguments).after s m).realm.object o) := by
  have alters := alters_push hm primitive arguments s
  by_cases array : (m.realm.object o).cls = .array
  · obtain ⟨v, n, run⟩ := returns array
    rw [Eval.after, run] at alters ⊢
    rcases push_ok hm primitive run with rfl | unknown
    · exact .refl _
    · exact alters.grown.hedged unknown
  · exact alters.grown.hedged fun length => array (alters.grown.cls.symm.trans length.1)

/-- **`pop` hedges** an object if it removes no property of it. -/
theorem pop_hedges (arguments : List Value) (s : Setup)
    (kept : ∀ name ∈ (m.realm.object o).keys,
      name ∈ (((pop (.object o) arguments).after s m).realm.object o).keys) :
    (m.realm.object o).Hedged (((pop (.object o) arguments).after s m).realm.object o) := by
  obtain ⟨x, read⟩ := withLength?_of_inert hm.inert primitive s
  rw [pop, after_bind_ok read] at kept ⊢
  cases x with
  | none => exact .refl _
  | some length =>
    cases length with
    | zero =>
      show (m.realm.object o).Hedged
        (((putLength o 0 >>= fun _ => pure .undefined : Op Value).after s m).realm.object o)
      rw [after_bind_pure]
      exact (Op.hedged_put_length hm _ true s).1
    | succ last =>
      obtain ⟨element, got, -⟩ := Op.get_of_inert hm.inert (Nat.repr last) s
      -- reading the element changes nothing
      have step : ((do
          let element ← Op.get o (Nat.repr last)
          let _ ← Op.delete o (Nat.repr last) true
          putLength o last
          return element : Op Value).after s m) = (Op.delete o (Nat.repr last) true >>= fun _ =>
            putLength o last >>= fun _ => pure element : Op Value).after s m := by
        rw [after_bind_ok got]
      rw [Option.map_some] at kept ⊢
      dsimp only at kept ⊢
      rw [step] at kept ⊢
      exact hedged_of_delete hm (ObjectRecord.repr_ne_length last) last element s kept

end

/-! ## Definitions -/

end Builtin

/-- A definition that gives an unknown value leaves it. -/
theorem Definition.isUnknown_of_apply {d : Definition} {current p : Descriptor}
    (given : d.value? = some .unknown) (accepted : d.apply current = .ok p) : p.IsUnknown := by
  obtain ⟨has, -⟩ := data_of_value? given
  have isData : d.isData = true := by simp [isData, has]
  have notEmpty : ¬ d.isEmpty = true := by simp [isEmpty, has]
  have notGeneric : ¬ d.isGeneric = true := by simp [isGeneric, isData]
  -- whatever the definition is merged into, the value becomes unknown
  have merged (v : Value) (w e c : Bool) : (d.mergeInto (.data v w e c)).IsUnknown := by
    obtain ⟨w', e', c', is⟩ := d.mergeInto_value v w e c
    rw [is, given]
    exact ⟨w', e', c', rfl⟩
  rw [apply_eq, if_neg notEmpty] at accepted
  split at accepted
  next => cases accepted
  next =>
    rw [if_neg notGeneric, isData] at accepted
    cases current with
    | data v w e c =>
      rw [if_pos (show (Descriptor.data v w e c).isData = true from rfl)] at accepted
      split at accepted
      next => cases accepted
      next =>
        cases accepted
        exact merged v w e c
    | accessor g f e c =>
      rw [if_neg (show ¬ (Descriptor.accessor g f e c).isData = true from Bool.false_ne_true)]
        at accepted
      split at accepted
      next =>
        cases accepted
        exact merged ..
      next => cases accepted

namespace ObjectRecord

variable {r r' : ObjectRecord} {name : String} {d : Definition} {p : Descriptor}

/-- A definition that gives an unknown value makes an unknown property. -/
theorem isUnknown_of_accept (given : d.value? = some .unknown) (accepted : r.accept name d = .ok p) :
    p.IsUnknown := by
  unfold accept at accepted
  split at accepted
  next =>
    split at accepted
    next =>
      cases accepted
      obtain ⟨has, w, e, c, is⟩ := Definition.data_of_value? given
      unfold Definition.complete
      rw [is, has]
      exact ⟨_, _, _, rfl⟩
    next => cases accepted
  next => exact Definition.isUnknown_of_apply given accepted

/-- A restriction of all properties hedges an object if no property can be added before, and each
property is unknown or restricted. -/
theorem Closed.hedged_iff {f : Descriptor → Descriptor} (h : r.Closed f r')
    (keeps : Descriptor.KeepsContents f) :
    r.Hedged r' ↔ r.extensible = false ∧
      ∀ name d, r.own? name = some d → f d = d ∨ d.IsUnknown := by
  have closed : r'.extensible = false := by rw [h.rest]
  constructor
  · intro hedged
    refine ⟨hedged.extensible.symm.trans closed, fun name d own => ?_⟩
    obtain ⟨d', own', either⟩ := hedged.kept name d own
    rw [h.own, own, Option.map_some] at own'
    obtain rfl := Option.some.inj own'
    -- closing changes flags only, so that what is unknown has been unknown before
    refine either.imp_right fun unknown => ?_
    obtain ⟨w, e, c, is⟩ := unknown
    cases d with
    | data v w' e' c' =>
      obtain ⟨w'', c'', kept⟩ := keeps.data v w' e' c'
      rw [kept] at is
      cases is
      exact ⟨w', e, c', rfl⟩
    | accessor g s e' c' =>
      obtain ⟨c'', kept⟩ := keeps.accessor g s e' c'
      rw [kept] at is
      cases is
  · rintro ⟨fixed, all⟩
    refine ⟨closed.trans fixed.symm, fun name d own => ?_, fun name d absent own => ?_⟩
    · refine ⟨f d, by rw [h.own, own, Option.map_some], (all name d own).imp_right ?_⟩
      rintro ⟨w, e, c, rfl⟩
      obtain ⟨w', c', kept⟩ := keeps.data .unknown w e c
      exact ⟨w', e, c', kept⟩
    · rw [h.own, absent] at own
      cases own

end ObjectRecord

namespace Builtin

variable {o : ObjectId} {s : Setup} {m : Machine} {arguments : List Value}

/-- An object that may not be extended for certain is hedged only if it could not be extended
before. -/
theorem preventExtensions_hedges_iff (there : o.index < m.realm.objects.size)
    (first : argument arguments 0 = .object o) (this : Value) (s : Setup) :
    (m.realm.object o).Hedged (((preventExtensions this arguments).after s m).realm.object o) ↔
      (m.realm.object o).extensible = false := by
  have run : (preventExtensions this arguments).after s m =
      m.modifyObject o (·.preventExtensions) := by
    rw [preventExtensions, first]
    rfl
  rw [run, Op.object_modifyObject there]
  constructor
  · intro h
    exact h.extensible.symm
  · intro fixed
    refine ⟨fixed.symm, fun name d own => ⟨d, own, .inl rfl⟩, fun name d absent own => ?_⟩
    cases absent.symm.trans own

/-- A definition of an ordinary object hedges it if it leaves a property as it is, or unknown. -/
theorem define_hedges_iff (there : o.index < m.realm.objects.size)
    (ordinary : (m.realm.object o).cls ≠ .array) (name : String) (d : Definition) (strict : Bool)
    (s : Setup) :
    (m.realm.object o).Hedged (((Op.define o name d strict).after s m).realm.object o) ↔
      ∀ p, (m.realm.object o).accept name d = .ok p →
        (m.realm.object o).own? name = some p ∨ p.IsUnknown := by
  rw [Eval.after, Op.define_of_ne_array ordinary, Op.defineOrdinary_apply]
  cases accepted : (m.realm.object o).accept name d with
  | error rejection =>
    constructor
    · intro _ p is
      cases is
    · intro _
      cases strict <;> exact .refl _
  | ok p =>
    show (m.realm.object o).Hedged ((m.modifyObject o (·.store name p)).realm.object o) ↔ _
    rw [Op.object_modifyObject there, ObjectRecord.hedged_store_iff]
    constructor
    · rintro either p' is
      cases is
      exact either
    · intro all
      exact all p rfl

/-- Definitions that give unknown values hedge an ordinary object. -/
theorem defineAll_hedges (there : o.index < m.realm.objects.size)
    (ordinary : (m.realm.object o).cls ≠ .array) {ds : List (String × Definition)}
    (unknown : ∀ x ∈ ds, x.2.value? = some .unknown) (s : Setup) :
    (m.realm.object o).Hedged (((defineAll o ds).after s m).realm.object o) := by
  -- by induction on the definitions: after each of them the object is still there and no array
  induction ds generalizing m with
  | nil => exact .refl _
  | cons x ds ih =>
    have first := (define_hedges_iff there ordinary x.1 x.2 true s).2 fun p accepted =>
      .inr (ObjectRecord.isUnknown_of_accept (unknown x List.mem_cons_self) accepted)
    have touches : m.Touches o ((Op.define o x.1 x.2 true).after s m) := by
      rw [Eval.after, Op.define_of_ne_array ordinary]
      exact Op.touches_defineOrdinary
    show (m.realm.object o).Hedged ((((Op.define o x.1 x.2 true >>= fun _ => pure ()) >>= fun _ =>
      defineAll o ds : Op Unit).after s m).realm.object o)
    rw [after_bind, bind_apply]
    rw [Eval.after] at first touches
    cases run : Op.define o x.1 x.2 true s m with
    | error e k =>
      rw [run] at first
      exact first
    | ok b k =>
      rw [run] at first touches
      refine first.trans (ih (touches.size ▸ there) ?_ fun y hy => unknown y (.tail _ hy))
      rw [touches.alike.cls]
      exact ordinary

/-- **Which calls hedge an object** that may or may not be changed by them. `push` hedges it if no
accessor of the object is a built-in function, and its length is a primitive; an array may stay
longer if the call fails. So does `pop` if it removes nothing. The functions that restrict objects do
so if and only if properties cannot be added anyway, and every property is unknown or restricted
before. A definition hedges an object that is no array if and only if it leaves a property that was
there, or an unknown one. -/
theorem hedged_calls (there : o.index < m.realm.objects.size) (s : Setup) :
    (m.Hedges o → (∀ v w e c, m.realm.property? o "length" = some (.data v w e c) →
        v.isObject = false) → ∀ arguments : List Value,
      (((m.realm.object o).cls = .array → ∃ v n, push (.object o) arguments s m = .ok v n) →
        (m.realm.object o).Hedged (((push (.object o) arguments).after s m).realm.object o)) ∧
      ((∀ name ∈ (m.realm.object o).keys,
          name ∈ (((pop (.object o) arguments).after s m).realm.object o).keys) →
        (m.realm.object o).Hedged (((pop (.object o) arguments).after s m).realm.object o))) ∧
    ∀ (this : Value) (arguments : List Value), argument arguments 0 = .object o →
      ((m.realm.object o).Hedged (((preventExtensions this arguments).after s m).realm.object o) ↔
        (m.realm.object o).extensible = false) ∧
      ((m.realm.object o).IsFitting →
        ((m.realm.object o).Hedged (((sealObject this arguments).after s m).realm.object o) ↔
          (m.realm.object o).extensible = false ∧ ∀ name d,
            (m.realm.object o).own? name = some d → d.sealed = d ∨ d.IsUnknown) ∧
        ((m.realm.object o).Hedged (((freezeObject this arguments).after s m).realm.object o) ↔
          (m.realm.object o).extensible = false ∧ ∀ name d,
            (m.realm.object o).own? name = some d → d.frozen = d ∨ d.IsUnknown)) ∧
      ((m.realm.object o).cls ≠ .array →
        (∀ name d, argument arguments 1 = .string name →
          Op.toDefinition? (argument arguments 2) s m = .ok (some d) m →
          ((m.realm.object o).Hedged (((defineProperty this arguments).after s m).realm.object o) ↔
            ∀ p, (m.realm.object o).accept name d = .ok p →
              (m.realm.object o).own? name = some p ∨ p.IsUnknown)) ∧
        ∀ bag ds, argument arguments 1 = .object bag →
          readDefinitions bag (m.realm.object bag).enumerableKeys s m = .ok (some ds) m →
          (∀ x ∈ ds, x.2.value? = some .unknown) →
          (m.realm.object o).Hedged
            (((defineProperties this arguments).after s m).realm.object o)) := by
  refine ⟨fun hm primitive arguments => ⟨push_hedges hm primitive arguments s,
    pop_hedges hm primitive arguments s⟩, fun this arguments first => ⟨?_, fun fits => ⟨?_, ?_⟩,
      fun ordinary => ⟨?_, ?_⟩⟩⟩
  · exact preventExtensions_hedges_iff there first this s
  · obtain ⟨n, run, -, closed⟩ := close_closes (s := s) restricts_sealing there fits first this
    rw [Eval.after, sealObject, run]
    exact closed.hedged_iff Descriptor.keepsContents_sealed
  · obtain ⟨n, run, -, closed⟩ := close_closes (s := s) restricts_freezing there fits first this
    rw [Eval.after, freezeObject, run]
    exact closed.hedged_iff Descriptor.keepsContents_frozen
  · intro name d second read
    -- the arguments are read without a change, so that the definition decides
    have same : (defineProperty this arguments).after s m = (Op.define o name d true).after s m := by
      have required : requireObject (argument arguments 0) s m = .ok o m := by
        rw [first]
        rfl
      have text : Op.toText? (argument arguments 1) s m = .ok (some name) m := by
        rw [second]
        rfl
      rw [defineProperty, after_bind_ok required, after_bind_ok text, after_bind_ok read]
      exact after_bind_pure ..
    rw [same]
    exact define_hedges_iff there ordinary name d true s
  · intro bag ds second read unknown
    have same : (defineProperties this arguments).after s m = (defineAll o ds).after s m := by
      have required : requireObject (argument arguments 0) s m = .ok o m := by
        rw [first]
        rfl
      have descriptions : Op.toObject? (argument arguments 1) s m = .ok (some bag) m := by
        rw [second]
        rfl
      rw [defineProperties, after_bind_ok required, applyDescriptions, after_bind_ok descriptions,
        after_object_bind, after_bind_ok read]
      exact after_bind_pure ..
    rw [same]
    exact defineAll_hedges there ordinary unknown s

/-- True for a call that returns. -/
def returns : EStateM.Result NativeError Machine Value → Bool
  | .ok .. => true
  | .error .. => false

/-- A call that returns gives a value and a machine. -/
theorem exists_of_returns {r : EStateM.Result NativeError Machine Value} (h : returns r = true) :
    ∃ v n, r = .ok v n := by
  cases r with
  | ok v n => exact ⟨v, n, rfl⟩
  | error => cases h

/-- An element is added to an array in an ambiguous block. -/
theorem hedged_calls_push :
    let m := (Op.withRecord (Realm.arrayRecord 0 [.null])).enterBlock
    let o := Realm.initial.nextObject
    m.Hedges o ∧ (m.realm.object o).cls = .array ∧
      (m.realm.object o).Hedged
        (((push (.object o) [.null]).after ⟨{}, .core, "", false⟩ m).realm.object o) := by
  intro m o
  have there : o.index < m.realm.objects.size := by decide +kernel
  have possible : m.isAmbiguousWrite (m.realm.object o).createdLevel = true := by decide +kernel
  have array : (m.realm.object o).cls = .array := by decide +kernel
  have inert : m.realm.IsInert o := Realm.isInert_of_isData (by decide +kernel)
  have length : (m.realm.object o).own? "length" = some (Op.lengthDescriptor 1 true) := by
    decide +kernel
  have ok : returns (push (.object o) [.null] ⟨{}, .core, "", false⟩ m) = true := by decide +kernel
  clear_value m o
  have primitive (v : Value) (w e c : Bool)
      (found : m.realm.property? o "length" = some (.data v w e c)) : v.isObject = false := by
    rw [Realm.property?_of_own length] at found
    cases found
    rfl
  have hm : m.Hedges o := ⟨there, possible, inert⟩
  obtain ⟨pushed, -⟩ := (hedged_calls there ⟨{}, .core, "", false⟩).1 hm primitive [.null]
  exact ⟨hm, array, pushed fun _ => exists_of_returns ok⟩

/-- **Definitions and removals are made as if they were certain.** In an ambiguous block, an object
with one property is frozen, and the only element of an array is removed. -/
theorem freeze_and_pop_certain :
    let m := (Op.withRecord ((Realm.plainRecord 0).store "x" (.plain (.bool true)))).enterBlock
    let n := (Op.withRecord (Realm.arrayRecord 0 [.null])).enterBlock
    let o := Realm.initial.nextObject
    m.isAmbiguousWrite (m.realm.object o).createdLevel = true ∧
      n.isAmbiguousWrite (n.realm.object o).createdLevel = true ∧
      ¬ (m.realm.object o).Hedged
        (((freezeObject .undefined [.object o]).after ⟨{}, .core, "", false⟩ m).realm.object o) ∧
      ¬ (n.realm.object o).Hedged
        (((pop (.object o) []).after ⟨{}, .core, "", false⟩ n).realm.object o) := by
  intro m n o
  refine ⟨by decide +kernel, by decide +kernel, fun frozen => ?_, fun popped => ?_⟩
  · exact absurd frozen.extensible (by decide +kernel)
  · have before : (n.realm.object o).own? "0" = some (.plain .null) := by decide +kernel
    have after : (((pop (.object o) []).after ⟨{}, .core, "", false⟩ n).realm.object o).own? "0" =
        none := by decide +kernel
    obtain ⟨d, own, -⟩ := popped.kept "0" _ before
    rw [after] at own
    cases own

end Builtin

end AbstractScript
