import AbstractScript.Proofs.FittingArrays
import AbstractScript.Proofs.OwnProperty

/-!
# Assignment to a property

`[[Put]]` of ECMAScript 5 looks a property up several times: to see whether an assignment can succeed,
whether the object itself has a value, whether a setter is found, and where the value is stored. All
these look-ups go by the nearest property of the name (`Realm.canPut_eq`). So an assignment that is
certain replaces an own value, or runs a setter, or appends a property, or is refused, and it never
changes another object (`Op.put_standard`).
-/
namespace AbstractScript

open Eval

/-! ## The nearest property -/

namespace Realm

variable {r : Realm} {o : ObjectId} {name : String}

/-- Whether an assignment can succeed is seen from the nearest property: a setter has to be there, a
value has to be writable, and an object that does not have the property itself has to be extensible
unless a setter takes the value. -/
theorem canPut_eq (there : o.index < r.objects.size) :
    r.canPut o name = match r.property? o name with
      | some (.accessor _ f _ _) => f.isSome
      | some (.data _ w _ _) => w && (((r.object o).own? name).isSome || (r.object o).extensible)
      | none => (r.object o).extensible := by
  unfold canPut
  dsimp only
  cases own : (r.object o).own? name with
  | some d =>
    rw [property?_of_own own]
    cases d <;> simp
  | none =>
    rw [← property?_of_absent there own]
    cases r.property? o name with
    | none => rfl
    | some d =>
      cases d with
      | accessor => rfl
      | data v w e c => exact Bool.and_comm ..

/-- What has a setter on the chain and no value of its own can be assigned to. -/
theorem canPut_of_setter? {f : ObjectId} (there : o.index < r.objects.size)
    (found : r.setter? o name = some f) : r.canPut o name = true := by
  unfold setter? at found
  rw [canPut_eq there]
  split at found
  next g f' e c nearest =>
    subst found
    rw [nearest]
    rfl
  next => cases found

/-- An own value hides every setter. -/
theorem setter?_of_data {v : Value} {w e c : Bool}
    (own : (r.object o).own? name = some (.data v w e c)) : r.setter? o name = none := by
  rw [setter?, property?_of_own own]

/-- What can be assigned to without a setter is an own value that is writable, or no own property of
an extensible object. -/
theorem own_of_canPut (there : o.index < r.objects.size) (allowed : r.canPut o name = true)
    (none : r.setter? o name = none) :
    (∃ v e c, (r.object o).own? name = some (.data v true e c)) ∨
      (r.object o).own? name = .none ∧ (r.object o).extensible = true := by
  rw [canPut_eq there] at allowed
  cases own : (r.object o).own? name with
  | some d =>
    rw [property?_of_own own, own] at allowed
    cases d with
    | accessor g f e c =>
      rw [setter?, property?_of_own own] at none
      subst none
      cases allowed
    | data v w e c =>
      obtain rfl : w = true := by simpa using allowed
      exact .inl ⟨v, e, c, rfl⟩
  | none =>
    refine .inr ⟨rfl, ?_⟩
    unfold setter? at none
    split at allowed
    next g f e c nearest =>
      rw [nearest] at none
      subst none
      cases allowed
    next v w e c nearest =>
      rw [own] at allowed
      exact (Bool.and_eq_true_iff.1 allowed).2
    next => exact allowed

end Realm

namespace Op

section

variable [Natives] {m : Machine} {o : ObjectId} {name : String} {s : Setup}

/-! ## Reading -/

/-- An own value is what is read. -/
theorem get_of_own {v : Value} {w e c : Bool}
    (own : (m.realm.object o).own? name = some (.data v w e c)) : get o name s m = .ok v m := by
  have looked : (property? o name : Op _) s m = .ok (m.realm.property? o name) m := rfl
  rw [get, getFor, bind_apply, looked, Realm.property?_of_own own]
  rfl

/-- A function of the program is not run as an accessor. -/
theorem callAccessor_apply {f : ObjectId} (script : ¬ (m.realm.object f).IsNative) (this : Value)
    (arguments : List Value) : callAccessor f this arguments s m = .ok .unknown m := by
  have read : (Eval.object f : Op _) s m = .ok (m.realm.object f) m := rfl
  rw [callAccessor, bind_apply, read]
  dsimp only
  cases called : (m.realm.object f).callable with
  | none => rfl
  | some g =>
    cases g with
    | script => rfl
    | native name call construct =>
      cases call with
      | none => rfl
      | some native => exact absurd ⟨_, _, _, called⟩ script

/-! ## The ways of an assignment -/

/-- What cannot be assigned to stays as it is. -/
theorem put_refused (refused : m.realm.canPut o name = false) (v : Value) (strict : Bool) :
    put o name v strict s m =
      if strict then .error (.typeError ("Cannot assign to read only property '" ++ name ++ "'")) m
      else .ok () m := by
  simp only [put, bind_apply, get_apply, refused, Bool.not_false, if_true]
  cases strict with
  | false => rfl
  | true => rfl

/-- A setter of the program takes the value. What it does is not known, and nothing is changed. -/
theorem put_taken {f : ObjectId} (there : o.index < m.realm.objects.size)
    (found : m.realm.setter? o name = some f) (script : ¬ (m.realm.object f).IsNative) (v : Value)
    (strict : Bool) : put o name v strict s m = .ok () m := by
  have allowed := Realm.canPut_of_setter? there found
  have read : (Eval.object o : Op _) s m = .ok (m.realm.object o) m := rfl
  have looked : (property? o name : Op _) s m = .ok (m.realm.property? o name) m := rfl
  have taken (w : Value) := callAccessor_apply (s := s) script (.object o) [w]
  obtain ⟨g, e, c, nearest⟩ : ∃ g e c, m.realm.property? o name = some (.accessor g (some f) e c) := by
    unfold Realm.setter? at found
    split at found
    next g f' e c nearest => exact ⟨g, e, c, found ▸ nearest⟩
    next => cases found
  cases own : (m.realm.object o).own? name with
  | none =>
    simp only [put, bind_apply, get_apply, allowed, Bool.not_true, Bool.false_eq_true, if_false, read,
      weaken_apply, own, looked, nearest, taken, pure_apply]
  | some d =>
    cases d with
    -- an own value would hide the setter
    | data w writable e' c' =>
      rw [Realm.setter?_of_data own] at found
      cases found
    | accessor =>
      simp only [put, bind_apply, get_apply, allowed, Bool.not_true, Bool.false_eq_true, if_false,
        read, weaken_apply, own, looked, nearest, taken, pure_apply]

variable (ordinary : (m.realm.object o).cls ≠ .array)
  (certain : m.isAmbiguousWrite (m.realm.object o).createdLevel = false)

include ordinary certain

/-- An own value that is writable is replaced. -/
theorem put_replaces {w : Value} {e c : Bool}
    (own : (m.realm.object o).own? name = some (.data w true e c)) (v : Value) (strict : Bool) :
    put o name v strict s m = .ok () (m.modifyObject o (·.store name (.data v true e c))) := by
  have allowed : m.realm.canPut o name = true := by simp [Realm.canPut, own]
  have read : (Eval.object o : Op _) s m = .ok (m.realm.object o) m := rfl
  have accepted : (m.realm.object o).accept name (.value v) = .ok (.data v true e c) := by
    rw [(ObjectRecord.Assigns.old own).accept, ObjectRecord.assigned, own]
    rfl
  have defined := (define_of_ne_array (s := s) ordinary (.value v) strict).trans
    (defineOrdinary_apply o name (.value v) strict s m)
  simp only [put, bind_apply, get_apply, allowed, Bool.not_true, Bool.false_eq_true, if_false, read,
    weaken_apply, certain, own, defined, accepted, pure_apply]

/-- Where no own property and no setter is found, an extensible object gets a property. -/
theorem put_appends (allowed : m.realm.canPut o name = true) (none : m.realm.setter? o name = none)
    (absent : (m.realm.object o).own? name = .none) (more : (m.realm.object o).extensible = true)
    (v : Value) (strict : Bool) :
    put o name v strict s m = .ok () (m.modifyObject o (·.store name (.plain v))) := by
  have read : (Eval.object o : Op _) s m = .ok (m.realm.object o) m := rfl
  have looked : (property? o name : Op _) s m = .ok (m.realm.property? o name) m := rfl
  have accepted : (m.realm.object o).accept name (.plain v) = .ok (.plain v) := by
    rw [(ObjectRecord.Assigns.new absent more).accept, ObjectRecord.assigned, absent]
  have defined := (define_of_ne_array (s := s) ordinary (.plain v) strict).trans
    (defineOrdinary_apply o name (.plain v) strict s m)
  unfold Realm.setter? at none
  cases nearest : m.realm.property? o name with
  | none =>
    simp only [put, bind_apply, get_apply, allowed, Bool.not_true, Bool.false_eq_true, if_false,
      read, weaken_apply, certain, absent, looked, nearest, defined, accepted, pure_apply]
  | some d =>
    cases d with
    | data w writable e c =>
      simp only [put, bind_apply, get_apply, allowed, Bool.not_true, Bool.false_eq_true, if_false,
        read, weaken_apply, certain, absent, looked, nearest, defined, accepted, pure_apply]
    | accessor g f e c =>
      rw [nearest] at none
      subst none
      simp only [put, bind_apply, get_apply, allowed, Bool.not_true, Bool.false_eq_true, if_false,
        read, weaken_apply, certain, absent, looked, nearest, defined, accepted, pure_apply]

/-- **An assignment that is certain** is that of the standard, for an object that is no array and
without a setter of the system. If it is refused nothing changes, and the answer is a TypeError in
strict mode. Otherwise it replaces an own value and nothing else of the object; or a setter takes the
value; or a property that can be written, listed and removed comes last among the properties. What
is stored can be read back, and no other object changes. -/
theorem put_standard (there : o.index < m.realm.objects.size)
    (script : ∀ f, m.realm.setter? o name = some f → ¬ (m.realm.object f).IsNative)
    (v : Value) (strict : Bool) :
    if m.realm.canPut o name then
      ∃ n, put o name v strict s m = .ok () n ∧
        (∀ other, other ≠ o → n.realm.object other = m.realm.object other) ∧
        match (m.realm.object o).own? name, m.realm.setter? o name with
        | some (.data _ w e c), _ =>
          (m.realm.object o).Redefined name (Descriptor.data v w e c).fields (n.realm.object o) ∧
            get o name s n = .ok v n
        | _, some _ => n.realm.object o = m.realm.object o
        | _, none =>
          (m.realm.object o).Redefined name (Descriptor.data v true true true).fields
              (n.realm.object o) ∧
            (n.realm.object o).keys = (m.realm.object o).keys ++ [name] ∧ get o name s n = .ok v n
    else
      put o name v strict s m =
        if strict then .error (.typeError ("Cannot assign to read only property '" ++ name ++ "'")) m
        else .ok () m := by
  have others (p : Descriptor) (other : ObjectId) (ne : other ≠ o) :
      (m.modifyObject o (·.store name p)).realm.object other = m.realm.object other := by
    rw [Machine.modifyObject, Realm.object_modifyObject, if_neg fun same => ne same.1]
  have stored (p : Descriptor) := object_modifyObject there (·.store name p)
  have found (p : Descriptor) :
      ((m.modifyObject o (·.store name p)).realm.object o).own? name = some p := by
    rw [stored, ObjectRecord.own?_store, if_pos rfl]
  split
  next allowed =>
    cases setter : m.realm.setter? o name with
    | some f =>
      refine ⟨m, put_taken there setter (script f setter) v strict, fun _ _ => rfl, ?_⟩
      -- an own value would hide the setter, any other property is left to it
      split
      next own =>
        rw [Realm.setter?_of_data own] at setter
        cases setter
      next => rfl
      next none _ => cases none
    | none =>
      rcases Realm.own_of_canPut there allowed setter with ⟨w, e, c, own⟩ | ⟨absent, more⟩
      · rw [own]
        refine ⟨_, put_replaces ordinary certain own v strict, others _, ?_, ?_⟩
        · rw [stored]
          exact ObjectRecord.redefined_store ..
        · exact get_of_own (found _)
      · rw [absent]
        refine ⟨_, put_appends ordinary certain allowed setter absent more v strict, others _,
          ?_, ?_, get_of_own (found _)⟩
        · rw [stored]
          exact ObjectRecord.redefined_store ..
        · rw [stored, ObjectRecord.keys_store, if_neg (ObjectRecord.own?_eq_none_iff.1 absent)]
  next refused => exact put_refused (by simpa using refused) v strict

end

/-- A new property of a plain object, in strict mode. -/
theorem put_standard_appended :
    let m := withRecord (Realm.plainRecord 0)
    let o := Realm.initial.nextObject
    o.index < m.realm.objects.size ∧ (m.realm.object o).cls ≠ .array ∧
      m.isAmbiguousWrite (m.realm.object o).createdLevel = false ∧
      m.realm.setter? o "x" = none ∧
      ∃ n, put o "x" .null true ⟨{}, .core, "", false⟩ m = .ok () n ∧
        (n.realm.object o).keys = ["x"] ∧ get o "x" ⟨{}, .core, "", false⟩ n = .ok .null n := by
  intro m o
  have there : o.index < m.realm.objects.size := by decide +kernel
  have ordinary : (m.realm.object o).cls ≠ .array := by decide +kernel
  have certain : m.isAmbiguousWrite (m.realm.object o).createdLevel = false := by decide +kernel
  have setter : m.realm.setter? o "x" = none := by decide +kernel
  have allowed : m.realm.canPut o "x" = true := by decide +kernel
  have absent : (m.realm.object o).own? "x" = none := by decide +kernel
  have none : (m.realm.object o).keys = [] := by decide +kernel
  clear_value m o
  have script (f : ObjectId) (found : m.realm.setter? o "x" = some f) :
      ¬ (m.realm.object f).IsNative := absurd (setter.symm.trans found) nofun
  have standard := put_standard (s := ⟨{}, .core, "", false⟩) ordinary certain there script .null true
  rw [if_pos allowed, absent, setter] at standard
  obtain ⟨n, run, -, -, keys, read⟩ := standard
  rw [none] at keys
  exact ⟨there, ordinary, certain, setter, n, run, keys, read⟩

end Op

end AbstractScript
