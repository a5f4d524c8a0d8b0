import AbstractScript.Proofs.OrdinaryAssignment
import AbstractScript.Proofs.ResizedArrays

/-!
# The last element of an array

`push` assigns to the element behind the last one and `pop` removes the last one; both then assign the
length. The element makes the array longer by itself, and a length above all indices removes nothing,
so the length that is assigned is in both cases the one that the elements ask for
(`Op.put_length`). Thus what `push` has appended is what `pop` returns, and `pop` leaves the objects
as they were before (`Builtin.pop_undoes_push`).
-/
namespace AbstractScript

open Eval Number

theorem Number.toNat_toUInt32_ofNat {n : Nat} (small : n ≤ maxLength) :
    (toUInt32 (Float.ofNat n)).toNat = n :=
  toNat_toUInt32 small (beq_ofNat (Nat.lt_of_le_of_lt small (by decide)))

/-! ## Objects with the same properties -/

namespace Table

variable {α : Type}

/-- The entries are the names with what is found under them. -/
theorem map_toList (t : Table α) :
    t.toList.map (fun e => (e.1, some e.2)) = t.keys.map fun name => (name, t.get? name) := by
  rw [keys, List.map_map]
  refine List.map_congr_left fun e listed => ?_
  rw [Function.comp, get?_eq_some_iff.2 listed]

/-- A table is determined by its names in order and what is found under them. -/
theorem ext_get? {t u : Table α} (names : t.keys = u.keys)
    (found : ∀ name, t.get? name = u.get? name) : t = u := by
  have listed : t.toList.map (fun e => (e.1, some e.2)) = u.toList.map fun e => (e.1, some e.2) := by
    rw [map_toList, map_toList, names, funext found]
  have entries : t.toList = u.toList :=
    (List.map_inj_right fun a b same => by grind).1 listed
  exact ext_entries (Array.toList_inj.1 entries)

end Table

namespace ObjectRecord

variable {r r' : ObjectRecord} {n length : Nat} {w : Bool}

theorem eq_of_own? (names : r'.keys = r.keys) (found : ∀ name, r'.own? name = r.own? name)
    (rest : r' = { r with properties := r'.properties }) : r' = r := by
  rw [rest, Table.ext_get? (t := r'.properties) names found]

/-- A length that is writable is replaced by an assigned one. -/
theorem IsArray.accept_nat (h : r.IsArray n true) (length : Nat) :
    r.accept "length" (.value (.nat length)) = .ok (Op.lengthDescriptor length true) :=
  h.accept_length (Definition.isShaped_of_built (.withValue _ .empty) rfl) rfl nofun rfl

/-- There is no element behind the last one. -/
theorem IsArray.own?_end (h : r.IsArray n w) (more : n < maxLength) :
    r.own? (Nat.repr n) = none :=
  own?_eq_none_iff.2 fun listed => Nat.lt_irrefl n (h.below n more listed)

/-- Without the last element all indices are below the last one. -/
theorem IsArray.remove_last (h : r.IsArray (n + 1) w) :
    (r.remove (Nat.repr n)).IsArray (n + 1) w ∧ (r.remove (Nat.repr n)).Below n := by
  refine ⟨⟨h.cls, ?_, h.small, h.below.remove _⟩, fun index small listed => ?_⟩
  · rw [own?_remove, if_neg (Ne.symm (repr_ne_length n)), h.length]
  · rw [keys_remove, List.mem_filter, bne_iff_ne] at listed
    have le := h.below index small listed.1
    have other : index ≠ n := fun same => listed.2 (same ▸ rfl)
    omega

/-- An array with one more element. -/
def appended (r : ObjectRecord) (n : Nat) (v : Value) : ObjectRecord :=
  (r.store (Nat.repr n) (.plain v)).store "length" (Op.lengthDescriptor (n + 1) true)

/-- An array without an element, whose index becomes the length. -/
def shortened (r : ObjectRecord) (n : Nat) : ObjectRecord :=
  (r.remove (Nat.repr n)).store "length" (Op.lengthDescriptor n true)

theorem IsArray.appended (h : r.IsArray n true) (more : n < maxLength) (v : Value) :
    (r.appended n v).IsArray (n + 1) true := by
  have extended := (h.extended_storeLength (Nat.le_refl n) more (.plain v)).array
  rwa [Nat.max_eq_right (Nat.le_succ n)] at extended

theorem own?_appended (r : ObjectRecord) (n : Nat) (v : Value) :
    (r.appended n v).own? (Nat.repr n) = some (.plain v) := by
  rw [appended, own?_store, if_neg (repr_ne_length n), own?_store, if_pos rfl]

/-- The names and their order, the properties and the length are as before once the element that was
appended is removed. -/
theorem IsArray.shortened_appended (h : r.IsArray n true) (more : n < maxLength) (v : Value) :
    (r.appended n v).shortened n = r := by
  have absent : Nat.repr n ∉ r.keys := own?_eq_none_iff.1 (h.own?_end more)
  have appended : (r.appended n v).keys = r.keys ++ [Nat.repr n] := by
    have extended := (h.extended_storeLength (Nat.le_refl n) more (.plain v)).keys
    rwa [if_neg absent] at extended
  have names : ((r.appended n v).remove (Nat.repr n)).keys = r.keys := by
    rw [keys_remove, appended, List.filter_append, List.filter_eq_self.2]
    · simp
    · intro name listed
      rw [bne_iff_ne]
      rintro rfl
      exact absent listed
  -- the names are as before, and so are the properties
  refine eq_of_own? ?_ (fun name => ?_) rfl
  · rw [shortened, keys_store, names, if_pos h.length_mem_keys]
  · rw [shortened, own?_store, own?_remove, ObjectRecord.appended, own?_store, own?_store]
    by_cases length : name = "length"
    · rw [if_pos length, length, h.length]
    · by_cases last : name = Nat.repr n
      · rw [if_neg length, if_pos last, last, h.own?_end more]
      · rw [if_neg length, if_neg last, if_neg length, if_neg last]

end ObjectRecord

/-- Two changes of an object are one. -/
theorem Realm.modifyObject_modifyObject (r : Realm) (o : ObjectId)
    (f g : ObjectRecord → ObjectRecord) :
    (r.modifyObject o f).modifyObject o g = r.modifyObject o fun record => g (f record) := by
  rw [modifyObject, modifyObject, modifyObject, Realm.mk.injEq]
  refine ⟨Array.ext (by simp) fun i _ _ => ?_, rfl, rfl⟩
  simp only [Array.getElem_modify]
  split <;> rfl

namespace Op

open ObjectRecord

variable {m : Machine} {o : ObjectId} {n length : Nat} {strict : Bool} {s : Setup}

/-! ## Assignments to an array -/

/-- A length above all indices is stored, and nothing is removed. -/
theorem truncate_of_below (array : (m.realm.object o).IsArray n true)
    (below : (m.realm.object o).Below length) :
    truncate o length (.value (.nat length)) strict s m =
      .ok true (m.modifyObject o (·.store "length" (lengthDescriptor length true))) := by
  let k := m.modifyObject o (·.store "length" (lengthDescriptor length true))
  have defined : defineOrdinary o "length" (.value (.nat length)) strict s m = .ok true k := by
    rw [defineOrdinary_apply, array.accept_nat]
  have nothing : indicesFrom (k.realm.object o) length = [] := by
    rw [object_modifyObject (index_lt_of_isArray array), List.eq_nil_iff_forall_not_mem]
    intro index there
    obtain ⟨listed, small, above⟩ := mem_indicesFrom.1 there
    exact Nat.not_lt.2 above (below.storeLength _ index small listed)
  show (defineOrdinary o "length" (.value (.nat length)) strict >>= fun admitted => _ : Op Bool) s m
    = _
  rw [bind_apply, defined]
  show (removeElements o (indicesFrom (k.realm.object o) length) >>= fun left => _ : Op Bool) s k = _
  rw [nothing]
  rfl

section

variable [Natives]

theorem define_length (array : (m.realm.object o).IsArray n true) (small : length ≤ maxLength)
    (below : (m.realm.object o).Below length) :
    define o "length" (.value (.nat length)) strict s m =
      .ok true (m.modifyObject o (·.store "length" (lengthDescriptor length true))) := by
  have exact : (Float.ofNat length == Float.ofNat length) = true :=
    beq_ofNat (Nat.lt_of_le_of_lt small (by decide))
  have whole := toNat_toUInt32_ofNat small
  have fits : ¬ (Float.ofNat (toUInt32 (Float.ofNat length)).toNat != Float.ofNat length) = true := by
    rw [whole, bne, exact]
    decide
  rw [define_of_array array.cls, if_pos rfl, defineLength_of_toNumber? (x := Float.ofNat length) rfl rfl,
    if_neg fits, whole, array.arrayLength?]
  show (if n ≤ length then defineOrdinary o "length" (.value (.nat length)) strict
    else truncate o length (.value (.nat length)) strict : Op Bool) s m = _
  split
  · rw [defineOrdinary_apply, array.accept_nat]
  · exact truncate_of_below array below

variable (certain : m.isAmbiguousWrite (m.realm.object o).createdLevel = false)

include certain

/-- The assignment of a length above all indices. -/
theorem put_length (array : (m.realm.object o).IsArray n true) (small : length ≤ maxLength)
    (below : (m.realm.object o).Below length) :
    put o "length" (.nat length) strict s m =
      .ok () (m.modifyObject o (·.store "length" (lengthDescriptor length true))) := by
  have own : (m.realm.object o).own? "length" = some (.data (.nat n) true false false) := array.length
  have allowed : m.realm.canPut o "length" = true := by simp [Realm.canPut, own]
  have read : (Eval.object o : Op _) s m = .ok (m.realm.object o) m := rfl
  have defined : define o "length" (.value (.nat length)) strict s m = _ :=
    define_length array small below
  simp only [put, bind_apply, get_apply, allowed, Bool.not_true, Bool.false_eq_true, if_false, read,
    weaken_apply, certain, own, defined, pure_apply]

/-- The assignment to the element behind the last one, where no prototype has it, makes an array
longer. -/
theorem put_end (array : (m.realm.object o).IsArray n true) (more : n < maxLength)
    (extensible : (m.realm.object o).extensible = true)
    (absent : ∀ p ∈ m.realm.prototypes o, (m.realm.object p).own? (Nat.repr n) = none) (v : Value) :
    put o (Nat.repr n) v strict s m =
      .ok () ((m.modifyObject o (·.store (Nat.repr n) (.plain v))).modifyObject o
        (·.store "length" (lengthDescriptor (n + 1) true))) := by
  have own := array.own?_end more
  -- neither the array nor one of its prototypes has the element
  have nowhere : m.realm.property? o (Nat.repr n) = none := by
    rw [Realm.property?_of_absent (index_lt_of_isArray array) own]
    exact List.findSome?_eq_none_iff.2 absent
  have allowed : m.realm.canPut o (Nat.repr n) = true := by
    rw [Realm.canPut_eq (index_lt_of_isArray array), nowhere]
    exact extensible
  have read : (Eval.object o : Op _) s m = .ok (m.realm.object o) m := rfl
  have looked : (property? o (Nat.repr n) : Op _) s m = .ok (m.realm.property? o (Nat.repr n)) m :=
    rfl
  have accepted : (m.realm.object o).accept (Nat.repr n) (.plain v) = .ok (.plain v) := by
    rw [(ObjectRecord.Assigns.new own extensible).accept, ObjectRecord.assigned, own]
  have stored : defineOrdinary o (Nat.repr n) (.plain v) false s m =
      .ok true (m.modifyObject o (·.store (Nat.repr n) (.plain v))) := by
    rw [defineOrdinary_apply, accepted]
  have defined : define o (Nat.repr n) (.plain v) strict s m =
      .ok true ((m.modifyObject o (·.store (Nat.repr n) (.plain v))).modifyObject o
        (·.store "length" (lengthDescriptor (n + 1) true))) := by
    rw [define_of_array array.cls, if_neg (repr_ne_length n),
      arrayIndex?_eq_some_iff.2 ⟨rfl, more⟩]
    simp only [defineElement, bind_apply, read, array.arrayLength?]
    rw [if_neg (by simp), bind_apply, stored]
    dsimp only
    rw [if_pos rfl, if_pos (Nat.le_refl n)]
    rfl
  simp only [put, bind_apply, get_apply, allowed, Bool.not_true, Bool.false_eq_true, if_false, read,
    weaken_apply, certain, own, looked, nowhere, defined, pure_apply]

end

end Op

/-! ## Adding and removing the last element -/

namespace Builtin

open ObjectRecord

section

variable [Natives] {m : Machine} {o : ObjectId} {n : Nat} {w : Bool} {s : Setup}

theorem withLength?_of_array (array : (m.realm.object o).IsArray n w) :
    withLength? (.object o) s m = .ok (some (o, n)) m := by
  have receiver : (Op.toObject? (.object o) : Op _) s m = .ok (some o) m := rfl
  have read : Op.get o "length" s m = .ok (.nat n) m := Op.get_of_own array.length
  have number : (Op.toNumber? (.nat n) : Op _) s m = .ok (some (Float.ofNat n)) m := rfl
  simp only [withLength?, bind_apply, receiver, read, number, pure_apply, Option.map_some,
    toNat_toUInt32_ofNat array.small]

/-- `push` appends an element, and the length becomes one more. -/
theorem push_of_array (array : (m.realm.object o).IsArray n true) (more : n < maxLength)
    (extensible : (m.realm.object o).extensible = true)
    (absent : ∀ p ∈ m.realm.prototypes o, (m.realm.object p).own? (Nat.repr n) = none)
    (certain : m.isAmbiguousWrite (m.realm.object o).createdLevel = false) (v : Value) :
    ∃ l, push (.object o) [v] s m = .ok (.nat (n + 1)) l ∧ l.contexts = m.contexts ∧
      l.realm = m.realm.modifyObject o (·.appended n v) := by
  let k := (m.modifyObject o (·.store (Nat.repr n) (.plain v))).modifyObject o
    (·.store "length" (Op.lengthDescriptor (n + 1) true))
  let l := k.modifyObject o (·.store "length" (Op.lengthDescriptor (n + 1) true))
  have realm : k.realm = m.realm.modifyObject o (·.appended n v) :=
    Realm.modifyObject_modifyObject ..
  have record : k.realm.object o = (m.realm.object o).appended n v := by
    rw [realm, Realm.object_modifyObject, if_pos ⟨rfl, Op.index_lt_of_isArray array⟩]
  have longer : (k.realm.object o).IsArray (n + 1) true := record ▸ array.appended more v
  have certain' : k.isAmbiguousWrite (k.realm.object o).createdLevel = false := record ▸ certain
  have element : Op.put o (Nat.repr n) v true s m = .ok () k :=
    Op.put_end certain array more extensible absent v
  have length : Op.put o "length" (.nat (n + 1)) true s k = .ok () l :=
    Op.put_length certain' longer more longer.below
  refine ⟨l, ?_, rfl, ?_⟩
  · simp only [push, bind_apply, withLength?_of_array array, putElements, element, putLength,
      List.length_singleton, length, pure_apply]
  · -- the element has already made the array longer
    have same : l.realm = k.realm := Realm.modifyObject_of_fixed (store_of_own? longer.length)
    rw [same, realm]

/-- `pop` returns the last element and takes it away, if it can be removed. -/
theorem pop_of_array (array : (m.realm.object o).IsArray (n + 1) true)
    (certain : m.isAmbiguousWrite (m.realm.object o).createdLevel = false) {v : Value}
    {writable e : Bool}
    (own : (m.realm.object o).own? (Nat.repr n) = some (.data v writable e true))
    (arguments : List Value) :
    ∃ l, pop (.object o) arguments s m = .ok v l ∧
      l.realm = m.realm.modifyObject o (·.shortened n) := by
  let k := m.modifyObject o (·.remove (Nat.repr n))
  let l := k.modifyObject o (·.store "length" (Op.lengthDescriptor n true))
  have record : k.realm.object o = (m.realm.object o).remove (Nat.repr n) :=
    Op.object_modifyObject (Op.index_lt_of_isArray array) _
  have removed := array.remove_last
  have read : Op.get o (Nat.repr n) s m = .ok v m := Op.get_of_own own
  have deleted : Op.delete o (Nat.repr n) true s m = .ok true k := by
    have removable : (m.realm.object o).canDelete (Nat.repr n) = true := by
      rw [canDelete, own]
      rfl
    have there : (Eval.object o : Op _) s m = .ok (m.realm.object o) m := rfl
    rw [Op.delete, bind_apply, there]
    dsimp only
    rw [if_pos removable]
    rfl
  have length : Op.put o "length" (.nat n) true s k = .ok () l :=
    Op.put_length (record ▸ certain) (record ▸ removed.1) (Nat.le_of_succ_le array.small)
      (record ▸ removed.2)
  refine ⟨l, ?_, Realm.modifyObject_modifyObject ..⟩
  simp only [pop, bind_apply, withLength?_of_array array, read, deleted, putLength, length,
    pure_apply]

/-- **`pop` undoes `push`.** Where nothing keeps an array from getting one more element, `push`
returns the new length, and a `pop` after it returns the value and leaves all objects as they were
before, the array with its names in their order, their properties and its length. -/
theorem pop_undoes_push (array : (m.realm.object o).IsArray n true) (more : n < maxLength)
    (extensible : (m.realm.object o).extensible = true)
    (absent : ∀ p ∈ m.realm.prototypes o, (m.realm.object p).own? (Nat.repr n) = none)
    (certain : m.isAmbiguousWrite (m.realm.object o).createdLevel = false) (v : Value)
    (arguments : List Value) (s : Setup) :
    ∃ k l, push (.object o) [v] s m = .ok (.nat (n + 1)) k ∧
      pop (.object o) arguments s k = .ok v l ∧ l.realm = m.realm := by
  obtain ⟨k, pushed, contexts, realm⟩ := push_of_array (s := s) array more extensible absent certain v
  have record : k.realm.object o = (m.realm.object o).appended n v := by
    rw [realm, Realm.object_modifyObject, if_pos ⟨rfl, Op.index_lt_of_isArray array⟩]
  have longer : (k.realm.object o).IsArray (n + 1) true := record ▸ array.appended more v
  have certain' : k.isAmbiguousWrite (k.realm.object o).createdLevel = false := by
    rw [Machine.isAmbiguousWrite, Machine.level, contexts, record]
    exact certain
  have last : (k.realm.object o).own? (Nat.repr n) = some (.plain v) := record ▸ own?_appended ..
  obtain ⟨l, popped, realm'⟩ := pop_of_array (s := s) longer certain' last arguments
  refine ⟨k, l, pushed, popped, ?_⟩
  rw [realm', realm, Realm.modifyObject_modifyObject]
  exact Realm.modifyObject_of_fixed (array.shortened_appended more v)

end

/-- An array of length two without a first element. -/
theorem pop_undoes_push_sparse :
    let m := Op.withRecord ((Realm.arrayRecord 0 [.null, .null]).remove "0")
    let o := Realm.initial.nextObject
    (m.realm.object o).IsArray 2 true ∧ (m.realm.object o).extensible = true ∧
      (∀ p ∈ m.realm.prototypes o, (m.realm.object p).own? (Nat.repr 2) = none) ∧
      m.isAmbiguousWrite (m.realm.object o).createdLevel = false ∧
      ∃ k l, push (.object o) [.bool true] ⟨{}, .core, "", false⟩ m = .ok (.nat 3) k ∧
        pop (.object o) [] ⟨{}, .core, "", false⟩ k = .ok (.bool true) l ∧ l.realm = m.realm := by
  intro m o
  have array : (m.realm.object o).IsArray 2 true := by
    refine ⟨by decide +kernel, by decide +kernel, by decide, ?_⟩
    exact ObjectRecord.below_of_all (by decide +kernel)
  have extensible : (m.realm.object o).extensible = true := by decide +kernel
  have absent : ∀ p ∈ m.realm.prototypes o, (m.realm.object p).own? (Nat.repr 2) = none := by
    decide +kernel
  have certain : m.isAmbiguousWrite (m.realm.object o).createdLevel = false := by decide +kernel
  clear_value m o
  exact ⟨array, extensible, absent, certain,
    pop_undoes_push array (by decide) extensible absent certain (.bool true) [] ⟨{}, .core, "", false⟩⟩

end Builtin

end AbstractScript
