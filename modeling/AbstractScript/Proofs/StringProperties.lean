import AbstractScript.Proofs.DescribedProperties

/-!
# Properties of strings

The length and the code units of a string are read without a wrapper, and other names are looked up
on `String.prototype`. A wrapper has the same properties of its own: the name of a unit is the decimal
numeral of its index, and a name that is no such numeral, or whose index is not inside the string, is
no own property (`Realm.own?_stringRecord`). What a wrapper inherits is looked up on the same objects.
So both ways of reading agree, and only the second one adds an object (`Op.getOf_string`).
-/
namespace AbstractScript

open Eval

/-- The entries of a list are found under the numerals of their places. -/
theorem Table.get?_indexed {α : Type} {as : List α} {name : String} {a : α} :
    (Table.indexed as).get? name = some a ↔ ∃ i, name = Nat.repr i ∧ as[i]? = some a := by
  rw [Table.get?_eq_some_iff]
  simp only [Table.indexed, Table.toList, List.mem_mapIdx, Prod.mk.injEq, List.getElem?_eq_some_iff]
  constructor
  · rintro ⟨i, inside, same, found⟩
    exact ⟨i, same.symm, inside, found⟩
  · rintro ⟨i, same, inside, found⟩
    exact ⟨i, inside, same.symm, found⟩

namespace Realm

/-! ## What a wrapper has itself -/

/-- The numerals of the places in a list that is no longer than an array can be are array indices. -/
theorem get?_indexed_eq_bind {α : Type} {as : List α} (short : as.length ≤ Number.maxLength)
    (name : String) :
    (Table.indexed as).get? name = (Number.arrayIndex? name).bind fun index => as[index]? := by
  refine Option.ext fun a => ?_
  rw [Table.get?_indexed, Option.bind_eq_some_iff]
  constructor
  · rintro ⟨i, same, found⟩
    have inside : i < as.length := (List.getElem?_eq_some_iff.1 found).1
    exact ⟨i, Number.arrayIndex?_eq_some_iff.2 ⟨same, Nat.lt_of_lt_of_le inside short⟩, found⟩
  · rintro ⟨i, index, found⟩
    exact ⟨i, (Number.arrayIndex?_eq_some_iff.1 index).1, found⟩

/-- The own properties of a wrapper are those that are read without it. None can be written or
removed, and all but the length are listed. -/
theorem own?_stringRecord (level : Nat) {text : String}
    (short : (Text.units text).length ≤ Number.maxLength) (name : String) :
    (stringRecord level text).own? name =
      (Op.stringProperty? text name).map fun v => .data v false (name ≠ "length") false := by
  rw [ObjectRecord.own?, stringRecord, Table.get?_insert, Op.stringProperty?]
  split
  next length =>
    subst length
    rw [Text.unitCount_eq_length]
    rfl
  next other =>
    rw [get?_indexed_eq_bind (by rwa [List.length_map])]
    cases Number.arrayIndex? name with
    | none => rfl
    | some index => simp [List.getElem?_map, Function.comp_def, other]

/-! ## What a wrapper inherits -/

/-- Where the next object will be there is nothing yet. -/
theorem object_nextObject (r : Realm) : r.object r.nextObject = default :=
  object_of_size_le (Nat.le_refl r.objects.size)

theorem findProperty?_chainWithin (r : Realm) (steps : Nat) (o : ObjectId) (name : String) :
    r.findProperty? (r.chainWithin (steps + 1) (some o)) name =
      ((r.object o).own? name).or
        (r.findProperty? (r.chainWithin steps (r.object o).prototype) name) := by
  rw [chainWithin, findProperty?, List.findSome?_cons]
  cases (r.object o).own? name <;> rfl

section

variable {r : Realm} {record : ObjectRecord} {p : ObjectId} {name : String}

/-- What is found on a chain is found there when an object is added. -/
theorem findProperty?_addObject_of_some {steps : Nat} {o : Option ObjectId} {d : Descriptor}
    (found : r.findProperty? (r.chainWithin steps o) name = some d) :
    (r.addObject record).findProperty? ((r.addObject record).chainWithin steps o) name = some d := by
  induction steps generalizing o with
  | zero => cases found
  | succ steps ih =>
    cases o with
    | none => cases found
    | some o =>
      rw [findProperty?_chainWithin] at found ⊢
      by_cases new : o = r.nextObject
      -- the new object is not in the old realm, and no chain of it finds anything there
      · rw [new, object_nextObject] at found
        cases steps <;> cases found
      · rw [object_addObject, if_neg new]
        cases own : (r.object o).own? name with
        | some own' =>
          rw [own] at found
          exact found
        | none =>
          rw [own] at found
          exact ih found

/-- What is not found on a chain is not found there when an object without it is added, even if the
chain leads to the new object. -/
theorem findProperty?_addObject_of_none (inherits : record.prototype = some p)
    (absent : record.own? name = none) {most steps : Nat} (le : steps ≤ most)
    (start : r.findProperty? (r.chainWithin most (some p)) name = none) {o : Option ObjectId}
    (none : r.findProperty? (r.chainWithin steps o) name = .none) :
    (r.addObject record).findProperty? ((r.addObject record).chainWithin steps o) name = .none := by
  induction steps generalizing o with
  | zero => rfl
  | succ steps ih =>
    have le : steps ≤ most := Nat.le_of_succ_le le
    cases o with
    | none => rfl
    | some o =>
      rw [findProperty?_chainWithin] at none ⊢
      rw [object_addObject]
      split
      next new =>
        rw [absent, inherits]
        -- behind the new object lies its prototype, where the search was to find nothing
        refine ih le (List.findSome?_eq_none_iff.2 fun q hq => ?_)
        exact List.findSome?_eq_none_iff.1 start q (chainWithin_subset le hq)
      next =>
        rw [Option.or_eq_none_iff] at none
        rw [none.1]
        exact ih le none.2

/-- A property of a new object is its own, or the one that is found from its prototype on. -/
theorem property?_nextObject (inherits : record.prototype = some p) (name : String) :
    (r.addObject record).property? r.nextObject name =
      (record.own? name).or (r.property? p name) := by
  have size : (r.addObject record).objects.size = r.objects.size + 1 := Array.size_push _
  have first : (r.addObject record).object r.nextObject = record := by
    rw [object_addObject, if_pos rfl]
  rw [property?, chain, size, findProperty?_chainWithin, first, inherits]
  cases own : record.own? name with
  | some => rfl
  | none =>
    rw [Option.none_or, Option.none_or]
    cases found : r.property? p name with
    | some => exact findProperty?_addObject_of_some found
    | none => exact findProperty?_addObject_of_none inherits own (Nat.le_refl _) found found

end

end Realm

/-! ## Both ways of reading -/

/-- The machine after a string is wrapped. -/
def Machine.withWrapper (m : Machine) (text : String) : Machine :=
  m.addObject (Realm.stringRecord m.realm.ambiguityLevel text)

namespace Op

variable {m : Machine} {text : String}

/-- A function that is not native with a new object in the table is not so without it. -/
theorem not_isNative_of_addObject {record : ObjectRecord} {g : ObjectId}
    (script : ¬ ((m.realm.addObject record).object g).IsNative) : ¬ (m.realm.object g).IsNative := by
  rw [Realm.object_addObject] at script
  split at script
  next new =>
    rw [new, Realm.object_nextObject]
    rintro ⟨_, _, _, called⟩
    cases called
  next => exact script

section

variable [Natives]

/-- **A string property is read without a wrapper** as it is read with one, unless a built-in getter
is found: nothing changes, and what is read is what the wrapper of the string has under the name, for
whatever receiver it is looked up there. The wrapper is all that is added for it. -/
theorem getOf_string (short : (Text.units text).length ≤ Number.maxLength) (name : String)
    (silent : ∀ g f e c,
      (m.withWrapper text).realm.property? m.realm.nextObject name = some (.accessor (some g) f e c) →
      ¬ ((m.withWrapper text).realm.object g).IsNative) (s : Setup) :
    ∃ v, getOf (.string text) name s m = .ok v m ∧
      toObject? (.string text) s m = .ok (some m.realm.nextObject) (m.withWrapper text) ∧
      ∀ this, getFor m.realm.nextObject this name s (m.withWrapper text) =
        .ok v (m.withWrapper text) := by
  -- a character is found on the wrapper itself, anything else on its prototype
  have found : (m.withWrapper text).realm.property? m.realm.nextObject name =
      ((stringProperty? text name).map fun v => .data v false (name ≠ "length") false).or
        (m.realm.property? Intrinsic.stringPrototype.id name) := by
    rw [← Realm.own?_stringRecord m.realm.ambiguityLevel short]
    exact Realm.property?_nextObject rfl name
  refine ⟨_, ?_, rfl, getFor_of_property silent⟩
  rw [Realm.field?, found]
  cases own : stringProperty? text name with
  | some v =>
    simp only [getOf, own]
    rfl
  | none =>
    rw [own, Option.map_none, Option.none_or] at found
    simp only [getOf, own]
    refine getFor_of_property (fun g f e c inherited => ?_) _
    exact not_isNative_of_addObject (silent g f e c (found.trans inherited))

end

/-- The second half of a character outside of the basic plane is read as U+FFFD. -/
theorem getOf_string_surrogate :
    let m : Machine := .start Realm.core
    (Text.units "a😀").length ≤ Number.maxLength ∧
      getOf (.string "a😀") "2" ⟨{}, .core, "", false⟩ m = .ok (.string "\uFFFD") m ∧
      toObject? (.string "a😀") ⟨{}, .core, "", false⟩ m =
        .ok (some m.realm.nextObject) (m.withWrapper "a😀") ∧
      get m.realm.nextObject "2" ⟨{}, .core, "", false⟩ (m.withWrapper "a😀") =
        .ok (.string "\uFFFD") (m.withWrapper "a😀") := by
  intro m
  have short : (Text.units "a😀").length ≤ Number.maxLength := by decide
  have unit : stringProperty? "a😀" "2" = some (.string "\uFFFD") := by decide +kernel
  have own : (m.withWrapper "a😀").realm.property? m.realm.nextObject "2" =
      some (.data (.string "\uFFFD") false true false) := by decide +kernel
  clear_value m
  obtain ⟨v, read, wrapped, found⟩ := getOf_string (m := m) short "2"
    (fun g f e c accessor => nomatch own.symm.trans accessor) ⟨{}, .core, "", false⟩
  obtain rfl : v = .string "\uFFFD" := by
    simp only [getOf, unit, pure_apply] at read
    cases read
    rfl
  exact ⟨short, read, wrapped, found _⟩

end Op

end AbstractScript
