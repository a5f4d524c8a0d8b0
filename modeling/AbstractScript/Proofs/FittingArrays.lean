import AbstractScript.Proofs.ArrayLength
import AbstractScript.Proofs.PossibleAssignment

/-!
# Arrays whose indices are below their length

An array fits if its indices are below its length, as long as the length is known
(`ObjectRecord.IsFitting`). What is defined of such an array without making it longer or shorter is
defined as of an ordinary object (`Op.define_of_isFitting`).
-/
namespace AbstractScript

open Eval Number

namespace ObjectRecord

/-- If an object is an array with a length that is known, all its indices are below the length. -/
def IsFitting (r : ObjectRecord) : Prop :=
  r.cls = .array → ∀ n w, Op.arrayLength? r = some (n, w) → r.Below n

variable {r r' : ObjectRecord} {name : String}

/-- The keys are the names of the own properties. -/
theorem mem_keys_iff : name ∈ r.keys ↔ ∃ d, r.own? name = some d := by
  rw [← Option.ne_none_iff_exists', ne_eq, own?_eq_none_iff, Decidable.not_not]

/-- Whether an array fits depends on its keys and its length. -/
theorem IsFitting.congr (h : r.IsFitting) (cls : r'.cls = r.cls) (keys : r'.keys = r.keys)
    (length : (Op.arrayLength? r').map Prod.fst = (Op.arrayLength? r).map Prod.fst) :
    r'.IsFitting := by
  intro array n w known
  rw [known] at length
  obtain ⟨⟨n', w'⟩, known', rfl⟩ := Option.map_eq_some_iff.1 length.symm
  have below := h (cls ▸ array) n' w' known'
  intro index small listed
  exact below index small (keys ▸ listed)

/-- An array whose length is above its indices fits. -/
theorem IsSized.isFitting (h : r.IsSized) : r.IsFitting := by
  intro array n w known index small listed
  obtain ⟨n', w', own, below⟩ := h array
  rw [arrayLength?_of_own own] at known
  obtain ⟨rfl, rfl⟩ := Prod.mk.inj (Option.some.inj known)
  exact Nat.lt_min.2 ⟨below index small listed, small⟩

end ObjectRecord

namespace Op

variable [Natives] {o : ObjectId} {name : String} {d : Definition} {p : Descriptor} {strict : Bool}
  {s : Setup} {m : Machine}

/-- An object that is no array is defined as an ordinary one. -/
theorem define_of_ne_array (ordinary : (m.realm.object o).cls ≠ .array) (d : Definition)
    (strict : Bool) : define o name d strict s m = defineOrdinary o name d strict s m := by
  rw [define, bind_apply]
  change (if (m.realm.object o).cls ≠ .array then _ else _ : Op Bool) s m = _
  rw [if_pos ordinary]

/-- An own property of an array that fits is defined as an ordinary one, unless it is a new value of
the length. -/
theorem define_of_isFitting (fits : (m.realm.object o).IsFitting)
    (listed : name ∈ (m.realm.object o).keys) (length : name = "length" → d.value? = none)
    (accepted : (m.realm.object o).accept name d = .ok p) :
    define o name d strict s m = .ok true (m.modifyObject o (·.store name p)) := by
  have read : (Eval.object o : Op _) s m = .ok (m.realm.object o) m := rfl
  have ordinary (strict : Bool) :
      defineOrdinary o name d strict s m = .ok true (m.modifyObject o (·.store name p)) := by
    rw [defineOrdinary_apply, accepted]
  by_cases array : (m.realm.object o).cls = .array
  · by_cases isLength : name = "length"
    · subst isLength
      simp only [define, bind_apply, read, array, ne_eq, not_true_eq_false, if_false, if_true,
        defineLength, length rfl, ordinary]
    · cases element : arrayIndex? name with
      | none =>
        simp only [define, bind_apply, read, array, ne_eq, not_true_eq_false, if_false, isLength,
          element, ordinary]
      | some index =>
        cases known : arrayLength? (m.realm.object o) with
        | none =>
          simp only [define, bind_apply, read, array, ne_eq, not_true_eq_false, if_false, isLength,
            element, defineElement, known, ordinary]
        | some length =>
          obtain ⟨n, w⟩ := length
          obtain ⟨rfl, small⟩ := arrayIndex?_eq_some_iff.1 element
          -- an index that is listed is below the length
          have inside : ¬ n ≤ index := Nat.not_le.2 (fits array n w known index small listed)
          simp only [define, bind_apply, read, array, ne_eq, not_true_eq_false, if_false, isLength,
            element, defineElement, known, inside, decide_false, Bool.false_and, Bool.false_eq_true,
            ordinary, if_true, pure_apply]
  · rw [define_of_ne_array array, ordinary]

end Op

end AbstractScript
