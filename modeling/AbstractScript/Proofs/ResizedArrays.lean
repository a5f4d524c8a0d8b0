import AbstractScript.Builtin.Dispatch
import AbstractScript.Proofs.CoreRealm
import AbstractScript.Proofs.ShortenedArrays

/-!
# Definitions of properties of arrays

`[[DefineOwnProperty]]` of ECMAScript 5 treats the elements and the length of an array apart. An
element beyond the length makes the array longer; a number that is no length is refused; a smaller
length removes elements. The definition of a property of an array follows it (`Op.define_array`). The
value of a length is converted before the array is looked at, and the conversion may run a native
function that changes the array (`Op.define_array_popped`).
-/
namespace AbstractScript

open Eval Number

/-- Nothing compares as equal to what is not a number. -/
theorem Number.beq_of_isNaN {x : Float} (nan : x.isNaN = true) (y : Float) : (y == x) = false := by
  show (y.toModel.unpack.compare x.toModel.unpack == some .eq) = false
  have unpacked : x.toModel.unpack = .notANumber := by
    change x.toModel.unpack.isNaN = true at nan
    cases is : x.toModel.unpack with
    | notANumber => rfl
    | _ =>
      rw [is] at nan
      cases nan
  rw [unpacked]
  cases y.toModel.unpack <;> rfl

/-! ## The definition of an element -/

namespace ObjectRecord

variable {r r' : ObjectRecord} {n index : Nat} {w : Bool}

/-- What the definition of an element leaves of an array of some length: the element has the fields
that are asked for, the length is above it, and everything else is as before. -/
structure Extended (n : Nat) (w : Bool) (index : Nat) (fields : Fields) (r r' : ObjectRecord) :
    Prop where
  array : r'.IsArray (max n (index + 1)) w
  own : ∃ p, r'.own? (Nat.repr index) = some p ∧ p.fields = fields
  others : ∀ name, name ≠ Nat.repr index → name ≠ "length" → r'.own? name = r.own? name
  keys : r'.keys = if Nat.repr index ∈ r.keys then r.keys else r.keys ++ [Nat.repr index]
  rest : r' = { r with properties := r'.properties }

/-- An element below the length leaves the length as it is. -/
theorem IsArray.extended_store (h : r.IsArray n w) (inside : index < n) (p : Descriptor) :
    r.Extended n w index p.fields (r.store (Nat.repr index) p) where
  array := by
    rw [Nat.max_eq_left inside]
    refine ⟨h.cls, ?_, h.small, h.below.store (fun other _ same => ?_) p⟩
    · rw [own?_store, if_neg (Ne.symm (repr_ne_length index)), h.length]
    · rwa [← repr_inj.1 same]
  own := ⟨p, by rw [own?_store, if_pos rfl], rfl⟩
  others name ne _ := by rw [own?_store, if_neg ne]
  keys := keys_store ..
  rest := rfl

/-- An element beyond the length makes the length one more than its index. -/
theorem IsArray.extended_storeLength (h : r.IsArray n true) (beyond : n ≤ index)
    (small : index < maxLength) (p : Descriptor) :
    r.Extended n true index p.fields
      ((r.store (Nat.repr index) p).store "length" (Op.lengthDescriptor (index + 1) true)) where
  array := by
    rw [Nat.max_eq_right (Nat.le_succ_of_le beyond)]
    refine ⟨h.cls, ?_, small, ?_⟩
    · rw [own?_store, if_pos rfl]
    · have grown : r.Below (index + 1) := h.below.mono (by omega)
      refine (grown.store (fun other _ same => ?_) p).storeLength _
      rw [repr_inj.1 same]
      exact Nat.lt_succ_self _
  own := by
    refine ⟨p, ?_, rfl⟩
    rw [own?_store, if_neg (repr_ne_length index), own?_store, if_pos rfl]
  others name ne ne' := by rw [own?_store, if_neg ne', own?_store, if_neg ne]
  keys := by
    have listed : "length" ∈ (r.store (Nat.repr index) p).keys :=
      mem_keys_store.2 (.inr h.length_mem_keys)
    rw [keys_store, if_pos listed, keys_store]
  rest := rfl

/-- The indices of an object are below a number if those among its keys are. -/
theorem below_of_all (all : (r.keys.all fun name => (arrayIndex? name).all (· < n)) = true) :
    r.Below n := by
  intro index small listed
  have below := List.all_eq_true.1 all _ listed
  rw [arrayIndex?_eq_some_iff.2 ⟨rfl, small⟩] at below
  exact of_decide_eq_true below

end ObjectRecord

namespace Op

open ObjectRecord

variable {o : ObjectId} {name : String} {d : Definition} {strict : Bool} {s : Setup} {m : Machine}
  {n length : Nat}

/-- **The definition of an element** is rejected if the element is beyond a length that is read-only,
or if the ordinary definition is rejected. Otherwise the length is above the element. -/
theorem defineElement_standard {n index : Nat} {w : Bool} (shaped : d.IsShaped)
    (array : (m.realm.object o).IsArray n w) (small : index < maxLength) (strict : Bool) (s : Setup) :
    if (n ≤ index ∧ w = false) ∨ Standard.rejects (m.realm.object o).extensible
        ((m.realm.object o).own? (Nat.repr index)) d.fields = true then
      defineElement o index (Nat.repr index) d strict s m = reject strict (Nat.repr index) s m
    else
      ∃ k, defineElement o index (Nat.repr index) d strict s m = .ok true k ∧
        (∀ other, other ≠ o → k.realm.object other = m.realm.object other) ∧
        (m.realm.object o).Extended n w index
          (Standard.result ((m.realm.object o).own? (Nat.repr index)) d.fields)
          (k.realm.object o) := by
  have there := index_lt_of_isArray array
  have standard := ObjectRecord.accept_standard shaped (m.realm.object o) (Nat.repr index)
  have step : defineElement o index (Nat.repr index) d strict s m =
      (if (decide (n ≤ index) && !w) = true then reject strict (Nat.repr index)
      else defineOrdinary o (Nat.repr index) d false >>= fun admitted =>
        if admitted = true then do
          if n ≤ index then setLength o (index + 1) true
          return true
        else reject strict (Nat.repr index) : Op _) s m := by
    have read : (Eval.object o : Op _) s m = .ok (m.realm.object o) m := rfl
    simp only [defineElement, bind_apply, read, array.arrayLength?]
  by_cases readOnly : n ≤ index ∧ w = false
  · rw [if_pos (.inl readOnly), step, if_pos (by simp [readOnly])]
  have free : ¬ (decide (n ≤ index) && !w) = true := by simpa using readOnly
  rw [step, if_neg free, bind_apply, defineOrdinary_apply]
  cases accepted : (m.realm.object o).accept (Nat.repr index) d with
  | error rejection =>
    rw [accepted] at standard
    rw [if_pos (.inr standard)]
    rfl
  | ok p =>
    rw [accepted] at standard
    obtain ⟨admitted, result⟩ := standard
    rw [if_neg (by simp [readOnly, admitted]), ← result]
    let k := m.modifyObject o (·.store (Nat.repr index) p)
    have stored : k.realm.object o = (m.realm.object o).store (Nat.repr index) p :=
      object_modifyObject there _
    -- an element behind the end also sets the length
    by_cases beyond : n ≤ index
    · obtain rfl : w = true := by simpa [beyond] using readOnly
      refine ⟨k.modifyObject o (·.store "length" (lengthDescriptor (index + 1) true)), ?_,
        fun other ne => ?_, ?_⟩
      · dsimp only
        rw [if_pos rfl, if_pos beyond]
        rfl
      · rw [object_modifyObject_of_ne ne, object_modifyObject_of_ne ne]
      · have there' : o.index < k.realm.objects.size := by
          have size : k.realm.objects.size = m.realm.objects.size := Array.size_modify ..
          rwa [size]
        rw [object_modifyObject there', stored]
        exact array.extended_storeLength beyond small p
    · refine ⟨k, ?_, fun other ne => object_modifyObject_of_ne ne _, ?_⟩
      · dsimp only
        rw [if_pos rfl, if_neg beyond]
        rfl
      · rw [stored]
        exact array.extended_store (Nat.lt_of_not_le beyond) p

/-! ## Definitions of an array -/

/-- A definition that is rejected does not change anything. -/
theorem reject_apply (strict : Bool) (name : String) (s : Setup) (m : Machine) :
    reject strict name s m =
      if strict then .error (.typeError ("Cannot define property: " ++ name)) m else .ok false m := by
  cases strict <;> rfl

section

variable [Natives] {w : Bool}

/-- The machine once a value that is given for a length has been converted. -/
def converted (name : String) (d : Definition) (s : Setup) (m : Machine) : Machine :=
  match d.value? with
  | some v => if name = "length" then (toNumber? v).after s m else m
  | none => m

/-- A property of an array is defined as an element, as the length, or as any other property. -/
theorem define_of_array (array : (m.realm.object o).cls = .array) (name : String) (d : Definition)
    (strict : Bool) (s : Setup) :
    define o name d strict s m =
      (if name = "length" then defineLength o d strict
      else match arrayIndex? name with
        | some index => defineElement o index name d strict
        | none => defineOrdinary o name d strict : Op _) s m := by
  rw [define, bind_apply]
  exact congrArg (fun x : Op Bool => x s m) (if_neg (not_not_intro array))

/-- The definition of a length whose value has been converted. -/
theorem defineLength_of_toNumber? {v : Value} {x : Float} {k : Machine}
    (value : d.value? = some v) (known : toNumber? v s m = .ok (some x) k) :
    defineLength o d strict s m =
      (if (Float.ofNat (toUInt32 x).toNat != x) = true then rangeError "Invalid array length"
      else match arrayLength? (k.realm.object o) with
        | none => defineOrdinary o "length" (d.withValue (.nat (toUInt32 x).toNat)) strict
        | some (old, writable) =>
          if old ≤ (toUInt32 x).toNat then
            defineOrdinary o "length" (d.withValue (.nat (toUInt32 x).toNat)) strict
          else if !writable then reject strict "length"
          else truncate o (toUInt32 x).toNat (d.withValue (.nat (toUInt32 x).toNat)) strict :
        Op _) s k := by
  rw [defineLength, value]
  show (toNumber? v >>= fun _ => _ : Op _) s m = _
  rw [bind_apply, known]
  dsimp only
  cases (Float.ofNat (toUInt32 x).toNat != x) <;> rfl

/-- A number that is no length is refused. -/
theorem defineLength_of_no_length {v : Value} {x : Float} {k : Machine}
    (value : d.value? = some v) (known : toNumber? v s m = .ok (some x) k)
    (none : ∀ length ≤ maxLength, (Float.ofNat length == x) = false) :
    defineLength o d strict s m = .error (.rangeError "Invalid array length") k := by
  have small : (toUInt32 x).toNat ≤ maxLength := by
    have := (toUInt32 x).toNat_lt
    have : maxLength = 2 ^ 32 - 1 := by decide
    omega
  have differs : (Float.ofNat (toUInt32 x).toNat != x) = true := by
    rw [bne, none _ small]
    rfl
  rw [defineLength_of_toNumber? value known, if_pos differs]
  rfl

/-- A number that is a smaller length than that of an array makes the array shorter. -/
theorem defineLength_of_length {v : Value} {x : Float} {k : Machine}
    (value : d.value? = some v) (known : toNumber? v s m = .ok (some x) k)
    (array : (k.realm.object o).IsArray n true) (less : length < n)
    (equal : (Float.ofNat length == x) = true) :
    defineLength o d strict s m = truncate o length (d.withValue (.nat length)) strict s k := by
  have whole : (toUInt32 x).toNat = length :=
    toNat_toUInt32 (Nat.le_of_lt (Nat.lt_of_lt_of_le less array.small)) equal
  have same : ¬ (Float.ofNat (toUInt32 x).toNat != x) = true := by
    rw [whole, bne, equal]
    decide
  rw [defineLength_of_toNumber? value known, if_neg same, whole, array.arrayLength?]
  dsimp only
  rw [if_neg (Nat.not_le.2 less)]
  rfl

/-- After the definition of a property the indices of an array are below its length, if that is
known. -/
theorem isFitting_define {k : Machine} (array : (m.realm.object o).cls = .array)
    (conversion : converted name d s m = k) {n : Nat} (sized : (k.realm.object o).IsArray n w) :
    (((define o name d strict).after s m).realm.object o).IsFitting := by
  have resizes : k.Resizes o ((define o name d strict).after s m) := by
    by_cases isLength : name = "length"
    · subst isLength
      have same : (define o "length" d strict).after s m = (defineLength o d strict).after s m := by
        rw [Eval.after, define_of_array array]
        rfl
      rw [same]
      -- the value of a length is converted first
      cases given : d.value? with
      | none =>
        obtain rfl : m = k := by rw [← conversion, converted, given]
        rw [defineLength, given]
        refine resizes_defineOrdinary_length array fun _ v given' => ?_
        rw [given] at given'
        cases given'
      | some v =>
        have after : (toNumber? v).after s m = k := by
          rw [← conversion, converted, given]
          exact (if_pos rfl).symm
        rw [Eval.after] at after
        cases run : toNumber? v s m with
        | error e k' =>
          rw [run] at after
          obtain rfl : k' = k := after
          rw [defineLength, given, after_bind, run]
          exact .refl o k'
        | ok x k' =>
          rw [run] at after
          obtain rfl : k' = k := after
          cases x with
          | none =>
            rw [defineLength, given, after_bind, run]
            refine resizes_defineOrdinary_length sized.cls fun _ v given' => .inl ?_
            rw [Definition.value?_withValue] at given'
            exact (Option.some.inj given').symm
          | some x =>
            rw [Eval.after, defineLength_of_toNumber? given run]
            by_cases refused : (Float.ofNat (toUInt32 x).toNat != x) = true
            · rw [if_pos refused]
              exact .refl o k'
            · rw [if_neg refused]
              exact resizes_replaceLength sized.cls (Definition.value?_withValue ..)
    · obtain rfl : m = k := by
        rw [← conversion, converted]
        cases d.value? with
        | none => rfl
        | some v => exact (if_neg isLength).symm
      rw [Eval.after, define_of_array array, if_neg isLength]
      cases element : arrayIndex? name with
      | some index => exact resizes_defineElement array element
      | none => exact resizes_defineOther array isLength element
  have before : (k.realm.object o).IsSized := fun _ => ⟨n, w, sized.length, sized.below⟩
  intro isArray length writable known
  -- only a known length matters to whether the array fits
  have length? : (((define o name d strict).after s m).realm.object o).HasKnownLength := by
    intro _
    unfold arrayLength? at known
    split at known
    next x w e c own => exact ⟨x, w, e, c, own⟩
    next => cases known
  exact (resizes.sized before length?).isFitting isArray length writable known

/-- **The definition of a property of an array** is that of the standard. An element is rejected if it
is beyond a length that is read-only, or if the ordinary definition is; otherwise the length is above
it. A value of the length is converted first, which may run native functions; what follows goes by
the array as they leave it. A number that is no length is refused with a RangeError. A smaller length
is taken as far as the elements beyond it can be removed, in descending order; it is accepted if all
of them can, and made read-only if that is asked for in either case. Afterwards all indices are below
the length. -/
theorem define_array (name : String) (shaped : d.IsShaped) {n : Nat}
    (array : (m.realm.object o).IsArray n w) (strict : Bool) (s : Setup) :
    (∀ index < maxLength, name = Nat.repr index →
      if (n ≤ index ∧ w = false) ∨ Standard.rejects (m.realm.object o).extensible
          ((m.realm.object o).own? name) d.fields = true then
        define o name d strict s m =
          if strict then .error (.typeError ("Cannot define property: " ++ name)) m else .ok false m
      else
        ∃ k, define o name d strict s m = .ok true k ∧
          (∀ other, other ≠ o → k.realm.object other = m.realm.object other) ∧
          (m.realm.object o).Extended n w index
            (Standard.result ((m.realm.object o).own? name) d.fields) (k.realm.object o)) ∧
    (name = "length" → ∀ v x k, d.value? = some v → toNumber? v s m = .ok (some x) k →
      ((∀ length ≤ maxLength, (Float.ofNat length == x) = false) →
        define o name d strict s m = .error (.rangeError "Invalid array length") k) ∧
      ∀ old length, (k.realm.object o).IsArray old true → length < old →
        (Float.ofNat length == x) = true →
        Standard.rejects (k.realm.object o).extensible ((k.realm.object o).own? name) d.fields =
          false →
        ∃ l, (∀ other, other ≠ o → l.realm.object other = k.realm.object other) ∧
          ((∃ last, (k.realm.object o).IsLastFixed length last ∧
              define o name d strict s m =
                (if strict then .error (.typeError ("Cannot define property: " ++ name)) l
                else .ok false l) ∧
              (k.realm.object o).Truncated (last + 1) d.staysWritable (l.realm.object o)) ∨
            ((∀ index < maxLength, length ≤ index →
                (k.realm.object o).isRemovable index = true) ∧
              define o name d strict s m = .ok true l ∧
              (k.realm.object o).Truncated length d.staysWritable (l.realm.object o)))) ∧
    (name ≠ "length" → arrayIndex? name = none →
      define o name d strict s m = defineOrdinary o name d strict s m) ∧
    ∀ old w', ((converted name d s m).realm.object o).IsArray old w' →
      (((define o name d strict).after s m).realm.object o).IsFitting := by
  refine ⟨?_, ?_, ?_, fun old w' => isFitting_define array.cls rfl⟩
  · rintro index small rfl
    have isElement : arrayIndex? (Nat.repr index) = some index :=
      arrayIndex?_eq_some_iff.2 ⟨rfl, small⟩
    have same : define o (Nat.repr index) d strict s m =
        defineElement o index (Nat.repr index) d strict s m := by
      rw [define_of_array array.cls, if_neg (ObjectRecord.repr_ne_length index), isElement]
    rw [same, ← reject_apply]
    exact defineElement_standard shaped array small strict s
  · rintro rfl v x k value known
    have same : define o "length" d strict s m = defineLength o d strict s m := by
      rw [define_of_array array.cls, if_pos rfl]
    rw [same]
    refine ⟨defineLength_of_no_length value known, fun old length array less equal admitted => ?_⟩
    have flags := Definition.hasFlagsOf_withValue value (.nat length)
    have admissible : Standard.keepsFlags (lengthDescriptor old true)
        (d.withValue (.nat length)).fields = false := by
      rw [array.length, Standard.rejects_lengthDescriptor (Definition.isData_of_value? value)]
        at admitted
      rw [flags.keepsFlags, admitted]
    have stays : (d.withValue (.nat length)).staysWritable = d.staysWritable := by
      obtain ⟨-, w', e, c, is⟩ := Definition.data_of_value? value
      simp [Definition.staysWritable, Definition.withValue, is, Descriptor.asData,
        Descriptor.setValue, Descriptor.isWritable]
    obtain ⟨l, others, outcome⟩ := truncate_standard (flags.isShaped shaped value) array less
      (Definition.value?_withValue ..) admissible strict s
    refine ⟨l, others, ?_⟩
    rw [defineLength_of_length value known array less equal, ← reject_apply, ← stays]
    exact outcome
  · intro other none
    rw [define_of_array array.cls, if_neg other, none]

end

/-- An array of three elements, the second of which cannot be removed, gets the length two in place
of the length zero, and its length becomes read-only. -/
theorem define_array_lastFixed :
    let m := withRecord ((Realm.arrayRecord 0 [.null, .null, .null]).store "1" (.fixed .null))
    let o := Realm.initial.nextObject
    let d := (Definition.value (.nat 0)).withWritable false
    d.IsShaped ∧ (m.realm.object o).IsArray 3 true ∧
      ∃ l, define o "length" d false ⟨{}, .core, "", false⟩ m = .ok false l ∧
        (l.realm.object o).IsArray 2 false ∧ (l.realm.object o).own? "2" = none := by
  intro m o d
  have shaped : d.IsShaped :=
    Definition.isShaped_of_built (.withWritable false (.withValue (.nat 0) .empty)) rfl
  have array : (m.realm.object o).IsArray 3 true := by
    refine ⟨by decide +kernel, by decide +kernel, by decide, ?_⟩
    exact ObjectRecord.below_of_all (by decide +kernel)
  have fixed : (m.realm.object o).isRemovable 1 = false := by decide +kernel
  have free : (m.realm.object o).isRemovable 2 = true := by decide +kernel
  have admitted : Standard.rejects (m.realm.object o).extensible
      ((m.realm.object o).own? "length") d.fields = false := by decide +kernel
  have value : d.value? = some (.nat 0) := rfl
  have stays : d.staysWritable = false := rfl
  clear_value m o d
  obtain ⟨-, ofLength, -⟩ :=
    define_array "length" shaped array false ⟨{}, .core, "", false⟩
  obtain ⟨l, -, outcome⟩ := (ofLength rfl _ _ m value rfl).2 3 0 array (by decide)
    (beq_ofNat (by decide)) admitted
  rcases outcome with ⟨last, isLast, run, truncated⟩ | ⟨removable, -⟩
  · obtain rfl : last = 1 := by
      have above := isLast.greatest 1 (by decide) (Nat.zero_le _) fixed
      have below := array.below last isLast.small (mem_keys_of_isRemovable isLast.fixed)
      have ne : last ≠ 2 := by
        rintro rfl
        rw [isLast.fixed] at free
        cases free
      omega
    refine ⟨shaped, array, l, run, stays ▸ truncated.array, ?_⟩
    rw [truncated.own "2" (by decide), if_pos (by decide +kernel)]
  · have := removable 1 (by decide) (Nat.zero_le _)
    rw [fixed] at this
    cases this

/-- A value is known not to be a number. -/
def findsNaN : EStateM.Result NativeError Machine (Option Float) → Bool
  | .ok (some x) _ => x.isNaN
  | _ => false

theorem exists_of_findsNaN {r : EStateM.Result NativeError Machine (Option Float)}
    (h : findsNaN r = true) : ∃ x k, r = .ok (some x) k ∧ x.isNaN = true := by
  unfold findsNaN at h
  split at h
  next x k => exact ⟨x, k, rfl, h⟩
  next => cases h

/-- **A value may change the array when it is converted.** An array whose `valueOf` is
`Array.prototype.pop` is given as its own length. It is converted to a number that is no length, and
the definition is refused; but its element has been removed. -/
theorem define_array_popped :
    let pop := ((Realm.core.object Intrinsic.arrayPrototype.id).own? "pop").getD default
    let m := Machine.start
      (Realm.core.addObject ((Realm.arrayRecord 0 [.undefined]).store "valueOf" pop))
    let o := Realm.core.nextObject
    (m.realm.object o).IsArray 1 true ∧ ("0" ∈ (m.realm.object o).keys) ∧
      ∃ x k, toNumber? (.object o) ⟨{}, .core, "", false⟩ m = .ok (some x) k ∧
        (∀ length ≤ maxLength, (Float.ofNat length == x) = false) ∧
        define o "length" (.value (.object o)) false ⟨{}, .core, "", false⟩ m =
          .error (.rangeError "Invalid array length") k ∧
        "0" ∉ (k.realm.object o).keys := by
  intro pop m o
  have array : (m.realm.object o).IsArray 1 true := by
    refine ⟨by decide +kernel, by decide +kernel, by decide, ?_⟩
    exact ObjectRecord.below_of_all (by decide +kernel)
  have there : "0" ∈ (m.realm.object o).keys := by decide +kernel
  have number : findsNaN (toNumber? (.object o) ⟨{}, .core, "", false⟩ m) = true := by decide +kernel
  have gone : "0" ∉ (((toNumber? (.object o)).after ⟨{}, .core, "", false⟩ m).realm.object o).keys := by
    decide +kernel
  obtain ⟨x, k, run, nan⟩ := exists_of_findsNaN number
  rw [Eval.after, run] at gone
  have none (length : Nat) (_ : length ≤ maxLength) := beq_of_isNaN nan (Float.ofNat length)
  refine ⟨array, there, x, k, run, none, ?_, gone⟩
  rw [define_of_array array.cls, if_pos rfl]
  exact defineLength_of_no_length rfl run none

end Op

end AbstractScript
