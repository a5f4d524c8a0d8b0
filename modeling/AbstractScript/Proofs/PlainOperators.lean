import AbstractScript.Proofs.CoreRealm

/-!
# Operators on plain values

As long as only global variables have changed, an operator gives the same result for plain values in
every realm and leaves the machine as it is, but for the record of native functions (`Op.Settles`).
The result is plain, and it is known if the operands are.
-/
namespace AbstractScript

open Eval Realm

/-- The machine with another record of the native functions that were entered. -/
def Machine.withEntered (m : Machine) (entered : NativeEntry → Prop) : Machine := { m with entered }

namespace Op

/-- The operation gives a value in every realm in which only global variables have changed, and of
the machine it changes at most the record of native functions. -/
def Settles {α : Type} (op : Op α) (a : α) : Prop :=
  ∀ s m, m.realm.IsCore → ∃ entered, op s m = .ok a (m.withEntered entered)

variable {α β : Type} {x : Op α} {f : α → Op β} {a : α} {b : β}

theorem Settles.pure (a : α) : (Pure.pure a : Op α).Settles a := fun _ m _ => ⟨m.entered, rfl⟩

theorem Settles.bind (hx : x.Settles a) (hf : (f a).Settles b) : (x >>= f).Settles b := by
  intro s m core
  obtain ⟨entered, first⟩ := hx s m core
  obtain ⟨entered', second⟩ := hf s (m.withEntered entered) core
  refine ⟨entered', ?_⟩
  rw [bind_apply, first]
  exact second

end Op

/-! ## Conversions -/

/-- The primitive that a plain value converts to. -/
def Value.primitive : Value → Value
  | .object o => .string (((core.object o).callable.map Builtin.functionText).getD "")
  | v => v

namespace Op

/-- A function of a core object runs without regard to what it can call. -/
theorem natives_call (f : CoreFunction) (this : Value) (arguments : List Value) :
    ∃ natives : Natives, (Native.core f).call this arguments = (do
      modify (·.enterNative (.core f) this arguments)
      @CoreFunction.run natives f this arguments) := by
  have limit : Native.nestingLimit = 9999 + 1 := rfl
  refine ⟨⟨Native.callWithin 9999⟩, ?_⟩
  show Native.callWithin Native.nestingLimit (.core f) this arguments = _
  rw [limit, Native.callWithin]
  rfl

end Op

/-- What the check of the core functions says about one of them. -/
theorem Realm.converted_of_isCoreFunction {o : ObjectId} (h : isCoreFunction o = true) :
    (∃ f, (core.object o).callable = some f) ∧ (core.object o).own? "valueOf" = none ∧
      (core.object o).own? "toString" = none := by
  have parent := of_decide_eq_true h
  have listed : core.object o ∈ core.objects.toList := by
    rw [Realm.object, Array.getD_eq_getD_getElem?] at parent ⊢
    cases found : core.objects[o.index]? with
    | none =>
      rw [found] at parent
      cases parent
    | some record => exact Array.mem_toList_iff.2 (Array.mem_of_getElem? found)
  have checked := List.all_eq_true.1 conversions_core.1 _ listed
  simp only [parent, bne_self_eq_false, Bool.false_or, Bool.and_eq_true,
    Option.isNone_iff_eq_none] at checked
  exact ⟨Option.isSome_iff_exists.1 checked.1.1, checked.1.2, checked.2⟩

namespace Op

variable {o : ObjectId}

/-- A conversion by a native method runs the method and goes on if it gives an object. -/
theorem convertBy_native {method text : String} {g : ObjectId} {w e c : Bool} {native : Native}
    {construct : Option Native} {s : Setup} {m : Machine}
    (found : m.realm.property? o method = some (.data (.object g) w e c))
    (callable : (m.realm.object g).callable = some (.native text (some native) construct))
    (rest : List String) : convertBy o (method :: rest) s m = (do
      let v ← native.call (.object o) []
      if v.isObject then convertBy o rest else return v) s m := by
  have looked : (Op.property? o method : Op _) s m = .ok (m.realm.property? o method) m := rfl
  have read : (Eval.object g : Op _) s m = .ok (m.realm.object g) m := rfl
  rw [convertBy, bind_apply, looked, found]
  simp only [bind_apply, read, callable]
  rfl

/-- The method `valueOf` of a core function gives the function itself, so that the next method is
tried. -/
theorem Settles.skip_valueOf {v : Value} {rest : List String} (h : isCoreFunction o = true)
    (hrest : (convertBy o rest).Settles v) : (convertBy o ("valueOf" :: rest)).Settles v := by
  intro s m hm
  obtain ⟨g, w, e, c, text, construct, own, callable⟩ :=
    hm.callable_of_nativeAt? conversions_core.2.2.2
  have found : m.realm.property? o "valueOf" = some (.data (.object g) w e c) := by
    rw [hm.property? h, Realm.property?, chain_of_isCoreFunction h]
    simp [findProperty?, (converted_of_isCoreFunction h).2.1, conversions_core.2.2.1, own]
  obtain ⟨natives, ran⟩ := natives_call .objectValueOf (.object o) []
  rw [convertBy_native found callable, ran]
  exact hrest s (m.enterNative (.core .objectValueOf) (.object o) []) hm

/-- The method `toString` of a core function gives its text. -/
theorem settles_toString (rest : List String) (h : isCoreFunction o = true) :
    (convertBy o ("toString" :: rest)).Settles (Value.primitive (.object o)) := by
  intro s m hm
  obtain ⟨g, w, e, c, text, construct, own, callable⟩ :=
    hm.callable_of_nativeAt? conversions_core.2.1
  have found : m.realm.property? o "toString" = some (.data (.object g) w e c) := by
    rw [hm.property? h, Realm.property?, chain_of_isCoreFunction h]
    simp [findProperty?, (converted_of_isCoreFunction h).2.2, own]
  obtain ⟨f, called⟩ := (converted_of_isCoreFunction h).1
  have same : m.realm.object o = core.object o := hm.object o (ne_global_of_isCoreFunction h)
  let k := m.enterNative (.core .functionToString) (.object o) []
  have read : (Eval.object o : Op _) s k = .ok (m.realm.object o) k := rfl
  obtain ⟨natives, ran⟩ := natives_call .functionToString (.object o) []
  rw [convertBy_native found callable, ran, CoreFunction.run]
  refine ⟨k.entered, ?_⟩
  change (Builtin.functionToString (.object o) [] >>= _) s k = _
  simp only [Builtin.functionToString, bind_apply, read, same, called, pure_apply]
  simp only [Value.primitive, called]
  rfl

theorem settles_toPrimitive {v : Value} (plain : v.isPlain = true) (hint : Hint) :
    (toPrimitive v hint).Settles v.primitive := by
  cases v with
  | object o =>
    cases hint with
    | string => exact settles_toString _ plain
    | default => exact .skip_valueOf plain (settles_toString _ plain)
    | number => exact .skip_valueOf plain (settles_toString _ plain)
  | _ => exact .pure _

/-- The number that a plain value converts to. -/
theorem settles_toNumber? {v : Value} (plain : v.isPlain = true) :
    (toNumber? v).Settles v.primitive.primitiveToNumber? :=
  (settles_toPrimitive plain .number).bind (.pure _)

end Op

namespace Value

variable {a b : Value}

theorem IsKnown.toBool? (h : a.IsKnown) : ∃ b, a.toBool? = some b := by
  cases a with
  | unknown => cases h.known
  | _ => exact ⟨_, rfl⟩

theorem IsKnown.isPrimitive_primitive (h : a.IsKnown) : a.primitive.IsPrimitive := by
  cases a with
  | unknown => cases h.known
  | _ => exact ⟨rfl, rfl⟩

theorem IsPrimitive.primitiveToNumber? (h : a.IsPrimitive) :
    ∃ x, a.primitiveToNumber? = some x := by
  cases a with
  | object o => cases h.notObject
  | unknown => cases h.known
  | _ => exact ⟨_, rfl⟩

theorem IsPrimitive.primitiveToString? (h : a.IsPrimitive) :
    ∃ s, a.primitiveToString? = some s := by
  cases a with
  | object o => cases h.notObject
  | unknown => cases h.known
  | _ => exact ⟨_, rfl⟩

/-- Primitives can be compared for order. -/
theorem IsPrimitive.compare_ne_unknown (ha : a.IsPrimitive) (hb : b.IsPrimitive) :
    Value.compare a b ≠ .unknown := by
  obtain ⟨x, hx⟩ := ha.primitiveToNumber?
  obtain ⟨y, hy⟩ := hb.primitiveToNumber?
  unfold Value.compare
  split
  · cases ha.known
  · cases hb.known
  · simp
  · rw [hx, hy]
    simp only
    split <;> simp

/-- Primitives can be compared for equality. -/
theorem IsPrimitive.looselyEqual? (ha : a.IsPrimitive) (hb : b.IsPrimitive) :
    ∃ e, Value.looselyEqual? a b = some e := by
  obtain ⟨x, hx⟩ := ha.primitiveToNumber?
  obtain ⟨y, hy⟩ := hb.primitiveToNumber?
  unfold Value.looselyEqual?
  split
  · cases ha.known
  · cases hb.known
  all_goals first | exact ⟨_, rfl⟩ | (rw [hx, hy]; exact ⟨_, rfl⟩)

end Value

namespace Op

variable {a b : Value}

/-! ## Operators -/

theorem exists_settles_numeric (f : Float → Float → Float) (ha : a.IsKnown) (hb : b.IsKnown) :
    ∃ c, (numeric f a b).Settles c ∧ c.IsPrimitive := by
  obtain ⟨x, hx⟩ := ha.isPrimitive_primitive.primitiveToNumber?
  obtain ⟨y, hy⟩ := hb.isPrimitive_primitive.primitiveToNumber?
  have left := settles_toNumber? ha.plain
  have right := settles_toNumber? hb.plain
  rw [hx] at left
  rw [hy] at right
  exact ⟨.number (f x y), left.bind (right.bind (.pure _)), rfl, rfl⟩

theorem exists_settles_ordered (test : Ordering → Bool) (ha : a.IsKnown) (hb : b.IsKnown) :
    ∃ c, (ordered test a b).Settles c ∧ c.IsPrimitive := by
  have compared : (Op.compare a b).Settles (Value.compare a.primitive b.primitive) :=
    (settles_toPrimitive ha.plain .number).bind
      ((settles_toPrimitive hb.plain .number).bind (.pure _))
  have known := ha.isPrimitive_primitive.compare_ne_unknown hb.isPrimitive_primitive
  cases order : Value.compare a.primitive b.primitive with
  | unknown => exact absurd order known
  | ordered o =>
    rw [order] at compared
    exact ⟨.bool (test o), compared.bind (.pure _), rfl, rfl⟩
  | unordered =>
    rw [order] at compared
    exact ⟨.bool false, compared.bind (.pure _), rfl, rfl⟩

theorem exists_settles_looselyEqual? (ha : a.IsKnown) (hb : b.IsKnown) :
    ∃ e, (looselyEqual? a b).Settles (some e) := by
  have pa := ha.isPrimitive_primitive
  have pb := hb.isPrimitive_primitive
  obtain ⟨e, equal⟩ := pa.looselyEqual? pb
  unfold looselyEqual?
  split
  next o p => exact ⟨o == p, .pure _⟩
  next o =>
    split
    next primitive =>
      have same : b.primitive = b := by cases b <;> first | rfl | cases primitive
      -- the object is replaced by its primitive value, and the other operand is one already
      refine ⟨e, (settles_toPrimitive ha.plain .default).bind ?_⟩
      rw [← equal, same]
      exact .pure _
    next =>
      rw [if_neg (by simp [hb.known])]
      exact ⟨false, .pure _⟩
  next o notObject =>
    split
    next primitive =>
      have same : a.primitive = a := by cases a <;> first | rfl | cases primitive
      refine ⟨e, (settles_toPrimitive hb.plain .default).bind ?_⟩
      rw [← equal, same]
      exact .pure _
    next =>
      rw [if_neg (by simp [ha.known])]
      exact ⟨false, .pure _⟩
  next left right _ =>
    have left : a.primitive = a := by cases a <;> first | rfl | exact (left _ rfl).elim
    have right : b.primitive = b := by cases b <;> first | rfl | exact (right _ rfl).elim
    rw [left, right] at equal
    rw [equal]
    exact ⟨e, .pure _⟩

theorem exists_settles_add (ha : a.IsKnown) (hb : b.IsKnown) :
    ∃ c, (add a b).Settles c ∧ c.IsPrimitive := by
  have pa := ha.isPrimitive_primitive
  have pb := hb.isPrimitive_primitive
  -- both operands are replaced by their primitive values first
  suffices sum : ∃ c, (addPrimitives a.primitive b.primitive).Settles c ∧ c.IsPrimitive by
    obtain ⟨c, settles, primitive⟩ := sum
    exact ⟨c, (settles_toPrimitive ha.plain .default).bind
      ((settles_toPrimitive hb.plain .default).bind settles), primitive⟩
  obtain ⟨s, hs⟩ := pa.primitiveToString?
  obtain ⟨t, ht⟩ := pb.primitiveToString?
  unfold addPrimitives
  split
  next h => exact absurd (h ▸ pa.known) (by simp [Value.isUnknown])
  next h _ => exact absurd (h ▸ pb.known) (by simp [Value.isUnknown])
  next =>
    rw [hs, ht]
    exact ⟨.string (s ++ t), .pure _, rfl, rfl⟩
  next =>
    rw [hs, ht]
    exact ⟨.string (s ++ t), .pure _, rfl, rfl⟩
  next => exact exists_settles_numeric _ pa.isKnown pb.isKnown

end Op

/-- True for the operators that need an object. -/
def BinaryOperator.needsObject : BinaryOperator → Bool
  | contains | instanceOf => true
  | _ => false

namespace Op

variable {a b : Value}

theorem exists_settles_applyKnown {operator : BinaryOperator}
    (allowed : operator.needsObject = false) (ha : a.IsKnown) (hb : b.IsKnown) :
    ∃ c, (applyKnown operator a b).Settles c ∧ c.IsPrimitive := by
  have strict : Value.strictlyEqual? a b = some (Value.equal a b) := by
    rw [Value.strictlyEqual?, if_neg (by simp [ha.known, hb.known])]
  obtain ⟨e, loose⟩ := exists_settles_looselyEqual? ha hb
  cases operator with
  | strictlyEqual => exact ⟨_, .pure _, by rw [strict]; exact ⟨rfl, rfl⟩⟩
  | strictlyUnequal => exact ⟨_, .pure _, by rw [strict]; exact ⟨rfl, rfl⟩⟩
  | looselyEqual => exact ⟨.bool e, loose.bind (.pure _), rfl, rfl⟩
  | looselyUnequal => exact ⟨.bool (!e), loose.bind (.pure _), rfl, rfl⟩
  | lessThan | lessThanEqual | greaterThan | greaterThanEqual =>
    exact exists_settles_ordered _ ha hb
  | add => exact exists_settles_add ha hb
  | contains | instanceOf => cases allowed
  | _ => exact exists_settles_numeric _ ha hb

/-- What an operation gives in the realm in which a run begins. -/
def outcome (op : Op Value) : Value :=
  match op { options := {}, rules := .core, file := "" } (.start core) with
  | .ok v _ => v
  | .error .. => .unknown

theorem Settles.outcome {op : Op Value} (h : op.Settles a) : op.outcome = a := by
  obtain ⟨entered, ran⟩ := h _ (.start core) (isCore_core.congr rfl)
  rw [Op.outcome, ran]

end Op

/-- What a binary operator gives for plain values. -/
def Value.applied (operator : BinaryOperator) (a b : Value) : Value := (Op.apply operator a b).outcome

/-- The name of the type of a plain value, as a value. -/
def Value.typed (v : Value) : Value := .ofString? (core.typeName? v)

namespace Op

variable {a b : Value} {operator : BinaryOperator}

theorem exists_settles_apply (allowed : operator.needsObject = false) (ha : a.isPlain = true)
    (hb : b.isPlain = true) :
    ∃ c, (apply operator a b).Settles c ∧ c.isPlain = true ∧ (a.IsKnown → b.IsKnown → c.IsKnown) := by
  unfold apply
  split
  next unknown =>
    refine ⟨.unknown, .pure _, rfl, fun known known' => ?_⟩
    simp [Value.anyUnknown, known.known, known'.known] at unknown
  next known =>
    simp only [Value.anyUnknown, List.any_cons, List.any_nil, Bool.or_false, Bool.or_eq_true,
      not_or, Bool.not_eq_true] at known
    obtain ⟨c, settles, primitive⟩ :=
      exists_settles_applyKnown allowed ⟨ha, known.1⟩ ⟨hb, known.2⟩
    exact ⟨c, settles, primitive.isKnown.plain, fun _ _ => primitive.isKnown⟩

theorem settles_apply (allowed : operator.needsObject = false) (ha : a.isPlain = true)
    (hb : b.isPlain = true) : (apply operator a b).Settles (Value.applied operator a b) := by
  obtain ⟨c, settles, -⟩ := exists_settles_apply allowed ha hb
  rw [Value.applied, settles.outcome]
  exact settles

theorem settles_numericUnary (f : Float → Float) (ha : a.isPlain = true) :
    (numericUnary f a).Settles (.ofNumber? (a.primitive.primitiveToNumber?.map f)) :=
  (settles_toNumber? ha).bind (.pure _)

theorem settles_typeOf (ha : a.isPlain = true) : (typeOf a).Settles a.typed := by
  intro s m hm
  have same : m.realm.typeName? a = core.typeName? a := by
    cases a with
    | object o => rw [Realm.typeName?, Realm.typeName?, hm.object o (ne_global_of_isCoreFunction ha)]
    | _ => rfl
  refine ⟨m.entered, ?_⟩
  show EStateM.Result.ok (Value.ofString? (m.realm.typeName? a)) m = _
  rw [same]
  rfl

end Op

namespace Value

variable {a b : Value} {operator : BinaryOperator}

theorem isPlain_applied (allowed : operator.needsObject = false) (ha : a.isPlain = true)
    (hb : b.isPlain = true) : (applied operator a b).isPlain = true := by
  obtain ⟨c, settles, plain, -⟩ := Op.exists_settles_apply allowed ha hb
  rw [applied, settles.outcome]
  exact plain

theorem IsKnown.applied (allowed : operator.needsObject = false) (ha : a.IsKnown)
    (hb : b.IsKnown) : (applied operator a b).IsKnown := by
  obtain ⟨c, settles, -, known⟩ := Op.exists_settles_apply allowed ha.plain hb.plain
  rw [Value.applied, settles.outcome]
  exact known ha hb

/-- An unknown operand makes the result unknown. -/
theorem applied_of_isUnknown (h : a.isUnknown = true ∨ b.isUnknown = true) :
    applied operator a b = .unknown := by
  have unknown : Value.anyUnknown [a, b] = true := by
    rcases h with h | h <;> simp [Value.anyUnknown, h]
  have settles : (Op.apply operator a b).Settles .unknown := by
    rw [Op.apply, if_pos unknown]
    exact .pure _
  rw [applied, settles.outcome]

theorem isPlain_typed : a.typed.isPlain = true := by
  unfold typed
  cases core.typeName? a <;> rfl

theorem IsKnown.typed (ha : a.IsKnown) : a.typed.IsKnown := by
  cases a with
  | unknown => cases ha.known
  | _ => exact ⟨rfl, rfl⟩

end Value

end AbstractScript
