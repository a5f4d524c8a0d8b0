import AbstractScript.Proofs.DecidingOperations

/-!
# Core functions decide

The core functions that convert objects, and those that names stand for, decide for definite
objects and harmless arguments, however deep they run each other (`CoreFunction.convert_decides`,
`CoreFunction.run_decides`).
-/
namespace AbstractScript

open Eval Realm

variable {s : Setup} {P : Prop}

namespace Builtin

open Op

variable {this : Value} {arguments : List Value}

/-! ## Receivers and arguments -/

theorem isHarmless_argument (h : ∀ v ∈ arguments, v.isHarmless = true) (index : Nat) :
    (argument arguments index).isHarmless = true := by
  rw [argument, List.getD_eq_getElem?_getD]
  cases found : arguments[index]? with
  | none => rfl
  | some v => exact h v (List.mem_of_getElem? found)

theorem wrap_decides {v : Value} (definite : P → v.isDefinite = true) :
    Decides s P (wrap v) fun w => w.isDefinite = true ∧ (v.isHarmless = true → w.isHarmless = true) := by
  refine (toObject?_decides definite).bind fun o => ?_
  split
  next p =>
    refine .pure fun given => ?_
    obtain ⟨-, q, ⟨⟩, other, harmless⟩ := given
    exact ⟨decide_eq_true other, harmless⟩
  · exact .pure fun ⟨_, q, same, _⟩ => nomatch same

theorem primitiveOf?_decides (definite : P → this.isDefinite = true) (cls : ObjectClass) :
    Decides s P (primitiveOf? cls this) fun p => cls.wraps p = true := by
  unfold primitiveOf?
  split
  · exact .pure fun given => nomatch definite given
  · exact .pure fun _ => rfl
  · exact .pure fun _ => rfl
  · exact .pure fun _ => rfl
  next o =>
    refine (Decides.object o).bind fun record => ?_
    split
    next same =>
      refine .pure ?_
      rintro ⟨given, r, hr, rfl⟩
      exact same ▸ (hr.object (of_decide_eq_true (definite given))).primitive
    · exact .throw _
  · exact .throw _

theorem withinLimit_decides (length : Nat) :
    Decides s P (withinLimit length) fun within => within = true := by
  refine (Decides.setup _).bind fun limit => ?_
  split
  · refine Decides.bind (R := fun _ => False) reportMaxIterations_diagnosed fun _ => ?_
    exact .absurd (.pure _) And.right
  · exact .pure fun _ => rfl

/-! ## Functions on objects and primitives -/

theorem objectToString_decides (definite : P → this.isDefinite = true) (arguments : List Value) :
    Decides s P (objectToString this arguments) Value.IsPrimitive := by
  unfold objectToString
  split
  · exact .pure fun _ => ⟨rfl, rfl⟩
  · exact .pure fun _ => ⟨rfl, rfl⟩
  · refine (toObject?_decides definite).bind fun o => ?_
    split
    · exact (Decides.object _).bind fun _ => .pure fun _ => ⟨rfl, rfl⟩
    · exact .pure fun ⟨_, q, same, _⟩ => nomatch same

theorem functionToString_decides (definite : P → this.isDefinite = true) (arguments : List Value) :
    Decides s P (functionToString this arguments) Value.IsPrimitive := by
  unfold functionToString
  split
  · exact .pure fun given => nomatch definite given
  · refine (Decides.object _).bind fun record => ?_
    split
    · exact .pure fun _ => ⟨rfl, rfl⟩
    · exact .throw _
  · exact .throw _

theorem isPrimitive_of_wraps {cls : ObjectClass} (h : cls ∈ [.boolean, .number, .string])
    {p : Option Value} (wraps : cls.wraps p = true) : (p.getD .unknown).IsPrimitive := by
  simp only [List.mem_cons, List.not_mem_nil, or_false] at h
  rcases h with rfl | rfl | rfl <;> rcases p with _ | v <;>
    first
    | cases wraps
    | cases v <;> first | exact ⟨rfl, rfl⟩ | cases wraps

/-- A receiver of one of the classes of primitives has a primitive. -/
theorem valueOf_decides (definite : P → this.isDefinite = true) {cls : ObjectClass}
    (h : cls ∈ [.boolean, .number, .string]) (arguments : List Value) :
    Decides s P (valueOf cls this arguments) Value.IsPrimitive :=
  (primitiveOf?_decides definite cls).bind fun _ => .pure fun given => isPrimitive_of_wraps h given.2

theorem booleanToString_decides (definite : P → this.isDefinite = true) (arguments : List Value) :
    Decides s P (booleanToString this arguments) Value.IsPrimitive := by
  refine (primitiveOf?_decides definite .boolean).bind fun p => ?_
  split
  · exact .pure fun _ => ⟨rfl, rfl⟩
  next other =>
    refine .pure fun ⟨_, wraps⟩ => ?_
    rcases p with _ | v
    · cases wraps
    · cases v <;> first | exact (other _ rfl).elim | cases wraps

theorem isPrototypeOf_decides (definite : this.isDefinite = true) :
    Decides s P (isPrototypeOf this arguments) Value.IsPrimitive := by
  unfold isPrototypeOf
  split
  · refine (toObject?_decides fun _ => definite).bind fun o => ?_
    split
    · exact Decides.get.bind fun _ => .pure fun _ => ⟨rfl, rfl⟩
    · exact .pure fun ⟨_, q, same, _⟩ => nomatch same
  · exact .pure fun _ => ⟨rfl, rfl⟩

section

variable [Natives] [DecidingNatives s]

omit [DecidingNatives s] in
/-- Without an argument, numbers are written with radix ten. -/
theorem numberToString_decides (definite : P → this.isDefinite = true) :
    Decides s P (numberToString this []) Value.IsPrimitive := by
  have radix : Decides s P (radix? (argument [] 0)) fun radix => ∃ x, radix = some x :=
    .pure fun _ => ⟨10, rfl⟩
  refine (primitiveOf?_decides definite .number).bind fun p => ?_
  split
  next x =>
    refine (radix.of And.left).bind fun radix => ?_
    split
    · refine .join (R := fun _ => True) (.throw _) (fun _ => ?_) ?_ <;> split <;>
        exact .pure fun _ => ⟨rfl, rfl⟩
    next none => exact .pure fun ⟨_, x, same⟩ => (none x same).elim
  next other =>
    refine .pure fun ⟨_, wraps⟩ => ?_
    rcases p with _ | v
    · cases wraps
    · cases v <;> first | exact (other _ rfl).elim | cases wraps

theorem elementTexts?_decides {o : ObjectId} (other : P → o ≠ globalObject) (indices : List Nat)
    (read : List String) :
    Decides s P (elementTexts? o indices read) fun texts => ∃ ts, texts = some ts := by
  induction indices generalizing read with
  | nil => exact .pure fun _ => ⟨_, rfl⟩
  | cons index rest ih =>
    refine (get_decides other).bind fun v => ?_
    have text : Decides s (P ∧ v.isDefinite = true) (elementText? v) fun text => ∃ t, text = some t := by
      unfold elementText?
      split
      · exact .pure fun _ => ⟨_, rfl⟩
      · exact toText?_decides And.right
    refine text.bind fun text => ?_
    split
    · exact (ih _).of fun given => given.1.1
    · exact .pure fun ⟨_, t, same⟩ => nomatch same

/-- The elements of a definite object can be joined. -/
theorem join_decides (definite : P → this.isDefinite = true) :
    Decides s P (join this []) Value.IsPrimitive := by
  -- the receiver is an object other than the global one, and its length is a number
  have withLength : Decides s P (withLength? this) fun found =>
      ∃ o n, found = some (o, n) ∧ o ≠ globalObject := by
    refine (toObject?_decides definite).bind fun o => ?_
    split
    next p =>
      have other (given : P ∧ ∃ q, some p = some q ∧ q ≠ globalObject ∧
          (this.isHarmless = true → (Value.object q).isHarmless = true)) : p ≠ globalObject := by
        obtain ⟨-, q, ⟨⟩, other, -⟩ := given
        exact other
      refine (get_decides other).bind fun v => (toNumber?_decides And.right).bind fun x => ?_
      refine .pure fun given => ?_
      obtain ⟨y, rfl⟩ := given.2
      exact ⟨p, _, rfl, other given.1.1⟩
    next none => exact .pure fun ⟨_, q, same, _⟩ => (none q same).elim
  refine withLength.bind fun found => ?_
  split
  next o length =>
    have separator {Q : Prop} : Decides s Q (separator? (argument [] 0)) fun text =>
        ∃ t, text = some t := .pure fun _ => ⟨",", rfl⟩
    refine separator.bind fun separator => ?_
    split
    · refine (withinLimit_decides length).bind fun within => ?_
      split
      next none =>
        refine .pure fun given => ?_
        rw [given.2] at none
        cases none
      next =>
        refine (elementTexts?_decides (fun given => ?_) _ _).bind fun texts => ?_
        · obtain ⟨⟨⟨-, p, n, ⟨⟩, other⟩, -⟩, -⟩ := given
          exact other
        · split
          · exact .pure fun _ => ⟨rfl, rfl⟩
          next none => exact .pure fun ⟨_, t, same⟩ => (none t same).elim
    next none => exact .pure fun ⟨_, t, same⟩ => (none t same).elim
  next none => exact .pure fun ⟨_, o, n, same, _⟩ => (none o n same).elim

theorem errorToString_decides (definite : P → this.isDefinite = true) (arguments : List Value) :
    Decides s P (errorToString this arguments) Value.IsPrimitive := by
  unfold errorToString
  split
  · exact .pure fun given => nomatch definite given
  next o =>
    have text {Q : Prop} (given : Q → P) (name default : String) :
        Decides s Q (textOr? o name default) fun text => ∃ t, text = some t := by
      refine (get_decides fun h => of_decide_eq_true (definite (given h))).bind fun v => ?_
      split
      · exact .pure fun _ => ⟨_, rfl⟩
      · exact toText?_decides And.right
    refine (text id ..).bind fun name => (text And.left ..).bind fun message => ?_
    split
    · exact .pure fun _ => ⟨rfl, rfl⟩
    next none =>
      refine .pure fun ⟨⟨_, n, hn⟩, m, hm⟩ => ?_
      exact (none n m hn hm).elim
  · exact .throw _

/-! ## Functions that names stand for -/

variable (harmless : P → ∀ v ∈ arguments, v.isHarmless = true)

include harmless

theorem testNumber_decides (this : Value) (p : Float → Bool) :
    Decides s P (testNumber p this arguments) Value.IsPrimitive := by
  refine (toNumber?_decides fun given => ?_).bind fun x => .pure fun given => ?_
  · exact Value.isDefinite_of_isHarmless (isHarmless_argument (harmless given) 0)
  · obtain ⟨-, y, rfl⟩ := given
    exact ⟨rfl, rfl⟩

omit [Natives] [DecidingNatives s] in
theorem objectCall_decides (this : Value) :
    Decides s P (objectCall this arguments) fun v => v.isHarmless = true := by
  unfold objectCall
  extract_lets v
  have given (h : P) : v.isHarmless = true := isHarmless_argument (harmless h) 0
  split
  · refine (Decides.create fun _ => ObjectRecord.fresh_plainRecord).bind fun o => ?_
    exact .pure fun given => Value.isHarmless_of_new given.2
  · refine (wrap_decides fun h => Value.isDefinite_of_isHarmless (given h)).gives ?_
    exact fun h w hw => hw.2 (given h)

theorem testOwn_decides (definite : this.isDefinite = true) (p : Option Descriptor → Bool) :
    Decides s P (testOwn p this arguments) Value.IsPrimitive := by
  refine (toText?_decides fun given => ?_).bind fun text => ?_
  · exact Value.isDefinite_of_isHarmless (isHarmless_argument (harmless given) 0)
  · split
    · exact .pure fun ⟨_, t, same⟩ => nomatch same
    · refine (toObject?_decides fun _ => definite).bind fun o => ?_
      split
      · exact (Decides.object _).bind fun _ => .pure fun _ => ⟨rfl, rfl⟩
      · exact .pure fun ⟨_, q, same, _⟩ => nomatch same

theorem arrayOf_decides (this : Value) :
    Decides s P (arrayOf this arguments) fun v => v.isHarmless = true := by
  unfold arrayOf
  split
  next x =>
    have created : Decides s P (do
        let o ← createArray []
        put o "length" (.number x) true
        return .object o : Op Value) fun v => v.isHarmless = true := by
      refine (Decides.create fun _ level => ObjectRecord.fresh_arrayRecord level (by simp)).bind
        fun o => ?_
      refine (put_decides (fun given => ⟨.inr ⟨given.2, rfl⟩, rfl⟩) true).bind fun _ => ?_
      exact .pure fun given => Value.isHarmless_of_new given.1.2
    exact .join (R := fun _ => True) (.throw _) (fun _ => created.of And.left) created
  · refine .pure fun given => ?_
    cases harmless given .unknown List.mem_cons_self
  · refine (Decides.create fun given level => ?_).map fun o _ new => Value.isHarmless_of_new new
    exact ObjectRecord.fresh_arrayRecord level fun v hv =>
      Value.isDefinite_of_isHarmless (harmless given v hv)

omit [Natives] [DecidingNatives s] in
theorem booleanCall_decides (this : Value) :
    Decides s P (booleanCall this arguments) Value.IsPrimitive := by
  refine .pure fun given => ?_
  obtain ⟨b, known⟩ := Value.exists_toBool?
    (Value.isDefinite_of_isHarmless (isHarmless_argument (harmless given) 0))
  rw [known]
  exact ⟨rfl, rfl⟩

theorem numberCall_decides (this : Value) :
    Decides s P (numberCall this arguments) Value.IsPrimitive := by
  unfold numberCall
  split
  · exact .pure fun _ => ⟨rfl, rfl⟩
  · refine (toNumber?_decides fun given => ?_).bind fun x => .pure fun given => ?_
    · exact Value.isDefinite_of_isHarmless (harmless given _ List.mem_cons_self)
    · obtain ⟨-, y, rfl⟩ := given
      exact ⟨rfl, rfl⟩

theorem stringCall_decides (this : Value) :
    Decides s P (stringCall this arguments) Value.IsPrimitive := by
  unfold stringCall
  split
  · exact .pure fun _ => ⟨rfl, rfl⟩
  · refine (toText?_decides fun given => ?_).bind fun x => .pure fun given => ?_
    · exact Value.isDefinite_of_isHarmless (harmless given _ List.mem_cons_self)
    · obtain ⟨-, y, rfl⟩ := given
      exact ⟨rfl, rfl⟩

theorem createError_decides (this : Value) {prototype : Intrinsic} (other : prototype ≠ .global) :
    Decides s P (createError prototype this arguments) fun v => v.isHarmless = true := by
  have created : Decides s P (createObject .error (some prototype.id) : Op ObjectId) fun o =>
      core.objects.size ≤ o.index :=
    .create fun _ level => ObjectRecord.fresh_passive rfl rfl other rfl rfl
  refine created.bind fun o => ?_
  split
  · exact .pure fun given => Value.isHarmless_of_new given.2
  next message _ =>
    refine (toText?_decides fun given => ?_).bind fun text => ?_
    · exact Value.isDefinite_of_isHarmless (isHarmless_argument (harmless given.1) 0)
    · refine (define_decides (fun given => ⟨.inr ⟨given.1.2, rfl⟩, ?_⟩) true).bind fun _ => ?_
      · obtain ⟨-, t, rfl⟩ := given
        exact ⟨rfl, rfl⟩
      · exact .pure fun given => Value.isHarmless_of_new given.1.1.2

end

end Builtin

/-! ## All core functions -/

section

variable [Natives] [DecidingNatives s]

open Builtin

/-- The core functions that convert objects give definite values. -/
theorem CoreFunction.convert_decides {f : CoreFunction} (conversion : f.isConversion = true)
    {o : ObjectId} (other : P → o ≠ globalObject) :
    Decides s P (f.run (.object o) []) fun v => v.isDefinite = true := by
  have definite (given : P) : (Value.object o).isDefinite = true := decide_eq_true (other given)
  have primitive {op : Op Value} (h : Decides s P op Value.IsPrimitive) :
      Decides s P op fun v => v.isDefinite = true :=
    h.gives fun _ _ hv => Value.isDefinite_of_isHarmless (Value.isHarmless_of_isPrimitive hv)
  cases f <;> try cases conversion
  case objectToString => exact primitive (objectToString_decides definite [])
  case objectValueOf => exact (wrap_decides definite).gives fun _ _ hv => hv.1
  case functionToString => exact primitive (functionToString_decides definite [])
  case arrayToString => exact primitive (join_decides definite)
  case booleanToString => exact primitive (booleanToString_decides definite [])
  case booleanValueOf | numberValueOf | stringValueOf =>
    exact primitive (valueOf_decides definite (by decide) [])
  case numberToString => exact primitive (numberToString_decides definite)
  case errorToString => exact primitive (errorToString_decides definite [])

/-- The core functions that names stand for give harmless values. -/
theorem CoreFunction.run_decides {f : CoreFunction} (isHarmless : f.isHarmless = true)
    {arguments : List Value} (harmless : P → ∀ v ∈ arguments, v.isHarmless = true) :
    Decides s P (f.run .undefined arguments) fun v => v.isHarmless = true := by
  have primitive {op : Op Value} (h : Decides s P op Value.IsPrimitive) :
      Decides s P op fun v => v.isHarmless = true :=
    h.gives fun _ _ hv => Value.isHarmless_of_isPrimitive hv
  have undefined : Value.undefined.isDefinite = true := rfl
  cases f <;> try cases isHarmless
  case isNaN | isFinite => exact primitive (testNumber_decides harmless .undefined _)
  case objectCall => exact objectCall_decides harmless .undefined
  case objectToString => exact primitive (objectToString_decides (fun _ => undefined) arguments)
  case objectValueOf => exact (wrap_decides fun _ => rfl).gives fun _ _ hv => hv.2 rfl
  case hasOwnProperty | propertyIsEnumerable => exact primitive (testOwn_decides harmless rfl _)
  case isPrototypeOf => exact primitive (isPrototypeOf_decides rfl)
  case arrayConstruct => exact arrayOf_decides harmless .undefined
  case booleanCall => exact primitive (booleanCall_decides harmless .undefined)
  case numberCall => exact primitive (numberCall_decides harmless .undefined)
  case stringCall => exact primitive (stringCall_decides harmless .undefined)
  case error prototype => exact createError_decides harmless .undefined (of_decide_eq_true isHarmless)

end

namespace Native

theorem enterNative_decides {P : Prop} (f : Native) (this : Value) (arguments : List Value) :
    Decides s P (modify (·.enterNative f this arguments) : Op Unit) fun _ => True :=
  .modify (fun _ => rfl) fun _ _ definite => { definite with }

/-- Native functions decide, however deep they run each other. -/
theorem convert_decides {f : Native} {o : ObjectId} (depth : Nat) : Decides s
    ((∃ g : CoreFunction, f = .core g ∧ g.isConversion = true) ∧ o ≠ globalObject)
    (callWithin depth f (.object o) []) fun v => v.isDefinite = true := by
  induction depth generalizing f o with
  | zero => exact .throw _
  | succ depth ih =>
    let natives : Natives := ⟨callWithin depth⟩
    have quiet : QuietNatives := ⟨isQuiet_callWithin depth⟩
    have deciding : DecidingNatives s := { quiet with convert := fun _ _ => ih }
    by_cases h : ∃ g : CoreFunction, f = .core g ∧ g.isConversion = true
    · obtain ⟨g, rfl, conversion⟩ := h
      exact (enterNative_decides ..).bind fun _ => CoreFunction.convert_decides conversion (·.1.2)
    · exact .absurd (isQuiet_callWithin (depth + 1) f ..).reports fun given => h given.1

instance : DecidingNatives s := ⟨fun _ _ => convert_decides nestingLimit⟩

/-- A core function that a name stands for gives a harmless value. -/
theorem call_decides {f : CoreFunction} (isHarmless : f.isHarmless = true) {arguments : List Value}
    (harmless : P → ∀ v ∈ arguments, v.isHarmless = true) :
    Decides s P ((Native.core f).call .undefined arguments) fun v => v.isHarmless = true := by
  let natives : Natives := ⟨callWithin 9999⟩
  have quiet : QuietNatives := ⟨isQuiet_callWithin 9999⟩
  have deciding : DecidingNatives s := { quiet with convert := fun _ _ => convert_decides 9999 }
  exact (enterNative_decides ..).bind fun _ => CoreFunction.run_decides isHarmless (harmless ·.1)

end Native

end AbstractScript
