import AbstractScript.Evaluation.Statement
import AbstractScript.Proofs.LawfulFunctions

/-!
# Rules are lawful

Rule by rule: if the parts of a rule are lawful, then the rule is lawful, at the sum of what the
parts cost. Of a part that is evaluated once more as something that may or may not happen the cost
counts again.
-/
namespace AbstractScript

open Eval World

variable {L : Law} {w : World} {a b c d k t u : Nat}

/-! ## Expressions -/

namespace Rule

/-- A property name is a text, or it is unknown and any fault of the conversion is reported. -/
theorem lawful_propertyName {key : Value} (hkey : w.Holds key) :
    (propertyName key).Lawful L c w := by
  refine .bind (.lift (.attempt (Op.lawful_toText? hkey))) fun _ name _ => ?_
  split
  · exact .free _
  · exact .bind (.lift (.of_unmoved (reportError_unmoved _))) fun _ _ _ => .free _

/-- What a base and a name refer to holds no more than the base. -/
theorem lawful_propertyOf {base : Value} (hbase : w.Holds base) (name : Option String) :
    (propertyOf base name).Lawful L c w := by
  unfold propertyOf
  split
  · exact .bind (.lift (.of_unmoved (reportError_unmoved _))) fun _ _ _ => .pure trivial
  · split
    · exact .pure hbase
    · exact .pure trivial

/-- A member costs what its object costs. -/
theorem lawful_memberReference {x : Run Completion} (hx : x.Lawful L c w) (name : String) :
    (memberReference x name).Lawful L c w :=
  .bind_free (.value hx) fun _ _ hbase => lawful_propertyOf hbase _

/-- An index costs what its object and its key cost. -/
theorem lawful_indexReference {x key : Run Completion} (hx : x.Lawful L c w)
    (hkey : key.Lawful L d w) : (indexReference x key).Lawful L (c + d) w := by
  refine .bind_add (.value hx) fun grows base hbase => ?_
  refine .bind_free (.value (hkey.grow grows)) fun more key hkey => ?_
  refine .bind (lawful_propertyName hkey) fun last name _ => ?_
  exact lawful_propertyOf ((more.trans last).lift hbase) name

/-- To read a reference costs nothing beyond finding it. -/
theorem lawful_read {r : Rule Reference} (hr : r.Lawful L c w) : (read r).Lawful L c w :=
  .bind_free hr fun _ _ hr => .bind (.native (Op.lawful_getValue hr)) fun _ _ hv => .pure hv

/-! ### Literals -/

/-- A gap in an array literal costs nothing. -/
theorem lawful_elements_none {xs : List (Option (Run Completion))}
    (h : (elements xs).Lawful L c w) : (elements (none :: xs)).Lawful L c w :=
  .bind_free h fun _ _ hvs => .pure (List.forall_mem_cons.2 ⟨trivial, hvs⟩)

/-- An element of an array literal costs what its expression costs. -/
theorem lawful_elements_some {x : Run Completion} {xs : List (Option (Run Completion))}
    (hx : x.Lawful L c w) (h : (elements xs).Lawful L d w) :
    (elements (some x :: xs)).Lawful L (c + d) w :=
  .bind_add (.value hx) fun grows _ hv => .bind_free (h.grow grows) fun more _ hvs =>
    .pure (List.forall_mem_cons.2 ⟨more.lift hv, hvs⟩)

/-- An array literal costs what its elements cost, and the array holds their values. -/
theorem lawful_arrayLiteral {xs : List (Option (Run Completion))}
    (h : (elements xs).Lawful L c w) : (arrayLiteral xs).Lawful L c w := by
  refine .bind_free h fun {w'} _ vs hvs => ?_
  have filled : w'.Holds (vs.map (·.getD .undefined)) := by
    intro v hv
    obtain ⟨x, hx, rfl⟩ := List.mem_map.1 hv
    exact holds_getD (hvs x hx) trivial
  refine .bind (.lift (lawful_createArray filled)) fun _ o ho => ?_
  refine .bind (.forM (Unlocated.holds _ _) fun _ name _ _ => ?_) fun grows _ _ => ?_
  · exact .bind (.native (Op.lawful_delete ..)) fun _ _ _ => .pure trivial
  · exact .pure (grows.lift ho)

/-- A property with a value costs what the value costs. -/
theorem lawful_valueProperty {x : Run Completion} (hx : x.Lawful L c w) :
    (valueProperty x).Lawful L c w :=
  .bind_free (.value hx) fun _ _ hv => .pure (Definition.holds_plain hv)

/-- A getter is a new function, and costs nothing until it is called. -/
theorem lawful_getterProperty {code : FunctionCode} (hcode : w.Holds code) :
    (getterProperty code).Lawful L c w := by
  refine .get_bind_at fun m valid grows => Rule.Lawful.at_machine ?_ valid
  refine .bind (.lift (lawful_createScript (grows.lift hcode) valid.holds_lexicalEnv)) ?_
  intro _ _ f hf
  refine .pure (Definition.holds_withConfigurable (Definition.holds_withEnumerable ?_ _) _)
  exact Definition.holds_withGetter Definition.holds_empty hf

/-- So is a setter. -/
theorem lawful_setterProperty {code : FunctionCode} (hcode : w.Holds code) :
    (setterProperty code).Lawful L c w := by
  refine .get_bind_at fun m valid grows => Rule.Lawful.at_machine ?_ valid
  refine .bind (.lift (lawful_createScript (grows.lift hcode) valid.holds_lexicalEnv)) ?_
  intro _ _ f hf
  refine .pure (Definition.holds_withConfigurable (Definition.holds_withEnumerable ?_ _) _)
  exact Definition.holds_withSetter Definition.holds_empty hf

/-- The entries of an object literal define properties of every object that there is. -/
structure PropertiesLawful (L : Law) (cost : Nat) (w : World) (ps : List Property) : Prop where
  run : ∀ {w' o}, w.Grows w' → w'.Holds o →
    Rule.Lawful L cost w' (ps.forM fun (name, definition) => do
      let d ← definition
      let _ ← native (Op.define o name d false))

/-- An object literal without properties costs nothing. -/
theorem PropertiesLawful.nil : PropertiesLawful L 0 w [] := ⟨fun _ _ => .pure trivial⟩

/-- Each property adds its cost. -/
theorem PropertiesLawful.cons {p : Property} {ps : List Property} (hp : p.2.Lawful L c w)
    (h : PropertiesLawful L d w ps) : PropertiesLawful L (c + d) w (p :: ps) where
  run grows ho := by
    refine .bind_add (.bind_free (hp.grow grows) fun more d hd => ?_) fun more _ _ => ?_
    · exact .bind (.native (Op.lawful_define (more.lift ho) hd)) fun _ _ _ => .pure trivial
    · exact h.run (grows.trans more) (more.lift ho)

/-- An object literal costs what its properties cost, and the object holds what they define. -/
theorem lawful_objectLiteral {ps : List Property} (h : PropertiesLawful L c w ps) :
    (objectLiteral ps).Lawful L c w :=
  .bind (.lift lawful_createPlain) fun grows _ ho => .bind_free (h.run grows ho) fun more _ _ =>
    .pure (more.lift ho)

/-! ### Operators -/

/-- The type of what a reference stands for costs what it costs to find the reference. -/
theorem lawful_typeOfReference {r : Rule Reference} (hr : r.Lawful L c w) :
    (typeOfReference r).Lawful L c w := by
  refine .bind_free hr fun _ r hr => ?_
  split
  · exact .pure trivial
  · exact .bind (.native (Op.lawful_getValue hr)) fun _ v _ =>
      .bind (.native (Op.lawful_typeOf v)) fun _ _ hv => .pure hv

/-- A deletion that may or may not happen stores an unknown value, which is lawful as well. -/
theorem lawful_deleteProperty {o : ObjectId} (ho : w.Holds o) (name : String) :
    (deleteProperty o name).Lawful L c w := by
  refine .get_bind fun m => .bind (.object o) fun grows record _ => ?_
  split
  · refine .bind (.object o) fun more record _ => ?_
    have ho := (grows.trans more).lift ho
    exact .join (Op.lawful_put ho trivial) (fun _ _ _ => .pure trivial) (.pure trivial)
  · exact .bind (Op.lawful_delete ..) fun _ _ _ => .pure trivial

/-- What a reference refers to may be deleted, be it a property or a binding. -/
theorem lawful_deleteReference {r : Reference} (hr : w.Holds r) :
    (deleteReference r).Lawful L c w := by
  have base : w.Holds r.base := hr
  unfold deleteReference
  split
  next => exact .pure trivial
  next => exact .pure trivial
  next => exact .pure trivial
  next o found =>
    rw [found] at base
    exact lawful_deleteProperty base _
  next => exact .pure trivial
  next => exact .bind (Op.lawful_deleteBinding ..) fun _ _ _ => .pure trivial

/-- An operator with one operand costs what its operand costs, be that a reference or a value. -/
theorem lawful_unary (operator : UnaryOperator) (isTarget : Bool) {r : Rule Reference}
    {x : Run Completion} (hr : r.Lawful L c w) (hx : x.Lawful L c w) :
    (unary operator isTarget r x).Lawful L c w := by
  cases operator
  case delete =>
    simp only [unary]
    split
    · exact .bind_free hr fun _ _ hr => .bind (.native (lawful_deleteReference hr)) fun _ _ hv =>
        .pure hv
    · exact .bind_free (.value hx) fun _ _ _ => .pure trivial
  case typeOf =>
    simp only [unary]
    split
    · exact lawful_typeOfReference hr
    · exact .bind_free (.value hx) fun _ v _ => .bind (.native (Op.lawful_typeOf v)) fun _ _ hv =>
        .pure hv
  case void => exact .bind_free (.value hx) fun _ _ _ => .pure trivial
  case logicalNot => exact .bind_free (.value hx) fun _ _ _ => .pure (Value.holds_ofBool? _)
  case minus | plus | bitwiseNot =>
    exact .bind_free (.value hx) fun _ _ hv =>
      .bind (.native (Op.lawful_numericUnary _ hv)) fun _ _ hv => .pure hv

/-- An update reads and writes one reference, which is found once. -/
theorem lawful_update (operator : UpdateOperator) (leading : Bool) {r : Rule Reference}
    (hr : r.Lawful L c w) : (update operator leading r).Lawful L c w := by
  refine .bind_free hr fun _ r hr => .bind (.native (Op.lawful_getValue hr)) fun grows v hv => ?_
  have hr := grows.lift hr
  refine .bind (.native (Op.lawful_toNumber? hv)) fun grows x _ => ?_
  split
  · exact .pure trivial
  · refine .bind (.native (Op.lawful_putValue (grows.lift hr) trivial)) fun _ _ _ => ?_
    exact .pure trivial

/-- An operator costs what its two operands cost. -/
theorem lawful_binary (operator : BinaryOperator) {x y : Run Completion} (hx : x.Lawful L c w)
    (hy : y.Lawful L d w) : (binary operator x y).Lawful L (c + d) w :=
  .bind_add (.value hx) fun grows _ ha => .bind_free (.value (hy.grow grows)) fun more _ hb =>
    .bind (.native (Op.lawful_apply operator (more.lift ha) hb)) fun _ _ hv => .pure hv

/-- An assignment to a reference that is found costs what its value costs. -/
theorem lawful_assigned (operator : AssignmentOperator) {r : Reference} {x : Run Completion}
    (hr : w.Holds r) (hx : x.Lawful L c w) : (assigned operator r x).Lawful L c w := by
  cases operator with
  | assign => exact .value hx
  | compound operator =>
    refine .bind (.native (Op.lawful_getValue hr)) fun grows old hold => ?_
    refine .bind_free (.value (hx.grow grows)) fun more v hv => ?_
    exact .native (Op.lawful_apply operator (more.lift hold) hv)

/-- An assignment costs what its target and its value cost. -/
theorem lawful_assignment (operator : AssignmentOperator) {r : Rule Reference}
    {x : Run Completion} (hr : r.Lawful L c w) (hx : x.Lawful L d w) :
    (assignment operator r x).Lawful L (c + d) w := by
  refine .bind_add hr fun grows r hr => ?_
  refine .bind_free (lawful_assigned operator hr (hx.grow grows)) fun more v hv => ?_
  exact .bind (.native (Op.lawful_putValue (more.lift hr) hv)) fun last _ _ =>
    .pure (last.lift hv)

/-- A logical operator costs what both operands cost, though the second may be skipped. -/
theorem lawful_logical (operator : LogicalOperator) (span leftSpan : Span) {x y : Run Completion}
    (hx : x.Lawful L c w) (hy : y.Lawful L d w) :
    (logical operator span leftSpan x y).Lawful L (c + d) w := by
  refine .bind_add (.value hx) fun grows v hv => ?_
  have hy := hy.grow grows
  split
  · split
    · exact .pure hv
    · exact .bind_free (.value hy) fun _ _ hv => .pure hv
  · refine .bind (.lift (.of_unmoved (markUnknown_unmoved leftSpan))) fun grows _ _ => ?_
    exact .bind_free (.lift (lawful_ambiguously span (hy.grow grows))) fun _ _ _ => .pure trivial

/-- Both branches of a conditional count, as both are evaluated when the test is unknown. -/
theorem lawful_conditional (span testSpan : Span) {test x y : Run Completion}
    (htest : test.Lawful L t w) (hx : x.Lawful L c w) (hy : y.Lawful L d w) :
    (conditional span testSpan test x y).Lawful L (t + (c + d)) w := by
  refine .bind_add (.value htest) fun grows v _ => ?_
  have hx := hx.grow grows
  have hy := hy.grow grows
  split
  · exact .lift (hx.mono (Nat.le_add_right c d))
  · exact .lift (hy.mono (Nat.le_add_left d c))
  · refine .bind (.lift (.of_unmoved (markUnknown_unmoved testSpan))) fun grows _ _ => ?_
    refine .bind_free (.lift (lawful_ambiguously span ?_)) fun _ _ _ => .pure trivial
    exact (hx.grow grows).bind_add fun more _ _ => (hy.grow grows).grow more

/-- Each operand of a list adds its cost. -/
theorem lawful_values_cons {x : Run Completion} {xs : List (Run Completion)}
    (hx : x.Lawful L c w) (h : (values xs).Lawful L d w) :
    (values (x :: xs)).Lawful L (c + d) w :=
  .bind_add (.value hx) fun grows _ hv => .bind_free (h.grow grows) fun more _ hvs =>
    .pure (List.forall_mem_cons.2 ⟨more.lift hv, hvs⟩)

/-- A sequence costs what its expressions cost, and gives the last value. -/
theorem lawful_sequence {xs : List (Run Completion)} (h : (values xs).Lawful L c w) :
    (sequence xs).Lawful L c w := by
  refine .bind_free h fun {w'} _ vs hvs => .pure ?_
  show w'.Holds (vs.getLastD .undefined)
  rw [List.getLastD_eq_getLast?]
  refine holds_getD ?_ trivial
  cases last : vs.getLast? with
  | none => trivial
  | some v => exact hvs v (List.mem_of_getLast? last)

/-! ### Calls -/

/-- The receiver of a call is held by the reference or by the environment it is found in. -/
theorem lawful_receiver {r : Reference} (hr : w.Holds r) : (receiver r).Lawful L c w := by
  have base : w.Holds r.base := hr
  unfold receiver
  split
  next e _ =>
    exact .get_bind_at fun _ valid _ => .of_ok rfl (.refl valid) (valid.holds_implicitThis e)
  next =>
    refine .pure ?_
    unfold Reference.thisValue
    split
    next v found =>
      rw [found] at base
      exact base
    next => trivial
    next => trivial

/-- A callee costs what it costs to find it, as a reference or as a value. -/
theorem lawful_callee (isTarget : Bool) {r : Rule Reference} {x : Run Completion}
    (hr : r.Lawful L c w) (hx : x.Lawful L c w) : (callee isTarget r x).Lawful L c w := by
  unfold callee
  split
  · refine .bind_free hr fun _ r hr => .bind (.native (Op.lawful_getValue hr)) fun grows f hf => ?_
    exact .bind (lawful_receiver (grows.lift hr)) fun more _ hthis => .pure ⟨more.lift hf, hthis⟩
  · exact .bind_free (.value hx) fun _ _ hf => .pure ⟨hf, trivial⟩

/-- A call costs what its parts cost and what a call of a function of the program costs. -/
theorem lawful_call {script : ScriptCall} {text : String} {callee : Rule (Value × Value)}
    {arguments : List (Run Completion)} (calls : script.Lawful L k w)
    (hcallee : callee.Lawful L c w) (harguments : (values arguments).Lawful L d w) :
    (call script text callee arguments).Lawful L (c + (d + k)) w := by
  refine .bind_add hcallee fun grows target htarget => ?_
  obtain ⟨f, this⟩ := target
  refine .bind_add (harguments.grow grows) fun more vs hvs => ?_
  have calls := calls.grow (grows.trans more)
  have htarget := more.lift htarget
  split
  · exact .pure trivial
  · split
    next o _ _ =>
      refine .bind (.lift (.object o)) fun last record _ => ?_
      have htarget := last.lift htarget
      split
      · exact .lift (lawful_callFunction (calls.grow last) htarget.1 htarget.2 (last.lift hvs))
      · exact .native (.throw _)
    next => exact .native (.throw _)

/-- A construction costs its callee, its arguments and the call. -/
theorem lawful_new {script : ScriptCall} {text : String} {callee : Run Completion}
    {arguments : List (Run Completion)} (calls : script.Lawful L k w)
    (hcallee : callee.Lawful L c w) (harguments : (values arguments).Lawful L d w) :
    (new script text callee arguments).Lawful L (c + (d + k)) w := by
  refine .bind_add (.value hcallee) fun grows f hf => ?_
  refine .bind_add (harguments.grow grows) fun more vs hvs => ?_
  have calls := calls.grow (grows.trans more)
  have hf := more.lift hf
  split
  · exact .pure trivial
  · split
    next o _ _ =>
      refine .bind (.lift (.object o)) fun last record _ => ?_
      split
      · exact .lift (lawful_construct (calls.grow last) (last.lift hf) (last.lift hvs))
      · exact .native (.throw _)
    next => exact .native (.throw _)

end Rule

end AbstractScript
