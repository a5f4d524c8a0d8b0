import AbstractScript.Value

/-!
# Property descriptors

A property is a value with a writable flag, or a pair of accessor functions; both kinds can be
enumerable and configurable. A definition is a descriptor of which only some fields are given.
-/
namespace AbstractScript

/-- A property. -/
inductive Descriptor where
  | data (value : Value) (writable enumerable configurable : Bool)
  | accessor (getter setter : Option ObjectId) (enumerable configurable : Bool)
  deriving DecidableEq, Repr, Inhabited

namespace Descriptor

/-- True for a property that holds a value. -/
def isData : Descriptor → Bool
  | data .. => true
  | accessor .. => false

/-- True for a property that is listed. -/
def isEnumerable : Descriptor → Bool
  | data _ _ e _ => e
  | accessor _ _ e _ => e

/-- True for a property that can be removed or defined anew. -/
def isConfigurable : Descriptor → Bool
  | data _ _ _ c => c
  | accessor _ _ _ c => c

/-- True for a property whose value can be replaced. -/
def isWritable : Descriptor → Bool
  | data _ w _ _ => w
  | accessor .. => false

/-- Sets the enumerable flag. -/
def withEnumerable (e : Bool) : Descriptor → Descriptor
  | data v w _ c => data v w e c
  | accessor g s _ c => accessor g s e c

/-- Sets the configurable flag. -/
def withConfigurable (c : Bool) : Descriptor → Descriptor
  | data v w e _ => data v w e c
  | accessor g s e _ => accessor g s e c

/-- A data property without a value yet, with the flags of another property. -/
def blankData (d : Descriptor) : Descriptor :=
  data .undefined false d.isEnumerable d.isConfigurable

/-- An accessor property without functions yet, with the flags of another property. -/
def blankAccessor (d : Descriptor) : Descriptor :=
  accessor none none d.isEnumerable d.isConfigurable

/-- The property as a data property. -/
def asData : Descriptor → Descriptor
  | d@(data ..) => d
  | d => d.blankData

/-- The property as an accessor property. -/
def asAccessor : Descriptor → Descriptor
  | d@(accessor ..) => d
  | d => d.blankAccessor

/-- Replaces the value of a data property. -/
def setValue (v : Value) : Descriptor → Descriptor
  | data _ w e c => data v w e c
  | d => d

/-- Replaces the writable flag of a data property. -/
def setWritable (w : Bool) : Descriptor → Descriptor
  | data v _ e c => data v w e c
  | d => d

/-- Replaces the getter of an accessor property. -/
def setGetter (g : Option ObjectId) : Descriptor → Descriptor
  | accessor _ s e c => accessor g s e c
  | d => d

/-- Replaces the setter of an accessor property. -/
def setSetter (s : Option ObjectId) : Descriptor → Descriptor
  | accessor g _ e c => accessor g s e c
  | d => d

/-- Equal descriptors, values being compared as the same value. -/
def same : Descriptor → Descriptor → Bool
  | data v w e c, data v' w' e' c' => v.same v' && w == w' && e == e' && c == c'
  | accessor g s e c, accessor g' s' e' c' => g == g' && s == s' && e == e' && c == c'
  | _, _ => false

/-- A property as plain assignment creates it. -/
def plain (v : Value) : Descriptor := data v true true true

/-- A writable and configurable property that is not listed, as methods of built-in objects are. -/
def hidden (v : Value) : Descriptor := data v true false true

/-- A property that never changes and is not listed. -/
def fixed (v : Value) : Descriptor := data v false false false

end Descriptor

/-- The definition of a property: a descriptor, and which of its fields are given. -/
structure Definition where
  hasValue : Bool := false
  hasWritable : Bool := false
  hasGetter : Bool := false
  hasSetter : Bool := false
  hasEnumerable : Bool := false
  hasConfigurable : Bool := false
  descriptor : Descriptor := .data .undefined false false false
  deriving DecidableEq, Repr

namespace Definition

/-- The definition that gives nothing. -/
def empty : Definition := {}

/-- The definition that gives every field of a descriptor. -/
def ofDescriptor (d : Descriptor) : Definition where
  hasValue := d.isData
  hasWritable := d.isData
  hasGetter := !d.isData
  hasSetter := !d.isData
  hasEnumerable := true
  hasConfigurable := true
  descriptor := d

/-- Gives a value. -/
def withValue (v : Value) (d : Definition) : Definition :=
  { d with hasValue := true, descriptor := d.descriptor.asData.setValue v }

/-- Gives the writable flag. -/
def withWritable (w : Bool) (d : Definition) : Definition :=
  { d with hasWritable := true, descriptor := d.descriptor.asData.setWritable w }

/-- Gives the getter. -/
def withGetter (g : Option ObjectId) (d : Definition) : Definition :=
  { d with hasGetter := true, descriptor := d.descriptor.asAccessor.setGetter g }

/-- Gives the setter. -/
def withSetter (s : Option ObjectId) (d : Definition) : Definition :=
  { d with hasSetter := true, descriptor := d.descriptor.asAccessor.setSetter s }

/-- Gives the enumerable flag. -/
def withEnumerable (e : Bool) (d : Definition) : Definition :=
  { d with hasEnumerable := true, descriptor := d.descriptor.withEnumerable e }

/-- Gives the configurable flag. -/
def withConfigurable (c : Bool) (d : Definition) : Definition :=
  { d with hasConfigurable := true, descriptor := d.descriptor.withConfigurable c }

/-- Gives a value and nothing else, as an assignment to an existing property does. -/
def value (v : Value) : Definition := empty.withValue v

/-- Gives a value and all flags, as an assignment to a new property does. -/
def plain (v : Value) : Definition := ofDescriptor (.plain v)

/-- True if nothing is given. -/
def isEmpty (d : Definition) : Bool :=
  !d.hasConfigurable && !d.hasEnumerable && !d.hasGetter && !d.hasSetter && !d.hasValue &&
    !d.hasWritable

/-- True if a value or its writable flag is given. -/
def isData (d : Definition) : Bool := d.hasValue || d.hasWritable

/-- True if a getter or a setter is given. -/
def isAccessor (d : Definition) : Bool := d.hasGetter || d.hasSetter

/-- True if neither is given. -/
def isGeneric (d : Definition) : Bool := !d.isData && !d.isAccessor

/-- The value given. -/
def value? (d : Definition) : Option Value :=
  match d.descriptor with
  | .data v .. => if d.hasValue then some v else none
  | .accessor .. => none

/-- The property that a definition creates. Flags that are not given are off, and what is not given
otherwise is undefined. -/
def complete (d : Definition) : Descriptor :=
  let e := d.hasEnumerable && d.descriptor.isEnumerable
  let c := d.hasConfigurable && d.descriptor.isConfigurable
  match d.descriptor with
  | .accessor g s .. =>
    if d.isAccessor then
      .accessor (if d.hasGetter then g else none) (if d.hasSetter then s else none) e c
    else .data .undefined false e c
  | .data v w .. => .data (if d.hasValue then v else .undefined) (d.hasWritable && w) e c

/-- A property of the same kind with every given field replaced. -/
def mergeInto (d : Definition) (base : Descriptor) : Descriptor :=
  let fields := match base, d.descriptor with
    | .data v w e c, .data v' w' .. =>
      Descriptor.data (if d.hasValue then v' else v) (if d.hasWritable then w' else w) e c
    | .accessor g s e c, .accessor g' s' .. =>
      .accessor (if d.hasGetter then g' else g) (if d.hasSetter then s' else s) e c
    | base, _ => base
  let listed := if d.hasEnumerable then fields.withEnumerable d.descriptor.isEnumerable else fields
  if d.hasConfigurable then listed.withConfigurable d.descriptor.isConfigurable else listed

end Definition

end AbstractScript
