import AbstractScript.Analysis.Run
import AbstractScript.Proofs.Quiet

/-!
# Realms in which runs begin

The intrinsic objects and the objects of a catalogue are objects of the host: no function of the
program is among them (`Realm.scriptFree_withObjects`). Without a catalogue no native function can be
called (`Realm.nativeFree_initial`). A run goes from the machine that begins with such a realm to the
one after the evaluation of the program (`Analyzer.machine_analyze`).
-/
namespace AbstractScript

/-- An object that is no function of the program. -/
def ObjectRecord.ScriptFree (r : ObjectRecord) : Prop :=
  ∀ closure, r.callable ≠ some (.script closure)

namespace Realm

/-- No object is a function of the program. -/
structure ScriptFree (r : Realm) : Prop where
  object : ∀ o, (r.object o).ScriptFree

namespace ScriptFree

variable {r : Realm}

theorem addObject (h : r.ScriptFree) {record : ObjectRecord} (new : record.ScriptFree) :
    (r.addObject record).ScriptFree := by
  refine ⟨fun o => ?_⟩
  rw [object_addObject]
  split
  · exact new
  · exact h.object o

theorem addEnvironment (h : r.ScriptFree) (e : Environment) : (r.addEnvironment e).ScriptFree :=
  ⟨h.object⟩

theorem modifyObject (h : r.ScriptFree) (o : ObjectId) {f : ObjectRecord → ObjectRecord}
    (free : ∀ record : ObjectRecord, record.ScriptFree → (f record).ScriptFree) :
    (r.modifyObject o f).ScriptFree := by
  refine ⟨fun p => ?_⟩
  rw [object_modifyObject]
  split
  · exact free _ (h.object o)
  · exact h.object p

theorem store (h : r.ScriptFree) (o : ObjectId) (name : String) (d : Descriptor) :
    (r.store o name d).ScriptFree := h.modifyObject o fun _ free => free

theorem linkPrototype (h : r.ScriptFree) (constructor prototype : ObjectId) :
    (r.linkPrototype constructor prototype).ScriptFree := (h.store ..).store ..

theorem installMethods (h : r.ScriptFree) (o : ObjectId) (methods : List (String × Native)) :
    (r.installMethods o methods).ScriptFree :=
  List.foldlRecOn methods _ h fun _ h method _ =>
    (h.addObject fun closure => by simp [functionRecord]).store ..

theorem installValues (h : r.ScriptFree) (o : ObjectId) (form : Value → Descriptor)
    (values : List (String × Value)) : (r.installValues o form values).ScriptFree :=
  List.foldlRecOn values _ h fun _ h _ _ => h.store ..

theorem installBehaviour (h : r.ScriptFree) (o : ObjectId) (b : BuiltinObject) :
    (r.installBehaviour o b).ScriptFree := by
  refine h.modifyObject o fun record free closure => ?_
  split
  · simp
  · exact free closure

theorem installPrototype (h : r.ScriptFree) (o : ObjectId) (b : BuiltinObject) :
    (r.installPrototype o b).1.ScriptFree := by
  unfold Realm.installPrototype
  split
  · exact (h.addObject fun closure => by simp [plainRecord]).linkPrototype ..
  · exact h

theorem hostRecord (b : BuiltinObject) : (Realm.hostRecord b).ScriptFree := by
  intro closure
  unfold Realm.hostRecord
  split <;> simp [functionRecord, plainRecord]

theorem installTarget (h : r.ScriptFree) (b : BuiltinObject) :
    (r.installTarget b).1.ScriptFree := by
  unfold Realm.installTarget
  split
  · exact h
  · split
    · exact (h.installBehaviour ..).store ..
    · exact ((h.addObject (hostRecord b)).store ..).installPrototype ..

theorem installObject (h : r.ScriptFree) (b : BuiltinObject) : (r.installObject b).ScriptFree := by
  have target := h.installTarget b
  unfold Realm.installObject
  refine installValues ?_ ..
  split
  · exact ((target.installMethods ..).installMethods ..).installValues ..
  · exact target.installMethods ..

theorem initial : Realm.initial.ScriptFree := by
  have bare : Realm.ScriptFree { objects := (Intrinsic.all.map intrinsicRecord).toArray } := by
    refine ⟨fun o closure => ?_⟩
    simp only [Realm.object, Array.getD_eq_getD_getElem?, List.getElem?_toArray, List.getElem?_map]
    cases Intrinsic.all[o.index]? with
    | none => simp [default]
    | some i =>
      simp only [Option.map_some, Option.getD_some, intrinsicRecord]
      split <;> simp
  rw [Realm.initial]
  refine addEnvironment ?_ _
  exact List.foldlRecOn (motive := ScriptFree) Intrinsic.constructors _ (bare.store ..)
    fun _ h pair _ => h.linkPrototype pair.1.id pair.2.id

end ScriptFree

/-- No function of the program is among the objects of a catalogue. -/
theorem scriptFree_withObjects (c : Catalogue) : (withObjects c).ScriptFree := by
  rw [withObjects, install]
  exact List.foldlRecOn c.objects _ .initial fun _ h b _ => h.installObject b

/-! ## Realms without native functions -/

/-- No native function can be called. -/
def NativeFree (r : Realm) : Prop :=
  ∀ o name call construct, (r.object o).callable = some (.native name call construct) →
    call = none ∧ construct = none

theorem inert_initial : ∀ record ∈ initial.objects.toList,
    (match record.callable with
      | some (.native _ call construct) => call.isNone && construct.isNone
      | _ => true) = true := by
  decide +kernel

/-- The intrinsic functions do nothing by themselves. -/
theorem nativeFree_initial : initial.NativeFree := by
  intro o name call construct found
  by_cases there : o.index < initial.objects.size
  · have same : initial.object o = initial.objects[o.index] := by
      simp [object, Array.getD_eq_getD_getElem?, there]
    have h := inert_initial (initial.object o) (same ▸ Array.getElem_mem_toList there)
    rw [found] at h
    simpa using h
  · rw [object_of_size_le (Nat.not_lt.1 there)] at found
    cases found

end Realm

/-- A run leaves the machine that its evaluation leaves. -/
theorem Analyzer.machine_analyze (a : Analyzer) (p : Program) :
    (a.analyze p).machine = (Eval.analyze a.unknownGlobals p).after
      { options := a.options, rules := a.rules, file := p.file, observed := a.observed }
      (.start a.realm) := by
  rw [Analyzer.analyze, Eval.after]
  cases Eval.analyze a.unknownGlobals p
    { options := a.options, rules := a.rules, file := p.file, observed := a.observed }
    (.start a.realm) <;> rfl

end AbstractScript
