import AbstractScript.Proofs.IntactReferences
import Mathlib.Data.Finset.Card

/-!
# The names that are enumerated

A `for-in` loop over an object visits the names of all properties that are found on it and that are
listed, each once: the names of nearer objects on the prototype chain come first, and those of one
object stand in the order in which they were first entered (`Realm.enumerableNames_visible`). The
chain is the whole walk along prototypes, if that ends (`Realm.chain_of_walk`).
-/
namespace AbstractScript

/-! ## Walks that end -/

namespace Walk

variable {α : Type} {next : α → Option α} {there : α → Prop} {a b : α} {l l' : List α}

/-- There is only one walk from a place. -/
theorem unique (h : Walk next there a l) (h' : Walk next there a l') : l = l' := by
  induction h generalizing l' with
  | last _ ends =>
    cases h' with
    | last => rfl
    | step _ goes => cases ends.symm.trans goes
  | step _ goes _ ih =>
    cases h' with
    | last _ ends => cases ends.symm.trans goes
    | step _ goes' later' =>
      obtain rfl := Option.some.inj (goes.symm.trans goes')
      rw [ih later']

/-- What is on a walk begins a walk of its own, which is no longer. -/
theorem exists_of_mem (h : Walk next there a l) (on : b ∈ l) :
    ∃ l', Walk next there b l' ∧ l'.length ≤ l.length := by
  induction h with
  | last here ends =>
    obtain rfl := List.mem_singleton.1 on
    exact ⟨_, .last here ends, Nat.le_refl _⟩
  | step here goes later ih =>
    rcases List.mem_cons.1 on with rfl | on
    · exact ⟨_, .step here goes later, Nat.le_refl _⟩
    · obtain ⟨l', walk, le⟩ := ih on
      exact ⟨l', walk, Nat.le_succ_of_le le⟩

theorem there_of_mem (h : Walk next there a l) (on : b ∈ l) : there b := by
  obtain ⟨_, walk, -⟩ := h.exists_of_mem on
  cases walk with
  | last here => exact here
  | step here => exact here

/-- A walk that ends meets nothing twice. -/
theorem nodup (h : Walk next there a l) : l.Nodup := by
  induction h with
  | last => exact List.nodup_singleton _
  | step here goes later ih =>
    refine List.nodup_cons.2 ⟨fun again => ?_, ih⟩
    -- a walk from there would be as long as one of its own parts
    obtain ⟨l', walk, le⟩ := later.exists_of_mem again
    rw [walk.unique (.step here goes later), List.length_cons] at le
    omega

/-- A walk is what is found in at least as many steps as it has places. -/
theorem eq_within (h : Walk next there a l) {within : Nat → Option α → List α}
    (none : ∀ steps, within steps none = [])
    (some : ∀ steps a, within (steps + 1) (some a) = a :: within steps (next a)) {steps : Nat}
    (enough : l.length ≤ steps) : within steps (.some a) = l := by
  induction h generalizing steps with
  | last _ ends =>
    obtain ⟨steps, rfl⟩ := Nat.exists_eq_succ_of_ne_zero (Nat.ne_of_gt enough)
    rw [some, ends, none]
  | step _ goes _ ih =>
    rw [List.length_cons] at enough
    obtain ⟨steps, rfl⟩ := Nat.exists_eq_succ_of_ne_zero (by omega : steps ≠ 0)
    rw [some, goes, ih (by omega)]

end Walk

namespace Realm

variable {r : Realm} {o : ObjectId} {objects : List ObjectId}

/-- The walk along the prototypes of an object, up to one that has none. There is no such walk on a
chain that is cyclic. -/
abbrev PrototypeWalk (r : Realm) (o : ObjectId) (objects : List ObjectId) : Prop :=
  Walk (fun o => (r.object o).prototype) r.HasObject o objects

/-- The table has as many objects as a walk has places. -/
theorem PrototypeWalk.length_le (walk : r.PrototypeWalk o objects) :
    objects.length ≤ r.objects.size := by
  have distinct : (objects.map ObjectId.index).Nodup :=
    walk.nodup.map fun _ _ same => ObjectId.ext same
  have inside : (objects.map ObjectId.index).toFinset ⊆ Finset.range r.objects.size := by
    intro i hi
    obtain ⟨p, on, rfl⟩ := List.mem_map.1 (List.mem_toFinset.1 hi)
    exact Finset.mem_range.2 (walk.there_of_mem on)
  have counted := Finset.card_le_card inside
  rwa [List.toFinset_card_of_nodup distinct, List.length_map, Finset.card_range] at counted

/-- The chain of an object is the walk along its prototypes. -/
theorem chain_of_walk (walk : r.PrototypeWalk o objects) : r.chain o = objects :=
  Walk.eq_within walk (fun steps => by cases steps <;> rfl) (fun _ _ => rfl) walk.length_le

end Realm

/-! ## Names that are listed -/

namespace ObjectRecord

variable {r : ObjectRecord} {name : String}

theorem mem_enumerableKeys :
    name ∈ r.enumerableKeys ↔ ∃ d, r.own? name = some d ∧ d.isEnumerable = true := by
  simp [enumerableKeys, Table.keysWhere, own?, Table.get?_eq_some_iff]

theorem nodup_enumerableKeys : r.enumerableKeys.Nodup :=
  r.nodup_keys.sublist (List.filter_sublist.map _)

/-- The listed names are among all names in the same order. -/
theorem enumerableKeys_eq_filter :
    r.enumerableKeys = r.keys.filter fun name => (r.own? name).any Descriptor.isEnumerable := by
  rw [enumerableKeys, Table.keysWhere, keys, Table.keys, List.filter_map]
  refine congrArg _ (List.filter_congr fun e listed => ?_)
  have own : r.own? e.1 = some e.2 := Table.get?_eq_some_iff.2 listed
  rw [Function.comp, own, Option.any_some]

end ObjectRecord

namespace Realm

variable {r : Realm} {o : ObjectId} {objects : List ObjectId} {seen : List String} {name : String}

/-- The names that an object on a chain contributes: those of its listed properties that none of the
nearer objects has, in the order in which they were first entered. -/
def contributed (r : Realm) (nearer : List ObjectId) (p : ObjectId) : List String :=
  (r.object p).keys.filter fun name =>
    ((r.object p).own? name).any Descriptor.isEnumerable &&
      nearer.all fun q => ((r.object q).own? name).isNone

theorem mem_visibleNames : name ∈ r.visibleNames seen objects ↔
    name ∉ seen ∧ ∃ d, r.findProperty? objects name = some d ∧ d.isEnumerable = true := by
  induction objects generalizing seen with
  | nil => simp [visibleNames, findProperty?]
  | cons p rest ih =>
    simp only [visibleNames, List.mem_append, List.mem_filter, ih, findProperty?,
      List.findSome?_cons, ObjectRecord.mem_enumerableKeys, decide_eq_true_eq, not_or,
      ← ObjectRecord.own?_eq_none_iff]
    -- a property of the object itself hides those of the objects behind it
    cases own : (r.object p).own? name with
    | none => simp
    | some d => simp [and_comm]

theorem nodup_visibleNames : (r.visibleNames seen objects).Nodup := by
  induction objects generalizing seen with
  | nil => exact List.nodup_nil
  | cons p rest ih =>
    refine List.nodup_append.2 ⟨ObjectRecord.nodup_enumerableKeys.filter _, ih, ?_⟩
    -- A later object contributes no name that this one has, enumerable or not.
    rintro name own _ later rfl
    obtain ⟨d, found, -⟩ := ObjectRecord.mem_enumerableKeys.1 (List.mem_filter.1 own).1
    obtain ⟨new, -⟩ := mem_visibleNames.1 later
    have absent := ObjectRecord.own?_eq_none_iff.2 fun listed =>
      new (List.mem_append_right _ listed)
    rw [found] at absent
    cases absent

/-- Each object contributes its names after all nearer ones. -/
theorem visibleNames_eq_contributed (nearer : List ObjectId) :
    r.visibleNames (nearer.flatMap fun q => (r.object q).keys) objects =
      objects.zipIdx.flatMap fun p => r.contributed (nearer ++ objects.take p.2) p.1 := by
  induction objects generalizing nearer with
  | nil => rfl
  | cons p rest ih =>
    have first : (r.object p).enumerableKeys.filter
        (· ∉ nearer.flatMap fun q => (r.object q).keys) = r.contributed nearer p := by
      rw [contributed, ObjectRecord.enumerableKeys_eq_filter, List.filter_filter]
      refine List.filter_congr fun name _ => ?_
      rw [Bool.and_comm]
      refine congrArg _ (Bool.eq_iff_iff.2 ?_)
      simp [ObjectRecord.own?_eq_none_iff]
    have later := ih (nearer ++ [p])
    rw [List.flatMap_append, List.flatMap_singleton] at later
    rw [visibleNames, first, later, List.zipIdx_cons, List.flatMap_cons, List.zipIdx_succ,
      List.flatMap_map]
    simp [List.append_assoc]

/-- **Enumeration gives exactly the visible names**, in order. On an object whose prototype chain
ends no name is enumerated twice; a name is if and only if the property that is found under it is
listed; the listed names of the object itself come first; and the others follow object by object
along the chain, those of one object in the order in which they were first entered. -/
theorem enumerableNames_visible (walk : r.PrototypeWalk o objects) :
    (r.enumerableNames o).Nodup ∧
      (∀ name, name ∈ r.enumerableNames o ↔
        ∃ d, r.property? o name = some d ∧ d.isEnumerable = true) ∧
      (r.object o).enumerableKeys <+: r.enumerableNames o ∧
      r.enumerableNames o =
        objects.zipIdx.flatMap fun p => r.contributed (objects.take p.2) p.1 := by
  have names : r.enumerableNames o = r.visibleNames [] objects := by
    rw [enumerableNames, chain_of_walk walk]
  -- the walk begins with the object itself
  have first : ∃ rest, objects = o :: rest := by
    cases walk with
    | last => exact ⟨[], rfl⟩
    | step => exact ⟨_, rfl⟩
  refine ⟨nodup_visibleNames, fun name => ?_, ?_, ?_⟩
  · rw [enumerableNames, mem_visibleNames, property?]
    simp
  · obtain ⟨rest, rfl⟩ := first
    rw [names, visibleNames]
    simp
  · rw [names]
    exact visibleNames_eq_contributed []

/-- An object with a hidden property and a listed one, whose prototype lists a property of the name
of the hidden one and another. -/
def shadowing : Realm where
  objects := #[
    ((default : ObjectRecord).store "a" (.plain .null)).store "b" (.plain .null),
    (({ (default : ObjectRecord) with prototype := some ⟨0⟩ }).store "a" (.hidden .null)).store "c"
      (.plain .null)]

/-- The hidden property hides that of the prototype, and the name of the nearer object comes first.
-/
theorem enumerableNames_visible_shadowing : shadowing.PrototypeWalk ⟨1⟩ [⟨1⟩, ⟨0⟩] ∧
    shadowing.enumerableNames ⟨1⟩ = ["c", "b"] ∧
    ∀ name, name ∈ shadowing.enumerableNames ⟨1⟩ ↔
      ∃ d, shadowing.property? ⟨1⟩ name = some d ∧ d.isEnumerable = true := by
  have walk : shadowing.PrototypeWalk ⟨1⟩ [⟨1⟩, ⟨0⟩] :=
    .step (Nat.lt_add_one 1) rfl (.last Nat.two_pos rfl)
  exact ⟨walk, by decide +kernel, (enumerableNames_visible walk).2.1⟩

end Realm

end AbstractScript
