import AbstractScript.Number.Numeral

/-!
# Ordered tables

A table maps names to entries and remembers the order in which the names were first entered. No
name has two entries. The entry of a name is the one that is listed under it
(`get?_eq_some_iff`); an insertion changes the entry of one name and appends a new name
(`get?_insert`, `keys_insert`); a removal takes one name out (`get?_erase`, `keys_erase`).
-/
namespace AbstractScript

/-- Entries by name, in the order in which the names were entered. -/
structure Table (α : Type) where
  entries : Array (String × α)
  /-- No name has two entries. -/
  distinct : (entries.toList.map (·.1)).Nodup
  deriving Repr

namespace Table

variable {α : Type}

/-- The table without entries. -/
def empty : Table α := ⟨#[], List.nodup_nil⟩

instance : Inhabited (Table α) := ⟨empty⟩

/-- The entries in order. -/
def toList (t : Table α) : List (String × α) := t.entries.toList

/-- The names in order. -/
def keys (t : Table α) : List String := t.toList.map (·.1)

/-- The number of entries. -/
def size (t : Table α) : Nat := t.entries.size

/-- The place of a name. -/
def indexOf? (t : Table α) (name : String) : Option Nat := t.entries.findIdx? (·.1 == name)

/-- The entry of a name. -/
def get? (t : Table α) (name : String) : Option α := (t.entries.find? (·.1 == name)).map (·.2)

/-- True if there is an entry of a name. -/
def contains (t : Table α) (name : String) : Bool := t.entries.any (·.1 == name)

theorem nodup_keys (t : Table α) : t.keys.Nodup := t.distinct

theorem mem_keys {t : Table α} {name : String} : name ∈ t.keys ↔ ∃ a, (name, a) ∈ t.toList := by
  simp [keys]

theorem indexOf?_eq_none_iff {t : Table α} {name : String} :
    t.indexOf? name = none ↔ name ∉ t.keys := by
  simp only [indexOf?, Array.findIdx?_eq_none_iff, mem_keys, toList]
  exact ⟨fun h ⟨a, ha⟩ => by simpa using h (name, a) (by simpa using ha),
    fun h e he => by simpa using fun hn => h ⟨e.2, by simpa [← hn] using he⟩⟩

/-- Replacing what stands under a name keeps the names. -/
theorem map_fst_modify (l : List (String × α)) (i : Nat) (a : α) :
    (l.modify i fun e => (e.1, a)).map (·.1) = l.map (·.1) := by
  induction l generalizing i with
  | nil => simp
  | cons e l ih => cases i <;> simp [ih]

/-- Replaces the entry of a name, or adds one at the end. -/
def insert (t : Table α) (name : String) (a : α) : Table α :=
  match h : t.indexOf? name with
  | some i =>
    ⟨t.entries.modify i fun e => (e.1, a), by
      rw [Array.toList_modify, map_fst_modify]; exact t.distinct⟩
  | none =>
    ⟨t.entries.push (name, a), by
      have new : name ∉ t.keys := indexOf?_eq_none_iff.1 h
      rw [Array.toList_push, List.map_append]
      exact List.nodup_append.2 ⟨t.distinct, by simp, by grind [keys, toList]⟩⟩

/-- Removes the entry of a name. -/
def erase (t : Table α) (name : String) : Table α :=
  ⟨t.entries.filter (·.1 != name), by
    rw [Array.toList_filter]
    exact t.distinct.sublist (List.filter_sublist.map _)⟩

/-- The names whose entries have property `p`, in order. -/
def keysWhere (t : Table α) (p : α → Bool) : List String :=
  (t.toList.filter (p ·.2)).map (·.1)

/-- Entries named by their numbers, which count from zero. -/
def indexed (as : List α) : Table α :=
  ⟨(as.mapIdx fun i a => (Nat.repr i, a)).toArray, by
    rw [List.nodup_iff_pairwise_ne, List.pairwise_iff_getElem]
    intro i j _ _ hij same
    exact absurd (Number.repr_inj.1 (by simpa using same)) (Nat.ne_of_lt hij)⟩

/-! ## Laws -/

/-- A name stands at one place. -/
theorem place_unique {t : Table α} {i j : Nat} {name : String} {a b : α}
    (hi : t.toList[i]? = some (name, a)) (hj : t.toList[j]? = some (name, b)) : i = j := by
  have key (i : Nat) : t.keys[i]? = t.toList[i]?.map (·.1) := List.getElem?_map
  exact (List.getElem?_inj (by simpa [keys] using (List.getElem?_eq_some_iff.1 hi).1)
    t.nodup_keys).1 (by simp [key, hi, hj])

/-- The entry of a name is the one that is listed under it. -/
theorem get?_eq_some_iff {t : Table α} {name : String} {a : α} :
    t.get? name = some a ↔ (name, a) ∈ t.toList := by
  simp only [get?, Option.map_eq_some_iff, Prod.exists, exists_eq_right]
  constructor
  · rintro ⟨n, found⟩
    have mem := Array.mem_of_find?_eq_some found
    have same := Array.find?_some found
    simp_all [toList]
  · intro listed
    refine ⟨name, ?_⟩
    cases found : t.entries.find? (·.1 == name) with
    | none => simpa using Array.find?_eq_none.1 found (name, a) (by simpa [toList] using listed)
    | some e =>
      have same : e.1 = name := by simpa using Array.find?_some found
      have mem : (name, e.2) ∈ t.toList := by
        simpa [toList, ← same] using Array.mem_of_find?_eq_some found
      obtain ⟨i, hi⟩ := List.mem_iff_getElem?.1 mem
      obtain ⟨j, hj⟩ := List.mem_iff_getElem?.1 listed
      rw [place_unique hi hj, hj] at hi
      obtain rfl : e.2 = a := by simpa using hi.symm
      rw [← same]

/-- A name without an entry is not among the names. -/
theorem get?_eq_none_iff {t : Table α} {name : String} : t.get? name = none ↔ name ∉ t.keys := by
  rw [mem_keys, Option.eq_none_iff_forall_ne_some]
  simp [get?_eq_some_iff]

theorem contains_iff {t : Table α} {name : String} : t.contains name = true ↔ name ∈ t.keys := by
  simp only [contains, mem_keys, Array.any_eq_true', toList]
  exact ⟨fun ⟨e, he, hn⟩ => ⟨e.2, by simpa [← eq_of_beq hn] using he⟩,
    fun ⟨a, ha⟩ => ⟨(name, a), by simpa using ha, by simp⟩⟩

/-- A replaced name keeps its place, and a new name goes to the end. -/
theorem keys_insert (t : Table α) (name : String) (a : α) :
    (t.insert name a).keys = if name ∈ t.keys then t.keys else t.keys ++ [name] := by
  unfold insert
  split
  next i h =>
    have known : name ∈ t.keys := by
      refine Decidable.byContradiction fun new => ?_
      rw [indexOf?_eq_none_iff.2 new] at h
      cases h
    rw [if_pos known]
    simp only [keys, toList, Array.toList_modify, map_fst_modify]
  next h =>
    rw [if_neg (indexOf?_eq_none_iff.1 h)]
    simp [keys, toList]

theorem mem_toList_insert {t : Table α} {name other : String} {a b : α} :
    (other, b) ∈ (t.insert name a).toList ↔
      if other = name then b = a else (other, b) ∈ t.toList := by
  unfold insert
  split
  next i h =>
    obtain ⟨hi, here, -⟩ := Array.findIdx?_eq_some_iff_getElem.1 h
    have old : t.toList[i]? = some (name, t.entries[i].2) := by
      rw [toList, Array.getElem?_toList, Array.getElem?_eq_getElem hi, ← eq_of_beq here]
    -- only the value in that place changes
    have place (j : Nat) : (t.entries.modify i fun e => (e.1, a)).toList[j]? =
        if i = j then some (name, a) else t.toList[j]? := by
      rw [Array.toList_modify, List.getElem?_modify, ← toList]
      split
      next hij => rw [← hij, old]; rfl
      next => simp
    rw [toList, List.mem_iff_getElem?, List.mem_iff_getElem?]
    simp only [place]
    constructor
    · rintro ⟨j, hj⟩
      by_cases hij : i = j
      · simp_all
      · rw [if_neg hij] at hj
        have : other ≠ name := by
          rintro rfl
          exact hij (place_unique old hj)
        simpa [this] using ⟨j, hj⟩
    · intro hb
      by_cases ho : other = name
      · exact ⟨i, by simp_all⟩
      · rw [if_neg ho] at hb
        obtain ⟨j, hj⟩ := hb
        have : i ≠ j := by
          rintro rfl
          simp_all
        exact ⟨j, by simpa [this] using hj⟩
  next h =>
    have new : (name, b) ∉ t.toList := fun listed =>
      indexOf?_eq_none_iff.1 h (mem_keys.2 ⟨b, listed⟩)
    split <;> simp_all [toList]

/-- An insertion changes the entry of one name. -/
theorem get?_insert (t : Table α) (name other : String) (a : α) :
    (t.insert name a).get? other = if other = name then some a else t.get? other := by
  refine Option.ext fun b => ?_
  rw [get?_eq_some_iff, mem_toList_insert]
  split
  · simp [eq_comm]
  · rw [get?_eq_some_iff]

/-- A removal keeps the order of the other names. -/
theorem keys_erase (t : Table α) (name : String) :
    (t.erase name).keys = t.keys.filter (· != name) := by
  simp [keys, toList, erase, List.filter_map, Function.comp_def]

/-- A removal takes out the entry of one name. -/
theorem get?_erase (t : Table α) (name other : String) :
    (t.erase name).get? other = if other = name then none else t.get? other := by
  refine Option.ext fun b => ?_
  split
  next h => subst h; simp [get?_eq_some_iff, erase, toList]
  next h => simp [get?_eq_some_iff, erase, toList, h]

end Table

end AbstractScript
