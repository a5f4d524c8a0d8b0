import AbstractScript.Proofs.Balance

/-!
# Framing changes

A machine is *tame* if no object runs a native function and no function of the program deletes a
plain name. A change *frames* a machine if it is at most weakened below its ambiguity level: of a
tame machine it makes a tame one, it weakens what was created at any lower level (`Realm.Framed`),
and it adds only framed passes to the history. What was created at the level itself is *free*: a
change of it frames the machine, whatever it is (`Frames.changing`).
-/
namespace AbstractScript

/-! ## Weakened realms

What may or may not happen *weakens* what was there before: a binding or a property stays as it is
or keeps its attributes and becomes unknown, and a property that is new is unknown. The length of an
array is the exception, since it has to stay above all indices. A realm is *framed* at an ambiguity
level if whatever was created at that level or below is at most weakened (`Realm.Framed`).
-/

/-! ## Weakened properties, bindings, objects and environments -/

/-- A property that is as before, or has the attributes from before and an unknown value. -/
def Descriptor.Weakened (d d' : Descriptor) : Prop :=
  d' = d ∨ ∃ v w e c, d = .data v w e c ∧ d' = .data .unknown w e c

/-- A binding that is as before, or has the attributes from before and an unknown value. -/
def Binding.Weakened (b b' : Binding) : Prop := b' = b ∨ b' = { b with value := some .unknown }

/-- A property that holds an unknown value. -/
def Descriptor.IsUnknown (d : Descriptor) : Prop := ∃ w e c, d = .data .unknown w e c

/-- The length of an array, as far as it is known. -/
def ObjectRecord.IsLength (r : ObjectRecord) (name : String) : Prop :=
  r.cls = .array ∧ name = "length" ∧ ∃ x w e c, r.own? name = some (.data (.number x) w e c)

/-- What may or may not happen to an object. -/
structure ObjectRecord.Weakened (r r' : ObjectRecord) : Prop where
  cls : r'.cls = r.cls
  prototype : r'.prototype = r.prototype
  extensible : r'.extensible = r.extensible
  /-- No property disappears; all but the length of an array are weakened. -/
  kept : ∀ name d, r.own? name = some d →
    ∃ d', r'.own? name = some d' ∧ (d.Weakened d' ∨ r.IsLength name)
  /-- A new property is unknown. -/
  added : ∀ name d', r.own? name = none → r'.own? name = some d' → d'.IsUnknown

/-- What may or may not happen to an environment. No binding disappears; all are weakened. Names
that are properties of an object stay so. -/
def Environment.Weakened (e e' : Environment) : Prop :=
  match e.store with
  | .own b => ∃ b', e'.store = .own b' ∧ ∀ name x, b.table.get? name = some x →
      ∃ x', b'.table.get? name = some x' ∧ x.Weakened x'
  | .properties o receiver => e'.store = .properties o receiver

/-- Everything from before that was created at a level or below is at most weakened. -/
structure Realm.Framed (level : Nat) (r r' : Realm) : Prop where
  object : ∀ o, o.index < r.objects.size → (r.object o).createdLevel ≤ level →
    (r.object o).Weakened (r'.object o)
  environment : ∀ e, e.index < r.environments.size → (r.environment e).createdLevel ≤ level →
    (r.environment e).Weakened (r'.environment e)

namespace Descriptor

/-- A property that stays as it is counts as weakened. -/
theorem Weakened.refl (d : Descriptor) : d.Weakened d := .inl rfl

/-- A property may be weakened twice. -/
theorem Weakened.trans {d d' d'' : Descriptor} (h : d.Weakened d') (h' : d'.Weakened d'') :
    d.Weakened d'' := by
  rcases h with rfl | ⟨v, w, e, c, rfl, rfl⟩
  · exact h'
  · rcases h' with rfl | ⟨v', w', e', c', h, rfl⟩
    · exact .inr ⟨v, w, e, c, rfl, rfl⟩
    · cases h
      exact .inr ⟨v, w, e, c, rfl, rfl⟩

/-- An unknown property stays so. -/
theorem IsUnknown.weakened {d d' : Descriptor} (h : d.IsUnknown) (h' : d.Weakened d') :
    d'.IsUnknown := by
  rcases h' with rfl | ⟨v, w, e, c, rfl, rfl⟩
  · exact h
  · exact ⟨w, e, c, rfl⟩

end Descriptor

/-- A binding that stays as it is counts as weakened. -/
theorem Binding.Weakened.refl (b : Binding) : b.Weakened b := .inl rfl

/-- A binding may be weakened twice. -/
theorem Binding.Weakened.trans {b b' b'' : Binding} (h : b.Weakened b') (h' : b'.Weakened b'') :
    b.Weakened b'' := by
  rcases h with rfl | rfl
  · exact h'
  · rcases h' with rfl | rfl
    · exact .inr rfl
    · exact .inr rfl

namespace ObjectRecord

/-- An object that stays as it is counts as weakened. -/
theorem Weakened.refl (r : ObjectRecord) : r.Weakened r where
  cls := rfl
  prototype := rfl
  extensible := rfl
  kept := fun _ d h => ⟨d, h, .inl (.refl d)⟩
  added := fun _ _ h h' => nomatch h.symm.trans h'

/-- An object may be weakened twice. -/
theorem Weakened.trans {r r' r'' : ObjectRecord} (h : r.Weakened r') (h' : r'.Weakened r'') :
    r.Weakened r'' where
  cls := h'.cls.trans h.cls
  prototype := h'.prototype.trans h.prototype
  extensible := h'.extensible.trans h.extensible
  kept := fun name d hd => by
    obtain ⟨d', hd', first⟩ := h.kept name d hd
    obtain ⟨d'', hd'', second⟩ := h'.kept name d' hd'
    refine ⟨d'', hd'', ?_⟩
    rcases first with first | length
    · rcases second with second | ⟨array, isLength, x, w, e, c, known⟩
      · exact .inl (first.trans second)
      · -- a length that is known in between was known before
        obtain rfl : d' = .data (.number x) w e c := by simpa [hd'] using known
        rcases first with rfl | ⟨v, w', e', c', rfl, unknown⟩
        · exact .inr ⟨h.cls ▸ array, isLength, x, w, e, c, hd⟩
        · cases unknown
    · exact .inr length
  added := fun name d'' absent hd'' => by
    cases between : r'.own? name with
    | none => exact h'.added name d'' between hd''
    | some d' =>
      obtain ⟨w, e, c, rfl⟩ := h.added name d' absent between
      obtain ⟨d, hd, weakened⟩ := h'.kept name _ between
      obtain rfl : d = d'' := by simpa [hd] using hd''
      rcases weakened with weakened | ⟨-, -, x, w', e', c', known⟩
      · exact Descriptor.IsUnknown.weakened ⟨w, e, c, rfl⟩ weakened
      · simp [between] at known

/-- Storing a weakened property, or an unknown one that is new, weakens an object. -/
theorem Weakened.store {r : ObjectRecord} {name : String} {d' : Descriptor}
    (kept : ∀ d, r.own? name = some d → d.Weakened d' ∨ r.IsLength name)
    (added : r.own? name = none → d'.IsUnknown) : r.Weakened (r.store name d') where
  cls := rfl
  prototype := rfl
  extensible := rfl
  kept := fun other d hd => by
    rw [own?_store]
    split
    next same =>
      subst same
      exact ⟨d', rfl, kept d hd⟩
    next => exact ⟨d, hd, .inl (.refl d)⟩
  added := fun other d absent hd => by
    rw [own?_store] at hd
    split at hd
    next same =>
      subst same
      cases hd
      exact added absent
    next => rw [absent] at hd; cases hd

end ObjectRecord

namespace Environment

/-- An environment that stays as it is counts as weakened. -/
theorem Weakened.refl (e : Environment) : e.Weakened e := by
  unfold Weakened
  split
  next b own => exact ⟨b, own, fun _ x hx => ⟨x, hx, .refl x⟩⟩
  next properties => exact properties

/-- An environment may be weakened twice, as its kind never changes. -/
theorem Weakened.trans {e e' e'' : Environment} (h : e.Weakened e') (h' : e'.Weakened e'') :
    e.Weakened e'' := by
  unfold Weakened at h ⊢
  split at h
  next b _ =>
    obtain ⟨b', own, kept⟩ := h
    simp only [Weakened, own] at h'
    obtain ⟨b'', own', kept'⟩ := h'
    refine ⟨b'', own', fun name x hx => ?_⟩
    obtain ⟨x', hx', weakened⟩ := kept name x hx
    obtain ⟨x'', hx'', weakened'⟩ := kept' name x' hx'
    exact ⟨x'', hx'', weakened.trans weakened'⟩
  next =>
    simpa only [Weakened, h] using h'

end Environment

namespace Realm.Framed

/-- Nothing is changed, so all is framed. -/
theorem refl (level : Nat) (r : Realm) : r.Framed level r where
  object := fun _ _ _ => .refl _
  environment := fun _ _ _ => .refl _

/-- Framed one after the other, for a realm that only grows. -/
theorem trans {level : Nat} {a b c : Realm} (grows : a.Grows b) (h : a.Framed level b)
    (h' : b.Framed level c) : a.Framed level c where
  object := fun o ho created => (h.object o ho created).trans
    (h'.object o (Nat.lt_of_lt_of_le ho grows.objects)
      (Nat.le_trans (Nat.le_of_eq (grows.object o ho).createdLevel) created))
  environment := fun e he created => (h.environment e he created).trans
    (h'.environment e (Nat.lt_of_lt_of_le he grows.environments)
      (Nat.le_trans (Nat.le_of_eq (grows.environment e he).createdLevel) created))

end Realm.Framed

open Eval

/-! ## Tame machines -/

/-- An object that runs no native function and deletes no plain name when it is called. -/
structure ObjectRecord.Tame (r : ObjectRecord) : Prop where
  native : ∀ name call construct, r.callable = some (.native name call construct) →
    call = none ∧ construct = none
  script : ∀ closure, r.callable = some (.script closure) → closure.code.keepsNames = true

/-- A realm of tame objects. -/
def Realm.Tame (r : Realm) : Prop := ∀ o, (r.object o).Tame

/-- A machine with a running context and a tame realm. -/
structure Machine.Tame (m : Machine) : Prop where
  running : m.contexts.isEmpty = false
  realm : m.realm.Tame

namespace ObjectRecord.Tame

/-- An object that cannot be called is tame. -/
theorem of_not_callable {r : ObjectRecord} (h : r.callable = none) : r.Tame where
  native := fun _ _ _ found => nomatch h.symm.trans found
  script := fun _ found => nomatch h.symm.trans found

/-- A function of the program is tame if its code deletes no plain names. -/
theorem of_script {code : FunctionCode} (h : code.keepsNames = true) (level : Nat)
    (scope : EnvId) : (Realm.functionRecord level (.script ⟨code, scope⟩)).Tame where
  native := fun _ _ _ found => by simp [Realm.functionRecord] at found
  script := fun closure found => by
    obtain rfl : (⟨code, scope⟩ : Closure) = closure := by
      simpa [Realm.functionRecord] using found
    exact h

/-- What calling an object does never changes, so it stays tame. -/
theorem alike {r r' : ObjectRecord} (h : r.Tame) (h' : r.Alike r') : r'.Tame where
  native := fun name call construct found => h.native name call construct (h'.callable ▸ found)
  script := fun closure found => h.script closure (h'.callable ▸ found)

end ObjectRecord.Tame

namespace Realm.Tame

/-- A tame object may be added to a tame realm. -/
theorem addObject {r : Realm} (h : r.Tame) {record : ObjectRecord} (new : record.Tame) :
    (r.addObject record).Tame := by
  intro o
  rw [object_addObject]
  split
  · exact new
  · exact h o

/-- Changes of properties keep a realm tame. -/
theorem modifyObject {r : Realm} (h : r.Tame) (o : ObjectId) {f : ObjectRecord → ObjectRecord}
    (alike : ∀ record : ObjectRecord, record.Alike (f record)) : (r.modifyObject o f).Tame := by
  intro p
  rw [object_modifyObject]
  split
  · exact (h o).alike (alike _)
  · exact h p

end Realm.Tame

/-! ## Changes of a framed realm -/

namespace Realm.Framed

variable {level : Nat} {a b : Realm}

/-- A new object weakens nothing from before. -/
theorem addObject (h : a.Framed level b) (grows : a.Grows b) (record : ObjectRecord) :
    a.Framed level (b.addObject record) where
  object := fun o ho created => by
    rw [object_addObject, if_neg]
    · exact h.object o ho created
    · rintro rfl
      exact absurd ho (Nat.not_lt.2 grows.objects)
  environment := h.environment

/-- Neither does a new environment. -/
theorem addEnvironment (h : a.Framed level b) (grows : a.Grows b) (new : Environment) :
    a.Framed level (b.addEnvironment new) where
  object := h.object
  environment := fun e he created => by
    rw [environment_addEnvironment, if_neg]
    · exact h.environment e he created
    · rintro rfl
      exact absurd he (Nat.not_lt.2 grows.environments)

/-- An object that was there before has to be weakened; any other one may change. -/
theorem modifyObject (h : a.Framed level b) {o : ObjectId} {f : ObjectRecord → ObjectRecord}
    (weak : o.index < a.objects.size → (a.object o).createdLevel ≤ level →
      (b.object o).Weakened (f (b.object o))) : a.Framed level (b.modifyObject o f) where
  object := fun p hp created => by
    rw [object_modifyObject]
    split
    next same =>
      obtain ⟨rfl, -⟩ := same
      exact (h.object p hp created).trans (weak hp created)
    next => exact h.object p hp created
  environment := h.environment

/-- An environment may be changed if it is weakened at most, should it be one from before. -/
theorem modifyEnvironment (h : a.Framed level b) {e : EnvId} {f : Environment → Environment}
    (weak : e.index < a.environments.size → (a.environment e).createdLevel ≤ level →
      (b.environment e).Weakened (f (b.environment e))) :
    a.Framed level (b.modifyEnvironment e f) where
  object := h.object
  environment := fun p hp created => by
    rw [environment_modifyEnvironment]
    split
    next same =>
      obtain ⟨rfl, -⟩ := same
      exact (h.environment p hp created).trans (weak hp created)
    next => exact h.environment p hp created

end Realm.Framed

/-! ## Framing changes of machines -/

/-- Contexts that are kept are not empty if those before are not. -/
theorem ContextStack.Kept.running {s t : ContextStack} (h : s.Kept t) (running : s.isEmpty = false) :
    t.isEmpty = false := by
  rcases h with rfl | rfl
  · exact running
  · rcases s with ⟨_ | ⟨c, rest⟩⟩
    · cases running
    · rfl

/-- The ambiguity level of contexts that are kept never falls. -/
theorem ContextStack.Kept.level_le {s t : ContextStack} (h : s.Kept t) : s.level ≤ t.level := by
  rcases h with rfl | rfl
  · exact Nat.le_refl _
  · rcases s with ⟨_ | ⟨c, rest⟩⟩
    · exact Nat.le_refl _
    · show c.ambiguity + level ⟨rest⟩ ≤ c.depth + 1 + level ⟨rest⟩
      rw [Context.ambiguity]
      split <;> omega

namespace Machine

/-- What a framing change of a tame machine leaves. -/
structure Framing (m n : Machine) : Prop where
  contexts : m.contexts.Kept n.contexts
  grows : m.realm.Grows n.realm
  tame : n.realm.Tame
  framed : ∀ level < m.level, m.realm.Framed level n.realm
  /-- What was added to the history are framed passes. -/
  history : ∀ before level after, n.history.passed before level after →
    m.history.passed before level after ∨ before.Framed level after

/-- A framing change; changes of a machine that is not tame are of no interest. -/
def Frames (m n : Machine) : Prop := m.Tame → m.Framing n

variable {m n k : Machine}

/-- A change that frames keeps a machine tame. -/
theorem Framing.tame' (h : m.Framing n) (tame : m.Tame) : n.Tame :=
  ⟨h.contexts.running tame.running, h.tame⟩

/-- To do nothing frames a tame machine. -/
theorem Framing.refl (h : m.Tame) : m.Framing m where
  contexts := .refl _
  grows := .refl _
  tame := h.realm
  framed := fun _ _ => .refl _ _
  history := fun _ _ _ => .inl

/-- One change that frames after another frames. -/
theorem Framing.trans (h : m.Framing n) (h' : n.Framing k) : m.Framing k where
  contexts := h.contexts.trans h'.contexts
  grows := h.grows.trans h'.grows
  tame := h'.tame
  framed := fun level lt =>
    (h.framed level lt).trans h.grows (h'.framed level (Nat.lt_of_lt_of_le lt h.contexts.level_le))
  history := fun before level after passed => by
    rcases h'.history before level after passed with earlier | framed
    · exact h.history before level after earlier
    · exact .inr framed

instance : IsPreorder Machine Frames where
  refl _ := Framing.refl
  trans _ _ _ h h' tame := (h tame).trans (h' ((h tame).tame' tame))

namespace Frames

/-- Parts of a machine that have nothing to do with framing may change. -/
theorem congr (h : m.Frames n) (contexts : k.contexts = n.contexts)
    (passed : k.history.passed = n.history.passed) (realm : k.realm = n.realm) : m.Frames k := fun tame =>
  have h := h tame
  { contexts := contexts ▸ h.contexts
    grows := realm ▸ h.grows
    tame := realm ▸ h.tame
    framed := realm ▸ h.framed
    history := passed ▸ h.history }

/-- Records that no evaluation reads are no part of the frame. -/
theorem of_aside (h : m.Aside n) : m.Frames n :=
  (refl m : m.Frames m).congr h.contexts (congrArg History.passed h.history) h.realm

/-- A tame object may be added. -/
theorem addObject (h : m.Frames n) {record : ObjectRecord} (new : record.Tame) :
    m.Frames (n.addObject record) := fun tame =>
  have h := h tame
  { contexts := h.contexts
    grows := h.grows.trans (.addObject _ _)
    tame := h.tame.addObject new
    framed := fun level lt => (h.framed level lt).addObject h.grows record
    history := h.history }

/-- An environment may be added. -/
theorem addEnvironment (h : m.Frames n) (e : Environment) : m.Frames (n.addEnvironment e) :=
  fun tame =>
  have h := h tame
  { contexts := h.contexts
    grows := h.grows.trans (.addEnvironment _ _)
    tame := h.tame
    framed := fun level lt => (h.framed level lt).addEnvironment h.grows e
    history := h.history }

/-- An object may be changed if one from a lower level is weakened at most. -/
theorem modifyObject (h : m.Frames n) {o : ObjectId} {f : ObjectRecord → ObjectRecord}
    (alike : ∀ record : ObjectRecord, record.Alike (f record))
    (weak : ∀ level < m.level, o.index < m.realm.objects.size →
      (m.realm.object o).createdLevel ≤ level →
      (n.realm.object o).Weakened (f (n.realm.object o))) :
    m.Frames (n.modifyObject o f) := fun tame =>
  have h := h tame
  { contexts := h.contexts
    grows := h.grows.trans (.modifyObject _ _ alike)
    tame := h.tame.modifyObject o alike
    framed := fun level lt => (h.framed level lt).modifyObject (weak level lt)
    history := h.history }

/-- The same holds of an environment. -/
theorem modifyEnvironment (h : m.Frames n) {e : EnvId} {f : Environment → Environment}
    (alike : ∀ env : Environment, env.Alike (f env))
    (weak : ∀ level < m.level, e.index < m.realm.environments.size →
      (m.realm.environment e).createdLevel ≤ level →
      (n.realm.environment e).Weakened (f (n.realm.environment e))) :
    m.Frames (n.modifyEnvironment e f) := fun tame =>
  have h := h tame
  { contexts := h.contexts
    grows := h.grows.trans (.modifyEnvironment _ _ alike)
    tame := h.tame
    framed := fun level lt => (h.framed level lt).modifyEnvironment (weak level lt)
    history := h.history }

end Frames

end Machine

end AbstractScript
