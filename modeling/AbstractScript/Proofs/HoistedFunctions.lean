import AbstractScript.Proofs.CoreRun
import AbstractScript.Proofs.PossibleAssignment

/-!
# Function declarations

A function declaration binds its name when the function or program that it is written in is entered,
as evaluating the declaration does nothing. So all declarations have to be found then, however deep
they are written (`declarations`). The search does not enter the bodies of loops. It finds exactly
the declarations of a statement list when no loop in it has any (`hoistedFunctions_eq_iff`), and
then binds all their names (`Op.functions_hoisted`).
-/
namespace AbstractScript

/-! ## The statements inside a statement -/

namespace Statement

/-- The statements directly inside a statement, in source order. -/
def parts : Statement → List Statement
  | block b => b.body
  | labeled _ _ body => [body]
  | branch _ _ consequent alternate => consequent :: alternate.toList
  | switch _ _ cases => cases.flatMap SwitchCase.consequent
  | tryCatch _ b handler finalizer =>
    b.body ++ handler.toList.flatMap (·.body.body) ++ finalizer.toList.flatMap (·.body)
  | whileLoop _ _ body => [body]
  | doWhileLoop _ _ body => [body]
  | forLoop _ _ _ _ body => [body]
  | forInLoop _ _ _ body => [body]
  | _ => []

/-- True for loops. -/
def isLoop : Statement → Bool
  | whileLoop .. => true
  | doWhileLoop .. => true
  | forLoop .. => true
  | forInLoop .. => true
  | _ => false

/-- The function that a statement declares. -/
def declared? : Statement → Option FunctionCode
  | functionDeclaration code => some code
  | _ => none

/-- The size of some statements. -/
noncomputable def size : List Statement → Nat
  | [] => 0
  | s :: ss => sizeOf s + size ss

/-- No statements have no size. -/
@[simp] theorem size_nil : size [] = 0 := rfl

/-- The size of a list is the sum of the sizes of its statements. -/
@[simp] theorem size_cons (s : Statement) (ss : List Statement) :
    size (s :: ss) = sizeOf s + size ss := rfl

/-- The size is additive. -/
@[simp] theorem size_append (ss ts : List Statement) : size (ss ++ ts) = size ss + size ts := by
  induction ss with
  | nil => simp
  | cons s ss ih =>
    rw [List.cons_append, size_cons, ih, size_cons]
    omega

/-- The size of a list is below that of the list as a data structure, which counts its cells too. -/
theorem size_lt (ss : List Statement) : size ss < sizeOf ss := by
  induction ss with
  | nil => simp
  | cons s ss ih =>
    simp
    omega

/-- The statements of a block are smaller than the block. -/
theorem size_body_lt (b : Block) : size b.body < sizeOf b := by
  cases b with
  | mk span body =>
    have := size_lt body
    simp [Block.body]
    omega

/-- The statements of all cases together are smaller than the cases. -/
theorem size_consequents_lt (cases : List SwitchCase) :
    size (cases.flatMap SwitchCase.consequent) < sizeOf cases := by
  induction cases with
  | nil => simp
  | cons c cases ih =>
    cases c with
    | mk span test consequent =>
      have := size_lt consequent
      simp [SwitchCase.consequent]
      omega

/-- What is inside a statement is smaller. -/
theorem size_parts_lt (s : Statement) : size s.parts < sizeOf s := by
  cases s with
  | block b =>
    have := size_body_lt b
    simp [parts]
    omega
  | branch span test consequent alternate =>
    have other : size alternate.toList ≤ sizeOf alternate := by cases alternate <;> simp
    simp [parts]
    omega
  | switch span test cases =>
    have := size_consequents_lt cases
    simp [parts]
    omega
  | tryCatch span b handler finalizer =>
    have first := size_body_lt b
    have handled : size (handler.toList.flatMap (·.body.body)) ≤ sizeOf handler := by
      rcases handler with _ | ⟨span, parameter, body⟩
      · simp
      · have := size_body_lt body
        simp [CatchClause.body]
        omega
    have last : size (finalizer.toList.flatMap (·.body)) ≤ sizeOf finalizer := by
      rcases finalizer with _ | body
      · simp
      · have := size_body_lt body
        simp
        omega
    simp [parts]
    omega
  | _ =>
    simp [parts]
    try omega

end Statement

/-- The statements of a list and all that are inside them but not in nested functions, in source
order. -/
def statementsWithin : List Statement → List Statement
  | [] => []
  | s :: rest => s :: (statementsWithin s.parts ++ statementsWithin rest)
termination_by ss => Statement.size ss
decreasing_by
  · have := s.size_parts_lt
    simp
    omega
  · have : 0 < sizeOf s := Nat.zero_lt_of_lt s.size_parts_lt
    simp
    omega

/-- The functions that are declared anywhere in a statement list but not in nested functions, in
source order. -/
def declarations (ss : List Statement) : List FunctionCode :=
  (statementsWithin ss).filterMap Statement.declared?

variable {s : Statement} {ss ts rest : List Statement}

/-- The statements within a list are found statement by statement. -/
theorem statementsWithin_append :
    statementsWithin (ss ++ ts) = statementsWithin ss ++ statementsWithin ts := by
  induction ss with
  | nil => rw [statementsWithin, List.nil_append, List.nil_append]
  | cons s ss ih => rw [List.cons_append, statementsWithin, ih, statementsWithin, List.cons_append,
      List.append_assoc]

/-- The declarations in a statement list: those of the first statement, of its parts and of the
rest. -/
theorem declarations_cons :
    declarations (s :: rest) = s.declared?.toList ++ declarations s.parts ++ declarations rest := by
  rw [declarations, statementsWithin, List.filterMap_cons, List.filterMap_append]
  cases s.declared? <;> rfl

/-! ## What the search finds -/

/-- The search is statement by statement too. -/
theorem hoistedFunctions_append :
    hoistedFunctions (ss ++ ts) = hoistedFunctions ss ++ hoistedFunctions ts := by
  induction ss with
  | nil => rfl
  | cons s ss ih => rw [List.cons_append, hoistedFunctions, ih, hoistedFunctions, List.append_assoc]

/-- The search through the cases of a switch is the search through their statements in order. -/
theorem casesHoistedFunctions_eq (cases : List SwitchCase) :
    casesHoistedFunctions cases = hoistedFunctions (cases.flatMap SwitchCase.consequent) := by
  induction cases with
  | nil => rfl
  | cons c cases ih =>
    rw [List.flatMap_cons, hoistedFunctions_append, ← ih]
    cases c
    rfl

/-- What is found in a statement is found in its parts, unless it is a loop. -/
theorem Statement.hoistedFunctions_eq (s : Statement) : s.hoistedFunctions =
    s.declared?.toList ++ if s.isLoop then [] else AbstractScript.hoistedFunctions s.parts := by
  have block (b : Block) : Block.hoistedFunctions b = AbstractScript.hoistedFunctions b.body := by
    cases b
    rfl
  cases s with
  | block b => exact block b
  | labeled span label body => exact (List.append_nil _).symm
  | branch span test consequent alternate =>
    cases alternate with
    | none => rfl
    | some other => exact congrArg (consequent.hoistedFunctions ++ ·) (List.append_nil _).symm
  | switch span test cases => exact casesHoistedFunctions_eq cases
  | tryCatch span b handler finalizer =>
    rcases handler with _ | ⟨span, parameter, body⟩ <;> rcases finalizer with _ | last <;>
      simp [Statement.hoistedFunctions, declared?, isLoop, parts, hoistedFunctions_append, block,
        CatchClause.body]
  | _ => rfl

/-- The search goes into the parts of a statement unless it is a loop, and that is the only
difference from `declarations_cons`. -/
theorem hoistedFunctions_cons : hoistedFunctions (s :: rest) =
    s.declared?.toList ++ (if s.isLoop then [] else hoistedFunctions s.parts) ++
      hoistedFunctions rest := by
  rw [hoistedFunctions, s.hoistedFunctions_eq]

/-- The search finds some of the declarations, in their order. -/
theorem hoistedFunctions_sublist (ss : List Statement) :
    (hoistedFunctions ss).Sublist (declarations ss) := by
  induction ss using statementsWithin.induct with
  | case1 => exact List.nil_sublist _
  | case2 s rest inner outer =>
    rw [hoistedFunctions_cons, declarations_cons]
    refine List.Sublist.append (List.Sublist.append (List.Sublist.refl _) ?_) outer
    split
    · exact List.nil_sublist _
    · exact inner

/-- No loop in a statement list has a declaration, unless in a nested function. -/
def HasBareLoops (ss : List Statement) : Prop :=
  ∀ s ∈ statementsWithin ss, s.isLoop = true → declarations s.parts = []

/-- A list has bare loops if no loop in it, at any depth, has declarations in its body. -/
theorem hasBareLoops_cons : HasBareLoops (s :: rest) ↔
    (s.isLoop = true → declarations s.parts = []) ∧ HasBareLoops s.parts ∧ HasBareLoops rest := by
  simp only [HasBareLoops, statementsWithin, List.mem_cons, List.mem_append]
  grind

/-- Without declarations no loop has any. -/
theorem hasBareLoops_of_declarations_eq_nil (h : declarations ss = []) : HasBareLoops ss := by
  induction ss using statementsWithin.induct with
  | case1 =>
    intro s hs
    rw [statementsWithin] at hs
    cases hs
  | case2 s rest inner outer =>
    rw [declarations_cons, List.append_eq_nil_iff, List.append_eq_nil_iff] at h
    exact hasBareLoops_cons.2 ⟨fun _ => h.1.2, inner h.1.2, outer h.2⟩

/-- Sublists of two parts make up the whole only if each makes up its part. -/
theorem append_eq_append_iff_of_sublist {α : Type} {xs xs' ys ys' : List α}
    (hx : xs.Sublist xs') (hy : ys.Sublist ys') : xs ++ ys = xs' ++ ys' ↔ xs = xs' ∧ ys = ys' := by
  constructor
  · intro same
    have lengths := congrArg List.length same
    rw [List.length_append, List.length_append] at lengths
    have := hx.length_le
    have := hy.length_le
    exact ⟨hx.eq_of_length (by omega), hy.eq_of_length (by omega)⟩
  · rintro ⟨rfl, rfl⟩
    rfl

/-- The search finds all declarations of a statement list exactly if no loop in it has any. -/
theorem hoistedFunctions_eq_iff (ss : List Statement) :
    hoistedFunctions ss = declarations ss ↔ HasBareLoops ss := by
  induction ss using statementsWithin.induct with
  | case1 =>
    refine iff_of_true ?_ (hasBareLoops_of_declarations_eq_nil ?_) <;>
      simp [hoistedFunctions, declarations, statementsWithin]
  | case2 s rest inner outer =>
    rw [hoistedFunctions_cons, declarations_cons, hasBareLoops_cons, ← outer, ← inner,
      List.append_assoc, List.append_assoc, List.append_cancel_left_eq]
    by_cases loop : s.isLoop = true
    · rw [if_pos loop, append_eq_append_iff_of_sublist (List.nil_sublist _)
        (hoistedFunctions_sublist rest), eq_comm]
      exact ⟨fun ⟨bare, last⟩ => ⟨fun _ => bare,
          inner.2 (hasBareLoops_of_declarations_eq_nil bare), last⟩,
        fun ⟨bare, _, last⟩ => ⟨bare loop, last⟩⟩
    · rw [if_neg loop, append_eq_append_iff_of_sublist (hoistedFunctions_sublist _)
        (hoistedFunctions_sublist rest)]
      simp [loop]

/-! ## What binding names leaves of a realm -/

/-- An object gets data properties and keeps the others. -/
structure ObjectRecord.Widens (r r' : ObjectRecord) : Prop where
  cls : r'.cls = r.cls
  prototype : r'.prototype = r.prototype
  extensible : r'.extensible = r.extensible
  own : ∀ name, (r.own? name).isSome = true → (r'.own? name).isSome = true
  data : ∀ name d, r'.own? name = some d → d.isData = true ∨ r.own? name = some d

/-- An environment gets names of its own and keeps the others. -/
def BindingStore.Widens : BindingStore → BindingStore → Prop
  | .own b, .own b' => ∀ name, b.has name = true → b'.has name = true
  | .properties o _, .properties o' _ => o' = o
  | _, _ => False

/-- What binding names leaves of a realm. -/
structure Realm.Widens (r r' : Realm) : Prop where
  objects : r.objects.size ≤ r'.objects.size
  object : ∀ o, o.index < r.objects.size → (r.object o).Widens (r'.object o)
  environments : r.environments.size ≤ r'.environments.size
  environment : ∀ e, e.index < r.environments.size →
    (r.environment e).store.Widens (r'.environment e).store

namespace ObjectRecord.Widens

variable {r r' r'' : ObjectRecord}

/-- A record widens itself. -/
theorem refl (r : ObjectRecord) : r.Widens r := ⟨rfl, rfl, rfl, fun _ => id, fun _ _ => .inr⟩

/-- Widening is transitive. -/
theorem trans (h : r.Widens r') (h' : r'.Widens r'') : r.Widens r'' where
  cls := h'.cls.trans h.cls
  prototype := h'.prototype.trans h.prototype
  extensible := h'.extensible.trans h.extensible
  own name there := h'.own name (h.own name there)
  data name d there := (h'.data name d there).elim .inl (h.data name d)

/-- Storing a data property widens the record. -/
theorem store (r : ObjectRecord) (name : String) {p : Descriptor} (data : p.isData = true) :
    r.Widens (r.store name p) where
  cls := rfl
  prototype := rfl
  extensible := rfl
  own other there := by
    rw [own?_store]
    split
    · rfl
    · exact there
  data other d there := by
    rw [own?_store] at there
    split at there
    · cases there
      exact .inl data
    · exact .inr there

end ObjectRecord.Widens

namespace BindingStore.Widens

/-- A store of bindings widens itself. -/
theorem refl (b : BindingStore) : b.Widens b := by
  cases b with
  | own => exact fun _ => id
  | properties => rfl

/-- Widening of stores is transitive. -/
theorem trans {b b' b'' : BindingStore} (h : b.Widens b') (h' : b'.Widens b'') : b.Widens b'' := by
  cases b <;> cases b' <;> cases b'' <;> first | exact h.elim | exact h'.elim | skip
  · exact fun name there => h' name (h name there)
  · exact Eq.trans h' h

end BindingStore.Widens

namespace Realm

namespace Widens

variable {r r' r'' : Realm}

/-- A realm widens itself. -/
theorem refl (r : Realm) : r.Widens r :=
  ⟨Nat.le_refl _, fun _ _ => .refl _, Nat.le_refl _, fun _ _ => .refl _⟩

/-- Widening of realms is transitive, field by field. -/
theorem trans (h : r.Widens r') (h' : r'.Widens r'') : r.Widens r'' where
  objects := Nat.le_trans h.objects h'.objects
  object o there := (h.object o there).trans (h'.object o (Nat.lt_of_lt_of_le there h.objects))
  environments := Nat.le_trans h.environments h'.environments
  environment e there :=
    (h.environment e there).trans (h'.environment e (Nat.lt_of_lt_of_le there h.environments))

/-- A new object widens the realm. -/
theorem addObject (r : Realm) (record : ObjectRecord) : r.Widens (r.addObject record) where
  objects := by simp [Realm.addObject]
  object o there := by
    rw [object_addObject, if_neg]
    · exact .refl _
    · rintro rfl
      exact Nat.lt_irrefl _ there
  environments := Nat.le_refl _
  environment _ _ := .refl _

/-- So does a change of one object that widens its record. -/
theorem modifyObject (r : Realm) (o : ObjectId) {f : ObjectRecord → ObjectRecord}
    (widens : ∀ record : ObjectRecord, record.Widens (f record)) : r.Widens (r.modifyObject o f) where
  objects := by simp [Realm.modifyObject]
  object p there := by
    rw [object_modifyObject]
    split
    next same =>
      obtain ⟨rfl, -⟩ := same
      exact widens _
    next => exact .refl _
  environments := Nat.le_refl _
  environment _ _ := .refl _

/-- So does a change of one environment that widens its bindings. -/
theorem modifyEnvironment (r : Realm) (e : EnvId) {f : Environment → Environment}
    (widens : (r.environment e).store.Widens (f (r.environment e)).store) :
    r.Widens (r.modifyEnvironment e f) where
  objects := Nat.le_refl _
  object _ _ := .refl _
  environments := by simp [Realm.modifyEnvironment]
  environment other there := by
    rw [environment_modifyEnvironment]
    split
    next same =>
      obtain ⟨rfl, -⟩ := same
      exact widens
    next => exact .refl _

end Widens

/-! ## Scopes -/

/-- An object that names can be bound in: it admits further properties, and neither it nor what it
inherits from has accessors. -/
structure IsPlainScope (r : Realm) (o : ObjectId) : Prop where
  there : o.index < r.objects.size
  cls : (r.object o).cls ≠ .array
  extensible : (r.object o).extensible = true
  inherits : ∀ steps, ∀ p ∈ r.chainWithin steps (some o), p.index < r.objects.size ∧
    ∀ name d, (r.object p).own? name = some d → d.isData = true

/-- An environment that names can be bound in. -/
def IsScope (r : Realm) (e : EnvId) : Prop :=
  e.index < r.environments.size ∧
    match (r.environment e).store with
    | .own _ => True
    | .properties o _ => r.IsPlainScope o

/-- An object has a property if some object on its prototype chain has it as its own. -/
theorem hasProperty_iff {r : Realm} {o : ObjectId} {name : String} : r.hasProperty o name = true ↔
    ∃ p ∈ r.chain o, ((r.object p).own? name).isSome = true := by
  rw [hasProperty, property?, findProperty?, List.isSome_findSome?, List.any_eq_true]

variable {r r' : Realm} {o : ObjectId} {e : EnvId} {name : String}

/-- No accessor is found in a scope. -/
theorem IsPlainScope.isData (h : r.IsPlainScope o) {d : Descriptor}
    (found : r.property? o name = some d) : d.isData = true := by
  obtain ⟨p, hp, own⟩ := List.exists_of_findSome?_eq_some found
  exact (h.inherits _ p hp).2 name d own

/-- The chain of a plain scope object is the same in every wider realm. -/
theorem IsPlainScope.chainWithin_eq (h : r.IsPlainScope o) (widens : r.Widens r') (steps : Nat) :
    r'.chainWithin steps (some o) = r.chainWithin steps (some o) :=
  chainWithin_of_prototype fun p hp => (widens.object p (h.inherits steps p hp).1).prototype

/-- A plain scope object stays one in every wider realm. -/
theorem IsPlainScope.widens (h : r.IsPlainScope o) (widens : r.Widens r') : r'.IsPlainScope o where
  there := Nat.lt_of_lt_of_le h.there widens.objects
  cls := (widens.object o h.there).cls ▸ h.cls
  extensible := (widens.object o h.there).extensible.trans h.extensible
  inherits steps p hp := by
    rw [h.chainWithin_eq widens] at hp
    obtain ⟨there, data⟩ := h.inherits steps p hp
    refine ⟨Nat.lt_of_lt_of_le there widens.objects, fun name d own => ?_⟩
    exact ((widens.object p there).data name d own).elim id (data name d)

/-- It keeps the properties it has. -/
theorem IsPlainScope.hasProperty_widens (h : r.IsPlainScope o) (widens : r.Widens r')
    (has : r.hasProperty o name = true) : r'.hasProperty o name = true := by
  obtain ⟨p, hp, own⟩ := hasProperty_iff.1 has
  refine hasProperty_iff.2 ⟨p, ?_, (widens.object p (h.inherits _ p hp).1).own name own⟩
  rw [chain, h.chainWithin_eq widens]
  exact chainWithin_subset widens.objects hp

/-- A scope stays a scope in every wider realm. -/
theorem IsScope.widens (h : r.IsScope e) (widens : r.Widens r') : r'.IsScope e := by
  refine ⟨Nat.lt_of_lt_of_le h.1 widens.environments, ?_⟩
  have scope := h.2
  have kept := widens.environment e h.1
  revert scope kept
  cases (r.environment e).store <;> cases (r'.environment e).store <;> intro scope kept
  · trivial
  · exact kept.elim
  · exact kept.elim
  · cases kept
    exact scope.widens widens

/-- A scope keeps the names it binds. -/
theorem IsScope.binds_widens (h : r.IsScope e) (widens : r.Widens r') (bound : r.binds e name = true) :
    r'.binds e name = true := by
  have scope := h.2
  have kept := widens.environment e h.1
  unfold binds at bound ⊢
  revert scope kept bound
  cases (r.environment e).store <;> cases (r'.environment e).store <;> intro bound scope kept
  · exact kept name bound
  · exact kept.elim
  · exact kept.elim
  · cases kept
    exact scope.hasProperty_widens widens bound

/-- The global object of a run without other changes to the core objects. -/
theorem IsCore.isPlainScope (h : r.IsCore) : r.IsPlainScope globalObject where
  there := by
    rw [h.size, size_core]
    decide
  cls := by simp [h.cls]
  extensible := h.extensible
  inherits steps p hp := by
    have parent : (r.object Intrinsic.objectPrototype.id).prototype = none := by
      rw [h.object _ (by decide)]
      exact prototype_core_objectPrototype
    -- the chain of prototypes has two objects
    have listed : p = globalObject ∨ p = Intrinsic.objectPrototype.id := by
      rcases steps with _ | _ | steps
      · cases hp
      · exact .inl (List.mem_singleton.1 hp)
      · rw [Realm.chainWithin, h.prototype, Realm.chainWithin, parent] at hp
        cases steps <;> simpa [Realm.chainWithin] using hp
    rw [h.size, size_core]
    obtain rfl | rfl := listed
    · refine ⟨by decide, fun name d own => ?_⟩
      have plain := (h.plain name d own).1
      cases d with
      | data => rfl
      | accessor => cases plain
    · refine ⟨by decide, fun name d own => ?_⟩
      rw [h.object _ (by decide)] at own
      obtain ⟨v, e, c, rfl, -⟩ := own?_objectPrototype own
      rfl

/-- The environment that a program is entered in. -/
theorem IsCore.isScope (h : r.IsCore) (root : r.HasRoot) : r.IsScope globalEnv := by
  refine ⟨root.there, ?_⟩
  rw [root.store]
  exact h.isPlainScope

end Realm

/-! ## Binding names -/

namespace Op

open Eval

variable {s : Setup} {m : Machine} {o : ObjectId} {e : EnvId} {name : String}

/-- A computation that succeeds, widens the realm and leaves some names bound. -/
def Binds (e : EnvId) (names : List String) {ε α : Type} (x : Eval ε α) (s : Setup) (m : Machine) :
    Prop :=
  ∃ a n, x s m = .ok a n ∧ m.realm.Widens n.realm ∧ ∀ name ∈ names, n.realm.binds e name = true

namespace Binds

variable {ε α β : Type} {names more : List String} {x : Eval ε α}

/-- Returning a value binds nothing and spoils nothing. -/
theorem pure (a : α) : Binds e [] (pure a : Eval ε α) s m :=
  ⟨a, m, rfl, .refl _, by simp⟩

/-- Two steps bind the names of both, since the second only widens what the first left. -/
theorem bind {f : α → Eval ε β} (scope : m.realm.IsScope e) (h : Binds e names x s m)
    (h' : ∀ a n, n.realm.IsScope e → (∀ name ∈ names, n.realm.binds e name = true) →
      Binds e more (f a) s n) : Binds e (names ++ more) (x >>= f) s m := by
  obtain ⟨a, n, run, widens, bound⟩ := h
  obtain ⟨b, k, run', widens', bound'⟩ := h' a n (scope.widens widens) bound
  refine ⟨b, k, by rw [bind_apply, run]; exact run', widens.trans widens', ?_⟩
  rw [List.forall_mem_append]
  exact ⟨fun name hn => (scope.widens widens).binds_widens widens' (bound name hn), bound'⟩

/-- Fewer names are bound as well. -/
theorem mono (h : Binds e names x s m) (fewer : more ⊆ names) : Binds e more x s m := by
  obtain ⟨a, n, run, widens, bound⟩ := h
  exact ⟨a, n, run, widens, fun name hn => bound name (fewer hn)⟩

/-- A step that binds nothing. -/
theorem next {f : α → Eval ε β} {a : α} {n : Machine} (scope : m.realm.IsScope e)
    (run : x s m = .ok a n) (widens : m.realm.Widens n.realm)
    (h : n.realm.IsScope e → Binds e names (f a) s n) : Binds e names (x >>= f) s m := by
  obtain ⟨b, k, run', widens', bound⟩ := h (scope.widens widens)
  exact ⟨b, k, by rw [bind_apply, run]; exact run', widens.trans widens', bound⟩

end Binds

/-- A property that is stored in a scope binds its name. -/
theorem binds_store (h : m.realm.IsScope e) {receiver : Bool}
    (is : (m.realm.environment e).store = .properties o receiver) (p : Descriptor) :
    (m.modifyObject o (·.store name p)).realm.binds e name = true := by
  have scope := h.2
  rw [is] at scope
  have own : ((m.modifyObject o (·.store name p)).realm.object o).own? name = some p := by
    rw [object_modifyObject scope.there, ObjectRecord.own?_store, if_pos rfl]
  unfold Realm.binds
  rw [show ((m.modifyObject o (·.store name p)).realm.environment e).store = _ from is]
  exact Realm.hasProperty_of_own own

/-- An assignment to a data property leaves a data property. -/
theorem isData_assigned (r : ObjectRecord) {v : Value}
    (data : ∀ d, r.own? name = some d → d.isData = true) : (r.assigned name v).isData = true := by
  unfold ObjectRecord.assigned
  cases own : r.own? name with
  | none => rfl
  | some d =>
    have := data d own
    cases d with
    | data => rfl
    | accessor => cases this

/-- A change of the own table of a scope that keeps its names. -/
theorem exists_modifyBindings (h : m.realm.IsScope e) {bindings : Bindings}
    (is : (m.realm.environment e).store = .own bindings) {f : Bindings → Bindings}
    (keeps : ∀ other, bindings.has other = true → (f bindings).has other = true) :
    ∃ n, (modifyBindings e f : Op Unit) s m = .ok () n ∧ m.realm.Widens n.realm ∧
      ∀ other, n.realm.binds e other = (f bindings).has other := by
  refine ⟨m.modifyEnvironment e _, rfl, .modifyEnvironment _ _ ?_, fun other => ?_⟩
  · rw [is]
    exact keeps
  · unfold Realm.binds
    rw [show (m.modifyEnvironment e _).realm = m.realm.modifyEnvironment e _ from rfl,
      Realm.environment_modifyEnvironment, if_pos ⟨rfl, h.1⟩, is]

/-- The creation of a function adds objects and changes only these. -/
theorem binds_createScript {ε : Type} (h : m.realm.IsScope e) (code : FunctionCode)
    (scope : EnvId) : Binds e [] (createScript code scope : Eval ε ObjectId) s m := by
  refine .next h (n := m.addObject _) rfl (.addObject _ _) fun h => ?_
  refine .next h (n := Machine.addObject _ _) rfl (.addObject _ _) fun h => ?_
  refine .next h (n := Machine.modifyObject _ _ _) rfl (.modifyObject _ _ fun r => ?_) fun h => ?_
  · exact (ObjectRecord.Widens.store r _ rfl).trans (.store _ _ rfl)
  refine .next h (n := Machine.modifyObject _ _ _) rfl (.modifyObject _ _ fun r => ?_) fun h => ?_
  · exact .store r _ rfl
  exact .next h (n := Machine.addScript _ _) rfl (.refl _) fun _ => .pure _

/-- A traversal binds the names of all its steps. -/
theorem binds_forM {α : Type} {f : α → Op Unit} {name : α → String}
    (each : ∀ a m, m.realm.IsScope e → Binds e [name a] (f a) s m) (as : List α)
    (h : m.realm.IsScope e) : Binds e (as.map name) (as.forM f) s m := by
  induction as generalizing m with
  | nil => exact .pure ()
  | cons a as ih => exact (each a m h).bind h fun _ n h _ => ih h

section

variable [Natives]

/-- A definition that a plain scope object accepts stores one property and changes nothing else. -/
theorem define_scope (h : m.realm.IsPlainScope o) {d : Definition} {p : Descriptor}
    (accepted : (m.realm.object o).accept name d = .ok p) (strict : Bool) :
    define o name d strict s m = .ok true (m.modifyObject o (·.store name p)) := by
  rw [define, bind_apply]
  change (if (m.realm.object o).cls ≠ .array then _ else _ : Op Bool) s m = _
  rw [if_pos h.cls, defineOrdinary_apply, accepted]

/-- An assignment to a property of a scope does nothing or stores a value. -/
theorem put_scope (h : m.realm.IsPlainScope o) (v : Value) :
    put o name v false s m = .ok () m ∨
      ∃ p, p.isData = true ∧ put o name v false s m = .ok () (m.modifyObject o (·.store name p)) := by
  have data (d : Descriptor) (own : (m.realm.object o).own? name = some d) : d.isData = true :=
    h.isData (Realm.property?_of_own own)
  have read : (Eval.object o : Op _) s m = .ok (m.realm.object o) m := rfl
  have looked : (property? o name : Op _) s m = .ok (m.realm.property? o name) m := rfl
  cases allowed : m.realm.canPut o name with
  | false =>
    left
    simp only [put, bind_apply, get_apply, allowed, Bool.not_false, Bool.false_eq_true, if_true,
      if_false, pure_apply]
  | true =>
    right
    let stored : Value := if m.isAmbiguousWrite (m.realm.object o).createdLevel then .unknown else v
    refine ⟨(m.realm.object o).assigned name stored, isData_assigned _ data, ?_⟩
    have weakened : (weaken (m.realm.object o).createdLevel v : Op Value) s m = .ok stored m := rfl
    have defined {d : Definition} (assigns : (m.realm.object o).Assigns name stored d) :=
      define_scope (s := s) h assigns.accept false
    cases own : (m.realm.object o).own? name with
    | some d =>
      have plain := data d own
      cases d with
      | accessor => cases plain
      | data w writable e c =>
        obtain rfl : writable = true := by simpa [Realm.canPut, own] using allowed
        simp only [put, bind_apply, get_apply, allowed, Bool.not_true, Bool.false_eq_true, if_false,
          read, weakened, own, defined (.old own), pure_apply]
    | none =>
      have new := defined (.new own h.extensible)
      -- what is inherited is no accessor, so that the new property hides it
      cases found : m.realm.property? o name with
      | none =>
        simp only [put, bind_apply, get_apply, allowed, Bool.not_true, Bool.false_eq_true, if_false,
          read, weakened, own, looked, found, new, pure_apply]
      | some d =>
        have plain := h.isData found
        cases d with
        | accessor => cases plain
        | data w writable e c =>
          simp only [put, bind_apply, get_apply, allowed, Bool.not_true, Bool.false_eq_true,
            if_false, read, weakened, own, looked, found, new, pure_apply]

/-- To create a binding for a free name binds it, in a scope of either kind. -/
theorem binds_createBinding (h : m.realm.IsScope e) (free : m.realm.binds e name = false)
    (deletable : Bool) : Binds e [name] (createBinding e name deletable) s m := by
  have scope := h.2
  have read : (environment e : Op _) s m = .ok (m.realm.environment e) m := rfl
  cases is : (m.realm.environment e).store with
  | own bindings =>
    have created (other : String) :
        (bindings.create name deletable).has other = true ↔ bindings.has other = true ∨ other = name := by
      rw [Bindings.has_iff, Bindings.names_create, Bindings.has_iff]
      split
      · grind
      · simp
    obtain ⟨n, run, widens, bound⟩ := exists_modifyBindings (s := s) (f := (·.create name deletable))
      h is fun other there => (created other).2 (.inl there)
    refine ⟨(), n, ?_, widens, List.forall_mem_singleton.2 ?_⟩
    · simp only [createBinding, bind_apply, read, is, run]
    · rw [bound]
      exact (created name).2 (.inr rfl)
  | properties o receiver =>
    rw [is] at scope
    -- a property of that name would be a binding already
    have absent : (m.realm.object o).own? name = none := by
      cases own : (m.realm.object o).own? name with
      | none => rfl
      | some d =>
        unfold Realm.binds at free
        rw [is] at free
        simp only [Realm.hasProperty_of_own own] at free
        cases free
    have accepted : (m.realm.object o).accept name
        (.ofDescriptor (.data .undefined true true deletable)) =
          .ok (.data .undefined true true deletable) := by
      rw [ObjectRecord.accept, absent]
      exact if_pos scope.extensible
    refine ⟨(), m.modifyObject o (·.store name (.data .undefined true true deletable)), ?_,
      .modifyObject _ _ fun r => .store r name rfl,
      List.forall_mem_singleton.2 (binds_store h is _)⟩
    simp only [createBinding, bind_apply, read, is, define_scope scope accepted, pure_apply]

/-- To set a binding keeps the names that a scope binds. -/
theorem binds_setBinding (h : m.realm.IsScope e) (bound : m.realm.binds e name = true) (v : Value) :
    Binds e [] (setBinding e name v) s m := by
  have scope := h.2
  have read : (environment e : Op _) s m = .ok (m.realm.environment e) m := rfl
  cases is : (m.realm.environment e).store with
  | own bindings =>
    have there : bindings.has name = true := by
      unfold Realm.binds at bound
      rw [is] at bound
      exact bound
    let w : Value := if m.isAmbiguousWrite (m.realm.environment e).createdLevel then .unknown else v
    obtain ⟨n, run, widens, -⟩ := exists_modifyBindings (s := s) (f := (·.assign name w)) h is
      fun other there => by rwa [Bindings.has_iff, Bindings.names_assign, ← Bindings.has_iff]
    have weakened : (weaken (m.realm.environment e).createdLevel v : Op Value) s m = .ok w m := rfl
    refine ⟨(), n, ?_, widens, by simp⟩
    simp only [setBinding, bind_apply, read, weakened, is, there, if_true, run]
  | properties o receiver =>
    rw [is] at scope
    let w : Value := if m.isAmbiguousWrite (m.realm.environment e).createdLevel then .unknown else v
    have weakened : (weaken (m.realm.environment e).createdLevel v : Op Value) s m = .ok w m := rfl
    have stored : put o name w false s m = .ok () m ∨ ∃ p, p.isData = true ∧
        put o name w false s m = .ok () (m.modifyObject o (·.store name p)) := put_scope scope w
    obtain run | ⟨p, data, run⟩ := stored
    · refine ⟨(), m, ?_, .refl _, by simp⟩
      simp only [setBinding, bind_apply, read, weakened, is, run]
    · refine ⟨(), m.modifyObject o (·.store name p), ?_,
        .modifyObject _ _ fun r => .store r name data, by simp⟩
      simp only [setBinding, bind_apply, read, weakened, is, run]

/-- To declare a variable binds its name, whether it was bound before or not. -/
theorem binds_declare (h : m.realm.IsScope e) (name : String) :
    Binds e [name] (declare e name) s m := by
  cases bound : m.realm.binds e name with
  | true =>
    refine ⟨(), m, ?_, .refl _, List.forall_mem_singleton.2 bound⟩
    simp only [declare, bind_apply, get_apply, bound, Bool.not_true, Bool.false_eq_true, if_false,
      pure_apply]
  | false =>
    obtain ⟨a, n, run, widens, bound'⟩ := binds_createBinding (s := s) h bound false
    refine ⟨(), n, ?_, widens, bound'⟩
    simp only [declare, bind_apply, get_apply, bound, Bool.not_false, if_true, run]

/-- To declare a function binds its name. -/
theorem binds_declareFunction (h : m.realm.IsScope e) (code : FunctionCode) :
    Binds e [code.name] (declareFunction e code) s m := by
  refine .next h (get_apply ..) (.refl _) fun h => ?_
  refine (binds_createScript h code _).bind h fun f n h _ => ?_
  refine (binds_declare h code.name).bind h fun _ n h bound => ?_
  exact binds_setBinding h (bound _ List.mem_cons_self) _

/-- To declare the arguments object keeps the names that a scope binds. -/
theorem binds_declareArguments (h : m.realm.IsScope e) (o : ObjectId) :
    Binds e [] (declareArguments e o) s m := by
  refine .next h (get_apply ..) (.refl _) fun h => ?_
  cases bound : m.realm.binds e "arguments" with
  | true => exact .pure ()
  | false =>
    have created := (binds_createBinding (s := s) h bound false).bind h fun _ n h bound =>
      binds_setBinding h (bound _ List.mem_cons_self) (.object o)
    exact created.mono (List.nil_subset _)

/-- Binding what a body declares succeeds. The names of the functions that the search finds are
bound then, and those of the variables. -/
theorem binds_instantiate (h : m.realm.IsScope e) (body : List Statement)
    (arguments : Option ObjectId) :
    Binds e ((hoistedFunctions body).map FunctionCode.name ++ varNames body)
      (instantiate e body arguments) s m := by
  have all (m : Machine) (h : m.realm.IsScope e) :
      Binds e (varNames body) (declareAll e (varNames body)) s m := by
    have each : Binds e ((varNames body).map id) (declareAll e (varNames body)) s m :=
      binds_forM (fun name m h => binds_declare h name) (varNames body) h
    rwa [List.map_id] at each
  refine (binds_forM (fun code m h => binds_declareFunction h code) _ h).bind h fun _ n h _ => ?_
  cases arguments with
  | none => exact all n h
  | some o =>
    have bound := (binds_declareArguments (s := s) h o).bind h fun _ n h _ => all n h
    exact bound

/-- **All function declarations of a body are bound.** If no loop has any, the search finds exactly
the declarations of a body, in source order. Entering the body succeeds then, and binds all their
names. -/
theorem functions_hoisted {body : List Statement} (bare : HasBareLoops body) :
    hoistedFunctions body = declarations body ∧
      ∀ (e : EnvId) (arguments : Option ObjectId) (s : Setup) (m : Machine), m.realm.IsScope e →
        ∃ n, instantiate e body arguments s m = .ok () n ∧
          ∀ code ∈ declarations body, n.realm.binds e code.name = true := by
  have found := (hoistedFunctions_eq_iff body).2 bare
  refine ⟨found, fun e arguments s m h => ?_⟩
  obtain ⟨a, n, run, -, bound⟩ := binds_instantiate (s := s) h body arguments
  refine ⟨n, run, fun code hcode => bound _ (List.mem_append_left _ ?_)⟩
  rw [found]
  exact List.mem_map_of_mem hcode

end

/-- A function without parameters whose body does nothing. -/
def emptyFunction : FunctionCode := .mk default (some ⟨default, "f"⟩) [] default []

/-- A declaration in a block is bound when the program is entered. -/
theorem functions_hoisted_block :
    ∃ n, instantiate Realm.globalEnv
        [.block (.mk default [.functionDeclaration emptyFunction])] none ⟨{}, .core, "", false⟩
        (.start Realm.core) = .ok () n ∧
      n.realm.binds Realm.globalEnv "f" = true := by
  have within : statementsWithin [.block (.mk default [.functionDeclaration emptyFunction])] =
      [.block (.mk default [.functionDeclaration emptyFunction]),
        .functionDeclaration emptyFunction] := by
    simp [statementsWithin, Statement.parts, Block.body]
  have bare : HasBareLoops [.block (.mk default [.functionDeclaration emptyFunction])] := by
    intro st hst loop
    rw [within] at hst
    simp only [List.mem_cons, List.not_mem_nil, or_false] at hst
    obtain rfl | rfl := hst <;> cases loop
  have core : (Machine.start Realm.core).realm.IsCore := Realm.isCore_core.congr rfl
  have scope : (Machine.start Realm.core).realm.IsScope Realm.globalEnv :=
    core.isScope { hasRoot_core with }
  obtain ⟨n, run, bound⟩ := (functions_hoisted bare).2 Realm.globalEnv none ⟨{}, .core, "", false⟩ _
    scope
  refine ⟨n, run, bound emptyFunction ?_⟩
  rw [declarations, within]
  exact List.mem_singleton.2 rfl

/-- **A declaration in the body of a loop is not found.** In `while (false) { function f() { } }` there
is one. The search misses it, so that the name is not bound when the program is entered. -/
theorem functions_not_hoisted_loop :
    declarations [.whileLoop default (.literal default (.bool false))
      (.block (.mk default [.functionDeclaration emptyFunction]))] = [emptyFunction] ∧
    hoistedFunctions [.whileLoop default (.literal default (.bool false))
      (.block (.mk default [.functionDeclaration emptyFunction]))] = [] ∧
    ∃ n, instantiate Realm.globalEnv [.whileLoop default (.literal default (.bool false))
        (.block (.mk default [.functionDeclaration emptyFunction]))] none ⟨{}, .core, "", false⟩
        (.start Realm.core) = .ok () n ∧
      n.realm.binds Realm.globalEnv "f" = false := by
  refine ⟨?_, rfl, .start Realm.core, rfl, by decide +kernel⟩
  simp [declarations, statementsWithin, Statement.parts, Block.body]
  rfl

end Op

end AbstractScript
