import AbstractScript.Proofs.Lasting
import AbstractScript.Proofs.Leading
import AbstractScript.Proofs.Soundness

/-!
# Deleting a global name

A name that refers to a property of the global object is deleted whether or not that may happen: the
level of the global object is not asked for. The realm is left as it was exactly if the global object
has no such property of its own that is configurable (`Expression.delete_name_kept_iff`); else the
property is removed, also where the deletion only may happen
(`Expression.delete_name_removed_implicitGlobal`).
-/
namespace AbstractScript

open Eval

/-! ## Deletions -/

variable {s : Setup} {μ : Moment} {name : String}

/-- The global object without a property, if that can be removed. -/
def Realm.withoutGlobal (r : Realm) (name : String) : Realm :=
  if (r.object globalObject).canDelete name then r.modifyObject globalObject (·.remove name) else r

/-- A configurable property is removed. -/
theorem Realm.own?_withoutGlobal {r : Realm} {d : Descriptor}
    (own : (r.object globalObject).own? name = some d) (configurable : d.isConfigurable = true) :
    ((r.withoutGlobal name).object globalObject).own? name = none := by
  have inside : globalObject.index < r.objects.size := by
    by_contra outside
    rw [object_of_size_le (Nat.not_lt.1 outside)] at own
    cases own
  have can : (r.object globalObject).canDelete name = true := by
    rw [ObjectRecord.canDelete, own]
    exact configurable
  rw [withoutGlobal, if_pos can, object_modifyObject, if_pos ⟨rfl, inside⟩,
    ObjectRecord.own?_remove, if_pos rfl]

/-- The realm is left as it was exactly if there is no configurable property to remove. -/
theorem Realm.withoutGlobal_eq_iff {r : Realm} : r.withoutGlobal name = r ↔
    ∀ d, (r.object globalObject).own? name = some d → d.isConfigurable = false := by
  constructor
  · intro same d own
    by_contra configurable
    have removed := own?_withoutGlobal own (Bool.not_eq_false _ ▸ configurable)
    rw [same, own] at removed
    cases removed
  · intro fixed
    rw [withoutGlobal]
    split
    next can =>
      refine modifyObject_of_fixed (ObjectRecord.remove_of_own? ?_)
      cases own : (r.object globalObject).own? name with
      | none => rfl
      | some d =>
        rw [ObjectRecord.canDelete, own] at can
        exact absurd can (Bool.eq_false_iff.1 (fixed d own))
    · rfl

namespace Op

theorem leads_delete : Leads s (delete Realm.globalObject name false) μ
    ((μ.realm.object Realm.globalObject).canDelete name)
    { μ with realm := μ.realm.withoutGlobal name } := by
  refine .object_bind ?_
  rw [Realm.withoutGlobal]
  split
  next can =>
    rw [can]
    exact .modify_bind (fun m hm => hm ▸ rfl) (.pure true)
  next can =>
    rw [Bool.not_eq_true] at can
    rw [can]
    exact .pure false

/-- A binding of an environment that the global object stands for is a property of it. -/
theorem leads_deleteBinding {e : EnvId} {provides : Bool}
    (global : (μ.realm.environment e).store = .properties Realm.globalObject provides) :
    Leads s (deleteBinding e name) μ ((μ.realm.object Realm.globalObject).canDelete name)
      { μ with realm := μ.realm.withoutGlobal name } := by
  refine .get_bind fun m hm => ?_
  have store : (m.realm.environment e).store = .properties Realm.globalObject provides := by
    rw [← hm] at global
    exact global
  simp only [store]
  exact leads_delete

end Op

/-- Evaluates `delete` of a name. -/
theorem Rule.leads_delete {e : EnvId} {provides : Bool} {reference : Rule Reference}
    (resolved : Leads s reference.run μ (.ok (.environment e name)) μ)
    (global : (μ.realm.environment e).store = .properties Realm.globalObject provides)
    (x : Run Completion) : Leads s (Rule.unary .delete true reference x).complete μ
      (.normal (.bool ((μ.realm.object Realm.globalObject).canDelete name)))
      { μ with realm := μ.realm.withoutGlobal name } := by
  have deleted : Leads s (Rule.deleteReference (.environment e name)) μ
      (.bool ((μ.realm.object Realm.globalObject).canDelete name))
      { μ with realm := μ.realm.withoutGlobal name } :=
    (Op.leads_deleteBinding global).bind (.pure _)
  exact leads_complete (leads_bind resolved (leads_bind (leads_native deleted) (.pure _)))

/-- **Deleting a name that is bound in the global object leaves the realm as it was exactly if the
object has no configurable property of that name itself**, at every ambiguity level. Such a property is
removed. -/
theorem Expression.delete_name_kept_iff (call : ScriptCall) {s : Setup}
    (rules : s.rules.handler? .unaryExpression = some (.core .unaryExpression)) (span : Span)
    (id : Identifier) {m : Machine} {e : EnvId} {provides : Bool}
    (resolved : m.realm.resolve m.lexicalEnv id.name = .environment e id.name)
    (global : (m.realm.environment e).store = .properties Realm.globalObject provides) :
    ∃ c n, (Expression.unary span .delete (.identifier id)).evaluate call s m = .ok c n ∧
      (n.realm = m.realm ↔ ∀ d, (m.realm.object Realm.globalObject).own? id.name = some d →
        d.isConfigurable = false) ∧
      (n.realm ≠ m.realm → (n.realm.object Realm.globalObject).own? id.name = none) := by
  have reference : Leads s (Rule.referring .identifier id.span (Rule.resolve id.name)).run m.moment
      (.ok (.environment e id.name)) m.moment := by
    refine .bracket _ _ _ (Rule.leads_get_bind fun k hk => ?_)
    -- where the name is resolved, the realm and the contexts are the same
    have here : k.realm.resolve k.lexicalEnv id.name = .environment e id.name := by
      rw [Machine.lexicalEnv, show k.realm = m.realm from congrArg Moment.realm hk,
        show k.contexts = m.contexts from congrArg Moment.contexts hk]
      exact resolved
    rw [← here]
    exact .pure _
  have leads : Leads s ((Expression.unary span .delete (.identifier id)).evaluate call) m.moment
      (.normal (.bool ((m.realm.object Realm.globalObject).canDelete id.name)))
      { m.moment with realm := m.realm.withoutGlobal id.name } := by
    refine .setup_bind ?_
    rw [rules]
    refine .bracket _ _ _ ?_
    rw [Handler.apply, if_pos rfl]
    exact Rule.leads_delete reference global _
  obtain ⟨n, ran, left⟩ := leads.run m rfl
  have realm : n.realm = m.realm.withoutGlobal id.name := congrArg Moment.realm left
  refine ⟨_, n, ran, ?_, fun changed => ?_⟩
  · rw [realm]
    exact Realm.withoutGlobal_eq_iff
  · rw [realm] at changed ⊢
    rw [Ne, Realm.withoutGlobal_eq_iff] at changed
    push Not at changed
    obtain ⟨d, own, configurable⟩ := changed
    exact Realm.own?_withoutGlobal own (by simpa using configurable)

/-! ### Deletions that may happen -/

open Analyzer

/-- `first; if (u) delete x;` -/
def possibleDeletion (first : Statement) : Program where
  span := default
  file := "delete.js"
  body :=
    [first, .branch default (nameAt "u")
      (.expression default (.unary default .delete (nameAt "x"))) none]

/-- The machine in an ambiguous block after the first statement. -/
def possibleDeletionStart (first : Statement) : Machine :=
  (withUnknown.machineAfter (possibleDeletion first) [first]).enterBlock

/-- `var x = true;` -/
def declaredName : Statement :=
  .varDeclaration default [.mk default ⟨default, "x"⟩ (some (boolAt true))]

/-- `x = true;` -/
def implicitGlobal : Statement := .expression default (assignAt "x" (boolAt true))

/-- A declared name is no configurable property, so that it is kept. -/
theorem Expression.delete_name_kept_declaredName :
    (possibleDeletionStart declaredName).isAmbiguousWrite
        ((possibleDeletionStart declaredName).realm.object Realm.globalObject).createdLevel = true ∧
      ∃ c n, (Expression.unary default .delete (nameAt "x")).evaluate (callWithin 1)
          (withUnknown.setup (possibleDeletion declaredName))
          (possibleDeletionStart declaredName) = .ok c n ∧
        n.realm = (possibleDeletionStart declaredName).realm := by
  have resolved : (possibleDeletionStart declaredName).realm.resolve
      (possibleDeletionStart declaredName).lexicalEnv "x" = .environment Realm.globalEnv "x" := by
    decide +kernel
  have global : ∃ provides, ((possibleDeletionStart declaredName).realm.environment
      Realm.globalEnv).store = .properties Realm.globalObject provides := by
    have seen : (match ((possibleDeletionStart declaredName).realm.environment
          Realm.globalEnv).store with
        | .properties o _ => o == Realm.globalObject
        | .own _ => false) = true := by
      decide +kernel
    cases held : ((possibleDeletionStart declaredName).realm.environment Realm.globalEnv).store with
    | properties o provides =>
      rw [held] at seen
      exact ⟨provides, by rw [beq_iff_eq.1 seen]⟩
    | own b =>
      rw [held] at seen
      cases seen
  obtain ⟨provides, global⟩ := global
  have fixed : ∀ d, ((possibleDeletionStart declaredName).realm.object
      Realm.globalObject).own? "x" = some d → d.isConfigurable = false := by
    have seen : (((possibleDeletionStart declaredName).realm.object Realm.globalObject).own?
        "x").all (!·.isConfigurable) = true := by
      decide +kernel
    intro d own
    rw [own] at seen
    simpa using seen
  have rules : (withUnknown.setup (possibleDeletion declaredName)).rules.handler? .unaryExpression =
      some (.core .unaryExpression) := rfl
  obtain ⟨c, n, ran, kept, -⟩ := Expression.delete_name_kept_iff (callWithin 1) rules default
    ⟨default, "x"⟩ resolved global
  exact ⟨by decide +kernel, c, n, ran, kept.2 fixed⟩

/-- A global that was only assigned is removed where that may or may not happen. The analysis has lost
the name, which is still bound if `u` is false. -/
theorem Expression.delete_name_removed_implicitGlobal :
    (possibleDeletionStart implicitGlobal).isAmbiguousWrite
        ((possibleDeletionStart implicitGlobal).realm.object Realm.globalObject).createdLevel = true ∧
      (((possibleDeletionStart implicitGlobal).realm.object Realm.globalObject).own? "x").isSome =
        true ∧
      ((((Expression.unary default .delete (nameAt "x")).evaluate (callWithin 1)).after
        (withUnknown.setup (possibleDeletion implicitGlobal))
        (possibleDeletionStart implicitGlobal)).realm.object Realm.globalObject).own? "x" = none ∧
      (withUnknown.analyze (possibleDeletion implicitGlobal)).global? "x" = none ∧
      (withUnknown.analyzeWith [("u", .bool false)] (possibleDeletion implicitGlobal)).global? "x" =
        some (.bool true) := by
  refine ⟨by decide +kernel, by decide +kernel, by decide +kernel, by decide +kernel,
    by decide +kernel⟩

end AbstractScript
