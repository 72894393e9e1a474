import SnapshotLisp.Form
import SnapshotLisp.Proofs.Comparison
import Mathlib.Data.List.Forall2

/-!
Two definitions that are read side by side. The names in them and the places of their lists decide
what is read; anything else shows in the complaints only.
-/
namespace SnapshotLisp

namespace Closure

/-- The expressions are the same name, or none of them is one. What may be said against the one
corresponds to what may be said against the other. -/
structure ReadAlike (k : Comparison) (e e' : Expr) : Prop where
  named : e.identifier? = e'.identifier?
  shown : ∀ expected : String,
    k.error (invalid (expected ++ e.render) e) (invalid (expected ++ e'.render) e')
  refused : ∀ details, k.error (invalid details e) (invalid details e')

variable {k : Comparison} {e e' : Expr}

theorem readName_checks (alike : ReadAlike k e e') :
    k.Checks (· = ·) (readName e) (readName e') := by
  unfold readName
  rw [← alike.named]
  split
  · exact .error (alike.shown _)
  · split
    · exact .error (alike.refused _)
    · exact .ok rfl

theorem readParam_checks (alike : ReadAlike k e e') :
    k.Checks (· = ·) (readParam e) (readParam e') := by
  unfold readParam
  rw [← alike.named]
  split
  · exact .error (alike.shown _)
  · exact .ok rfl

theorem mapM_readParam_checks {items items' : List Expr}
    (alike : List.Forall₂ (ReadAlike k) items items') :
    k.Checks (· = ·) (items.mapM readParam) (items'.mapM readParam) := by
  induction alike with
  | nil => exact .ok rfl
  | cons first later ih =>
    rw [List.mapM_cons, List.mapM_cons]
    apply Comparison.checks_bind (readParam_checks first)
    intro name name' same
    subst same
    apply Comparison.checks_bind ih
    intro names names' same
    subst same
    exact .ok rfl

theorem readParams_checks {lists : Group → Group → Prop} (alike : ReadAlike k e e')
    (listed : Option.Rel lists e.group? e'.group?)
    (items : ∀ g g', lists g g' → List.Forall₂ (ReadAlike k) g.items g'.items) :
    k.Checks (· = ·) (readParams e) (readParams e') := by
  unfold readParams
  generalize e.group? = left at listed
  generalize e'.group? = right at listed
  cases listed with
  | some params => exact mapM_readParam_checks (items _ _ params)
  | none => exact .error (alike.shown _)

theorem readBody_checks {bodies : Group → Group → Prop} (alike : ReadAlike k e e')
    (stored : Option.Rel bodies e.group? e'.group?) :
    k.Checks bodies (readBody e) (readBody e') := by
  unfold readBody
  generalize e.group? = left at stored
  generalize e'.group? = right at stored
  cases stored with
  | some body => exact .ok body
  | none => exact .error (alike.shown _)

theorem ofParts_checks {lists bodies : Group → Group → Prop}
    {name name' params params' body body' : Expr} (named : ReadAlike k name name')
    (listed : ReadAlike k params params')
    (parameters : Option.Rel lists params.group? params'.group?)
    (items : ∀ g g', lists g g' → List.Forall₂ (ReadAlike k) g.items g'.items)
    (stored : ReadAlike k body body') (groups : Option.Rel bodies body.group? body'.group?) :
    k.Checks (fun c c' => c.name = c'.name ∧ c.params = c'.params ∧ bodies c.body c'.body)
      (ofParts name params body) (ofParts name' params' body') := by
  apply Comparison.checks_bind (readName_checks named)
  intro text text' sameName
  apply Comparison.checks_bind (readParams_checks listed parameters items)
  intro texts texts' sameParams
  apply Comparison.checks_bind (readBody_checks stored groups)
  intro group group' related
  exact .ok ⟨sameName, sameParams, related⟩

end Closure

end SnapshotLisp
