import DesignTokens.Pipeline.Basic
import DesignTokens.Proofs.Edit

/-!
# Looking up what an edit names

An edit that names a variable, layer or page runs on only if the pipeline has it, and leaves the
pipeline as it was if not.
-/

namespace DesignTokens
namespace Pipeline

variable {p q : Pipeline} {α : Type} {a : α}

theorem readOnly_needVariable (key : String) : Edit.ReadOnly (needVariable key) := by
  refine Edit.readOnly_get.bind fun p => ?_
  cases p.variableFor? key with
  | none =>
      exact Edit.readOnly_throw
  | some found =>
      exact Edit.readOnly_pure

theorem readOnly_needLayer (id : LayerId) : Edit.ReadOnly (needLayer id) := by
  refine Edit.readOnly_get.bind fun p => ?_
  cases p.layer? id with
  | none =>
      exact Edit.readOnly_throw
  | some layer =>
      exact Edit.readOnly_pure

theorem readOnly_needPage (id : PageId) : Edit.ReadOnly (needPage id) := by
  refine Edit.readOnly_get.bind fun p => ?_
  cases p.page? id with
  | none =>
      exact Edit.readOnly_throw
  | some page =>
      exact Edit.readOnly_pure

/-- An edit behind the lookup of a variable has found it. -/
theorem run_needVariable_bind_eq_ok {key : String} {f : Variable → PipelineEdit α} :
    (needVariable key >>= f).run p = .ok a q ↔
      ∃ found, p.variableFor? key = some found ∧ (f found).run p = .ok a q := by
  simp only [needVariable, bind_assoc, Edit.run_get_bind_eq_ok]
  cases hfound : p.variableFor? key with
  | none =>
      simp only [Edit.run_bind_eq_ok, Edit.run_throw_eq_ok, false_and, exists_false, reduceCtorEq]
  | some found =>
      simp

/-- An edit behind the lookup of a layer has found it. -/
theorem run_needLayer_bind_eq_ok {id : LayerId} {f : Layer → PipelineEdit α} :
    (needLayer id >>= f).run p = .ok a q ↔
      ∃ layer, p.layer? id = some layer ∧ (f layer).run p = .ok a q := by
  simp only [needLayer, bind_assoc, Edit.run_get_bind_eq_ok]
  cases hlayer : p.layer? id with
  | none =>
      simp only [Edit.run_bind_eq_ok, Edit.run_throw_eq_ok, false_and, exists_false, reduceCtorEq]
  | some layer =>
      simp

theorem run_needPage_eq_ok {id : PageId} {page : Page} :
    (needPage id).run p = .ok page q ↔ p.page? id = some page ∧ p = q := by
  simp only [needPage, Edit.run_get_bind_eq_ok]
  cases hpage : p.page? id with
  | none =>
      simp only [Edit.run_throw_eq_ok, reduceCtorEq, false_and]
  | some found =>
      simp only [Edit.run_pure_eq_ok, Option.some.injEq]

/-- An edit behind the lookup of a page has found it. -/
theorem run_needPage_bind_eq_ok {id : PageId} {f : Page → PipelineEdit α} :
    (needPage id >>= f).run p = .ok a q ↔
      ∃ page, p.page? id = some page ∧ (f page).run p = .ok a q := by
  simp only [needPage, bind_assoc, Edit.run_get_bind_eq_ok]
  cases hpage : p.page? id with
  | none =>
      simp only [Edit.run_bind_eq_ok, Edit.run_throw_eq_ok, false_and, exists_false, reduceCtorEq]
  | some page =>
      simp

end Pipeline
end DesignTokens
