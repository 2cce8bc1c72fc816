import DesignTokens.Pipeline.Variables
import DesignTokens.Proofs.Pipeline.Lookup

/-!
# Accepted edits of variables

What each edit of a variable has checked when it is accepted, and the pipeline that it then leaves.
A refused edit leaves the pipeline as it was.
-/

namespace DesignTokens
namespace Pipeline

variable {p q : Pipeline} {key name value : String} {slug : String → String}

/-! ## Accepted runs -/

/-- What an accepted `addVariable` has checked, and the variable that it appends with a fresh
identity. -/
theorem run_addVariable_eq_ok {values : List String} {id : VariableId} :
    (addVariable slug name key values).run p = .ok id q ↔
      checkName name = .ok () ∧ checkKey key = .ok () ∧ p.variableFor? key = none ∧
        checkValues key values = .ok () ∧ id = ⟨freshId slug "var" key (p.vars.map (·.id.text))⟩ ∧
        q = { p with vars := p.vars ++ [⟨id, name, key, values⟩] } := by
  simp only [addVariable, Edit.run_check_bind_eq_ok, Edit.run_get_bind_eq_ok,
    Edit.run_guard_eq_ok, Edit.run_set_bind_eq_ok, Edit.run_pure_eq_ok]
  constructor
  · rintro ⟨hname, hkey, hfree, hvalues, rfl, rfl⟩
    exact ⟨hname, hkey, by simpa using hfree, hvalues, rfl, rfl⟩
  · rintro ⟨hname, hkey, hfree, hvalues, rfl, rfl⟩
    exact ⟨hname, hkey, by simp [hfree], hvalues, rfl, rfl⟩

/-- What an accepted `renameVariable` has checked and done. -/
theorem run_renameVariable_eq_ok {u : Unit} :
    (renameVariable key name).run p = .ok u q ↔
      checkName name = .ok () ∧ (∃ found, p.variableFor? key = some found) ∧
        q = p.updateVariable key ({ · with name := name }) := by
  simp only [renameVariable, Edit.run_check_bind_eq_ok, run_needVariable_bind_eq_ok,
    Edit.run_modify_eq_ok]
  constructor
  · rintro ⟨hname, found, hfound, rfl⟩
    exact ⟨hname, ⟨found, hfound⟩, rfl⟩
  · rintro ⟨hname, ⟨found, hfound⟩, rfl⟩
    exact ⟨hname, found, hfound, rfl⟩

/-- What an accepted `setVariableKey` has checked and done; the same key again changes nothing. -/
theorem run_setVariableKey_eq_ok {newKey : String} {u : Unit} :
    (setVariableKey key newKey).run p = .ok u q ↔
      (∃ found, p.variableFor? key = some found) ∧ checkKey newKey = .ok () ∧
        ((key = newKey ∧ q = p) ∨
          (p.variableFor? newKey = none ∧ q = p.withVariableKey key newKey)) := by
  simp only [setVariableKey, run_needVariable_bind_eq_ok, Edit.run_check_bind_eq_ok]
  constructor
  · rintro ⟨found, hfound, hkey, hrest⟩
    refine ⟨⟨found, hfound⟩, hkey, ?_⟩
    by_cases hsame : key = newKey
    · rw [if_pos hsame, Edit.run_pure_eq_ok] at hrest
      exact Or.inl ⟨hsame, hrest.2.symm⟩
    · rw [if_neg hsame] at hrest
      simp only [Edit.run_get_bind_eq_ok, Edit.run_guard_eq_ok, Edit.run_set_eq_ok] at hrest
      exact Or.inr ⟨by simpa using hrest.1, hrest.2.symm⟩
  · rintro ⟨⟨found, hfound⟩, hkey, ⟨hsame, rfl⟩ | ⟨hfree, rfl⟩⟩
    · refine ⟨found, hfound, hkey, ?_⟩
      rw [if_pos hsame]
      rfl
    · refine ⟨found, hfound, hkey, ?_⟩
      have hne : key ≠ newKey := by
        rintro rfl
        rw [hfree] at hfound
        cases hfound
      rw [if_neg hne]
      simp only [Edit.run_get_bind_eq_ok, Edit.run_guard_eq_ok, Edit.run_set_eq_ok]
      exact ⟨by simp [hfree], trivial⟩

/-- What an accepted `removeVariable` returns and leaves. -/
theorem run_removeVariable_eq_ok {removed : Variable} :
    (removeVariable key).run p = .ok removed q ↔
      p.variableFor? key = some removed ∧ q = p.withoutVariable key := by
  simp only [removeVariable, run_needVariable_bind_eq_ok, Edit.run_modify_bind_eq_ok,
    Edit.run_pure_eq_ok]
  constructor
  · rintro ⟨found, hfound, rfl, rfl⟩
    exact ⟨hfound, rfl⟩
  · rintro ⟨hfound, rfl⟩
    exact ⟨removed, hfound, rfl, rfl⟩

/-- What an accepted `addVariableValue` has checked and done. -/
theorem run_addVariableValue_eq_ok {u : Unit} :
    (addVariableValue key value).run p = .ok u q ↔
      ∃ found, p.variableFor? key = some found ∧ checkName value = .ok () ∧
        value ∉ found.values ∧
        q = p.updateVariable key fun v => { v with values := v.values ++ [value] } := by
  simp only [addVariableValue, run_needVariable_bind_eq_ok, Edit.run_check_bind_eq_ok,
    Edit.run_guard_eq_ok, Edit.run_modify_eq_ok, eq_comm (b := q)]

/-- What an accepted `removeVariableValue` has checked and done. -/
theorem run_removeVariableValue_eq_ok {u : Unit} :
    (removeVariableValue key value).run p = .ok u q ↔
      ∃ found, p.variableFor? key = some found ∧ value ∈ found.values ∧
        q = p.updateVariable key fun v => { v with values := v.values.erase value } := by
  simp only [removeVariableValue, run_needVariable_bind_eq_ok, Edit.run_guard_eq_ok,
    Edit.run_modify_eq_ok, eq_comm (b := q), not_not]

/-- What an accepted `renameVariableValue` has checked and done. -/
theorem run_renameVariableValue_eq_ok {newValue : String} {u : Unit} :
    (renameVariableValue key value newValue).run p = .ok u q ↔
      ∃ found, p.variableFor? key = some found ∧ checkName newValue = .ok () ∧
        value ∈ found.values ∧ (value = newValue ∨ newValue ∉ found.values) ∧
        q = (p.withVariableValue key value newValue).refreshPageNames := by
  simp only [renameVariableValue, run_needVariable_bind_eq_ok, Edit.run_check_bind_eq_ok,
    Edit.run_guard_eq_ok, Edit.run_modify_eq_ok, eq_comm (b := q), not_not, not_and_or, Ne]

/-! ## Refusals -/

theorem atomic_addVariable (slug : String → String) (name key : String) (values : List String) :
    Edit.Atomic (addVariable slug name key values) := by
  refine Edit.readOnly_check.atomic_bind fun _ => Edit.readOnly_check.atomic_bind fun _ =>
    Edit.readOnly_get.atomic_bind fun p => Edit.atomic_throw_bind.ite ?_
  refine Edit.readOnly_check.atomic_bind fun _ => ?_
  exact Edit.atomic_set.bind_total fun _ => Edit.total_pure

theorem atomic_renameVariable (key name : String) : Edit.Atomic (renameVariable key name) :=
  Edit.readOnly_check.atomic_bind fun _ => (readOnly_needVariable key).atomic_bind fun _ =>
    Edit.atomic_modify

theorem atomic_setVariableKey (key newKey : String) : Edit.Atomic (setVariableKey key newKey) := by
  refine (readOnly_needVariable key).atomic_bind fun _ => Edit.readOnly_check.atomic_bind fun _ =>
    Edit.atomic_pure.ite ?_
  exact Edit.readOnly_get.atomic_bind fun p => Edit.atomic_throw_bind.ite Edit.atomic_set

theorem atomic_removeVariable (key : String) : Edit.Atomic (removeVariable key) :=
  (readOnly_needVariable key).atomic_bind fun _ =>
    Edit.atomic_modify.bind_total fun _ => Edit.total_pure

theorem atomic_addVariableValue (key value : String) : Edit.Atomic (addVariableValue key value) :=
  (readOnly_needVariable key).atomic_bind fun _ => Edit.readOnly_check.atomic_bind fun _ =>
    Edit.atomic_throw_bind.ite Edit.atomic_modify

theorem atomic_removeVariableValue (key value : String) :
    Edit.Atomic (removeVariableValue key value) :=
  (readOnly_needVariable key).atomic_bind fun _ => Edit.atomic_throw_bind.ite Edit.atomic_modify

/-- A refused `renameVariableValue` leaves the pipeline as it was. -/
theorem atomic_renameVariableValue (key value newValue : String) :
    Edit.Atomic (renameVariableValue key value newValue) :=
  (readOnly_needVariable key).atomic_bind fun _ => Edit.readOnly_check.atomic_bind fun _ =>
    Edit.atomic_throw_bind.ite (Edit.atomic_throw_bind.ite Edit.atomic_modify)

end Pipeline
end DesignTokens
