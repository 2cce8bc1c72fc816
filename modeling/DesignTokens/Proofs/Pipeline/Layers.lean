import DesignTokens.Pipeline.Layers
import DesignTokens.Proofs.Pipeline.Lookup

/-!
# Accepted edits of layers

What each edit of a layer has checked when it is accepted, and the pipeline that it then leaves. A
refused edit leaves the pipeline as it was.
-/

namespace DesignTokens
namespace Pipeline

variable {p q : Pipeline} {id : LayerId} {key name : String} {slug : String → String}

/-! ## Accepted runs -/

/-- What an accepted `addLayer` has checked, and the layer that it appends with a fresh identity and
the next order. -/
theorem run_addLayer_eq_ok {variableKeys : List String} {required : Bool} :
    (addLayer slug name variableKeys required).run p = .ok id q ↔
      checkName name = .ok () ∧ p.layerNamed? name = none ∧
        p.checkBindings name [] variableKeys = .ok () ∧
        id = ⟨freshId slug "layer" name (p.layers.map (·.id.text))⟩ ∧
        ∃ order, p.nextOrder? = some order ∧
          q = { p with layers := p.layers ++ [⟨id, name, order, variableKeys, required⟩] } := by
  simp only [addLayer, Edit.run_check_bind_eq_ok, Edit.run_get_bind_eq_ok, Edit.run_guard_eq_ok]
  cases p.nextOrder? with
  | none =>
      simp [Edit.run_throw_eq_ok]
  | some order =>
      simp only [Edit.run_set_bind_eq_ok, Edit.run_pure_eq_ok, Option.some.injEq]
      constructor
      · rintro ⟨hname, hfree, hbindings, rfl, rfl⟩
        exact ⟨hname, by simpa using hfree, hbindings, rfl, order, rfl, rfl⟩
      · rintro ⟨hname, hfree, hbindings, rfl, _, rfl, rfl⟩
        exact ⟨hname, by simp [hfree], hbindings, rfl, rfl⟩

/-- What an accepted `renameLayer` has checked and done. -/
theorem run_renameLayer_eq_ok {u : Unit} :
    (renameLayer id name).run p = .ok u q ↔
      ∃ layer, p.layer? id = some layer ∧ checkName name = .ok () ∧
        (∀ other ∈ p.layers, other.name = name → other.id = id) ∧
        q = (p.updateLayer id ({ · with name := name })).refreshPageNames := by
  simp only [renameLayer, run_needLayer_bind_eq_ok, Edit.run_check_bind_eq_ok,
    Edit.run_get_bind_eq_ok, Edit.run_guard_eq_ok, Edit.run_set_eq_ok, eq_comm (b := q)]
  simp

/-- What an accepted `removeLayer` returns: the layer and its pages. -/
theorem run_removeLayer_eq_ok {removed : Layer × List Page} :
    (removeLayer id).run p = .ok removed q ↔
      p.layer? id = some removed.1 ∧ removed.2 = p.pagesOf id ∧ q = p.withoutLayer id := by
  simp only [removeLayer, run_needLayer_bind_eq_ok, Edit.run_get_bind_eq_ok,
    Edit.run_set_bind_eq_ok, Edit.run_pure_eq_ok]
  constructor
  · rintro ⟨layer, hlayer, rfl, rfl⟩
    exact ⟨hlayer, rfl, rfl⟩
  · rintro ⟨hlayer, hpages, rfl⟩
    exact ⟨removed.1, hlayer, Prod.ext rfl hpages.symm, rfl⟩

/-- A move is accepted for every layer that is there, whatever the position. -/
theorem run_moveLayer_eq_ok {position : Nat} {u : Unit} :
    (moveLayer id position).run p = .ok u q ↔
      (∃ layer, p.layer? id = some layer) ∧
        q = { p with layers := renumber 0 (p.reordered id position) } := by
  simp only [moveLayer, run_needLayer_bind_eq_ok, Edit.run_modify_eq_ok, eq_comm (b := q),
    exists_and_right]

theorem run_setLayerRequired_eq_ok {required : Bool} {u : Unit} :
    (setLayerRequired id required).run p = .ok u q ↔
      (∃ layer, p.layer? id = some layer) ∧
        q = p.updateLayer id ({ · with required := required }) := by
  simp only [setLayerRequired, run_needLayer_bind_eq_ok, Edit.run_modify_eq_ok, eq_comm (b := q),
    exists_and_right]

/-- What an accepted `bindVariable` has checked and done. -/
theorem run_bindVariable_eq_ok {u : Unit} :
    (bindVariable id key).run p = .ok u q ↔
      ∃ layer found, p.layer? id = some layer ∧ p.variableFor? key = some found ∧
        key ∉ layer.variableKeys ∧
        q = p.updateLayer id fun l => { l with variableKeys := l.variableKeys ++ [key] } := by
  simp only [bindVariable, run_needLayer_bind_eq_ok, run_needVariable_bind_eq_ok,
    Edit.run_guard_eq_ok, Edit.run_modify_eq_ok, eq_comm (b := q), exists_and_left]

/-- What an accepted `unbindVariable` has checked and done. -/
theorem run_unbindVariable_eq_ok {u : Unit} :
    (unbindVariable id key).run p = .ok u q ↔
      ∃ layer, p.layer? id = some layer ∧ key ∈ layer.variableKeys ∧
        q = p.updateLayer id fun l => { l with variableKeys := l.variableKeys.erase key } := by
  simp only [unbindVariable, run_needLayer_bind_eq_ok, Edit.run_guard_eq_ok, Edit.run_modify_eq_ok,
    eq_comm (b := q), not_not]

/-! ## Refusals -/

/-- A refused `addLayer` leaves the pipeline as it was. -/
theorem atomic_addLayer (slug : String → String) (name : String) (variableKeys : List String)
    (required : Bool) : Edit.Atomic (addLayer slug name variableKeys required) := by
  refine Edit.readOnly_check.atomic_bind fun _ => Edit.readOnly_get.atomic_bind fun p =>
    Edit.atomic_throw_bind.ite (Edit.readOnly_check.atomic_bind fun _ => ?_)
  cases p.nextOrder? with
  | none => exact Edit.atomic_throw
  | some order => exact Edit.atomic_set.bind_total fun _ => Edit.total_pure

theorem atomic_renameLayer (id : LayerId) (name : String) : Edit.Atomic (renameLayer id name) :=
  (readOnly_needLayer id).atomic_bind fun _ => Edit.readOnly_check.atomic_bind fun _ =>
    Edit.readOnly_get.atomic_bind fun _ => Edit.atomic_throw_bind.ite Edit.atomic_set

theorem atomic_removeLayer (id : LayerId) : Edit.Atomic (removeLayer id) :=
  (readOnly_needLayer id).atomic_bind fun _ => Edit.readOnly_get.atomic_bind fun _ =>
    Edit.atomic_set.bind_total fun _ => Edit.total_pure

theorem atomic_moveLayer (id : LayerId) (position : Nat) : Edit.Atomic (moveLayer id position) :=
  (readOnly_needLayer id).atomic_bind fun _ => Edit.atomic_modify

theorem atomic_setLayerRequired (id : LayerId) (required : Bool) :
    Edit.Atomic (setLayerRequired id required) :=
  (readOnly_needLayer id).atomic_bind fun _ => Edit.atomic_modify

theorem atomic_bindVariable (id : LayerId) (key : String) : Edit.Atomic (bindVariable id key) :=
  (readOnly_needLayer id).atomic_bind fun _ => (readOnly_needVariable key).atomic_bind fun _ =>
    Edit.atomic_throw_bind.ite Edit.atomic_modify

theorem atomic_unbindVariable (id : LayerId) (key : String) : Edit.Atomic (unbindVariable id key) :=
  (readOnly_needLayer id).atomic_bind fun _ => Edit.atomic_throw_bind.ite Edit.atomic_modify

end Pipeline
end DesignTokens
