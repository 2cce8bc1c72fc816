import DesignTokens.Pipeline.BuildConfig
import DesignTokens.Proofs.Pipeline.Assignments
import DesignTokens.Proofs.Pipeline.Configurations
import DesignTokens.Proofs.Pipeline.Pages

/-!
# Pages for slots

The slots of a layer are the assignments that a page can be created for. Each of them has the keys
of the layer with values that their variables have, so that it is only refused when the layer is
bound to one variable twice.
-/

namespace DesignTokens
namespace Pipeline

variable {p : Pipeline} {layer : Layer} {slot : Assignment}

def axisOf? (p : Pipeline) (key : String) : Option (List (String × String)) :=
  (p.variableFor? key).map fun found => found.values.map fun value => (key, value)

section

variable {keys : List String}
  (hknown : ∀ key ∈ keys, ∃ found, p.variableFor? key = some found)

include hknown

theorem filterMap_axisOf? :
    keys.filterMap p.axisOf? = keys.map fun key => (p.axisOf? key).getD [] := by
  rw [← List.filterMap_eq_map]
  refine List.filterMap_congr fun key hkey => ?_
  rcases hknown key hkey with ⟨found, hfound⟩
  simp [axisOf?, hfound]

/-- A combination along axes has the keys in order and permitted values. -/
theorem of_mem_choices_axes {pairs : List (String × String)}
    (h : pairs ∈ Sequence.choices (keys.filterMap p.axisOf?)) :
    pairs.map Prod.fst = keys ∧ ∀ pair ∈ pairs, p.permits pair.1 pair.2 = true := by
  have haxis : ∀ key ∈ keys, ∀ pair ∈ (p.axisOf? key).getD [],
      pair.1 = key ∧ p.permits pair.1 pair.2 = true := by
    intro key hkey pair hpair
    rcases hknown key hkey with ⟨found, hfound⟩
    rcases List.mem_map.1 (by simpa [axisOf?, hfound] using hpair) with ⟨value, hvalue, rfl⟩
    exact ⟨rfl, by simp [permits, hfound, hvalue]⟩
  rw [filterMap_axisOf? hknown] at h
  rcases Sequence.map_eq_of_mem_choices (fun key hkey pair hpair => (haxis key hkey pair hpair).1) h
    with ⟨hkeys, hall⟩
  refine ⟨by simpa using hkeys, fun pair hpair => ?_⟩
  rcases hall pair hpair with ⟨key, hkey, hmem⟩
  exact (haxis key hkey pair hmem).2

end

/-- A slot gives each key of the layer, and nothing else, a value of its variable. -/
theorem of_mem_slots
    (hknown : ∀ key ∈ layer.variableKeys, ∃ found, p.variableFor? key = some found)
    (h : slot ∈ p.slots layer) :
    (∀ key, key ∈ slot ↔ key ∈ layer.variableKeys) ∧ p.PermitsAll slot := by
  rcases List.mem_map.1 h with ⟨pairs, hpairs, rfl⟩
  rcases of_mem_choices_axes hknown hpairs with ⟨hkeys, hpermits⟩
  refine ⟨fun key => hkeys ▸ Assignment.mem_ofPairs_iff, fun key value hpair => ?_⟩
  exact hpermits (key, value) (Assignment.mem_of_getElem?_ofPairs hpair)

/-- A page can be had for an assignment if and only if that fits the layer. -/
theorem exists_run_getOrCreatePage_iff {slug : String → String}
    (hlayer : p.layer? layer.id = some layer) :
    (∃ page q, (getOrCreatePage slug layer.id slot).run p = .ok page q) ↔
      p.isValidFor layer slot = true := by
  simp only [run_getOrCreatePage_eq_ok, hlayer, Option.some.injEq]
  constructor
  · intro hrun
    rcases hrun with ⟨page, q, found, rfl, hvalid, -⟩
    exact hvalid
  · intro hvalid
    cases hfound : p.findPage? layer.id slot with
    | some page =>
        exact ⟨page, p, layer, rfl, hvalid, Or.inl ⟨rfl, rfl⟩⟩
    | none =>
        exact ⟨_, _, layer, rfl, hvalid, Or.inr ⟨rfl, rfl, rfl⟩⟩

/-- A page can be had for every slot of a layer that is found by its identity, unless the layer is
bound to one variable twice and has slots at all. -/
theorem forall_slots_iff (slug : String → String) (hlayer : p.layer? layer.id = some layer)
    (hknown : ∀ key ∈ layer.variableKeys, ∃ found, p.variableFor? key = some found) :
    (∀ slot ∈ p.slots layer, ∃ page q, (getOrCreatePage slug layer.id slot).run p = .ok page q) ↔
      layer.variableKeys.Nodup ∨ p.slots layer = [] := by
  have haccepted : ∀ slot ∈ p.slots layer,
      ((∃ page q, (getOrCreatePage slug layer.id slot).run p = .ok page q) ↔
        layer.variableKeys.Nodup) := by
    intro slot hslot
    rcases of_mem_slots hknown hslot with ⟨hkeys, hpermits⟩
    exact (exists_run_getOrCreatePage_iff hlayer).trans (isValidFor_iff_nodup hkeys hpermits)
  constructor
  · intro hall
    -- One slot is enough to see that no binding repeats.
    cases hslots : p.slots layer with
    | nil =>
        exact Or.inr rfl
    | cons slot rest =>
        have hslot : slot ∈ p.slots layer := by simp [hslots]
        exact Or.inl ((haccepted slot hslot).1 (hall slot hslot))
  · intro heither slot hslot
    rcases heither with hnodup | hnone
    · exact (haccepted slot hslot).2 hnodup
    · simp [hnone] at hslot

end Pipeline
end DesignTokens
