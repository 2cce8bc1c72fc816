import DesignTokens.Proofs.Pipeline.Build
import DesignTokens.Proofs.Pipeline.RenamedBuilds
import DesignTokens.Proofs.Pipeline.SlotPages
import DesignTokens.Proofs.Pipeline.Visibility

/-!
# What configurations ask of layers

Slots and configurations are both listed as the ways to choose one value for each of several
variables: a slot for the keys of its layer, a configuration for the variables in use. A page is an
orphan unless its assignment is such a choice for its layer. So the part of a configuration that a
layer sees is always one of its slots, and a slot is completed to a configuration by any values for
the other variables, as long as these have some.
-/

namespace DesignTokens

/-! ## Parts of assignments -/

namespace Assignment

variable {a b : Assignment} {keys : List String} {key : String}

/-- The pairs of an assignment for several keys that it has. -/
def pairsFor (a : Assignment) (keys : List String) : List (String × String) :=
  keys.map fun key => (key, (a[key]?).getD "")

/-- The part of an assignment with several keys that it has. -/
def part (a : Assignment) (keys : List String) : Assignment :=
  ofPairs (a.pairsFor keys)

/-- A part of an assignment has the assignment's values for its keys. -/
theorem getElem?_part (h : ∀ key ∈ keys, key ∈ a) (key : String) :
    (a.part keys)[key]? = if key ∈ keys then a[key]? else none := by
  induction keys using List.reverseRecOn with
  | nil =>
      simp [part, pairsFor, ofPairs]
  | append_singleton keys last ih =>
      have hpart : a.part (keys ++ [last]) = (a.part keys).insert last ((a[last]?).getD "") := by
        simp [part, pairsFor, ofPairs_append_singleton]
      rw [hpart, Std.ExtTreeMap.getElem?_insert, ih fun key hkey => h key (by simp [hkey])]
      by_cases hkey : last = key
      · subst hkey
        rcases exists_of_mem (h last (by simp)) with ⟨value, hvalue⟩
        simp [hvalue]
      · simp [hkey, Ne.symm hkey]

/-- Two assignments that agree on some keys have the same part with these. -/
theorem part_congr (h : ∀ key ∈ keys, a[key]? = b[key]?) : a.part keys = b.part keys := by
  have hpairs : a.pairsFor keys = b.pairsFor keys :=
    List.map_congr_left fun key hkey => by rw [h key hkey]
  rw [part, part, hpairs]

theorem part_eq_self (h : ∀ key, key ∈ a ↔ key ∈ keys) : a.part keys = a := by
  apply Std.ExtTreeMap.ext_getElem?
  intro key
  rw [getElem?_part fun key hkey => (h key).2 hkey]
  split
  · rfl
  · rename_i hkey
    exact (Std.ExtTreeMap.getElem?_eq_none fun hmem => hkey ((h key).1 hmem)).symm

end Assignment

/-- The variable's key with its value in an assignment, or else with its first value. -/
def Variable.pairFrom (v : Variable) (a : Assignment) : String × String :=
  (v.key, (a[v.key]?).getD (v.values.headD ""))

namespace Pipeline

variable {p : Pipeline} {keys : List String} {layer : Layer} {a : Assignment} {config : BuildConfig}
  {page : Page}

/-! ## Assignments of all of several keys -/

/-- The assignment has exactly the given keys, each with a value that its variable has. -/
structure Assigns (p : Pipeline) (keys : List String) (a : Assignment) : Prop where
  keys : ∀ key, key ∈ a ↔ key ∈ keys
  permits : p.PermitsAll a

/-- A part of an assignment of values assigns values to fewer keys. -/
theorem Assigns.part (h : p.Assigns keys a) {fewer : List String} (hsub : fewer ⊆ keys) :
    p.Assigns fewer (a.part fewer) := by
  have hget := Assignment.getElem?_part fun key hkey => (h.keys key).2 (hsub hkey)
  constructor
  case keys =>
    intro key
    rw [Std.ExtTreeMap.mem_iff_isSome_getElem?, hget]
    split
    · rename_i hkey
      have hmem : key ∈ a := (h.keys key).2 (hsub hkey)
      simpa [hkey] using Std.ExtTreeMap.mem_iff_isSome_getElem?.1 hmem
    · rename_i hkey
      simp [hkey]
  case permits =>
    intro key value hvalue
    rw [hget] at hvalue
    split at hvalue
    · exact h.permits key value hvalue
    · cases hvalue

/-- An assignment is valid for a layer when it assigns values to the layer's keys. -/
theorem isValidFor_iff_assigns (h : layer.variableKeys.Nodup) :
    p.isValidFor layer a = true ↔ p.Assigns layer.variableKeys a :=
  (isValidFor_iff h).trans ⟨fun hboth => ⟨hboth.1, hboth.2⟩, fun hall => ⟨hall.keys, hall.permits⟩⟩

/-- The assignments that are read off the choices for several keys are those of all these keys. -/
theorem mem_map_choices_iff
    (hknown : ∀ key ∈ keys, ∃ found, p.variableFor? key = some found) :
    a ∈ (Sequence.choices (keys.filterMap p.axisOf?)).map Assignment.ofPairs ↔
      p.Assigns keys a := by
  constructor
  · intro hmem
    rcases List.mem_map.1 hmem with ⟨pairs, hpairs, rfl⟩
    rcases of_mem_choices_axes hknown hpairs with ⟨hfirst, hpermits⟩
    refine ⟨fun key => hfirst ▸ Assignment.mem_ofPairs_iff, fun key value hpair => ?_⟩
    exact hpermits (key, value) (Assignment.mem_of_getElem?_ofPairs hpair)
  · intro hall
    refine List.mem_map.2 ⟨a.pairsFor keys, ?_, Assignment.part_eq_self hall.keys⟩
    -- Each key has an axis, and the value that the assignment gives it is on that.
    rw [filterMap_axisOf? hknown]
    apply Sequence.map_mem_choices
    intro key hkey
    rcases hknown key hkey with ⟨found, hfound⟩
    rcases Assignment.exists_of_mem ((hall.keys key).2 hkey) with ⟨value, hvalue⟩
    rcases permits_iff.1 (hall.permits key value hvalue) with ⟨found', hfound', hpermitted⟩
    have hsame : found' = found := Option.some.inj (hfound'.symm.trans hfound)
    simpa [axisOf?, hfound, hvalue] using hsame ▸ hpermitted

/-- The slots of a layer are the assignments that fit it. -/
theorem Consistent.mem_slots_iff (h : p.Consistent) (hlayer : layer ∈ p.layers) :
    a ∈ p.slots layer ↔ p.Assigns layer.variableKeys a :=
  mem_map_choices_iff fun key hkey => hasKey_iff.1 (h.bound layer hlayer key hkey)

/-- In a consistent pipeline the valid assignments are the layer's slots. -/
theorem Consistent.isValidFor_iff_mem_slots (h : p.Consistent) (hlayer : layer ∈ p.layers) :
    p.isValidFor layer a = true ↔ a ∈ p.slots layer :=
  (isValidFor_iff_assigns (h.layers.bindings layer hlayer)).trans (h.mem_slots_iff hlayer).symm

/-! ## Configurations -/

/-- The keys of the variables that some layer is bound to. -/
def usedKeys (p : Pipeline) : List String :=
  p.variablesInUse.map (·.key)

/-- The variables in use are those that some layer binds. -/
theorem mem_variablesInUse_iff {v : Variable} :
    v ∈ p.variablesInUse ↔ v ∈ p.vars ∧ ∃ layer ∈ p.layers, v.key ∈ layer.variableKeys := by
  simp [variablesInUse]

/-- Layers are bound to variables in use only. -/
theorem Consistent.variableKeys_subset (h : p.Consistent) (hlayer : layer ∈ p.layers) :
    layer.variableKeys ⊆ p.usedKeys := by
  intro key hkey
  rcases List.mem_map.1 (h.bound layer hlayer key hkey) with ⟨v, hv, rfl⟩
  exact List.mem_map_of_mem (mem_variablesInUse_iff.2 ⟨hv, layer, hlayer, hkey⟩)

/-- The choices of configurations are those for the keys in use. -/
theorem axes_eq (hkeys : (p.vars.map (·.key)).Nodup) :
    p.variablesInUse.map Variable.axis = p.usedKeys.filterMap p.axisOf? := by
  rw [usedKeys, List.filterMap_map, ← List.filterMap_eq_map]
  apply List.filterMap_congr
  intro v hv
  simp [axisOf?, variableFor?_of_mem hkeys (mem_variablesInUse_iff.1 hv).1, Variable.axis]

/-- Configurations select a value for every variable in use, and in every way. -/
theorem exists_buildConfig_iff (hkeys : (p.vars.map (·.key)).Nodup) :
    (∃ config ∈ p.buildConfigs, config.selections = a) ↔ p.Assigns p.usedKeys a := by
  have hknown : ∀ key ∈ p.usedKeys, ∃ found, p.variableFor? key = some found := by
    intro key hkey
    rcases List.mem_map.1 hkey with ⟨v, hv, rfl⟩
    exact ⟨v, variableFor?_of_mem hkeys (mem_variablesInUse_iff.1 hv).1⟩
  have hchoices : (∃ config ∈ p.buildConfigs, config.selections = a) ↔
      a ∈ (Sequence.choices (p.usedKeys.filterMap p.axisOf?)).map Assignment.ofPairs := by
    rw [← axes_eq hkeys, buildConfigs]
    simp [BuildConfig.ofPairs]
  exact hchoices.trans (mem_map_choices_iff hknown)

/-- There is a configuration for every assignment of values to the used keys. -/
theorem Consistent.exists_buildConfig_iff (h : p.Consistent) :
    (∃ config ∈ p.buildConfigs, config.selections = a) ↔ p.Assigns p.usedKeys a :=
  Pipeline.exists_buildConfig_iff h.vars.keys

/-- The configuration of an assignment, and of the first value of each variable that it leaves
open. -/
def completed (p : Pipeline) (a : Assignment) : BuildConfig :=
  .ofPairs (p.variablesInUse.map (·.pairFrom a))

/-- An assignment that gives no variable in use a value which it does not have is completed to a
configuration. -/
theorem completed_mem_buildConfigs (hvalues : ∀ v ∈ p.variablesInUse, v.values ≠ [])
    (hoffered : ∀ v ∈ p.variablesInUse, ∀ value, a[v.key]? = some value → value ∈ v.values) :
    p.completed a ∈ p.buildConfigs := by
  have haxis : ∀ v ∈ p.variablesInUse, v.pairFrom a ∈ v.axis := by
    intro v hv
    refine List.mem_map.2 ⟨_, ?_, rfl⟩
    cases hvalue : a[v.key]? with
    | none =>
        rcases List.exists_cons_of_ne_nil (hvalues v hv) with ⟨first, rest, hcons⟩
        simp [hcons]
    | some value =>
        simpa using hoffered v hv value hvalue
  exact List.mem_map_of_mem (Sequence.map_mem_choices haxis)

/-! ## What a layer sees of a configuration -/

/-- A configuration with values for all keys of a layer is projected to its part with these. -/
theorem project_eq_part (h : ∀ key ∈ layer.variableKeys, key ∈ config.selections) :
    config.project layer = some (config.selections.part layer.variableKeys) := by
  have hpairs : (layer.variableKeys.mapM fun key =>
      (config.selections[key]?).map fun value => (key, value)) =
        some (config.selections.pairsFor layer.variableKeys) := by
    refine Sequence.mapM_eq_pure ?_
    intro key hkey
    rcases Assignment.exists_of_mem (h key hkey) with ⟨value, hvalue⟩
    simp [hvalue]
  rw [BuildConfig.project, hpairs]
  rfl

/-- A layer whose keys are all selected lacks none. -/
theorem unselectedKey?_eq_none (h : ∀ key ∈ layer.variableKeys, key ∈ config.selections) :
    layer.unselectedKey? config = none := by
  apply List.find?_eq_none.2
  intro key hkey
  simpa using h key hkey

namespace Consistent

variable (h : p.Consistent)

include h

section

variable (hconfig : config ∈ p.buildConfigs)

include hconfig

/-- A configuration of the pipeline selects a value for every key of a layer. -/
theorem selects_variableKeys (hlayer : layer ∈ p.layers) :
    ∀ key ∈ layer.variableKeys, key ∈ config.selections := by
  have hall := h.exists_buildConfig_iff.1 ⟨config, hconfig, rfl⟩
  exact fun key hkey => (hall.keys key).2 (h.variableKeys_subset hlayer hkey)

/-- What a layer sees of a configuration is one of its slots. -/
theorem exists_slot (hlayer : layer ∈ p.layers) :
    ∃ slot ∈ p.slots layer, config.project layer = some slot := by
  have hall := h.exists_buildConfig_iff.1 ⟨config, hconfig, rfl⟩
  have hpart := hall.part (h.variableKeys_subset hlayer)
  exact ⟨_, (h.mem_slots_iff hlayer).2 hpart,
    project_eq_part (h.selects_variableKeys hconfig hlayer)⟩

/-- A layer has the page of its slot, or no page for the slot. -/
theorem pageFor_cases (hlayer : layer ∈ p.layers) :
    ∃ slot ∈ p.slots layer,
      (∃ page, p.findPage? layer.id slot = some page ∧ p.pageFor config layer = .ok page) ∨
        p.pageFor config layer = .error (.missingPage slot) := by
  rcases h.exists_slot hconfig hlayer with ⟨slot, hslot, hproject⟩
  refine ⟨slot, hslot, ?_⟩
  rw [pageFor, unselectedKey?_eq_none (h.selects_variableKeys hconfig hlayer), hproject]
  cases hfound : p.findPage? layer.id slot with
  | some page =>
      exact Or.inl ⟨page, rfl, by simp [hfound]⟩
  | none =>
      exact Or.inr (by simp [hfound])

end

/-- The page of a slot is no orphan. -/
theorem not_mem_orphans_of_findPage? (hlayer : layer ∈ p.layers) (hslot : a ∈ p.slots layer)
    (hfound : p.findPage? layer.id a = some page) : page ∉ p.orphans := by
  have hfits : page.layer = layer.id ∧ page.assignment = a := by
    simpa [Page.fits] using List.find?_some hfound
  have hvalid : p.isValidFor layer a = true := (h.isValidFor_iff_mem_slots hlayer).2 hslot
  have hlive : p.isOrphan page = false :=
    isOrphan_eq_false_iff.2 ⟨layer, hfits.1 ▸ layer?_of_mem h.layers.ids hlayer, hfits.2 ▸ hvalid⟩
  simp [orphans, hlive]

/-- The assignment of a page that is no orphan is a slot of its layer. -/
theorem exists_slot_of_not_mem_orphans (hpage : page ∈ p.pages) (hlive : page ∉ p.orphans) :
    ∃ layer ∈ p.layers, layer.id = page.layer ∧ page.assignment ∈ p.slots layer := by
  have horphan : p.isOrphan page = false := by simpa [orphans, hpage] using hlive
  rcases isOrphan_eq_false_iff.1 horphan with ⟨layer, hlayer, hvalid⟩
  have hmem := List.mem_of_find?_eq_some hlayer
  refine ⟨layer, hmem, by simpa using List.find?_some hlayer, ?_⟩
  exact (h.isValidFor_iff_mem_slots hmem).1 hvalid

/-- The slot completed to a configuration selects what it did, for the keys of its layer. -/
theorem project_completed (hvalues : ∀ v ∈ p.variablesInUse, v.values ≠ [])
    (hlayer : layer ∈ p.layers) (hslot : a ∈ p.slots layer) :
    p.completed a ∈ p.buildConfigs ∧ (p.completed a).project layer = some a := by
  have hassigns := (h.mem_slots_iff hlayer).1 hslot
  have hconfig : p.completed a ∈ p.buildConfigs := by
    refine completed_mem_buildConfigs hvalues fun v hv value hvalue => ?_
    rcases permits_iff.1 (hassigns.permits v.key value hvalue) with ⟨found, hfound, hmem⟩
    rwa [h.eq_of_variableFor? hfound (mem_variablesInUse_iff.1 hv).1 rfl]
  have hagree : ∀ key ∈ layer.variableKeys, (p.completed a).selections[key]? = a[key]? := by
    intro key hkey
    rcases Assignment.exists_of_mem ((hassigns.keys key).2 hkey) with ⟨value, hvalue⟩
    rcases Assignment.exists_of_mem (h.selects_variableKeys hconfig hlayer key hkey) with
      ⟨selected, hselected⟩
    -- The pair selected for the key is that of its variable, whose value the slot decides.
    rcases List.mem_map.1 (Assignment.mem_of_getElem?_ofPairs hselected) with ⟨v, -, hpair⟩
    rcases Prod.mk.inj hpair with ⟨rfl, rfl⟩
    rw [hselected, hvalue, Option.getD_some]
  refine ⟨hconfig, ?_⟩
  rw [project_eq_part (h.selects_variableKeys hconfig hlayer), Assignment.part_congr hagree,
    Assignment.part_eq_self hassigns.keys]

end Consistent

/-! ## Builds -/

/-- A defect is the reason why a required layer has no page. -/
theorem exists_of_mem_defects {layers : List Layer} {defect : Defect}
    (h : defect ∈ (p.selectFrom config layers).defects) :
    ∃ layer ∈ layers, p.pageFor config layer = .error defect.reason := by
  induction layers with
  | nil =>
      cases h
  | cons layer rest ih =>
      rw [selectFrom] at h
      cases hpage : p.pageFor config layer with
      | ok page =>
          rw [hpage] at h
          rcases ih h with ⟨other, hother, hreason⟩
          exact ⟨other, List.mem_cons_of_mem _ hother, hreason⟩
      | error reason =>
          rw [hpage] at h
          simp only at h
          split at h
          · -- The defect is that of the first layer, or one of the others.
            rcases List.mem_cons.1 h with rfl | hlater
            · exact ⟨layer, List.mem_cons_self .., hpage⟩
            · rcases ih hlater with ⟨other, hother, hreason⟩
              exact ⟨other, List.mem_cons_of_mem _ hother, hreason⟩
          · rcases ih h with ⟨other, hother, hreason⟩
            exact ⟨other, List.mem_cons_of_mem _ hother, hreason⟩

end Pipeline

/-- A selection takes live pages only, and no configured variable is missing in it. -/
structure Selection.Sound (selection : Selection) (p : Pipeline) : Prop where
  live : ∀ choice ∈ selection.pages, choice.2 ∈ p.pages ∧ choice.2 ∉ p.orphans
  selected : ∀ defect ∈ selection.defects, ∀ key, defect.reason ≠ .unselectedVariable key

namespace Pipeline

variable {p : Pipeline} {config : BuildConfig}

/-- What a configuration of the pipeline selects from its layers is sound. -/
theorem Consistent.sound_selectFrom (h : p.Consistent) (hconfig : config ∈ p.buildConfigs)
    {layers : List Layer} (hlayers : layers ⊆ p.layers) :
    (p.selectFrom config layers).Sound p := by
  constructor
  case live =>
    intro choice hchoice
    rw [pages_selectFrom] at hchoice
    rcases List.mem_filterMap.1 hchoice with ⟨layer, hmem, hpage⟩
    -- A page that is taken is found for a slot of its layer.
    rcases h.pageFor_cases hconfig (hlayers hmem) with
      ⟨slot, hslot, ⟨page, hfound, hok⟩ | hmissing⟩
    · rw [hok] at hpage
      cases hpage
      exact ⟨List.mem_of_find?_eq_some hfound,
        h.not_mem_orphans_of_findPage? (hlayers hmem) hslot hfound⟩
    · rw [hmissing] at hpage
      cases hpage
  case selected =>
    intro defect hdefect key hkey
    rcases exists_of_mem_defects hdefect with ⟨layer, hmem, hreason⟩
    -- A layer that is left out has all of its keys selected, and lacks the page only.
    rcases h.pageFor_cases hconfig (hlayers hmem) with ⟨slot, -, ⟨page, -, hok⟩ | hmissing⟩
    · rw [hok] at hreason
      cases hreason
    · rw [hmissing, hkey] at hreason
      cases hreason

theorem layersInOrder_subset (p : Pipeline) : p.layersInOrder ⊆ p.layers :=
  fun _ hmem => List.mem_mergeSort.1 hmem

theorem upTo_subset (id : LayerId) (layers : List Layer) : upTo id layers ⊆ layers := by
  induction layers with
  | nil =>
      exact List.Subset.refl []
  | cons layer rest ih =>
      rw [upTo]
      split
      · simp
      · exact List.cons_subset_cons layer ih

/-- Configurations, slots and pages speak of the same assignments. A configuration of a reachable
pipeline shows to every layer one of its slots, so that a build for it, of all layers or of those up
to one, merges no orphan and lacks no selection. When every variable in use has a value, each slot
of a layer is what some configuration shows to it, the assignments of all live pages among them. -/
theorem slots_of_buildConfigs {slug : String → String} (h : p.Reachable slug) :
    (∀ config ∈ p.buildConfigs,
      (∀ layer ∈ p.layers, ∃ slot ∈ p.slots layer, config.project layer = some slot) ∧
        (p.select config).Sound p ∧ ∀ id, (p.selectUpTo config id).Sound p) ∧
      ((∀ v ∈ p.variablesInUse, v.values ≠ []) →
        (∀ layer ∈ p.layers, ∀ slot ∈ p.slots layer,
          ∃ config ∈ p.buildConfigs, config.project layer = some slot) ∧
          ∀ page ∈ p.pages, page ∉ p.orphans →
            ∃ layer ∈ p.layers, layer.id = page.layer ∧
              ∃ config ∈ p.buildConfigs, config.project layer = some page.assignment) := by
  have hp := h.consistent
  refine ⟨fun config hconfig => ⟨?_, ?_, fun id => ?_⟩, fun hvalues => ?_⟩
  · intro layer hlayer
    exact hp.exists_slot hconfig hlayer
  · exact hp.sound_selectFrom hconfig p.layersInOrder_subset
  · exact hp.sound_selectFrom hconfig
        (List.Subset.trans (upTo_subset id _) p.layersInOrder_subset)
  · have hasked : ∀ layer ∈ p.layers, ∀ slot ∈ p.slots layer,
        ∃ config ∈ p.buildConfigs, config.project layer = some slot := by
      intro layer hlayer slot hslot
      exact ⟨_, hp.project_completed hvalues hlayer hslot⟩
    refine ⟨hasked, fun page hpage hlive => ?_⟩
    rcases hp.exists_slot_of_not_mem_orphans hpage hlive with ⟨layer, hlayer, hid, hslot⟩
    exact ⟨layer, hlayer, hid, hasked layer hlayer _ hslot⟩

/-- The page for `light` is an orphan once that value is removed, and no layer is bound to the
density. -/
def sunset : Pipeline :=
  runWith plainSlug empty
    [.addVariable "Mode" "mode" ["light", "dark"],
      .addVariable "Density" "density" [],
      .addLayer "Base" [] true,
      .addLayer "Theme" ["mode"] true,
      .getOrCreatePage ⟨"layer-theme"⟩ (.ofPairs [("mode", "light")]),
      .getOrCreatePage ⟨"layer-theme"⟩ (.ofPairs [("mode", "dark")]),
      .removeVariableValue "mode" "light"]

/-- The only configuration that is left asks for the page that is left, and not for the orphan. -/
theorem slots_of_buildConfigs_sunset :
    sunset.Reachable plainSlug ∧
      (∀ v ∈ sunset.variablesInUse, v.values ≠ []) ∧
      sunset.orphans.map (·.id) = [⟨"layer-theme-theme-light"⟩] ∧
      (∀ config ∈ sunset.buildConfigs, (sunset.select config).Sound sunset) ∧
      ∀ page ∈ sunset.pages, page ∉ sunset.orphans →
        ∃ layer ∈ sunset.layers, layer.id = page.layer ∧
          ∃ config ∈ sunset.buildConfigs, config.project layer = some page.assignment := by
  have hreachable : sunset.Reachable plainSlug := ⟨_, rfl⟩
  have hvalues : ∀ v ∈ sunset.variablesInUse, v.values ≠ [] := by decide +kernel
  have hboth := slots_of_buildConfigs hreachable
  refine ⟨hreachable, hvalues, by decide +kernel, fun config hconfig => ?_, (hboth.2 hvalues).2⟩
  exact (hboth.1 config hconfig).2.1

end Pipeline
end DesignTokens
