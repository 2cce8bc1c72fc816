import DesignTokens.Proofs.Pipeline.Enumeration
import DesignTokens.Proofs.Project.Outputs

/-!
# Configurations chosen by hand

A configuration can be asked for by the values of some variables, the others having their first
value. It is put together without the list of all configurations. When every variable in use has a
value it is one of that list nevertheless, under the same name.
-/

namespace DesignTokens

/-! ## The first configuration -/

/-- Of a variable with values, the pair that an assignment leads to has the assigned value or the
first one. -/
theorem Variable.pairFrom_eq {v : Variable} (h : v.values ≠ []) (a : Assignment) :
    (a[v.key]?.or v.values.head?).map (fun value => (v.key, value)) = some (v.pairFrom a) := by
  rcases List.exists_cons_of_ne_nil h with ⟨first, rest, hcons⟩
  cases hvalue : a[v.key]? with
  | none =>
      simp [pairFrom, hvalue, hcons]
  | some value =>
      simp [pairFrom, hvalue]

namespace Pipeline

variable {p : Pipeline} {a : Assignment}

/-- Every pair of the assignment is a variable in use with one of its values. -/
def Offers (p : Pipeline) (a : Assignment) : Prop :=
  ∀ key value, a[key]? = some value → ∃ v ∈ p.variablesInUse, v.key = key ∧ value ∈ v.values

theorem offers_empty : p.Offers .empty := by
  intro key value hvalue
  simp [Assignment.empty] at hvalue

/-- An override is one of the variable's values. -/
theorem Offers.mem_values (h : p.Offers a) (hkeys : (p.vars.map (·.key)).Nodup) {v : Variable}
    (hv : v ∈ p.variablesInUse) {value : String} (hvalue : a[v.key]? = some value) :
    value ∈ v.values := by
  rcases h v.key value hvalue with ⟨offered, hoffered, hkey, hmem⟩
  rwa [← List.inj_on_of_nodup_map (nodup_usedKeys hkeys) hoffered hv hkey]

/-- What the completion of an assignment selects. -/
theorem getElem?_completed (hkeys : (p.vars.map (·.key)).Nodup) {v : Variable}
    (hv : v ∈ p.variablesInUse) (hvalues : v.values ≠ []) :
    (p.completed a).selections[v.key]? = a[v.key]?.or v.values.head? := by
  have hpairs : (Entries.keys (p.variablesInUse.map (·.pairFrom a))).Nodup := by
    rw [Entries.keys, List.map_map]
    exact nodup_usedKeys hkeys
  have hmem : v.pairFrom a ∈ p.variablesInUse.map (·.pairFrom a) := List.mem_map_of_mem hv
  rcases Option.map_eq_some_iff.1 (v.pairFrom_eq hvalues a) with ⟨value, hvalue, hpair⟩
  rw [← hpair] at hmem
  rw [completed, BuildConfig.ofPairs, Assignment.getElem?_ofPairs hpairs,
    Entries.get?_of_mem hpairs hmem, hvalue]

section

variable (hvalues : ∀ v ∈ p.variablesInUse, v.values ≠ [])

include hvalues

theorem defaultConfig_eq_completed : p.defaultConfig = p.completed .empty := by
  rw [defaultConfig, completed, ← List.filterMap_eq_map]
  congr 1
  refine List.filterMap_congr fun v hv => ?_
  simpa [Assignment.empty] using v.pairFrom_eq (hvalues v hv) .empty

/-- The first configuration selects the first value of every variable. -/
theorem head?_buildConfigs : p.buildConfigs.head? = some p.defaultConfig := by
  have hfirst : ∀ v ∈ p.variablesInUse, v.axis.head? = some (v.pairFrom .empty) := by
    intro v hv
    simpa [Variable.axis, Assignment.empty] using v.pairFrom_eq (hvalues v hv) .empty
  have hchoice : (p.variablesInUse.map Variable.axis).mapM List.head? =
      some (p.variablesInUse.map (·.pairFrom .empty)) := by
    rw [List.mapM_map]
    exact Sequence.mapM_eq_pure hfirst
  rw [buildConfigs, List.head?_map, Sequence.head?_choices, hchoice,
    defaultConfig_eq_completed hvalues]
  rfl

end

end Pipeline

/-! ## Overrides -/

namespace Project

variable {project : Project} {overrides : Assignment}

/-- A pair is offered when its key is a variable in use and its value one of the variable's. -/
theorem offers_iff {inUse : List Variable} (hkeys : (inUse.map (·.key)).Nodup)
    {key value : String} :
    offers inUse (key, value) = true ↔ ∃ v ∈ inUse, v.key = key ∧ value ∈ v.values := by
  unfold offers
  constructor
  · intro hoffers
    cases hfound : inUse.find? (·.key = key) with
    | none =>
        simp [hfound] at hoffers
    | some found =>
        have hkey : found.key = key := by simpa using List.find?_some hfound
        exact ⟨found, List.mem_of_find?_eq_some hfound, hkey, by simpa [hfound] using hoffers⟩
  · rintro ⟨v, hv, rfl, hmem⟩
    simpa [Sequence.find?_of_mem hkeys hv] using hmem

section

variable (hkeys : (project.pipeline.vars.map (·.key)).Nodup)

include hkeys

/-- The overrides are looked through for one that is not offered. -/
theorem find?_overrides_eq_none_iff :
    (overrides.pairs.find? fun choice => !offers project.pipeline.variablesInUse choice) = none ↔
      project.pipeline.Offers overrides := by
  simp only [List.find?_eq_none, Prod.forall, Assignment.pairs,
    Std.ExtTreeMap.mem_toList_iff_getElem?_eq_some, Bool.not_eq_true', Bool.not_eq_false,
    offers_iff (Pipeline.nodup_usedKeys hkeys), Pipeline.Offers]

/-- Overrides are accepted when they are offered, and are completed by the first values of the other
variables. -/
theorem configWith_eq_ok_iff (hvalues : ∀ v ∈ project.pipeline.variablesInUse, v.values ≠ [])
    {config : BuildConfig} :
    project.configWith overrides = .ok config ↔
      project.pipeline.Offers overrides ∧ config = project.pipeline.completed overrides := by
  rw [← find?_overrides_eq_none_iff hkeys]
  unfold configWith
  cases hfound : overrides.pairs.find? fun choice =>
      !offers project.pipeline.variablesInUse choice with
  | some choice =>
      simp [hfound]
  | none =>
      have hpairs : (project.pipeline.variablesInUse.filterMap fun v =>
          (overrides[v.key]?.or project.pipeline.defaultConfig.selections[v.key]?).map
            fun value => (v.key, value)) =
          project.pipeline.variablesInUse.map (·.pairFrom overrides) := by
        rw [← List.filterMap_eq_map]
        refine List.filterMap_congr fun v hv => ?_
        -- The default configuration selects the first value of the variable.
        have hdefault : project.pipeline.defaultConfig.selections[v.key]? = v.values.head? := by
          rw [Pipeline.defaultConfig_eq_completed hvalues,
            Pipeline.getElem?_completed hkeys hv (hvalues v hv)]
          simp [Assignment.empty]
        rw [hdefault]
        exact v.pairFrom_eq (hvalues v hv) overrides
      simp [hfound, hpairs, Pipeline.completed, eq_comm]

end

/-- When all variables in use of a valid project have values, a configuration is put together from
overrides if and only if each of them is a value of a variable in use. It then is one of the
configurations that can be built, with the overridden values and the first values of the other
variables. Without overrides it is the default configuration, which is the first of them. -/
theorem configWith_of_validate (hvalid : project.validate = .ok ())
    (hvalues : ∀ v ∈ project.pipeline.variablesInUse, v.values ≠ []) (overrides : Assignment) :
    ((∃ config, project.configWith overrides = .ok config) ↔
        project.pipeline.Offers overrides) ∧
      (∀ config, project.configWith overrides = .ok config →
        config ∈ project.buildConfigs ∧
          ∀ v ∈ project.pipeline.variablesInUse,
            config.selections[v.key]? = overrides[v.key]?.or v.values.head?) ∧
      project.configWith .empty = .ok project.pipeline.defaultConfig ∧
      project.buildConfigs.head? = some project.pipeline.defaultConfig := by
  have hkeys := (Pipeline.validate_eq_ok_iff.1 (validate_eq_ok_iff.1 hvalid).1).keys
  refine ⟨⟨fun hok => ?_, fun hoffers => ?_⟩, fun config hok => ?_, ?_, ?_⟩
  · rcases hok with ⟨config, hok⟩
    exact ((configWith_eq_ok_iff hkeys hvalues).1 hok).1
  · exact ⟨_, (configWith_eq_ok_iff hkeys hvalues).2 ⟨hoffers, rfl⟩⟩
  · rcases (configWith_eq_ok_iff hkeys hvalues).1 hok with ⟨hoffers, rfl⟩
    refine ⟨?_, fun v hv => Pipeline.getElem?_completed hkeys hv (hvalues v hv)⟩
    exact Pipeline.completed_mem_buildConfigs hvalues fun v hv value hvalue =>
      hoffers.mem_values hkeys hv hvalue
  · rw [Pipeline.defaultConfig_eq_completed hvalues]
    exact (configWith_eq_ok_iff hkeys hvalues).2 ⟨Pipeline.offers_empty, rfl⟩
  · exact Pipeline.head?_buildConfigs hvalues

/-- A project of a mode and a brand, with a variable for the locale that no layer depends on. -/
def branded : Project where
  name := "Branded"
  pipeline := Pipeline.brandedModes

/-- The brand can be chosen without the mode, and the locale not at all. -/
theorem configWith_of_validate_branded :
    branded.validate = .ok () ∧ (∀ v ∈ branded.pipeline.variablesInUse, v.values ≠ []) ∧
      (∃ config ∈ branded.buildConfigs,
        branded.configWith (.ofPairs [("brand", "globex")]) = .ok config ∧
          config.name = "light-globex") ∧
      ¬ ∃ config, branded.configWith (.ofPairs [("locale", "fr")]) = .ok config := by
  have hvalid : branded.validate = .ok () := by decide +kernel
  have hvalues : ∀ v ∈ branded.pipeline.variablesInUse, v.values ≠ [] := by decide +kernel
  have hlocale : ¬ branded.pipeline.Offers (.ofPairs [("locale", "fr")]) := by
    intro hoffers
    rcases hoffers "locale" "fr" (by decide +kernel) with ⟨v, hv, hkey, -⟩
    revert v
    decide +kernel
  refine ⟨hvalid, hvalues, ⟨_, ?_, rfl, by decide +kernel⟩, ?_⟩
  · exact ((configWith_of_validate hvalid hvalues (.ofPairs [("brand", "globex")])).2.1 _ rfl).1
  · exact fun hok => hlocale ((configWith_of_validate hvalid hvalues _).1.1 hok)

end Project
end DesignTokens
