import DesignTokens.Proofs.Entries
import DesignTokens.Proofs.Pipeline.Selections
import Mathlib.Data.List.Lex

/-!
# The order of configurations

The configurations of a pipeline are listed like the numbers of a counter with one digit for each
variable in use: the digit is the position of the selected value, and the last variable varies
fastest. Each selection stands in the list once, under the name that its values make.
-/

namespace DesignTokens

/-! ## Reading a choice back -/

/-- In the assignment of a choice, each variable has the value that was chosen for it. -/
theorem Variable.map_getElem?_ofPairs {vars : List Variable} (hkeys : (vars.map (·.key)).Nodup)
    {pairs : List (String × String)} (h : pairs ∈ Sequence.choices (vars.map Variable.axis)) :
    vars.map (fun v => (Assignment.ofPairs pairs)[v.key]?) = pairs.map fun pair => some pair.2 := by
  have hpairs := (Variable.of_mem_choices h).1
  have hnodup : (Entries.keys pairs).Nodup := hpairs ▸ hkeys
  calc
    vars.map (fun v => (Assignment.ofPairs pairs)[v.key]?)
        = (Entries.keys pairs).map fun key => (Assignment.ofPairs pairs)[key]? := by
          rw [hpairs, List.map_map]
          rfl
    _ = pairs.map fun pair => (Assignment.ofPairs pairs)[pair.1]? := by
          rw [Entries.keys, List.map_map]
          rfl
    _ = pairs.map fun pair => some pair.2 := by
          refine List.map_congr_left fun pair hpair => ?_
          rw [Assignment.getElem?_ofPairs hnodup, Entries.get?_of_mem hnodup hpair]

namespace Variable

/-- The position of a value, if the assignment gives one. -/
def position (v : Variable) (value : Option String) : Nat :=
  v.values.findIdx fun other => some other = value

/-- The position of a value is its index in the variable's list. -/
theorem position_getElem {v : Variable} (h : v.values.Nodup) {i : Nat} (hi : i < v.values.length) :
    v.position (some v.values[i]) = i := by
  refine (List.findIdx_eq hi).2 ⟨by simp, fun j hj => ?_⟩
  have hne : v.values[j] ≠ v.values[i] := fun heq => (Nat.ne_of_lt hj) ((h.getElem_inj_iff).1 heq)
  simpa using hne

/-- The values of a variable stand in the order of their positions. -/
theorem pairwise_axis {v : Variable} (h : v.values.Nodup) :
    v.axis.Pairwise fun x y => v.position (some x.2) < v.position (some y.2) := by
  refine List.pairwise_map.2 (List.pairwise_iff_getElem.2 fun i j hi hj hlt => ?_)
  rwa [position_getElem h hi, position_getElem h hj]

end Variable

namespace Pipeline

variable {p : Pipeline}

/-- The positions of the values that an assignment gives to the variables in use, in the order of
the variables. -/
def positions (p : Pipeline) (a : Assignment) : List Nat :=
  p.variablesInUse.map fun v => v.position a[v.key]?

/-- Each assignment of all variables in use, and of no others, is selected once, in the
lexicographic order of positions. A configuration has the name that its values make. -/
structure Enumerates (p : Pipeline) (configs : List BuildConfig) : Prop where
  selections : ∀ a, (∃ config ∈ configs, config.selections = a) ↔ p.Assigns p.usedKeys a
  ordered : configs.Pairwise fun c d => p.positions c.selections < p.positions d.selections
  once : (configs.map (·.selections)).Nodup
  length : configs.length = (p.variablesInUse.map (·.values.length)).prod
  names : ∀ config ∈ configs,
    config.name = Text.join "-" (p.variablesInUse.filterMap fun v => config.selections[v.key]?)

/-- No variable is in use when the layers are bound to none that is declared. -/
theorem variablesInUse_eq_nil_iff :
    p.variablesInUse = [] ↔ ∀ layer ∈ p.layers, ∀ key ∈ layer.variableKeys, ¬ p.HasKey key := by
  rw [List.eq_nil_iff_forall_not_mem]
  constructor
  · intro hnone layer hlayer key hkey hdeclared
    rcases List.mem_map.1 hdeclared with ⟨v, hv, rfl⟩
    exact hnone v (mem_variablesInUse_iff.2 ⟨hv, layer, hlayer, hkey⟩)
  · intro hunbound v hv
    rcases mem_variablesInUse_iff.1 hv with ⟨hdeclared, layer, hlayer, hkey⟩
    exact hunbound layer hlayer v.key hkey (List.mem_map_of_mem hdeclared)

/-- Without variables in use there is the default configuration alone. -/
theorem buildConfigs_of_variablesInUse_eq_nil (h : p.variablesInUse = []) :
    p.buildConfigs = [⟨"default", .empty⟩] := by
  rw [buildConfigs, h]
  rfl

/-- There are as many configurations as combinations of values. -/
theorem length_buildConfigs (p : Pipeline) :
    p.buildConfigs.length = (p.variablesInUse.map (·.values.length)).prod := by
  simp [buildConfigs, Sequence.length_choices, Variable.axis, Function.comp_def]

section

variable (hkeys : (p.vars.map (·.key)).Nodup)

include hkeys

theorem nodup_usedKeys : p.usedKeys.Nodup :=
  hkeys.sublist (List.filter_sublist.map _)

/-- A combination of values has their positions as digits. -/
theorem positions_ofPairs {pairs : List (String × String)}
    (h : pairs ∈ Sequence.choices (p.variablesInUse.map Variable.axis)) :
    p.positions (.ofPairs pairs) =
      List.zipWith (fun v pair => v.position (some pair.2)) p.variablesInUse pairs := by
  have hvalues := Variable.map_getElem?_ofPairs (nodup_usedKeys hkeys) h
  calc
    p.positions (.ofPairs pairs)
        = List.zipWith Variable.position p.variablesInUse
            (p.variablesInUse.map fun v => (Assignment.ofPairs pairs)[v.key]?) := by
          rw [List.zipWith_map_right, List.zipWith_self]
          rfl
    _ = List.zipWith (fun v pair => v.position (some pair.2)) p.variablesInUse pairs := by
          rw [hvalues, List.zipWith_map_right]

/-- A configuration is named by its values in the order of the variables. -/
theorem name_of_mem_buildConfigs (hused : p.variablesInUse ≠ []) {config : BuildConfig}
    (h : config ∈ p.buildConfigs) :
    config.name =
      Text.join "-" (p.variablesInUse.filterMap fun v => config.selections[v.key]?) := by
  rcases List.mem_map.1 h with ⟨pairs, hpairs, rfl⟩
  -- The selected values of the variables are the values of the pairs.
  have hvalues := Variable.map_getElem?_ofPairs (nodup_usedKeys hkeys) hpairs
  have hnonempty : pairs ≠ [] := by
    rintro rfl
    exact hused (List.map_eq_nil_iff.1 (Variable.of_mem_choices hpairs).1.symm)
  have hselected : p.variablesInUse.filterMap (fun v => (Assignment.ofPairs pairs)[v.key]?) =
      pairs.map (·.2) :=
    calc
      p.variablesInUse.filterMap (fun v => (Assignment.ofPairs pairs)[v.key]?)
          = (p.variablesInUse.map fun v => (Assignment.ofPairs pairs)[v.key]?).filterMap id := by
            rw [List.filterMap_map]
            rfl
      _ = (pairs.map fun pair => some pair.2).filterMap id := by
            rw [hvalues]
      _ = pairs.map (·.2) := by
            simp [List.filterMap_map]
  simp [BuildConfig.ofPairs, hnonempty, hselected]

/-- Every configuration comes before those with later positions. -/
theorem pairwise_buildConfigs (hvalues : ∀ v ∈ p.vars, v.values.Nodup) :
    p.buildConfigs.Pairwise fun c d => p.positions c.selections < p.positions d.selections := by
  have hchoices : (Sequence.choices (p.variablesInUse.map Variable.axis)).Pairwise fun c d =>
      List.zipWith (fun v pair => v.position (some pair.2)) p.variablesInUse c <
        List.zipWith (fun v pair => v.position (some pair.2)) p.variablesInUse d :=
    Sequence.pairwise_choices fun v hv =>
      Variable.pairwise_axis (hvalues v (mem_variablesInUse_iff.1 hv).1)
  refine List.pairwise_map.2 (hchoices.imp_of_mem fun {c d} hc hd hlt => ?_)
  rw [BuildConfig.ofPairs, BuildConfig.ofPairs, positions_ofPairs hkeys hc,
    positions_ofPairs hkeys hd]
  exact hlt

/-- Without a variable in use the only configuration is the one named `default`. With some, the
configurations are all selections of their values, in lexicographic order. -/
theorem buildConfigs_enumerates (hvalues : ∀ v ∈ p.vars, v.values.Nodup) :
    ((∀ layer ∈ p.layers, ∀ key ∈ layer.variableKeys, ¬ p.HasKey key) →
        p.buildConfigs = [⟨"default", .empty⟩]) ∧
      ((∃ layer ∈ p.layers, ∃ key ∈ layer.variableKeys, p.HasKey key) →
        p.Enumerates p.buildConfigs) := by
  refine ⟨fun hunbound => ?_, fun hbound => ?_⟩
  · exact buildConfigs_of_variablesInUse_eq_nil (variablesInUse_eq_nil_iff.2 hunbound)
  · have hused : p.variablesInUse ≠ [] := by
      intro hnil
      rcases hbound with ⟨layer, hlayer, key, hkey, hdeclared⟩
      exact variablesInUse_eq_nil_iff.1 hnil layer hlayer key hkey hdeclared
    have hordered := pairwise_buildConfigs hkeys hvalues
    exact
      { selections := fun a => exists_buildConfig_iff hkeys
        ordered := hordered
        once := List.pairwise_map.2 (hordered.imp fun hlt heq => by simp [heq] at hlt)
        length := length_buildConfigs p
        names := fun config hconfig => name_of_mem_buildConfigs hkeys hused hconfig }

end

/-- No layer is bound to the locale, and the mode is bound after the brand. -/
def brandedModes : Pipeline where
  vars := [⟨⟨"var-mode"⟩, "Mode", "mode", ["light", "dark"]⟩,
    ⟨⟨"var-locale"⟩, "Locale", "locale", ["en", "fr"]⟩,
    ⟨⟨"var-brand"⟩, "Brand", "brand", ["acme", "globex", "hooli"]⟩]
  layers := [⟨⟨"layer-brand"⟩, "Brand", 0, ["brand"], false⟩,
    ⟨⟨"layer-theme"⟩, "Theme", 1, ["brand", "mode"], true⟩]
  pages := []

theorem buildConfigs_enumerates_brandedModes :
    (brandedModes.vars.map (·.key)).Nodup ∧ (∀ v ∈ brandedModes.vars, v.values.Nodup) ∧
      (∃ layer ∈ brandedModes.layers, ∃ key ∈ layer.variableKeys, brandedModes.HasKey key) ∧
      brandedModes.Enumerates brandedModes.buildConfigs ∧
      brandedModes.buildConfigs.map (·.name) =
        ["light-acme", "light-globex", "light-hooli",
          "dark-acme", "dark-globex", "dark-hooli"] := by
  have hkeys : (brandedModes.vars.map (·.key)).Nodup := by decide
  have hvalues : ∀ v ∈ brandedModes.vars, v.values.Nodup := by decide
  have hdeclared : "brand" ∈ brandedModes.vars.map (·.key) := by decide
  have hbound : ∃ layer ∈ brandedModes.layers, ∃ key ∈ layer.variableKeys,
      brandedModes.HasKey key :=
    ⟨_, List.mem_cons_self .., "brand", List.mem_cons_self .., hdeclared⟩
  refine ⟨hkeys, hvalues, hbound, (buildConfigs_enumerates hkeys hvalues).2 hbound, ?_⟩
  decide +kernel

end Pipeline
end DesignTokens
