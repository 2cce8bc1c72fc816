import DesignTokens.Pipeline.BuildConfig
import DesignTokens.Proofs.Choices
import DesignTokens.Proofs.Pipeline.Validity
import DesignTokens.Proofs.Sequence

/-!
# Build configurations

The configurations of a pipeline are the ways to choose one value for each variable in use. When no
key and no value of a variable repeats, no two of these choices select the same values.
-/

namespace DesignTokens

/-! ## Assignments of pairs -/

/-- Entries with the same distinct names in the same order are told apart by what is found under
these names. -/
theorem Entries.ext_get? {α : Type} {entries others : Entries α}
    (hkeys : Entries.keys entries = Entries.keys others) (hnodup : (Entries.keys entries).Nodup)
    (h : ∀ key, Entries.get? entries key = Entries.get? others key) : entries = others := by
  induction entries generalizing others with
  | nil =>
      exact (List.map_eq_nil_iff.1 hkeys.symm).symm
  | cons entry rest ih =>
      cases others with
      | nil =>
          cases hkeys
      | cons other rest' =>
          rcases entry with ⟨name, value⟩
          rcases other with ⟨name', value'⟩
          rcases List.cons.inj hkeys with ⟨hname, hrest⟩
          rcases List.nodup_cons.1 hnodup with ⟨hfree, hdistinct⟩
          have hsame : name = name' := hname
          subst hsame
          have hvalue : value = value' := by simpa [Entries.get?] using h name
          have hlater : rest = rest' := by
            apply ih hrest hdistinct
            intro key
            by_cases hkey : name = key
            · -- The first name is in neither rest.
              subst hkey
              have hsameKeys : Entries.keys rest = Entries.keys rest' := hrest
              have hnone : Entries.get? rest name = none := Entries.get?_eq_none_iff.2 hfree
              have hnone' : Entries.get? rest' name = none :=
                Entries.get?_eq_none_iff.2 (hsameKeys ▸ hfree)
              rw [hnone, hnone']
            · simpa [Entries.get?, hkey] using h key
          rw [hvalue, hlater]

namespace Assignment

variable {pairs others : List (String × String)}

/-- What an assignment has after pairs are inserted: the pair's value where there is one. -/
theorem getElem?_foldl_insert (pairs : List (String × String))
    (h : (Entries.keys pairs).Nodup) (assignment : Assignment) (key : String) :
    (pairs.foldl (fun assignment pair => assignment.insert pair.1 pair.2) assignment)[key]? =
      (Entries.get? pairs key).or assignment[key]? := by
  induction pairs generalizing assignment with
  | nil =>
      simp
  | cons pair rest ih =>
      rcases pair with ⟨first, value⟩
      rcases List.nodup_cons.1 h with ⟨hfirst, hrest⟩
      rw [List.foldl_cons, ih hrest, Std.ExtTreeMap.getElem?_insert]
      by_cases hkey : first = key
      · subst hkey
        -- The key does not come again, so that this is its value.
        have hnone : Entries.get? rest first = none := Entries.get?_eq_none_iff.2 hfirst
        simp [Entries.get?, hnone]
      · simp [Entries.get?, hkey]

/-- An assignment made from pairs with distinct keys has the value of each. -/
theorem getElem?_ofPairs (h : (Entries.keys pairs).Nodup) (key : String) :
    (ofPairs pairs)[key]? = Entries.get? pairs key := by
  simp [ofPairs, getElem?_foldl_insert pairs h]

/-- Pairs with the same distinct keys are told apart by the assignments made from them. -/
theorem ofPairs_inj (h : (Entries.keys pairs).Nodup)
    (hkeys : Entries.keys pairs = Entries.keys others) (heq : ofPairs pairs = ofPairs others) :
    pairs = others := by
  apply Entries.ext_get? hkeys h
  intro key
  rw [← getElem?_ofPairs h, ← getElem?_ofPairs (hkeys ▸ h), heq]

/-- Pairs with the same distinct keys in the same order are told apart by their assignments. -/
theorem nodup_map_ofPairs {keys : List String} {choices : List (List (String × String))}
    (hkeys : keys.Nodup) (h : ∀ choice ∈ choices, Entries.keys choice = keys)
    (hchoices : choices.Nodup) : (choices.map ofPairs).Nodup := by
  refine hchoices.map_on fun choice hchoice other hother heq => ?_
  exact ofPairs_inj (h choice hchoice ▸ hkeys) ((h choice hchoice).trans (h other hother).symm) heq

end Assignment

/-! ## Configurations of a pipeline -/

/-- Every choice has the keys of the variables, in their order, each with one of its values. -/
theorem Variable.of_mem_choices {vars : List Variable} {pairs : List (String × String)}
    (h : pairs ∈ Sequence.choices (vars.map Variable.axis)) :
    Entries.keys pairs = vars.map (·.key) ∧
      ∀ pair ∈ pairs, ∃ v ∈ vars, pair.1 = v.key ∧ pair.2 ∈ v.values := by
  have haxis : ∀ {v : Variable} {pair}, pair ∈ v.axis → pair.1 = v.key ∧ pair.2 ∈ v.values := by
    intro v pair hpair
    rcases List.mem_map.1 hpair with ⟨value, hvalue, rfl⟩
    exact ⟨rfl, hvalue⟩
  rcases Sequence.map_eq_of_mem_choices (fun v _ pair hpair => (haxis hpair).1) h with ⟨hkeys, hall⟩
  refine ⟨hkeys, fun pair hpair => ?_⟩
  rcases hall pair hpair with ⟨v, hv, hmem⟩
  exact ⟨v, hv, haxis hmem⟩

namespace Pipeline

variable {p : Pipeline}

/-- A variable is found by its key when no two variables share one. -/
theorem variableFor?_of_mem (hkeys : (p.vars.map (·.key)).Nodup) {v : Variable} (hv : v ∈ p.vars) :
    p.variableFor? v.key = some v :=
  Sequence.find?_of_mem hkeys hv

/-- No configuration is listed twice. -/
theorem nodup_buildConfigs (hkeys : (p.vars.map (·.key)).Nodup)
    (hvalues : ∀ v ∈ p.vars, v.values.Nodup) : p.buildConfigs.Nodup := by
  have hused : ((p.variablesInUse).map (·.key)).Nodup :=
    hkeys.sublist (List.filter_sublist.map _)
  have haxes : ∀ items ∈ p.variablesInUse.map Variable.axis, items.Nodup := by
    intro items hitems
    rcases List.mem_map.1 hitems with ⟨v, hv, rfl⟩
    exact (hvalues v (List.mem_of_mem_filter hv)).map fun value other heq => (Prod.mk.inj heq).2
  have hselections := Assignment.nodup_map_ofPairs hused
    (fun _ hpairs => (Variable.of_mem_choices hpairs).1) (Sequence.nodup_choices haxes)
  refine List.Nodup.of_map BuildConfig.selections ?_
  simpa [buildConfigs, BuildConfig.ofPairs, Function.comp_def] using hselections

end Pipeline
end DesignTokens
