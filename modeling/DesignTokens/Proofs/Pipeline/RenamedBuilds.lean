import DesignTokens.Pipeline.Build
import DesignTokens.Proofs.Pipeline.Configurations
import DesignTokens.Proofs.Pipeline.RenamedPipeline

/-!
# Builds after a renaming

When no page is an orphan, a renaming changes nothing but names. The configurations are the renamed
ones in the same order, each of them selects the same pages in the same layers, and what a required
layer lacks is the same with its names changed.
-/

namespace DesignTokens

/-! ## Renamed choices -/

namespace Sequence

universe u v

variable {α : Type u} {β : Type v}

/-- A partial map over renamed items gives the renamed results. -/
theorem mapM_map {α' : Type u} {β' : Type v} {f : α → Option β} {f' : α' → Option β'}
    {g : α → α'} {k : β → β'} {items : List α} (h : ∀ a ∈ items, f' (g a) = (f a).map k) :
    (items.map g).mapM f' = (items.mapM f).map (List.map k) := by
  induction items with
  | nil =>
      rfl
  | cons a rest ih =>
      rcases List.forall_mem_cons.1 h with ⟨ha, hrest⟩
      rw [List.map_cons, List.mapM_cons, List.mapM_cons, ha, ih hrest]
      cases f a with
      | none =>
          rfl
      | some b =>
          cases rest.mapM f with
          | none =>
              rfl
          | some bs =>
              rfl

theorem exists_of_mem_mapM {f : α → Option β} {items : List α} {results : List β} {b : β}
    (h : items.mapM f = some results) (hb : b ∈ results) : ∃ a ∈ items, f a = some b := by
  induction items generalizing results with
  | nil =>
      cases h
      cases hb
  | cons a rest ih =>
      rw [List.mapM_cons] at h
      rcases Option.bind_eq_some_iff.1 h with ⟨first, hfirst, hlater⟩
      rcases Option.bind_eq_some_iff.1 hlater with ⟨others, hothers, hall⟩
      cases hall
      rcases List.mem_cons.1 hb with rfl | hmem
      · exact ⟨a, List.mem_cons_self .., hfirst⟩
      · rcases ih hothers hmem with ⟨a', ha', hfound⟩
        exact ⟨a', List.mem_cons_of_mem _ ha', hfound⟩

end Sequence

/-- A configuration selects a page by pairs of its own. -/
theorem BuildConfig.getElem?_of_project {config : BuildConfig} {layer : Layer} {a : Assignment}
    (h : config.project layer = some a) {key text : String} (hpair : a[key]? = some text) :
    config.selections[key]? = some text := by
  rcases Option.map_eq_some_iff.1 h with ⟨pairs, hpairs, rfl⟩
  have hmem := Assignment.mem_of_getElem?_ofPairs hpair
  rcases Sequence.exists_of_mem_mapM hpairs hmem with ⟨bound, -, hbound⟩
  rcases Option.map_eq_some_iff.1 hbound with ⟨value, hvalue, heq⟩
  cases heq
  exact hvalue

namespace Renaming

variable {r : Renaming} {a : Assignment}

theorem onAssignment_empty (r : Renaming) : r.onAssignment ∅ = ∅ := by
  cases r with
  | key old new =>
      simp [onAssignment, Assignment.renameKey]
  | value bound old new =>
      simp [onAssignment, Assignment.renameValue]

/-- Renaming an assignment after a pair is inserted is inserting the renamed pair. -/
theorem onAssignment_insert {key text : String} (h : r.Apart key text) (a : Assignment) :
    r.onAssignment (a.insert key text) =
      (r.onAssignment a).insert (r.onKey key) (r.onValue key text) := by
  refine Std.ExtTreeMap.ext_getElem? fun other => ?_
  cases r with
  | key old new =>
      by_cases hsame : old = new
      · subst hsame
        simp [onAssignment, onKey, renameKey_self]
      · -- What stands at a key depends on which of the three keys it is.
        have hnew : key ≠ new := fun heq => hsame (h heq)
        simp only [onAssignment, onKey, onValue_key, id, Pipeline.replacedKey,
          Assignment.getElem?_renameKey hsame, Std.ExtTreeMap.getElem?_insert,
          Std.LawfulEqCmp.compare_eq_iff_eq]
        grind
  | value bound old new =>
      simp only [onAssignment, onKey_value, id, onValue, Assignment.getElem?_renameValue,
        Std.ExtTreeMap.getElem?_insert, Std.LawfulEqCmp.compare_eq_iff_eq]
      grind

/-- Renaming each pair renames the assignment. -/
theorem onAssignment_ofPairs {pairs : List (String × String)}
    (h : ∀ pair ∈ pairs, r.Apart pair.1 pair.2) :
    r.onAssignment (.ofPairs pairs) = .ofPairs (pairs.map r.onPair) := by
  induction pairs using List.reverseRecOn with
  | nil =>
      exact onAssignment_empty r
  | append_singleton pairs pair ih =>
      rw [List.forall_mem_append, List.forall_mem_singleton] at h
      calc
        r.onAssignment (Assignment.ofPairs (pairs ++ [pair]))
            = r.onAssignment ((Assignment.ofPairs pairs).insert pair.1 pair.2) := by
              rw [Assignment.ofPairs_append_singleton]
        _ = (Assignment.ofPairs (pairs.map r.onPair)).insert (r.onKey pair.1)
              (r.onValue pair.1 pair.2) := by
              rw [onAssignment_insert h.2, ih h.1]
        _ = Assignment.ofPairs ((pairs ++ [pair]).map r.onPair) := by
              rw [List.map_append, List.map_singleton, Assignment.ofPairs_append_singleton]
              rfl

theorem axis_onVariable (r : Renaming) (v : Variable) :
    (r.onVariable v).axis = v.axis.map r.onPair := by
  simp [Variable.axis, onVariable, onPair, Function.comp_def]

/-! ## What a build says under new names -/

def onReason (r : Renaming) : DefectReason → DefectReason
  | .missingPage a => .missingPage (r.onAssignment a)
  | .unselectedVariable bound => .unselectedVariable (r.onKey bound)

def onDefect (r : Renaming) (defect : Defect) : Defect :=
  { defect with reason := r.onReason defect.reason }

/-- What becomes of a configuration: its pairs are renamed, and it is named by them anew. A new key
alone changes no name. -/
structure OnConfig (r : Renaming) (config after : BuildConfig) : Prop where
  selections : after.selections = r.onAssignment config.selections
  pairs : ∃ pairs, config = .ofPairs pairs ∧ after = .ofPairs (pairs.map r.onPair)
  name : ∀ old new, r = .key old new → after.name = config.name

/-- Pairs that the renaming keeps apart make configurations that correspond. -/
theorem onConfig_ofPairs {pairs : List (String × String)}
    (h : ∀ pair ∈ pairs, r.Apart pair.1 pair.2) :
    r.OnConfig (.ofPairs pairs) (.ofPairs (pairs.map r.onPair)) where
  selections := (onAssignment_ofPairs h).symm
  pairs := ⟨pairs, rfl, rfl⟩
  name old new hkey := by
    subst hkey
    simp [BuildConfig.ofPairs, onPair, Function.comp_def]

end Renaming

/-! ## Configurations -/

namespace Renames

variable {p q : Pipeline} {r : Renaming} {config after : BuildConfig} {layer : Layer}

/-- The variables in use are the renamed ones. -/
theorem variablesInUse (h : Renames r p q) (hp : p.Consistent) :
    q.variablesInUse = p.variablesInUse.map r.onVariable := by
  have hused : ∀ v ∈ p.vars,
      (q.layers.any fun layer => layer.variableKeys.contains (r.onVariable v).key) =
        p.layers.any fun layer => layer.variableKeys.contains v.key := by
    intro v hv
    rw [h.layers, List.any_map, Bool.eq_iff_iff, List.any_eq_true, List.any_eq_true]
    refine exists_congr fun layer => and_congr_right fun hlayer => ?_
    rw [List.contains_iff_mem, Function.comp_apply, List.contains_iff_mem]
    exact h.mem_variableKeys_iff hp hlayer (h.apartKey v hv)
  rw [Pipeline.variablesInUse, h.vars, List.filter_map]
  exact congrArg (List.map r.onVariable) (List.filter_congr hused)

/-- The pairs of a configuration are kept apart by an accepted renaming. -/
theorem apart_of_mem_choices (h : Renames r p q) {pairs : List (String × String)}
    (hpairs : pairs ∈ Sequence.choices (p.variablesInUse.map Variable.axis)) :
    ∀ pair ∈ pairs, r.Apart pair.1 pair.2 := by
  intro pair hpair
  rcases (Variable.of_mem_choices hpairs).2 pair hpair with ⟨v, hv, hkey, htext⟩
  rw [hkey]
  exact h.apart v (List.mem_of_mem_filter hv) pair.2 htext

/-- The configurations after a renaming are the old ones with their pairs renamed. -/
theorem buildConfigs (h : Renames r p q) (hp : p.Consistent) :
    q.buildConfigs = (Sequence.choices (p.variablesInUse.map Variable.axis)).map fun pairs =>
      .ofPairs (pairs.map r.onPair) := by
  have haxes : q.variablesInUse.map Variable.axis =
      (p.variablesInUse.map Variable.axis).map (List.map r.onPair) := by
    simp [h.variablesInUse hp, Renaming.axis_onVariable]
  rw [Pipeline.buildConfigs, haxes, Sequence.choices_map, List.map_map]
  rfl

/-! ## Selected pages -/

/-- A layer lacks the renamed key exactly when it lacked the key. -/
theorem unselectedKey? (h : Renames r p q) (hp : p.Consistent) (hlayer : layer ∈ p.layers)
    (hconfig : r.OnConfig config after) (hstale : ¬ r.Stale config.selections) :
    (r.onLayer layer).unselectedKey? after = (layer.unselectedKey? config).map r.onKey := by
  have hkeys : ∀ key ∈ layer.variableKeys, (!after.selections.contains (r.onKey key)) =
      !config.selections.contains key := by
    intro key hkey
    have hapart := h.apartKey_of_bound hp hlayer key hkey
    rw [hconfig.selections]
    congr 1
    rw [Bool.eq_iff_iff]
    exact Renaming.mem_onAssignment_iff hstale hapart
  calc
    (r.onLayer layer).unselectedKey? after
        = (layer.variableKeys.find? fun key => !after.selections.contains (r.onKey key)).map
            r.onKey := List.find?_map
    _ = (layer.unselectedKey? config).map r.onKey := by
          rw [Layer.unselectedKey?, List.find?_congr hkeys]

/-- A configuration's projection is renamed with it. -/
theorem project (h : Renames r p q) (hp : p.Consistent) (hlayer : layer ∈ p.layers)
    (hconfig : r.OnConfig config after) (hstale : ¬ r.Stale config.selections) :
    after.project (r.onLayer layer) = (config.project layer).map r.onAssignment := by
  have hpair : ∀ key ∈ layer.variableKeys,
      ((after.selections[r.onKey key]?).map fun value => (r.onKey key, value)) =
        ((config.selections[key]?).map fun value => (key, value)).map r.onPair := by
    intro key hkey
    have hapart := h.apartKey_of_bound hp hlayer key hkey
    rw [hconfig.selections, Renaming.getElem?_onAssignment hstale hapart]
    simp [Renaming.onPair, Function.comp_def]
  unfold BuildConfig.project
  rw [Renaming.onLayer, Sequence.mapM_map hpair]
  cases hpairs : layer.variableKeys.mapM fun key =>
      (config.selections[key]?).map fun value => (key, value) with
  | none =>
      rfl
  | some pairs =>
      have hapart : ∀ pair ∈ pairs, r.Apart pair.1 pair.2 := by
        intro pair hmem
        rcases Sequence.exists_of_mem_mapM hpairs hmem with ⟨key, -, hkey⟩
        rcases Option.map_eq_some_iff.1 hkey with ⟨value, hvalue, rfl⟩
        exact Renaming.apart_of_not_stale hstale hvalue
      simp [Renaming.onAssignment_ofPairs hapart]

section

variable {change : Page → Page}

/-- The page of a renamed slot is the renamed page. -/
theorem findPage? (hpages : q.pages = p.pages.map change)
    (hchange : ∀ page, r.OnPage page (change page))
    (hlive : ∀ page ∈ p.pages, ¬ r.Stale page.assignment) {slot : Assignment}
    (hslot : ¬ r.Stale slot) (id : LayerId) :
    q.findPage? id (r.onAssignment slot) = (p.findPage? id slot).map change := by
  have hfits : ∀ page ∈ p.pages, (change page).fits id (r.onAssignment slot) =
      page.fits id slot := by
    intro page hpage
    have hsame := Renaming.onAssignment_inj (hlive page hpage) hslot
    simp [Page.fits, (hchange page).layer, (hchange page).assignment, hsame]
  calc
    q.findPage? id (r.onAssignment slot)
        = (p.pages.find? fun page => (change page).fits id (r.onAssignment slot)).map change := by
          rw [Pipeline.findPage?, hpages, List.find?_map]
          rfl
    _ = (p.findPage? id slot).map change := by
          rw [Pipeline.findPage?, List.find?_congr hfits]

/-- A layer has the renamed page, or lacks one for the renamed reason. -/
theorem pageFor (h : Renames r p q) (hp : p.Consistent) (hpages : q.pages = p.pages.map change)
    (hchange : ∀ page, r.OnPage page (change page))
    (hlive : ∀ page ∈ p.pages, ¬ r.Stale page.assignment) (hlayer : layer ∈ p.layers)
    (hconfig : r.OnConfig config after) (hstale : ¬ r.Stale config.selections) :
    q.pageFor after (r.onLayer layer) =
      ((p.pageFor config layer).map change).mapError r.onReason := by
  unfold Pipeline.pageFor
  rw [h.unselectedKey? hp hlayer hconfig hstale, h.project hp hlayer hconfig hstale]
  cases layer.unselectedKey? config with
  | some key =>
      rfl
  | none =>
      -- The slot that is looked for has pairs of the configuration only.
      have hslot : ¬ r.Stale ((config.project layer).getD .empty) := by
        refine Renaming.not_stale_of_apart fun key text hpair => ?_
        cases hproject : config.project layer with
        | none =>
            simp [hproject, Assignment.empty] at hpair
        | some slot =>
            rw [hproject, Option.getD_some] at hpair
            exact Renaming.apart_of_not_stale hstale
              (BuildConfig.getElem?_of_project hproject hpair)
      have hrenamed : ((config.project layer).map r.onAssignment).getD .empty =
          r.onAssignment ((config.project layer).getD .empty) := by
        cases config.project layer with
        | none =>
            exact (Renaming.onAssignment_empty r).symm
        | some slot =>
            rfl
      simp only [Option.map_none, hrenamed]
      rw [show (r.onLayer layer).id = layer.id from rfl,
        findPage? hpages hchange hlive hslot layer.id]
      cases p.findPage? layer.id ((config.project layer).getD .empty) with
      | none =>
          rfl
      | some page =>
          rfl

/-- What is selected after a renaming is what was selected before, page by page. -/
theorem selectFrom (h : Renames r p q) (hp : p.Consistent) (hpages : q.pages = p.pages.map change)
    (hchange : ∀ page, r.OnPage page (change page))
    (hlive : ∀ page ∈ p.pages, ¬ r.Stale page.assignment) {layers : List Layer}
    (hlayers : ∀ layer ∈ layers, layer ∈ p.layers)
    (hconfig : r.OnConfig config after) (hstale : ¬ r.Stale config.selections) :
    q.selectFrom after (layers.map r.onLayer) =
      ⟨(p.selectFrom config layers).pages.map (Prod.map r.onLayer change),
        (p.selectFrom config layers).defects.map r.onDefect⟩ := by
  induction layers with
  | nil =>
      rfl
  | cons layer rest ih =>
      rcases List.forall_mem_cons.1 hlayers with ⟨hlayer, hrest⟩
      have hpage := h.pageFor hp hpages hchange hlive hlayer hconfig hstale
      rw [List.map_cons, Pipeline.selectFrom, Pipeline.selectFrom, hpage, ih hrest]
      cases p.pageFor config layer with
      | ok page =>
          rfl
      | error reason =>
          by_cases hrequired : layer.required = true
          · simp [Except.map, Except.mapError, Renaming.onLayer, Renaming.onDefect, hrequired]
          · simp [Except.map, Except.mapError, Renaming.onLayer, hrequired]

end

/-- A renaming keeps the sequence of the layers. -/
theorem layersInOrder (h : Renames r p q) : q.layersInOrder = p.layersInOrder.map r.onLayer := by
  have hsorted : p.layersInOrder.map r.onLayer =
      (p.layers.map r.onLayer).mergeSort fun a b => a.order ≤ b.order :=
    List.map_mergeSort fun _ _ _ _ => rfl
  rw [hsorted, ← h.layers, Pipeline.layersInOrder]

/-- Renamed pages have the same trees. -/
theorem trees_map {change : Page → Page} (hchange : ∀ page, r.OnPage page (change page))
    (selection : Selection) (defects : List Defect) :
    Selection.trees ⟨selection.pages.map (Prod.map r.onLayer change), defects⟩ =
      selection.trees := by
  simp [Selection.trees, Function.comp_def, (hchange _).tokens]

/-- A build after a renaming has the same tree and the renamed defects. -/
theorem buildTokens (h : Renames r p q) (hp : p.Consistent)
    (hlive : ∀ page ∈ p.pages, ¬ r.Stale page.assignment)
    (hconfig : r.OnConfig config after) (hstale : ¬ r.Stale config.selections) :
    q.buildTokens after =
      ⟨(p.buildTokens config).tree, (p.buildTokens config).defects.map r.onDefect⟩ := by
  rcases h.pages with ⟨change, hpages, hchange⟩
  have hlayers : ∀ layer ∈ p.layersInOrder, layer ∈ p.layers := fun layer hmem =>
    List.mem_mergeSort.1 hmem
  have hselect := h.selectFrom hp hpages hchange hlive hlayers hconfig hstale
  simp only [Pipeline.buildTokens, Pipeline.select, h.layersInOrder, hselect, Selection.build,
    trees_map hchange]

end Renames

namespace Pipeline

variable {p q : Pipeline} {r : Renaming}

/-- When no page is an orphan, an accepted renaming renames the configurations in their order and
changes no build of them but for the names in its defects, and no page is an orphan afterwards. -/
theorem forall₂_buildTokens_of_renaming {slug : String → String} (h : p.Reachable slug)
    (horphans : p.orphans = []) (hrun : r.edit.run p = .ok () q) :
    List.Forall₂ (fun config after => r.OnConfig config after ∧
        (q.buildTokens after).tree = (p.buildTokens config).tree ∧
        (q.buildTokens after).defects = (p.buildTokens config).defects.map r.onDefect)
      p.buildConfigs q.buildConfigs ∧ q.orphans = [] := by
  have hp := h.consistent
  have hrenames := renames_of_run hp hrun
  have hkept : ∀ page ∈ p.pages, p.isOrphan page = false := by
    simpa [orphans] using horphans
  have hlive : ∀ page ∈ p.pages, ¬ r.Stale page.assignment := fun page hpage =>
    hrenames.not_stale_of_isOrphan_eq_false hp (hkept page hpage)
  constructor
  · -- Corresponding configurations are made of renamed pairs, and none of these is stale.
    rw [hrenames.buildConfigs hp, buildConfigs, List.forall₂_map_left_iff,
      List.forall₂_map_right_iff, List.forall₂_same]
    intro pairs hpairs
    have hapart := hrenames.apart_of_mem_choices hpairs
    have hconfig := Renaming.onConfig_ofPairs hapart
    have hstale : ¬ r.Stale (BuildConfig.ofPairs pairs).selections :=
      Renaming.not_stale_of_apart fun key text hpair =>
        hapart (key, text) (Assignment.mem_of_getElem?_ofPairs hpair)
    have hbuild := hrenames.buildTokens hp hlive hconfig hstale
    exact ⟨hconfig, by rw [hbuild], by rw [hbuild]⟩
  · -- A page that is no orphan reads back as itself, and stays none.
    rcases hrenames.pages with ⟨change, hpages, hchange⟩
    refine List.filter_eq_nil_iff.2 ?_
    rw [hpages, List.forall_mem_map]
    intro page hpage
    have hback : r.readBack page.assignment = page.assignment :=
      Renaming.inverse_onAssignment (hlive page hpage)
    simpa [hrenames.isOrphan hp (hchange page), hback] using hkept page hpage

/-- A layer that is required in both modes and has a page for one of them. -/
def lightPaged : Pipeline :=
  runWith plainSlug empty
    [.addVariable "Mode" "mode" ["light", "dark"],
      .addLayer "Theme" ["mode"] true,
      .getOrCreatePage ⟨"layer-theme"⟩ (.ofPairs [("mode", "light")])]

theorem forall₂_buildTokens_lightPaged :
    lightPaged.orphans = [] ∧
      lightPaged.buildConfigs =
        [.ofPairs [("mode", "light")], .ofPairs [("mode", "dark")]] ∧
      ∃ q, (Renaming.key "mode" "scheme").edit.run lightPaged = .ok () q ∧
        q.orphans = [] ∧
        List.Forall₂ (fun config after => (q.buildTokens after).tree =
          (lightPaged.buildTokens config).tree)
          lightPaged.buildConfigs q.buildConfigs := by
  have horphans : lightPaged.orphans = [] := by
    decide +kernel
  have hrun := @Edit.run_eq_ok_of_result _ _ _ lightPaged ()
    (Renaming.key "mode" "scheme").edit (by decide +kernel)
  have h := forall₂_buildTokens_of_renaming ⟨_, rfl⟩ horphans hrun
  exact ⟨horphans, by decide +kernel, _, hrun, h.2, h.1.imp fun _ _ hboth => hboth.2.1⟩

end Pipeline
end DesignTokens
