import DesignTokens.Proofs.Pipeline.Selections

/-!
# What becomes of each layer

A build merges one page of each layer that has a page for the configuration. A layer without such a
page is a defect of the build when it is required, and is passed over when it is not; neither makes
a difference for the pages of the others. A build up to a layer is the build of a pipeline that ends
with this layer.
-/

namespace DesignTokens

/-! ## Sublists -/

namespace Sequence

universe u

variable {α : Type u} {items fewer front back : List α}

/-- What is left of distinct items in their order is decided by which of them are left. -/
theorem eq_filter_of_sublist {keep : α → Bool} (hnodup : items.Nodup) (hsub : fewer.Sublist items)
    (hmem : ∀ a ∈ items, a ∈ fewer ↔ keep a = true) : fewer = items.filter keep := by
  induction hsub with
  | slnil =>
      rfl
  | @cons fewer rest a hsub ih =>
      rcases List.nodup_cons.1 hnodup with ⟨ha, hrest⟩
      rcases List.forall_mem_cons.1 hmem with ⟨hfirst, hlater⟩
      have hdropped : ¬ keep a = true := fun hkeep => ha (hsub.subset (hfirst.2 hkeep))
      rw [List.filter_cons_of_neg hdropped]
      exact ih hrest hlater
  | @cons_cons fewer rest a hsub ih =>
      rcases List.nodup_cons.1 hnodup with ⟨ha, hrest⟩
      rcases List.forall_mem_cons.1 hmem with ⟨hfirst, hlater⟩
      rw [List.filter_cons_of_pos (hfirst.1 (List.mem_cons_self ..))]
      refine congrArg (a :: ·) (ih hrest fun b hb => ?_)
      have hne : b ≠ a := fun heq => ha (heq ▸ hb)
      simpa [hne] using hlater b hb

theorem filter_mem_append [DecidableEq α] (hnodup : (front ++ back).Nodup) :
    (front ++ back).filter (· ∈ front) = front := by
  have hcut : ∀ a ∈ front, decide (a ∈ front) = true := fun a ha => decide_eq_true ha
  have hback : ∀ a ∈ back, ¬ decide (a ∈ front) = true := by
    intro a ha hmem
    exact (List.nodup_append.1 hnodup).2.2 a (of_decide_eq_true hmem) a ha rfl
  rw [List.filter_append, List.filter_eq_self.2 hcut, List.filter_eq_nil_iff.2 hback,
    List.append_nil]

end Sequence

/-! ## The page of one layer -/

namespace BuildConfig

/-- The assignment is the projection of the configuration onto the keys of a layer: all of them are
selected, and it has the selected values of these keys and no others. -/
structure Projects (config : BuildConfig) (layer : Layer) (a : Assignment) : Prop where
  selected : ∀ key ∈ layer.variableKeys, key ∈ config.selections
  values : ∀ key, a[key]? = if key ∈ layer.variableKeys then config.selections[key]? else none

variable {config : BuildConfig} {layer : Layer} {a b : Assignment}

theorem Projects.unique (ha : config.Projects layer a) (hb : config.Projects layer b) : a = b :=
  Std.ExtTreeMap.ext_getElem? fun key => (ha.values key).trans (hb.values key).symm

/-- The projection takes the selected values of the layer's variables. -/
theorem projects_part (h : ∀ key ∈ layer.variableKeys, key ∈ config.selections) :
    config.Projects layer (config.selections.part layer.variableKeys) :=
  ⟨h, Assignment.getElem?_part h⟩

theorem Projects.project_eq (h : config.Projects layer a) : config.project layer = some a := by
  rw [Pipeline.project_eq_part h.selected, (projects_part h.selected).unique h]

end BuildConfig

namespace Pipeline

variable {p q : Pipeline} {config : BuildConfig} {layer active : Layer} {page : Page}
  {layers lower : List Layer} {kept : Layer → Prop}

/-- The page is the first one of the layer whose assignment is the projection of the
configuration. -/
structure Contributes (p : Pipeline) (config : BuildConfig) (layer : Layer) (page : Page) :
    Prop where
  home : page.layer = layer.id
  projected : config.Projects layer page.assignment
  first : ∃ before after, p.pages = before ++ page :: after ∧
    ∀ other ∈ before, other.layer = layer.id → other.assignment ≠ page.assignment

/-- Why a layer has no page: the first of its keys without a selected value, or a projection that no
page of the layer has as its assignment. -/
inductive Lacks (p : Pipeline) (config : BuildConfig) (layer : Layer) : DefectReason → Prop where
  | unselected {before after : List String} {key : String}
      (split : layer.variableKeys = before ++ key :: after)
      (selected : ∀ other ∈ before, other ∈ config.selections)
      (free : key ∉ config.selections) : Lacks p config layer (.unselectedVariable key)
  | missing {a : Assignment} (projected : config.Projects layer a)
      (absent : ∀ page ∈ p.pages, page.layer = layer.id → page.assignment ≠ a) :
      Lacks p config layer (.missingPage a)

theorem pageFor_of_contributes (h : p.Contributes config layer page) :
    p.pageFor config layer = .ok page := by
  rcases h.first with ⟨before, after, hpages, hbefore⟩
  have hfound : p.findPage? layer.id page.assignment = some page := by
    rw [findPage?, hpages]
    refine Sequence.find?_of_split (by simp [Page.fits, h.home]) fun other hother => ?_
    simpa [Page.fits] using hbefore other hother
  rw [pageFor, unselectedKey?_eq_none h.projected.selected, h.projected.project_eq]
  simp [hfound]

/-- A layer has the page that it contributes, or there is a reason why it lacks one. -/
theorem pageFor_spec (p : Pipeline) (config : BuildConfig) (layer : Layer) :
    (∃ page, p.Contributes config layer page ∧ p.pageFor config layer = .ok page) ∨
      ∃ reason, p.Lacks config layer reason ∧ p.pageFor config layer = .error reason := by
  cases hkey : layer.unselectedKey? config with
  | some key =>
      rcases List.find?_eq_some_iff_append.1 hkey with ⟨hfree, before, after, hsplit, hbefore⟩
      have hselected : ∀ other ∈ before, other ∈ config.selections := by simpa using hbefore
      have hunselected : key ∉ config.selections := by
        rw [Bool.not_eq_true', Bool.eq_false_iff] at hfree
        exact fun hmem => hfree (Std.ExtTreeMap.contains_iff_mem.2 hmem)
      exact Or.inr ⟨_, .unselected hsplit hselected hunselected, by simp [pageFor, hkey]⟩
  | none =>
      have hselected : ∀ key ∈ layer.variableKeys, key ∈ config.selections := by
        simpa using List.find?_eq_none.1 hkey
      -- The projection exists, so that only the search among the pages can fail.
      have hprojects := BuildConfig.projects_part hselected
      cases hfound : p.findPage? layer.id (config.selections.part layer.variableKeys) with
      | some page =>
          have hfits : page.layer = layer.id ∧
              page.assignment = config.selections.part layer.variableKeys := by
            simpa [Page.fits] using List.find?_some hfound
          rcases List.find?_eq_some_iff_append.1 hfound with ⟨-, before, after, hpages, hbefore⟩
          have hcontributes : p.Contributes config layer page := by
            refine ⟨hfits.1, hfits.2 ▸ hprojects, before, after, hpages, ?_⟩
            intro other hother hhome
            simpa [Page.fits, hfits.2, hhome] using hbefore other hother
          exact Or.inl ⟨page, hcontributes, pageFor_of_contributes hcontributes⟩
      | none =>
          have habsent := List.find?_eq_none.1 hfound
          refine Or.inr ⟨_, .missing hprojects fun page hpage => ?_, ?_⟩
          · simpa [Page.fits] using habsent page hpage
          · simp [pageFor, hkey, hprojects.project_eq, hfound]

theorem pageFor_eq_ok_iff :
    p.pageFor config layer = .ok page ↔ p.Contributes config layer page := by
  constructor
  · intro hok
    rcases p.pageFor_spec config layer with ⟨found, hfound, hsame⟩ | ⟨reason, -, herror⟩
    · rw [hok] at hsame
      cases hsame
      exact hfound
    · rw [hok] at herror
      cases herror
  · exact pageFor_of_contributes

theorem selects_iff_contributes :
    p.selects config layer = true ↔ ∃ page, p.Contributes config layer page := by
  simp only [← pageFor_eq_ok_iff, selects]
  cases p.pageFor config layer with
  | ok page =>
      exact ⟨fun _ => ⟨page, rfl⟩, fun _ => rfl⟩
  | error reason =>
      simp [Except.isOk, Except.toBool]

/-! ## The layers of a selection -/

/-- What a layer adds to a selection: one page, or one defect when it lacks a page and is required,
or nothing when it lacks a page and is optional. -/
inductive Fate (p : Pipeline) (config : BuildConfig) (layer : Layer) :
    List (Layer × Page) → List Defect → Prop where
  | contributes {page : Page} (found : p.Contributes config layer page) :
      Fate p config layer [(layer, page)] []
  | reported {reason : DefectReason} (lacks : p.Lacks config layer reason)
      (required : layer.required = true) :
      Fate p config layer [] [⟨layer.id, layer.name, reason⟩]
  | skipped {reason : DefectReason} (lacks : p.Lacks config layer reason)
      (optional : layer.required = false) : Fate p config layer [] []

end Pipeline

/-- The selection has, in the order of the layers, what each of them adds to it and nothing else. -/
structure Selection.AccountsFor (selection : Selection) (p : Pipeline) (config : BuildConfig)
    (layers : List Layer) : Prop where
  pages : (selection.pages.map (·.1)).Sublist layers
  defects : (selection.defects.map (·.layerId)).Sublist (layers.map (·.id))
  fate : ∀ layer ∈ layers, p.Fate config layer (selection.pages.filter (·.1 = layer))
    (selection.defects.filter (·.layerId = layer.id))

namespace Pipeline

variable {p q : Pipeline} {config : BuildConfig} {layer active : Layer} {page : Page}
  {layers lower : List Layer} {kept : Layer → Prop}

/-- One layer more in front adds what becomes of it, and changes nothing of the rest. -/
theorem selectFrom_cons (p : Pipeline) (config : BuildConfig) (layer : Layer) (rest : List Layer) :
    ∃ pages defects, p.Fate config layer pages defects ∧
      p.selectFrom config (layer :: rest) =
        ⟨pages ++ (p.selectFrom config rest).pages,
          defects ++ (p.selectFrom config rest).defects⟩ := by
  rcases p.pageFor_spec config layer with ⟨page, hpage, hok⟩ | ⟨reason, hlacks, herror⟩
  · exact ⟨_, _, .contributes hpage, by simp [selectFrom, hok]⟩
  · cases hrequired : layer.required with
    | true =>
        exact ⟨_, _, .reported hlacks hrequired, by simp [selectFrom, herror, hrequired]⟩
    | false =>
        exact ⟨_, _, .skipped hlacks hrequired, by simp [selectFrom, herror, hrequired]⟩

/-- Selecting from two lists of layers gives the pages and defects of the one and then of the
other. -/
theorem selectFrom_append (p : Pipeline) (config : BuildConfig) (front back : List Layer) :
    p.selectFrom config (front ++ back) =
      ⟨(p.selectFrom config front).pages ++ (p.selectFrom config back).pages,
        (p.selectFrom config front).defects ++ (p.selectFrom config back).defects⟩ := by
  induction front with
  | nil =>
      rfl
  | cons layer rest ih =>
      simp only [List.cons_append, selectFrom, ih]
      split
      · rfl
      · split
        · rfl
        · rfl

section

variable {pages others : List (Layer × Page)} {defects reported : List Defect}

/-- A layer is found again under itself and its identity in what it adds. -/
theorem Fate.own (h : p.Fate config layer pages defects) :
    (∀ choice ∈ pages, choice.1 = layer) ∧ ∀ defect ∈ defects, defect.layerId = layer.id := by
  cases h with
  | contributes found =>
      simp
  | reported lacks required =>
      simp
  | skipped lacks optional =>
      simp

/-- A layer adds one page or one defect at most. -/
theorem Fate.sublists (h : p.Fate config layer pages defects) :
    (pages.map (·.1)).Sublist [layer] ∧ (defects.map (·.layerId)).Sublist [layer.id] := by
  cases h with
  | contributes found =>
      simp
  | reported lacks required =>
      simp
  | skipped lacks optional =>
      simp

/-- What a layer adds is accounted for in front of what is accounted for already, as long as no
other layer has its identity. -/
theorem Fate.accountsFor (h : p.Fate config layer pages defects)
    (hrest : Selection.AccountsFor ⟨others, reported⟩ p config layers)
    (hids : ((layer :: layers).map (·.id)).Nodup) :
    Selection.AccountsFor ⟨pages ++ others, defects ++ reported⟩ p config (layer :: layers) := by
  rcases h.own with ⟨hpages, hdefects⟩
  rcases h.sublists with ⟨hpagesSub, hdefectsSub⟩
  rcases List.nodup_cons.1 hids with ⟨hid, -⟩
  have hlayer : layer ∉ layers := fun hmem => hid (List.mem_map_of_mem hmem)
  constructor
  case pages =>
    simpa using hpagesSub.append hrest.pages
  case defects =>
    simpa using hdefectsSub.append hrest.defects
  case fate =>
    refine List.forall_mem_cons.2 ⟨?_, fun other hother => ?_⟩
    · -- Nothing of what was there is about the new layer.
      have hothers : others.filter (·.1 = layer) = [] := by
        refine List.filter_eq_nil_iff.2 fun choice hchoice heq => hlayer ?_
        exact of_decide_eq_true heq ▸ hrest.pages.subset (List.mem_map_of_mem hchoice)
      have hreported : reported.filter (·.layerId = layer.id) = [] := by
        refine List.filter_eq_nil_iff.2 fun defect hdefect heq => hid ?_
        have hmem := hrest.defects.subset (List.mem_map_of_mem hdefect)
        rwa [of_decide_eq_true heq] at hmem
      rw [List.filter_append, List.filter_append, hothers, hreported,
        List.filter_eq_self.2 fun choice hchoice => decide_eq_true (hpages choice hchoice),
        List.filter_eq_self.2 fun defect hdefect => decide_eq_true (hdefects defect hdefect),
        List.append_nil, List.append_nil]
      exact h
    · -- Nothing of what is new is about a layer that was there.
      have hne : layer.id ≠ other.id := fun heq => hid (List.mem_map.2 ⟨other, hother, heq.symm⟩)
      have hnew : pages.filter (·.1 = other) = [] := by
        refine List.filter_eq_nil_iff.2 fun choice hchoice heq => hne ?_
        rw [← hpages choice hchoice, of_decide_eq_true heq]
      have hnewDefects : defects.filter (·.layerId = other.id) = [] := by
        refine List.filter_eq_nil_iff.2 fun defect hdefect heq => hne ?_
        rw [← hdefects defect hdefect, of_decide_eq_true heq]
      rw [List.filter_append, List.filter_append, hnew, hnewDefects]
      exact hrest.fate other hother

end

/-- Every layer is accounted for: by a page, by a defect, or by neither where it is optional. -/
theorem accountsFor_selectFrom (p : Pipeline) (config : BuildConfig)
    (hids : (layers.map (·.id)).Nodup) :
    (p.selectFrom config layers).AccountsFor p config layers := by
  induction layers with
  | nil =>
      exact ⟨List.Sublist.refl [], List.Sublist.refl [], by simp⟩
  | cons layer rest ih =>
      rcases p.selectFrom_cons config layer rest with ⟨pages, defects, hfate, hselect⟩
      rw [hselect]
      exact hfate.accountsFor (ih (List.nodup_cons.1 hids).2) hids

/-- Layers that are all selected leave no defect. -/
theorem defects_selectFrom_of_selects (h : ∀ layer ∈ layers, p.selects config layer = true) :
    (p.selectFrom config layers).defects = [] := by
  refine List.eq_nil_iff_forall_not_mem.2 fun defect hdefect => ?_
  rcases exists_of_mem_defects hdefect with ⟨layer, hlayer, herror⟩
  have hselects := h layer hlayer
  rw [selects, herror] at hselects
  cases hselects

/-! ## Fewer layers -/

/-- The second pipeline has the layers of the first that are kept, in their order, with the same
pages of each of them. Whether the pages of the other layers are there still does not matter. -/
structure KeepsOnly (p q : Pipeline) (kept : Layer → Prop) : Prop where
  sublist : q.layers.Sublist p.layers
  mem_iff : ∀ layer ∈ p.layers, layer ∈ q.layers ↔ kept layer
  pages : ∀ layer ∈ q.layers, q.pagesOf layer.id = p.pagesOf layer.id

/-- Leaving out layers and sorting the others is sorting all and leaving them out. -/
theorem KeepsOnly.layersInOrder [DecidablePred kept] (h : p.KeepsOnly q kept)
    (hids : (p.layers.map (·.id)).Nodup) :
    q.layersInOrder = p.layersInOrder.filter (kept ·) := by
  have hlayers : q.layers = p.layers.filter (kept ·) := by
    refine Sequence.eq_filter_of_sublist (List.Nodup.of_map _ hids) h.sublist fun layer hlayer => ?_
    simpa using h.mem_iff layer hlayer
  rw [Pipeline.layersInOrder, hlayers, Pipeline.layersInOrder,
    Sequence.filter_mergeSort order_trans order_total]

/-- A pipeline with some layers left out selects what the others select. -/
theorem KeepsOnly.select_eq [DecidablePred kept] (h : p.KeepsOnly q kept)
    (hids : (p.layers.map (·.id)).Nodup) (config : BuildConfig) :
    q.select config = p.selectFrom config (p.layersInOrder.filter (kept ·)) := by
  rw [select, h.layersInOrder hids]
  refine selectFrom_congr (fun layer hlayer => h.pages layer ?_) config
  rw [← h.layersInOrder hids] at hlayer
  exact q.layersInOrder_subset hlayer

/-- Without the layers that lack a page, the others contribute what they did. -/
theorem KeepsOnly.buildTokens_eq
    (h : p.KeepsOnly q fun layer => ∃ page, p.Contributes config layer page)
    (hids : (p.layers.map (·.id)).Nodup) :
    q.buildTokens config = ⟨(p.buildTokens config).tree, []⟩ := by
  have hselects : p.KeepsOnly q fun layer => p.selects config layer = true := by
    simpa only [selects_iff_contributes] using h
  have hfilter := hselects.select_eq hids config
  simp only [Bool.decide_eq_true] at hfilter
  have hpages : (q.select config).pages = (p.select config).pages := by
    rw [hfilter, pages_selectFrom_filter, select]
  have hdefects : (q.select config).defects = [] := by
    rw [hfilter]
    exact defects_selectFrom_of_selects fun layer hlayer => (List.mem_filter.1 hlayer).2
  simp only [buildTokens, Selection.build, Selection.trees, hpages, hdefects]

/-- What is cut off after a layer in the order of the merge selects what the layers up to it do. -/
theorem KeepsOnly.select_of_isPrefix (h : p.KeepsOnly q (· ∈ lower ++ [active]))
    (hids : (p.layers.map (·.id)).Nodup) (hlower : lower ++ [active] <+: p.layersInOrder)
    (config : BuildConfig) : q.select config = p.selectFrom config (lower ++ [active]) := by
  rcases hlower with ⟨above, habove⟩
  have hnodup := List.Nodup.of_map _ (nodup_ids_layersInOrder hids)
  rw [← habove] at hnodup
  rw [h.select_eq hids, ← habove, Sequence.filter_mem_append hnodup]

/-- A build accounts for every layer. Each one, in the order of the merge, contributes its page, or
is reported once when it is required, or is skipped; the tree is what the contributed pages, each
laid over the ones before it, leave, and the defects are the reports. Layers that lack a page have
no part in it: without them the tree is the same, and the others contribute the same pages. And a
build up to a layer is the build of what is left when the layers after it are cut off; it finds the
defects that the whole build finds first, and it is the whole build for the last layer. -/
theorem accountsFor_buildTokens (hids : (p.layers.map (·.id)).Nodup) (config : BuildConfig) :
    ((p.select config).AccountsFor p config p.layersInOrder ∧
        (p.select config).build = p.buildTokens config ∧
        (p.buildTokens config).tree.IsMergeOf
          ((p.select config).pages.map fun choice => choice.2.tokens.toTree) ∧
        (p.buildTokens config).defects = (p.select config).defects) ∧
      (∀ q, p.KeepsOnly q (fun layer => ∃ page, p.Contributes config layer page) →
        q.buildTokens config = ⟨(p.buildTokens config).tree, []⟩ ∧
          ∀ layer ∈ q.layers, ∀ page,
            q.Contributes config layer page ↔ p.Contributes config layer page) ∧
      ∀ lower active, lower ++ [active] <+: p.layersInOrder →
        ∀ q, p.KeepsOnly q (· ∈ lower ++ [active]) →
          p.buildTokensUpTo config active.id = .ok (q.buildTokens config) ∧
            (q.buildTokens config).defects <+: (p.buildTokens config).defects ∧
            (lower ++ [active] = p.layersInOrder →
              q.buildTokens config = p.buildTokens config) := by
  refine ⟨⟨?_, rfl, (p.select config).isMergeOf_build, rfl⟩, fun q hq => ⟨hq.buildTokens_eq hids,
    fun layer hlayer page => ?_⟩, ?_⟩
  · exact p.accountsFor_selectFrom config (nodup_ids_layersInOrder hids)
  · rw [← pageFor_eq_ok_iff, ← pageFor_eq_ok_iff, pageFor_congr (hq.pages layer hlayer) config]
  · intro lower active hlower q hq
    have hselect := hq.select_of_isPrefix hids hlower config
    refine ⟨?_, ?_, fun hlast => ?_⟩
    · have hlayer := layer?_of_mem hids (mem_layers_of_isPrefix hlower)
      rw [buildTokensUpTo, hlayer, selectUpTo_of_isPrefix hids hlower, ← hselect]
      rfl
    · rcases hlower with ⟨above, habove⟩
      rw [buildTokens, hselect, buildTokens, select, ← habove,
        p.selectFrom_append config (lower ++ [active]) above]
      exact List.prefix_append ..
    · rw [buildTokens, hselect, hlast]
      rfl

/-- The layer below all others, which has a page for every configuration. -/
def commonLayer : Layer := ⟨⟨"layer-common"⟩, "Common", 0, [], true⟩

/-- A required layer whose variable has no selected value in the dark. -/
def brandLayer : Layer := ⟨⟨"layer-brand"⟩, "Brand", 1, ["brand"], true⟩

/-- A required layer of the same order, with a page for the light only. -/
def modeLayer : Layer := ⟨⟨"layer-mode"⟩, "Mode", 1, ["mode"], true⟩

/-- An optional layer of the same order, without pages. -/
def hintLayer : Layer := ⟨⟨"layer-hint"⟩, "Hint", 1, ["mode"], false⟩

/-- The layer above them, with a page for the dark. -/
def nightLayer : Layer := ⟨⟨"layer-night"⟩, "Night", 2, ["mode"], false⟩

/-- Five layers, two of which have a page in the dark. -/
def unevenlyPaged : Pipeline where
  vars := [⟨⟨"var-mode"⟩, "Mode", "mode", ["light", "dark"]⟩,
    ⟨⟨"var-brand"⟩, "Brand", "brand", ["acme"]⟩]
  layers := [commonLayer, brandLayer, modeLayer, hintLayer, nightLayer]
  pages := [
    ⟨⟨"page-common"⟩, commonLayer.id, "Common", .empty,
      .ofTree { children := [("red", .token { value := .string "#FF0000" })] }⟩,
    ⟨⟨"page-light"⟩, modeLayer.id, "Light", .ofPairs [("mode", "light")], .empty⟩,
    ⟨⟨"page-night"⟩, nightLayer.id, "Night", .ofPairs [("mode", "dark")],
      .ofTree { children := [("red", .token { value := .string "#880000" })] }⟩]

def darkOnly : BuildConfig := .ofPairs [("mode", "dark")]

theorem layersInOrder_unevenlyPaged : unevenlyPaged.layersInOrder = unevenlyPaged.layers :=
  List.mergeSort_of_pairwise (by decide +kernel)

theorem keepsOnly_contributing_unevenlyPaged :
    unevenlyPaged.KeepsOnly { unevenlyPaged with layers := [commonLayer, nightLayer] }
      fun layer => ∃ page, unevenlyPaged.Contributes darkOnly layer page := by
  refine ⟨by decide +kernel, ?_, fun layer _ => rfl⟩
  simp only [← selects_iff_contributes]
  decide +kernel

theorem keepsOnly_upTo_unevenlyPaged :
    unevenlyPaged.KeepsOnly { unevenlyPaged with layers := [commonLayer, brandLayer, modeLayer] }
      (· ∈ [commonLayer, brandLayer] ++ [modeLayer]) :=
  ⟨by decide +kernel, by decide +kernel, fun layer _ => rfl⟩

/-- In the dark the common red is laid under the red of the night; the brand and the mode are
defects. -/
theorem accountsFor_buildTokens_unevenlyPaged :
    (unevenlyPaged.select darkOnly).AccountsFor unevenlyPaged darkOnly unevenlyPaged.layersInOrder ∧
      (unevenlyPaged.buildTokens darkOnly).tree.IsMergeOf
        [{ children := [("red", .token { value := .string "#FF0000" })] },
          { children := [("red", .token { value := .string "#880000" })] }] ∧
      (unevenlyPaged.buildTokens darkOnly).defects =
        [⟨brandLayer.id, "Brand", .unselectedVariable "brand"⟩,
          ⟨modeLayer.id, "Mode", .missingPage (.ofPairs [("mode", "dark")])⟩] ∧
      ({ unevenlyPaged with layers := [commonLayer, nightLayer] } : Pipeline).buildTokens darkOnly =
        ⟨(unevenlyPaged.buildTokens darkOnly).tree, []⟩ ∧
      unevenlyPaged.buildTokensUpTo darkOnly ⟨"layer-mode"⟩ =
        .ok (({ unevenlyPaged with layers := [commonLayer, brandLayer, modeLayer] } :
          Pipeline).buildTokens darkOnly) := by
  have hids : (unevenlyPaged.layers.map (·.id)).Nodup := by decide +kernel
  rcases accountsFor_buildTokens hids darkOnly with ⟨haccounts, hcontributing, hcut⟩
  have hlower : [commonLayer, brandLayer] ++ [modeLayer] <+: unevenlyPaged.layersInOrder :=
    layersInOrder_unevenlyPaged ▸ ⟨[hintLayer, nightLayer], rfl⟩
  have hpages : (unevenlyPaged.select darkOnly).pages.map (fun choice => choice.2.tokens.toTree) =
      [{ children := [("red", .token { value := .string "#FF0000" })] },
        { children := [("red", .token { value := .string "#880000" })] }] := by
    rw [select, layersInOrder_unevenlyPaged]
    decide +kernel
  have hdefects : (unevenlyPaged.select darkOnly).defects =
      [⟨brandLayer.id, "Brand", .unselectedVariable "brand"⟩,
        ⟨modeLayer.id, "Mode", .missingPage (.ofPairs [("mode", "dark")])⟩] := by
    rw [select, layersInOrder_unevenlyPaged]
    decide +kernel
  rcases haccounts with ⟨haccounts, -, hmerge, hreported⟩
  exact ⟨haccounts, hpages ▸ hmerge, hreported.trans hdefects,
    (hcontributing _ keepsOnly_contributing_unevenlyPaged).1,
    (hcut _ _ hlower _ keepsOnly_upTo_unevenlyPaged).1⟩

end Pipeline
end DesignTokens
