import DesignTokens.Pipeline.Build
import DesignTokens.Proofs.Token.Merge

/-!
# Layered builds

A build is the merge of the trees of the selected pages in the order of their layers. A layer that
no page is selected for has no part in it.
-/

namespace DesignTokens

/-! ## Trees of stores -/

namespace Store

/-- The entries that a store has at a level have distinct names, and so have those below. -/
theorem eachEntry_entriesAt (store : Store) (level : Nat) (path : String) :
    (Entries.keys (store.entriesAt level path)).Nodup ∧
      Node.EachEntry List.Nodup (store.entriesAt level path) := by
  induction level generalizing path with
  | zero =>
      simp [entriesAt, Entries.keys]
  | succ level ih =>
      rw [entriesAt]
      -- The names of the group are put one after another, and putting keeps both properties.
      refine List.foldlRecOn (motive := fun entries => (Entries.keys entries).Nodup ∧
        Node.EachEntry List.Nodup entries) (store.children path) _ ?_ ?_
      · simp [Entries.keys]
      · intro entries hentries name _
        rcases hentries with ⟨hnames, hbelow⟩
        have hput : ∀ node, Node.EachGroup List.Nodup node →
            (Entries.keys (Entries.put entries name node)).Nodup ∧
              Node.EachEntry List.Nodup (Entries.put entries name node) := by
          intro node hnode
          exact ⟨Entries.nodup_keys_put hnames name node, hbelow.put hnode name⟩
        cases hget : store.get? (Path.child path name) with
        | none =>
            simpa [hget] using ⟨hnames, hbelow⟩
        | some stored =>
            cases stored with
            | token t =>
                simpa [hget] using hput (.token t) (by simp)
            | group attributes =>
                have hgroup : Node.EachGroup List.Nodup
                    (.group attributes (store.entriesAt level (Path.child path name))) :=
                  Node.eachGroup_group_iff.2 (ih (Path.child path name))
                simpa [hget] using hput _ hgroup

theorem eachGroup_toTree (store : Store) : store.toTree.EachGroup List.Nodup :=
  store.eachEntry_entriesAt store.depth ""

end Store

/-! ## Selected pages -/

/-- What is built of a selection is what its pages, each laid over the ones before it, leave. -/
theorem Selection.isMergeOf_build (selection : Selection) :
    selection.build.tree.IsMergeOf
      (selection.pages.map fun choice => choice.2.tokens.toTree) := by
  refine Tree.isMergeOf_foldl (List.forall_mem_map.2 ?_)
  exact fun choice _ => choice.2.tokens.eachGroup_toTree

namespace Pipeline

def selects (p : Pipeline) (config : BuildConfig) (layer : Layer) : Bool :=
  (p.pageFor config layer).isOk

/-- The pages of a selection are those found for its layers, in order. -/
theorem pages_selectFrom (p : Pipeline) (config : BuildConfig) (layers : List Layer) :
    (p.selectFrom config layers).pages =
      layers.filterMap fun layer => (p.pageFor config layer).toOption.map (layer, ·) := by
  induction layers with
  | nil =>
      rfl
  | cons layer rest ih =>
      cases hpage : p.pageFor config layer with
      | ok page =>
          simp [selectFrom, hpage, ih, Except.toOption]
      | error reason =>
          by_cases hrequired : layer.required = true
          · simp [selectFrom, hpage, ih, hrequired, Except.toOption]
          · simp [selectFrom, hpage, ih, hrequired, Except.toOption]

/-- A layer is selected when a page is found for it. -/
theorem selects_eq_isSome (p : Pipeline) (config : BuildConfig) (layer : Layer) :
    p.selects config layer = (p.pageFor config layer).toOption.isSome := by
  cases hpage : p.pageFor config layer with
  | ok page =>
      simp [selects, hpage, Except.toOption, Except.isOk, Except.toBool]
  | error reason =>
      simp [selects, hpage, Except.toOption, Except.isOk, Except.toBool]

/-- The layers of a selection are those with a page, in order. -/
theorem map_fst_pages_selectFrom (p : Pipeline) (config : BuildConfig) (layers : List Layer) :
    (p.selectFrom config layers).pages.map Prod.fst = layers.filter (p.selects config) := by
  -- A layer is kept with its page, or not at all.
  have hlayer : ∀ layer, ((p.pageFor config layer).toOption.map (layer, ·)).map Prod.fst =
      if p.selects config layer then some layer else none := by
    intro layer
    rw [selects_eq_isSome]
    cases (p.pageFor config layer).toOption with
    | none =>
        rfl
    | some page =>
        rfl
  calc
    (p.selectFrom config layers).pages.map Prod.fst
        = layers.filterMap fun layer => if p.selects config layer then some layer else none := by
          simp only [pages_selectFrom, List.map_filterMap, hlayer]
    _ = layers.filter (p.selects config) := by
          rw [← List.filterMap_eq_filter]
          rfl

/-- Only the layers with a selected page count. -/
theorem pages_selectFrom_filter (p : Pipeline) (config : BuildConfig) (layers : List Layer) :
    (p.selectFrom config (layers.filter (p.selects config))).pages =
      (p.selectFrom config layers).pages := by
  have hlayer : ∀ layer, (if p.selects config layer then
      (p.pageFor config layer).toOption.map (layer, ·) else none) =
        (p.pageFor config layer).toOption.map (layer, ·) := by
    intro layer
    rw [selects_eq_isSome]
    cases (p.pageFor config layer).toOption with
    | none =>
        rfl
    | some page =>
        rfl
  simp only [pages_selectFrom, List.filterMap_filter, hlayer]

/-- Which page a layer takes does not depend on the other layers. -/
theorem pageFor_withLayers (p : Pipeline) (layers : List Layer) (config : BuildConfig)
    (layer : Layer) :
    ({ p with layers := layers } : Pipeline).pageFor config layer = p.pageFor config layer := rfl

theorem order_trans (a b c : Layer) (hab : decide (a.order ≤ b.order) = true)
    (hbc : decide (b.order ≤ c.order) = true) : decide (a.order ≤ c.order) = true :=
  decide_eq_true (Int32.le_trans (of_decide_eq_true hab) (of_decide_eq_true hbc))

theorem order_total (a b : Layer) :
    (decide (a.order ≤ b.order) || decide (b.order ≤ a.order)) = true := by
  simpa using Int32.le_total a.order b.order

/-- The layers of a build, sorted before or after the others are left out. -/
theorem map_fst_pages_select (p : Pipeline) (config : BuildConfig) :
    (p.select config).pages.map Prod.fst =
      (p.layers.filter (p.selects config)).mergeSort fun a b => a.order ≤ b.order := by
  rw [select, map_fst_pages_selectFrom, layersInOrder]
  exact Sequence.filter_mergeSort order_trans order_total _ _

/-- Layers that select nothing make no difference to the pages. -/
theorem pages_select_eq_of_filter_eq (p : Pipeline) {config : BuildConfig} {layers : List Layer}
    (h : layers.filter (p.selects config) = p.layers.filter (p.selects config)) :
    (({ p with layers := layers } : Pipeline).select config).pages =
      (p.select config).pages := by
  have hother : ∀ items : List Layer,
      (({ p with layers := layers } : Pipeline).selectFrom config items).pages =
        (p.selectFrom config items).pages := by
    intro items
    simp only [pages_selectFrom, pageFor_withLayers]
  -- Leaving out the layers without a page before the sorting makes no difference.
  have hsort : ∀ items : List Layer,
      (p.selectFrom config (items.mergeSort fun a b => a.order ≤ b.order)).pages =
        (p.selectFrom config ((items.filter (p.selects config)).mergeSort
          fun a b => a.order ≤ b.order)).pages := by
    intro items
    rw [← pages_selectFrom_filter, Sequence.filter_mergeSort order_trans order_total]
  calc
    (({ p with layers := layers } : Pipeline).select config).pages
        = (p.selectFrom config (layers.mergeSort fun a b => a.order ≤ b.order)).pages := hother _
    _ = (p.selectFrom config (p.layers.mergeSort fun a b => a.order ≤ b.order)).pages := by
          rw [hsort layers, h, ← hsort p.layers]
    _ = (p.select config).pages := rfl

/-- A build merges the trees of the selected pages by ascending order of their layers, and the
layers that no page is selected for make no difference for its tree. -/
theorem isMergeOf_buildTokens (p : Pipeline) (config : BuildConfig) :
    (p.buildTokens config).tree.IsMergeOf (p.select config).trees ∧
      ((p.select config).pages.map Prod.fst).Pairwise (fun a b => a.order ≤ b.order) ∧
      ∀ layers : List Layer,
        layers.filter (p.selects config) = p.layers.filter (p.selects config) →
          (({ p with layers := layers } : Pipeline).buildTokens config).tree =
            (p.buildTokens config).tree := by
  refine ⟨(p.select config).isMergeOf_build, ?_, ?_⟩
  · have hsorted := List.pairwise_mergeSort order_trans order_total
      (p.layers.filter (p.selects config))
    rw [map_fst_pages_select]
    exact hsorted.imp (fun hab => of_decide_eq_true hab)
  · intro layers h
    have hpages := p.pages_select_eq_of_filter_eq h
    simp only [buildTokens, Selection.build, Selection.trees, hpages]

end Pipeline
end DesignTokens
