import DesignTokens.Pipeline.Effective
import DesignTokens.Proofs.Sequence

/-!
# What a layer can not see

The view of a layer is made from the layers up to it and from the pages of these. Two pipelines that
have both in common give the layer one view, whatever else they have.
-/

namespace DesignTokens
namespace Pipeline

variable {p q : Pipeline} {config : BuildConfig} {layer active : Layer} {layers lower : List Layer}

/-! ## Pages of one layer -/

/-- A page is looked up among the pages of its layer. -/
theorem findPage?_eq (p : Pipeline) (id : LayerId) (a : Assignment) :
    p.findPage? id a = (p.pagesOf id).find? (·.assignment = a) := by
  simp only [findPage?, pagesOf, List.find?_filter, Page.fits, Bool.decide_and, Bool.decide_eq_true]

/-- The page of a layer is found among the pages of this layer. -/
theorem pageFor_congr (h : p.pagesOf layer.id = q.pagesOf layer.id) (config : BuildConfig) :
    p.pageFor config layer = q.pageFor config layer := by
  simp only [pageFor, findPage?_eq, h]

/-- What layers select depends on their own pages alone. -/
theorem selectFrom_congr (h : ∀ layer ∈ layers, p.pagesOf layer.id = q.pagesOf layer.id)
    (config : BuildConfig) : p.selectFrom config layers = q.selectFrom config layers := by
  induction layers with
  | nil =>
      rfl
  | cons layer rest ih =>
      rcases List.forall_mem_cons.1 h with ⟨hlayer, hrest⟩
      simp only [selectFrom, pageFor_congr hlayer config, ih hrest]

/-! ## Layers up to one -/

theorem nodup_ids_layersInOrder (h : (p.layers.map (·.id)).Nodup) :
    (p.layersInOrder.map (·.id)).Nodup :=
  ((List.mergeSort_perm p.layers _).map _).nodup_iff.2 h

/-- Only the layer itself has its identity, so that none of the layers before it ends the way. -/
theorem upTo_of_isPrefix (hids : (layers.map (·.id)).Nodup) (h : lower ++ [active] <+: layers) :
    upTo active.id layers = lower ++ [active] := by
  induction lower generalizing layers with
  | nil =>
      rcases h with ⟨above, rfl⟩
      simp [upTo]
  | cons first lower ih =>
      rcases h with ⟨above, rfl⟩
      rcases List.nodup_cons.1 hids with ⟨hfirst, hrest⟩
      have hne : first.id ≠ active.id := by
        intro heq
        exact hfirst (by simp [heq])
      simpa [upTo, hne] using ih hrest (List.prefix_append ..)

/-- A layer is found by its identity when no two layers share one. -/
theorem layer?_of_mem (hids : (p.layers.map (·.id)).Nodup) (h : layer ∈ p.layers) :
    p.layer? layer.id = some layer :=
  Sequence.find?_of_mem hids h

/-! ## Views -/

/-- Two pipelines have the same layers up to and including one in the order of the merge, and the
same pages of each of them in the same order. Later layers, the pages of other layers, how the pages
of different layers are interleaved, and the variables do not matter. -/
structure AgreeUpTo (p q : Pipeline) (lower : List Layer) (active : Layer) : Prop where
  left : lower ++ [active] <+: p.layersInOrder
  right : lower ++ [active] <+: q.layersInOrder
  pages : ∀ layer ∈ lower ++ [active], p.pagesOf layer.id = q.pagesOf layer.id

theorem mem_layers_of_isPrefix (h : lower ++ [active] <+: p.layersInOrder) : active ∈ p.layers :=
  List.mem_mergeSort.1 (h.subset (by simp))

/-- A view selects from the layers up to its own, in order. -/
theorem selectUpTo_of_isPrefix (hids : (p.layers.map (·.id)).Nodup)
    (h : lower ++ [active] <+: p.layersInOrder) (config : BuildConfig) :
    p.selectUpTo config active.id = p.selectFrom config (lower ++ [active]) := by
  rw [selectUpTo, upTo_of_isPrefix (nodup_ids_layersInOrder hids) h]

/-- A layer that exists has a view, which is made from the selection of the layers up to it. -/
theorem effective_of_isPrefix (hids : (p.layers.map (·.id)).Nodup)
    (h : lower ++ [active] <+: p.layersInOrder) (config : BuildConfig) :
    p.effective active.id config =
      .ok ⟨active.id, (p.selectFrom config (lower ++ [active])).build.tree,
        (Origins.ofSelection active.id (p.selectFrom config (lower ++ [active])).pages).within
          (p.selectFrom config (lower ++ [active])).build.tree,
        (p.selectFrom config (lower ++ [active])).defects⟩ := by
  have hlayer := layer?_of_mem hids (mem_layers_of_isPrefix h)
  simp only [effective, hlayer, selectUpTo_of_isPrefix hids h]
  rfl

/-- Later layers have no influence on the view of an earlier one. Two pipelines that agree up to a
layer both have a view of it, with one tree, one provenance and the same defects, and every path
resolves to one value in both. -/
theorem effective_of_agreeUpTo (hp : (p.layers.map (·.id)).Nodup) (hq : (q.layers.map (·.id)).Nodup)
    (h : AgreeUpTo p q lower active) (config : BuildConfig) :
    ∃ view other, p.effective active.id config = .ok view ∧
      q.effective active.id config = .ok other ∧ other.tree = view.tree ∧
      other.origins = view.origins ∧ other.defects = view.defects ∧
      ∀ path, other.resolve path = view.resolve path := by
  have hselect :
      p.selectFrom config (lower ++ [active]) = q.selectFrom config (lower ++ [active]) :=
    selectFrom_congr h.pages config
  refine ⟨_, _, effective_of_isPrefix hp h.left config, effective_of_isPrefix hq h.right config, ?_⟩
  rw [hselect]
  exact ⟨rfl, rfl, rfl, fun path => rfl⟩

/-- The layer that the two pipelines below start with. -/
def groundLayer : Layer := ⟨⟨"layer-base"⟩, "Base", 0, [], true⟩

def accentLayer : Layer := ⟨⟨"layer-accent"⟩, "Accent", 1, [], false⟩

def groundPage : Page :=
  ⟨⟨"page-base"⟩, groundLayer.id, "Base", .empty,
    .ofTree { children := [("red", .token { value := .string "#FF0000" })] }⟩

/-- The page of the second layer, with an alias of a token in the first. -/
def accentPage : Page :=
  ⟨⟨"page-accent"⟩, accentLayer.id, "Accent", .empty,
    .ofTree { children := [("accent", .token { value := .string (Alias.ofPath "red") })] }⟩

/-- Another layer of the same order comes later and replaces the target of the alias. Its page
stands between those of the other two. -/
def overridden : Pipeline where
  vars := []
  layers := [groundLayer, accentLayer, ⟨⟨"layer-top"⟩, "Top", 1, [], false⟩]
  pages := [groundPage,
    ⟨⟨"page-top"⟩, ⟨"layer-top"⟩, "Top", .empty,
      .ofTree { children := [("red", .token { value := .string "#880000" })] }⟩, accentPage]

/-- Nothing comes later, and the pages stand the other way round. -/
def plain : Pipeline where
  vars := [⟨⟨"var-mode"⟩, "Mode", "mode", ["light"]⟩]
  layers := [groundLayer, accentLayer]
  pages := [accentPage, groundPage]

theorem agreeUpTo_overridden : AgreeUpTo overridden plain [groundLayer] accentLayer := by
  have hleft : overridden.layersInOrder = overridden.layers :=
    List.mergeSort_of_pairwise (by decide +kernel)
  have hright : plain.layersInOrder = plain.layers := List.mergeSort_of_pairwise (by decide +kernel)
  refine ⟨hleft ▸ ⟨_, rfl⟩, hright ▸ ⟨[], rfl⟩, ?_⟩
  decide +kernel

theorem effective_of_agreeUpTo_overridden :
    ∃ view other, overridden.effective ⟨"layer-accent"⟩ .empty = .ok view ∧
      plain.effective ⟨"layer-accent"⟩ .empty = .ok other ∧ other.tree = view.tree ∧
      other.origins = view.origins ∧ other.defects = view.defects ∧
      ∀ path, other.resolve path = view.resolve path :=
  effective_of_agreeUpTo (by decide +kernel) (by decide +kernel) agreeUpTo_overridden .empty

end Pipeline
end DesignTokens
