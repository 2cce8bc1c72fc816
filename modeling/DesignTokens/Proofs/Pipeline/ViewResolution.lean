import DesignTokens.Proofs.Pipeline.GroupOrigins
import DesignTokens.Proofs.Token.Marking

/-!
# Resolving in a view

A view resolves one token of its tree at a time, and a build resolves the flat list of all tokens.
The list marks a composite token from the start, so that none of its fields can lead back into it;
the view does not, so that a field which leads back is resolved once more. For all other tokens both
give one value.
-/

namespace DesignTokens

namespace Tree

variable {tree : Tree} {path : String} {token : Token} {budget : Nat}

/-- What the list gives to the token at a path. -/
theorem value_of_mem_resolveAll (h : tree.EachGroup Node.ProperNames)
    (htoken : tree.token? path = some token) {resolved : ResolvedToken}
    (hmem : resolved ∈ FlatToken.resolveAll tree.flatten tree budget)
    (hpath : resolved.path = Path.segments path) :
    resolved.value =
      Alias.expand tree.targets budget (if token.value.isComposite then [path] else [])
        token.value := by
  rcases List.mem_map.1 hmem with ⟨flat, hflat, rfl⟩
  rcases token?_of_mem_flatten h hflat with ⟨-, found, hfound, hvalue⟩
  have hname : flat.name = path := by
    calc
      flat.name = Path.ofSegments (Path.segments path) := congrArg Path.ofSegments hpath
      _ = path := Path.ofSegments_segments path
  have hsame : found = token := by
    rw [hname, htoken] at hfound
    exact (Option.some.inj hfound).symm
  rw [FlatToken.value_resolve h, hname, ← hvalue, hsame]

/-- The view and the list give a token one value if and only if it is not a composite value that
leads back to itself. -/
theorem resolveDeep_eq_iff (h : tree.EachGroup Node.ProperNames)
    (htoken : tree.token? path = some token) {resolved : ResolvedToken}
    (hmem : resolved ∈ FlatToken.resolveAll tree.flatten tree budget)
    (hpath : resolved.path = Path.segments path) :
    tree.resolveDeep token.value budget = resolved.value ↔
      ¬ (token.value.isComposite = true ∧
        Alias.LeadsTo tree.targets path budget [] token.value) := by
  rw [value_of_mem_resolveAll h htoken hmem hpath]
  cases hcomposite : token.value.isComposite with
  | true =>
      have htarget : tree.targets path = some (token.value, token.type) := by
        simp [targets, htoken]
      simpa [resolveDeep] using
        Alias.expand_marked_eq_iff htarget hcomposite (Alias.marks_singleton path)
  | false =>
      simp [resolveDeep]

end Tree

namespace Pipeline

variable {p : Pipeline} {active : LayerId} {config : BuildConfig} {view : EffectiveTokens}

/-- The tree of a view has proper names when the names of the pages are valid. -/
theorem properNames_effective
    (hnames : ∀ page ∈ p.pages, page.tokens.toTree.EachGroup Node.ValidNames)
    (hview : p.effective active config = .ok view) : view.tree.EachGroup Node.ProperNames := by
  unfold effective at hview
  split at hview
  · cases hview
  · cases hview
    refine Tree.properNames_foldl_merge fun tree hmem => ?_
    rcases List.mem_map.1 hmem with ⟨choice, hchoice, rfl⟩
    exact properNames_of_selectUpTo hnames hchoice

/-- Every token of a view is in the resolved list of its tree, and the view gives it the value that
it has there, unless the token is composite and resolving it leads back to it. -/
theorem resolve_effective (hnames : ∀ page ∈ p.pages, page.tokens.toTree.EachGroup Node.ValidNames)
    (hview : p.effective active config = .ok view) {path : String} {token : Token}
    (htoken : view.tree.token? path = some token) :
    (∃ resolved ∈ FlatToken.resolveAll view.tree.flatten view.tree Alias.defaultBudget,
        resolved.path = Path.segments path) ∧
      ∀ resolved ∈ FlatToken.resolveAll view.tree.flatten view.tree Alias.defaultBudget,
        resolved.path = Path.segments path →
          (view.resolve path = some resolved.value ↔
            ¬ (token.value.isComposite = true ∧
              Alias.LeadsTo view.tree.targets path Alias.defaultBudget [] token.value)) := by
  have hproper := properNames_effective hnames hview
  constructor
  · rcases Tree.exists_mem_flatten htoken with ⟨flat, hflat, hpath⟩
    exact ⟨_, List.mem_map_of_mem hflat, hpath⟩
  · intro resolved hmem hpath
    rw [← Tree.resolveDeep_eq_iff hproper htoken hmem hpath]
    simp [EffectiveTokens.resolve, htoken]

/-- Composite tokens that lead back to themselves, at once or through another one. -/
def loopedTree : Tree where
  children := [("type", .group {}
    [("self", .token { value := .object [("font", .string (Alias.ofPath "type.self"))] }),
      ("a", .token { value := .object [("font", .string (Alias.ofPath "type.b"))] }),
      ("b", .token { value := .object [("font", .string (Alias.ofPath "type.a"))] })])]

def loopedTypes : Pipeline where
  vars := []
  layers := [⟨⟨"layer-base"⟩, "Base", 0, [], false⟩]
  pages := [⟨⟨"page-base"⟩, ⟨"layer-base"⟩, "Base", .empty, .ofTree loopedTree⟩]

theorem tree_loopedTypes :
    (loopedTypes.selectUpTo .empty ⟨"layer-base"⟩).build.tree = loopedTree := by
  have hsorted : loopedTypes.layersInOrder = loopedTypes.layers := List.mergeSort_singleton _
  rw [Selection.build, Selection.trees, selectUpTo, hsorted]
  decide +kernel

/-- The token `a` leads to `b`, and from there back to itself. -/
theorem leadsTo_loopedTree : Alias.LeadsTo loopedTree.targets "type.a" Alias.defaultBudget []
    (.object [("font", .string (Alias.ofPath "type.b"))]) := by
  refine .hop (List.mem_singleton.2 rfl) (by decide +kernel : _ = some "type.b")
    List.not_mem_nil (by decide +kernel : _ = some
      (.object [("font", .string (Alias.ofPath "type.a"))], none)) ?_
  exact .here (List.mem_singleton.2 rfl) (by decide +kernel) (by decide +kernel)

theorem resolve_effective_loopedTypes :
    ∃ view, loopedTypes.effective ⟨"layer-base"⟩ .empty = .ok view ∧
      ∃ resolved ∈ FlatToken.resolveAll view.tree.flatten view.tree Alias.defaultBudget,
        resolved.path = Path.segments "type.a" ∧ view.resolve "type.a" ≠ some resolved.value := by
  have hview : loopedTypes.effective ⟨"layer-base"⟩ .empty =
      .ok ⟨_, (loopedTypes.selectUpTo .empty ⟨"layer-base"⟩).build.tree, _, _⟩ := rfl
  have hnames : ∀ page ∈ loopedTypes.pages, page.tokens.toTree.EachGroup Node.ValidNames := by
    decide +kernel
  have htoken : (loopedTypes.selectUpTo .empty ⟨"layer-base"⟩).build.tree.token? "type.a" =
      some { value := .object [("font", .string (Alias.ofPath "type.b"))] } := by
    rw [tree_loopedTypes]
    decide +kernel
  rcases resolve_effective hnames hview htoken with ⟨⟨resolved, hmem, hpath⟩, hall⟩
  refine ⟨_, hview, resolved, hmem, hpath, fun hsame => (hall resolved hmem hpath).1 hsame ?_⟩
  refine ⟨rfl, ?_⟩
  rw [tree_loopedTypes]
  exact leadsTo_loopedTree

/-- The field leads back to its own token. The view resolves it once more, the list does not. -/
theorem resolve_ne_loopedTypes :
    ∃ view, loopedTypes.effective ⟨"layer-base"⟩ .empty = .ok view ∧
      view.resolve "type.self" =
        some (.object [("font", .object [("font", .string (Alias.ofPath "type.self"))])]) ∧
      ((FlatToken.resolveAll view.tree.flatten view.tree Alias.defaultBudget).map
        fun resolved => (resolved.path, resolved.value)).head? =
          some (["type", "self"], .object [("font", .string (Alias.ofPath "type.self"))]) := by
  refine ⟨_, rfl, ?_⟩
  simp only [EffectiveTokens.resolve, tree_loopedTypes]
  decide +kernel

end Pipeline
end DesignTokens
