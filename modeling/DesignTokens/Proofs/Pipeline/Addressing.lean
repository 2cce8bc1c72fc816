import DesignTokens.Pipeline.Document
import DesignTokens.Proofs.Pipeline.Build
import DesignTokens.Proofs.Pipeline.PathChanges
import DesignTokens.Proofs.Pipeline.SlotPages

/-!
# What the name of a page or layer leads to

Pages and layers are changed by their identities, and the first one with an identity is the one that
is found. So a mutation that is given the identity of a page acts on this page if no other page has
the identity, and may act on another one otherwise. The check of a whole pipeline does not look at
identities, nor at repeated bindings and blank names of layers; the edits do, and so these only come
in with a document.
-/

namespace DesignTokens

def Page.edited {α : Type} (edit : Edit TokenError Store α) (page : Page) : Page :=
  { page with tokens := edit.stateAfter page.tokens }

namespace Mutation

/-! ## Mutations of one page -/

/-- The page that a mutation is given, and what it makes of this page: nothing when it removes
it. -/
def onPage? : Mutation → Option (PageId × (Page → List Page))
  | .removePage id => some (id, fun _ => [])
  | .setPageTokens id tokens => some (id, fun page => [{ page with tokens := Store.ofTree tokens }])
  | .setToken id path token => some (id, fun page => [page.edited (Store.setToken path token)])
  | .removeToken id path => some (id, fun page => [page.edited (Store.remove path)])
  | .renameToken id path name => some (id, fun page => [page.edited (Store.rename path name)])
  | .moveToken id path parent => some (id, fun page => [page.edited (Store.move path parent)])
  | .editPage id edit => some (id, fun page => [page.edited edit])
  | _ => none

/-- What else a mutation may do to a page: a change of paths turns aliases, wherever they are. -/
def Turns (m : Mutation) (page after : Page) : Prop :=
  match m with
  | .renameToken _ path _ | .moveToken _ path _ =>
      ∃ newPath paths,
        after = { page with tokens := Store.redirectAll path newPath paths page.tokens }
  | _ => page = after

theorem turns_refl (m : Mutation) (page : Page) : m.Turns page page := by
  cases m with
  | renameToken id path name =>
      exact ⟨path, [], rfl⟩
  | moveToken id path parent =>
      exact ⟨path, [], rfl⟩
  | _ =>
      rfl

/-- A mutation that turns nothing leaves the pages as they are. -/
theorem forall₂_turns_of_eq (m : Mutation) {pages after : List Page} (h : after = pages) :
    List.Forall₂ m.Turns pages after := by
  rw [h]
  exact List.forall₂_same.2 fun page _ => m.turns_refl page

/-! ## Mutations of one layer -/

/-- The layers in their order with one among them at a position, numbered anew. -/
def placed (position : Nat) (layer : Layer) (others : List Layer) : List Layer :=
  let sorted := others.mergeSort fun a b => a.order ≤ b.order
  Pipeline.renumber 0 (sorted.take position ++ layer :: sorted.drop position)

/-- The layer that a mutation is given, and what it makes of the layers when this is the one between
those in front of it and those behind it. -/
def onLayer? : Mutation → Option (LayerId × (List Layer → Layer → List Layer → List Layer))
  | .renameLayer id name =>
      some (id, fun front layer back => front ++ { layer with name := name } :: back)
  | .removeLayer id => some (id, fun front _ back => front ++ back)
  | .moveLayer id position =>
      some (id, fun front layer back => placed position layer (front ++ back))
  | .setLayerRequired id required =>
      some (id, fun front layer back => front ++ { layer with required := required } :: back)
  | .bindVariable id key =>
      some (id, fun front layer back =>
        front ++ { layer with variableKeys := layer.variableKeys ++ [key] } :: back)
  | .unbindVariable id key =>
      some (id, fun front layer back =>
        front ++ { layer with variableKeys := layer.variableKeys.erase key } :: back)
  | .getOrCreatePage id _ => some (id, fun front layer back => front ++ layer :: back)
  | _ => none

end Mutation

namespace Pipeline

variable {p q : Pipeline} {slug : String → String}

/-- The pages that do not belong to a layer, without their names. -/
def pagesOutside (p : Pipeline) (id : LayerId) : List (PageId × LayerId × Assignment × Store) :=
  (p.pages.filter (·.layer ≠ id)).map Page.unnamed

/-- Whatever page a mutation is given, by its identity, it changes this page and no other one. -/
def PagesAddressed (slug : String → String) (p : Pipeline) : Prop :=
  ∀ front page back, p.pages = front ++ page :: back →
    ∀ (m : Mutation) change, m.onPage? = some (page.id, change) →
      ∀ q : Pipeline, (m.edit slug).run p = .ok () q → q.vars = p.vars ∧ q.layers = p.layers ∧
        List.Forall₂ m.Turns (front ++ change page ++ back) q.pages

/-- Whatever layer a mutation is given, by its identity, it changes this layer and no other one, and
no pages of others. -/
def LayersAddressed (slug : String → String) (p : Pipeline) : Prop :=
  ∀ front layer back, p.layers = front ++ layer :: back →
    ∀ (m : Mutation) change, m.onLayer? = some (layer.id, change) →
      ∀ q : Pipeline, (m.edit slug).run p = .ok () q →
        q.vars = p.vars ∧ q.layers = change front layer back ∧
          q.pagesOutside layer.id = p.pagesOutside layer.id

/-! ## Pages -/

section Pages

variable {front back : List Page} {page : Page}

/-- A page is looked up when no page in front of it has its identity. -/
theorem page?_of_split (hpages : p.pages = front ++ page :: back)
    (hfree : page.id ∉ front.map (·.id)) : p.page? page.id = some page := by
  rw [page?, hpages]
  exact Sequence.find?_of_split (by simp) (Sequence.forall_not_of_not_mem_map hfree)

/-- An update goes to the page when no page in front of it has its identity. -/
theorem updatePage_of_split (hpages : p.pages = front ++ page :: back)
    (hfree : page.id ∉ front.map (·.id)) (change : Page → Page) :
    (p.updatePage page.id change).pages = front ++ [change page] ++ back := by
  rw [updatePage, hpages, List.append_assoc, List.singleton_append]
  exact Sequence.updateFirst_of_split (by simp) (Sequence.forall_not_of_not_mem_map hfree) change

/-- An accepted edit of the tokens of a page. -/
theorem editPage_of_split {α : Type} {a : α} {edit : Edit TokenError Store α}
    (hpages : p.pages = front ++ page :: back) (hfree : page.id ∉ front.map (·.id))
    (hrun : (editPage page.id edit).run p = .ok a q) :
    q.vars = p.vars ∧ q.layers = p.layers ∧ q.pages = front ++ [page.edited edit] ++ back := by
  rcases run_editPage_eq_ok.1 hrun with ⟨found, store, hfound, hstore, rfl⟩
  have hsame : found = page := by
    rw [page?_of_split hpages hfree] at hfound
    exact (Option.some.inj hfound).symm
  subst hsame
  refine ⟨rfl, rfl, ?_⟩
  rw [updatePage_of_split hpages hfree, Page.edited, Edit.stateAfter_of_ok hstore]

/-- What turns aliases turns them page by page. -/
theorem pages_of_updateDependents (hids : (p.pages.map (·.id)).Nodup) {source newPath : String}
    {report : PathChange} (hrun : (updateDependents source newPath).run p = .ok report q) :
    q.vars = p.vars ∧ q.layers = p.layers ∧
      List.Forall₂ (fun page after => ∃ target paths,
        after = { page with tokens := Store.redirectAll source target paths page.tokens })
        p.pages q.pages := by
  rcases run_updateDependents_eq_ok.1 hrun with ⟨-, -, rfl⟩ | ⟨-, -, rfl⟩
  · exact ⟨rfl, rfl, List.forall₂_same.2 fun page _ => ⟨newPath, [], rfl⟩⟩
  · have hframe := sameFrame_foldl_redirect source newPath
      ((p.dependents source).filter fun d => !p.isSatisfied d) p
    refine ⟨hframe.vars, hframe.layers, ?_⟩
    rw [pages_foldl_redirect hids, List.forall₂_map_right_iff, List.forall₂_same]
    exact fun page _ => ⟨newPath, _, rfl⟩

/-- An accepted change of paths in a page, with the aliases that it turns. -/
theorem turned_of_split {source newPath : String} {edit : Edit TokenError Store String}
    {report : PathChange} {edited : Pipeline} (hids : (p.pages.map (·.id)).Nodup)
    (hpages : p.pages = front ++ page :: back) (hfree : page.id ∉ front.map (·.id))
    (hedit : (editPage page.id edit).run p = .ok newPath edited)
    (hrun : (updateDependents source newPath).run edited = .ok report q) :
    q.vars = p.vars ∧ q.layers = p.layers ∧
      List.Forall₂ (fun page after => ∃ target paths,
        after = { page with tokens := Store.redirectAll source target paths page.tokens })
        (front ++ [page.edited edit] ++ back) q.pages := by
  rcases editPage_of_split hpages hfree hedit with ⟨hvars, hlayers, hedited⟩
  have hsame : edited.pages.map (·.id) = p.pages.map (·.id) := by
    simp [hedited, hpages, Page.edited]
  rcases pages_of_updateDependents (hsame ▸ hids) hrun with ⟨hvars', hlayers', hturned⟩
  exact ⟨hvars'.trans hvars, hlayers'.trans hlayers, hedited ▸ hturned⟩

end Pages

theorem pagesAddressed_of_nodup (hids : (p.pages.map (·.id)).Nodup) : p.PagesAddressed slug := by
  intro front page back hpages m change hchange q hrun
  have hfree : page.id ∉ front.map (·.id) :=
    Sequence.nodup_map_iff_split.1 hids front page back hpages
  cases m with
  | removePage id =>
      cases hchange
      rcases Edit.run_void_eq_ok.1 hrun with ⟨removed, hremove⟩
      rcases run_removePage_eq_ok.1 hremove with ⟨-, rfl⟩
      refine ⟨rfl, rfl, Mutation.forall₂_turns_of_eq _ ?_⟩
      rw [List.append_nil, hpages]
      exact Sequence.eraseP_of_split (by simp) (Sequence.forall_not_of_not_mem_map hfree)
  | setPageTokens id tokens =>
      cases hchange
      rcases Edit.run_void_eq_ok.1 hrun with ⟨u, hset⟩
      rcases run_needPage_bind_eq_ok.1 hset with ⟨found, -, hmodify⟩
      have heq := (Edit.run_modify_eq_ok.1 hmodify).symm
      subst heq
      exact ⟨rfl, rfl, Mutation.forall₂_turns_of_eq _ (updatePage_of_split hpages hfree _)⟩
  | setToken id path token =>
      cases hchange
      rcases Edit.run_void_eq_ok.1 hrun with ⟨u, hset⟩
      rcases editPage_of_split hpages hfree hset with ⟨hvars, hlayers, hedited⟩
      exact ⟨hvars, hlayers, Mutation.forall₂_turns_of_eq _ hedited⟩
  | removeToken id path =>
      cases hchange
      rcases Edit.run_void_eq_ok.1 hrun with ⟨u, hremove⟩
      rcases Edit.run_bind_eq_ok.1 hremove with ⟨removed, edited, hedit, hpure⟩
      have heq := (Edit.run_pure_eq_ok.1 hpure).2
      subst heq
      rcases editPage_of_split hpages hfree hedit with ⟨hvars, hlayers, hedited⟩
      exact ⟨hvars, hlayers, Mutation.forall₂_turns_of_eq _ hedited⟩
  -- A change of paths is followed by a turn of aliases, on this page as on all others.
  | renameToken id path name =>
      cases hchange
      rcases Edit.run_void_eq_ok.1 hrun with ⟨report, hrename⟩
      rcases run_renameToken_eq_ok.1 hrename with ⟨newPath, edited, hedit, hdependents⟩
      exact turned_of_split hids hpages hfree hedit hdependents
  | moveToken id path parent =>
      cases hchange
      rcases Edit.run_void_eq_ok.1 hrun with ⟨report, hmove⟩
      rcases run_moveToken_eq_ok.1 hmove with ⟨newPath, edited, hedit, hdependents⟩
      exact turned_of_split hids hpages hfree hedit hdependents
  | editPage id edit =>
      cases hchange
      rcases Edit.run_void_eq_ok.1 hrun with ⟨u, hedit⟩
      rcases editPage_of_split hpages hfree hedit with ⟨hvars, hlayers, hedited⟩
      exact ⟨hvars, hlayers, Mutation.forall₂_turns_of_eq _ hedited⟩
  | _ =>
      cases hchange

/-- Every page is changed by its own name only, if and only if no two pages have one identity. -/
theorem pagesAddressed_iff (h : p.DistinctSlots) :
    p.PagesAddressed slug ↔ (p.pages.map (·.id)).Nodup := by
  constructor
  · intro haddressed
    refine Sequence.nodup_map_iff_split.2 fun front page back hpages hmem => ?_
    -- Removing the page by its identity takes out the one in front that has it too.
    have hpage : page ∈ p.pages := by simp [hpages]
    have hsome : (p.page? page.id).isSome := List.find?_isSome.2 ⟨page, hpage, by simp⟩
    rcases Option.isSome_iff_exists.1 hsome with ⟨found, hfound⟩
    have hrun : ((Mutation.removePage page.id).edit slug).run p =
        .ok () { p with pages := p.pages.eraseP (·.id = page.id) } :=
      Edit.run_void_eq_ok.2 ⟨found, run_removePage_eq_ok.2 ⟨hfound, rfl⟩⟩
    rcases haddressed front page back hpages (.removePage page.id) _ rfl _ hrun with ⟨-, -, hafter⟩
    have hlists : front ++ [] ++ back = p.pages.eraseP (·.id = page.id) :=
      List.forall₂_eq_eq_eq ▸ hafter
    have hnodup : p.pages.Nodup := List.Nodup.of_map _ h
    rcases List.mem_map.1 hmem with ⟨other, hother, hid⟩
    rw [hpages] at hnodup hlists
    rw [List.append_nil] at hlists
    exact Sequence.eraseP_ne_of_front hnodup ⟨other, hother, decide_eq_true hid⟩ hlists.symm
  · exact pagesAddressed_of_nodup

/-! ## Layers -/

section Layers

variable {front back : List Layer} {layer : Layer}

/-- An update goes to the layer when no layer in front of it has its identity. -/
theorem updateLayer_of_split (hlayers : p.layers = front ++ layer :: back)
    (hfree : layer.id ∉ front.map (·.id)) (change : Layer → Layer) :
    (p.updateLayer layer.id change).layers = front ++ change layer :: back := by
  rw [updateLayer, hlayers]
  exact Sequence.updateFirst_of_split (by simp) (Sequence.forall_not_of_not_mem_map hfree) change

/-- The layer that is moved is put among all others in their order. -/
theorem reordered_of_split (hids : (p.layers.map (·.id)).Nodup)
    (hlayers : p.layers = front ++ layer :: back) (position : Nat) :
    renumber 0 (p.reordered layer.id position) =
      Mutation.placed position layer (front ++ back) := by
  have hperm : p.layersInOrder.Perm p.layers := List.mergeSort_perm _ _
  have hsorted : (p.layersInOrder.map (·.id)).Nodup := (hperm.map _).nodup_iff.2 hids
  have hmem : layer ∈ p.layers := by simp [hlayers]
  have hothers : (p.layersInOrder.eraseP fun other => other.id = layer.id) =
      (front ++ back).mergeSort fun a b => a.order ≤ b.order := by
    calc
      (p.layersInOrder.eraseP fun other => other.id = layer.id)
          = p.layersInOrder.filter fun other => other.id ≠ layer.id :=
            Sequence.eraseP_eq_filter hsorted layer.id
      _ = (p.layers.filter fun other => other.id ≠ layer.id).mergeSort
            fun a b => a.order ≤ b.order :=
            Sequence.filter_mergeSort order_trans order_total _ _
      _ = (p.layers.eraseP fun other => other.id = layer.id).mergeSort
            fun a b => a.order ≤ b.order := by
            rw [Sequence.eraseP_eq_filter hids]
      _ = (front ++ back).mergeSort fun a b => a.order ≤ b.order := by
            rw [hlayers, Sequence.eraseP_of_split (by simp) (Sequence.forall_not_of_not_mem_map
              (Sequence.nodup_map_iff_split.1 hids front layer back hlayers))]
  -- Sorting leaves one layer with this identity, and it is the one that is meant.
  have hfind : p.layersInOrder.find? (fun other => other.id = layer.id) = some layer := by
    have hsome : (p.layersInOrder.find? fun other => other.id = layer.id).isSome :=
      List.find?_isSome.2 ⟨layer, hperm.mem_iff.2 hmem, by simp⟩
    rcases Option.isSome_iff_exists.1 hsome with ⟨found, hfound⟩
    have hid : found.id = layer.id := by simpa using List.find?_some hfound
    have hin : found ∈ p.layers := hperm.mem_iff.1 (List.mem_of_find?_eq_some hfound)
    rw [hfound, List.inj_on_of_nodup_map hids hin hmem hid]
  simp only [reordered, hfind, hothers, Mutation.placed]

theorem pagesOutside_refreshPageNames (p : Pipeline) (id : LayerId) :
    p.refreshPageNames.pagesOutside id = p.pagesOutside id := by
  simp [pagesOutside, refreshPageNames, List.filter_map, Function.comp_def, layer_refreshedPage,
    unnamed_refreshedPage]

theorem layersAddressed_of_nodup (hids : (p.layers.map (·.id)).Nodup) :
    p.LayersAddressed slug := by
  intro front layer back hlayers m change hchange q hrun
  have hfree : layer.id ∉ front.map (·.id) :=
    Sequence.nodup_map_iff_split.1 hids front layer back hlayers
  cases m with
  | renameLayer id name =>
      cases hchange
      rcases Edit.run_void_eq_ok.1 hrun with ⟨u, hrename⟩
      rcases run_renameLayer_eq_ok.1 hrename with ⟨found, -, -, -, rfl⟩
      refine ⟨rfl, updateLayer_of_split hlayers hfree _, ?_⟩
      exact pagesOutside_refreshPageNames _ layer.id
  | removeLayer id =>
      -- The pages of the layer go with it.
      cases hchange
      rcases Edit.run_void_eq_ok.1 hrun with ⟨removed, hremove⟩
      rcases run_removeLayer_eq_ok.1 hremove with ⟨-, -, rfl⟩
      refine ⟨rfl, ?_, ?_⟩
      · rw [withoutLayer, hlayers]
        exact Sequence.eraseP_of_split (by simp) (Sequence.forall_not_of_not_mem_map hfree)
      · simp [pagesOutside, withoutLayer]
  | moveLayer id position =>
      cases hchange
      rcases Edit.run_void_eq_ok.1 hrun with ⟨u, hmove⟩
      rcases run_moveLayer_eq_ok.1 hmove with ⟨-, rfl⟩
      exact ⟨rfl, reordered_of_split hids hlayers position, rfl⟩
  | setLayerRequired id required =>
      cases hchange
      rcases Edit.run_void_eq_ok.1 hrun with ⟨u, hset⟩
      rcases run_setLayerRequired_eq_ok.1 hset with ⟨-, rfl⟩
      exact ⟨rfl, updateLayer_of_split hlayers hfree _, rfl⟩
  | bindVariable id key =>
      cases hchange
      rcases Edit.run_void_eq_ok.1 hrun with ⟨u, hbind⟩
      rcases run_bindVariable_eq_ok.1 hbind with ⟨found, v, -, -, -, rfl⟩
      exact ⟨rfl, updateLayer_of_split hlayers hfree _, rfl⟩
  | unbindVariable id key =>
      cases hchange
      rcases Edit.run_void_eq_ok.1 hrun with ⟨u, hunbind⟩
      rcases run_unbindVariable_eq_ok.1 hunbind with ⟨found, -, -, rfl⟩
      exact ⟨rfl, updateLayer_of_split hlayers hfree _, rfl⟩
  | getOrCreatePage id assignment =>
      cases hchange
      rcases Edit.run_void_eq_ok.1 hrun with ⟨page, hcreate⟩
      rcases run_getOrCreatePage_eq_ok.1 hcreate with ⟨found, -, -, ⟨-, rfl⟩ | ⟨-, rfl, rfl⟩⟩
      · exact ⟨rfl, hlayers, rfl⟩
      · -- The page that is created belongs to the layer itself.
        exact ⟨rfl, hlayers, by simp [pagesOutside]⟩
  | _ =>
      cases hchange

/-- Every layer is changed by its own name only, if and only if no two layers have one identity. -/
theorem layersAddressed_iff (h : (p.layers.map (·.name)).Nodup) :
    p.LayersAddressed slug ↔ (p.layers.map (·.id)).Nodup := by
  constructor
  · intro haddressed
    refine Sequence.nodup_map_iff_split.2 fun front layer back hlayers hmem => ?_
    -- Removing the layer by its identity takes out the one in front that has it too.
    have hlayer : layer ∈ p.layers := by simp [hlayers]
    have hsome : (p.layer? layer.id).isSome := List.find?_isSome.2 ⟨layer, hlayer, by simp⟩
    rcases Option.isSome_iff_exists.1 hsome with ⟨found, hfound⟩
    have hrun : ((Mutation.removeLayer layer.id).edit slug).run p =
        .ok () (p.withoutLayer layer.id) :=
      Edit.run_void_eq_ok.2
        ⟨(found, p.pagesOf layer.id), run_removeLayer_eq_ok.2 ⟨hfound, rfl, rfl⟩⟩
    rcases haddressed front layer back hlayers (.removeLayer layer.id) _ rfl _ hrun with
      ⟨-, hafter, -⟩
    have hnodup : p.layers.Nodup := List.Nodup.of_map _ h
    rcases List.mem_map.1 hmem with ⟨other, hother, hid⟩
    rw [withoutLayer, hlayers] at hafter
    rw [hlayers] at hnodup
    exact Sequence.eraseP_ne_of_front hnodup ⟨other, hother, decide_eq_true hid⟩ hafter
  · exact layersAddressed_of_nodup

end Layers

/-! ## Accepted documents -/

/-- In a pipeline that the check accepts, mutations change what they are given and nothing else if
and only if identities are distinct; and a layer that is found by its identity is given a page for
each of its slots if and only if no binding of it repeats, unless it has no slots. -/
theorem addressed_of_validate (slug : String → String) (h : p.validate = .ok ()) :
    (p.PagesAddressed slug ↔ (p.pages.map (·.id)).Nodup) ∧
      (p.LayersAddressed slug ↔ (p.layers.map (·.id)).Nodup) ∧
        ∀ layer, p.layer? layer.id = some layer →
          ((∀ slot ∈ p.slots layer,
              ∃ page q, (getOrCreatePage slug layer.id slot).run p = .ok page q) ↔
            layer.variableKeys.Nodup ∨ p.slots layer = []) := by
  have hvalid : p.Valid := validate_eq_ok_iff.1 h
  refine ⟨pagesAddressed_iff hvalid.slots, layersAddressed_iff hvalid.names, ?_⟩
  intro layer hlayer
  exact forall_slots_iff slug hlayer (hvalid.bound layer (List.mem_of_find?_eq_some hlayer))

/-- A document with two variables, two layers and two pages. -/
def paired (variableId layerId pageId name : String) (keys : List String) : Pipeline where
  vars :=
    [⟨⟨"var-mode"⟩, "Mode", "mode", ["light", "dark"]⟩,
      ⟨⟨variableId⟩, "Density", "density", ["compact"]⟩]
  layers := [⟨⟨"layer-theme"⟩, "Theme", 0, keys, false⟩, ⟨⟨layerId⟩, name, 1, [], false⟩]
  pages :=
    [⟨⟨"page-light"⟩, ⟨"layer-theme"⟩, "Theme / light", .ofPairs [("mode", "light")], .empty⟩,
      ⟨⟨pageId⟩, ⟨"layer-theme"⟩, "Theme / dark", .ofPairs [("mode", "dark")], .empty⟩]

theorem addressed_of_validate_distinct :
    let p := paired "var-density" "layer-base" "page-dark" "Base" ["mode"]
    p.validate = .ok () ∧ p.PagesAddressed plainSlug ∧ p.LayersAddressed plainSlug ∧
      ∀ layer, p.layer? layer.id = some layer → layer.variableKeys.Nodup →
        ∀ slot ∈ p.slots layer,
          ∃ page q, (getOrCreatePage plainSlug layer.id slot).run p = .ok page q := by
  have h : (paired "var-density" "layer-base" "page-dark" "Base" ["mode"]).validate = .ok () := by
    decide +kernel
  rcases addressed_of_validate plainSlug h with ⟨hpages, hlayers, hslots⟩
  refine ⟨h, hpages.2 (by decide), hlayers.2 (by decide), fun layer hlayer hnodup => ?_⟩
  exact (hslots layer hlayer).2 (Or.inl hnodup)

/-- All that the check does not look at, in one document. -/
theorem validate_repeated :
    let p := paired "var-mode" "layer-theme" "page-light" " " ["mode", "mode"]
    Pipeline.ofJson p.toJson = .ok p ∧ p.validate = .ok () ∧
      ¬ (p.vars.map (·.id)).Nodup ∧ ¬ (p.layers.map (·.id)).Nodup ∧
      ¬ (p.pages.map (·.id)).Nodup ∧ ¬ (∀ layer ∈ p.layers, layer.variableKeys.Nodup) ∧
      ¬ (∀ layer ∈ p.layers, checkName layer.name = .ok ()) ∧
      ¬ p.PagesAddressed plainSlug ∧ ¬ p.LayersAddressed plainSlug ∧
      ∃ layer ∈ p.layers, ∃ slot ∈ p.slots layer,
        ¬ ∃ page q, (getOrCreatePage plainSlug layer.id slot).run p = .ok page q := by
  intro p
  have h : p.validate = .ok () := by decide +kernel
  have hvalid : p.Valid := validate_eq_ok_iff.1 h
  have hlayers : ¬ (p.layers.map (·.id)).Nodup := by decide
  have hpages : ¬ (p.pages.map (·.id)).Nodup := by decide
  refine ⟨rfl, h, by decide, hlayers, hpages, by decide, by decide +kernel,
    fun haddressed => hpages ((pagesAddressed_iff hvalid.slots).1 haddressed),
    fun haddressed => hlayers ((layersAddressed_iff hvalid.names).1 haddressed), ?_⟩
  refine ⟨_, List.mem_cons_self, .ofPairs [("mode", "light")], ?_, ?_⟩
  · decide +kernel
  · rintro ⟨page, q, hrun⟩
    cases hrun

end Pipeline
end DesignTokens
