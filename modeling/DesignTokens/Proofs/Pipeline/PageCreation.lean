import DesignTokens.Proofs.Pipeline.Selections

/-!
# Creating pages

A page can be created for the slots of a layer and for nothing else. The page that a slot has is the
answer, and else a new one, which fills this slot and no other.
-/

namespace DesignTokens
namespace Pipeline

variable {p q : Pipeline} {layer : Layer} {a : Assignment} {page : Page}

/-! ## Slots -/

/-- No slot of a layer is listed twice. -/
theorem Consistent.nodup_slots (h : p.Consistent) (hlayer : layer ∈ p.layers) :
    (p.slots layer).Nodup := by
  have hknown : ∀ key ∈ layer.variableKeys, ∃ found, p.variableFor? key = some found :=
    fun key hkey => hasKey_iff.1 (h.bound layer hlayer key hkey)
  have haxes : ∀ items ∈ layer.variableKeys.filterMap p.axisOf?, items.Nodup := by
    intro items hitems
    rcases List.mem_filterMap.1 hitems with ⟨key, -, haxis⟩
    rcases Option.map_eq_some_iff.1 haxis with ⟨found, hfound, rfl⟩
    exact (h.vars.values found (mem_of_variableFor? hfound).1).map
      fun value other heq => (Prod.mk.inj heq).2
  exact Assignment.nodup_map_ofPairs (h.layers.bindings layer hlayer)
    (fun _ hpairs => (of_mem_choices_axes hknown hpairs).1) (Sequence.nodup_choices haxes)

/-! ## One page more -/

/-- A new page takes the slots that it fits out of the missing ones. -/
theorem missingSlots_append (page : Page) (layer : Layer) :
    { p with pages := p.pages ++ [page] }.missingSlots layer =
      (p.missingSlots layer).filter fun slot => !page.fits layer.id slot := by
  rw [missingSlots, missingSlots, List.filter_filter]
  refine List.filter_congr fun slot _ => ?_
  cases hfits : page.fits layer.id slot with
  | true =>
      simp [findPage?, List.find?_append, hfits]
  | false =>
      simp [findPage?, List.find?_append, hfits]

/-- A new page that is no orphan leaves the orphans as they were. -/
theorem orphans_append (h : p.isOrphan page = false) :
    { p with pages := p.pages ++ [page] }.orphans = p.orphans := by
  have hsame : { p with pages := p.pages ++ [page] }.isOrphan = p.isOrphan := rfl
  simp [orphans, hsame, h]

/-- A page with an identity of its own and without tokens is added for an assignment of the layer.
It fills a slot of this layer and of no other, and makes no page an orphan. -/
structure Creates (p : Pipeline) (layer : Layer) (a : Assignment) (page : Page) (q : Pipeline) :
    Prop where
  appended : q = { p with pages := p.pages ++ [page] }
  fresh : page.id ∉ p.pages.map (·.id)
  tokens : page.tokens = .empty
  missing : a ∈ p.missingSlots layer
  filled : q.missingSlots layer = (p.missingSlots layer).erase a
  others : ∀ other ∈ p.layers, other ≠ layer → q.missingSlots other = p.missingSlots other
  orphans : q.orphans = p.orphans

/-- A new page without tokens is created in this way when it is added for a free slot. -/
theorem Consistent.creates (h : p.Consistent) (hlayer : layer ∈ p.layers)
    (hslot : a ∈ p.slots layer) (hfree : p.findPage? layer.id a = none)
    (hfits : page.fits layer.id a = true) (hfresh : page.id ∉ p.pages.map (·.id))
    (hempty : page.tokens = .empty) :
    p.Creates layer a page { p with pages := p.pages ++ [page] } := by
  have hplace : page.layer = layer.id ∧ page.assignment = a := by simpa [Page.fits] using hfits
  constructor
  case appended =>
    rfl
  case fresh =>
    exact hfresh
  case tokens =>
    exact hempty
  case missing =>
    exact List.mem_filter.2 ⟨hslot, by simp [hfree]⟩
  case filled =>
    -- The page fits its own slot and no other.
    have hnodup : (p.missingSlots layer).Nodup := (h.nodup_slots hlayer).filter _
    rw [missingSlots_append, hnodup.erase_eq_filter]
    refine List.filter_congr fun slot _ => ?_
    by_cases hsame : slot = a
    · simp [Page.fits, hplace, hsame]
    · simp [Page.fits, hplace, hsame, Ne.symm hsame]
  case others =>
    intro other hother hne
    -- The page is at home in one layer only.
    have hid : layer.id ≠ other.id := fun heq =>
      hne (List.inj_on_of_nodup_map h.layers.ids hother hlayer heq.symm)
    rw [missingSlots_append, List.filter_eq_self]
    intro slot _
    simp [Page.fits, hplace, hid]
  case orphans =>
    refine orphans_append (isOrphan_eq_false_iff.2 ⟨layer, ?_, ?_⟩)
    · exact hplace.1 ▸ layer?_of_mem h.layers.ids hlayer
    · exact hplace.2 ▸ (h.isValidFor_iff_mem_slots hlayer).2 hslot

/-! ## The page of a slot -/

/-- In a pipeline at the end of a run from the empty one, the slots of a layer are listed once each,
and are the assignments that a page can be had for. It is the first page that the layer has for the
assignment, which changes nothing, or else one that is created. -/
theorem getOrCreatePage_of_slots (slug : String → String) {mutations : List Mutation}
    (hp : p = runWith slug empty mutations) (hlayer : layer ∈ p.layers) (a : Assignment) :
    (p.slots layer).Nodup ∧
      (a ∈ p.slots layer ↔ ∃ page q, (getOrCreatePage slug layer.id a).run p = .ok page q) ∧
      ∀ page q, (getOrCreatePage slug layer.id a).run p = .ok page q →
        page.fits layer.id a = true ∧
          (∀ first, p.findPage? layer.id a = some first → page = first ∧ q = p) ∧
          (p.findPage? layer.id a = none → p.Creates layer a page q) := by
  have h : p.Consistent := hp ▸ runWith_induction Consistent.step consistent_empty slug mutations
  have hfound := layer?_of_mem h.layers.ids hlayer
  refine ⟨h.nodup_slots hlayer, ?_, fun page q hrun => ?_⟩
  · rw [exists_run_getOrCreatePage_iff hfound, h.isValidFor_iff_mem_slots hlayer]
  · rcases run_getOrCreatePage_eq_ok.1 hrun with ⟨layer', hlayer', hvalid, hcase⟩
    obtain rfl : layer' = layer := Option.some.inj (hlayer'.symm.trans hfound)
    rcases hcase with ⟨hpage, rfl⟩ | ⟨hfree, hpage, rfl⟩
    · -- The page was there, and nothing has changed.
      refine ⟨by simpa using List.find?_some hpage, fun first hfirst => ?_, fun hnone => ?_⟩
      · exact ⟨Option.some.inj (hpage.symm.trans hfirst), rfl⟩
      · rw [hnone] at hpage
        cases hpage
    · -- The page is new.
      have hfits : page.fits layer'.id a = true := by simp [hpage, Page.fits]
      have hfresh : page.id ∉ p.pages.map (·.id) :=
        hpage ▸ Sequence.not_mem_map_of_view PageId.text (freshId_not_mem slug _ _ _)
      refine ⟨hfits, fun first hfirst => ?_, fun _ => ?_⟩
      · rw [hfree] at hfirst
        cases hfirst
      · exact h.creates hlayer ((h.isValidFor_iff_mem_slots hlayer).1 hvalid) hfree hfits hfresh
          (by rw [hpage])

/-- The page for `dim.` is an orphan once that value is removed, and `Dim` has no page. -/
def dimmed : Pipeline :=
  runWith plainSlug empty
    [.addVariable "Mode" "mode" ["dim.", "Dim"],
      .addLayer "Theme" ["mode"] true,
      .getOrCreatePage ⟨"layer-theme"⟩ (.ofPairs [("mode", "dim.")]),
      .removeVariableValue "mode" "dim."]

/-- Both values have one slug. The page for `Dim` is the second one with it, and none can be had for
`dim.`. -/
theorem getOrCreatePage_of_slots_dimmed :
    ∃ layer ∈ dimmed.layers,
      (∃ page q, dimmed.Creates layer (.ofPairs [("mode", "Dim")]) page q ∧
        page.id = ⟨"layer-theme-theme-dim-2"⟩ ∧ q.missingSlots layer = [] ∧
        q.orphans.map (·.id) = [⟨"layer-theme-theme-dim"⟩]) ∧
      ¬ ∃ page q, (getOrCreatePage plainSlug layer.id (.ofPairs [("mode", "dim.")])).run dimmed =
        .ok page q := by
  have hlayer : ⟨⟨"layer-theme"⟩, "Theme", 0, ["mode"], true⟩ ∈ dimmed.layers := by
    decide +kernel
  have hspec := getOrCreatePage_of_slots (p := dimmed) plainSlug rfl hlayer
  have hdim := ((hspec (.ofPairs [("mode", "Dim")])).2.2 _ _ rfl).2.2 (by decide +kernel)
  refine ⟨_, hlayer, ⟨_, _, hdim, by decide +kernel⟩, ?_⟩
  rw [← (hspec (.ofPairs [("mode", "dim.")])).2.1]
  decide +kernel

end Pipeline
end DesignTokens
