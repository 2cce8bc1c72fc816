import DesignTokens.Proofs.Pipeline.RenamedPipeline

/-!
# Orphans under renamings

An orphan keeps its assignment, also the keys and values that no variable has any more. A renaming
is carried into the assignments of all pages, and asks no orphan whether the new name is free. Two
things can happen to an orphan then. It may be revived: what it has under the new name is read as
what a live page has there. And it may lose a pair: of the old and the new key only one stays.
Nothing happens to other pages, and nothing else to orphans.
-/

namespace DesignTokens
namespace Renaming

/-- The assignment has both the old and the new key, and both pairs become one. -/
def Loses : Renaming → Assignment → Prop
  | .key old new, a => old ≠ new ∧ old ∈ a ∧ new ∈ a
  | .value .., _ => False

/-- The page has the new name already, and what it is read back to is an assignment of its layer. -/
def Revives (r : Renaming) (p : Pipeline) (page : Page) : Prop :=
  r.Stale page.assignment ∧
    p.isOrphan { page with assignment := r.readBack page.assignment } = false

instance (r : Renaming) (a : Assignment) : Decidable (r.Stale a) :=
  match r with
  | .key old new => inferInstanceAs (Decidable (old ≠ new ∧ new ∈ a))
  | .value bound old new => inferInstanceAs (Decidable (old ≠ new ∧ a[bound]? = some new))

instance (r : Renaming) (a : Assignment) : Decidable (r.Loses a) :=
  match r with
  | .key old new => inferInstanceAs (Decidable (old ≠ new ∧ old ∈ a ∧ new ∈ a))
  | .value .. => inferInstanceAs (Decidable False)

instance (r : Renaming) (p : Pipeline) (page : Page) : Decidable (r.Revives p page) :=
  inferInstanceAs (Decidable (_ ∧ _))

variable {r : Renaming} {a : Assignment}

/-- Only a stale assignment loses a pair. -/
theorem Loses.stale (h : r.Loses a) : r.Stale a := by
  cases r with
  | key old new =>
      exact ⟨h.1, h.2.2⟩
  | value =>
      exact h.elim

theorem size_pos_of_mem {key : String} (h : key ∈ a) : 0 < a.size := by
  rw [← Std.ExtTreeMap.length_keys]
  exact List.length_pos_of_mem (Std.ExtTreeMap.mem_keys.2 h)

/-- A renaming keeps the size of an assignment exactly when it loses no pair. -/
theorem size_onAssignment_iff (r : Renaming) (a : Assignment) :
    (r.onAssignment a).size = a.size ↔ ¬ r.Loses a := by
  cases r with
  | key old new =>
      cases hvalue : a[old]? with
      | none =>
          have hmem : old ∉ a := by simp [Std.ExtTreeMap.mem_iff_isSome_getElem?, hvalue]
          simp [onAssignment, Assignment.renameKey, Loses, hmem]
      | some value =>
          have hmem : old ∈ a := Assignment.mem_of_getElem? hvalue
          have hpos := size_pos_of_mem hmem
          have hcontains : (a.erase old).contains new = true ↔ old ≠ new ∧ new ∈ a := by
            simp
          have hsize : (a.renameKey old new).size =
              if (a.erase old).contains new = true then a.size - 1 else a.size - 1 + 1 := by
            simp [Assignment.renameKey, Std.ExtTreeMap.size_insert, Std.ExtTreeMap.size_erase, hmem]
          -- One pair is taken out, and the one that is put in may take the place of another.
          simp only [onAssignment, hsize, hcontains, Loses, hmem, true_and]
          split
          · rename_i hboth
            exact iff_of_false (by omega) (not_not_intro hboth)
          · rename_i hnot
            exact iff_of_true (by omega) hnot
  | value bound old new =>
      refine iff_of_true ?_ not_false
      simp only [onAssignment, Assignment.renameValue]
      split
      · rename_i hvalue
        have hmem : bound ∈ a := Assignment.mem_of_getElem? hvalue
        simp [Std.ExtTreeMap.size_insert, hmem]
      · rfl

end Renaming

namespace Pipeline

variable {p q : Pipeline} {r : Renaming}

theorem mem_orphans_iff {page : Page} (hmem : page ∈ p.pages) :
    page ∈ p.orphans ↔ p.isOrphan page = true := by
  simp [orphans, hmem]

/-- A page with the new name already is an orphan, as its pair was never permitted. -/
theorem mem_orphans_of_stale (h : Renames r p q) (hp : p.Consistent) {page : Page}
    (hmem : page ∈ p.pages) (hstale : r.Stale page.assignment) : page ∈ p.orphans := by
  refine (mem_orphans_iff hmem).2 ?_
  by_contra hnot
  exact h.not_stale_of_isOrphan_eq_false hp (Bool.eq_false_iff.2 hnot) hstale

/-- An accepted renaming keeps a page an orphan or keeps it in its slot, unless it revives it. -/
theorem mem_orphans_iff_of_renames (h : Renames r p q) (hp : p.Consistent) {page after : Page}
    (hmem : page ∈ p.pages) (hafter : after ∈ q.pages) (hpage : r.OnPage page after) :
    (after ∈ q.orphans ↔ page ∈ p.orphans) ↔ ¬ r.Revives p page := by
  rw [mem_orphans_iff hafter, h.isOrphan hp hpage]
  by_cases hstale : r.Stale page.assignment
  · have horphan := mem_orphans_of_stale h hp hmem hstale
    simp [Renaming.Revives, hstale, horphan]
  · have hsame : r.readBack page.assignment = page.assignment :=
      Renaming.inverse_onAssignment hstale
    simp [Renaming.Revives, hstale, hsame, mem_orphans_iff hmem]

/-- Through an accepted renaming every page keeps its identity. It stays an orphan, or none, unless
it is revived, and it keeps the number of its pairs unless two of them become one. Both can only
happen to an orphan, since only an orphan has the new name already. -/
theorem forall₂_pages_of_renaming {slug : String → String} (h : p.Reachable slug)
    (hrun : r.edit.run p = .ok () q) :
    List.Forall₂ (fun page after => after.id = page.id ∧
      ((after ∈ q.orphans ↔ page ∈ p.orphans) ↔ ¬ r.Revives p page) ∧
      (after.assignment.size = page.assignment.size ↔ ¬ r.Loses page.assignment) ∧
      (r.Revives p page ∨ r.Loses page.assignment → page ∈ p.orphans)) p.pages q.pages := by
  have hrenames := renames_of_run h.consistent hrun
  rcases hrenames.pages with ⟨change, hpages, hchange⟩
  rw [hpages, List.forall₂_map_right_iff, List.forall₂_same]
  intro page hmem
  have hafter : change page ∈ q.pages := hpages ▸ List.mem_map_of_mem hmem
  have hsize := r.size_onAssignment_iff page.assignment
  rw [← (hchange page).assignment] at hsize
  refine ⟨(hchange page).id,
    mem_orphans_iff_of_renames hrenames h.consistent hmem hafter (hchange page), hsize, ?_⟩
  intro heither
  have hstale : r.Stale page.assignment := heither.elim (·.1) Renaming.Loses.stale
  exact mem_orphans_of_stale hrenames h.consistent hmem hstale

/-- The page for `light` and `compact` is an orphan once the density is removed. -/
def undensed : Pipeline :=
  runWith plainSlug empty
    [.addVariable "Mode" "mode" ["light"],
      .addVariable "Density" "density" ["compact"],
      .addLayer "Theme" ["mode", "density"] false,
      .getOrCreatePage ⟨"layer-theme"⟩ (.ofPairs [("mode", "light"), ("density", "compact")]),
      .removeVariable "density"]

/-- Under its new key the mode takes the place of the density, and the orphan is live again. -/
theorem forall₂_pages_undensed :
    ∃ q, (Renaming.key "mode" "density").edit.run undensed = .ok () q ∧
      List.Forall₂ (fun page after => page ∈ undensed.orphans ∧ after ∉ q.orphans ∧
        after.assignment.size ≠ page.assignment.size) undensed.pages q.pages := by
  have hrun := @Edit.run_eq_ok_of_result _ _ _ undensed ()
    (Renaming.key "mode" "density").edit (by decide +kernel)
  have hall : ∀ page ∈ undensed.pages, page ∈ undensed.orphans ∧
      (Renaming.key "mode" "density").Revives undensed page ∧
      (Renaming.key "mode" "density").Loses page.assignment := by
    decide +kernel
  have h := forall₂_pages_of_renaming ⟨_, rfl⟩ hrun
  refine ⟨_, hrun, ((List.forall₂_and_left _ _).2 ⟨hall, h⟩).imp ?_⟩
  intro page after hboth
  rcases hboth with ⟨⟨horphan, hrevives, hloses⟩, -, hstatus, hsize, -⟩
  refine ⟨horphan, fun hafter => ?_, fun hsame => hsize.1 hsame hloses⟩
  exact hstatus.1 (iff_of_true hafter horphan) hrevives

/-- The page for `dark` is an orphan once that value is removed. -/
def retired : Pipeline :=
  runWith plainSlug empty
    [.addVariable "Mode" "mode" ["light", "dark"],
      .addLayer "Theme" ["mode"] false,
      .getOrCreatePage ⟨"layer-theme"⟩ (.ofPairs [("mode", "dark")]),
      .removeVariableValue "mode" "dark"]

/-- When `light` becomes `dark`, the orphan is the page of a slot again. -/
theorem orphans_retired :
    let renamed := (Mutation.renameVariableValue "mode" "light" "dark").after plainSlug retired
    retired.Reachable plainSlug ∧
      retired.orphans.map (·.id) = [⟨"layer-theme-theme-dark"⟩] ∧
      renamed.orphans = [] ∧ renamed.pages.map (·.id) = [⟨"layer-theme-theme-dark"⟩] :=
  ⟨⟨_, rfl⟩, by decide +kernel⟩

end Pipeline
end DesignTokens
