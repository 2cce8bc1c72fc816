import DesignTokens.Pipeline.Pages
import DesignTokens.Proofs.Pipeline.Lookup
import DesignTokens.Proofs.Sequence
import DesignTokens.Proofs.Store.Outcome

/-!
# Accepted edits of pages

What each edit of a page and its tokens has checked when it is accepted, and the pipeline that it
then leaves. Edits of tokens never touch anything but tokens, whatever their outcome: pages keep
their identities, layers, names and assignments.
-/

namespace DesignTokens

/-- A page without its tokens. -/
def Page.label (page : Page) : PageId × LayerId × String × Assignment :=
  (page.id, page.layer, page.name, page.assignment)

/-- A page without its name, which follows the name of its layer. -/
def Page.unnamed (page : Page) : PageId × LayerId × Assignment × Store :=
  (page.id, page.layer, page.assignment, page.tokens)

namespace Pipeline

variable {p q : Pipeline} {α : Type} {a : α} {id : PageId} {slug : String → String}

/-! ## Accepted runs -/

/-- An accepted `getOrCreatePage` has found the page, or has created it for a valid assignment
without one. -/
theorem run_getOrCreatePage_eq_ok {layerId : LayerId} {assignment : Assignment} {page : Page} :
    (getOrCreatePage slug layerId assignment).run p = .ok page q ↔
      ∃ layer, p.layer? layerId = some layer ∧ p.isValidFor layer assignment = true ∧
        ((p.findPage? layerId assignment = some page ∧ q = p) ∨
          (p.findPage? layerId assignment = none ∧
            page = ⟨⟨freshId slug layerId.text (layer.pageName assignment)
              (p.pages.map (·.id.text))⟩, layerId, layer.pageName assignment, assignment, .empty⟩ ∧
            q = { p with pages := p.pages ++ [page] })) := by
  simp only [getOrCreatePage, run_needLayer_bind_eq_ok, Edit.run_get_bind_eq_ok,
    Edit.run_guard_eq_ok, Bool.not_eq_true', Bool.not_eq_false]
  refine exists_congr fun layer => and_congr_right fun _ => and_congr_right fun _ => ?_
  cases p.findPage? layerId assignment with
  | none =>
      simp only [Edit.run_set_bind_eq_ok, Edit.run_pure_eq_ok, reduceCtorEq, false_and, true_and,
        false_or]
      constructor
      · rintro ⟨rfl, rfl⟩
        exact ⟨rfl, rfl⟩
      · rintro ⟨rfl, rfl⟩
        exact ⟨rfl, rfl⟩
  | some found =>
      simp [eq_comm (a := p)]

theorem run_removePage_eq_ok {page : Page} :
    (removePage id).run p = .ok page q ↔
      p.page? id = some page ∧ q = { p with pages := p.pages.eraseP (·.id = id) } := by
  simp only [removePage, run_needPage_bind_eq_ok, Edit.run_modify_bind_eq_ok, Edit.run_pure_eq_ok]
  constructor
  · rintro ⟨found, hfound, rfl, rfl⟩
    exact ⟨hfound, rfl⟩
  · rintro ⟨hfound, rfl⟩
    exact ⟨page, hfound, rfl, rfl⟩

/-- An accepted edit of a page is an accepted edit of its store. -/
theorem run_editPage_eq_ok {edit : Edit TokenError Store α} :
    (editPage id edit).run p = .ok a q ↔
      ∃ page store, p.page? id = some page ∧ edit.run page.tokens = .ok a store ∧
        q = p.updatePage id ({ · with tokens := store }) := by
  simp only [editPage, run_needPage_bind_eq_ok, exists_and_left]
  refine exists_congr fun page => and_congr_right fun _ => ?_
  simp only [EStateM.run, Edit.onPart]
  cases edit page.tokens with
  | ok b store =>
      simp [eq_comm (a := q), and_comm]
  | error e store =>
      simp

/-- Which dependents of a path change are broken, which are retained, and what is done to the
latter. -/
theorem run_updateDependents_eq_ok {source newPath : String} {change : PathChange} :
    (updateDependents source newPath).run p = .ok change q ↔
      (source = newPath ∧ change = ⟨newPath, [], []⟩ ∧ q = p) ∨
        (source ≠ newPath ∧
          change = ⟨newPath, (p.dependents source).filter fun d => !p.isSatisfied d,
            (p.dependents source).filter p.isSatisfied⟩ ∧
          q = ((p.dependents source).filter fun d => !p.isSatisfied d).foldl
            (redirect source newPath) p) := by
  unfold updateDependents
  by_cases hsame : source = newPath
  · simp only [hsame, if_true, Edit.run_pure_eq_ok, true_and, not_true, false_and, or_false, ne_eq,
      eq_comm (a := change), eq_comm (a := q)]
  · simp only [hsame, if_false, Edit.run_get_bind_eq_ok, Edit.run_set_bind_eq_ok,
      Edit.run_pure_eq_ok, false_and, not_false_eq_true, true_and, false_or, ne_eq,
      eq_comm (a := change), eq_comm (a := q)]

/-- A rename is the edit of the page and then the update of its dependents. -/
theorem run_renameToken_eq_ok {path name : String} {change : PathChange} :
    (renameToken id path name).run p = .ok change q ↔
      ∃ newPath edited, (editPage id (Store.rename path name)).run p = .ok newPath edited ∧
        (updateDependents path newPath).run edited = .ok change q :=
  Edit.run_bind_eq_ok

/-- A move is the edit of the page and then the update of its dependents. -/
theorem run_moveToken_eq_ok {path parent : String} {change : PathChange} :
    (moveToken id path parent).run p = .ok change q ↔
      ∃ newPath edited, (editPage id (Store.move path parent)).run p = .ok newPath edited ∧
        (updateDependents path newPath).run edited = .ok change q :=
  Edit.run_bind_eq_ok

/-! ## Refusals -/

/-- A refused `getOrCreatePage` leaves the pipeline as it was. -/
theorem atomic_getOrCreatePage (slug : String → String) (layerId : LayerId)
    (assignment : Assignment) : Edit.Atomic (getOrCreatePage slug layerId assignment) := by
  refine (readOnly_needLayer layerId).atomic_bind fun layer =>
    Edit.readOnly_get.atomic_bind fun p =>
    Edit.atomic_throw_bind.ite ?_
  cases p.findPage? layerId assignment with
  | none =>
      exact Edit.atomic_set.bind_total fun _ => Edit.total_pure
  | some page =>
      exact Edit.atomic_pure

theorem atomic_removePage (id : PageId) : Edit.Atomic (removePage id) :=
  (readOnly_needPage id).atomic_bind fun _ =>
    Edit.atomic_modify.bind_total fun _ => Edit.total_pure

/-! ## Edits of tokens -/

/-- Writing back the tokens that a page has. -/
theorem updatePage_of_page? {page : Page} (h : p.page? id = some page) :
    p.updatePage id ({ · with tokens := page.tokens }) = p := by
  unfold updatePage
  rw [Sequence.updateFirst_of_find? h rfl]

/-- Two pipelines that differ in the tokens of their pages at most. -/
structure SameFrame (p q : Pipeline) : Prop where
  vars : q.vars = p.vars
  layers : q.layers = p.layers
  labels : q.pages.map Page.label = p.pages.map Page.label

theorem SameFrame.refl (p : Pipeline) : SameFrame p p :=
  ⟨rfl, rfl, rfl⟩

theorem SameFrame.trans {r : Pipeline} (h : SameFrame p q) (h' : SameFrame q r) : SameFrame p r :=
  ⟨h'.vars.trans h.vars, h'.layers.trans h.layers, h'.labels.trans h.labels⟩

/-- What a page shows without its tokens is the same in both pipelines. -/
theorem SameFrame.map_eq {β : Type} (h : SameFrame p q)
    (view : PageId × LayerId × String × Assignment → β) :
    q.pages.map (fun page => view page.label) = p.pages.map fun page => view page.label := by
  have hlabels := congrArg (List.map view) h.labels
  simpa only [List.map_map, Function.comp_def] using hlabels

/-- New tokens of a page leave the frame alone. -/
theorem sameFrame_updatePage (p : Pipeline) (id : PageId) (tokens : Page → Store) :
    SameFrame p (p.updatePage id fun page => { page with tokens := tokens page }) :=
  ⟨rfl, rfl, Sequence.map_updateFirst fun _ _ => rfl⟩

theorem sameFrame_redirect (source target : String) (p : Pipeline) (d : Dependent) :
    SameFrame p (redirect source target p d) :=
  sameFrame_updatePage p d.page _

/-- Turning any number of references leaves the frame alone. -/
theorem sameFrame_foldl_redirect (source target : String) (all : List Dependent) (p : Pipeline) :
    SameFrame p (all.foldl (redirect source target) p) := by
  induction all generalizing p with
  | nil =>
      exact SameFrame.refl p
  | cons d rest ih =>
      exact (sameFrame_redirect source target p d).trans (ih (redirect source target p d))

theorem keeps_setPageTokens (id : PageId) (tokens : Tree) :
    Edit.Keeps SameFrame (setPageTokens id tokens) := by
  refine ((readOnly_needPage id).keeps SameFrame.refl).bind SameFrame.trans fun _ p => ?_
  exact sameFrame_updatePage p id _

theorem keeps_editPage (id : PageId) (edit : Edit TokenError Store α) :
    Edit.Keeps SameFrame (editPage id edit) := by
  refine ((readOnly_needPage id).keeps SameFrame.refl).bind SameFrame.trans fun page p => ?_
  unfold Edit.stateAfter
  cases hrun : edit.run page.tokens with
  | ok a store =>
      simp only [EStateM.run, Edit.onPart] at hrun ⊢
      rw [hrun]
      exact sameFrame_updatePage p id _
  | error e store =>
      simp only [EStateM.run, Edit.onPart] at hrun ⊢
      rw [hrun]
      exact sameFrame_updatePage p id _

theorem keeps_updateDependents (source newPath : String) :
    Edit.Keeps SameFrame (updateDependents source newPath) := by
  intro p
  unfold Edit.stateAfter
  -- Turning aliases is never refused, so that only the accepted runs remain.
  cases hrun : (updateDependents source newPath).run p with
  | ok change q =>
      rcases run_updateDependents_eq_ok.1 hrun with ⟨-, -, rfl⟩ | ⟨-, -, rfl⟩
      · exact SameFrame.refl _
      · exact sameFrame_foldl_redirect source newPath _ p
  | error e q =>
      by_cases hsame : source = newPath
      · simp only [updateDependents, hsame, if_true] at hrun
        cases hrun
      · simp only [updateDependents, hsame, if_false] at hrun
        cases hrun

theorem keeps_removeToken (id : PageId) (path : String) :
    Edit.Keeps SameFrame (removeToken id path) :=
  (keeps_editPage id (Store.remove path)).bind SameFrame.trans fun _ =>
    Edit.readOnly_pure.keeps SameFrame.refl

/-- Renaming a token keeps the frame, whether it is accepted or not. -/
theorem keeps_renameToken (id : PageId) (path name : String) :
    Edit.Keeps SameFrame (renameToken id path name) :=
  (keeps_editPage id (Store.rename path name)).bind SameFrame.trans fun newPath =>
    keeps_updateDependents path newPath

theorem keeps_moveToken (id : PageId) (path parent : String) :
    Edit.Keeps SameFrame (moveToken id path parent) :=
  (keeps_editPage id (Store.move path parent)).bind SameFrame.trans fun newPath =>
    keeps_updateDependents path newPath

end Pipeline
end DesignTokens
