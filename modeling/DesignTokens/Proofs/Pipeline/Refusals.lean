import DesignTokens.Proofs.Pipeline.Mutation
import DesignTokens.Proofs.Store.Runs

/-!
# Refused mutations

A refused mutation leaves the whole pipeline as it was, tokens included. Edits of variables, layers
and pages check before they write. An edit of tokens writes the store of its page back even when it
is refused; the store is then the one that was read, because every operation of a store is atomic,
and nothing that comes after the store edit can be refused.
-/

namespace DesignTokens

/-- An edit of a whole page is one operation of its store, not several in a row. -/
def Mutation.IsSingle : Mutation → Prop
  | .editPage _ edit => ∃ operation : Store.Operation, edit = operation.edit
  | _ => True

namespace Pipeline

variable {p q : Pipeline} {α : Type}

/-! ## Edits of tokens -/

/-- An atomic edit of a store is an atomic edit of a page. -/
theorem atomic_editPage {edit : Edit TokenError Store α} (id : PageId) (h : Edit.Atomic edit) :
    Edit.Atomic (editPage id edit) := by
  intro p q e hrun
  rcases Edit.run_bind_eq_error.1 hrun with hneed | ⟨page, t, hneed, hedit⟩
  · exact (readOnly_needPage id).1 p q e hneed
  · rcases run_needPage_eq_ok.1 hneed with ⟨hpage, rfl⟩
    -- The store that is written back is the one that was read.
    simp only [EStateM.run, Edit.onPart] at hedit
    cases hstore : edit page.tokens with
    | ok a store =>
        simp [hstore] at hedit
    | error error store =>
        have hsame : store = page.tokens := h _ _ _ hstore
        rw [hstore, hsame] at hedit
        have hback := (EStateM.Result.error.inj hedit).2
        rw [← hback]
        exact updatePage_of_page? hpage

theorem total_updateDependents (source newPath : String) :
    Edit.Total (updateDependents source newPath) := by
  intro p q e hrun
  by_cases hsame : source = newPath
  · simp only [updateDependents, hsame, if_true] at hrun
    cases hrun
  · simp only [updateDependents, hsame, if_false] at hrun
    cases hrun

theorem atomic_setPageTokens (id : PageId) (tokens : Tree) :
    Edit.Atomic (setPageTokens id tokens) :=
  (readOnly_needPage id).atomic_bind fun _ => Edit.atomic_modify

theorem atomic_removeToken (id : PageId) (path : String) : Edit.Atomic (removeToken id path) :=
  (atomic_editPage id (Store.atomic_remove path)).bind_total fun _ => Edit.total_pure

theorem atomic_renameToken (id : PageId) (path name : String) :
    Edit.Atomic (renameToken id path name) :=
  (atomic_editPage id (Store.atomic_rename path name)).bind_total fun newPath =>
    total_updateDependents path newPath

theorem atomic_moveToken (id : PageId) (path parent : String) :
    Edit.Atomic (moveToken id path parent) :=
  (atomic_editPage id (Store.atomic_move path parent)).bind_total fun newPath =>
    total_updateDependents path newPath

/-! ## All mutations -/

/-- Every mutation that is a single step is atomic. -/
theorem atomic_mutation {m : Mutation} (h : m.IsSingle) (slug : String → String) :
    Edit.Atomic (m.edit slug) := by
  cases m with
  | addVariable name key values => exact (atomic_addVariable slug name key values).void
  | renameVariable key name => exact (atomic_renameVariable key name).void
  | setVariableKey key newKey => exact (atomic_setVariableKey key newKey).void
  | removeVariable key => exact (atomic_removeVariable key).void
  | addVariableValue key value => exact (atomic_addVariableValue key value).void
  | removeVariableValue key value => exact (atomic_removeVariableValue key value).void
  | renameVariableValue key value newValue =>
      exact (atomic_renameVariableValue key value newValue).void
  | addLayer name variableKeys required =>
      exact (atomic_addLayer slug name variableKeys required).void
  | renameLayer id name => exact (atomic_renameLayer id name).void
  | removeLayer id => exact (atomic_removeLayer id).void
  | moveLayer id position => exact (atomic_moveLayer id position).void
  | setLayerRequired id required => exact (atomic_setLayerRequired id required).void
  | bindVariable id key => exact (atomic_bindVariable id key).void
  | unbindVariable id key => exact (atomic_unbindVariable id key).void
  | getOrCreatePage id assignment => exact (atomic_getOrCreatePage slug id assignment).void
  | removePage id => exact (atomic_removePage id).void
  | setPageTokens id tokens => exact (atomic_setPageTokens id tokens).void
  | setToken id path token => exact (atomic_editPage id (Store.atomic_setToken path token)).void
  | removeToken id path => exact (atomic_removeToken id path).void
  | renameToken id path name => exact (atomic_renameToken id path name).void
  | moveToken id path parent => exact (atomic_moveToken id path parent).void
  | editPage id edit =>
      rcases h with ⟨operation, rfl⟩
      exact (atomic_editPage id operation.atomic_edit).void

/-- A mutation that is refused leaves every pipeline exactly as it was, however its identities are
made. -/
theorem eq_of_refused {m : Mutation} (hsingle : m.IsSingle) (slug : String → String)
    {e : PipelineError} (hrefused : (m.edit slug).run p = .error e q) : q = p :=
  atomic_mutation hsingle slug p q e hrefused

/-- One layer of one page, which has one token. -/
def oneToken : Pipeline where
  vars := []
  layers := [⟨⟨"layer-base"⟩, "Base", 0, [], false⟩]
  pages :=
    [⟨⟨"page-base"⟩, ⟨"layer-base"⟩, "Base", .empty, .ofTree { children := [("a", .token {})] }⟩]

/-- The token `a` blocks the way to `a.b`, which only the store of the page can tell. -/
theorem eq_of_refused_oneToken :
    ∃ q, (Mutation.edit plainSlug
        (.editPage ⟨"page-base"⟩ (Store.Operation.setToken "a.b" {}).edit)).run oneToken =
        .error (.token (.notAGroup "a")) q ∧ q = oneToken := by
  have hsingle : Mutation.IsSingle
      (.editPage ⟨"page-base"⟩ (Store.Operation.setToken "a.b" {}).edit) := ⟨_, rfl⟩
  exact ⟨_, rfl, eq_of_refused hsingle plainSlug rfl⟩

end Pipeline
end DesignTokens
