import DesignTokens.Proofs.Pipeline.Identity
import DesignTokens.Proofs.Pipeline.Layers
import DesignTokens.Proofs.Pipeline.Pages
import DesignTokens.Proofs.Pipeline.Variables

/-!
# Mutations and reachable pipelines

Every way to change a pipeline, with its arguments, as one type. A run is a list of them, and a
pipeline is reachable when a run from the empty one leads to it; refused edits are part of a run.
What makes slugs of names is the same along a run, and it can be any function.

`Step` says once what a mutation can do. An invariant is then proved by one case for each of its
constructors. Of the identities that a step makes it only says that they are fresh, so that what
follows from `Step` holds for every way to make slugs.
-/

namespace DesignTokens

inductive Mutation where
  | addVariable (name key : String) (values : List String)
  | renameVariable (key name : String)
  | setVariableKey (key newKey : String)
  | removeVariable (key : String)
  | addVariableValue (key value : String)
  | removeVariableValue (key value : String)
  | renameVariableValue (key value newValue : String)
  | addLayer (name : String) (variableKeys : List String) (required : Bool)
  | renameLayer (id : LayerId) (name : String)
  | removeLayer (id : LayerId)
  | moveLayer (id : LayerId) (position : Nat)
  | setLayerRequired (id : LayerId) (required : Bool)
  | bindVariable (id : LayerId) (key : String)
  | unbindVariable (id : LayerId) (key : String)
  | getOrCreatePage (id : LayerId) (assignment : Assignment)
  | removePage (id : PageId)
  | setPageTokens (id : PageId) (tokens : Tree)
  | setToken (id : PageId) (path : String) (token : Token)
  | removeToken (id : PageId) (path : String)
  | renameToken (id : PageId) (path name : String)
  | moveToken (id : PageId) (path parent : String)
  | editPage (id : PageId) (edit : Edit TokenError Store Unit)

namespace Mutation

/-- The mutation as an edit whose answer is dropped. Identities are made from slugs. -/
def edit (slug : String → String) (m : Mutation) : PipelineEdit Unit :=
  match m with
  | .addVariable name key values => (Pipeline.addVariable slug name key values).void
  | .renameVariable key name => (Pipeline.renameVariable key name).void
  | .setVariableKey key newKey => (Pipeline.setVariableKey key newKey).void
  | .removeVariable key => (Pipeline.removeVariable key).void
  | .addVariableValue key value => (Pipeline.addVariableValue key value).void
  | .removeVariableValue key value => (Pipeline.removeVariableValue key value).void
  | .renameVariableValue key value newValue =>
      (Pipeline.renameVariableValue key value newValue).void
  | .addLayer name variableKeys required => (Pipeline.addLayer slug name variableKeys required).void
  | .renameLayer id name => (Pipeline.renameLayer id name).void
  | .removeLayer id => (Pipeline.removeLayer id).void
  | .moveLayer id position => (Pipeline.moveLayer id position).void
  | .setLayerRequired id required => (Pipeline.setLayerRequired id required).void
  | .bindVariable id key => (Pipeline.bindVariable id key).void
  | .unbindVariable id key => (Pipeline.unbindVariable id key).void
  | .getOrCreatePage id assignment => (Pipeline.getOrCreatePage slug id assignment).void
  | .removePage id => (Pipeline.removePage id).void
  | .setPageTokens id tokens => (Pipeline.setPageTokens id tokens).void
  | .setToken id path token => (Pipeline.setToken id path token).void
  | .removeToken id path => (Pipeline.removeToken id path).void
  | .renameToken id path name => (Pipeline.renameToken id path name).void
  | .moveToken id path parent => (Pipeline.moveToken id path parent).void
  | .editPage id edit => (Pipeline.editPage id edit).void

/-- The pipeline after a mutation, whether it is accepted or not. -/
def after (slug : String → String) (p : Pipeline) (m : Mutation) : Pipeline :=
  (m.edit slug).stateAfter p

/-- The mutation concerns the tokens of pages only. -/
def EditsTokens : Mutation → Prop
  | .setPageTokens .. | .setToken .. | .removeToken .. | .renameToken .. | .moveToken ..
  | .editPage .. => True
  | _ => False

end Mutation

namespace Pipeline

variable {p q : Pipeline} {slug : String → String}

/-- The pipeline after several mutations, with identities made from the given slugs. -/
def runWith (slug : String → String) (p : Pipeline) (mutations : List Mutation) : Pipeline :=
  mutations.foldl (Mutation.after slug) p

/-- Some run from the empty pipeline leads to this one. -/
def Reachable (slug : String → String) (p : Pipeline) : Prop :=
  ∃ mutations, p = runWith slug empty mutations

/-! ## Steps -/

/-- What a mutation does to a pipeline when it is accepted and does something. -/
inductive Step (p : Pipeline) : Mutation → Pipeline → Prop where
  | addVariable {name key : String} {values : List String} {id : VariableId}
      (name_ok : checkName name = .ok ()) (key_ok : checkKey key = .ok ())
      (free : p.variableFor? key = none) (values_ok : checkValues key values = .ok ())
      (fresh : id ∉ p.vars.map (·.id)) :
      Step p (.addVariable name key values)
        { p with vars := p.vars ++ [⟨id, name, key, values⟩] }
  | renameVariable {key name : String} :
      Step p (.renameVariable key name) (p.updateVariable key ({ · with name := name }))
  | setVariableKey {key newKey : String} {found : Variable}
      (known : p.variableFor? key = some found)
      (key_ok : checkKey newKey = .ok ()) (free : p.variableFor? newKey = none) :
      Step p (.setVariableKey key newKey) (p.withVariableKey key newKey)
  | removeVariable {key : String} : Step p (.removeVariable key) (p.withoutVariable key)
  | addVariableValue {key value : String} {found : Variable}
      (known : p.variableFor? key = some found) (value_ok : checkName value = .ok ())
      (free : value ∉ found.values) :
      Step p (.addVariableValue key value)
        (p.updateVariable key fun v => { v with values := v.values ++ [value] })
  | removeVariableValue {key value : String} :
      Step p (.removeVariableValue key value)
        (p.updateVariable key fun v => { v with values := v.values.erase value })
  | renameVariableValue {key value newValue : String} {found : Variable}
      (known : p.variableFor? key = some found) (value_ok : checkName newValue = .ok ())
      (present : value ∈ found.values) (free : value = newValue ∨ newValue ∉ found.values) :
      Step p (.renameVariableValue key value newValue)
        (p.withVariableValue key value newValue).refreshPageNames
  | addLayer {name : String} {variableKeys : List String} {required : Bool} {id : LayerId}
      {order : Int32} (name_ok : checkName name = .ok ()) (free : p.layerNamed? name = none)
      (bindings_ok : p.checkBindings name [] variableKeys = .ok ())
      (fresh : id ∉ p.layers.map (·.id)) (next : p.nextOrder? = some order) :
      Step p (.addLayer name variableKeys required)
        { p with layers := p.layers ++ [⟨id, name, order, variableKeys, required⟩] }
  | renameLayer {id : LayerId} {name : String} (name_ok : checkName name = .ok ())
      (free : ∀ other ∈ p.layers, other.name = name → other.id = id) :
      Step p (.renameLayer id name) (p.updateLayer id ({ · with name := name })).refreshPageNames
  | removeLayer {id : LayerId} : Step p (.removeLayer id) (p.withoutLayer id)
  | moveLayer {id : LayerId} {position : Nat} :
      Step p (.moveLayer id position) { p with layers := renumber 0 (p.reordered id position) }
  | setLayerRequired {id : LayerId} {required : Bool} :
      Step p (.setLayerRequired id required) (p.updateLayer id ({ · with required := required }))
  | bindVariable {id : LayerId} {key : String} {layer : Layer} {found : Variable}
      (layer_known : p.layer? id = some layer) (known : p.variableFor? key = some found)
      (free : key ∉ layer.variableKeys) :
      Step p (.bindVariable id key)
        (p.updateLayer id fun l => { l with variableKeys := l.variableKeys ++ [key] })
  | unbindVariable {id : LayerId} {key : String} :
      Step p (.unbindVariable id key)
        (p.updateLayer id fun l => { l with variableKeys := l.variableKeys.erase key })
  | createPage {id : LayerId} {assignment : Assignment} {layer : Layer}
      {pageId : PageId} (layer_known : p.layer? id = some layer)
      (valid : p.isValidFor layer assignment = true) (free : p.findPage? id assignment = none)
      (fresh : pageId ∉ p.pages.map (·.id)) :
      Step p (.getOrCreatePage id assignment)
        { p with
          pages := p.pages ++ [⟨pageId, id, layer.pageName assignment, assignment, .empty⟩] }
  | removePage {id : PageId} :
      Step p (.removePage id) { p with pages := p.pages.eraseP (·.id = id) }
  | editTokens {m : Mutation} {q : Pipeline} (tokens_only : m.EditsTokens) (same : SameFrame p q) :
      Step p m q

/-- An atomic edit does nothing or what its accepted runs do. -/
theorem edit_cases_of_atomic {α : Type} {edit : PipelineEdit α} {m : Mutation}
    (hatomic : Edit.Atomic edit)
    (hrun : ∀ {a q}, edit.run p = .ok a q → q = p ∨ Step p m q) :
    edit.void.stateAfter p = p ∨ Step p m (edit.void.stateAfter p) := by
  rw [Edit.stateAfter_void]
  rcases hatomic.stateAfter_cases p with ⟨a, hok⟩ | hsame
  · exact hrun hok
  · exact Or.inl hsame

/-- An edit of tokens takes a step, whether it is accepted or not. -/
theorem step_of_keeps {α : Type} {edit : PipelineEdit α} {m : Mutation} (htokens : m.EditsTokens)
    (hkeeps : Edit.Keeps SameFrame edit) : Step p m (edit.void.stateAfter p) := by
  rw [Edit.stateAfter_void]
  exact .editTokens htokens (hkeeps p)

/-- A mutation leaves the pipeline as it is or takes a step, whatever its identities are made
from. -/
theorem after_cases (slug : String → String) (p : Pipeline) (m : Mutation) :
    m.after slug p = p ∨ Step p m (m.after slug p) := by
  -- What an accepted edit has checked is what its step asks for; edits of tokens are steps anyway.
  cases m with
  | addVariable name key values =>
      refine edit_cases_of_atomic (atomic_addVariable slug name key values) fun {_ q} hrun =>
        Or.inr ?_
      rcases run_addVariable_eq_ok.1 hrun with ⟨hname, hkey, hfree, hvalues, rfl, rfl⟩
      exact .addVariable hname hkey hfree hvalues
        (Sequence.not_mem_map_of_view VariableId.text (freshId_not_mem slug "var" key _))
  | renameVariable key name =>
      refine edit_cases_of_atomic (atomic_renameVariable key name) fun {_ q} hrun => Or.inr ?_
      rcases run_renameVariable_eq_ok.1 hrun with ⟨-, -, rfl⟩
      exact .renameVariable
  | setVariableKey key newKey =>
      refine edit_cases_of_atomic (atomic_setVariableKey key newKey) fun {_ q} hrun => ?_
      rcases run_setVariableKey_eq_ok.1 hrun with ⟨⟨found, hfound⟩, hkey, hcase⟩
      rcases hcase with ⟨-, rfl⟩ | ⟨hfree, rfl⟩
      · exact Or.inl rfl
      · exact Or.inr (.setVariableKey hfound hkey hfree)
  | removeVariable key =>
      refine edit_cases_of_atomic (atomic_removeVariable key) fun {_ q} hrun => Or.inr ?_
      rcases run_removeVariable_eq_ok.1 hrun with ⟨-, rfl⟩
      exact .removeVariable
  | addVariableValue key value =>
      refine edit_cases_of_atomic (atomic_addVariableValue key value) fun {_ q} hrun => Or.inr ?_
      rcases run_addVariableValue_eq_ok.1 hrun with ⟨found, hfound, hvalue, hfree, rfl⟩
      exact .addVariableValue hfound hvalue hfree
  | removeVariableValue key value =>
      refine edit_cases_of_atomic (atomic_removeVariableValue key value) fun {_ q} hrun =>
        Or.inr ?_
      rcases run_removeVariableValue_eq_ok.1 hrun with ⟨found, -, -, rfl⟩
      exact .removeVariableValue
  | renameVariableValue key value newValue =>
      refine edit_cases_of_atomic (atomic_renameVariableValue key value newValue)
        fun {_ q} hrun => Or.inr ?_
      rcases run_renameVariableValue_eq_ok.1 hrun with ⟨found, hfound, hvalue, hmem, hfree, rfl⟩
      exact .renameVariableValue hfound hvalue hmem hfree
  | addLayer name variableKeys required =>
      refine edit_cases_of_atomic (atomic_addLayer slug name variableKeys required)
        fun {_ q} hrun => Or.inr ?_
      rcases run_addLayer_eq_ok.1 hrun with ⟨hname, hfree, hbindings, rfl, order, hnext, rfl⟩
      exact .addLayer hname hfree hbindings
        (Sequence.not_mem_map_of_view LayerId.text (freshId_not_mem slug "layer" name _)) hnext
  | renameLayer id name =>
      refine edit_cases_of_atomic (atomic_renameLayer id name) fun {_ q} hrun => Or.inr ?_
      rcases run_renameLayer_eq_ok.1 hrun with ⟨layer, -, hname, hfree, rfl⟩
      exact .renameLayer hname hfree
  | removeLayer id =>
      refine edit_cases_of_atomic (atomic_removeLayer id) fun {_ q} hrun => Or.inr ?_
      rcases run_removeLayer_eq_ok.1 hrun with ⟨-, -, rfl⟩
      exact .removeLayer
  | moveLayer id position =>
      refine edit_cases_of_atomic (atomic_moveLayer id position) fun {_ q} hrun => Or.inr ?_
      rcases run_moveLayer_eq_ok.1 hrun with ⟨-, rfl⟩
      exact .moveLayer
  | setLayerRequired id required =>
      refine edit_cases_of_atomic (atomic_setLayerRequired id required) fun {_ q} hrun => Or.inr ?_
      rcases run_setLayerRequired_eq_ok.1 hrun with ⟨-, rfl⟩
      exact .setLayerRequired
  | bindVariable id key =>
      refine edit_cases_of_atomic (atomic_bindVariable id key) fun {_ q} hrun => Or.inr ?_
      rcases run_bindVariable_eq_ok.1 hrun with ⟨layer, found, hlayer, hfound, hfree, rfl⟩
      exact .bindVariable hlayer hfound hfree
  | unbindVariable id key =>
      refine edit_cases_of_atomic (atomic_unbindVariable id key) fun {_ q} hrun => Or.inr ?_
      rcases run_unbindVariable_eq_ok.1 hrun with ⟨layer, -, -, rfl⟩
      exact .unbindVariable
  | getOrCreatePage id assignment =>
      refine edit_cases_of_atomic (atomic_getOrCreatePage slug id assignment) fun {_ q} hrun => ?_
      rcases run_getOrCreatePage_eq_ok.1 hrun with ⟨layer, hlayer, hvalid, hcase⟩
      rcases hcase with ⟨-, rfl⟩ | ⟨hfree, rfl, rfl⟩
      · exact Or.inl rfl
      · exact Or.inr (.createPage hlayer hvalid hfree
          (Sequence.not_mem_map_of_view PageId.text (freshId_not_mem slug id.text _ _)))
  | removePage id =>
      refine edit_cases_of_atomic (atomic_removePage id) fun {_ q} hrun => Or.inr ?_
      rcases run_removePage_eq_ok.1 hrun with ⟨-, rfl⟩
      exact .removePage
  | setPageTokens id tokens =>
      exact Or.inr (step_of_keeps trivial (keeps_setPageTokens id tokens))
  | setToken id path token =>
      exact Or.inr (step_of_keeps trivial (keeps_editPage id (Store.setToken path token)))
  | removeToken id path =>
      exact Or.inr (step_of_keeps trivial (keeps_removeToken id path))
  | renameToken id path name =>
      exact Or.inr (step_of_keeps trivial (keeps_renameToken id path name))
  | moveToken id path parent =>
      exact Or.inr (step_of_keeps trivial (keeps_moveToken id path parent))
  | editPage id edit =>
      exact Or.inr (step_of_keeps trivial (keeps_editPage id edit))

/-! ## Runs -/

/-- What the empty pipeline has and every step keeps, every run keeps. -/
theorem runWith_induction {holds : Pipeline → Prop}
    (hstep : ∀ {p m q}, holds p → Step p m q → holds q) (h : holds p) (slug : String → String)
    (mutations : List Mutation) : holds (runWith slug p mutations) := by
  induction mutations generalizing p with
  | nil =>
      exact h
  | cons m rest ih =>
      refine ih ?_
      rcases after_cases slug p m with hsame | hsteps
      · rw [hsame]
        exact h
      · exact hstep h hsteps

/-- What holds of the empty pipeline and is kept by every step holds of every reachable pipeline. -/
theorem Reachable.induction {holds : Pipeline → Prop} (hempty : holds empty)
    (hstep : ∀ {p m q}, holds p → Step p m q → holds q) (h : p.Reachable slug) : holds p := by
  rcases h with ⟨mutations, rfl⟩
  exact runWith_induction hstep hempty slug mutations

end Pipeline
end DesignTokens
