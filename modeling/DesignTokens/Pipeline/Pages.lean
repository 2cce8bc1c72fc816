import DesignTokens.Pipeline.Basic

/-!
# Edits of pages and their tokens

Pages are created for assignments that fit their layer, and their tokens are edited through the
stores. Renaming or moving a token also turns the aliases of it, in all pages: an alias whose target
no page defines any more is redirected to the new path, and one that another page still satisfies is
left alone.
-/

namespace DesignTokens

structure Dependent where
  page : PageId
  path : String
deriving DecidableEq, Repr

/-- The outcome of renaming or moving a token: the new path, the aliases that were redirected to it,
and those that were left alone. -/
structure PathChange where
  newPath : String
  redirected : List Dependent
  retained : List Dependent
deriving DecidableEq, Repr

namespace Pipeline

/-! ## Pages -/

/-- The page of a layer for an assignment, created empty when there is none. -/
def getOrCreatePage (slug : String → String) (id : LayerId) (assignment : Assignment) :
    PipelineEdit Page := do
  let layer ← needLayer id
  let pipeline ← get
  if !pipeline.isValidFor layer assignment then
    throw (.invalidAssignment layer.name assignment layer.variableKeys)
  match pipeline.findPage? id assignment with
  | some page => return page
  | none =>
      let name := layer.pageName assignment
      let pageId : PageId := ⟨freshId slug id.text name (pipeline.pages.map (·.id.text))⟩
      let page : Page := ⟨pageId, id, name, assignment, .empty⟩
      set { pipeline with pages := pipeline.pages ++ [page] }
      return page

/-- Removes a page, which is the answer. -/
def removePage (id : PageId) : PipelineEdit Page := do
  let page ← needPage id
  modify fun pipeline => { pipeline with pages := pipeline.pages.eraseP (·.id = id) }
  return page

def setPageTokens (id : PageId) (tokens : Tree) : PipelineEdit Unit := do
  let _ ← needPage id
  modify fun pipeline => pipeline.updatePage id ({ · with tokens := Store.ofTree tokens })

def editPage {α : Type} (id : PageId) (edit : Edit TokenError Store α) : PipelineEdit α := do
  let page ← needPage id
  Edit.onPart (fun _ => page.tokens)
    (fun store pipeline => pipeline.updatePage id ({ · with tokens := store })) .token edit

def setToken (id : PageId) (path : String) (token : Token) : PipelineEdit Unit :=
  editPage id (Store.setToken path token)

def removeToken (id : PageId) (path : String) : PipelineEdit Unit := do
  let _ ← editPage id (Store.remove path)

/-! ## Aliases into edited subtrees -/

/-- Every token that is an alias of a path or of one below it, by page and in document order. -/
def dependents (pipeline : Pipeline) (path : String) : List Dependent :=
  pipeline.pages.flatMap fun page => (page.tokens.references path).map fun found => ⟨page.id, found⟩

def definesToken (pipeline : Pipeline) (path : String) : Bool :=
  pipeline.pages.any (·.tokens.isToken path)

def isSatisfied (pipeline : Pipeline) (dependent : Dependent) : Bool :=
  ((pipeline.page? dependent.page).bind (·.tokens.reference? dependent.path)).any
    pipeline.definesToken

/-- The pipeline with the alias of one dependent turned from one subtree to another. -/
def redirect (source target : String) (pipeline : Pipeline) (dependent : Dependent) : Pipeline :=
  pipeline.updatePage dependent.page fun page =>
    { page with tokens := page.tokens.redirect dependent.path source target }

/-- Turns the aliases that no page satisfies any more after a subtree has moved. -/
def updateDependents (source newPath : String) : PipelineEdit PathChange := do
  if source = newPath then return ⟨newPath, [], []⟩
  let pipeline ← get
  let all := pipeline.dependents source
  let retained := all.filter pipeline.isSatisfied
  let redirected := all.filter fun dependent => !pipeline.isSatisfied dependent
  set (redirected.foldl (redirect source newPath) pipeline)
  return ⟨newPath, redirected, retained⟩

def renameToken (id : PageId) (path name : String) : PipelineEdit PathChange := do
  let newPath ← editPage id (Store.rename path name)
  updateDependents path newPath

/-- Moves a token or group of a page to the end of another group. -/
def moveToken (id : PageId) (path parent : String) : PipelineEdit PathChange := do
  let newPath ← editPage id (Store.move path parent)
  updateDependents path newPath

end Pipeline
end DesignTokens
