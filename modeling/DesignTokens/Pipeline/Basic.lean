import DesignTokens.Pipeline.Error
import DesignTokens.Sequence
import DesignTokens.Text.Blank
import DesignTokens.Token.Store

/-!
# Pipelines

A pipeline has variables with their values, layers that are merged in order, and pages. A layer may
be bound to variables; it then has one page for every assignment of values to these. A page belongs
to its layer by id and holds a token store.

A page whose assignment does not fit its layer any more is an orphan. It stays until it is removed.
-/

namespace DesignTokens

/-- The identity of a variable, which its key may change without. -/
structure VariableId where
  text : String
deriving DecidableEq, Repr, Hashable

structure LayerId where
  text : String
deriving DecidableEq, Repr, Hashable

structure PageId where
  text : String
deriving DecidableEq, Repr, Hashable

/-- A named axis of variation with its values in order; the first one is the default. -/
structure Variable where
  id : VariableId
  name : String
  key : String
  values : List String
deriving DecidableEq, Repr

/-- A stage of the merge. Layers are merged by ascending order, and later ones override earlier
ones. A required layer that has no page for a build is a defect of the build. -/
structure Layer where
  id : LayerId
  name : String
  order : Int32
  variableKeys : List String
  required : Bool
deriving DecidableEq

structure Page where
  id : PageId
  layer : LayerId
  name : String
  assignment : Assignment
  tokens : Store
deriving DecidableEq

structure Pipeline where
  vars : List Variable
  layers : List Layer
  pages : List Page
deriving DecidableEq

abbrev PipelineEdit (α : Type) := Edit PipelineError Pipeline α

/-! ## Names and keys -/

def checkName (name : String) : Except PipelineError Unit :=
  if Text.isBlankText name then .error (.invalidName name .blankName) else .ok ()

def isKeyChar (c : Char) : Bool :=
  c.isAlphanum || c = '_' || c = '-'

def checkKey (key : String) : Except PipelineError Unit :=
  if key = "" then .error (.invalidName key .emptyKey)
  else if key.toList.all isKeyChar then .ok ()
  else .error (.invalidName key .keyCharacters)

/-- Refuses the first value that is blank or stands among `seen`. -/
def checkValuesAfter (key : String) : List String → List String → Except PipelineError Unit
  | _, [] => .ok ()
  | seen, value :: rest =>
      match checkName value with
      | .error e => .error e
      | .ok () =>
          if value ∈ seen then .error (.duplicateVariableValue key value)
          else checkValuesAfter key (value :: seen) rest

def checkValues (key : String) (values : List String) : Except PipelineError Unit :=
  checkValuesAfter key [] values

/-! ## Fresh identities

Identities are made from slugs. How a name is turned into a slug is a matter of spelling, and the
edits that make identities take it as a parameter.
-/

def numbered (base : String) (n : Nat) : String :=
  base ++ "-" ++ String.ofList (Decimal.digits n)

/-- The first number from `n` on whose text is not taken, among as many as the first argument
says. -/
def freshNumber (base : String) (taken : List String) : Nat → Nat → Nat
  | 0, n => n
  | steps + 1, n =>
      if numbered base n ∈ taken then freshNumber base taken steps (n + 1) else n

/-- A text that is not taken: the base, or else the base with the first free number from two on. As
many numbers as there are texts taken are enough. -/
def freshText (base : String) (taken : List String) : String :=
  if base ∈ taken then numbered base (freshNumber base taken taken.length 2) else base

def slugged (slug : String → String) (kind name : String) : String :=
  if slug name = "" then kind else kind ++ "-" ++ slug name

/-- An identity for a name that is not taken. -/
def freshId (slug : String → String) (kind name : String) (taken : List String) : String :=
  freshText (slugged slug kind name) taken

namespace Page

/-- The page belongs to the layer and has exactly the assignment. -/
def fits (page : Page) (layer : LayerId) (assignment : Assignment) : Bool :=
  page.layer = layer && page.assignment = assignment

end Page

namespace Layer

/-- The name of the layer's page for an assignment: the layer's name, followed by the values in the
order in which the variables are bound. -/
def pageName (layer : Layer) (assignment : Assignment) : String :=
  Text.join " / " (layer.name :: layer.variableKeys.filterMap (assignment[·]?))

end Layer

namespace Pipeline

/-- The pipeline without variables, layers and pages. -/
def empty : Pipeline := ⟨[], [], []⟩

instance : Inhabited Pipeline := ⟨empty⟩

/-! ## Reading -/

def variableFor? (pipeline : Pipeline) (key : String) : Option Variable :=
  pipeline.vars.find? (·.key = key)

def layer? (pipeline : Pipeline) (id : LayerId) : Option Layer :=
  pipeline.layers.find? (·.id = id)

def layerNamed? (pipeline : Pipeline) (name : String) : Option Layer :=
  pipeline.layers.find? (·.name = name)

def page? (pipeline : Pipeline) (id : PageId) : Option Page :=
  pipeline.pages.find? (·.id = id)

/-- The layers by ascending order; of equal orders the earlier one first. -/
def layersInOrder (pipeline : Pipeline) : List Layer :=
  pipeline.layers.mergeSort fun a b => a.order ≤ b.order

def pagesOf (pipeline : Pipeline) (layer : LayerId) : List Page :=
  pipeline.pages.filter (·.layer = layer)

def findPage? (pipeline : Pipeline) (layer : LayerId) (assignment : Assignment) : Option Page :=
  pipeline.pages.find? (·.fits layer assignment)

/-! ## Valid assignments and orphans -/

def permits (pipeline : Pipeline) (key value : String) : Bool :=
  (pipeline.variableFor? key).any (·.values.contains value)

/-- The assignment gives a permitted value to each key of the layer, and mentions no more keys than
the layer has. -/
def isValidFor (pipeline : Pipeline) (layer : Layer) (assignment : Assignment) : Bool :=
  assignment.size = layer.variableKeys.length &&
    layer.variableKeys.all fun key => (assignment[key]?).any (pipeline.permits key)

/-- The page's assignment does not fit its layer, or the layer is gone. -/
def isOrphan (pipeline : Pipeline) (page : Page) : Bool :=
  match pipeline.layer? page.layer with
  | none => true
  | some layer => !pipeline.isValidFor layer page.assignment

def orphans (pipeline : Pipeline) : List Page :=
  pipeline.pages.filter pipeline.isOrphan

/-! ## Validity -/

/-- Refuses the first variable with a bad key, a repeated key or bad values. -/
def checkVariables : List String → List Variable → Except PipelineError Unit
  | _, [] => .ok ()
  | seen, v :: rest => do
      checkKey v.key
      if v.key ∈ seen then throw (.duplicateVariableKey v.key)
      checkValues v.key v.values
      checkVariables (v.key :: seen) rest

/-- Refuses the first layer with a repeated name or an unknown variable. -/
def checkLayers (pipeline : Pipeline) : List String → List Layer → Except PipelineError Unit
  | _, [] => .ok ()
  | seen, layer :: rest => do
      if layer.name ∈ seen then throw (.duplicateLayerName layer.name)
      match layer.variableKeys.find? fun key => (pipeline.variableFor? key).isNone with
      | some key => throw (.unknownVariable key)
      | none => checkLayers pipeline (layer.name :: seen) rest

/-- Refuses the first page with the layer and assignment of an earlier one. -/
def checkPages : List (LayerId × Assignment) → List Page → Except PipelineError Unit
  | _, [] => .ok ()
  | seen, page :: rest =>
      if (page.layer, page.assignment) ∈ seen then
        .error (.duplicatePage page.layer.text page.assignment)
      else checkPages ((page.layer, page.assignment) :: seen) rest

def validate (pipeline : Pipeline) : Except PipelineError Unit := do
  checkVariables [] pipeline.vars
  pipeline.checkLayers [] pipeline.layers
  checkPages [] pipeline.pages

/-! ## Looking up what an edit names -/

/-- The variable with a key, which must exist. -/
def needVariable (key : String) : PipelineEdit Variable := do
  match (← get).variableFor? key with
  | some found => return found
  | none => throw (.unknownVariable key)

/-- The layer with an identity, which must exist. -/
def needLayer (id : LayerId) : PipelineEdit Layer := do
  match (← get).layer? id with
  | some layer => return layer
  | none => throw (.unknownLayer id.text)

/-- The page with an identity, which must exist. -/
def needPage (id : PageId) : PipelineEdit Page := do
  match (← get).page? id with
  | some page => return page
  | none => throw (.unknownPage id.text)

def updateVariable (pipeline : Pipeline) (key : String) (change : Variable → Variable) : Pipeline :=
  { pipeline with
    vars := Sequence.updateFirst (·.key = key) change pipeline.vars }

def updateLayer (pipeline : Pipeline) (id : LayerId) (change : Layer → Layer) : Pipeline :=
  { pipeline with layers := Sequence.updateFirst (·.id = id) change pipeline.layers }

def updatePage (pipeline : Pipeline) (id : PageId) (change : Page → Page) : Pipeline :=
  { pipeline with pages := Sequence.updateFirst (·.id = id) change pipeline.pages }

/-! ## Page names -/

/-- The page with the name that its layer gives it now; an orphan keeps its name. -/
def refreshedPage (pipeline : Pipeline) (page : Page) : Page :=
  match pipeline.layer? page.layer with
  | some layer =>
      if pipeline.isValidFor layer page.assignment then
        { page with name := layer.pageName page.assignment }
      else page
  | none => page

/-- The pipeline with the names of all pages that are no orphans brought up to date. -/
def refreshPageNames (pipeline : Pipeline) : Pipeline :=
  { pipeline with pages := pipeline.pages.map pipeline.refreshedPage }

end Pipeline
end DesignTokens
