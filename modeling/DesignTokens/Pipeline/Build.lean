import DesignTokens.Pipeline.BuildConfig
import DesignTokens.Token.Merge

/-!
# Builds

A build merges, layer by layer in order, the page that each layer has for a configuration. A layer
without such a page adds nothing; when the layer is required, this is recorded as a defect, and the
other layers are merged all the same.
-/

namespace DesignTokens

inductive DefectReason where
  | missingPage (assignment : Assignment)
  | unselectedVariable (key : String)
deriving DecidableEq

namespace DefectReason

def message : DefectReason → String
  | .missingPage assignment => "missing page for " ++ assignment.describe
  | .unselectedVariable key => "no value selected for variable '" ++ key ++ "'"

def toJson : DefectReason → Json
  | .missingPage assignment =>
      .object [("kind", .string "missingPage"), ("assignment", assignment.toJson)]
  | .unselectedVariable key =>
      .object [("kind", .string "unselectedVariable"), ("key", .string key)]

end DefectReason

structure Defect where
  layerId : LayerId
  layerName : String
  reason : DefectReason
deriving DecidableEq

namespace Defect

def message (defect : Defect) : String :=
  "layer '" ++ defect.layerName ++ "': " ++ defect.reason.message

def toJson (defect : Defect) : Json :=
  .object [("layerId", .string defect.layerId.text), ("layerName", .string defect.layerName),
    ("reason", defect.reason.toJson)]

end Defect

/-- The pages that a build merges, each with its layer, and the defects found on the way. -/
structure Selection where
  pages : List (Layer × Page)
  defects : List Defect

structure Build where
  tree : Tree
  defects : List Defect
deriving DecidableEq

namespace Build

/-- The build has no defects. -/
def isComplete (build : Build) : Bool :=
  build.defects.isEmpty

end Build

namespace Layer

/-- The first key of the layer that a configuration selects no value for. -/
def unselectedKey? (layer : Layer) (config : BuildConfig) : Option String :=
  layer.variableKeys.find? fun key => !config.selections.contains key

end Layer

namespace Pipeline

/-- The page of a layer for a configuration, or the reason why there is none. -/
def pageFor (pipeline : Pipeline) (config : BuildConfig) (layer : Layer) :
    Except DefectReason Page :=
  match layer.unselectedKey? config with
  | some key => .error (.unselectedVariable key)
  | none =>
      let assignment := (config.project layer).getD .empty
      match pipeline.findPage? layer.id assignment with
      | some page => .ok page
      | none => .error (.missingPage assignment)

def selectFrom (pipeline : Pipeline) (config : BuildConfig) : List Layer → Selection
  | [] => ⟨[], []⟩
  | layer :: rest =>
      let later := selectFrom pipeline config rest
      match pipeline.pageFor config layer with
      | .ok page => { later with pages := (layer, page) :: later.pages }
      | .error reason =>
          if layer.required then
            { later with defects := ⟨layer.id, layer.name, reason⟩ :: later.defects }
          else later

/-- The layers in order up to and including the one with an identity, all of them without it. -/
def upTo (id : LayerId) : List Layer → List Layer
  | [] => []
  | layer :: rest => if layer.id = id then [layer] else layer :: upTo id rest

def select (pipeline : Pipeline) (config : BuildConfig) : Selection :=
  pipeline.selectFrom config pipeline.layersInOrder

def selectUpTo (pipeline : Pipeline) (config : BuildConfig) (id : LayerId) : Selection :=
  pipeline.selectFrom config (upTo id pipeline.layersInOrder)

end Pipeline

namespace Selection

def trees (selection : Selection) : List Tree :=
  selection.pages.map fun (_, page) => page.tokens.toTree

def build (selection : Selection) : Build where
  tree := selection.trees.foldl Tree.merge .empty
  defects := selection.defects

end Selection

namespace Pipeline

def buildTokens (pipeline : Pipeline) (config : BuildConfig) : Build :=
  (pipeline.select config).build

/-- The layers up to and including one merged for a configuration. -/
def buildTokensUpTo (pipeline : Pipeline) (config : BuildConfig) (id : LayerId) :
    Except PipelineError Build :=
  if (pipeline.layer? id).isNone then .error (.unknownLayer id.text)
  else .ok (pipeline.selectUpTo config id).build

end Pipeline
end DesignTokens
