import DesignTokens.Project.Basic
import DesignTokens.Project.FileName

/-!
# Project builds

Building a project merges and resolves its tokens for each configuration, and transforms and writes
them for each platform. A build of some configurations and platforms gives the same files as the
full one: file names depend on how many configurations the project has, not on how many are built.
-/

namespace DesignTokens

structure Artifact where
  platform : String
  config : String
  fileName : String
  format : OutputFormat
  content : String
deriving DecidableEq, Repr

namespace Artifact

def toJson (artifact : Artifact) : Json :=
  .object [("platform", .string artifact.platform), ("config", .string artifact.config),
    ("fileName", .string artifact.fileName), ("format", .string artifact.format.name),
    ("content", .string artifact.content)]

end Artifact

structure ReportedDefect where
  config : String
  defect : Defect
deriving DecidableEq

namespace ReportedDefect

def toJson (reported : ReportedDefect) : Json :=
  .object (("config", .string reported.config) :: (reported.defect.toJson.object?.getD []))

end ReportedDefect

structure Report where
  artifacts : List Artifact
  defects : List ReportedDefect
deriving DecidableEq

namespace Report

def empty : Report := ⟨[], []⟩

/-- The build has no defects. -/
def isComplete (report : Report) : Bool :=
  report.defects.isEmpty

def append (first second : Report) : Report :=
  ⟨first.artifacts ++ second.artifacts, first.defects ++ second.defects⟩

/-- Several reports, one after another. -/
def concat (reports : List Report) : Report :=
  reports.foldr append empty

end Report

namespace Platform

def render (platform : Platform) (tokens : List ResolvedToken) (config : String)
    (multiple : Bool) : List Artifact :=
  let transformed := Transform.transformAll platform.transforms platform.base tokens
  platform.enabledOutputs.map fun output =>
    { platform := platform.name
      config := config
      fileName := FileName.forConfig output.fileName config multiple
      format := output.format
      content := output.format.render transformed platform.namePrefix platform.base }

end Platform

namespace Project

/-- The tokens of a configuration, resolved in the tree merged from all layers. -/
def resolveConfig (project : Project) (config : BuildConfig) : List ResolvedToken × List Defect :=
  let build := project.pipeline.buildTokens config
  (FlatToken.resolveAll build.tree.flatten build.tree Alias.defaultBudget, build.defects)

def buildConfig (project : Project) (platforms : List Platform) (multiple : Bool)
    (config : BuildConfig) : Report :=
  let (tokens, defects) := project.resolveConfig config
  { artifacts := platforms.flatMap fun platform => platform.render tokens config.name multiple
    defects := defects.map fun defect => ⟨config.name, defect⟩ }

/-- One platform in one configuration, whose name shows in a file name only at a placeholder. -/
def buildOne (project : Project) (config : BuildConfig) (platformName : String) :
    Except ProjectError Report := do
  return project.buildConfig [← project.platform platformName] false config

def chosenConfigs (project : Project) : Option String → Except ProjectError (List BuildConfig)
  | none => .ok project.buildConfigs
  | some name => (project.config name).map fun config => [config]

def chosenPlatforms (project : Project) : Option String → Except ProjectError (List Platform)
  | none => .ok project.platforms
  | some name => (project.platform name).map fun platform => [platform]

/-- The named configuration and platform, or all of them. -/
def buildFiltered (project : Project) (configName platformName : Option String) :
    Except ProjectError Report := do
  let configs ← project.chosenConfigs configName
  let platforms ← project.chosenPlatforms platformName
  let multiple := decide (1 < project.buildConfigs.length)
  return .concat (configs.map (project.buildConfig platforms multiple))

def buildAll (project : Project) : Except ProjectError Report :=
  project.buildFiltered none none

end Project
end DesignTokens
