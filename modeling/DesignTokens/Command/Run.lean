import DesignTokens.Command.Arguments
import DesignTokens.Command.Host
import DesignTokens.Project.Bundle

/-!
# Running commands

What each command does on a host. Files of a build are written only when every one of them has a
path below the output directory.
-/

namespace DesignTokens
namespace Command

variable {m : Type → Type} [Monad m] [Host m]

abbrev Action (m : Type → Type) (α : Type) := ExceptT ProjectError m α

def useFiles {α : Type} (use : m (Except FileError α)) : Action m α :=
  ExceptT.mk do return (← use).mapError .file

def orFail {α : Type} (answer : Except ProjectError α) : Action m α :=
  ExceptT.mk (pure answer)

/-! ## Files -/

def loadProject (path : String) : Action m Project := do
  orFail (Project.parse (← useFiles (Host.readText path)))

def saveProject (project : Project) (path : String) : Action m Unit :=
  useFiles (Host.write path (.text project.text))

/-- Makes a directory unless there is one. -/
def ensureDirectory (path : String) : m (Except FileError Unit) := do
  match ← Host.makeDirectory path with
  | .ok () => return .ok ()
  | .error e => return if ← Host.isDirectory path then .ok () else .error e

/-- Makes the first of several directories, each followed by the one around it, together with the
missing ones among these. -/
def makeDirectories : List String → m (Except FileError Unit)
  | [] => return .ok ()
  | path :: around => do
      match ← ensureDirectory path with
      | .error .notFound =>
          match ← makeDirectories around with
          | .ok () => ensureDirectory path
          | .error e => return .error e
      | outcome => return outcome

/-- Makes the directory around a path together with the missing directories around that. -/
def makeParents (path : String) : Action m Unit :=
  useFiles (makeDirectories (UnixPath.parents path))

/-- Writes files at paths below a directory, and answers with the paths written. -/
def writeAll (directory : String) : List (Artifact × String) → Action m (List String)
  | [] => pure []
  | (artifact, relative) :: rest => do
      let path := UnixPath.join directory relative
      makeParents path
      useFiles (Host.write path (.text artifact.content))
      return path :: (← writeAll directory rest)

def writeArtifacts (artifacts : List Artifact) (directory : String) : Action m (List String) := do
  let paths ← orFail (artifacts.mapM Artifact.path)
  writeAll directory (artifacts.zip paths)

def writeBundle (artifacts : List Artifact) (path : String) : Action m Unit := do
  makeParents path
  useFiles (Host.write path (.archive (Bundle.archive artifacts)))
  orFail (Bundle.outcome artifacts)

/-! ## Output -/

def printLine (text : String) : Action m Unit :=
  ExceptT.lift (Host.print (text ++ "\n"))

def reportLine (text : String) : Action m Unit :=
  ExceptT.lift (Host.report (text ++ "\n"))

def printJson (value : Json) : Action m Unit :=
  printLine value.pretty

def configLine (config : BuildConfig) : String :=
  config.name ++ "\t" ++
    Text.join " " (config.selections.pairs.map fun (key, value) => key ++ "=" ++ value)

def viewJson (layer : String) (config : BuildConfig) (view : EffectiveTokens) : Json :=
  .object [("layer", .string layer), ("config", .string config.name),
    ("tokens", view.tree.toJson),
    ("provenance", .object (view.origins.toList.map fun (path, provenance) =>
      (path, provenance.toJson)))]

/-! ## Commands -/

/-- Builds a project into a directory and, if asked, a bundle. -/
def runBuild (project : Project) (out : String) (bundle platform config : Option String) :
    Action m Unit := do
  let report ← orFail (project.buildFiltered config platform)
  for reported in report.defects do
    reportLine ("warning: [" ++ reported.config ++ "] " ++ reported.defect.message)
  for path in ← writeArtifacts report.artifacts out do
    printLine path
  if let some path := bundle then
    writeBundle report.artifacts path
    printLine path

def runTokens (project : Project) (layer : String) (selections : List (String × String)) :
    Action m Unit := do
  let config ← orFail (project.configWith (Assignment.ofPairs selections))
  let view ← orFail (project.effective layer config)
  for defect in view.defects do
    reportLine ("warning: " ++ defect.message)
  printJson (viewJson layer config view)

def reportWarnings (warnings : List Interchange.ImportWarning) : Action m Unit := do
  for warning in warnings do
    reportLine ("warning: " ++ warning.message)

/-- Imports platforms, into a project if asked, and shows them. -/
def runImport (config : String) (into : Option String) : Action m Unit := do
  let text ← useFiles (Host.readText config)
  let platforms ← match into with
    | some path => do
        let project ← loadProject path
        let imported ← orFail ((Interchange.importText text).mapError .interchange)
        reportWarnings imported.warnings
        saveProject (project.withImported imported) path
        pure imported.platforms
    | none => do
        let imported ← orFail ((Interchange.importText text).mapError .interchange)
        reportWarnings imported.warnings
        pure imported.platforms
  printJson (.array (platforms.map (·.toJson)))

def run : Command → Action m Unit
  | .build path out bundle platform config => do
      runBuild (← loadProject path) out bundle platform config
  | .configs path => do
      for config in (← loadProject path).buildConfigs do
        printLine (configLine config)
  | .tokens path layer selections => do runTokens (← loadProject path) layer selections
  | .importPlatforms config into => runImport config into
  | .exportPlatforms path => do printJson (← loadProject path).exportPlatforms

/-! ## The program -/

def usage : String :=
  "Layered design-token pipeline\n\n" ++
  "Usage: strata [-v] <COMMAND>\n\n" ++
  "Commands:\n" ++
  "  build <PROJECT> [-o <DIR>] [--bundle <FILE>] [--platform <NAME>] [--config <NAME>]\n" ++
  "  configs <PROJECT>\n" ++
  "  tokens <PROJECT> --layer <NAME> [--config <KEY=VALUE>]...\n" ++
  "  import <CONFIG> [--into <PROJECT>]\n" ++
  "  export <PROJECT>\n"

/-- Runs the program with its arguments and gives its exit code: one when the command fails, two
when the arguments make no command. -/
def program (arguments : List String) : m UInt32 := do
  match Arguments.parse arguments with
  | .error e =>
      Host.report ("error: " ++ e.message ++ "\n\n" ++ usage)
      return 2
  | .ok .help =>
      Host.print usage
      return 0
  | .ok (.command command) =>
      match ← (run command : Action m Unit).run with
      | .ok () => return 0
      | .error e =>
          Host.report ("error: " ++ e.message ++ "\n")
          return 1

end Command
end DesignTokens
