import DesignTokens.Interchange.Export
import DesignTokens.Pipeline.Document
import DesignTokens.Pipeline.Effective
import DesignTokens.Project.Error

/-!
# Projects

A project is a pipeline together with the platforms that it is built for. Its document is one
object with the fields of the pipeline beside the project's own.
-/

namespace DesignTokens

structure Project where
  name : String
  pipeline : Pipeline := .empty
  platforms : List Platform := []
  source : List String := []
  includes : List String := []
deriving DecidableEq

namespace Project

/-- A project of no layers for style sheets. -/
def new (name : String) : Project where
  name := name
  platforms := [Platform.preset "css"]

/-! ## Validity -/

/-- Checks the pipeline, and that no two platforms have one name. -/
def validate (project : Project) : Except ProjectError Unit :=
  match project.pipeline.validate with
  | .error e => .error (.pipeline e)
  | .ok () =>
      match Sequence.firstRepeated? [] (project.platforms.map (·.name)) with
      | some name => .error (.duplicatePlatform name)
      | none => .ok ()

/-! ## Documents -/

/-- A list of texts as a field that is left out when it is empty. -/
def textsField (name : String) (texts : List String) : List (String × Json) :=
  if texts.isEmpty then [] else [(name, .ofTexts texts)]

def toJson (project : Project) : Json :=
  .object ([("name", .string project.name)] ++ project.pipeline.toFields ++
    [("platforms", .array (project.platforms.map (·.toJson)))] ++
    textsField "source" project.source ++ textsField "include" project.includes)

def outline : Json.Outline :=
  .object [("platforms", .list Platform.outline)]

/-- The project of an object, not validated. -/
def ofJson (value : Json) : Json.Decoded Project := do
  let fields ← Json.Decode.fields value
  let texts := Json.Decode.list Json.Decode.text
  return { name := ← Json.Decode.field fields "name" Json.Decode.text
           platforms :=
             ← Json.Decode.fieldOr fields "platforms" [] (Json.Decode.list Platform.ofJson)
           source := ← Json.Decode.fieldOr fields "source" [] texts
           includes := ← Json.Decode.fieldOr fields "include" [] texts
           pipeline := ← Pipeline.ofFields fields }

/-- The project of a value, validated. -/
def load (value : Json) : Except ProjectError Project :=
  match ofJson value with
  | .error e => .error (.malformed e)
  | .ok project => project.validate.map fun _ => project

/-- The project of the text of a document, validated. -/
def parse (text : String) : Except ProjectError Project :=
  match Json.read outline text with
  | .error e => .error (.malformed e)
  | .ok value => load value

def text (project : Project) : String :=
  project.toJson.pretty ++ "\n"

/-! ## Platforms and configurations -/

def platform (project : Project) (name : String) : Except ProjectError Platform :=
  match project.platforms.find? (·.name = name) with
  | some platform => .ok platform
  | none => .error (.unknownPlatform name)

def buildConfigs (project : Project) : List BuildConfig :=
  project.pipeline.buildConfigs

def config (project : Project) (name : String) : Except ProjectError BuildConfig :=
  match project.buildConfigs.find? (·.name = name) with
  | some config => .ok config
  | none => .error (.unknownConfig name)

/-- A choice of a value is allowed: it is one of the values of a variable in use. -/
def offers (inUse : List Variable) (choice : String × String) : Bool :=
  match inUse.find? (·.key = choice.1) with
  | some found => found.values.contains choice.2
  | none => false

/-- The configuration that takes the given values, and each other variable's default. -/
def configWith (project : Project) (overrides : Assignment) : Except ProjectError BuildConfig :=
  let inUse := project.pipeline.variablesInUse
  match overrides.pairs.find? fun choice => !offers inUse choice with
  | some (key, value) => .error (.unknownConfig (key ++ "=" ++ value))
  | none =>
      let defaults := project.pipeline.defaultConfig.selections
      .ok (.ofPairs (inUse.filterMap fun v =>
        (overrides[v.key]? <|> defaults[v.key]?).map fun value => (v.key, value)))

def effective (project : Project) (layerName : String) (config : BuildConfig) :
    Except ProjectError EffectiveTokens :=
  match project.pipeline.layerNamed? layerName with
  | none => .error (.pipeline (.unknownLayer layerName))
  | some layer => (project.pipeline.effective layer.id config).mapError .pipeline

/-! ## Interchange -/

/-- The project with the platforms of an exchanged configuration in place of its own. -/
def withImported (project : Project) (imported : Interchange.Imported) : Project :=
  { project with
    platforms := imported.platforms, source := imported.source, includes := imported.includes }

/-- Replaces the platforms by those of the text of an exchanged configuration. -/
def importPlatforms (text : String) : Edit ProjectError Project (List Interchange.ImportWarning) :=
  fun project =>
    match Interchange.importText text with
    | .error e => .error (.interchange e) project
    | .ok imported => .ok imported.warnings (project.withImported imported)

def exportPlatforms (project : Project) : Json :=
  Interchange.exportJson project.platforms project.source project.includes

end Project
end DesignTokens
