import DesignTokens.Interchange.Names
import DesignTokens.Json.Parser

/-!
# Importing configurations

Platforms, sources and includes of an exchanged configuration. Import is lenient: what it cannot use
is dropped or replaced by a default, and each such entry is reported as a warning. It fails only
when the document is no object, or has `platforms` that are no object.
-/

namespace DesignTokens
namespace Interchange

inductive ImportError where
  | malformed
  | rootNotObject
  | platformsNotObject
deriving DecidableEq, Repr

def ImportError.kind : ImportError → String
  | .malformed => "Json"
  | .rootNotObject => "RootNotObject"
  | .platformsNotObject => "PlatformsNotObject"

def ImportError.message : ImportError → String
  | .malformed => "Config is not valid JSON: malformed document"
  | .rootNotObject => "Config root must be a JSON object"
  | .platformsNotObject => "'platforms' must be an object keyed by platform name"

inductive ImportFault where
  | globNotText (key : String)
  | globsNotList (key : String)
  | transformsAndGroup
  | unknownTransform (value : Json)
  | transformsNotList (value : Json)
  | unknownGroup (group : String)
  | noTransforms (preset : String)
  | fileNotObject (value : Json)
  | unknownFormat (name : String)
  | noFormat
  | noDestination (fileName : String)
  | noFiles (fileNames : List String)
  | platformNotObject
  | noPlatforms
  | noUsablePlatforms
deriving DecidableEq

def ImportFault.message : ImportFault → String
  | .globNotText key => "ignored non-string entry in '" ++ key ++ "'"
  | .globsNotList key => "'" ++ key ++ "' must be an array of globs; ignored"
  | .transformsAndGroup => "both 'transforms' and 'transformGroup' given; using 'transforms'"
  | .unknownTransform value => "unsupported transform " ++ value.compact ++ " dropped"
  | .transformsNotList value => "'transforms' must be an array, got " ++ value.compact
  | .unknownGroup group => "unsupported transform group '" ++ group ++ "' dropped"
  | .noTransforms preset =>
      "no transforms or transformGroup given; using '" ++ preset ++ "' transforms"
  | .fileNotObject value => "ignored file entry " ++ value.compact
  | .unknownFormat name => "unsupported format '" ++ name ++ "' replaced by nested JSON"
  | .noFormat => "file without format uses nested JSON"
  | .noDestination fileName => "file without destination written to '" ++ fileName ++ "'"
  | .noFiles fileNames =>
      "no files given; added default output '" ++ Text.join ", " fileNames ++ "'"
  | .platformNotObject => "platform must be an object; skipped"
  | .noPlatforms => "no platforms given; added default 'css' platform"
  | .noUsablePlatforms => "no usable platforms; added default 'css' platform"

structure ImportWarning where
  platform : Option String
  fault : ImportFault
deriving DecidableEq

namespace ImportWarning

def message (warning : ImportWarning) : String :=
  match warning.platform with
  | some name => "platform '" ++ name ++ "': " ++ warning.fault.message
  | none => warning.fault.message

def toJson (warning : ImportWarning) : Json :=
  .object ((warning.platform.toList.map fun name => ("platform", .string name)) ++
    [("message", .string warning.fault.message)])

end ImportWarning

structure Imported where
  platforms : List Platform
  source : List String
  includes : List String
  warnings : List ImportWarning
deriving DecidableEq

abbrev Reported (α : Type) := α × List ImportFault

/-! ## Globs -/

/-- The texts of a list; each other item is a fault. -/
def readGlobItems (key : String) : List Json → Reported (List String)
  | [] => ([], [])
  | item :: rest =>
      let (globs, faults) := readGlobItems key rest
      match item.string? with
      | some glob => (glob :: globs, faults)
      | none => (globs, .globNotText key :: faults)

/-- The globs under a key: a list of texts, or one text. -/
def readGlobs (root : Entries Json) (key : String) : Reported (List String) :=
  match Entries.get? root key with
  | none => ([], [])
  | some (.array items) => readGlobItems key items
  | some (.string glob) => ([glob], [])
  | some _ => ([], [.globsNotList key])

/-! ## Files -/

/-- The format of a file, nested JSON when it has none that is known. -/
def readFormat (file : Entries Json) : Reported OutputFormat :=
  match (Entries.get? file "format").bind Json.string? with
  | some name =>
      match formatNamed? name with
      | some format => (format, [])
      | none => (.jsonNested, [.unknownFormat name])
  | none => (.jsonNested, [.noFormat])

/-- The name of a file, the usual one of its format when it has none. -/
def readDestination (file : Entries Json) (format : OutputFormat) : Reported String :=
  match ((Entries.get? file "destination").bind Json.string?).filter (· ≠ "") with
  | some destination => (destination, [])
  | none => (format.defaultFileName, [.noDestination format.defaultFileName])

def readFile : Json → Reported (Option OutputFile)
  | .object file =>
      let (format, formatFaults) := readFormat file
      let (fileName, nameFaults) := readDestination file format
      (some ⟨fileName, format, true⟩, formatFaults ++ nameFaults)
  | value => (none, [.fileNotObject value])

def readFiles : List Json → Reported (List OutputFile)
  | [] => ([], [])
  | item :: rest =>
      let (file?, faults) := readFile item
      let (files, later) := readFiles rest
      (file?.toList ++ files, faults ++ later)

/-! ## Transforms -/

def readTransformNames : List Json → Reported (List Transform)
  | [] => ([], [])
  | item :: rest =>
      let (transforms, faults) := readTransformNames rest
      match item.string?.bind transformNamed? with
      | some transform => (transform :: transforms, faults)
      | none => (transforms, .unknownTransform item :: faults)

/-- The transforms that a platform asks for: by their names, or by a group. Nothing when it asks for
none at all. -/
def readTransforms (config : Entries Json) (group : Option String) :
    Reported (Option (List Transform)) :=
  match Entries.get? config "transforms" with
  | some (.array items) =>
      let (transforms, faults) := readTransformNames items
      (some transforms, (if group.isSome then [.transformsAndGroup] else []) ++ faults)
  | some value => (some [], [.transformsNotList value])
  | none =>
      match group with
      | none => (none, [])
      | some name =>
          match transformsNamed? name with
          | some transforms => (some transforms, [])
          | none => (some [], [.unknownGroup name])

def defaultTransforms (files : List OutputFile) : Reported (List Transform) :=
  let preset := (files.head?.map fun file => presetOfFormat file.format).getD "css"
  ((transformsNamed? preset).getD [], [.noTransforms preset])

/-! ## Platforms -/

def defaultFiles (group : Option String) : Reported (List OutputFile) :=
  let files := (Platform.preset ((group.bind presetNamed?).getD "css")).outputs
  (files, [.noFiles (files.map (·.fileName))])

def readPlatform (name : String) (config : Entries Json) : Reported Platform :=
  let group := (Entries.get? config "transformGroup").bind Json.string?
  let (asked, askedFaults) := readTransforms config group
  let (files, fileFaults) :=
    readFiles (((Entries.get? config "files").bind Json.array?).getD [])
  let (transforms, transformFaults) :=
    match asked with
    | some transforms => (transforms, [])
    | none => defaultTransforms files
  let (outputs, outputFaults) := if files.isEmpty then defaultFiles group else (files, [])
  let size := Entries.get? config "basePxFontSize" <|> Entries.get? config "baseFontSize"
  ({ name := name
     namePrefix := (Entries.get? config "prefix").bind Json.string?
     baseFontSize := size.bind Json.float?
     transforms := transforms
     outputs := outputs },
    askedFaults ++ fileFaults ++ transformFaults ++ outputFaults)

/-- The platforms of an object, with their warnings. -/
def readPlatforms : List (String × Json) → List Platform × List ImportWarning
  | [] => ([], [])
  | (name, value) :: rest =>
      let (platforms, warnings) := readPlatforms rest
      match value with
      | .object config =>
          let (platform, faults) := readPlatform name config
          (platform :: platforms, faults.map (⟨some name, ·⟩) ++ warnings)
      | _ => (platforms, ⟨some name, .platformNotObject⟩ :: warnings)

/-- The platforms of a configuration, at least one. -/
def readPlatformEntry (root : Entries Json) :
    Except ImportError (List Platform × List ImportWarning) :=
  match Entries.get? root "platforms" with
  | none => .ok ([Platform.preset "css"], [⟨none, .noPlatforms⟩])
  | some (.object entries) =>
      let (platforms, warnings) := readPlatforms entries
      if platforms.isEmpty then
        .ok ([Platform.preset "css"], warnings ++ [⟨none, .noUsablePlatforms⟩])
      else .ok (platforms, warnings)
  | some _ => .error .platformsNotObject

def importJson : Json → Except ImportError Imported
  | .object root => do
      let (source, sourceFaults) := readGlobs root "source"
      let (includes, includeFaults) := readGlobs root "include"
      let (platforms, warnings) ← readPlatformEntry root
      return ⟨platforms, source, includes,
        (sourceFaults ++ includeFaults).map (⟨none, ·⟩) ++ warnings⟩
  | _ => .error .rootNotObject

def importText (text : String) : Except ImportError Imported :=
  match Json.parse text with
  | some value => importJson value
  | none => .error .malformed

end Interchange
end DesignTokens
