import DesignTokens.Output.Format

/-!
# Platforms

A platform is a target of a build: the transforms for its tokens, and the files that are written
for it.
-/

namespace DesignTokens

structure OutputFile where
  fileName : String
  format : OutputFormat
  enabled : Bool
deriving DecidableEq, Repr

namespace OutputFile

def toJson (file : OutputFile) : Json :=
  .object [("fileName", .string file.fileName), ("format", .string file.format.name),
    ("enabled", .bool file.enabled)]

def fieldNames : List String := ["fileName", "format", "enabled"]

def outline : Json.Outline :=
  .plainRecord fieldNames

def ofJson (value : Json) : Json.Decoded OutputFile := do
  let fields ← Json.Decode.record fieldNames value
  return { fileName := ← Json.Decode.field fields "fileName" Json.Decode.text
           format := ← Json.Decode.field fields "format" (Json.Decode.choice OutputFormat.ofName?)
           enabled := ← Json.Decode.fieldOr fields "enabled" true Json.Decode.bool }

end OutputFile

structure Platform where
  name : String
  namePrefix : Option String := none
  baseFontSize : Option Float := none
  transforms : List Transform := []
  outputs : List OutputFile := []
deriving DecidableEq

namespace Platform

def formatOfGroup (group : String) : OutputFormat :=
  if group = "css" then .cssVariables
  else if group = "scss" then .scssVariables
  else if group = "less" then .lessVariables
  else if group = "js" then .jsModule
  else if group = "android" then .androidXml
  else if group = "ios" then .iosSwift
  else .jsonNested

/-- A platform with the transforms of a group and its usual file. -/
def preset (group : String) : Platform :=
  let format := formatOfGroup group
  { name := group
    transforms := (Transform.group? group).getD []
    outputs := [⟨format.defaultFileName, format, true⟩] }

/-- The base font size, sixteen when the platform sets none. -/
def base (platform : Platform) : Float :=
  platform.baseFontSize.getD Value.defaultBaseFontSize

def enabledOutputs (platform : Platform) : List OutputFile :=
  platform.outputs.filter (·.enabled)

def toJson (platform : Platform) : Json :=
  .object ([("name", .string platform.name)] ++
    (platform.namePrefix.toList.map fun text => ("prefix", .string text)) ++
    (platform.baseFontSize.toList.map fun size => ("baseFontSize", .ofFloat size)) ++
    [("transforms", .array (platform.transforms.map (·.toJson))),
      ("outputs", .array (platform.outputs.map (·.toJson)))])

def fieldNames : List String := ["name", "prefix", "baseFontSize", "transforms", "outputs"]

def fieldOutline (name : String) : Json.Outline :=
  if name = "transforms" then .list Transform.outline
  else if name = "outputs" then .list OutputFile.outline
  else .whole

def outline : Json.Outline :=
  .record (fieldNames.map fun name => (name, fieldOutline name))

def ofJson (value : Json) : Json.Decoded Platform := do
  let fields ← Json.Decode.record fieldNames value
  return { name := ← Json.Decode.field fields "name" Json.Decode.text
           namePrefix := ← Json.Decode.fieldOption fields "prefix" Json.Decode.text
           baseFontSize := ← Json.Decode.fieldOption fields "baseFontSize" Json.Decode.float
           transforms :=
             ← Json.Decode.fieldOr fields "transforms" [] (Json.Decode.list Transform.ofJson)
           outputs :=
             ← Json.Decode.fieldOr fields "outputs" [] (Json.Decode.list OutputFile.ofJson) }

end Platform
end DesignTokens
