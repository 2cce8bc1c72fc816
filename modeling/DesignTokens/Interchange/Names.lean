import DesignTokens.Output.Platform

/-!
# Interchange names

The names that exchanged configurations use for transforms, formats and groups of transforms.
Reading accepts every name of a table, and writing uses the first name of what is written.
-/

namespace DesignTokens
namespace Interchange

def transformNames : List (String × TransformKind) :=
  [("name/camel", .name .camel), ("name/kebab", .name .kebab), ("name/snake", .name .snake),
    ("name/constant", .name .constant), ("name/pascal", .name .pascal),
    ("name/cti/camel", .name .camel), ("name/cti/kebab", .name .kebab),
    ("name/cti/snake", .name .snake), ("name/cti/constant", .name .constant),
    ("name/cti/pascal", .name .pascal), ("color/hex", .color .hex), ("color/rgb", .color .rgb),
    ("color/css", .color .rgba), ("color/hsl", .color .hsl), ("color/hex8", .color .hex),
    ("color/hex8android", .color .hex), ("color/hsl-4", .color .hsl),
    ("color/UIColorSwift", .color .rgba), ("size/px", .size .px), ("size/rem", .size .rem),
    ("size/em", .size .em), ("size/pt", .size .pt), ("size/pxToRem", .size .rem),
    ("size/remToPx", .size .px), ("size/remToPt", .size .pt), ("time/seconds", .time .s),
    ("time/milliseconds", .time .ms)]

def formatNames : List (String × OutputFormat) :=
  [("css/variables", .cssVariables), ("scss/variables", .scssVariables),
    ("less/variables", .lessVariables), ("json/nested", .jsonNested), ("json/flat", .jsonFlat),
    ("javascript/es6", .jsModule), ("typescript/es6-declarations", .tsDeclarations),
    ("android/resources", .androidXml), ("ios-swift/class.swift", .iosSwift),
    ("json", .jsonNested), ("javascript/module-flat", .jsModule), ("android/colors", .androidXml),
    ("android/dimens", .androidXml), ("ios-swift/enum.swift", .iosSwift)]

/-- The names of groups of transforms, each with the group that it stands for. -/
def groupNames : List (String × String) :=
  [("css", "css"), ("scss", "scss"), ("less", "less"), ("js", "js"), ("web", "js"),
    ("android", "android"), ("compose", "android"), ("ios", "ios"), ("ios-swift", "ios"),
    ("flutter", "js")]

def meaning? {α : Type} (table : List (String × α)) (name : String) : Option α :=
  (table.find? (·.1 = name)).map (·.2)

def nameOf? {α : Type} [DecidableEq α] (table : List (String × α)) (a : α) : Option String :=
  (table.find? (·.2 = a)).map (·.1)

def transformNamed? (name : String) : Option Transform :=
  (meaning? transformNames name).map fun kind => { kind := kind }

def transformName? (kind : TransformKind) : Option String :=
  nameOf? transformNames kind

def formatNamed? (name : String) : Option OutputFormat :=
  meaning? formatNames name

def formatName (format : OutputFormat) : String :=
  (nameOf? formatNames format).getD "json/nested"

def presetNamed? (group : String) : Option String :=
  meaning? groupNames group

def transformsNamed? (group : String) : Option (List Transform) :=
  (presetNamed? group).bind Transform.group?

def presetOfFormat : OutputFormat → String
  | .scssVariables => "scss"
  | .lessVariables => "less"
  | .jsModule => "js"
  | .tsDeclarations => "js"
  | .androidXml => "android"
  | .iosSwift => "ios"
  | .cssVariables => "css"
  | .jsonNested => "css"
  | .jsonFlat => "css"

end Interchange
end DesignTokens
