import DesignTokens.Interchange.Names

/-!
# Exporting configurations

Platforms, sources and includes as a configuration for exchange. Files that are not enabled are left
out, and so are matchers of transforms, for which a configuration has no place.
-/

namespace DesignTokens
namespace Interchange

def exportFile (file : OutputFile) : Json :=
  .object [("destination", .string file.fileName), ("format", .string (formatName file.format))]

def exportPlatform (platform : Platform) : Json :=
  let transforms := platform.transforms.filterMap fun transform => transformName? transform.kind
  .object ([("transforms", .ofTexts transforms)] ++
    (platform.namePrefix.toList.map fun text => ("prefix", .string text)) ++
    (platform.baseFontSize.toList.map fun size => ("basePxFontSize", .ofFloat size)) ++
    [("files", .array (platform.enabledOutputs.map exportFile))])

def exportJson (platforms : List Platform) (source includes : List String) : Json :=
  let entries := Entries.ofPairs (platforms.map fun platform =>
    (platform.name, exportPlatform platform))
  .object ([("source", .ofTexts source)] ++
    (if includes.isEmpty then [] else [("include", .ofTexts includes)]) ++
    [("platforms", .object entries)])

end Interchange
end DesignTokens
