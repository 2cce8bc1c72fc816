import DesignTokens.Archive.Tar
import DesignTokens.Project.Build

/-!
# Bundles

The files of a build in one archive, a folder for each platform. A file whose path could lead out of
the folder that the bundle is unpacked into is refused.
-/

namespace DesignTokens
namespace Artifact

/-- The path of a file in a bundle or below an output directory: a plain path of the platform and
the file's name. -/
def path (artifact : Artifact) : Except ProjectError String :=
  let path := artifact.platform ++ "/" ++ artifact.fileName
  if UnixPath.isContained path ∧ artifact.platform ≠ "" ∧ artifact.fileName ≠ "" then .ok path
  else .error (.unsafePath path)

end Artifact

namespace Bundle

def add (artifact : Artifact) : Edit ProjectError Tar.Archive Unit := do
  let path ← Edit.check artifact.path
  Edit.onPart id (fun archive _ => archive) .file (Tar.Archive.append path artifact.content)

/-- Adds files to a bundle in order. A refused file ends this; the files before it stay. -/
def addAll : List Artifact → Edit ProjectError Tar.Archive Unit
  | [] => pure ()
  | artifact :: rest => do
      add artifact
      addAll rest

/-- What is in the bundle of some files: all of them, or those before the first refused one. -/
def archive (artifacts : List Artifact) : Tar.Archive :=
  (addAll artifacts).stateAfter .empty

def outcome (artifacts : List Artifact) : Except ProjectError Unit :=
  (addAll artifacts).result .empty

end Bundle
end DesignTokens
