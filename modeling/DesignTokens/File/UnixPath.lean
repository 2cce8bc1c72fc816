import DesignTokens.Text.Split

/-!
# Unix paths

A path is a text of parts between slashes. Empty parts and parts `.` lead nowhere, so they are no
components; only a slash or a part `.` at the very start is one.
-/

namespace DesignTokens
namespace UnixPath

inductive Component where
  | root
  | here
  | up
  | named (name : String)
deriving DecidableEq, Repr

/-- The component that a part names, if any. -/
def component? (part : String) : Option Component :=
  if part = "" ∨ part = "." then none
  else if part = ".." then some .up
  else some (.named part)

def parts (path : String) : List String :=
  Text.split '/' path

def named (path : String) : List String :=
  (parts path).filter fun part => (component? part).isSome

/-- The component that only the start of a path can be, and the parts after it. -/
def anchored : List String → Option Component × List String
  | "" :: second :: rest => (some .root, second :: rest)
  | "." :: rest => (some .here, rest)
  | parts => (none, parts)

def components (path : String) : List Component :=
  let (anchor, body) := anchored (parts path)
  anchor.toList ++ body.filterMap component?

namespace Component

def isNamed : Component → Bool
  | .named _ => true
  | _ => false

def text : Component → String
  | .root => ""
  | .here => "."
  | .up => ".."
  | .named name => name

end Component

/-- Every component is a plain name, so that the path stays below whatever directory it is taken
from. -/
def isContained (path : String) : Bool :=
  (components path).all Component.isNamed

def ofAnchored : Option Component → List String → String
  | some .root, [] => "/"
  | anchor, body => Text.join "/" ((anchor.map Component.text).toList ++ body)

/-- Parts, the last one first, cut off after each of their components, the longest cut first. -/
def cuts : List String → List (List String)
  | [] => []
  | last :: before =>
      if (component? last).isSome then (last :: before).reverse :: cuts before else cuts before

/-- The path up to each of its components, the longest first. What stands between two components
stays as it is written. -/
def ancestors (path : String) : List String :=
  let (anchor, body) := anchored (parts path)
  (cuts body.reverse).map (ofAnchored anchor) ++ anchor.toList.map fun _ => ofAnchored anchor []

/-- The directories around a path, the nearest first: none around the root or an empty path. -/
def parents (path : String) : List String :=
  (ancestors path).drop 1

def join (directory path : String) : String :=
  if directory = "" ∨ directory.toList.getLast? = some '/' then directory ++ path
  else directory ++ "/" ++ path

end UnixPath
end DesignTokens
