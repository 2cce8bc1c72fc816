import Std.Data.ExtTreeMap
import DesignTokens.Archive.Tar
import DesignTokens.Archive.Gzip

/-!
# File systems

A tree of directories and files without links. A path is followed part by part: every part is taken
from a directory, an empty part and a part `.` stay there, and a part `..` goes up. Each operation
either changes one entry or is refused with the system's reason.
-/

namespace DesignTokens

inductive FileContent where
  | text (contents : String)
  | archive (records : Tar.Archive)
deriving DecidableEq, Repr

namespace FileContent

/-- The bytes of a file; an archive is compressed. -/
def bytes : FileContent → List UInt8
  | .text contents => contents.toUTF8.toList
  | .archive records => Gzip.stream records.bytes

def text? : FileContent → Option String
  | .text contents => some contents
  | .archive _ => none

end FileContent

inductive FileNode where
  | file (content : FileContent)
  | directory
deriving DecidableEq, Repr

/-- A place in the tree: the names on the way from its root. -/
abbrev Location := List String

/-- A file system with a working directory. The root is always a directory. -/
structure FileSystem where
  entries : Std.ExtTreeMap Location FileNode compare
  workingDirectory : Location
deriving DecidableEq

namespace FileSystem

/-! ## Files as a list -/

/-- The places on the way to a place, itself the last one. -/
def placesTo (place : Location) : List Location :=
  (List.range place.length).map fun n => place.take (n + 1)

/-- The file system of a working directory that holds just the given texts at relative paths. -/
def ofTexts (workingDirectory : Location) (texts : List (String × String)) : FileSystem where
  workingDirectory := workingDirectory
  entries :=
    let makeAll (entries : Std.ExtTreeMap Location FileNode compare) (places : List Location) :=
      places.foldl (fun entries place => entries.insert place .directory) entries
    texts.foldl (fun entries (path, contents) =>
      let place := workingDirectory ++ UnixPath.named path
      (makeAll entries (placesTo place.dropLast)).insert place (.file (.text contents)))
      (makeAll ∅ (placesTo workingDirectory))

/-- The files below the working directory in the order of their paths from there. -/
def toList (files : FileSystem) : List (String × FileContent) :=
  let relative := files.entries.toList.filterMap fun (place, node) =>
    match node with
    | .directory => none
    | .file content =>
        if files.workingDirectory.isPrefixOf place then
          some (Text.join "/" (place.drop files.workingDirectory.length), content)
        else none
  relative.mergeSort fun a b => a.1 ≤ b.1

/-! ## Places -/

def node? (files : FileSystem) (place : Location) : Option FileNode :=
  if place = [] then some .directory else files.entries[place]?

def enter (files : FileSystem) (place : Location) : Except FileError Unit :=
  match files.node? place with
  | some .directory => .ok ()
  | some (.file _) => .error .notDirectory
  | none => .error .notFound

def nameLimit : Nat := 255

def step (files : FileSystem) (place : Location) (part : String) : Except FileError Location := do
  files.enter place
  if part = "" ∨ part = "." then return place
  else if part = ".." then return place.dropLast
  else if nameLimit < part.utf8ByteSize then throw .nameTooLong
  else return place ++ [part]

def walk (files : FileSystem) : Location → List String → Except FileError Location
  | place, [] => .ok place
  | place, part :: rest => do walk files (← files.step place part) rest

def start (files : FileSystem) (path : String) : Location :=
  if Text.startsWith path "/" then [] else files.workingDirectory

def pathLimit : Nat := 4095

def checkPath (path : String) : Except FileError Unit :=
  if path.toList.contains '\x00' then .error .nulInName
  else if path = "" then .error .notFound
  else if pathLimit < path.utf8ByteSize then .error .nameTooLong
  else .ok ()

def locate (files : FileSystem) (path : String) : Except FileError Location := do
  checkPath path
  files.walk (files.start path) (UnixPath.parts path)

def isDirectory (files : FileSystem) (path : String) : Bool :=
  match files.locate path with
  | .ok place => files.node? place = some .directory
  | .error _ => false

/-! ## Reading -/

def readText (files : FileSystem) (path : String) : Except FileError String := do
  match files.node? (← files.locate path) with
  | none => throw .notFound
  | some .directory => throw .isDirectory
  | some (.file content) =>
      match content.text? with
      | some text => return text
      | none => throw .notText

/-! ## Writing -/

/-- The directory and the name of the entry that a path is about, `none` when the path ends at a
directory by its form. -/
def entryOf (files : FileSystem) (path : String) :
    Except FileError (Option (Location × String)) := do
  checkPath path
  match (UnixPath.parts path).reverse.dropWhile (· = "") with
  | [] => return none
  | last :: before =>
      if last = "." ∨ last = ".." then
        files.enter (← files.locate path)
        return none
      else
        let directory ← files.walk (files.start path) before.reverse
        files.enter directory
        return some (directory, last)

def set (files : FileSystem) (place : Location) (node : FileNode) : FileSystem :=
  { files with entries := files.entries.insert place node }

/-- Writes the file at a path, over the one that is there. -/
def write (path : String) (content : FileContent) : Edit FileError FileSystem Unit := do
  let files ← get
  match ← Edit.check (files.entryOf path) with
  | none => throw .isDirectory
  | some (directory, name) =>
      if path.toList.getLast? = some '/' then throw .isDirectory
      let place ← Edit.check (files.step directory name)
      if files.node? place = some .directory then throw .isDirectory
      EStateM.set (files.set place (.file content))

/-- Makes the directory at a path, whose own directory must be there. -/
def makeDirectory (path : String) : Edit FileError FileSystem Unit := do
  let files ← get
  match ← Edit.check (files.entryOf path) with
  | none => throw .alreadyExists
  | some (directory, name) =>
      let place ← Edit.check (files.step directory name)
      if (files.node? place).isSome then throw .alreadyExists
      EStateM.set (files.set place .directory)

end FileSystem
end DesignTokens
