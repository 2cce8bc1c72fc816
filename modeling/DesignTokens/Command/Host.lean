import DesignTokens.File.System

/-!
# Hosts

What a command needs of its surroundings: files to read and write, a place for its results and one
for messages. Commands are written for any host, so that a session on a file system held as a value
runs the same program as the operating system does.
-/

namespace DesignTokens

/-- The surroundings of a command. -/
class Host (m : Type → Type) where
  /-- The text of the file at a path. -/
  readText (path : String) : m (Except FileError String)
  /-- A path leads to a directory. -/
  isDirectory (path : String) : m Bool
  /-- Makes a directory, whose own directory must be there. -/
  makeDirectory (path : String) : m (Except FileError Unit)
  /-- Writes a file. -/
  write (path : String) (content : FileContent) : m (Except FileError Unit)
  /-- Adds to the results. -/
  print (text : String) : m Unit
  /-- Adds to the messages. -/
  report (text : String) : m Unit

structure Session where
  files : FileSystem
  printed : String := ""
  reported : String := ""
deriving DecidableEq

namespace Session

def onFiles {α : Type} (edit : Edit FileError FileSystem α) :
    StateM Session (Except FileError α) := fun session =>
  match edit.run session.files with
  | .ok a files => (.ok a, { session with files := files })
  | .error e files => (.error e, { session with files := files })

instance : Host (StateM Session) where
  readText path := fun session => (session.files.readText path, session)
  isDirectory path := fun session => (session.files.isDirectory path, session)
  makeDirectory path := onFiles (FileSystem.makeDirectory path)
  write path content := onFiles (FileSystem.write path content)
  print text := modify fun session => { session with printed := session.printed ++ text }
  report text := modify fun session => { session with reported := session.reported ++ text }

end Session
end DesignTokens
