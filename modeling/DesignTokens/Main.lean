import DesignTokens.Command.Run

/-!
# The program

The command line on the files of the operating system.
-/

namespace DesignTokens
namespace SystemHost

def code? : IO.Error → Option UInt32
  | .alreadyExists _ code _ => some code
  | .otherError code _ => some code
  | .resourceBusy code _ => some code
  | .resourceVanished code _ => some code
  | .unsupportedOperation code _ => some code
  | .hardwareFault code _ => some code
  | .unsatisfiedConstraints code _ => some code
  | .illegalOperation code _ => some code
  | .protocolError code _ => some code
  | .timeExpired code _ => some code
  | .interrupted _ code _ => some code
  | .noFileOrDirectory _ code _ => some code
  | .invalidArgument _ code _ => some code
  | .permissionDenied _ code _ => some code
  | .resourceExhausted _ code _ => some code
  | .inappropriateType _ code _ => some code
  | .noSuchThing _ code _ => some code
  | _ => none

/-- The error of a file that the system's error stands for. Some numbers come negated. -/
def fileError (e : IO.Error) : FileError :=
  match (code? e).map fun code => min code (0 - code) with
  | some 2 => .notFound
  | some 17 => .alreadyExists
  | some 20 => .notDirectory
  | some 21 => .isDirectory
  | some 36 => .nameTooLong
  | _ => .other (toString e)

def attempt {α : Type} (action : IO α) : IO (Except FileError α) := do
  return (← action.toBaseIO).mapError fileError

/-- The text of a file, which must be valid. -/
def readText (path : String) : IO (Except FileError String) := do
  match ← attempt (IO.FS.readBinFile path) with
  | .error e => return .error e
  | .ok bytes =>
      match String.fromUTF8? bytes with
      | some text => return .ok text
      | none => return .error .notText

instance : Host IO where
  readText := readText
  isDirectory path := (System.mkFilePath [path]).isDir
  makeDirectory path := attempt (IO.FS.createDir path)
  write path content := attempt (IO.FS.writeBinFile path ⟨content.bytes.toArray⟩)
  print text := IO.print text
  report text := IO.eprint text

end SystemHost
end DesignTokens

def main (arguments : List String) : IO UInt32 :=
  DesignTokens.Command.program arguments
