import DesignTokens.Edit
import DesignTokens.File.Error
import DesignTokens.File.UnixPath

/-!
# Tar archives

An archive is a sequence of records, each a header block and the content in whole blocks, and two
empty blocks at the end. Headers have fixed permissions and times, so that the same files always
give the same bytes.

The name of a file is written without empty parts and parts `.`; a slash at its end stays. A name
that the header has no room for is given in a record of its own before the file's, whose header
then holds the beginning of the name.
-/

namespace DesignTokens
namespace Tar

inductive RecordKind where
  | file
  | longName
deriving DecidableEq, Repr

structure Record where
  name : List UInt8
  kind : RecordKind
  content : String
deriving DecidableEq, Repr

structure Archive where
  records : List Record
deriving DecidableEq, Repr

/-! ## Fields -/

def blockSize : Nat := 512

def nameSize : Nat := 100

def bytesOf (s : String) : List UInt8 :=
  s.toUTF8.toList

def zeros (n : Nat) : List UInt8 :=
  List.replicate n 0

/-- A number in octal digits, zeros in front, with a zero byte after them. -/
def octal (width n : Nat) : List UInt8 :=
  let digits := Nat.toDigits 8 n
  let padded := List.replicate (width - 1 - digits.length) '0' ++ digits
  padded.map (fun c => c.val.toUInt8) ++ [0]

/-! ## Names -/

def overwrite (field : List UInt8) (position : Nat) (bytes : List UInt8) : List UInt8 :=
  field.take position ++ bytes ++ field.drop (position + bytes.length)

inductive NameFault where
  | tooLong
  | nul
deriving DecidableEq, Repr

structure Filled where
  field : List UInt8
  fault : Option NameFault
deriving DecidableEq, Repr

/-- Writes pieces into a field one after another, each with a zero byte after it where there is
room. A piece that has no room or holds a zero byte is not written, and nothing after it. -/
def fill (field : List UInt8) (position : Nat) : List (List UInt8) → Filled
  | [] => ⟨field, none⟩
  | piece :: rest =>
      let room := field.length - position
      if room < piece.length then ⟨field, some .tooLong⟩
      else if piece.contains 0 then ⟨field, some .nul⟩
      else fill (overwrite field position ((piece ++ [0]).take room)) (position + piece.length) rest

def componentNames (path : String) : List String :=
  (UnixPath.components path).map (·.text)

/-- The pieces of the name for a path: its components with slashes between them, and the slash at
its end. -/
def namePieces (path : String) : List (List UInt8) :=
  let slash := bytesOf "/"
  ((componentNames path).map bytesOf).intersperse slash ++
    (if path.toList.getLast? = some '/' then [slash] else [])

/-- The longest beginning of a text that has room in a number of bytes. -/
def takeBytes : Nat → List Char → List Char
  | _, [] => []
  | room, c :: rest =>
      if c.utf8Size ≤ room then c :: takeBytes (room - c.utf8Size) rest else []

/-! ## Headers -/

def RecordKind.flag : RecordKind → UInt8
  | .file => 0
  | .longName => 76

/-- The owner's number, which records of files leave out. -/
def RecordKind.owner : RecordKind → List UInt8
  | .file => zeros 8
  | .longName => octal 8 0

/-- The permissions of every file: its owner may write it, everybody may read it. -/
def mode : Nat := 0o644

def time : Nat := 0

namespace Record

def size (record : Record) : Nat :=
  record.content.utf8ByteSize

def shownName (record : Record) : String :=
  (String.fromUTF8? ⟨(record.name.takeWhile (· ≠ 0)).toArray⟩).getD ""

def headerWith (record : Record) (checksum : List UInt8) : List UInt8 :=
  let start := record.name ++ octal 8 mode ++ record.kind.owner ++ record.kind.owner ++
    octal 12 record.size ++ octal 12 time ++ checksum ++ [record.kind.flag] ++ zeros 100 ++
    bytesOf "ustar  " ++ [0]
  start ++ zeros (blockSize - start.length)

/-- The sum of all bytes of the header, with spaces for the checksum itself. -/
def checksum (record : Record) : Nat :=
  ((record.headerWith (List.replicate 8 32)).map (·.toNat)).foldl (· + ·) 0

def header (record : Record) : List UInt8 :=
  record.headerWith (octal 8 record.checksum)

def paddedSize (record : Record) : Nat :=
  (record.size + blockSize - 1) / blockSize * blockSize

def bytes (record : Record) : List UInt8 :=
  record.header ++ bytesOf record.content ++ zeros (record.paddedSize - record.size)

end Record

namespace Archive

/-- The archive without records. -/
def empty : Archive := ⟨[]⟩

def push (archive : Archive) (record : Record) : Archive :=
  ⟨archive.records ++ [record]⟩

def size (archive : Archive) : Nat :=
  (archive.records.map fun record => blockSize + record.paddedSize).foldl (· + ·) 0 + 2 * blockSize

def bytes (archive : Archive) : List UInt8 :=
  archive.records.flatMap Record.bytes ++ zeros (2 * blockSize)

def longNameMark : List UInt8 :=
  (fill (zeros nameSize) 0 [bytesOf "././@LongLink"]).field

def record (name : List UInt8) (kind : RecordKind) (content : String) :
    Edit FileError Archive Unit :=
  modify fun archive => archive.push ⟨name, kind, content⟩

/-- Adds a file. When its name has no room in a header, its full path is recorded first. -/
def append (path content : String) : Edit FileError Archive Unit := do
  let name := fill (zeros nameSize) 0 (namePieces path)
  if name.fault.isNone then record name.field .file content
  else if path.utf8ByteSize < nameSize then throw .nulInName
  else
    record longNameMark .longName (path ++ "\x00")
    let start := String.ofList (takeBytes nameSize path.toList)
    let name := fill name.field 0 (namePieces start)
    if name.fault.isSome then throw .nulInName
    record name.field .file content

end Archive
end Tar
end DesignTokens
