import DesignTokens.Decimal.Nearest
import DesignTokens.Json.Basic
import DesignTokens.Json.Outline
import DesignTokens.Text.Reader

/-!
# Reading JSON text

The strict grammar of JSON: no comments, no trailing commas, no leading zeros, no raw control
characters in strings, no lone surrogates, and nothing but white space after the value. At most 127
containers may be nested.

An integer literal in the range of 64-bit words (unsigned, or signed when negative) is an integer;
every other literal, `-0` included, is the nearest floating-point number, and one beyond the
largest floating-point number is refused.

`parseAlong` follows an outline and leaves out what is passed over; it keeps repeated fields as they
stand in the text. `parse` reads everything and collapses repeated fields.
-/

namespace DesignTokens
namespace Json
namespace Parser

open Text (Reader)

def isSpace (c : Char) : Bool :=
  c = ' ' || c = '\n' || c = '\r' || c = '\t'

def skipSpace (s : List Char) : List Char :=
  s.dropWhile isSpace

/-! ## Numbers -/

/-- A run of digits, at least one. -/
def digits1 : Reader (List Char) :=
  Reader.run1 Char.isDigit

/-- An integer part: zero alone, or digits that do not start with zero. -/
def wholePart : Reader (List Char)
  | '0' :: rest =>
      match rest with
      | c :: _ => if c.isDigit then none else some (['0'], rest)
      | [] => some (['0'], [])
  | s => digits1 s

/-- The digits after a point, if a point follows. -/
def fractionPart : Reader (Option (List Char))
  | '.' :: rest => (digits1 rest).map fun (ds, rest) => (some ds, rest)
  | s => some (none, s)

def signedExponent : Reader Int
  | '-' :: rest => (digits1 rest).map fun (ds, rest) => (-(Decimal.ofDigits ds : Int), rest)
  | '+' :: rest => (digits1 rest).map fun (ds, rest) => ((Decimal.ofDigits ds : Int), rest)
  | s => (digits1 s).map fun (ds, rest) => ((Decimal.ofDigits ds : Int), rest)

/-- The exponent, if one follows. -/
def exponentPart : Reader (Option Int)
  | c :: rest =>
      if c = 'e' || c = 'E' then (signedExponent rest).map fun (e, rest) => (some e, rest)
      else some (none, c :: rest)
  | [] => some (none, [])

def numberOf? (negative : Bool) (whole : List Char) :
    Option (List Char) → Option Int → Option Number
  | none, none =>
      let n := Decimal.ofDigits whole
      if negative then
        if n ≠ 0 ∧ n ≤ Nat.pow 2 63 then some (.int (-n))
        else (Decimal.nearest? true n 0).map .float
      else if n < Nat.pow 2 64 then some (.int n)
      else (Decimal.nearest? false n 0).map .float
  | fraction, exponent =>
      let places := fraction.getD []
      (Decimal.nearest? negative (Decimal.ofDigits (whole ++ places))
        (exponent.getD 0 - places.length)).map .float

def unsignedNumber (negative : Bool) : Reader Json := fun s => do
  let (whole, s) ← wholePart s
  let (fraction, s) ← fractionPart s
  let (exponent, s) ← exponentPart s
  let number ← numberOf? negative whole fraction exponent
  return (.number number, s)

/-! ## Strings -/

def hexValue? (c : Char) : Option Nat :=
  if c.isDigit then some (c.toNat - '0'.toNat)
  else if 'a' ≤ c ∧ c ≤ 'f' then some (c.toNat - 'a'.toNat + 10)
  else if 'A' ≤ c ∧ c ≤ 'F' then some (c.toNat - 'A'.toNat + 10)
  else none

def hexUnit : Reader Nat
  | a :: b :: c :: d :: rest => do
      let a ← hexValue? a
      let b ← hexValue? b
      let c ← hexValue? c
      let d ← hexValue? d
      return (((a * 16 + b) * 16 + c) * 16 + d, rest)
  | _ => none

/-- A character written as one unit, or as a pair of surrogates. -/
def unicodeEscape : Reader Char := fun s => do
  let (unit, rest) ← hexUnit s
  if 0xD800 ≤ unit ∧ unit < 0xDC00 then
    match rest with
    | '\\' :: 'u' :: rest => do
        let (low, rest) ← hexUnit rest
        if 0xDC00 ≤ low ∧ low < 0xE000 then
          return (Char.ofNat (0x10000 + (unit - 0xD800) * 0x400 + (low - 0xDC00)), rest)
        else none
    | _ => none
  else if 0xDC00 ≤ unit ∧ unit < 0xE000 then none
  else return (Char.ofNat unit, rest)

/-- The character of an escape, after its backslash. -/
def escape : Reader Char
  | '"' :: rest => some ('"', rest)
  | '\\' :: rest => some ('\\', rest)
  | '/' :: rest => some ('/', rest)
  | 'b' :: rest => some (Char.ofNat 0x08, rest)
  | 'f' :: rest => some (Char.ofNat 0x0C, rest)
  | 'n' :: rest => some ('\n', rest)
  | 'r' :: rest => some ('\r', rest)
  | 't' :: rest => some ('\t', rest)
  | 'u' :: rest => unicodeEscape rest
  | _ => none

/-- The characters up to the closing quote, at most the given number of them. -/
def stringChars : Nat → Reader (List Char)
  | 0, _ => none
  | n + 1, s =>
      match s with
      | [] => none
      | '"' :: rest => some ([], rest)
      | '\\' :: rest => do
          let (c, rest) ← escape rest
          let (cs, rest) ← stringChars n rest
          return (c :: cs, rest)
      | c :: rest =>
          if c.toNat < 0x20 then none
          else (stringChars n rest).map fun (cs, rest) => (c :: cs, rest)

def stringRest : Reader String := fun s =>
  (stringChars (s.length + 1) s).map fun (cs, rest) => (String.ofList cs, rest)

/-! ## Containers -/

/-- The items after the first bracket or a comma, at most the given number of them. -/
def items {α : Type} (value : Reader α) : Nat → Reader (List α)
  | 0, _ => none
  | n + 1, s => do
      let (item, s) ← value s
      match skipSpace s with
      | ',' :: s => do
          let (rest, s) ← items value n s
          return (item :: rest, s)
      | ']' :: s => return ([item], s)
      | _ => none

/-- A name, a colon and the value that belongs to the name. -/
def field {ν α : Type} (name : Reader ν) (value : ν → Reader α) : Reader (ν × α) := fun s =>
  match skipSpace s with
  | '"' :: s => do
      let (n, s) ← name s
      match skipSpace s with
      | ':' :: s => do
          let (v, s) ← value n s
          return ((n, v), s)
      | _ => none
  | _ => none

/-- The fields after the first brace or a comma, at most the given number of them. -/
def fields {φ : Type} (field : Reader φ) : Nat → Reader (List φ)
  | 0, _ => none
  | n + 1, s => do
      let (first, s) ← field s
      match skipSpace s with
      | ',' :: s => do
          let (rest, s) ← fields field n s
          return (first :: rest, s)
      | '\x7d' :: s => return ([first], s)
      | _ => none

def arrayRest {α : Type} (value : Reader α) : Reader (List α) := fun s =>
  match skipSpace s with
  | ']' :: rest => some ([], rest)
  | _ => items value (s.length + 1) s

def objectRest {φ : Type} (field : Reader φ) : Reader (List φ) := fun s =>
  match skipSpace s with
  | '\x7d' :: rest => some ([], rest)
  | _ => fields field (s.length + 1) s

/-! ## Passing over -/

/-- A number, whatever it denotes. -/
def passNumber : Reader Unit := fun s => do
  let (_, s) ← wholePart s
  let (_, s) ← fractionPart s
  let (_, s) ← exponentPart s
  return ((), s)

/-- An escape after its backslash, whatever it denotes. -/
def passEscape : Reader Unit
  | 'u' :: rest => (hexUnit rest).map fun (_, rest) => ((), rest)
  | s => (escape s).map fun (_, rest) => ((), rest)

/-- The characters up to the closing quote, at most the given number of them. -/
def passChars : Nat → Reader Unit
  | 0, _ => none
  | n + 1, s =>
      match s with
      | [] => none
      | '"' :: rest => some ((), rest)
      | '\\' :: rest => do
          let (_, rest) ← passEscape rest
          passChars n rest
      | c :: rest => if c.toNat < 0x20 then none else passChars n rest

/-- A string after its opening quote, whatever it denotes. -/
def passString : Reader Unit := fun s =>
  passChars (s.length + 1) s

/-- A value that is passed over, with at most the given number of containers nested. -/
def passValue : Nat → Reader Unit
  | 0, _ => none
  | n + 1, s =>
      match skipSpace s with
      | 'n' :: 'u' :: 'l' :: 'l' :: rest => some ((), rest)
      | 't' :: 'r' :: 'u' :: 'e' :: rest => some ((), rest)
      | 'f' :: 'a' :: 'l' :: 's' :: 'e' :: rest => some ((), rest)
      | '"' :: rest => passString rest
      | '[' :: rest => (arrayRest (passValue n)).map (fun _ => ()) rest
      | '\x7b' :: rest =>
          (objectRest (field passString fun _ => passValue n)).map (fun _ => ()) rest
      | '-' :: rest => passNumber rest
      | s => passNumber s

def pass : Reader Unit := fun s =>
  passValue (s.length + 1) s

/-! ## Values -/

/-- A value whose containers are read by the given readers; without them no container may open. -/
def valueWith (array object : Option (Reader Json)) : Reader Json := fun s =>
  match skipSpace s with
  | 'n' :: 'u' :: 'l' :: 'l' :: rest => some (.null, rest)
  | 't' :: 'r' :: 'u' :: 'e' :: rest => some (.bool true, rest)
  | 'f' :: 'a' :: 'l' :: 's' :: 'e' :: rest => some (.bool false, rest)
  | '"' :: rest => (stringRest rest).map fun (text, rest) => (.string text, rest)
  | '[' :: rest => array.bind fun read => read rest
  | '\x7b' :: rest => object.bind fun read => read rest
  | '-' :: rest => unsignedNumber true rest
  | s => unsignedNumber false s

/-- The value of a field, nothing when the outline passes over it. -/
def fieldValue (nested : Outline → Reader Json) (outline : Outline) (name : String) :
    Reader (Option Json) :=
  match outline.field? name with
  | some inner => (nested inner).map some
  | none => pass.map fun _ => none

def readFields (fields : List (String × Option Json)) : List (String × Json) :=
  fields.filterMap fun (name, value?) => value?.map fun value => (name, value)

/-- A value along an outline, in which the given number of containers may be nested. -/
def value : Nat → Outline → Reader Json
  | 0, _ => valueWith none none
  | depth + 1, outline =>
      valueWith (some ((arrayRest (value depth outline.item)).map Json.array))
        (some ((objectRest (field stringRest (fieldValue (value depth) outline))).map fun read =>
          .object (readFields read)))

end Parser

def maxNesting : Nat := 127

/-- The value of a document along an outline, with repeated fields as they stand in the text. -/
def parseAlong (outline : Outline) (text : String) : Option Json := do
  let (value, rest) ← Parser.value maxNesting outline text.toList
  if (Parser.skipSpace rest).isEmpty then some value else none

def parse (text : String) : Option Json :=
  (parseAlong .whole text).map collapse

end Json
end DesignTokens
