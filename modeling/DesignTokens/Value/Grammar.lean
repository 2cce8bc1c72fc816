import DesignTokens.Decimal.Nearest
import DesignTokens.Text.Blank
import DesignTokens.Text.Reader
import DesignTokens.Value.Color
import DesignTokens.Value.Duration
import DesignTokens.Value.Size

/-!
# The syntax of token values

Readers for numbers, colours, sizes and durations.

* A number is `[+-]?(D+(.D+)?|.D+)` over ASCII digits.
* A colour is `#` with 3, 4, 6 or 8 hexadecimal digits, or one of the functions `rgb`, `rgba`, `hsl`
  and `hsla` with three components and an optional alpha. Components are separated by a comma with
  blanks around it or by blanks alone, and the alpha follows a comma or a slash.
* A size is a number with an optional `px`, `rem`, `em` or `pt`, a duration a number with an
  optional `ms` or `s`.

Blanks are spaces and tabs, and words are read in any letter case. A whole value may stand between
white space of Unicode.
-/

namespace DesignTokens
namespace Value

open Text (Reader)

namespace Grammar

/-! ## Numbers -/

def isSpace (c : Char) : Bool :=
  c = ' ' || c = '\t'

/-- A sign; the flag says minus. -/
def sign : Reader Bool
  | '+' :: rest => some (false, rest)
  | '-' :: rest => some (true, rest)
  | _ => none

def fraction : Reader (List Char) :=
  (Reader.char '.').after (Reader.run1 Char.isDigit)

def magnitude : Reader (List Char × List Char) :=
  Reader.orElse
    (((Reader.run1 Char.isDigit).pair fraction.optional).map fun (whole, places) =>
      (whole, places.getD []))
    (fraction.map fun places => ([], places))

/-- The nearest number to a decimal, infinite beyond the largest one. -/
def decimalValue (negative : Bool) (whole places : List Char) : Float :=
  match Decimal.nearest? negative (Decimal.ofDigits (whole ++ places)) (-(places.length : Int)) with
  | some x => x
  | none => if negative then -1.0 / 0.0 else 1.0 / 0.0

def number : Reader Float :=
  (sign.optional.pair magnitude).map fun (negative, whole, places) =>
    decimalValue (negative.getD false) whole places

/-! ## Colours -/

def hexValue (c : Char) : Nat :=
  if c.isDigit then c.toNat - '0'.toNat else c.toLower.toNat - 'a'.toNat + 10

def isHexDigit (c : Char) : Bool :=
  c.isDigit || ('a' ≤ c.toLower && c.toLower ≤ 'f')

def hexPair (a b : Char) : UInt8 :=
  UInt8.ofNat (16 * hexValue a + hexValue b)

def alphaOfByte (n : UInt8) : Float32 :=
  Float32.ofNat n.toNat / 255.0

/-- The colour of 3, 4, 6 or 8 hexadecimal digits. -/
def hexColor? : List Char → Option Color
  | [r, g, b] => some (.rgb (hexPair r r) (hexPair g g) (hexPair b b))
  | [r, g, b, a] =>
      some (.rgba (hexPair r r) (hexPair g g) (hexPair b b) (alphaOfByte (hexPair a a)))
  | [r, r', g, g', b, b'] => some (.rgb (hexPair r r') (hexPair g g') (hexPair b b'))
  | [r, r', g, g', b, b', a, a'] =>
      some (.rgba (hexPair r r') (hexPair g g') (hexPair b b') (alphaOfByte (hexPair a a')))
  | _ => none

/-- A hexadecimal colour: the digits, eight at most, and what follows them. -/
def hex : Reader Color
  | '#' :: rest =>
      let digits := (rest.takeWhile isHexDigit).take 8
      (hexColor? digits).map fun color => (color, rest.drop digits.length)
  | _ => none

/-- Blanks, perhaps none. -/
def spaces : Reader Unit :=
  (Reader.run isSpace).map fun _ => ()

def listSeparator : Reader Unit :=
  Reader.orElse
    ((spaces.after (Reader.char ',')).after spaces)
    ((Reader.run1 isSpace).map fun _ => ())

def alphaSeparator : Reader Unit :=
  (spaces.after (Reader.orElse (Reader.char ',') (Reader.char '/'))).after spaces

/-- A number, and whether a percent sign follows. -/
def percentable : Reader (Float × Bool) :=
  (number.pair (Reader.char '%').optional).map fun (x, percent) => (x, percent.isSome)

/-- A channel: a number up to 255 or a percentage. -/
def channel : Reader UInt8 :=
  percentable.map fun (x, percent) =>
    (clamp 0.0 255.0 (if percent then x * 2.55 else x)).round.toUInt8

/-- An alpha: a number up to one or a percentage. -/
def alpha : Reader Float32 :=
  percentable.map fun (x, percent) => (clamp 0.0 1.0 (if percent then x / 100.0 else x)).toFloat32

def hue : Reader Float :=
  (number.pair (Reader.word "deg".toList).optional).map (·.1)

def percentage : Reader Float :=
  percentable.map fun (x, _) => clamp 0.0 100.0 x

def arguments {α β : Type} (first : Reader α) (other : Reader β) :
    Reader ((α × β × β) × Option Float32) :=
  let opening := (spaces.after (Reader.char '(')).after spaces
  let components :=
    first.pair ((listSeparator.after other).pair (listSeparator.after other))
  let closing := spaces.after (Reader.char ')')
  ((opening.after (components.pair (alphaSeparator.after alpha).optional)).pair closing).map (·.1)

/-- One of two function names, the longer one first. -/
def functionName (long short : String) : Reader Unit :=
  Reader.orElse (Reader.word long.toList) (Reader.word short.toList)

def rgb : Reader Color :=
  ((functionName "rgba" "rgb").after (arguments channel channel)).map
    fun ((r, g, b), a) => Color.rgba r g b (a.getD 1.0)

/-- A colour by hue, saturation and lightness. -/
def hsl : Reader Color :=
  ((functionName "hsla" "hsl").after (arguments hue percentage)).map
    fun ((h, s, l), a) => Color.ofHsl ⟨h, s / 100.0, l / 100.0⟩ (a.getD 1.0)

def color : Reader Color :=
  Reader.orElse hex (Reader.orElse rgb hsl)

/-! ## Sizes and durations -/

/-- One of several words with its meaning, tried in order. -/
def oneOf {α : Type} : List (String × α) → Reader α
  | [], _ => none
  | (word, meaning) :: rest, s =>
      match Reader.word word.toList s with
      | some (_, s) => some (meaning, s)
      | none => oneOf rest s

/-- A unit of size; `rem` is tried before `em`. -/
def sizeUnit : Reader SizeUnit :=
  oneOf [("px", .px), ("rem", .rem), ("em", .em), ("pt", .pt)]

def size : Reader Size :=
  (number.pair sizeUnit.optional).map fun (x, unit) => ⟨x, unit⟩

/-- A unit of time; `ms` is tried before `s`. -/
def timeUnit : Reader TimeUnit :=
  oneOf [("ms", .ms), ("s", .s)]

def duration : Reader Duration :=
  (number.pair timeUnit.optional).map fun (x, unit) => ⟨x, unit⟩

end Grammar

/-! ## Whole values -/

inductive ParseError where
  | syntaxMismatch
  | remainder (rest : String)
deriving DecidableEq, Repr

def ParseError.message : ParseError → String
  | .syntaxMismatch => "Parse error: no value"
  | .remainder rest =>
      "Parse error: Parser did not consume all input. Remainder: '" ++ rest ++ "'"

/-- A text read whole, without the white space around it. -/
def parseWhole {α : Type} (reader : Reader α) (text : String) : Except ParseError α :=
  match reader (Text.trim text.toList) with
  | some (a, []) => .ok a
  | some (_, rest) => .error (.remainder (String.ofList rest))
  | none => .error .syntaxMismatch

def Color.parse (text : String) : Except ParseError Color :=
  parseWhole Grammar.color text

def Size.parse (text : String) : Except ParseError Size :=
  parseWhole Grammar.size text

def Duration.parse (text : String) : Except ParseError Duration :=
  parseWhole Grammar.duration text

end Value
end DesignTokens
