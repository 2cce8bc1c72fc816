import DesignTokens.Decimal.Shortest
import DesignTokens.Json.Basic

/-!
# JSON text

The compact text of a value has no spaces. The pretty text indents by two spaces, puts every item
and field on a line of its own, and keeps empty containers closed. In both, strings escape the
quote, the backslash and the control characters below U+0020 and nothing else.

Floating-point numbers are written with their shortest digits and always with a point or an
exponent: positionally from `0.00001` up to sixteen digits before the point, with an explicit
exponent beyond.
-/

namespace DesignTokens
namespace Json

/-! ## Strings -/

def hexDigit (n : Nat) : Char :=
  Nat.digitChar n

def escapeChar (c : Char) : List Char :=
  if c = '"' then ['\\', '"']
  else if c = '\\' then ['\\', '\\']
  else if c = '\n' then ['\\', 'n']
  else if c = '\r' then ['\\', 'r']
  else if c = '\t' then ['\\', 't']
  else if c.toNat = 0x08 then ['\\', 'b']
  else if c.toNat = 0x0C then ['\\', 'f']
  else if c.toNat < 0x20 then
    ['\\', 'u', '0', '0', hexDigit (c.toNat / 16), hexDigit (c.toNat % 16)]
  else [c]

def quoteChars (s : List Char) : List Char :=
  '"' :: s.flatMap escapeChar ++ ['"']

def quote (s : String) : String :=
  String.ofList (quoteChars s.toList)

/-! ## Numbers -/

def placeDigits (text : List Char) (exponent : Int) : List Char :=
  if -5 ≤ exponent ∧ exponent ≤ 15 then
    if exponent < 0 then
      '0' :: '.' :: List.replicate (-exponent - 1).toNat '0' ++ text
    else
      let whole := exponent.toNat + 1
      if text.length ≤ whole then
        text ++ List.replicate (whole - text.length) '0' ++ ['.', '0']
      else text.take whole ++ '.' :: text.drop whole
  else
    let sign := if 0 ≤ exponent then ['+'] else ['-']
    let mantissa := match text with
      | [] => []
      | [digit] => [digit]
      | digit :: rest => digit :: '.' :: rest
    mantissa ++ 'e' :: sign ++ Decimal.digits exponent.natAbs

/-- A floating-point number, `null` when it is not finite. -/
def floatChars (x : Float) : List Char :=
  match Decimal.Exact.ofFloat? x with
  | none => "null".toList
  | some exact =>
      let sign := if exact.negative then ['-'] else []
      if exact.significand = 0 then sign ++ "0.0".toList
      else
        let shortest := Decimal.shortest exact
        let text := Decimal.digits shortest.value
        sign ++ placeDigits text (shortest.exponent + text.length - 1)

def intChars (n : Int) : List Char :=
  if n < 0 then '-' :: Decimal.digits n.natAbs else Decimal.digits n.natAbs

def numberChars : Number → List Char
  | .int value => intChars value
  | .float value => floatChars value

/-! ## Compact text -/

def commaSeparated (texts : List (List Char)) : List Char :=
  [','].intercalate texts

mutual

def compactChars : Json → List Char
  | .null => "null".toList
  | .bool true => "true".toList
  | .bool false => "false".toList
  | .number value => numberChars value
  | .string text => quoteChars text.toList
  | .array items => '[' :: commaSeparated (compactItems items) ++ [']']
  | .object fields => '\x7b' :: commaSeparated (compactFields fields) ++ ['\x7d']

def compactItems : List Json → List (List Char)
  | [] => []
  | item :: rest => compactChars item :: compactItems rest

def compactFields : List (String × Json) → List (List Char)
  | [] => []
  | (name, value) :: rest =>
      (quoteChars name.toList ++ ':' :: compactChars value) :: compactFields rest

end

def compact (value : Json) : String :=
  String.ofList (compactChars value)

/-! ## Pretty text -/

def newLine (depth : Nat) : List Char :=
  '\n' :: List.replicate (2 * depth) ' '

def prettyBlock (opening closing : Char) (depth : Nat) : List (List Char) → List Char
  | [] => [opening, closing]
  | part :: rest =>
      opening :: newLine (depth + 1) ++ part ++
        rest.flatMap (fun next => ',' :: newLine (depth + 1) ++ next) ++ newLine depth ++ [closing]

mutual

def prettyChars (depth : Nat) : Json → List Char
  | .null => "null".toList
  | .bool true => "true".toList
  | .bool false => "false".toList
  | .number value => numberChars value
  | .string text => quoteChars text.toList
  | .array items => prettyBlock '[' ']' depth (prettyItems (depth + 1) items)
  | .object fields => prettyBlock '\x7b' '\x7d' depth (prettyFields (depth + 1) fields)

def prettyItems (depth : Nat) : List Json → List (List Char)
  | [] => []
  | item :: rest => prettyChars depth item :: prettyItems depth rest

def prettyFields (depth : Nat) : List (String × Json) → List (List Char)
  | [] => []
  | (name, value) :: rest =>
      (quoteChars name.toList ++ ':' :: ' ' :: prettyChars depth value) :: prettyFields depth rest

end

def pretty (value : Json) : String :=
  String.ofList (prettyChars 0 value)

end Json
end DesignTokens
