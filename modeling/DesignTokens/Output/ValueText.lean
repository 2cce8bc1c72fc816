import DesignTokens.Json.Printer
import DesignTokens.Transform.Basic

/-!
# Texts of token values

How values and names are written in the formats that share a syntax: plain texts of scalars, compact
JSON for composite values, the style-sheet shorthand of typography, names with a prefix, and program
identifiers.
-/

namespace DesignTokens
namespace Output

def headerLines : List String := ["Do not edit directly", "Generated by strata"]

/-! ## Values -/

/-- A number: all digits of an integer, at most four places otherwise. -/
def numberText : Json.Number → String
  | .int n => String.ofList (Json.intChars n)
  | .float x => Value.numberText x

/-- A scalar as it stands; a composite value as compact JSON. -/
def plainText : Json → String
  | .string text => text
  | .number n => numberText n
  | .bool true => "true"
  | .bool false => "false"
  | .null => "null"
  | .array items => (Json.array items).compact
  | .object fields => (Json.object fields).compact

/-- A font family: one name, or several with commas between them. -/
def fontFamily? : Json → Option String
  | .string text => some text
  | .array items => some (Text.join ", " (items.map plainText))
  | _ => none

/-- The shorthand `[style] [weight] size[/line-height] family`, when there is a size and a
family. -/
def typographyShorthand? (fields : Entries Json) : Option String := do
  let size := plainText (← Entries.get? fields "fontSize")
  let family ← fontFamily? (← Entries.get? fields "fontFamily")
  let style := (Entries.get? fields "fontStyle").toList.map plainText
  let weight := (Entries.get? fields "fontWeight").toList.map plainText
  let size := match Entries.get? fields "lineHeight" with
    | some height => size ++ "/" ++ plainText height
    | none => size
  return Text.join " " (style ++ weight ++ [size, family])

def styleText (value : Json) (type : Option String) : String :=
  match value with
  | .object fields =>
      if type = some "typography" then (typographyShorthand? fields).getD value.compact
      else plainText value
  | .array _ =>
      if type = some "fontFamily" then (fontFamily? value).getD "" else plainText value
  | _ => plainText value

/-! ## Names -/

def isPrefixEdge (c : Char) : Bool :=
  c = '-' || c = '_'

/-- A prefix without the dashes and underscores at its ends. -/
def trimEdges (s : List Char) : List Char :=
  ((s.dropWhile isPrefixEdge).reverse.dropWhile isPrefixEdge).reverse

/-- A name after a prefix and a separator; an empty prefix adds nothing. -/
def prefixed (start : Option String) (name separator : String) : String :=
  match start.map fun s => trimEdges s.toList with
  | some (c :: rest) => String.ofList (c :: rest) ++ separator ++ name
  | _ => name

def startsIdentifier (c : Char) : Bool :=
  c.isAlpha || c = '_' || c = '$'

def continuesIdentifier (c : Char) : Bool :=
  c.isAlphanum || c = '_' || c = '$'

def isIdentifier (name : String) : Bool :=
  match name.toList with
  | [] => false
  | c :: rest => startsIdentifier c && rest.all continuesIdentifier

/-- The characters of a name with every one that may not stand in an identifier replaced. -/
def cleaned (name : List Char) : List Char :=
  name.map fun c => if c.isAlphanum || c = '_' then c else '_'

/-- A name made an identifier; one that is an identifier already is kept. -/
def identifier (name : String) : String :=
  if isIdentifier name then name
  else match cleaned name.toList with
    | [] => "_"
    | c :: rest => String.ofList (if c.isDigit then '_' :: c :: rest else c :: rest)

/-! ## Comments -/

/-- The description of a token, if it has one that is not empty. -/
def description? (token : TransformedToken) : Option String :=
  token.description.filter (· ≠ "")

def commentText (text : String) : String :=
  String.ofList (Text.replace ['*', '/'] ['*', ' ', '/'] text.toList)

def blockHeader : String :=
  "/**\n" ++ String.join (headerLines.map fun line => " * " ++ line ++ "\n") ++ " */\n\n"

end Output
end DesignTokens
