import DesignTokens.Output.ValueText

/-!
# Android resources

Tokens as elements of an XML document: colours with their alpha first, sizes in `dp` and font sizes
in `sp`, integers, and strings for all else.
-/

namespace DesignTokens
namespace Output

def xmlChar (c : Char) : List Char :=
  if c = '<' then "&lt;".toList
  else if c = '>' then "&gt;".toList
  else if c = '&' then "&amp;".toList
  else if c = '\x27' then "&apos;".toList
  else if c = '"' then "&quot;".toList
  else [c]

def xmlText (text : String) : String :=
  String.ofList (text.toList.flatMap xmlChar)

def isResourceChar (c : Char) : Bool :=
  c.isLower || c.isDigit || c = '_'

/-- The name of a resource: the token's name when it has the form of one, or else its path in snake
case. A digit in front is shielded by an underscore. -/
def resourceName (start : Option String) (token : TransformedToken) : String :=
  let own := token.name ≠ "" && token.name.toList.all isResourceChar
  let name := prefixed start (if own then token.name else NameCase.snake.apply token.path) "_"
  match name.toList with
  | c :: _ => if c.isDigit then "_" ++ name else name
  | [] => name

structure Resource where
  element : String
  text : String
deriving DecidableEq, Repr

/-- A colour with its alpha in front, when it is translucent. -/
def androidColor (color : Value.Color) : String :=
  let channels := Value.Color.hexByte color.red ++ Value.Color.hexByte color.green ++
    Value.Color.hexByte color.blue
  if color.isOpaque then "#" ++ channels
  else "#" ++ Value.Color.hexByte color.alphaByte ++ channels

def colorOf? (token : TransformedToken) : Option Value.Color :=
  if token.type = some "color" then (Value.Color.parse (plainText token.value)).toOption else none

def pixelsOf? (token : TransformedToken) (base : Float) : Option Float :=
  if isTypeAmong sizeTypes token.type then
    (Value.Size.parse (plainText token.value)).toOption.map (·.toPixels base)
  else none

def isLong : Json → Bool
  | .number (.int n) => n < Nat.pow 2 63
  | _ => false

def resource (base : Float) (token : TransformedToken) : Resource :=
  match colorOf? token with
  | some color => ⟨"color", androidColor color⟩
  | none =>
      match pixelsOf? token base with
      | some pixels =>
          ⟨"dimen", Value.numberText pixels ++
            (if token.type = some "fontSize" then "sp" else "dp")⟩
      | none =>
          ⟨if isLong token.value then "integer" else "string", plainText token.value⟩

def resourceLine (start : Option String) (base : Float) (token : TransformedToken) : String :=
  let r := resource base token
  "  <" ++ r.element ++ " name=\"" ++ xmlText (resourceName start token) ++ "\">" ++
    xmlText r.text ++ "</" ++ r.element ++ ">\n"

def androidResources (tokens : List TransformedToken) (start : Option String) (base : Float) :
    String :=
  "<?xml version=\"1.0\" encoding=\"utf-8\"?>\n<!-- " ++ Text.join ", " headerLines ++
    " -->\n<resources>\n" ++ String.join (tokens.map (resourceLine start base)) ++ "</resources>\n"

end Output
end DesignTokens
