import DesignTokens.Output.Android
import DesignTokens.Output.StyleSheet

/-!
# Swift constants

An enumeration without cases whose static constants are the tokens. The prefix names the
enumeration and not its members.
-/

namespace DesignTokens
namespace Output

def swiftString (text : String) : String :=
  let slashes := Text.replaceChar '\\' ['\\', '\\'] text.toList
  let quotes := Text.replaceChar '"' ['\\', '"'] slashes
  String.ofList ('"' :: Text.replaceChar '\n' ['\\', 'n'] quotes ++ ['"'])

/-- The words of a prefix, between the characters that are not alphanumeric. -/
def prefixWords (s : List Char) : List String :=
  (s.splitOnP fun c => !Text.isAlphanumeric c).map String.ofList

def swiftTypeName (start : Option String) : String :=
  match start.map fun s => NameCase.pascal.apply (prefixWords s.toList) with
  | some name => if name = "" then "Tokens" else name
  | none => "Tokens"

/-- The name of the constant of a token: its own when it holds ASCII letters, digits and underscores
only, or else its path in camel case. -/
def memberName (token : TransformedToken) : String :=
  let own := token.name.toList.all fun c => c.isAlphanum || c = '_'
  identifier (if own then token.name else NameCase.camel.apply token.path)

def swiftValue (base : Float) (token : TransformedToken) : String :=
  match colorOf? token with
  | some color =>
      let channel (n : UInt8) : String := Value.fixedText (Value.Color.unitChannel n) 3
      " = UIColor(red: " ++ channel color.red ++ ", green: " ++ channel color.green ++
        ", blue: " ++ channel color.blue ++ ", alpha: " ++ color.alphaText ++ ")"
  | none =>
      match pixelsOf? token base with
      | some pixels => ": CGFloat = " ++ Value.numberText pixels
      | none =>
          match token.value with
          | .number n => ": Double = " ++ numberText n
          | .bool b => " = " ++ plainText (.bool b)
          | .string text => " = " ++ swiftString text
          | value => " = " ++ swiftString value.compact

def swiftLines (base : Float) (token : TransformedToken) : String :=
  lineComment "    /// " token ++
    ("    public static let " ++ memberName token ++ swiftValue base token ++ "\n")

def iosSwift (tokens : List TransformedToken) (start : Option String) (base : Float) : String :=
  "//\n" ++ String.join (headerLines.map fun line => "// " ++ line ++ "\n") ++
    "//\n\nimport UIKit\n\npublic enum " ++ swiftTypeName start ++ " \x7b\n" ++
    String.join (tokens.map (swiftLines base)) ++ "\x7d\n"

end Output
end DesignTokens
