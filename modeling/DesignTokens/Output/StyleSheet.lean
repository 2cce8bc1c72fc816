import DesignTokens.Output.ValueText

/-!
# Style sheets

Custom properties of a root rule, and the variables of the two preprocessors, which differ in their
sigil only.
-/

namespace DesignTokens
namespace Output

def trailingComment (token : TransformedToken) : String :=
  match description? token with
  | some text => " /* " ++ commentText text ++ " */"
  | none => ""

def styleValue (token : TransformedToken) : String :=
  styleText token.value token.type

def customProperty (start : Option String) (token : TransformedToken) : String :=
  "  --" ++ prefixed start token.name "-" ++ ": " ++ styleValue token ++ ";" ++
    trailingComment token ++ "\n"

def cssVariables (tokens : List TransformedToken) (start : Option String) : String :=
  blockHeader ++ ":root \x7b\n" ++ String.join (tokens.map (customProperty start)) ++ "\x7d\n"

def lineComment (opening : String) (token : TransformedToken) : String :=
  match description? token with
  | some text => opening ++ text ++ "\n"
  | none => ""

def preprocessorVariable (sigil : Char) (start : Option String) (token : TransformedToken) :
    String :=
  lineComment "// " token ++
    (String.singleton sigil ++ prefixed start token.name "-" ++ ": " ++ styleValue token ++ ";\n")

def preprocessorVariables (sigil : Char) (tokens : List TransformedToken) (start : Option String) :
    String :=
  blockHeader ++ String.join (tokens.map (preprocessorVariable sigil start))

end Output
end DesignTokens
