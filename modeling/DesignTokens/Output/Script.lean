import DesignTokens.Output.ValueText

/-!
# Script modules

A JavaScript module that exports one constant for each token, and the TypeScript declarations of
the same constants. An array whose items all have one type is declared as an array of that type.
-/

namespace DesignTokens
namespace Output

def exportName (start : Option String) (token : TransformedToken) : String :=
  identifier (prefixed start token.name "_")

def docComment (token : TransformedToken) : String :=
  match description? token with
  | some text => "/** " ++ commentText text ++ " */\n"
  | none => ""

def exportLine (start : Option String) (token : TransformedToken) : String :=
  docComment token ++
    ("export const " ++ exportName start token ++ " = " ++ token.value.compact ++ ";\n")

def jsModule (tokens : List TransformedToken) (start : Option String) : String :=
  blockHeader ++ String.join (tokens.map (exportLine start))

/-! ## Types -/

def arrayType : List (List Char) → List Char
  | [] => "unknown[]".toList
  | first :: rest =>
      if rest.all (· = first) then first ++ ['[', ']'] else "unknown[]".toList

mutual

def typeChars : Json → List Char
  | .string _ => "string".toList
  | .number _ => "number".toList
  | .bool _ => "boolean".toList
  | .null => "null".toList
  | .array items => arrayType (itemTypes items)
  | .object fields =>
      ['\x7b', ' '] ++ [';', ' '].intercalate (fieldTypes fields) ++ [' ', '\x7d']

def itemTypes : List Json → List (List Char)
  | [] => []
  | item :: rest => typeChars item :: itemTypes rest

def fieldTypes : List (String × Json) → List (List Char)
  | [] => []
  | (name, value) :: rest =>
      (Json.quoteChars name.toList ++ [':', ' '] ++ typeChars value) :: fieldTypes rest

end

def typeText (value : Json) : String :=
  String.ofList (typeChars value)

def declarationLine (start : Option String) (token : TransformedToken) : String :=
  docComment token ++
    ("export declare const " ++ exportName start token ++ ": " ++ typeText token.value ++ ";\n")

def tsDeclarations (tokens : List TransformedToken) (start : Option String) : String :=
  blockHeader ++ String.join (tokens.map (declarationLine start))

end Output
end DesignTokens
