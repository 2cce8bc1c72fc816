import DesignTokens.Output.Format

/-!
# Layouts of outputs

Every output but the JSON ones has an opening, an entry for each token and a closing. In an entry
the name of the token stands between two texts that the token determines as well. What is true of
one entry is so wherever it stands, since a file can be cut around each of its tokens.
-/

namespace DesignTokens
namespace Output

/-- A description is written as a comment when there is one and it is not empty. -/
theorem description?_eq_some_iff {token : TransformedToken} {text : String} :
    description? token = some text ↔ token.description = some text ∧ text ≠ "" := by
  simp [description?, Option.filter_eq_some_iff]

/-- The entries of tokens between an opening and a closing. -/
structure Layout where
  opening : String
  /-- The part of an entry in front of the name. -/
  front : TransformedToken → String
  name : TransformedToken → String
  /-- The part of an entry behind the name. -/
  back : TransformedToken → String
  closing : String

namespace Layout

variable {start : Option String} {base : Float} {tokens before after : List TransformedToken}

def entry (layout : Layout) (token : TransformedToken) : String :=
  layout.front token ++ layout.name token ++ layout.back token

def upTo (layout : Layout) (tokens : List TransformedToken) : String :=
  layout.opening ++ String.join (tokens.map layout.entry)

def onFrom (layout : Layout) (tokens : List TransformedToken) : String :=
  String.join (tokens.map layout.entry) ++ layout.closing

def file (layout : Layout) (tokens : List TransformedToken) : String :=
  layout.opening ++ layout.onFrom tokens

/-- A file is cut at a token into what precedes its entry, the entry, and what follows. -/
theorem file_append_cons (layout : Layout) (before after : List TransformedToken)
    (token : TransformedToken) :
    layout.file (before ++ token :: after) =
      layout.upTo before ++ layout.entry token ++ layout.onFrom after := by
  simp [file, upTo, onFrom, String.append_assoc]

/-! ## The outputs -/

def properties (start : Option String) : Layout where
  opening := blockHeader ++ ":root \x7b\n"
  front _ := "  --"
  name token := prefixed start token.name "-"
  back token := ": " ++ styleValue token ++ ";" ++ trailingComment token ++ "\n"
  closing := "\x7d\n"

def sigilVariables (sigil : Char) (start : Option String) : Layout where
  opening := blockHeader
  front token := lineComment "// " token ++ String.singleton sigil
  name token := prefixed start token.name "-"
  back token := ": " ++ styleValue token ++ ";\n"
  closing := ""

def exports (start : Option String) : Layout where
  opening := blockHeader
  front token := docComment token ++ "export const "
  name := exportName start
  back token := " = " ++ token.value.compact ++ ";\n"
  closing := ""

def declarations (start : Option String) : Layout where
  opening := blockHeader
  front token := docComment token ++ "export declare const "
  name := exportName start
  back token := ": " ++ typeText token.value ++ ";\n"
  closing := ""

/-- Resources, each with its name as an attribute. -/
def resources (start : Option String) (base : Float) : Layout where
  opening := "<?xml version=\"1.0\" encoding=\"utf-8\"?>\n<!-- " ++ Text.join ", " headerLines ++
    " -->\n<resources>\n"
  front token := "  <" ++ (resource base token).element ++ " name=\""
  name token := xmlText (resourceName start token)
  back token := "\">" ++ xmlText (resource base token).text ++ "</" ++
    (resource base token).element ++ ">\n"
  closing := "</resources>\n"

def enumerationFront : String :=
  "//\n" ++ String.join (headerLines.map fun line => "// " ++ line ++ "\n") ++
    "//\n\nimport UIKit\n\npublic enum "

def constants (start : Option String) (base : Float) : Layout where
  opening := enumerationFront ++ swiftTypeName start ++ " \x7b\n"
  front token := lineComment "    /// " token ++ "    public static let "
  name := memberName
  back token := swiftValue base token ++ "\n"
  closing := "\x7d\n"

/-- A file of CSS variables is its layout's file. -/
theorem cssVariables_eq : cssVariables tokens start = (properties start).file tokens := by
  have hentry : customProperty start = (properties start).entry := by
    funext token
    simp only [customProperty, entry, properties, String.append_assoc]
  simp only [cssVariables, hentry, file, onFrom, properties, String.append_assoc]

theorem preprocessorVariables_eq (sigil : Char) :
    preprocessorVariables sigil tokens start = (sigilVariables sigil start).file tokens := by
  have hentry : preprocessorVariable sigil start = (sigilVariables sigil start).entry := by
    funext token
    simp only [preprocessorVariable, entry, sigilVariables, String.append_assoc]
  simp only [preprocessorVariables, hentry, file, onFrom, sigilVariables, String.append_empty]

theorem jsModule_eq : jsModule tokens start = (exports start).file tokens := by
  have hentry : exportLine start = (exports start).entry := by
    funext token
    simp only [exportLine, entry, exports, String.append_assoc]
  simp only [jsModule, hentry, file, onFrom, exports, String.append_empty]

theorem tsDeclarations_eq : tsDeclarations tokens start = (declarations start).file tokens := by
  have hentry : declarationLine start = (declarations start).entry := by
    funext token
    simp only [declarationLine, entry, declarations, String.append_assoc]
  simp only [tsDeclarations, hentry, file, onFrom, declarations, String.append_empty]

theorem androidResources_eq :
    androidResources tokens start base = (resources start base).file tokens := by
  have hentry : resourceLine start base = (resources start base).entry := by
    funext token
    unfold resourceLine entry resources
    simp only [String.append_assoc]
  unfold androidResources file onFrom
  rw [hentry, ← String.append_assoc]
  congr 1

/-- A file of Swift constants is its layout's file. -/
theorem iosSwift_eq : iosSwift tokens start base = (constants start base).file tokens := by
  have hentry : swiftLines base = (constants start base).entry := by
    funext token
    simp only [swiftLines, entry, constants, String.append_assoc]
  simp only [iosSwift, hentry, file, onFrom, constants, enumerationFront, String.append_assoc]

end Layout
end Output
end DesignTokens
