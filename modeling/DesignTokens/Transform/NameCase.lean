import DesignTokens.Text.Alphanumeric
import DesignTokens.Text.LetterCase
import DesignTokens.Text.Split

/-!
# Name cases

A path becomes a name in one of five cases. Each segment first loses every character that is not
alphanumeric and is put in lower case; what is left are the words of the name, and segments without
a word are passed over.
-/

namespace DesignTokens

/-- A convention for joining words: `colorsBlue`, `colors-blue`, `colors_blue`, `COLORS_BLUE` or
`ColorsBlue`. -/
inductive NameCase where
  | camel
  | kebab
  | snake
  | constant
  | pascal
deriving DecidableEq, Repr

namespace NameCase

def all : List NameCase := [.camel, .kebab, .snake, .constant, .pascal]

def name : NameCase → String
  | .camel => "camel"
  | .kebab => "kebab"
  | .snake => "snake"
  | .constant => "constant"
  | .pascal => "pascal"

def ofName? (name : String) : Option NameCase :=
  all.find? (·.name = name)

def word (segment : List Char) : List Char :=
  Text.lower (segment.filter Text.isAlphanumeric)

def words (segments : List String) : List (List Char) :=
  (segments.map fun segment => word segment.toList).filter (· ≠ [])

def capitalize : List Char → List Char
  | [] => []
  | c :: rest => Text.upperChar c ++ rest

def joinWords (words : List (List Char)) : NameCase → List Char
  | .kebab => ['-'].intercalate words
  | .snake => ['_'].intercalate words
  | .constant => Text.upper (['_'].intercalate words)
  | .pascal => words.flatMap capitalize
  | .camel =>
      match words with
      | [] => []
      | first :: rest => first ++ rest.flatMap capitalize

def apply (style : NameCase) (segments : List String) : String :=
  String.ofList (joinWords (words segments) style)

end NameCase
end DesignTokens
