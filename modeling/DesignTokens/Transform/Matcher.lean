import DesignTokens.Json.Decode
import DesignTokens.Text.Split

/-!
# Token matchers

A matcher limits a transform to some tokens: those of given types, and those at or below a path.
Types alone decide which family of values a token belongs to: colours, sizes or durations.
-/

namespace DesignTokens

def colorTypes : List String := ["color"]

def sizeTypes : List String :=
  ["dimension", "fontSize", "spacing", "sizing", "borderRadius", "borderWidth"]

def timeTypes : List String := ["duration"]

def isTypeAmong (types : List String) (type : Option String) : Bool :=
  type.any types.contains

/-- Criteria that a token must all meet. No types accept any type. -/
structure TokenMatcher where
  types : List String := []
  pathPrefix : Option String := none
deriving DecidableEq, Repr

namespace TokenMatcher

/-- The segments of a dot path, empty ones passed over. -/
def prefixSegments (text : String) : List String :=
  (Text.split '.' text).filter (· ≠ "")

def accepts (matcher : TokenMatcher) (path : List String) (type : Option String) : Bool :=
  (matcher.types.isEmpty || isTypeAmong matcher.types type) &&
    match matcher.pathPrefix with
    | none => true
    | some text => (prefixSegments text).isPrefixOf path

def toJson (matcher : TokenMatcher) : Json :=
  .object ((if matcher.types.isEmpty then [] else [("types", .ofTexts matcher.types)]) ++
    match matcher.pathPrefix with
    | some text => [("pathPrefix", .string text)]
    | none => [])

def fieldNames : List String := ["types", "pathPrefix"]

def outline : Json.Outline :=
  .plainRecord fieldNames

def ofJson (value : Json) : Json.Decoded TokenMatcher := do
  let fields ← Json.Decode.record fieldNames value
  return { types := ← Json.Decode.fieldOr fields "types" [] (Json.Decode.list Json.Decode.text)
           pathPrefix := ← Json.Decode.fieldOption fields "pathPrefix" Json.Decode.text }

end TokenMatcher
end DesignTokens
