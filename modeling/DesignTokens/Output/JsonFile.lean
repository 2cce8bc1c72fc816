import DesignTokens.Output.ValueText

/-!
# JSON outputs

The values of tokens nested by their paths, or flat under their names.
-/

namespace DesignTokens
namespace Output

/-- The fields with a value at a list of segments. What stands in the way of a segment gives way to
an object. -/
def insertAt (value : Json) : List String → Entries Json → Entries Json
  | [], fields => fields
  | [name], fields => Entries.put fields name value
  | name :: rest, fields =>
      let below := match Entries.get? fields name with
        | some (.object below) => below
        | _ => []
      Entries.put fields name (.object (insertAt value rest below))

def nested (tokens : List TransformedToken) : Entries Json :=
  tokens.foldl (fun fields token => insertAt token.value token.path fields) []

def flat (tokens : List TransformedToken) (start : Option String) : Entries Json :=
  Entries.ofPairs (tokens.map fun token => (prefixed start token.name "-", token.value))

def jsonFile (fields : Entries Json) : String :=
  (Json.object fields).pretty ++ "\n"

end Output
end DesignTokens
