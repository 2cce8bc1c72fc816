import Std.Data.ExtTreeMap
import DesignTokens.Json.Decode
import DesignTokens.Text.Split

/-!
# Assignments

An assignment gives values to variables by their keys. Its pairs are always listed in the order of
the keys.
-/

namespace DesignTokens

abbrev Assignment := Std.ExtTreeMap String String compare

namespace Assignment

/-- The assignment without pairs. -/
def empty : Assignment := ∅

/-- The assignment of several pairs; of two pairs with one key the later one counts. -/
def ofPairs (pairs : List (String × String)) : Assignment :=
  pairs.foldl (fun assignment pair => assignment.insert pair.1 pair.2) ∅

def pairs (assignment : Assignment) : List (String × String) :=
  assignment.toList

def renameKey (assignment : Assignment) (key newKey : String) : Assignment :=
  match assignment[key]? with
  | some value => (assignment.erase key).insert newKey value
  | none => assignment

def renameValue (assignment : Assignment) (key value newValue : String) : Assignment :=
  if assignment[key]? = some value then assignment.insert key newValue else assignment

def describe (assignment : Assignment) : String :=
  "\x7b" ++ Text.join ", " (assignment.pairs.map fun (key, value) => key ++ ": " ++ value) ++ "\x7d"

def toJson (assignment : Assignment) : Json :=
  .object (assignment.pairs.map fun (key, value) => (key, .string value))

def ofJson (value : Json) : Json.Decoded Assignment :=
  (Json.Decode.entries Json.Decode.text value).map ofPairs

end Assignment
end DesignTokens
