/-!
# Sequences

Operations on lists that concern the first item with a property, repeated items, and all ways to
choose one item from each of several lists.
-/

namespace DesignTokens
namespace Sequence

universe u

variable {α : Type u}

def updateFirst (holds : α → Bool) (change : α → α) : List α → List α
  | [] => []
  | a :: rest => if holds a then change a :: rest else a :: updateFirst holds change rest

/-- The first item that stands earlier in the list already. -/
def firstRepeated? [BEq α] : List α → List α → Option α
  | _, [] => none
  | seen, a :: rest => if seen.contains a then some a else firstRepeated? (a :: seen) rest

/-- All ways to choose one item from each list, the choice from the last list varying fastest. -/
def choices : List (List α) → List (List α)
  | [] => [[]]
  | items :: rest => items.flatMap fun a => (choices rest).map (a :: ·)

end Sequence
end DesignTokens
