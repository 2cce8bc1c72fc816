import DesignTokens.Token.Tree

/-!
# Merging token trees

A tree is laid over another one. A token replaces whatever stands at its path and keeps its place
in the order. Two groups merge into one that holds the entries of both; a group over a token starts
afresh in the token's place. Each attribute comes from the last tree that defines it.
-/

namespace DesignTokens

/-- The attributes with those of `upper` over them. -/
def Attributes.overlay (lower upper : Attributes) : Attributes where
  type := upper.type <|> lower.type
  description := upper.description <|> lower.description
  extensions := upper.extensions <|> lower.extensions
  metadata := Entries.extend lower.metadata upper.metadata

namespace Node

mutual

def overlay (lower : Option Node) : Node → Node
  | .token t => .token t
  | .group attributes children =>
      match lower with
      | some (.group existing below) =>
          .group (existing.overlay attributes) (overlayEntries below children)
      | _ => .group (Attributes.overlay {} attributes) (overlayEntries [] children)

/-- Entries laid over others, one after another. -/
def overlayEntries (lower : Entries Node) : List (String × Node) → Entries Node
  | [] => lower
  | (name, node) :: rest =>
      overlayEntries (Entries.put lower name (overlay (Entries.get? lower name) node)) rest

end

end Node

/-- `upper` laid over `lower`. -/
def Tree.merge (lower upper : Tree) : Tree where
  attributes := lower.attributes.overlay upper.attributes
  children := Node.overlayEntries lower.children upper.children

end DesignTokens
