import DesignTokens.Token.Tree

/-!
# Flat token lists

The tokens of a tree in document order, each with its full path and its effective type: its own, or
else the one of the nearest group around it that has one.
-/

namespace DesignTokens

structure FlatToken where
  path : List String
  value : Json
  type : Option String := none
  description : Option String := none
  extensions : Option (List (String × Json)) := none
deriving DecidableEq, Repr

namespace FlatToken

def name (token : FlatToken) : String :=
  Path.ofSegments token.path

end FlatToken

namespace Token

/-- The token at a path, under a group with the given effective type. -/
def flat (token : Token) (path : List String) (inherited : Option String) : FlatToken :=
  ⟨path, token.value, token.type <|> inherited, token.description, token.extensions⟩

end Token

namespace Node

mutual

def flatten (path : List String) (inherited : Option String) : Node → List FlatToken
  | .token t => [t.flat path inherited]
  | .group attributes children => flattenEntries path (attributes.type <|> inherited) children

def flattenEntries (path : List String) (inherited : Option String) :
    List (String × Node) → List FlatToken
  | [] => []
  | (name, node) :: rest =>
      flatten (path ++ [name]) inherited node ++ flattenEntries path inherited rest

end

end Node

def Tree.flatten (tree : Tree) : List FlatToken :=
  Node.flattenEntries [] tree.attributes.type tree.children

end DesignTokens
