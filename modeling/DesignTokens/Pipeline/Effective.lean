import DesignTokens.Pipeline.Build
import DesignTokens.Token.Alias

/-!
# The view of one layer

What an active layer sees: the tree merged up to it, and for every path in this tree the layer that
it comes from. A token comes from the last layer that has it, a group from the one that first
brought it in. Aliases resolve within this tree, so that later layers are not visible.
-/

namespace DesignTokens

inductive NodeKind where
  | token
  | group
deriving DecidableEq, Repr

namespace NodeKind

def name : NodeKind → String
  | .token => "token"
  | .group => "group"

def ofNode : Node → NodeKind
  | .token _ => .token
  | .group _ _ => .group

end NodeKind

/-- The layer that a path comes from, and whether that is another one than the active layer. -/
structure Provenance where
  layerId : LayerId
  layerName : String
  inherited : Bool
  kind : NodeKind
deriving DecidableEq

namespace Provenance

def toJson (provenance : Provenance) : Json :=
  .object [("layerId", .string provenance.layerId.text),
    ("layerName", .string provenance.layerName), ("inherited", .bool provenance.inherited),
    ("kind", .string provenance.kind.name)]

end Provenance

abbrev Origins := Std.ExtTreeMap String Provenance compare

namespace Origins

/-- The origins with one path of a page of a layer: a token always, a group only where no group is
recorded yet. -/
def note (layer : Layer) (active : LayerId) (origins : Origins) (path : String) (kind : NodeKind) :
    Origins :=
  let provenance : Provenance := ⟨layer.id, layer.name, layer.id ≠ active, kind⟩
  match kind with
  | .token => origins.insert path provenance
  | .group =>
      match origins[path]? with
      | some known => if known.kind = .token then origins.insert path provenance else origins
      | none => origins.insert path provenance

mutual

def recordNode (layer : Layer) (active : LayerId) (origins : Origins) (path : String) :
    Node → Origins
  | .token _ => origins.note layer active path .token
  | .group _ children =>
      recordEntries layer active (origins.note layer active path .group) path children

/-- The origins with the entries of the group at a path and everything below them. -/
def recordEntries (layer : Layer) (active : LayerId) (origins : Origins) (path : String) :
    List (String × Node) → Origins
  | [] => origins
  | (name, node) :: rest =>
      recordEntries layer active (recordNode layer active origins (Path.child path name) node)
        path rest

end

def ofSelection (active : LayerId) (pages : List (Layer × Page)) : Origins :=
  pages.foldl (fun origins (layer, page) =>
    recordEntries layer active origins "" page.tokens.toTree.children) ∅

/-- The origins of those paths that lead to a node of the recorded kind. -/
def within (origins : Origins) (tree : Tree) : Origins :=
  origins.filter fun path provenance =>
    (tree.lookup path).any fun node => NodeKind.ofNode node = provenance.kind

end Origins

structure EffectiveTokens where
  active : LayerId
  tree : Tree
  origins : Origins
  defects : List Defect
deriving DecidableEq

namespace EffectiveTokens

def provenance? (view : EffectiveTokens) (path : String) : Option Provenance :=
  view.origins[path]?

def ownPaths (view : EffectiveTokens) : List String :=
  (view.origins.toList.filter fun (_, provenance) => !provenance.inherited).map (·.1)

def resolve (view : EffectiveTokens) (path : String) : Option Json :=
  (view.tree.token? path).map fun token => view.tree.resolveDeep token.value Alias.defaultBudget

end EffectiveTokens

namespace Pipeline

def effective (pipeline : Pipeline) (active : LayerId) (config : BuildConfig) :
    Except PipelineError EffectiveTokens :=
  if (pipeline.layer? active).isNone then .error (.unknownLayer active.text)
  else
    let selection := pipeline.selectUpTo config active
    let build := selection.build
    .ok ⟨active, build.tree, (Origins.ofSelection active selection.pages).within build.tree,
      build.defects⟩

end Pipeline
end DesignTokens
