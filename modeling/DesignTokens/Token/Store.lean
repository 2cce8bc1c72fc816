import Std.Data.ExtTreeMap
import DesignTokens.Edit
import DesignTokens.Token.Alias
import DesignTokens.Token.Document

/-!
# Path-indexed token stores

A store keeps every node of a tree under its path, and for every group with entries the names of
these in order. Renaming and moving give new keys to the nodes of one subtree and leave all others
alone. Every edit checks its arguments before it changes anything.

The tree of a store is read off from the root: the names listed for a group, each with the node
stored under the path that the name completes.
-/

namespace DesignTokens

/-- What a store keeps for a path: a token, or the attributes of a group. -/
inductive StoredNode where
  | token (token : Token)
  | group (attributes : Attributes)
deriving DecidableEq, Repr

namespace StoredNode

/-- The token, if the node is one. -/
def token? : StoredNode → Option Token
  | .token t => some t
  | .group _ => none

def isGroup : StoredNode → Bool
  | .token _ => false
  | .group _ => true

end StoredNode

/-- Nodes by path, and the names of the entries of groups by the path of the group. -/
structure Store where
  nodes : Std.ExtTreeMap String StoredNode compare
  names : Std.ExtTreeMap String (List String) compare
deriving DecidableEq

namespace Store

def empty : Store where
  nodes := (∅ : Std.ExtTreeMap String StoredNode compare).insert "" (.group {})
  names := ∅

instance : Inhabited Store := ⟨empty⟩

/-! ## Reading -/

def get? (store : Store) (path : String) : Option StoredNode :=
  store.nodes[path]?

def token? (store : Store) (path : String) : Option Token :=
  (store.get? path).bind StoredNode.token?

def contains (store : Store) (path : String) : Bool :=
  (store.get? path).isSome

def isGroup (store : Store) (path : String) : Bool :=
  (store.get? path).any StoredNode.isGroup

def isToken (store : Store) (path : String) : Bool :=
  (store.token? path).isSome

/-- The names of the entries of the group at a path, in order. -/
def children (store : Store) (path : String) : List String :=
  (store.names[path]?).getD []

def size (store : Store) : Nat :=
  store.nodes.size - 1

def isEmpty (store : Store) : Bool :=
  store.size = 0

/-- A bound on the number of groups around any node: every step down makes the path longer. -/
def depth (store : Store) : Nat :=
  store.nodes.keys.foldl (fun most path => max most path.length) 0 + 1

/-! ## Trees -/

mutual

def putNode (store : Store) (path : String) : Node → Store
  | .token t => { store with nodes := store.nodes.insert path (.token t) }
  | .group attributes entries =>
      let store := { store with nodes := store.nodes.insert path (.group attributes) }
      let store := putEntries store path entries
      if entries.isEmpty then store
      else { store with names := store.names.insert path (Entries.keys entries) }

/-- The store with the nodes of the entries of the group at a path. -/
def putEntries (store : Store) (path : String) : List (String × Node) → Store
  | [] => store
  | (name, node) :: rest => putEntries (putNode store (Path.child path name) node) path rest

end

def ofTree (tree : Tree) : Store :=
  putNode empty "" (.group tree.attributes tree.children)

/-- The attributes stored for a group, empty for any other path. -/
def attributes (store : Store) (path : String) : Attributes :=
  match store.get? path with
  | some (.group attributes) => attributes
  | _ => {}

/-- The entries of the group at a path, down to the given number of levels. -/
def entriesAt (store : Store) : Nat → String → Entries Node
  | 0, _ => []
  | level + 1, path =>
      (store.children path).foldl (fun entries name =>
        let here := Path.child path name
        match store.get? here with
        | some (.token t) => Entries.put entries name (.token t)
        | some (.group attributes) =>
            Entries.put entries name (.group attributes (entriesAt store level here))
        | none => entries) []

def toTree (store : Store) : Tree where
  attributes := store.attributes ""
  children := store.entriesAt store.depth ""

def toJson (store : Store) : Json :=
  store.toTree.toJson

def ofJson (value : Json) : Except TokenError Store :=
  (Tree.ofJson value).map ofTree

/-! ## Linking -/

def link (store : Store) (parent name : String) : Store :=
  { store with names := store.names.insert parent (store.children parent ++ [name]) }

/-- The store with a name removed from the entries of a group. A group without entries has no list
of names. -/
def unlink (store : Store) (parent name : String) : Store :=
  match store.names[parent]? with
  | none => store
  | some names =>
      let rest := names.filter (· ≠ name)
      { store with
        names := if rest.isEmpty then store.names.erase parent else store.names.insert parent rest }

def replaceFirst (old new : String) : List String → List String
  | [] => []
  | name :: rest => if name = old then new :: rest else name :: replaceFirst old new rest

/-- The store with the first occurrence of a name among the entries of a group replaced. -/
def relink (store : Store) (parent old new : String) : Store :=
  match store.names[parent]? with
  | none => store
  | some names => { store with names := store.names.insert parent (replaceFirst old new names) }

/-! ## Setting -/

/-- The first token on the way down a list of segments from a path. -/
def tokenOnWay? (store : Store) : String → List String → Option String
  | _, [] => none
  | walked, name :: rest =>
      let here := Path.child walked name
      if store.isToken here then some here else tokenOnWay? store here rest

/-- The store with every missing group on the way down a list of segments from a path. -/
def createGroups (store : Store) : String → List String → Store
  | _, [] => store
  | walked, name :: rest =>
      let here := Path.child walked name
      if store.contains here then createGroups store here rest
      else
        createGroups
          (link { store with nodes := store.nodes.insert here (.group {}) } walked name) here rest

def ensureGroup (path : String) : Edit TokenError Store Unit := do
  let segments := Path.segments path
  Edit.check (Path.validateNames segments)
  let store ← get
  match store.tokenOnWay? "" segments with
  | some here => throw (.notAGroup here)
  | none => set (store.createGroups "" segments)

/-- The store with a token at a path, linked to its parent when the path is new. -/
def putToken (store : Store) (path : String) (token : Token) : Store :=
  let next := { store with nodes := store.nodes.insert path (.token token) }
  if store.contains path then next
  else next.link ((Path.parent? path).getD "") (Path.last path)

/-- Inserts or replaces the token at a path, creating the groups on the way. -/
def setToken (path : String) (token : Token) : Edit TokenError Store Unit := do
  match Path.parent? path with
  | none => throw (.notFound path)
  | some parent =>
      Edit.check (Path.validateName (Path.last path))
      if (← get).isGroup path then throw (.notAToken path)
      ensureGroup parent
      modify (putToken · path token)

/-! ## Subtrees -/

/-- A path and the paths below it in document order, down to the given number of levels. -/
def subtreeAt (store : Store) : Nat → String → List String
  | 0, path => [path]
  | level + 1, path =>
      path :: (store.children path).flatMap fun name =>
        subtreeAt store level (Path.child path name)

def subtree (store : Store) (path : String) : List String :=
  store.subtreeAt store.depth path

/-- The store without a node and its list of names. -/
def drop (store : Store) (path : String) : Store :=
  { nodes := store.nodes.erase path, names := store.names.erase path }

def remove (path : String) : Edit TokenError Store StoredNode := do
  match Path.parent? path with
  | none => throw (.notFound path)
  | some parent =>
      let store ← get
      match store.get? path with
      | none => throw (.notFound path)
      | some node =>
          set (((store.subtree path).foldl drop store).unlink parent (Path.last path))
          return node

/-- The store with the node and the list of names of one path under another. -/
def moveKey (store : Store) (old new : String) : Store where
  nodes :=
    match store.nodes[old]? with
    | some node => (store.nodes.erase old).insert new node
    | none => store.nodes
  names :=
    match store.names[old]? with
    | some names => (store.names.erase old).insert new names
    | none => store.names

def rekey (store : Store) (source target : String) : Store :=
  (store.subtree source).foldl
    (fun store old => store.moveKey old ((Path.rebase? source target old).getD old)) store

/-- Gives the node at a path another name in the same place among its siblings. The answer is the
new path. -/
def rename (path name : String) : Edit TokenError Store String := do
  match Path.parent? path with
  | none => throw (.notFound path)
  | some parent =>
      Edit.check (Path.validateName name)
      let store ← get
      if !store.contains path then throw (.notFound path)
      if Path.last path = name then return path
      let target := Path.child parent name
      if store.contains target then throw (.alreadyExists target)
      set ((store.rekey path target).relink parent (Path.last path) name)
      return target

/-- Moves the node at a path to the end of another group. The answer is the new path. -/
def move (path parent : String) : Edit TokenError Store String := do
  match Path.parent? path with
  | none => throw (.notFound path)
  | some oldParent =>
      let store ← get
      if !store.contains path then throw (.notFound path)
      if !store.contains parent then throw (.notFound parent)
      if !store.isGroup parent then throw (.notAGroup parent)
      if Path.isWithin parent path then throw (.moveIntoSelf path parent)
      if oldParent = parent then return path
      let name := Path.last path
      let target := Path.child parent name
      if store.contains target then throw (.alreadyExists target)
      set (((store.rekey path target).unlink oldParent name).link parent name)
      return target

/-! ## References -/

def tokenPaths (store : Store) : List String :=
  (store.subtree "").filter store.isToken

def reference? (store : Store) (path : String) : Option String :=
  (store.token? path).bind fun token => Alias.valueTarget? token.value

/-- The paths of the tokens that are aliases of a path or of one below it, in document order. -/
def references (store : Store) (target : String) : List String :=
  store.tokenPaths.filter fun path => (store.reference? path).any (Path.isWithin · target)

/-- The alias of the token at a path turned from one subtree to another. -/
def redirected? (store : Store) (path source target : String) : Option Token := do
  let token ← store.token? path
  let reference ← Alias.valueTarget? token.value
  let turned ← Path.rebase? source target reference
  return { token with value := .string (Alias.ofPath turned) }

/-- The store with the alias of the token at a path turned from one subtree to another. -/
def redirect (store : Store) (path source target : String) : Store :=
  match store.redirected? path source target with
  | some token => { store with nodes := store.nodes.insert path (.token token) }
  | none => store

/-- Turns the alias of the token at a path from one subtree to another. The answer says whether the
token changed. -/
def redirectReference (path source target : String) : Edit TokenError Store Bool := do
  let store ← get
  set (store.redirect path source target)
  return (store.redirected? path source target).isSome

end Store
end DesignTokens
