import DesignTokens.Json.Basic
import DesignTokens.Token.Path

/-!
# Token trees

A token is a design value with an optional type, description and extensions. A group holds tokens
and groups under names, in order, and has attributes of its own. A tree is a group together with
everything below it; a token document is one tree.
-/

namespace DesignTokens

structure Token where
  value : Json := .null
  type : Option String := none
  description : Option String := none
  extensions : Option (List (String × Json)) := none
deriving DecidableEq, Repr

/-- What a group says about itself. The type holds for every token below that has none; the
metadata are all other reserved keys, in order. -/
structure Attributes where
  type : Option String := none
  description : Option String := none
  extensions : Option (List (String × Json)) := none
  metadata : List (String × Json) := []
deriving DecidableEq, Repr

inductive Node where
  | token (token : Token)
  | group (attributes : Attributes) (children : List (String × Node))
deriving Repr

structure Tree where
  attributes : Attributes := {}
  children : List (String × Node) := []
deriving Repr

namespace Node

mutual

def decideEq : (a b : Node) → Decidable (a = b)
  | .token a, .token b => decidable_of_iff (a = b) (by simp)
  | .group a cs, .group b ds =>
      if ha : a = b then
        match decideEntriesEq cs ds with
        | isTrue h => isTrue (by rw [ha, h])
        | isFalse h => isFalse fun he => h (Node.group.inj he).2
      else isFalse fun he => ha (Node.group.inj he).1
  | .token _, .group _ _ => isFalse nofun
  | .group _ _, .token _ => isFalse nofun

def decideEntriesEq : (a b : List (String × Node)) → Decidable (a = b)
  | [], [] => isTrue rfl
  | [], _ :: _ => isFalse nofun
  | _ :: _, [] => isFalse nofun
  | (k, x) :: xs, (l, y) :: ys =>
      if hk : k = l then
        match decideEq x y, decideEntriesEq xs ys with
        | isTrue h, isTrue h' => isTrue (by rw [hk, h, h'])
        | isFalse h, _ => isFalse fun he => h (Prod.mk.inj (List.cons.inj he).1).2
        | _, isFalse h => isFalse fun he => h (List.cons.inj he).2
      else isFalse fun he => hk (Prod.mk.inj (List.cons.inj he).1).1

end

instance : DecidableEq Node := decideEq

/-- The token, if the node is one. -/
def token? : Node → Option Token
  | .token t => some t
  | .group _ _ => none

/-- The tree below the node, if it is a group. -/
def tree? : Node → Option Tree
  | .token _ => none
  | .group attributes children => some ⟨attributes, children⟩

mutual

def tokenCount : Node → Nat
  | .token _ => 1
  | .group _ children => entriesTokenCount children

def entriesTokenCount : List (String × Node) → Nat
  | [] => 0
  | (_, node) :: rest => node.tokenCount + entriesTokenCount rest

end

end Node

namespace Tree

instance : DecidableEq Tree := fun a b =>
  decidable_of_iff (a.attributes = b.attributes ∧ a.children = b.children) (by
    cases a; cases b; simp)

/-- The tree without entries and attributes. -/
def empty : Tree := {}

instance : Inhabited Tree := ⟨empty⟩

/-- The tree has no entries; its attributes do not count. -/
def isEmpty (tree : Tree) : Bool :=
  tree.children.isEmpty

/-- The attributes without the entries. -/
def shell (tree : Tree) : Tree :=
  { tree with children := [] }

def tokenCount (tree : Tree) : Nat :=
  Node.entriesTokenCount tree.children

/-! ## Looking up paths -/

def lookupIn : List String → Entries Node → Option Node
  | [], _ => none
  | [name], children => Entries.get? children name
  | name :: rest, children =>
      match Entries.get? children name with
      | some (.group _ below) => lookupIn rest below
      | _ => none

/-- The node at a path. The empty path, which is the tree itself, is no node. -/
def lookup (tree : Tree) (path : String) : Option Node :=
  lookupIn (Path.segments path) tree.children

def token? (tree : Tree) (path : String) : Option Token :=
  (tree.lookup path).bind Node.token?

end Tree
end DesignTokens
