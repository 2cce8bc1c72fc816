import DesignTokens.Edit
import DesignTokens.Json.Parser
import DesignTokens.Token.Tree

/-!
# Token documents

A token document is a JSON object. An object with a `$value` is a token and every other object is a
group; a bare value is short for the token with that value. Keys that start with `$` are attributes
of a group, and all other keys are names of its entries.

Written back, a group puts its metadata first, then its type, description and extensions, then its
entries in order.
-/

namespace DesignTokens

/-! ## Reading -/

def textAttribute (path key : String) : Json → Except TokenError String
  | .string text => .ok text
  | _ => .error (.invalidAttribute path key .text)

def fieldsAttribute (path key : String) : Json → Except TokenError (List (String × Json))
  | .object fields => .ok fields
  | _ => .error (.invalidAttribute path key .fields)

namespace Token

/-- A token with one more key of its object; keys without a meaning are passed over. -/
def withKey (path : String) (token : Token) (key : String) (value : Json) :
    Except TokenError Token :=
  if key = "$value" then .ok { token with value := value }
  else if key = "$type" then
    (textAttribute path key value).map fun text => { token with type := some text }
  else if key = "$description" then
    (textAttribute path key value).map fun text => { token with description := some text }
  else if key = "$extensions" then
    (fieldsAttribute path key value).map fun fields => { token with extensions := some fields }
  else .ok token

/-- The token of an object, its keys taken in order. -/
def ofFields (path : String) (fields : List (String × Json)) : Except TokenError Token :=
  fields.foldlM (fun token field => token.withKey path field.1 field.2) {}

end Token

namespace Attributes

/-- The attributes with one more reserved key of a group's object. -/
def withKey (path : String) (attributes : Attributes) (key : String) (value : Json) :
    Except TokenError Attributes :=
  if key = "$type" then
    (textAttribute path key value).map fun text => { attributes with type := some text }
  else if key = "$description" then
    (textAttribute path key value).map fun text => { attributes with description := some text }
  else if key = "$extensions" then
    (fieldsAttribute path key value).map fun fields =>
      { attributes with extensions := some fields }
  else .ok { attributes with metadata := Entries.put attributes.metadata key value }

end Attributes

def isReservedKey (key : String) : Bool :=
  key.toList.head? = some '$'

mutual

def Node.ofJson (path : String) : Json → Except TokenError Node
  | .object fields =>
      if Entries.has fields "$value" then (Token.ofFields path fields).map .token
      else (Tree.addFields path {} fields).map fun tree => .group tree.attributes tree.children
  | value => .ok (.token { value := value })

/-- A tree with further keys of its object, taken in order. -/
def Tree.addFields (path : String) (tree : Tree) : List (String × Json) → Except TokenError Tree
  | [] => .ok tree
  | (key, value) :: rest =>
      if isReservedKey key then
        match tree.attributes.withKey path key value with
        | .ok attributes => Tree.addFields path { tree with attributes := attributes } rest
        | .error e => .error e
      else
        match Path.validateName key with
        | .ok () =>
            match Node.ofJson (Path.child path key) value with
            | .ok node =>
                Tree.addFields path
                  { tree with children := Entries.put tree.children key node } rest
            | .error e => .error e
        | .error e => .error e

end

namespace Tree

def ofJson : Json → Except TokenError Tree
  | .object fields => addFields "" {} fields
  | _ => .error .rootNotObject

def parse (text : String) : Except TokenError Tree :=
  match Json.parse text with
  | some value => ofJson value
  | none => .error .malformed

end Tree

/-! ## Writing -/

def optionalField {α : Type} (key : String) (value : α → Json) : Option α → List (String × Json)
  | some a => [(key, value a)]
  | none => []

def Token.fields (token : Token) : List (String × Json) :=
  ("$value", token.value) :: optionalField "$type" .string token.type ++
    optionalField "$description" .string token.description ++
    optionalField "$extensions" .object token.extensions

def Attributes.fields (attributes : Attributes) : List (String × Json) :=
  attributes.metadata ++ optionalField "$type" .string attributes.type ++
    optionalField "$description" .string attributes.description ++
    optionalField "$extensions" .object attributes.extensions

namespace Node

mutual

def toJson : Node → Json
  | .token t => .object t.fields
  | .group attributes children => .object (attributes.fields ++ entriesToJson children)

def entriesToJson : List (String × Node) → List (String × Json)
  | [] => []
  | (name, node) :: rest => (name, node.toJson) :: entriesToJson rest

end

end Node

namespace Tree

def toJson (tree : Tree) : Json :=
  .object (tree.attributes.fields ++ Node.entriesToJson tree.children)

/-! ## The name of a document -/

def name? (tree : Tree) : Option String :=
  (Entries.get? tree.attributes.metadata "$name").bind Json.string?

def withName (tree : Tree) (name : String) : Tree :=
  { tree with
    attributes :=
      { tree.attributes with
        metadata := Entries.put tree.attributes.metadata "$name" (.string name) } }

/-! ## Setting tokens -/

/-- A token put at a list of segments below the entries of the group at `walked`. Missing groups are
created on the way, and nothing is undone when a later step fails. -/
def putToken (token : Token) (path : String) :
    String → List String → Entries Node → Entries Node × Except TokenError Unit
  | _, [], children => (children, .error (.notFound path))
  | _, [name], children =>
      match Entries.get? children name with
      | some (.group _ _) => (children, .error (.notAToken path))
      | _ => (Entries.put children name (.token token), .ok ())
  | walked, name :: rest, children =>
      let here := Path.child walked name
      match Entries.get? children name with
      | some (.token _) => (children, .error (.notAGroup here))
      | some (.group attributes below) =>
          let (below, outcome) := putToken token path here rest below
          (Entries.put children name (.group attributes below), outcome)
      | none =>
          let (below, outcome) := putToken token path here rest []
          (Entries.put children name (.group {} below), outcome)

/-- Inserts or replaces the token at a path, creating the groups on the way. -/
def setToken (path : String) (token : Token) : Edit TokenError Tree Unit := fun tree =>
  match Path.segments path with
  | [] => .error (.notFound path) tree
  | segments =>
      match Path.validateNames segments with
      | .error e => .error e tree
      | .ok () =>
          match putToken token path "" segments tree.children with
          | (children, .ok ()) => .ok () { tree with children := children }
          | (children, .error e) => .error e { tree with children := children }

end Tree
end DesignTokens
