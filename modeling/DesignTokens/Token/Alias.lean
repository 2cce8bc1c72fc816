import DesignTokens.Token.Flat

/-!
# Aliases

A text of the form `{dot.separated.path}` is an alias of the token at that path. Resolution follows
aliases with a budget of hops and never fails: an alias of a missing token, or one that the budget
does not reach, stays as it is.

Composite values, which are objects and arrays, are resolved in their fields and items as well.
While a composite value that an alias led to is being resolved, aliases of its own token inside it
stay, so that a token cannot expand into itself.
-/

namespace DesignTokens

namespace Json

def isComposite : Json → Bool
  | .array _ => true
  | .object _ => true
  | _ => false

mutual

/-- The value with every text in it replaced, as a whole value, an item or the value of a field. -/
def mapTexts (f : String → Json) : Json → Json
  | .string text => f text
  | .array items => .array (mapItems f items)
  | .object fields => .object (mapFields f fields)
  | .null => .null
  | .bool value => .bool value
  | .number value => .number value

def mapItems (f : String → Json) : List Json → List Json
  | [] => []
  | item :: rest => mapTexts f item :: mapItems f rest

def mapFields (f : String → Json) : List (String × Json) → List (String × Json)
  | [] => []
  | (name, value) :: rest => (name, mapTexts f value) :: mapFields f rest

end

end Json

namespace Alias

/-- The hops that are followed when no other budget is given. -/
def defaultBudget : Nat := 10

def targetChars? : List Char → Option (List Char)
  | '\x7b' :: rest =>
      let inner := rest.dropLast
      if rest.getLast? = some '\x7d' ∧ inner ≠ [] ∧ '\x7b' ∉ inner ∧ '\x7d' ∉ inner then some inner
      else none
  | _ => none

def target? (text : String) : Option String :=
  (targetChars? text.toList).map String.ofList

def valueTarget? (value : Json) : Option String :=
  value.string?.bind target?

def isAlias (value : Json) : Bool :=
  (valueTarget? value).isSome

def ofPath (path : String) : String :=
  "\x7b" ++ path ++ "\x7d"

/-- What an alias may lead to: the value and the type of the token with a name. -/
abbrev Lookup := String → Option (Json × Option String)

/-! ## Following chains -/

/-- The value at the end of a chain of aliases, as far as the budget allows. -/
def follow (lookup : Lookup) : Nat → Json → Json
  | 0, value => value
  | budget + 1, value =>
      match valueTarget? value with
      | none => value
      | some target =>
          match lookup target with
          | none => value
          | some (next, _) => follow lookup budget next

/-- The first type on a chain of aliases that does not enter the paths in `expanding`. -/
def chainType (lookup : Lookup) (expanding : List String) : Nat → Json → Option String
  | 0, _ => none
  | budget + 1, value =>
      match valueTarget? value with
      | none => none
      | some target =>
          if target ∈ expanding then none
          else match lookup target with
            | none => none
            | some (next, type) => type <|> chainType lookup expanding budget next

/-! ## Resolving composite values -/

/-- The value with all aliases in it resolved. The paths in `expanding` are composite tokens that
are being resolved already. -/
def expand (lookup : Lookup) : Nat → List String → Json → Json
  | 0, _, value => value
  | budget + 1, expanding, value =>
      value.mapTexts fun text =>
        match target? text with
        | none => .string text
        | some target =>
            if target ∈ expanding then .string text
            else match lookup target with
              | none => .string text
              | some (next, _) =>
                  expand lookup budget
                    (if next.isComposite then target :: expanding else expanding) next

end Alias

namespace Tree

/-- The tokens of a tree as targets of aliases, each with its own type. -/
def targets (tree : Tree) : Alias.Lookup := fun path =>
  (tree.token? path).map fun token => (token.value, token.type)

def resolveAlias (tree : Tree) (value : Json) (budget : Nat) : Json :=
  Alias.follow tree.targets budget value

def resolveDeep (tree : Tree) (value : Json) (budget : Nat) : Json :=
  Alias.expand tree.targets budget [] value

end Tree

/-! ## Resolving flat lists -/

/-- A flat token after its aliases have been resolved, with the value as it was written in its
document. -/
structure ResolvedToken where
  path : List String
  value : Json
  written : Json
  type : Option String := none
  description : Option String := none
deriving DecidableEq, Repr

namespace ResolvedToken

def isAlias (token : ResolvedToken) : Bool :=
  Alias.isAlias token.written

end ResolvedToken

namespace FlatToken

def index (tokens : List FlatToken) : List (String × FlatToken) :=
  tokens.map fun token => (token.name, token)

def lastNamed? : List (String × FlatToken) → String → Option FlatToken
  | [], _ => none
  | (name, token) :: rest, key =>
      match lastNamed? rest key with
      | some found => some found
      | none => if name = key then some token else none

/-- The tokens of an index as targets, and after them those of a tree. -/
def targets (index : List (String × FlatToken)) (source : Tree) : Alias.Lookup := fun name =>
  match lastNamed? index name with
  | some token => some (token.value, token.type)
  | none => source.targets name

/-- A token resolved. One that is composite cannot expand into itself. -/
def resolve (lookup : Alias.Lookup) (budget : Nat) (token : FlatToken) : ResolvedToken :=
  let expanding := if token.value.isComposite then [token.name] else []
  { path := token.path
    value := Alias.expand lookup budget expanding token.value
    written := token.value
    type := token.type <|> Alias.chainType lookup expanding budget token.value
    description := token.description }

/-- Every token of a list resolved, against the list first and then against a tree. -/
def resolveAll (tokens : List FlatToken) (source : Tree) (budget : Nat) : List ResolvedToken :=
  tokens.map (resolve (targets (index tokens) source) budget)

end FlatToken
end DesignTokens
