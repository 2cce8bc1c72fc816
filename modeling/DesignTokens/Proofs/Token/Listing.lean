import DesignTokens.Proofs.Store.DocumentOrder
import DesignTokens.Proofs.Store.Loading
import DesignTokens.Proofs.Token.PartialLists

/-!
# Flat lists as listings

The flat list of a document has one entry for each token, in document order, and says of each what
the document says. `Tree.IsListing` is this without the recursion that makes the list: the order is
the one that the groups give to their entries, and the type of a token is its own or that of the
nearest group around it.
-/

namespace DesignTokens

namespace Node

/-! ## Counting -/

mutual

theorem length_flatten (node : Node) (path : List String) (inherited : Option String) :
    (node.flatten path inherited).length = node.tokenCount := by
  cases node with
  | token found =>
      rfl
  | group attributes entries =>
      exact length_flattenEntries entries path (attributes.type <|> inherited)

/-- A flat list has as many tokens as the entries. -/
theorem length_flattenEntries (entries : List (String × Node)) (path : List String)
    (inherited : Option String) :
    (flattenEntries path inherited entries).length = entriesTokenCount entries := by
  cases entries with
  | nil =>
      rfl
  | cons entry more =>
      rcases entry with ⟨first, node⟩
      rw [flattenEntries, entriesTokenCount, List.length_append, length_flatten node,
        length_flattenEntries more]

end

end Node

/-! ## Listings -/

namespace Tree

/-- A list has every token of a tree once, in document order, with its path, what it says about
itself, and its effective type. -/
structure IsListing (tree : Tree) (tokens : List FlatToken) : Prop where
  /-- There are as many entries as tokens. -/
  length : tokens.length = tree.tokenCount
  ordered : (tokens.map (·.path)).Pairwise tree.Precedes
  distinct : (tokens.map (·.path)).Nodup
  /-- No path goes on from another one. -/
  apart : ∀ token ∈ tokens, ∀ other ∈ tokens, token.path <+: other.path → token.path = other.path
  /-- The tree has each entry at its name. -/
  listed : ∀ token ∈ tokens, Path.segments token.name = token.path ∧
    ∃ found, tree.lookup token.name = some (.token found) ∧ found.value = token.value ∧
      found.description = token.description ∧ found.extensions = token.extensions ∧
      token.type = (found.type <|> tree.nearestType token.path)
  /-- Each token of the tree has an entry with its path as the name. -/
  complete : ∀ path found, tree.lookup path = some (.token found) →
    ∃ token ∈ tokens, token.name = path

variable {tree : Tree} {token other : FlatToken}

/-- A token of the flat list is one of the tree at its path. -/
theorem exists_at?_eq_token (h : tree.EachGroup Node.ProperNames) (hmem : token ∈ tree.flatten) :
    ∃ found, tree.at? token.path = some (.token found) := by
  rcases Node.reachedBy_of_mem_flattenEntries h.1 h.2 hmem tree.attributes with
    ⟨name, rest, hpath, -, found, hfound, -⟩
  refine ⟨found, ?_⟩
  rw [hpath]
  exact hfound

/-- Nothing stands below a token, so that no path of a token goes on from another. -/
theorem path_eq_of_leading (h : tree.EachGroup Node.ProperNames) (hmem : token ∈ tree.flatten)
    (hother : other ∈ tree.flatten) (hleading : token.path <+: other.path) :
    token.path = other.path := by
  rcases exists_at?_eq_token h hmem with ⟨found, hfound⟩
  rcases exists_at?_eq_token h hother with ⟨last, hlast⟩
  by_contra hne
  have habove : tree.TokenAbove other.path := ⟨token.path, hleading, hne, found, hfound⟩
  rw [at?, Node.follow_eq_none_of_tokenAbove habove] at hlast
  cases hlast

/-- A tree with proper names is listed by its flat list. -/
theorem isListing_flatten_of_properNames (h : tree.EachGroup Node.ProperNames) :
    tree.IsListing tree.flatten where
  length := Node.length_flattenEntries tree.children [] tree.attributes.type
  ordered := pairwise_paths_flatten h
  distinct := nodup_paths_flatten h
  apart := fun _ hmem _ hother hleading => path_eq_of_leading h hmem hother hleading
  listed := by
    intro token hmem
    rcases exists_eq_flat_of_mem_flatten h hmem with ⟨found, hfound, heq⟩
    refine ⟨segments_name_of_mem_flatten h hmem, found, token?_eq_some_iff.1 hfound, ?_⟩
    rw [heq]
    exact ⟨rfl, rfl, rfl, rfl⟩
  complete := by
    intro path found hlookup
    rcases exists_mem_flatten (token?_eq_some_iff.2 hlookup) with ⟨token, hmem, hpath⟩
    refine ⟨token, hmem, ?_⟩
    rw [FlatToken.name, hpath, Path.ofSegments_segments]

/-- The flat list of a document is a listing of it, and a store lists the names of the flat list of
its tree without building either. -/
theorem isListing_flatten :
    (∀ {document : Json} {tree : Tree}, ofJson document = .ok tree → tree.IsListing tree.flatten) ∧
      ∀ {store : Store}, store.WellFormed →
        store.tokenPaths = store.toTree.flatten.map FlatToken.name :=
  ⟨fun h => isListing_flatten_of_properNames (properNames_ofJson h), fun h => h.tokenPaths_eq⟩

/-- A group in a group, with a type for the whole document, one for the outer group and one for a
single token. -/
def typedDocument : Json :=
  .object [("$type", .string "color"),
    ("ink", .object [("$value", .string "#111111")]),
    ("text", .object [("$type", .string "dimension"),
      ("scale", .object [
        ("small", .object [("$value", .string "0.8rem")]),
        ("ratio", .object [("$type", .string "number"), ("$value", .string "1.25")])]),
      ("body", .object [("$value", .string "1rem"), ("$description", .string "Copy")])]),
    ("paper", .object [("$value", .string "#fafafa")])]

def typedTree : Tree where
  attributes := { type := some "color" }
  children :=
    [("ink", .token { value := .string "#111111" }),
      ("text", .group { type := some "dimension" }
        [("scale", .group {}
            [("small", .token { value := .string "0.8rem" }),
              ("ratio", .token { value := .string "1.25", type := some "number" })]),
          ("body", .token { value := .string "1rem", description := some "Copy" })]),
      ("paper", .token { value := .string "#fafafa" })]

theorem isListing_flatten_typedDocument :
    ofJson typedDocument = .ok typedTree ∧ typedTree.IsListing typedTree.flatten ∧
      typedTree.flatten.map (fun token => (token.name, token.type)) =
        [("ink", some "color"), ("text.scale.small", some "dimension"),
          ("text.scale.ratio", some "number"), ("text.body", some "dimension"),
          ("paper", some "color")] ∧
      (Store.ofTree typedTree).WellFormed ∧
      (Store.ofTree typedTree).tokenPaths =
        (Store.ofTree typedTree).toTree.flatten.map FlatToken.name := by
  have hdocument : ofJson typedDocument = .ok typedTree := rfl
  have hstore := Store.wellFormed_ofTree (properNames_ofJson hdocument)
  exact ⟨hdocument, isListing_flatten.1 hdocument, by decide +kernel, hstore,
    isListing_flatten.2 hstore⟩

end Tree
end DesignTokens
