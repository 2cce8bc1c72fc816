import DesignTokens.Proofs.Token.Alias
import DesignTokens.Proofs.Token.Merge

/-!
# Two ways to resolve a token

A flat list of tokens is resolved against the names in the list first, and the tokens of a tree are
resolved by walking the tree. The names of a document are valid, so that the name of a flat token is
the path of one token of the tree only, and both look-ups give the same value for every target.

The list starts at the value of a token and the walk at an alias of it, one hop earlier. From the
token's own value on the two go the same way: this hop has marked a composite token as being
resolved, which is how the list marks it from the start.
-/

namespace DesignTokens

/-! ## Flat tokens in their tree -/

namespace FlatToken

/-- The segments lead from a node to a token with the value of the flat one. -/
def ReachedBy (token : FlatToken) (node : Option Node) (segments : List String) : Prop :=
  (∀ name ∈ segments, Path.ValidName name) ∧
    ∃ found, Node.follow node segments = some (.token found) ∧ found.value = token.value

end FlatToken

namespace Node

mutual

/-- A token of a flattened node is reached from it by the rest of its path. -/
theorem reachedBy_of_mem_flatten {node : Node} {path : List String} {inherited : Option String}
    {token : FlatToken} (hnode : node.EachGroup ProperNames)
    (hmem : token ∈ node.flatten path inherited) :
    ∃ rest, token.path = path ++ rest ∧ token.ReachedBy (some node) rest := by
  cases node with
  | token found =>
      have heq : token = found.flat path inherited := by simpa [flatten] using hmem
      subst heq
      exact ⟨[], by simp [Token.flat], by simp, found, rfl, rfl⟩
  | group attributes entries =>
      rcases eachGroup_group_iff.1 hnode with ⟨hnames, hentries⟩
      have hbelow : token ∈ flattenEntries path (attributes.type <|> inherited) entries := by
        simpa [flatten] using hmem
      rcases reachedBy_of_mem_flattenEntries hnames hentries hbelow attributes with
        ⟨name, rest, hpath, hreached⟩
      exact ⟨name :: rest, hpath, hreached⟩

/-- The names of a group are distinct, so that the entry under a name is the one that the flat token
comes from. -/
theorem reachedBy_of_mem_flattenEntries {entries : List (String × Node)} {path : List String}
    {inherited : Option String} {token : FlatToken} (hnames : ProperNames (Entries.keys entries))
    (hentries : EachEntry ProperNames entries)
    (hmem : token ∈ flattenEntries path inherited entries) (attributes : Attributes) :
    ∃ name rest, token.path = path ++ name :: rest ∧
      token.ReachedBy (some (.group attributes entries)) (name :: rest) := by
  cases entries with
  | nil =>
      simp [flattenEntries] at hmem
  | cons entry more =>
      rcases entry with ⟨first, node⟩
      rcases eachEntry_cons_iff.1 hentries with ⟨hnode, hmore⟩
      rcases properNames_cons_iff.1 hnames with ⟨⟨hfirst, hvalid⟩, hothers⟩
      rcases List.mem_append.1 (by simpa [flattenEntries] using hmem) with hhere | hlater
      · -- The token is below the first entry, and the first name leads there.
        rcases reachedBy_of_mem_flatten hnode hhere with ⟨rest, hpath, hrest, found, hfound, hvalue⟩
        have hfollow : follow (some (.group attributes ((first, node) :: more))) (first :: rest) =
            some (.token found) := by simpa [follow, Entries.get?] using hfound
        exact ⟨first, rest, by simpa using hpath, List.forall_mem_cons.2 ⟨hvalid, hrest⟩, found,
          hfollow, hvalue⟩
      · rcases reachedBy_of_mem_flattenEntries hothers hmore hlater attributes with
          ⟨name, rest, hpath, hnamesValid, found, hfound, hvalue⟩
        -- A later entry has another name than the first one, which therefore is not in its way.
        have hne : first ≠ name := by
          rintro rfl
          simp [follow, Entries.get?_eq_none_iff.2 hfirst] at hfound
        refine ⟨name, rest, hpath, hnamesValid, found, ?_, hvalue⟩
        simpa [follow, Entries.get?, hne] using hfound

end

/-- The tokens of an entry are among those of its group. -/
theorem mem_flattenEntries_of_get? {entries : Entries Node} {path : List String}
    {inherited : Option String} {name : String} {node : Node} {token : FlatToken}
    (hget : Entries.get? entries name = some node)
    (hmem : token ∈ node.flatten (path ++ [name]) inherited) :
    token ∈ flattenEntries path inherited entries := by
  induction entries with
  | nil =>
      cases hget
  | cons entry rest ih =>
      rcases entry with ⟨first, other⟩
      rw [flattenEntries, List.mem_append]
      by_cases hname : first = name
      · subst hname
        have hsame : other = node := by simpa [Entries.get?] using hget
        exact Or.inl (hsame ▸ hmem)
      · exact Or.inr (ih (by simpa [Entries.get?, hname] using hget))

/-- The type that the end of a path below a node inherits: that of the last group on the way which
has one. -/
def nearestType (node : Option Node) (path : List String) : Option String :=
  Sequence.lastSome? (fun front => (attributesOf (follow node front)).type) path.inits.dropLast

@[simp] theorem nearestType_nil (node : Option Node) : nearestType node [] = none := rfl

/-- The nearest type along a path is the one found further down, or that of the node. -/
theorem nearestType_cons (node : Option Node) (name : String) (rest : List String) :
    nearestType node (name :: rest) =
      (nearestType (Entries.get? (entriesOf node) name) rest <|> (attributesOf node).type) := by
  have hinits : (name :: rest).inits.dropLast = [] :: rest.inits.dropLast.map (name :: ·) := by
    have hsome : rest.inits.map (name :: ·) ≠ [] := List.ne_nil_of_length_pos (by simp)
    rw [List.inits_cons, List.map_dropLast, List.dropLast_cons_of_ne_nil hsome]
  rw [nearestType, hinits, Sequence.lastSome?_cons, Sequence.lastSome?, List.filterMap_map,
    Option.orElse_eq_orElse, Option.orElse_eq_or]
  rfl

/-- Every token that some segments lead to is in the list, under these segments and with the type
that it inherits there. -/
theorem flat_mem_flatten_of_follow {node : Node} {segments : List String} {found : Token}
    (h : follow (some node) segments = some (.token found)) (path : List String)
    (inherited : Option String) :
    found.flat (path ++ segments) (nearestType (some node) segments <|> inherited) ∈
      node.flatten path inherited := by
  induction segments generalizing node path inherited with
  | nil =>
      have hnode : node = .token found := by simpa [follow] using h
      subst hnode
      simp [flatten]
  | cons name rest ih =>
      cases node with
      | token t =>
          simp [follow] at h
      | group attributes children =>
          cases hget : Entries.get? children name with
          | none =>
              simp [follow, hget] at h
          | some child =>
              have hbelow : follow (some child) rest = some (.token found) := by
                simpa [follow, hget] using h
              -- The group's own type is what its entries inherit.
              have hmem := ih hbelow (path ++ [name]) (attributes.type <|> inherited)
              rw [flatten]
              apply mem_flattenEntries_of_get? hget
              simpa [nearestType_cons, hget, Option.or_assoc] using hmem

end Node

namespace Tree

variable {tree : Tree} {token : FlatToken}

/-- The type that the end of a path inherits from the groups around it, the whole tree included. -/
def nearestType (tree : Tree) (path : List String) : Option String :=
  Node.nearestType (some tree.root) path

theorem token?_eq_some_iff {path : String} {found : Token} :
    tree.token? path = some found ↔ tree.lookup path = some (.token found) := by
  cases hlookup : tree.lookup path with
  | none =>
      simp [token?, hlookup]
  | some node =>
      cases node with
      | token t =>
          simp [token?, hlookup, Node.token?]
      | group attributes children =>
          simp [token?, hlookup, Node.token?]

/-- Every token of a tree is in its flat list. -/
theorem flat_mem_flatten {path : String} {found : Token} (h : tree.token? path = some found) :
    found.flat (Path.segments path) (tree.nearestType (Path.segments path)) ∈ tree.flatten := by
  have hlookup := token?_eq_some_iff.1 h
  have hsegments : Path.segments path ≠ [] := by
    intro hnil
    simp [lookup, hnil, lookupIn] at hlookup
  rw [lookup_eq_at? _ hsegments] at hlookup
  have hmem := Node.flat_mem_flatten_of_follow hlookup [] none
  simpa [root, flatten, Node.flatten, nearestType] using hmem

/-- A token that is looked up is in the flat list, under its segments. -/
theorem exists_mem_flatten {path : String} {found : Token} (h : tree.token? path = some found) :
    ∃ token ∈ tree.flatten, token.path = Path.segments path :=
  ⟨_, flat_mem_flatten h, rfl⟩

/-- The names are valid, so that the joined name is split into the same segments again. -/
theorem segments_name_of_mem_flatten (h : tree.EachGroup Node.ProperNames)
    (hmem : token ∈ tree.flatten) : Path.segments token.name = token.path := by
  rcases Node.reachedBy_of_mem_flattenEntries h.1 h.2 hmem tree.attributes with
    ⟨name, rest, hpath, hnames, -⟩
  have hpath' : token.path = name :: rest := by simpa using hpath
  rw [FlatToken.name, hpath']
  exact Path.segments_ofSegments hnames

/-- The name of a flat token is the path of a token with its value. -/
theorem token?_of_mem_flatten (h : tree.EachGroup Node.ProperNames) (hmem : token ∈ tree.flatten) :
    Path.Quotable token.name ∧
      ∃ found, tree.token? token.name = some found ∧ found.value = token.value := by
  rcases Node.reachedBy_of_mem_flattenEntries h.1 h.2 hmem tree.attributes with
    ⟨name, rest, hpath, hnames, found, hfound, hvalue⟩
  have hsegments : Path.segments token.name = name :: rest :=
    (segments_name_of_mem_flatten h hmem).trans (by simpa using hpath)
  have hlookup : tree.lookup token.name = some (.token found) := by
    have hnonempty : Path.segments token.name ≠ [] := by simp [hsegments]
    rw [tree.lookup_eq_at? hnonempty, hsegments]
    exact hfound
  have hne : token.name ≠ "" := by
    intro hempty
    simp [hempty, Path.segments] at hsegments
  have hvalid : Path.Valid token.name := by
    simpa [Path.Valid, hsegments] using hnames
  exact ⟨⟨hne, hvalid.not_mem_brace⟩, found, by simp [token?, hlookup, Node.token?], hvalue⟩

end Tree

/-! ## Looking up targets -/

namespace FlatToken

variable {tree : Tree} {token : FlatToken} {name : String}

theorem mem_of_lastNamed? {entries : List (String × FlatToken)}
    (h : lastNamed? entries name = some token) : (name, token) ∈ entries := by
  induction entries with
  | nil =>
      cases h
  | cons entry rest ih =>
      rcases entry with ⟨first, other⟩
      -- A later entry of the name goes before this one.
      cases hlater : lastNamed? rest name with
      | some found =>
          have heq : found = token := by simpa [lastNamed?, hlater] using h
          exact List.mem_cons_of_mem _ (ih (heq ▸ hlater))
      | none =>
          have heq : first = name ∧ other = token := by simpa [lastNamed?, hlater] using h
          simp [heq.1, heq.2]

/-- Every target has the same value in a list of tokens of a tree, with the tree after it, and in
the tree alone. The types may differ, since the list has those that tokens inherit. -/
theorem targets_index_of_subset {tokens : List FlatToken} (h : tree.EachGroup Node.ProperNames)
    (hsub : tokens ⊆ tree.flatten) (name : String) :
    (targets (index tokens) tree name).map Prod.fst = (tree.targets name).map Prod.fst := by
  cases hlast : lastNamed? (index tokens) name with
  | none =>
      -- What the list does not have is looked up in the tree.
      simp [targets, hlast]
  | some token =>
      have hindex := mem_of_lastNamed? hlast
      rcases List.mem_map.1 hindex with ⟨member, hmem, heq⟩
      cases heq
      rcases Tree.token?_of_mem_flatten h (hsub hmem) with ⟨-, found, hfound, hvalue⟩
      simp [targets, hlast, Tree.targets, hfound, hvalue]

end FlatToken

namespace Alias

variable {lookup : Lookup} {budget : Nat} {expanding : List String} {text name : String}
  {next : Json} {type : Option String}

/-- Every text in a value is resolved on its own. -/
theorem expand_eq_mapTexts (lookup : Lookup) (budget : Nat) (expanding : List String)
    (value : Json) :
    expand lookup (budget + 1) expanding value =
      value.mapTexts fun text => expand lookup (budget + 1) expanding (.string text) := by
  simp [expand, Json.mapTexts]

/-- A text that is no reference stands for itself. -/
theorem expand_string_of_target?_eq_none (htarget : target? text = none) :
    expand lookup (budget + 1) expanding (.string text) = .string text := by
  simp [expand, Json.mapTexts, htarget]

/-- A reference to what is being expanded stands as it is. -/
theorem expand_string_of_mem (htarget : target? text = some name) (hmem : name ∈ expanding) :
    expand lookup (budget + 1) expanding (.string text) = .string text := by
  simp [expand, Json.mapTexts, htarget, hmem]

/-- A reference that leads nowhere stands as it is. -/
theorem expand_string_of_lookup_eq_none (htarget : target? text = some name)
    (hlookup : lookup name = none) :
    expand lookup (budget + 1) expanding (.string text) = .string text := by
  simp [expand, Json.mapTexts, htarget, hlookup]

/-- A reference that leads to a value is replaced by it, and a composite value is marked. -/
theorem expand_string_of_lookup (htarget : target? text = some name) (hfree : name ∉ expanding)
    (hlookup : lookup name = some (next, type)) :
    expand lookup (budget + 1) expanding (.string text) =
      expand lookup budget (if next.isComposite then name :: expanding else expanding) next := by
  simp [expand, Json.mapTexts, htarget, hfree, hlookup]

/-- Resolving reads the values of targets and not their types. -/
theorem expand_congr {lookup other : Lookup}
    (h : ∀ name, (lookup name).map Prod.fst = (other name).map Prod.fst) (budget : Nat)
    (expanding : List String) (value : Json) :
    expand lookup budget expanding value = expand other budget expanding value := by
  induction budget generalizing expanding value with
  | zero =>
      simp [expand]
  | succ budget ih =>
      rw [expand_eq_mapTexts lookup, expand_eq_mapTexts other]
      apply Json.mapTexts_eq_iff.2
      intro text _
      cases htarget : target? text with
      | none =>
          rw [expand_string_of_target?_eq_none htarget, expand_string_of_target?_eq_none htarget]
      | some name =>
          -- The targets agree on the value, which is all that the next hop starts from.
          have hvalue := (h name).symm
          by_cases hmem : name ∈ expanding
          · rw [expand_string_of_mem htarget hmem, expand_string_of_mem htarget hmem]
          · cases hlookup : lookup name with
            | none =>
                have hother : other name = none := by simpa [hlookup] using hvalue
                rw [expand_string_of_lookup_eq_none htarget hlookup,
                  expand_string_of_lookup_eq_none htarget hother]
            | some found =>
                have hsame : ∃ type, other name = some (found.1, type) := by
                  simpa [hlookup] using hvalue
                rcases hsame with ⟨type, hother⟩
                rw [expand_string_of_lookup htarget hmem hlookup,
                  expand_string_of_lookup htarget hmem hother, ih]

/-- The first hop of an alias leads to the value of its target, which is marked if composite. -/
theorem expand_ofPath {lookup : Lookup} {path : String} {value : Json} {type : Option String}
    (hpath : Path.Quotable path) (hlookup : lookup path = some (value, type)) (budget : Nat) :
    expand lookup (budget + 1) [] (.string (ofPath path)) =
      expand lookup budget (if value.isComposite then [path] else []) value :=
  expand_string_of_lookup (target?_ofPath hpath) List.not_mem_nil hlookup

end Alias

/-! ## Both resolvers -/

namespace FlatToken

variable {tree : Tree}

/-- In a list of tokens of a tree a token is resolved against that tree, with a mark on it if it is
composite. -/
theorem value_resolve_of_subset {tokens : List FlatToken} (h : tree.EachGroup Node.ProperNames)
    (hsub : tokens ⊆ tree.flatten) (token : FlatToken) (budget : Nat) :
    (token.resolve (targets (index tokens) tree) budget).value =
      Alias.expand tree.targets budget (if token.value.isComposite then [token.name] else [])
        token.value :=
  Alias.expand_congr (targets_index_of_subset h hsub) budget _ _

/-- A token of the flat list is resolved like a reference to it in the tree. -/
theorem value_resolve (h : tree.EachGroup Node.ProperNames) (token : FlatToken) (budget : Nat) :
    (token.resolve (targets (index tree.flatten) tree) budget).value =
      Alias.expand tree.targets budget (if token.value.isComposite then [token.name] else [])
        token.value :=
  value_resolve_of_subset h (List.Subset.refl _) token budget

end FlatToken

namespace Tree

/-- Resolving all tokens of a document as a flat list gives each of them the value that resolving an
alias of it in the tree gives with a budget of one hop more. -/
theorem resolveAll_flatten {document : Json} {tree : Tree} (h : ofJson document = .ok tree)
    (budget : Nat) :
    (FlatToken.resolveAll tree.flatten tree budget).map (fun token => (token.path, token.value)) =
      tree.flatten.map fun token =>
        (token.path, tree.resolveDeep (.string (Alias.ofPath token.name)) (budget + 1)) := by
  have hnames := properNames_ofJson h
  rw [FlatToken.resolveAll, List.map_map]
  apply List.map_congr_left
  intro token hmem
  rcases token?_of_mem_flatten hnames hmem with ⟨hquotable, found, hfound, hvalue⟩
  have htarget : tree.targets token.name = some (token.value, found.type) := by
    simp [targets, hfound, hvalue]
  -- Expanding the token marks it as the reference to it does, one hop later.
  have hexpand : (token.resolve (FlatToken.targets (FlatToken.index tree.flatten) tree)
      budget).value = tree.resolveDeep (.string (Alias.ofPath token.name)) (budget + 1) := by
    calc
      (token.resolve (FlatToken.targets (FlatToken.index tree.flatten) tree) budget).value
          = Alias.expand tree.targets budget
              (if token.value.isComposite then [token.name] else []) token.value :=
          FlatToken.value_resolve hnames token budget
      _ = tree.resolveDeep (.string (Alias.ofPath token.name)) (budget + 1) :=
          (Alias.expand_ofPath hquotable htarget budget).symm
  simpa [FlatToken.resolve] using hexpand

/-- Two aliases of one another, a composite value with aliases of itself, of one of them and of a
group in it, and an alias of nothing. -/
def cyclicDocument : Json :=
  .object [("a", .object [("$value", .string (Alias.ofPath "b"))]),
    ("b", .object [("$value", .string (Alias.ofPath "a"))]),
    ("type", .object [("self", .object [("$value", .object [
      ("font", .array [.string (Alias.ofPath "type.self"), .string (Alias.ofPath "a")]),
      ("group", .string (Alias.ofPath "type"))])])]),
    ("broken", .object [("$value", .string (Alias.ofPath "missing"))])]

theorem resolveAll_flatten_cyclicDocument :
    ∃ tree, ofJson cyclicDocument = .ok tree ∧
      (FlatToken.resolveAll tree.flatten tree 2).map (fun token => (token.path, token.value)) =
        tree.flatten.map fun token =>
          (token.path, tree.resolveDeep (.string (Alias.ofPath token.name)) 3) :=
  ⟨_, rfl, @resolveAll_flatten cyclicDocument _ rfl 2⟩

end Tree
end DesignTokens
