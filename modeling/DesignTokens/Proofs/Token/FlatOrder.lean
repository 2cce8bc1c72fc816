import DesignTokens.Proofs.Token.Resolution

/-!
# The order of a flat list

Two tokens of a tree are in the order of the entries that lead to them in the group where their
paths part. This is the order of the flat list, and since no group names two entries alike, no path
comes before itself: none is listed twice.
-/

namespace DesignTokens

namespace Node

/-- Two paths part at a group, where the first one goes on to an earlier entry. -/
def Precedes (node : Option Node) (first second : List String) : Prop :=
  ∃ front name rest other more, first = front ++ name :: rest ∧ second = front ++ other :: more ∧
    [name, other].Sublist (Entries.keys (entriesOf (follow node front)))

/-- The order of the paths of flat tokens that go on from a path below a node. -/
def FlatBefore (path : List String) (node : Option Node) (token other : FlatToken) : Prop :=
  ∃ rest more, token.path = path ++ rest ∧ other.path = path ++ more ∧ Precedes node rest more

variable {attributes : Attributes} {entries : Entries Node} {node : Node} {path : List String}
  {name : String} {token other : FlatToken}

/-- What comes before another in an entry does so in the group. -/
theorem FlatBefore.of_entry (h : FlatBefore (path ++ [name]) (some node) token other)
    (hget : Entries.get? entries name = some node) :
    FlatBefore path (some (.group attributes entries)) token other := by
  rcases h with ⟨_, _, htoken, hother, front, first, rest, second, more, rfl, rfl, hsublist⟩
  refine ⟨name :: (front ++ first :: rest), name :: (front ++ second :: more), ?_, ?_,
    name :: front, first, rest, second, more, rfl, rfl, ?_⟩
  · simpa using htoken
  · simpa using hother
  · simpa [follow, hget] using hsublist

/-- What comes before another in the later entries does so with an entry of another name in
front. -/
theorem FlatBefore.cons (h : FlatBefore path (some (.group attributes entries)) token other)
    (hname : name ∉ Entries.keys entries) :
    FlatBefore path (some (.group attributes ((name, node) :: entries))) token other := by
  rcases h with ⟨_, _, htoken, hother, front, first, rest, second, more, rfl, rfl, hsublist⟩
  refine ⟨_, _, htoken, hother, front, first, rest, second, more, rfl, rfl, ?_⟩
  cases front with
  | nil =>
      exact List.Sublist.cons name hsublist
  | cons next back =>
      -- The paths part further down, below one of the later entries.
      have hne : name ≠ next := by
        rintro rfl
        simp [follow, Entries.get?_eq_none_iff.2 hname, Entries.keys] at hsublist
      simpa [follow, Entries.get?, hne] using hsublist

/-- What a flat list reaches below a group begins with one of the group's names. -/
theorem exists_mem_keys_of_reachedBy {attributes : Attributes} {entries : List (String × Node)}
    {token : FlatToken} {name : String} {rest : List String}
    (h : token.ReachedBy (some (.group attributes entries)) (name :: rest)) :
    name ∈ Entries.keys entries := by
  rcases h with ⟨-, found, hfound, -⟩
  cases hget : Entries.get? entries name with
  | none =>
      simp [follow, hget] at hfound
  | some node =>
      exact Entries.mem_keys_iff_isSome.2 (by simp [hget])

mutual

/-- The tokens below a node are listed in document order. -/
theorem pairwise_flatten {node : Node} (h : node.EachGroup ProperNames) (path : List String)
    (inherited : Option String) :
    (node.flatten path inherited).Pairwise (FlatBefore path (some node)) := by
  cases node with
  | token found =>
      exact List.pairwise_singleton _ _
  | group attributes entries =>
      rcases eachGroup_group_iff.1 h with ⟨hnames, hentries⟩
      exact pairwise_flattenEntries hnames hentries path (attributes.type <|> inherited) attributes

/-- The tokens of a group's entries come in the order of the entries. -/
theorem pairwise_flattenEntries {entries : List (String × Node)}
    (hnames : ProperNames (Entries.keys entries)) (hentries : EachEntry ProperNames entries)
    (path : List String) (inherited : Option String) (attributes : Attributes) :
    (flattenEntries path inherited entries).Pairwise
      (FlatBefore path (some (.group attributes entries))) := by
  cases entries with
  | nil =>
      exact List.Pairwise.nil
  | cons entry more =>
      rcases entry with ⟨first, node⟩
      rcases eachEntry_cons_iff.1 hentries with ⟨hnode, hmore⟩
      rcases properNames_cons_iff.1 hnames with ⟨⟨hfirst, -⟩, hothers⟩
      have hget : Entries.get? ((first, node) :: more) first = some node := by simp [Entries.get?]
      rw [flattenEntries]
      refine List.pairwise_append.2 ⟨?_, ?_, ?_⟩
      · -- Two tokens of the first entry are ordered as they are there, and so are two of the
        -- others.
        exact (pairwise_flatten hnode _ _).imp fun h => h.of_entry hget
      · exact (pairwise_flattenEntries hothers hmore _ _ attributes).imp fun h => h.cons hfirst
      · -- The paths part at this group.
        intro token htoken other hother
        rcases reachedBy_of_mem_flatten hnode htoken with ⟨rest, hpath, -⟩
        rcases reachedBy_of_mem_flattenEntries hothers hmore hother attributes with
          ⟨name, rest', hpath', hreached⟩
        have hname : name ∈ Entries.keys more := exists_mem_keys_of_reachedBy hreached
        refine ⟨first :: rest, name :: rest', by simpa using hpath, hpath', [], first, rest, name,
          rest', rfl, rfl, ?_⟩
        exact List.Sublist.cons_cons first (List.singleton_sublist.2 hname)

end

/-- In a list of distinct names nothing precedes itself. -/
theorem not_precedes_self {node : Node} (h : node.EachGroup ProperNames) (path : List String) :
    ¬ Precedes (some node) path path := by
  rintro ⟨front, name, rest, other, more, hfirst, hsecond, hsublist⟩
  have hname : name = other := by
    rw [hfirst] at hsecond
    exact (List.cons.inj (List.append_cancel_left hsecond)).1
  subst hname
  cases hfollow : follow (some node) front with
  | none =>
      simp [hfollow, Entries.keys] at hsublist
  | some found =>
      have hnames : (Entries.keys (entriesOf (some found))).Nodup :=
        (properNames_entriesOf fun below hbelow => by
          cases hbelow
          exact h.follow hfollow).1.1
      -- The group would have the name twice.
      rw [hfollow] at hsublist
      simpa using hnames.sublist hsublist

end Node

namespace Tree

variable {tree : Tree}

/-- The first path comes before the second one in document order. -/
def Precedes (tree : Tree) (first second : List String) : Prop :=
  Node.Precedes (some tree.root) first second

/-- The paths of a flat list come in document order. -/
theorem pairwise_paths_flatten (h : tree.EachGroup Node.ProperNames) :
    (tree.flatten.map (·.path)).Pairwise tree.Precedes := by
  rw [List.pairwise_map]
  refine (Node.pairwise_flattenEntries h.1 h.2 [] tree.attributes.type tree.attributes).imp ?_
  rintro token other ⟨rest, more, htoken, hother, hbefore⟩
  rw [htoken, hother]
  exact hbefore

/-- No two tokens of a list have one path. -/
theorem nodup_paths_flatten (h : tree.EachGroup Node.ProperNames) :
    (tree.flatten.map (·.path)).Nodup := by
  refine (pairwise_paths_flatten h).imp ?_
  rintro first second hbefore rfl
  exact Node.not_precedes_self (Node.eachGroup_group_iff.2 h) first hbefore

end Tree
end DesignTokens
