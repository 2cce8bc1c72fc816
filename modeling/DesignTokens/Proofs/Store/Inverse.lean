import DesignTokens.Proofs.Store.Loading
import DesignTokens.Proofs.Store.Reading
import DesignTokens.Proofs.Store.Refinement

/-!
# Stores and trees are inverse views

The store of a tree is read back as the same tree, with the entries of every group in their order,
and a well-formed store is the store of its own tree. What a store answers about a path is therefore
what its tree has there.

A tree is loaded from the top, so that the store is compared with one node of the tree at a time:
`Holds` says that a node is stored with everything below it.
-/

namespace DesignTokens
namespace Store

variable {store after : Store} {path name : String}

/-! ## Stored nodes -/

mutual

/-- The store has a node of a tree at a path, with everything below it. -/
def Holds (store : Store) (path : String) : Node → Prop
  | .token t => store.get? path = some (.token t)
  | .group attributes entries =>
      store.get? path = some (.group attributes) ∧
        store.children path = Entries.keys entries ∧ HoldsEntries store path entries

/-- The store has entries of the group at a path, with everything below them. -/
def HoldsEntries (store : Store) (path : String) : List (String × Node) → Prop
  | [] => True
  | (name, node) :: rest => Holds store (Path.child path name) node ∧ HoldsEntries store path rest

end

theorem holds_token_iff {token : Token} :
    store.Holds path (.token token) ↔ store.get? path = some (.token token) := by
  rw [Holds]

/-- A store holds a group when it has its metadata and its children in order, and holds each of
them. -/
theorem holds_group_iff {attributes : Attributes} {entries : List (String × Node)} :
    store.Holds path (.group attributes entries) ↔
      store.get? path = some (.group attributes) ∧
        store.children path = Entries.keys entries ∧ store.HoldsEntries path entries := by
  rw [Holds]

theorem holdsEntries_nil : store.HoldsEntries path [] := by
  rw [HoldsEntries]
  trivial

/-- A store holds entries when it holds the first one and the others. -/
theorem holdsEntries_cons_iff {node : Node} {rest : List (String × Node)} :
    store.HoldsEntries path ((name, node) :: rest) ↔
      store.Holds (Path.child path name) node ∧ store.HoldsEntries path rest := by
  rw [HoldsEntries]

mutual

/-- Whether a node is stored is a matter of what is within its path. -/
theorem Holds.congr {node : Node} {path : String} (h : store.Holds path node)
    (hsame : ∀ {other}, Path.isWithin other path = true → SameAt store after other) :
    after.Holds path node := by
  have hhere := hsame (Path.isWithin_self path)
  cases node with
  | token t =>
      rw [holds_token_iff, hhere.1]
      exact holds_token_iff.1 h
  | group attributes entries =>
      rcases holds_group_iff.1 h with ⟨hget, hchildren, hentries⟩
      rw [holds_group_iff, hhere.1, hhere.children]
      refine ⟨hget, hchildren, hentries.congr fun name _ other hother => hsame ?_⟩
      exact Path.isWithin_trans hother (Path.isWithin_child path name)

/-- What a store holds depends on the paths at and below it alone. -/
theorem HoldsEntries.congr {entries : List (String × Node)} {path : String}
    (h : store.HoldsEntries path entries)
    (hsame : ∀ name ∈ Entries.keys entries, ∀ {other},
      Path.isWithin other (Path.child path name) = true → SameAt store after other) :
    after.HoldsEntries path entries := by
  cases entries with
  | nil =>
      exact holdsEntries_nil
  | cons entry rest =>
      rcases entry with ⟨name, node⟩
      rcases holdsEntries_cons_iff.1 h with ⟨hnode, hrest⟩
      refine holdsEntries_cons_iff.2 ⟨hnode.congr ?_, hrest.congr ?_⟩
      · exact hsame name (List.mem_cons_self ..)
      · intro sibling hmem
        exact hsame sibling (List.mem_cons_of_mem _ hmem)

end

/-! ## Loading -/

mutual

/-- A node with proper names that is put where nothing was is held there. -/
theorem putNode_holds {node : Node} {store : Store} {path : String} (hvalid : Path.Valid path)
    (hnames : node.EachGroup Node.ProperNames) (hvacant : store.Vacant path) :
    (store.putNode path node).Holds path node := by
  cases node with
  | token t =>
      exact holds_token_iff.2 ((get?_withNode (.token t) path).trans (if_pos rfl))
  | group attributes entries =>
      rcases Node.eachGroup_group_iff.1 hnames with ⟨hkeys, hentries⟩
      -- The entries are below the path, and the path is not below them.
      have hself : ∀ name ∈ Entries.keys entries,
          Path.isWithin path (Path.child path name) = false := by
        intro name hmem
        exact Path.isWithin_parent_eq_false (hkeys.2 name hmem) rfl
      have hbelow : ∀ name ∈ Entries.keys entries,
          (store.withNode path (.group attributes)).Vacant (Path.child path name) :=
        fun name hmem => hvacant.child (hkeys.2 name hmem) (.group attributes)
      have hget := (putNode_wellFormedWithin hvalid hnames hvacant).2.1
      rcases putEntries_wellFormedWithin hvalid hkeys hentries hbelow with ⟨-, hframe⟩
      rw [putNode_group] at hget ⊢
      refine holds_group_iff.2 ⟨hget, ?_, ?_⟩
      · -- The names are listed last; a group without entries had no list before.
        have hnoNames : ((store.withNode path (.group attributes)).putEntries path
            entries).names[path]? = none :=
          (hframe hself).2.trans (hvacant (Path.isWithin_self path)).2
        exact children_withNames (Entries.keys entries) hnoNames
      · -- What the entries depend on is not the list of names of their group.
        refine (putEntries_holds hvalid hkeys hentries hbelow).congr ?_
        intro name hmem other hother
        exact sameAt_withNames _ (Path.ne_of_isWithin hother (hself name hmem))

/-- Entries with proper names that are put where nothing was are held there. -/
theorem putEntries_holds {entries : List (String × Node)} {store : Store} {path : String}
    (hvalid : Path.Valid path) (hkeys : Node.ProperNames (Entries.keys entries))
    (hentries : Node.EachEntry Node.ProperNames entries)
    (hvacant : ∀ name ∈ Entries.keys entries, store.Vacant (Path.child path name)) :
    (store.putEntries path entries).HoldsEntries path entries := by
  cases entries with
  | nil =>
      exact holdsEntries_nil
  | cons entry rest =>
      rcases entry with ⟨name, node⟩
      rcases Node.eachEntry_cons_iff.1 hentries with ⟨hnode, hrest⟩
      rcases List.nodup_cons.1 hkeys.1 with ⟨hfirst, hdistinct⟩
      have hname : Path.ValidName name := hkeys.2 name (List.mem_cons_self ..)
      have hrestKeys : Node.ProperNames (Entries.keys rest) :=
        ⟨hdistinct, fun sibling hmem => hkeys.2 sibling (List.mem_cons_of_mem _ hmem)⟩
      have hne : ∀ sibling ∈ Entries.keys rest, sibling ≠ name := by
        rintro sibling hmem rfl
        exact hfirst hmem
      have hhere : store.Vacant (Path.child path name) := hvacant name (List.mem_cons_self ..)
      rcases putNode_wellFormedWithin (hvalid.child hname) hnode hhere with ⟨-, -, hframe⟩
      have hrestVacant : ∀ sibling ∈ Entries.keys rest,
          (store.putNode (Path.child path name) node).Vacant (Path.child path sibling) :=
        fun sibling hmem => Vacant.sibling (hvacant sibling (List.mem_cons_of_mem _ hmem)) hname
          (hrestKeys.2 sibling hmem) (hne sibling hmem) hframe
      rw [putEntries]
      refine holdsEntries_cons_iff.2 ⟨?_, putEntries_holds hvalid hrestKeys hrest hrestVacant⟩
      -- The entries that are stored later do not come near the first one.
      refine (putNode_holds (hvalid.child hname) hnode hhere).congr fun {other} hin => ?_
      refine (putEntries_wellFormedWithin hvalid hrestKeys hrest hrestVacant).2 ?_
      intro sibling hmem
      exact isWithin_sibling_eq_false hname (hrestKeys.2 sibling hmem) (hne sibling hmem) hin

end

/-! ## Reading back -/

mutual

/-- What a well-formed store holds at a path is what is read there. -/
theorem Holds.node? {node : Node} {path : String} (h : store.WellFormed)
    (hnode : store.Holds path node) : store.node? path = some node := by
  cases node with
  | token t =>
      simp [Store.node?, holds_token_iff.1 hnode, StoredNode.withEntries]
  | group attributes entries =>
      rcases holds_group_iff.1 hnode with ⟨hget, hchildren, hentries⟩
      have hbelow : store.below path = entries := by
        rw [h.below_eq, hchildren, hentries.ofNames h]
      simp [Store.node?, hget, StoredNode.withEntries, hbelow]

/-- Entries that a well-formed store holds are read back from it. -/
theorem HoldsEntries.ofNames {entries : List (String × Node)} {path : String} (h : store.WellFormed)
    (hentries : store.HoldsEntries path entries) :
    Entries.ofNames (fun name => store.node? (Path.child path name)) (Entries.keys entries) =
      entries := by
  cases entries with
  | nil =>
      rfl
  | cons entry rest =>
      rcases entry with ⟨name, node⟩
      rcases holdsEntries_cons_iff.1 hentries with ⟨hnode, hrest⟩
      have hkeys : Entries.keys ((name, node) :: rest) = name :: Entries.keys rest := rfl
      rw [hkeys, Entries.ofNames_cons, hnode.node? h, hrest.ofNames h]
      rfl

end

theorem vacant_empty : empty.Vacant "" := by
  intro other _
  refine ⟨fun hne => ?_, by simp [empty]⟩
  simp [get?_empty, hne]

/-- Nothing of a tree with proper names is lost in a store, and no order is changed. -/
theorem toTree_ofTree {tree : Tree} (h : tree.EachGroup Node.ProperNames) :
    (ofTree tree).toTree = tree := by
  have hwell := wellFormed_ofTree h
  have hholds : (ofTree tree).Holds "" tree.root :=
    putNode_holds Path.valid_empty (Node.eachGroup_group_iff.2 h) vacant_empty
  have hroot : (ofTree tree).toTree.root = tree.root :=
    Option.some.inj (hwell.node?_root.symm.trans (hholds.node? hwell))
  rcases Node.group.inj hroot with ⟨hattributes, hchildren⟩
  exact congrArg₂ Tree.mk hattributes hchildren

end Store

/-! ## Looking up -/

namespace Tree

variable {tree : Tree} {path : String}

/-- The node at a path, which for the empty path is the whole tree. -/
def node? (tree : Tree) (path : String) : Option Node :=
  if path = "" then some tree.root else tree.lookup path

theorem node?_eq_at? (tree : Tree) (path : String) :
    tree.node? path = tree.at? (Path.segments path) := by
  by_cases hpath : path = ""
  · subst hpath
    rfl
  · have hsegments : Path.segments path ≠ [] := mt Path.segments_eq_nil_iff.1 hpath
    rw [node?, if_neg hpath, lookup_eq_at? tree hsegments]

end Tree

/-- Only valid names lead anywhere in a tree of valid names. -/
theorem Node.EachGroup.validNames_of_follow {node found : Node} {path : List String}
    (h : node.EachGroup Node.ProperNames) (hfound : Node.follow (some node) path = some found) :
    ∀ name ∈ path, Path.ValidName name := by
  induction path generalizing node with
  | nil =>
      exact List.forall_mem_nil _
  | cons first rest ih =>
      cases node with
      | token t =>
          simp [Node.follow] at hfound
      | group attributes children =>
          rcases Node.eachGroup_group_iff.1 h with ⟨hnames, hchildren⟩
          cases hget : Entries.get? children first with
          | none =>
              simp [Node.follow, hget] at hfound
          | some child =>
              have hmem : first ∈ Entries.keys children :=
                Entries.mem_keys_iff_isSome.2 (by simp [hget])
              have hrest := ih (hchildren.get? hget) (by simpa [Node.follow, hget] using hfound)
              exact List.forall_mem_cons.2 ⟨hnames.2 first hmem, hrest⟩

namespace Store

variable {store : Store} {path : String}

structure AgreesAt (store : Store) (tree : Tree) (path : String) : Prop where
  get : store.get? path = (tree.node? path).map stored
  token : store.token? path = tree.token? path
  contains : store.contains path = (tree.node? path).isSome
  children : store.children path = Entries.keys (Node.entriesOf (tree.node? path))

namespace WellFormed

/-- The names in the tree of a store are those that its groups list. -/
theorem properNames_toTree (h : store.WellFormed) : store.toTree.EachGroup Node.ProperNames := by
  have hroot : store.toTree.root.EachGroup Node.ProperNames := by
    refine @node?_induction _ h (fun _ node => node.EachGroup Node.ProperNames) ?token ?group _ _
      h.node?_root
    case token =>
      intro path t _
      exact Node.eachGroup_token t
    case group =>
      intro path attributes _ hentries
      refine Node.eachGroup_group_iff.2 ⟨?_, Node.eachEntry_iff.2 hentries⟩
      rw [h.keys_below]
      exact ⟨h.nodup_children path, fun name hmem => (h.listed hmem).1⟩
  exact Node.eachGroup_group_iff.1 hroot

/-- A store has at every path, valid or not, what its tree has there. -/
theorem node?_toTree (h : store.WellFormed) (path : String) :
    store.toTree.node? path = store.node? path := by
  rw [Tree.node?_eq_at?]
  by_cases hvalid : Path.Valid path
  · exact h.at?_toTree hvalid
  · -- Neither the store nor its tree has anything at a path that is not valid.
    have hfree : store.contains path = false := by simpa using mt h.valid hvalid
    have hnone : store.toTree.at? (Path.segments path) = none := by
      apply Option.eq_none_iff_forall_ne_some.2
      intro found hfound
      exact hvalid (Node.EachGroup.validNames_of_follow
        (Node.eachGroup_group_iff.2 h.properNames_toTree) hfound)
    rw [hnone, Store.node?, contains_eq_false_iff.1 hfree, Option.map_none]

theorem agreesAt_toTree (h : store.WellFormed) (path : String) :
    store.AgreesAt store.toTree path := by
  have hnode := h.node?_toTree path
  -- A node with its entries is stored without them.
  have hstored : ∀ entries node, stored (StoredNode.withEntries entries node) = node := by
    intro entries node
    cases node <;> rfl
  have hget : store.get? path = (store.toTree.node? path).map stored := by
    rw [hnode, Store.node?, Option.map_map]
    cases store.get? path with
    | none =>
        rfl
    | some node =>
        exact congrArg some (hstored _ node).symm
  constructor
  case get =>
    exact hget
  case token =>
    by_cases hpath : path = ""
    · -- The root is a group, and the empty path leads to no token of a tree.
      subst hpath
      rcases isGroup_iff.1 h.root with ⟨attributes, hroot⟩
      have hlookup : store.toTree.token? "" = none := rfl
      rw [hlookup, token?, hroot]
      rfl
    · have hlookup : store.toTree.lookup path = store.node? path := by
        rw [← hnode, Tree.node?, if_neg hpath]
      rw [token?, Tree.token?, hlookup, Store.node?]
      cases store.get? path with
      | none =>
          rfl
      | some node =>
          cases node <;> rfl
  case contains =>
    rw [Store.contains, hget, Option.isSome_map]
  case children =>
    rw [hnode, h.entriesOf_node?, h.keys_below]

/-- A group is given a list of names exactly when it has entries. -/
theorem getElem?_names (h : store.WellFormed) (path : String) :
    store.names[path]? =
      if store.children path = [] then none else some (store.children path) := by
  cases hnames : store.names[path]? with
  | none =>
      simp [children, hnames]
  | some names =>
      have hne : names ≠ [] := (h.owned hnames).2
      simp [children, hnames, hne]

/-- A well-formed store is determined by its tree. -/
theorem ofTree_toTree (h : store.WellFormed) : ofTree store.toTree = store := by
  have hnames := h.properNames_toTree
  have hwell := wellFormed_ofTree hnames
  have hsame := toTree_ofTree hnames
  apply ext_lookup
  · intro path
    have hget := (hwell.agreesAt_toTree path).get
    rw [hsame] at hget
    exact hget.trans (h.agreesAt_toTree path).get.symm
  · intro path
    have hchildren := (hwell.agreesAt_toTree path).children
    rw [hsame] at hchildren
    rw [hwell.getElem?_names, h.getElem?_names, hchildren, (h.agreesAt_toTree path).children]

end WellFormed

/-- Stores and trees are inverse views of one another. The store of a document is well formed, is
read back as the tree of the document with every order kept, and answers for every path what the
tree has there; and every well-formed store is the store of its tree. -/
theorem ofTree_toTree_inverse :
    (∀ {value tree}, Tree.ofJson value = .ok tree →
      (ofTree tree).toTree = tree ∧ (ofTree tree).WellFormed ∧
        ∀ path, (ofTree tree).AgreesAt tree path) ∧
      ∀ {store : Store}, store.WellFormed → ofTree store.toTree = store := by
  refine ⟨?_, fun h => h.ofTree_toTree⟩
  intro value tree hread
  have hnames := Tree.properNames_ofJson hread
  have hwell := wellFormed_ofTree hnames
  have hsame := toTree_ofTree hnames
  refine ⟨hsame, hwell, fun path => ?_⟩
  have hagrees := hwell.agreesAt_toTree path
  rwa [hsame] at hagrees

/-- Groups without entries, names that are numbers, and entries out of the order of their names. -/
def shelfDocument : Json :=
  .object [("space", .object [("$type", .string "dimension"), ("none", .object []),
      ("10", .object [("$value", .string "40px")]), ("2", .string "8px")]),
    ("$name", .string "Shelf"), ("ink", .string "{space.2}")]

theorem ofTree_toTree_inverse_shelf :
    ∃ tree, Tree.ofJson shelfDocument = .ok tree ∧ (ofTree tree).toTree = tree ∧
      (ofTree tree).children "space" = ["none", "10", "2"] ∧
      ofTree (ofTree tree).toTree = ofTree tree := by
  refine ⟨_, rfl, (ofTree_toTree_inverse.1 (rfl : Tree.ofJson shelfDocument = .ok _)).1, ?_, ?_⟩
  · exact ((ofTree_toTree_inverse.1 (rfl : Tree.ofJson shelfDocument = .ok _)).2.2 "space").children
  · exact ofTree_toTree_inverse.2
      (ofTree_toTree_inverse.1 (rfl : Tree.ofJson shelfDocument = .ok _)).2.1

end Store
end DesignTokens
