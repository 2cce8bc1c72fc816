import DesignTokens.Proofs.Store.Subtree
import DesignTokens.Proofs.Token.Group

/-!
# The tree of a store

A tree is read off a store with a bound on the number of levels. In a well-formed store every step
down makes the path longer and no path is longer than the bound, so that the bound is never felt:
the entries of a group are the nodes under its names, with everything below them.
-/

namespace DesignTokens

/-- What is stored for a node, as a node with the given entries. -/
def StoredNode.withEntries (entries : Entries Node) : StoredNode → Node
  | .token t => .token t
  | .group attributes => .group attributes entries

namespace Store

variable {store : Store} {path parent name : String}

/-- The entries of the group at a path, with everything below them. -/
def below (store : Store) (path : String) : Entries Node :=
  store.entriesAt store.depth path

/-- The node at a path, with everything below it. -/
def node? (store : Store) (path : String) : Option Node :=
  (store.get? path).map (StoredNode.withEntries (store.below path))

/-! ## One level -/

/-- The entries at a level are those of the children, each with the entries below it. -/
theorem entriesAt_succ (h : (store.children path).Nodup) (level : Nat) :
    store.entriesAt (level + 1) path =
      Entries.ofNames (fun name => (store.get? (Path.child path name)).map
        (StoredNode.withEntries (store.entriesAt level (Path.child path name))))
        (store.children path) := by
  have hput := @Entries.foldl_put_eq _ _ (fun name => (store.get? (Path.child path name)).map
    (StoredNode.withEntries (store.entriesAt level (Path.child path name)))) h [] (by
      simp [Entries.keys])
  rw [List.nil_append] at hput
  rw [← hput, entriesAt]
  congr 1
  funext entries name
  -- What is put is the same, a token or a group with the entries one level down.
  cases hget : store.get? (Path.child path name) with
  | none =>
      simp [hget]
  | some node =>
      cases node with
      | token t =>
          simp [hget, StoredNode.withEntries]
      | group attributes =>
          simp [hget, StoredNode.withEntries]

namespace WellFormed

/-- A child has a longer path than its parent, within the depth of the store. -/
theorem length_lt_of_mem_children (h : store.WellFormed) (hmem : name ∈ store.children path) :
    path.length < (Path.child path name).length ∧ (Path.child path name).length < store.depth := by
  rcases h.listed hmem with ⟨hname, hc⟩
  exact ⟨Path.length_lt_child hname, length_lt_depth hc⟩

/-- Nothing is below the depth of a store. -/
theorem children_eq_nil_of_depth_le (h : store.WellFormed) (hdepth : store.depth ≤ path.length) :
    store.children path = [] := by
  apply List.eq_nil_iff_forall_not_mem.2
  intro name hmem
  have hlength := h.length_lt_of_mem_children hmem
  omega

/-- Two bounds that reach beyond the longest path give the same entries. -/
theorem entriesAt_eq (h : store.WellFormed) {level other : Nat}
    (hlevel : store.depth ≤ path.length + level) (hother : store.depth ≤ path.length + other) :
    store.entriesAt level path = store.entriesAt other path := by
  induction level generalizing other path with
  | zero =>
      -- The path itself is too long to have entries.
      have hnil := h.children_eq_nil_of_depth_le hlevel
      cases other with
      | zero =>
          rfl
      | succ other =>
          simp [entriesAt, hnil]
  | succ level ih =>
      cases other with
      | zero =>
          have hnil := h.children_eq_nil_of_depth_le hother
          simp [entriesAt, hnil]
      | succ other =>
          rw [entriesAt_succ (h.nodup_children path), entriesAt_succ (h.nodup_children path)]
          apply Entries.ofNames_congr
          intro name hmem
          have hlength := (h.length_lt_of_mem_children hmem).1
          rw [@ih (Path.child path name) other (by omega) (by omega)]

/-- The entries of a group, without a bound. -/
theorem below_eq (h : store.WellFormed) (path : String) :
    store.below path =
      Entries.ofNames (fun name => store.node? (Path.child path name)) (store.children path) := by
  calc
    store.below path
        = store.entriesAt (store.depth + 1) path := h.entriesAt_eq (by omega) (by omega)
    _ = Entries.ofNames (fun name => store.node? (Path.child path name)) (store.children path) :=
        entriesAt_succ (h.nodup_children path) store.depth

/-- What holds of a path whenever it holds of all entries below it holds of every path. -/
theorem below_induction (h : store.WellFormed) {motive : String → Prop}
    (step : ∀ path, (∀ name ∈ store.children path, motive (Path.child path name)) → motive path)
    (path : String) : motive path := by
  -- An entry has a longer path than its group, and no path is as long as the depth.
  generalize hn : store.depth - path.length = n
  induction n using Nat.strong_induction_on generalizing path with
  | _ n ih =>
      apply step
      intro name hmem
      have hlength := h.length_lt_of_mem_children hmem
      exact ih (store.depth - (Path.child path name).length) (by omega) _ rfl

/-! ## Looking up nodes -/

/-- What is below a path is what the store has there, for the names of its children. -/
theorem get?_below (h : store.WellFormed) (path name : String) :
    Entries.get? (store.below path) name =
      if name ∈ store.children path then store.node? (Path.child path name) else none := by
  rw [h.below_eq, Entries.get?_ofNames]

/-- What is not listed is not stored. -/
theorem get?_below_of_validName (h : store.WellFormed) (hname : Path.ValidName name) :
    Entries.get? (store.below path) name = store.node? (Path.child path name) := by
  rw [h.get?_below]
  split
  · rfl
  · rename_i hmem
    have hfree : store.contains (Path.child path name) = false := by
      simpa using fun hc => hmem (h.mem_children_iff.2 ⟨hname, hc⟩)
    simp [node?, contains_eq_false_iff.1 hfree]

theorem entriesOf_node? (h : store.WellFormed) (path : String) :
    Node.entriesOf (store.node? path) = store.below path := by
  -- Only a group has entries.
  have hnone : store.isGroup path = false → store.below path = [] := by
    intro hgroup
    have hnames := h.names_eq_none_of_not_isGroup hgroup
    simp [h.below_eq, children_eq_nil_of_names hnames, Entries.ofNames]
  cases hget : store.get? path with
  | none =>
      simp [node?, hget, hnone (by simp [isGroup, hget])]
  | some node =>
      cases node with
      | token token =>
          have hbelow := hnone (by simp [isGroup, hget, StoredNode.isGroup])
          simp [node?, hget, StoredNode.withEntries, hbelow]
      | group attributes =>
          simp [node?, hget, StoredNode.withEntries]

/-- Every name that a group lists has an entry. -/
theorem keys_below (h : store.WellFormed) (path : String) :
    Entries.keys (store.below path) = store.children path := by
  rw [h.below_eq]
  apply Entries.keys_ofNames
  intro name hmem
  rcases contains_iff.1 (h.listed hmem).2 with ⟨node, hget⟩
  simp [node?, hget]

/-- What holds of stored tokens, and of a group whenever it holds of its entries, holds of all nodes
that are read off the store. -/
theorem node?_induction (h : store.WellFormed) {motive : String → Node → Prop}
    (token : ∀ {path t}, store.get? path = some (.token t) → motive path (.token t))
    (group : ∀ {path attributes}, store.get? path = some (.group attributes) →
      (∀ entry ∈ store.below path, motive (Path.child path entry.1) entry.2) →
        motive path (.group attributes (store.below path)))
    {path : String} {node : Node} (hnode : store.node? path = some node) : motive path node := by
  induction path using h.below_induction generalizing node with
  | step path ih =>
      rcases Option.map_eq_some_iff.1 hnode with ⟨found, hget, rfl⟩
      cases found with
      | token t =>
          exact token hget
      | group attributes =>
          refine group hget fun entry hmem => ?_
          rw [h.below_eq, Entries.mem_ofNames] at hmem
          exact ih entry.1 hmem.1 hmem.2

theorem node?_root (h : store.WellFormed) : store.node? "" = some store.toTree.root := by
  rcases isGroup_iff.1 h.root with ⟨attributes, hget⟩
  simp [node?, hget, StoredNode.withEntries, Tree.root, toTree, Store.attributes, below]

/-- The tree of a store has at every path what the store has there. -/
theorem at?_toTree (h : store.WellFormed) (hpath : Path.Valid path) :
    store.toTree.at? (Path.segments path) = store.node? path := by
  induction hpath using Path.Valid.induction with
  | root =>
      exact h.node?_root.symm
  | child parent name hparent hname ih =>
      calc
        store.toTree.at? (Path.segments (Path.child parent name))
            = Node.follow (store.toTree.at? (Path.segments parent)) [name] := by
              rw [Path.segments_child hname, Tree.at?, Node.follow_append]
        _ = Entries.get? (Node.entriesOf (store.node? parent)) name := by rw [ih]; rfl
        _ = store.node? (Path.child parent name) := by
              rw [h.entriesOf_node?, h.get?_below_of_validName hname]

/-- A lookup in the tree finds what the store has at the path. -/
theorem lookup_toTree (h : store.WellFormed) (hc : store.contains path = true) (hne : path ≠ "") :
    store.toTree.lookup path = store.node? path := by
  have hsegments : Path.segments path ≠ [] := fun hnil => hne (Path.segments_eq_nil_iff.1 hnil)
  rw [Tree.lookup_eq_at? _ hsegments]
  exact h.at?_toTree (h.valid hc)

end WellFormed

end Store
end DesignTokens
