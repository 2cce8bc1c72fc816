import DesignTokens.Proofs.Store.Reading
import DesignTokens.Proofs.Store.References
import DesignTokens.Token.Flat

/-!
# Document order

A store lists the paths of its tokens without building its tree. In a well-formed store these are
the tokens of the tree in document order, each of them once. Turning an alias changes the value of
one token and neither a path nor the order.
-/

namespace DesignTokens

/-- The node with the alias of a token turned from one subtree to another; a group stays. -/
def StoredNode.turn (source target : String) : StoredNode → StoredNode
  | .token t => .token (t.turn source target)
  | .group attributes => .group attributes

namespace Store

variable {store : Store} {path source target : String}

/-! ## Subtrees without a bound -/

namespace WellFormed

/-- Two bounds that reach beyond the longest path give the same paths. -/
theorem subtreeAt_eq (h : store.WellFormed) {level other : Nat}
    (hlevel : store.depth ≤ path.length + level) (hother : store.depth ≤ path.length + other) :
    store.subtreeAt level path = store.subtreeAt other path := by
  induction level generalizing other path with
  | zero =>
      -- The path itself is too long to have entries.
      have hnil := h.children_eq_nil_of_depth_le hlevel
      cases other with
      | zero =>
          rfl
      | succ other =>
          simp [subtreeAt, hnil]
  | succ level ih =>
      cases other with
      | zero =>
          have hnil := h.children_eq_nil_of_depth_le hother
          simp [subtreeAt, hnil]
      | succ other =>
          rw [subtreeAt, subtreeAt]
          congr 1
          apply List.flatMap_congr
          intro name hmem
          have hlength := (h.length_lt_of_mem_children hmem).1
          exact ih (by omega) (by omega)

/-- A subtree of the store is its path and the subtrees of the children, in order. -/
theorem subtree_eq (h : store.WellFormed) (path : String) :
    store.subtree path =
      path :: (store.children path).flatMap fun name => store.subtree (Path.child path name) :=
  @subtreeAt_eq store path h store.depth (store.depth + 1) (by omega) (by omega)

/-- The order of a subtree is that of the lists of names alone. -/
theorem subtree_congr (h : store.WellFormed) {other : Store} (hother : other.WellFormed)
    (hchildren : ∀ path, other.children path = store.children path) (path : String) :
    other.subtree path = store.subtree path := by
  induction path using h.below_induction with
  | step path ih =>
      rw [h.subtree_eq, hother.subtree_eq, hchildren]
      congr 1
      exact List.flatMap_congr ih

/-- Nothing stands twice in a subtree, since no path is within two children of one path. -/
theorem nodup_subtree (h : store.WellFormed) (path : String) : (store.subtree path).Nodup := by
  induction path using h.below_induction with
  | step path ih =>
      -- What is in the subtree of a child is within the child.
      have hwithin : ∀ {name other}, name ∈ store.children path →
          other ∈ store.subtree (Path.child path name) →
            Path.isWithin other (Path.child path name) = true := by
        intro name other hname hmem
        exact (h.within_of_mem_subtreeAt (h.listed hname).2 hmem).2
      rw [h.subtree_eq]
      refine List.nodup_cons.2 ⟨?_, List.nodup_flatMap.2 ⟨ih, ?_⟩⟩
      · intro hmem
        rcases List.mem_flatMap.1 hmem with ⟨name, hname, hbelow⟩
        exact Path.not_isWithin_child (h.listed hname).1 (hwithin hname hbelow)
      · -- A path within two children is within one.
        refine (h.nodup_children path).imp_of_mem ?_
        intro name other hname hother hne path' hmem hmem'
        exact hne (Path.name_eq_of_isWithin_child (h.listed hname).1 (h.listed hother).1
          (hwithin hname hmem) (hwithin hother hmem'))

end WellFormed

/-! ## The tokens of the tree -/

/-- The names of a flat list are those of its entries, entry by entry. -/
theorem map_name_flattenEntries (read : String → Option Node) (names path : List String)
    (inherited : Option String) :
    (Node.flattenEntries path inherited (Entries.ofNames read names)).map FlatToken.name =
      names.flatMap fun name => ((read name).map fun node =>
        (Node.flatten (path ++ [name]) inherited node).map FlatToken.name).getD [] := by
  induction names with
  | nil =>
      simp [Entries.ofNames, Node.flattenEntries]
  | cons name rest ih =>
      cases hread : read name with
      | none =>
          simp [Entries.ofNames_cons, hread, ih]
      | some node =>
          simp [Entries.ofNames_cons, hread, ih, Node.flattenEntries]

namespace WellFormed

/-- The names of the tokens at and below a node are the paths of the tokens in its subtree. -/
theorem map_name_flatten (h : store.WellFormed) {node : StoredNode} (inherited : Option String)
    (hnode : store.get? path = some node) :
    (Node.flatten (Path.segments path) inherited (node.withEntries (store.below path))).map
        FlatToken.name = (store.subtree path).filter store.isToken := by
  induction path using h.below_induction generalizing node inherited with
  | step path ih =>
      rw [h.subtree_eq]
      cases node with
      | token t =>
          have htoken : store.isToken path = true := isToken_iff.2 ⟨t, hnode⟩
          have hnil : store.children path = [] := children_eq_nil_of_names
            (h.names_eq_none_of_not_isGroup (not_isGroup_of_isToken htoken))
          simp [StoredNode.withEntries, Node.flatten, Token.flat, FlatToken.name,
            Path.ofSegments_segments, hnil, htoken]
      | group attributes =>
          have hself : store.isToken path = false := by
            simp [isToken, token?, hnode, StoredNode.token?]
          rw [StoredNode.withEntries, Node.flatten, h.below_eq, map_name_flattenEntries,
            List.filter_cons_of_neg (by simp [hself]), List.filter_flatMap]
          -- Each name leads to a node, whose tokens follow one another in the same order.
          apply List.flatMap_congr
          intro name hmem
          rcases h.listed hmem with ⟨hname, hc⟩
          rcases contains_iff.1 hc with ⟨child, hchild⟩
          have hbelow := ih name hmem (attributes.type <|> inherited) hchild
          rw [Path.segments_child hname] at hbelow
          simpa [node?, hchild] using hbelow

/-- The paths of the tokens are those of the tokens of the tree, in the same order. -/
theorem tokenPaths_eq (h : store.WellFormed) :
    store.tokenPaths = store.toTree.flatten.map FlatToken.name := by
  rcases isGroup_iff.1 h.root with ⟨attributes, hroot⟩
  have hflat := h.map_name_flatten none hroot
  have hattributes : store.attributes "" = attributes := by simp [Store.attributes, hroot]
  have hsegments : Path.segments "" = [] := rfl
  rw [tokenPaths, ← hflat, Tree.flatten, toTree, hattributes, hsegments, StoredNode.withEntries,
    Node.flatten]
  simp [below]

/-- No token is listed twice. -/
theorem nodup_tokenPaths (h : store.WellFormed) : store.tokenPaths.Nodup :=
  (h.nodup_subtree "").filter _

end WellFormed

/-! ## Turned aliases -/

/-- What a store has after one reference is turned. -/
theorem get?_redirect (store : Store) (path source target other : String) :
    (store.redirect path source target).get? other =
      if other = path then (store.get? path).map (StoredNode.turn source target)
      else store.get? other := by
  have hredirected : store.redirected? path source target =
      (store.token? path).bind (Token.turned? source target) := rfl
  unfold redirect
  rw [hredirected]
  cases hget : store.get? path with
  | none =>
      by_cases hother : other = path
      · simp [token?, hget, hother]
      · simp [token?, hget, hother]
  | some node =>
      cases node with
      -- A group is no reference, so that nothing is written.
      | group attributes =>
          by_cases hother : other = path
          · simp [token?, hget, hother, StoredNode.token?, StoredNode.turn]
          · simp [token?, hget, hother, StoredNode.token?]
      | token t =>
          have htoken : store.token? path = some t := token?_eq_some_iff.2 hget
          cases hturned : t.turned? source target with
          -- The token is no reference into the source.
          | none =>
              by_cases hother : other = path
              · simp [htoken, hturned, hother, hget, StoredNode.turn, Token.turn]
              · simp [htoken, hturned, hother]
          | some changed =>
              by_cases hother : other = path
              · simp [htoken, hturned, hother, get?, StoredNode.turn, Token.turn]
              · have hne : path ≠ other := Ne.symm hother
                simp [htoken, hturned, hother, get?, Std.ExtTreeMap.getElem?_insert, hne]

@[simp] theorem names_redirect (store : Store) (path source target : String) :
    (store.redirect path source target).names = store.names := by
  unfold redirect
  split
  · rfl
  · rfl

/-- The store with the aliases of the tokens at several paths turned. -/
def redirectAll (source target : String) (paths : List String) (store : Store) : Store :=
  paths.foldl (fun store path => store.redirect path source target) store

/-- Turning references leaves the names of the store as they are. -/
theorem names_redirectAll (source target : String) (paths : List String) (store : Store) :
    (redirectAll source target paths store).names = store.names := by
  induction paths generalizing store with
  | nil =>
      rfl
  | cons path rest ih =>
      exact (ih (store.redirect path source target)).trans (names_redirect store path source target)

/-- Turning references makes and removes no token. -/
theorem isToken_redirectAll (source target : String) (paths : List String) (store : Store)
    (other : String) :
    (redirectAll source target paths store).isToken other = store.isToken other := by
  induction paths generalizing store with
  | nil =>
      rfl
  | cons path rest ih =>
      exact (ih (store.redirect path source target)).trans
        (isToken_redirect store path source target other)

/-- What a store has after references are turned: the turned node at each of their paths. -/
theorem get?_redirectAll
    (hturn : ∀ token : Token, (token.turn source target).turn source target =
      token.turn source target) (paths : List String) (store : Store) (path : String) :
    (redirectAll source target paths store).get? path =
      if path ∈ paths then (store.get? path).map (StoredNode.turn source target)
      else store.get? path := by
  have htwice : StoredNode.turn source target ∘ StoredNode.turn source target =
      StoredNode.turn source target := by
    funext node
    cases node with
    | token t =>
        simp [StoredNode.turn, hturn]
    | group attributes =>
        rfl
  induction paths generalizing store with
  | nil =>
      simp [redirectAll]
  | cons first rest ih =>
      have hrest := ih (store.redirect first source target)
      rw [get?_redirect] at hrest
      rw [redirectAll, List.foldl_cons]
      refine hrest.trans ?_
      -- A path that is listed again is turned again, which changes nothing.
      by_cases hfirst : path = first
      · subst hfirst
        by_cases hmem : path ∈ rest
        · simp [hmem, htwice]
        · simp [hmem]
      · simp [hfirst]

/-- Turning references keeps a store well-formed. -/
theorem WellFormed.redirectAll (h : store.WellFormed) (source target : String)
    (paths : List String) : (Store.redirectAll source target paths store).WellFormed := by
  induction paths generalizing store with
  | nil =>
      exact h
  | cons path rest ih =>
      exact ih (h.redirect path source target)

/-- Turning references keeps the tokens and their order. -/
theorem WellFormed.tokenPaths_redirectAll (h : store.WellFormed) (source target : String)
    (paths : List String) :
    (Store.redirectAll source target paths store).tokenPaths = store.tokenPaths := by
  have hchildren : ∀ path, (Store.redirectAll source target paths store).children path =
      store.children path := by
    intro path
    rw [children, names_redirectAll]
    rfl
  rw [tokenPaths, tokenPaths,
    h.subtree_congr (h.redirectAll source target paths) hchildren]
  exact List.filter_congr fun path _ => isToken_redirectAll source target paths store path

end Store
end DesignTokens
