import DesignTokens.Proofs.Sequence
import DesignTokens.Proofs.Store.Outcome

/-!
# Adding and replacing nodes

Setting a token creates the groups on the way to it one by one and then links the token. Each of
these steps adds one node under a group that does not have an entry of that name yet, and replacing
a token or turning an alias changes one token in its place. All of them keep a store well formed.

The one exception is a token set at `.x`: its parent is the root, which takes `x` as the name of an
entry, while the token is stored under a path that no group leads to.
-/

namespace DesignTokens
namespace Store

variable {store : Store} {path parent name : String}

/-- The store with a node at a path, without a link to it. -/
def withNode (store : Store) (path : String) (node : StoredNode) : Store :=
  { store with nodes := store.nodes.insert path node }

/-! ## What the steps change -/

/-- What a store has after one node is put into it. -/
theorem get?_withNode (node : StoredNode) (other : String) :
    (store.withNode path node).get? other =
      if other = path then some node else store.get? other := by
  by_cases h : other = path
  · simp [get?, withNode, h]
  · have h' : path ≠ other := Ne.symm h
    simp [get?, withNode, Std.ExtTreeMap.getElem?_insert, h, h']

theorem get?_link (other : String) : (store.link parent name).get? other = store.get? other :=
  rfl

theorem children_withNode (node : StoredNode) (other : String) :
    (store.withNode path node).children other = store.children other :=
  rfl

/-- Linking a name puts it last among the names of its parent. -/
theorem getElem?_names_link (other : String) :
    (store.link parent name).names[other]? =
      if other = parent then some (store.children parent ++ [name]) else store.names[other]? := by
  by_cases h : other = parent
  · simp [link, h]
  · have h' : parent ≠ other := Ne.symm h
    simp [link, Std.ExtTreeMap.getElem?_insert, h, h']

theorem children_link (other : String) :
    (store.link parent name).children other =
      if other = parent then store.children parent ++ [name] else store.children other := by
  by_cases h : other = parent
  · simp [children, getElem?_names_link, h]
  · simp [children, getElem?_names_link, h]

/-! ## One new node -/

/-- A new node under a group, linked at the end of the group's entries. -/
def addChild (store : Store) (parent name : String) (node : StoredNode) : Store :=
  (store.withNode (Path.child parent name) node).link parent name

/-- What a store has after a child is added. -/
theorem get?_addChild (node : StoredNode) (other : String) :
    (store.addChild parent name node).get? other =
      if other = Path.child parent name then some node else store.get? other :=
  get?_withNode node other

/-- The new child comes last among those of its parent, and no other group has a new one. -/
theorem children_addChild (node : StoredNode) (other : String) :
    (store.addChild parent name node).children other =
      if other = parent then store.children parent ++ [name] else store.children other := by
  simp [addChild, children_link, children_withNode]

/-- A group stays one when a child is added where nothing was. -/
theorem isGroup_addChild_of_isGroup {node : StoredNode} {other : String}
    (hfree : store.contains (Path.child parent name) = false) (h : store.isGroup other = true) :
    (store.addChild parent name node).isGroup other = true := by
  rcases isGroup_iff.1 h with ⟨attributes, hget⟩
  have hne : other ≠ Path.child parent name := by
    intro heq
    rw [heq, contains_eq_false_iff.1 hfree] at hget
    cases hget
  exact isGroup_iff.2 ⟨attributes, by simp [get?_addChild, hne, hget]⟩

/-- A name whose path is free is not among the children. -/
theorem WellFormed.not_mem_children (h : store.WellFormed)
    (hfree : store.contains (Path.child parent name) = false) : name ∉ store.children parent := by
  intro hmem
  rw [(h.listed hmem).2] at hfree
  cases hfree

/-- A child with a valid name, in a group and where nothing was, keeps a store well-formed. -/
theorem WellFormed.addChild (h : store.WellFormed) (hgroup : store.isGroup parent = true)
    (hname : Path.ValidName name) (hfree : store.contains (Path.child parent name) = false)
    (node : StoredNode) : (store.addChild parent name node).WellFormed := by
  -- The new path is there, and what was there still is.
  have hcontains : ∀ {other}, (store.addChild parent name node).contains other = true ↔
      other = Path.child parent name ∨ store.contains other = true := by
    intro other
    by_cases heq : other = Path.child parent name
    · simp [contains, get?_addChild, heq]
    · simp [contains, get?_addChild, heq]
  have hkeep : ∀ {other}, store.isGroup other = true →
      (store.addChild parent name node).isGroup other = true :=
    isGroup_addChild_of_isGroup hfree
  refine WellFormed.of_children (hkeep h.root) ?valid ?linked ?nodup ?listed ?nonempty
  case valid =>
    intro other hc
    rcases hcontains.1 hc with rfl | hold
    · exact (h.valid (contains_of_isGroup hgroup)).child hname
    · exact h.valid hold
  case linked =>
    intro other otherName hother hc
    rcases hcontains.1 hc with heq | hold
    · -- The new node itself: its name was added to the list of its parent.
      rcases (Path.child_inj hother hname).1 heq with ⟨rfl, rfl⟩
      exact ⟨hkeep hgroup, by simp [children_addChild]⟩
    · rcases h.linked_child hother hold with ⟨hg, hcount⟩
      have hmem : otherName ∈ store.children other := (h.mem_children_iff).2 ⟨hother, hold⟩
      refine ⟨hkeep hg, ?_⟩
      rw [children_addChild]
      split
      · rename_i heq
        exact List.mem_append_left _ (heq ▸ hmem)
      · exact hmem
  case nodup =>
    intro other
    rw [children_addChild]
    split
    · exact Sequence.nodup_append_singleton (h.nodup_children parent) (h.not_mem_children hfree)
    · exact h.nodup_children other
  case listed =>
    intro other otherName hmem
    rw [children_addChild] at hmem
    split at hmem
    · rename_i heq
      rcases List.mem_append.1 hmem with hold | hnew
      · rcases h.listed hold with ⟨hvalid, hc⟩
        exact ⟨hvalid, hcontains.2 (Or.inr (heq ▸ hc))⟩
      · rw [List.mem_singleton.1 hnew, heq]
        exact ⟨hname, hcontains.2 (Or.inl rfl)⟩
    · rcases h.listed hmem with ⟨hvalid, hc⟩
      exact ⟨hvalid, hcontains.2 (Or.inr hc)⟩
  case nonempty =>
    intro other hnil
    rw [Store.addChild, getElem?_names_link] at hnil
    split at hnil
    · simp at hnil
    · exact h.names_ne_nil other hnil

/-! ## Missing groups -/

/-- A new group is no token, and hides none. -/
theorem isToken_addChild_group {attributes : Attributes} {other : String}
    (hfree : store.contains (Path.child parent name) = false) :
    (store.addChild parent name (.group attributes)).isToken other = store.isToken other := by
  by_cases heq : other = Path.child parent name
  · simp [isToken, token?, get?_addChild, heq, contains_eq_false_iff.1 hfree, StoredNode.token?]
  · simp [isToken, token?, get?_addChild, heq]

/-- Which token is on the way depends on the tokens of the store alone. -/
theorem tokenOnWay?_congr {other : Store} (h : ∀ path, other.isToken path = store.isToken path)
    (segments : List String) (walked : String) :
    other.tokenOnWay? walked segments = store.tokenOnWay? walked segments := by
  induction segments generalizing walked with
  | nil =>
      rfl
  | cons name rest ih =>
      simp only [tokenOnWay?, h, ih]

/-- A segment that is there is passed over. -/
theorem createGroups_cons_of_contains {rest : List String} {walked : String}
    (hc : store.contains (Path.child walked name) = true) :
    store.createGroups walked (name :: rest) =
      store.createGroups (Path.child walked name) rest := by
  simp [createGroups, hc]

/-- A segment that is free becomes a group. -/
theorem createGroups_cons_of_free {rest : List String} {walked : String}
    (hfree : store.contains (Path.child walked name) = false) :
    store.createGroups walked (name :: rest) =
      (store.addChild walked name (.group {})).createGroups (Path.child walked name) rest := by
  simp [createGroups, hfree, addChild, withNode]

/-- Creating groups along valid names goes on below a group that is there, or below one that it adds
to the group reached so far. -/
theorem WellFormed.createGroups_induction {motive : Store → String → List String → Prop}
    (done : ∀ {store walked}, store.WellFormed → store.isGroup walked = true →
      motive store walked [])
    (present : ∀ {store walked name rest}, store.WellFormed → Path.ValidName name →
      store.contains (Path.child walked name) = true →
      motive store (Path.child walked name) rest → motive store walked (name :: rest))
    (missing : ∀ {store walked name rest}, store.WellFormed → store.isGroup walked = true →
      Path.ValidName name → store.contains (Path.child walked name) = false →
      motive (store.addChild walked name (.group {})) (Path.child walked name) rest →
      motive store walked (name :: rest))
    {store : Store} {segments : List String} {walked : String} (h : store.WellFormed)
    (hgroup : store.isGroup walked = true) (hnames : ∀ name ∈ segments, Path.ValidName name)
    (htoken : store.tokenOnWay? walked segments = none) : motive store walked segments := by
  induction segments generalizing store walked with
  | nil =>
      exact done h hgroup
  | cons name rest ih =>
      rcases List.forall_mem_cons.1 hnames with ⟨hname, hrest⟩
      simp only [tokenOnWay?] at htoken
      split at htoken
      · cases htoken
      · rename_i hnotToken
        by_cases hc : store.contains (Path.child walked name) = true
        · have hhere : store.isGroup (Path.child walked name) = true :=
            (isGroup_or_isToken hc).resolve_right hnotToken
          exact present h hname hc (ih h hhere hrest htoken)
        · have hfree : store.contains (Path.child walked name) = false := by simpa using hc
          have hhere : (store.addChild walked name (.group {})).isGroup
              (Path.child walked name) = true :=
            isGroup_iff.2 ⟨{}, by simp [get?_addChild]⟩
          -- A new group is no token, so that the rest of the way is still free of them.
          have hway : (store.addChild walked name (.group {})).tokenOnWay?
              (Path.child walked name) rest = none := by
            rw [tokenOnWay?_congr fun _ => isToken_addChild_group hfree]
            exact htoken
          exact missing h hgroup hname hfree
            (ih (h.addChild hgroup hname hfree (.group {})) hhere hrest hway)

/-- Creating the groups along valid names keeps a store well formed, ends in a group, and touches
only what lies on the way. -/
theorem WellFormed.createGroups {segments : List String} {walked : String} (h : store.WellFormed)
    (hgroup : store.isGroup walked = true) (hnames : ∀ name ∈ segments, Path.ValidName name)
    (htoken : store.tokenOnWay? walked segments = none) :
    (store.createGroups walked segments).WellFormed ∧
      (store.createGroups walked segments).isGroup (segments.foldl Path.child walked) = true ∧
      ∀ other, Path.isWithin (segments.foldl Path.child walked) other = false →
        (store.createGroups walked segments).get? other = store.get? other := by
  refine h.createGroups_induction
    (motive := fun store walked segments =>
      (store.createGroups walked segments).WellFormed ∧
        (store.createGroups walked segments).isGroup (segments.foldl Path.child walked) = true ∧
        ∀ other, Path.isWithin (segments.foldl Path.child walked) other = false →
          (store.createGroups walked segments).get? other = store.get? other)
    ?done ?present ?missing hgroup hnames htoken
  case done =>
    intro store walked h hgroup
    exact ⟨h, hgroup, fun _ _ => rfl⟩
  case present =>
    intro store walked name rest _ _ hc ih
    rwa [createGroups_cons_of_contains hc]
  case missing =>
    intro store walked name rest _ _ _ hfree ih
    rcases ih with ⟨hwell, hend, hframe⟩
    rw [createGroups_cons_of_free hfree]
    refine ⟨hwell, hend, fun other hother => ?_⟩
    -- What is at the new group is not what the frame is about.
    have hne : other ≠ Path.child walked name := by
      rintro rfl
      rw [List.foldl_cons, Path.isWithin_foldl_child] at hother
      cases hother
    exact (hframe other hother).trans (by simp [get?_addChild, hne])

/-- An accepted `ensureGroup` leaves a well-formed store with a group at the path, and nothing but
the way there is new. -/
theorem WellFormed.ensureGroup {after : Store} {u : Unit} (h : store.WellFormed)
    (hrun : (ensureGroup path).run store = .ok u after) :
    after.WellFormed ∧ after.isGroup path = true ∧
      ∀ other, Path.isWithin path other = false → after.get? other = store.get? other := by
  rcases run_ensureGroup_eq_ok.1 hrun with ⟨hnames, htoken, rfl⟩
  have hpath : (Path.segments path).foldl Path.child "" = path := Path.foldl_child_segments hnames
  simpa [hpath] using h.createGroups h.root hnames htoken

/-! ## Tokens in place -/

/-- A token in the place of another one. -/
theorem WellFormed.replaceToken (h : store.WellFormed) (htoken : store.isToken path = true)
    (token : Token) : (store.withNode path (.token token)).WellFormed := by
  have hisGroup : ∀ other, (store.withNode path (.token token)).isGroup other =
      store.isGroup other := by
    intro other
    by_cases heq : other = path
    · rw [heq, not_isGroup_of_isToken htoken]
      simp [isGroup, get?_withNode, StoredNode.isGroup]
    · simp [isGroup, get?_withNode, heq]
  have hcontains : ∀ other, (store.withNode path (.token token)).contains other =
      store.contains other := by
    intro other
    by_cases heq : other = path
    · rcases isToken_iff.1 htoken with ⟨old, hold⟩
      simp [contains, get?_withNode, heq, hold]
    · simp [contains, get?_withNode, heq]
  -- No group comes or goes, and no list of names is touched.
  constructor
  case root =>
    rw [hisGroup]
    exact h.root
  case valid =>
    intro other hc
    exact h.valid (by rwa [hcontains] at hc)
  case linked =>
    intro other otherParent hc hparent
    rw [hisGroup]
    exact h.linked (by rwa [hcontains] at hc) hparent
  case listed =>
    intro other otherName hmem
    rw [hcontains]
    exact h.listed hmem
  case owned =>
    intro other names hnames
    rw [hisGroup]
    exact h.owned hnames

/-- Turning a reference keeps a store well-formed. -/
theorem WellFormed.redirect (h : store.WellFormed) (path source target : String) :
    (store.redirect path source target).WellFormed := by
  unfold Store.redirect
  cases hredirected : store.redirected? path source target with
  | none =>
      exact h
  | some token =>
      refine h.replaceToken ?_ token
      simp only [redirected?, Option.bind_eq_bind, Option.bind_eq_some_iff] at hredirected
      rcases hredirected with ⟨old, hold, -⟩
      simp [isToken, hold]

/-! ## Setting a token -/

/-- A token that is there is replaced where it stands. -/
theorem putToken_of_contains {token : Token} (hc : store.contains path = true) :
    store.putToken path token = store.withNode path (.token token) := by
  simp [putToken, hc, withNode]

/-- A token where nothing was is added as a child. -/
theorem putToken_of_free {token : Token} (hname : Path.ValidName name)
    (hfree : store.contains (Path.child parent name) = false) :
    store.putToken (Path.child parent name) token =
      store.addChild parent name (.token token) := by
  simp [putToken, hfree, Path.parent?_child hname, Path.last_child hname, addChild, withNode]

/-- A dot before a name: the parent of such a path is the root, but there is an empty name between
the two. -/
theorem empty_mem_segments_dot (name : String) : "" ∈ Path.segments ("." ++ name) := by
  have hne : "." ++ name ≠ "" := by
    intro heq
    have := congrArg String.toList heq
    simp at this
  have hlist : ("." ++ name).toList = [] ++ '.' :: name.toList := by simp
  simp only [Path.segments, hne, if_false, Text.split, hlist, List.splitOn_append_cons_self]
  simp

/-- No path of a node begins with a dot. -/
theorem not_valid_dot (name : String) : ¬ Path.Valid ("." ++ name) := fun hvalid =>
  (hvalid "" (empty_mem_segments_dot name)).ne_empty rfl

/-- Setting a token keeps a store well formed exactly at the valid paths. -/
theorem WellFormed.setToken_iff {token : Token} {after : Store} {u : Unit} (h : store.WellFormed)
    (hrun : (setToken path token).run store = .ok u after) :
    after.WellFormed ↔ Path.Valid path := by
  rcases run_setToken_eq_ok.1 hrun with ⟨parent, grown, hparent, hname, hnotGroup, hensure, rfl⟩
  rcases h.ensureGroup hensure with ⟨hgrown, hgroup, hframe⟩
  have hvalidParent := hgrown.valid (contains_of_isGroup hgroup)
  rcases Path.eq_child_or_dot hparent with hpath | ⟨hroot, hdot⟩
  · have hvalid : Path.Valid path := hpath ▸ hvalidParent.child hname
    -- Creating the groups on the way leaves the end of the path alone.
    have hsame : grown.get? path = store.get? path := by
      apply hframe
      exact Path.isWithin_parent_eq_false hname hpath
    refine ⟨fun _ => hvalid, fun _ => ?_⟩
    by_cases hc : grown.contains path = true
    · have hstill : grown.isGroup path = false := by simpa [isGroup, hsame] using hnotGroup
      have htoken : grown.isToken path = true :=
        (isGroup_or_isToken hc).resolve_left (by simp [hstill])
      rw [putToken_of_contains hc]
      exact hgrown.replaceToken htoken token
    · have hfree : grown.contains (Path.child parent (Path.last path)) = false := by
        rw [← hpath]
        simpa using hc
      have hput : grown.putToken path token =
          grown.addChild parent (Path.last path) (.token token) := by
        rw [← putToken_of_free hname hfree, ← hpath]
      rw [hput]
      exact hgrown.addChild hgroup hname hfree (.token token)
  · -- After a single dot the token is stored under a path that is not valid.
    have hinvalid : ¬ Path.Valid path := hdot ▸ not_valid_dot _
    refine ⟨fun hafter => absurd (hafter.valid ?_) hinvalid, fun hvalid => absurd hvalid hinvalid⟩
    have hget : (grown.putToken path token).get? path = some (.token token) := by
      unfold putToken
      split <;> exact (get?_withNode _ _).trans (by simp)
    exact contains_iff.2 ⟨_, hget⟩

end Store
end DesignTokens
