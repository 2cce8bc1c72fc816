import DesignTokens.Pipeline.Effective
import DesignTokens.Proofs.Pipeline.Build

/-!
# Where the nodes of a view come from

Provenance is recorded page by page beside the merge and cleaned up once at the end. What a page
does to the record of a path depends only on the node that it has there, so that the record and the
merged tree can be followed side by side, one path at a time.
-/

namespace DesignTokens

/-! ## Paths below a path -/

namespace Path

/-- The segments that lead on from one path to another one. -/
def segmentsBelow? (base path : String) : Option (List String) :=
  (segments path).dropPrefix? (segments base)

variable {base path name : String} {names : List String}

theorem segmentsBelow?_eq_some_iff :
    segmentsBelow? base path = some names ↔ segments path = segments base ++ names := by
  simp [segmentsBelow?, List.dropPrefix?_eq_some_iff]

theorem segmentsBelow?_root (path : String) : segmentsBelow? "" path = some (segments path) :=
  segmentsBelow?_eq_some_iff.2 rfl

theorem segmentsBelow?_eq_nil_iff : segmentsBelow? base path = some [] ↔ path = base := by
  rw [segmentsBelow?_eq_some_iff, List.append_nil]
  constructor
  · exact segments_injective
  · exact congrArg segments

/-- One child down there is one segment less to go, unless the path leads elsewhere. -/
theorem segmentsBelow?_child (h : ValidName name) :
    segmentsBelow? (child base name) path =
      match segmentsBelow? base path with
      | some (first :: rest) => if first = name then some rest else none
      | _ => none := by
  have hchild : ∀ {rest}, segmentsBelow? (child base name) path = some rest ↔
      segmentsBelow? base path = some (name :: rest) := by
    intro rest
    rw [segmentsBelow?_eq_some_iff, segmentsBelow?_eq_some_iff, segments_child h]
    simp
  cases hbelow : segmentsBelow? (child base name) path with
  | some rest =>
      simp [hchild.1 hbelow]
  | none =>
      have hnot : ∀ rest, segmentsBelow? base path ≠ some (name :: rest) := by
        intro rest heq
        rw [hchild.2 heq] at hbelow
        cases hbelow
      split
      · rename_i first rest heq
        have hne : first ≠ name := by
          rintro rfl
          exact hnot rest heq
        simp [hne]
      · rfl

end Path

/-! ## Looking up nodes -/

namespace Tree

/-- What one segment and more lead to among the entries of a group. -/
theorem lookupIn_eq_follow (children : Entries Node) (name : String) (rest : List String) :
    lookupIn (name :: rest) children = Node.follow (Entries.get? children name) rest :=
  lookupIn_cons {} children name rest

theorem lookupIn_nil (names : List String) : lookupIn names [] = none := by
  cases names with
  | nil =>
      rfl
  | cons name rest =>
      simp [lookupIn_eq_follow]

/-- What a merge leaves at a path: nothing, a token of the upper tree, what the lower tree has
there, or a group that the upper tree has as well. -/
theorem lookup_merge_cases {upper : Tree} (h : upper.EachGroup List.Nodup) (lower : Tree)
    (path : String) :
    (upper.lookup path = none ∧ (lower.merge upper).lookup path = none) ∨
      (∃ t, upper.lookup path = some (.token t) ∧
        (lower.merge upper).lookup path = some (.token t)) ∨
      (upper.lookup path = none ∧ (lower.merge upper).lookup path = lower.lookup path) ∨
      ∃ attributes children attributes' children',
        upper.lookup path = some (.group attributes children) ∧
          (lower.merge upper).lookup path = some (.group attributes' children') := by
  by_cases hsegments : Path.segments path = []
  · -- The root is no node.
    have hnone : ∀ tree : Tree, tree.lookup path = none := by
      intro tree
      rw [lookup, hsegments]
      rfl
    exact Or.inl ⟨hnone upper, hnone (lower.merge upper)⟩
  · simp only [lookup_eq_at? _ hsegments]
    rcases at?_merge_cases h lower (Path.segments path) with ⟨-, hupper, hget⟩ | htoken |
      ⟨-, hupper, hget⟩ | ⟨attributes, children, -, hupper, hget⟩
    · exact Or.inl ⟨hupper, hget⟩
    · exact Or.inr (Or.inl htoken)
    · exact Or.inr (Or.inr (Or.inl ⟨hupper, hget⟩))
    · exact Or.inr (Or.inr (Or.inr ⟨attributes, children, _, _, hupper, hget⟩))

end Tree

/-! ## The record of one path -/

namespace Provenance

/-- The record of a path after a page of a layer that may have a node there: a token is always taken
over, a group only where no group is on record. -/
def after (layer : Layer) (active : LayerId) (known : Option Provenance) :
    Option Node → Option Provenance
  | none => known
  | some (.token _) => some ⟨layer.id, layer.name, layer.id ≠ active, .token⟩
  | some (.group _ _) =>
      if known.any (·.kind = .group) then known
      else some ⟨layer.id, layer.name, layer.id ≠ active, .group⟩

variable {layer : Layer} {active : LayerId} {known : Option Provenance} {entry : Provenance}

/-- A node of the page is on record as what it is. -/
theorem exists_after (layer : Layer) (active : LayerId) (known : Option Provenance) (node : Node) :
    ∃ entry, after layer active known (some node) = some entry ∧
      entry.kind = NodeKind.ofNode node := by
  cases node with
  | token t =>
      exact ⟨_, rfl, rfl⟩
  | group attributes children =>
      by_cases hknown : known.any (·.kind = .group) = true
      · -- A group that is on record stays there.
        rcases (Option.any_eq_true _ _).1 hknown with ⟨entry, rfl, hkind⟩
        have hgroup : entry.kind = .group := by simpa using hkind
        exact ⟨entry, by simp [after, hgroup], hgroup⟩
      · exact ⟨_, if_neg hknown, rfl⟩

/-- A record says whether its layer is another one than the active one. -/
theorem inherited_of_after {node : Option Node}
    (h : ∀ {before}, known = some before → before.inherited = decide (before.layerId ≠ active))
    (hentry : after layer active known node = some entry) :
    entry.inherited = decide (entry.layerId ≠ active) := by
  cases node with
  | none =>
      exact h hentry
  | some node =>
      cases node with
      | token t =>
          cases hentry
          rfl
      | group attributes children =>
          rw [after] at hentry
          split at hentry
          · exact h hentry
          · cases hentry
            rfl

end Provenance

namespace Origins

variable {layer : Layer} {active : LayerId} {path key : String}

/-- Noting a node changes what is recorded at its path alone. -/
theorem getElem?_note (origins : Origins) (node : Node) :
    (origins.note layer active path (.ofNode node))[key]? =
      if key = path then Provenance.after layer active origins[path]? (some node)
      else origins[key]? := by
  -- Whatever is written is written for this one path.
  have hinsert : ∀ entry, (origins.insert path entry)[key]? =
      if key = path then some entry else origins[key]? := by
    intro entry
    by_cases hkey : key = path
    · simp [hkey]
    · simp [Std.ExtTreeMap.getElem?_insert, hkey, Ne.symm hkey]
  cases node with
  | token t =>
      simp [note, NodeKind.ofNode, Provenance.after, hinsert]
  | group attributes children =>
      cases hknown : origins[path]? with
      | none =>
          simp [note, NodeKind.ofNode, Provenance.after, hknown, hinsert]
      | some known =>
          cases hkind : known.kind with
          | token =>
              simp [note, NodeKind.ofNode, Provenance.after, hknown, hkind, hinsert]
          | group =>
              by_cases hkey : key = path
              · simp [note, NodeKind.ofNode, Provenance.after, hknown, hkind, hkey]
              · simp [note, NodeKind.ofNode, hknown, hkind, hkey]

mutual

/-- The record of a path after recording a node and everything below it. -/
theorem getElem?_recordNode (origins : Origins) (path : String) (node : Node)
    (h : node.EachGroup Node.ProperNames) (key : String) :
    (recordNode layer active origins path node)[key]? =
      Provenance.after layer active origins[key]?
        ((Path.segmentsBelow? path key).bind (Node.follow (some node))) := by
  cases node with
  | token t =>
      rw [recordNode]
      refine (getElem?_note origins (.token t)).trans ?_
      by_cases hkey : key = path
      · simp [hkey, Path.segmentsBelow?_eq_nil_iff.2, Node.follow]
      · -- Nothing is below a token.
        have hbelow :
            (Path.segmentsBelow? path key).bind (Node.follow (some (.token t))) = none := by
          rw [Option.bind_eq_none_iff]
          intro names hnames
          cases names with
          | nil =>
              exact absurd (Path.segmentsBelow?_eq_nil_iff.1 hnames) hkey
          | cons name rest =>
              simp [Node.follow]
        simp [hkey, hbelow, Provenance.after]
  | group attributes children =>
      rcases Node.eachGroup_group_iff.1 h with ⟨hnames, hchildren⟩
      rw [recordNode]
      refine (getElem?_recordEntries _ path children hnames hchildren key).trans ?_
      have hnote := @getElem?_note layer active path key origins (.group attributes children)
      have hkind : NodeKind.ofNode (.group attributes children) = .group := rfl
      rw [hkind] at hnote
      rw [hnote]
      by_cases hkey : key = path
      · -- The entries of the group leave the record of the group itself alone.
        simp [hkey, Path.segmentsBelow?_eq_nil_iff.2, Tree.lookupIn, Node.follow, Provenance.after]
      · -- Below the path the group leads where its entries lead.
        have hbelow : (Path.segmentsBelow? path key).bind (Tree.lookupIn · children) =
            (Path.segmentsBelow? path key).bind
              (Node.follow (some (.group attributes children))) := by
          cases hnames : Path.segmentsBelow? path key with
          | none =>
              rfl
          | some names =>
              cases names with
              | nil =>
                  exact absurd (Path.segmentsBelow?_eq_nil_iff.1 hnames) hkey
              | cons name rest =>
                  exact Tree.lookupIn_eq_follow children name rest
        rw [if_neg hkey, hbelow]

/-- The record of a path after recording the entries of a group and everything below them. -/
theorem getElem?_recordEntries (origins : Origins) (path : String) (entries : List (String × Node))
    (hnames : Node.ProperNames (Entries.keys entries))
    (hentries : Node.EachEntry Node.ProperNames entries) (key : String) :
    (recordEntries layer active origins path entries)[key]? =
      Provenance.after layer active origins[key]?
        ((Path.segmentsBelow? path key).bind (Tree.lookupIn · entries)) := by
  cases entries with
  | nil =>
      simp [recordEntries, Tree.lookupIn_nil, Provenance.after]
  | cons entry rest =>
      rcases entry with ⟨name, node⟩
      rcases Node.eachEntry_cons_iff.1 hentries with ⟨hnode, hrest⟩
      rcases Node.properNames_cons_iff.1 hnames with ⟨⟨hfree, hname⟩, hothers⟩
      rw [recordEntries, getElem?_recordEntries _ path rest hothers hrest,
        getElem?_recordNode _ (Path.child path name) node hnode, Path.segmentsBelow?_child hname]
      -- At most one of the entries is on the way to the key.
      cases hbelow : Path.segmentsBelow? path key with
      | none =>
          simp [Provenance.after]
      | some names =>
          cases names with
          | nil =>
              simp [Tree.lookupIn, Provenance.after]
          | cons first more =>
              by_cases hfirst : first = name
              · subst hfirst
                have hnone : Entries.get? rest first = none := Entries.get?_eq_none_iff.2 hfree
                simp [Tree.lookupIn_eq_follow, Entries.get?, hnone, Provenance.after]
              · have hskip : Entries.get? ((name, node) :: rest) first = Entries.get? rest first :=
                  if_neg (Ne.symm hfirst)
                simp [Tree.lookupIn_eq_follow, hskip, hfirst, Provenance.after]

end

/-- A page changes the record of a path by the node that it has there. -/
theorem getElem?_recordTree (origins : Origins) {tree : Tree}
    (h : tree.EachGroup Node.ProperNames) (key : String) :
    (recordEntries layer active origins "" tree.children)[key]? =
      Provenance.after layer active origins[key]? (tree.lookup key) := by
  rw [getElem?_recordEntries origins "" tree.children h.1 h.2, Path.segmentsBelow?_root]
  rfl

end Origins

/-! ## The record beside the merge -/

namespace Page

def HasToken (page : Page) (path : String) : Prop :=
  ∃ t, page.tokens.toTree.lookup path = some (.token t)

end Page

namespace Provenance

/-- The layer on record is that of the last page with a token at the path. -/
def NamesLastToken (entry : Provenance) (path : String) (pages : List (Layer × Page)) : Prop :=
  Sequence.LastWith
    (fun (layer, page) =>
      layer.id = entry.layerId ∧ layer.name = entry.layerName ∧ page.HasToken path)
    (fun (_, page) => ¬ page.HasToken path) pages

end Provenance

namespace Origins

variable {origins : Origins} {active : LayerId} {tree : Tree} {pages : List (Layer × Page)}

/-- Every node of the tree is on record as what it is, and every token as one of the last page that
has a token at its path. What else is on record may be out of date. -/
structure Follows (origins : Origins) (active : LayerId) (tree : Tree)
    (pages : List (Layer × Page)) : Prop where
  node : ∀ {path node}, tree.lookup path = some node →
    ∃ entry, origins[path]? = some entry ∧ entry.kind = NodeKind.ofNode node
  token : ∀ {path t} {entry : Provenance}, tree.lookup path = some (.token t) →
    origins[path]? = some entry → entry.NamesLastToken path pages
  inherited : ∀ {path : String} {entry : Provenance}, origins[path]? = some entry →
    entry.inherited = decide (entry.layerId ≠ active)

theorem follows_empty (active : LayerId) : Follows ∅ active .empty [] := by
  have hnone : ∀ path, Tree.empty.lookup path = none := fun path =>
    Tree.lookupIn_nil (Path.segments path)
  constructor
  case node =>
    intro path node hnode
    rw [hnone] at hnode
    cases hnode
  case token =>
    intro path t entry htoken
    rw [hnone] at htoken
    cases htoken
  case inherited =>
    intro path entry hentry
    simp at hentry

/-- The record follows the merge of one more page. -/
theorem Follows.record (h : Follows origins active tree pages) (layer : Layer) {page : Page}
    (hpage : page.tokens.toTree.EachGroup Node.ProperNames) :
    Follows (recordEntries layer active origins "" page.tokens.toTree.children) active
      (tree.merge page.tokens.toTree) (pages ++ [(layer, page)]) := by
  have hcases := Tree.lookup_merge_cases page.tokens.eachGroup_toTree tree
  constructor
  case node =>
    intro path node hnode
    rw [getElem?_recordTree origins hpage]
    rcases hcases path with ⟨-, hmerged⟩ | ⟨t, hupper, hmerged⟩ | ⟨hupper, hmerged⟩ |
      ⟨attributes, children, attributes', children', hupper, hmerged⟩
    · -- The merge leaves nothing at the path.
      rw [hmerged] at hnode
      cases hnode
    · -- A token of the page replaces what was there.
      rw [hmerged, Option.some.injEq] at hnode
      subst hnode
      rw [hupper]
      exact Provenance.exists_after layer active origins[path]? (.token t)
    · -- The page has nothing here, and neither the tree nor the record changes.
      rw [hupper]
      exact h.node (hmerged.symm.trans hnode)
    · -- A group of the page is laid over what was there.
      rw [hmerged, Option.some.injEq] at hnode
      subst hnode
      rw [hupper]
      exact Provenance.exists_after layer active origins[path]? (.group attributes children)
  case token =>
    intro path t entry htoken hentry
    refine Sequence.lastWith_append_singleton_iff.2 ?_
    rw [getElem?_recordTree origins hpage] at hentry
    rcases hcases path with ⟨-, hmerged⟩ | ⟨t', hupper, hmerged⟩ | ⟨hupper, hmerged⟩ |
      ⟨attributes, children, attributes', children', hupper, hmerged⟩
    · rw [hmerged] at htoken
      cases htoken
    · -- The token comes from this page, which is the last one.
      rw [hupper, Provenance.after, Option.some.injEq] at hentry
      subst hentry
      exact Or.inl ⟨rfl, rfl, t', hupper⟩
    · -- The token was there before, and this page has none at its path.
      have hno : ¬ page.HasToken path := by
        rintro ⟨t', ht'⟩
        rw [hupper] at ht'
        cases ht'
      rw [hupper] at hentry
      exact Or.inr ⟨hno, h.token (hmerged.symm.trans htoken) hentry⟩
    · rw [hmerged] at htoken
      cases htoken
  case inherited =>
    intro path entry hentry
    rw [getElem?_recordTree origins hpage] at hentry
    exact Provenance.inherited_of_after h.inherited hentry

/-- The record of the selected pages follows the tree merged from them. -/
theorem follows_ofSelection (active : LayerId)
    (h : ∀ choice ∈ pages, choice.2.tokens.toTree.EachGroup Node.ProperNames) :
    Follows (ofSelection active pages) active
      ((pages.map fun (_, page) => page.tokens.toTree).foldl Tree.merge .empty) pages := by
  induction pages using List.reverseRecOn with
  | nil =>
      exact follows_empty active
  | append_singleton pages choice ih =>
      rcases choice with ⟨layer, page⟩
      have hbefore := ih fun choice hchoice => h choice (List.mem_append_left _ hchoice)
      have hlast := hbefore.record layer (h (layer, page) (by simp))
      simpa [ofSelection] using hlast

/-- Cleaning up leaves the records of the nodes of the tree. -/
theorem getElem?_within_eq_some_iff {path : String} {entry : Provenance} :
    (origins.within tree)[path]? = some entry ↔
      origins[path]? = some entry ∧
        ∃ node, tree.lookup path = some node ∧ entry.kind = NodeKind.ofNode node := by
  rw [within, Std.ExtTreeMap.getElem?_filter', Option.filter_eq_some_iff]
  cases tree.lookup path with
  | none =>
      simp
  | some node =>
      simp [eq_comm]

end Origins

/-! ## Names on the way to a node -/

namespace Tree

variable {tree merged : Tree} {trees : List Tree} {names : List String}

theorem EachGroup.validNames_namesAt (h : tree.EachGroup Node.ValidNames) (path : List String) :
    Node.ValidNames (tree.namesAt path) := by
  unfold namesAt
  have hroot : tree.root.EachGroup Node.ValidNames := Node.eachGroup_group_iff.2 h
  cases hat : tree.at? path with
  | none =>
      intro name hmem
      cases hmem
  | some node =>
      cases node with
      | token t =>
          intro name hmem
          cases hmem
      | group attributes children =>
          exact (Node.eachGroup_group_iff.1 (hroot.follow hat)).1

/-- The names on the way to a node of a merge are names of the trees that were merged. -/
theorem IsMergeOf.validNames (h : merged.IsMergeOf trees)
    (hvalid : ∀ tree ∈ trees, tree.EachGroup Node.ValidNames)
    (hnode : (merged.at? names).isSome = true) : Node.ValidNames names := by
  intro name hmem
  rcases List.append_of_mem hmem with ⟨front, back, rfl⟩
  -- The name is that of an entry of the group that the segments before it lead to.
  have hlisted : name ∈ merged.namesAt front := by
    rw [at?, Node.follow_append] at hnode
    rw [namesAt, Entries.mem_keys_iff_isSome]
    cases hget : Entries.get? (Node.entriesOf (merged.at? front)) name with
    | none =>
        simp [Node.follow, hget] at hnode
    | some child =>
        rfl
  rcases (h.name_iff front name).1 hlisted with ⟨tree, htree, hname⟩
  have htrees : tree ∈ trees := (List.rtakeWhile_suffix _ _).subset htree
  exact (hvalid tree htrees).validNames_namesAt front name hname

end Tree

/-! ## Views -/

namespace EffectiveTokens

/-- Every node below the root of the view has a record of its own and nothing else has one, each
record has the kind of its node, those of tokens name the layer of the last page with a token at the
path, and a record is inherited when its layer is not the active one. -/
structure IsExact (view : EffectiveTokens) (pages : List (Layer × Page)) : Prop where
  paths : ∀ path, view.origins.contains path = true ↔
    ∃ names, names ≠ [] ∧ (view.tree.at? names).isSome = true ∧ path = Path.ofSegments names
  kind : ∀ {path entry}, view.provenance? path = some entry →
    ∃ node, view.tree.lookup path = some node ∧ entry.kind = NodeKind.ofNode node
  token : ∀ {path entry}, view.provenance? path = some entry → entry.kind = .token →
    entry.NamesLastToken path pages
  inherited : ∀ {path entry}, view.provenance? path = some entry →
    (entry.inherited = true ↔ entry.layerId ≠ view.active)

end EffectiveTokens

/-- A record that follows a tree whose names are valid is exact once it is cleaned up. -/
theorem Origins.Follows.isExact {origins : Origins} {active : LayerId} {tree : Tree}
    {pages : List (Layer × Page)} (h : origins.Follows active tree pages)
    (hvalid : ∀ {names}, (tree.at? names).isSome = true → Node.ValidNames names)
    (defects : List Defect) :
    EffectiveTokens.IsExact ⟨active, tree, origins.within tree, defects⟩ pages := by
  constructor
  case paths =>
    intro path
    show (origins.within tree).contains path = true ↔ _
    rw [Std.ExtTreeMap.contains_eq_isSome_getElem?, Option.isSome_iff_exists]
    constructor
    · rintro ⟨entry, hentry⟩
      rcases (getElem?_within_eq_some_iff.1 hentry).2 with ⟨node, hnode, -⟩
      have hsegments : Path.segments path ≠ [] := by
        intro hnil
        rw [Tree.lookup, hnil] at hnode
        cases hnode
      rw [Tree.lookup_eq_at? tree hsegments] at hnode
      exact ⟨Path.segments path, hsegments, by simp [hnode], (Path.ofSegments_segments path).symm⟩
    · rintro ⟨names, hne, hsome, rfl⟩
      rcases Option.isSome_iff_exists.1 hsome with ⟨node, hnode⟩
      -- Valid names are joined to a path that leads along them again.
      have hsegments : Path.segments (Path.ofSegments names) = names :=
        Path.segments_ofSegments (hvalid hsome)
      have hlookup : tree.lookup (Path.ofSegments names) = some node := by
        rw [Tree.lookup_eq_at? tree (by rw [hsegments]; exact hne), hsegments]
        exact hnode
      rcases h.node hlookup with ⟨entry, hentry, hkind⟩
      exact ⟨entry, getElem?_within_eq_some_iff.2 ⟨hentry, node, hlookup, hkind⟩⟩
  case kind =>
    intro path entry hentry
    exact (getElem?_within_eq_some_iff.1 hentry).2
  case token =>
    intro path entry hentry htoken
    rcases getElem?_within_eq_some_iff.1 hentry with ⟨hrecord, node, hnode, hkind⟩
    cases node with
    | token t =>
        exact h.token hnode hrecord
    | group attributes children =>
        rw [htoken] at hkind
        cases hkind
  case inherited =>
    intro path entry hentry
    rw [h.inherited (getElem?_within_eq_some_iff.1 hentry).1]
    simp

namespace Pipeline

variable {p : Pipeline} {active : LayerId} {config : BuildConfig} {view : EffectiveTokens}

/-- A page that a layer takes is one of the pipeline's. -/
theorem mem_pages_of_pageFor {layer : Layer} {page : Page}
    (h : p.pageFor config layer = .ok page) : page ∈ p.pages := by
  unfold pageFor at h
  split at h
  · cases h
  · simp only at h
    split at h
    · rename_i found hfound
      cases h
      exact List.mem_of_find?_eq_some hfound
    · cases h

/-- A page selected for a view is one of the pipeline's. -/
theorem mem_pages_of_selectUpTo {choice : Layer × Page}
    (h : choice ∈ (p.selectUpTo config active).pages) : choice.2 ∈ p.pages := by
  rw [selectUpTo, pages_selectFrom] at h
  rcases List.mem_filterMap.1 h with ⟨layer, -, hlayer⟩
  rcases Option.map_eq_some_iff.1 hlayer with ⟨page, hpage, rfl⟩
  apply @mem_pages_of_pageFor p config layer
  cases hfor : p.pageFor config layer with
  | error reason =>
      rw [hfor] at hpage
      cases hpage
  | ok found =>
      rw [hfor] at hpage
      cases hpage
      rfl

/-- The view of a layer is the build up to this layer, and its provenance is exact. -/
theorem isExact_effective
    (hnames : ∀ page ∈ p.pages, page.tokens.toTree.EachGroup Node.ValidNames)
    (hview : p.effective active config = .ok view) :
    p.buildTokensUpTo config active = .ok ⟨view.tree, view.defects⟩ ∧ view.active = active ∧
      view.IsExact (p.selectUpTo config active).pages := by
  unfold effective at hview
  by_cases hlayer : (p.layer? active).isNone = true
  · rw [if_pos hlayer] at hview
    cases hview
  · rw [if_neg hlayer] at hview
    cases hview
    refine ⟨by rw [buildTokensUpTo, if_neg hlayer], rfl, ?_⟩
    -- The names in a tree are valid by assumption, and distinct as it comes from a store.
    have hpages : ∀ choice ∈ (p.selectUpTo config active).pages,
        choice.2.tokens.toTree.EachGroup Node.ProperNames := by
      intro choice hchoice
      have hvalid := hnames choice.2 (mem_pages_of_selectUpTo hchoice)
      exact ⟨⟨choice.2.tokens.eachGroup_toTree.1, hvalid.1⟩,
        choice.2.tokens.eachGroup_toTree.2.and hvalid.2⟩
    have hfollows := Origins.follows_ofSelection active hpages
    apply hfollows.isExact
    intro names hnode
    apply (p.selectUpTo config active).isMergeOf_build.validNames _ hnode
    intro tree hmem
    rcases List.mem_map.1 hmem with ⟨choice, hchoice, rfl⟩
    exact hnames choice.2 (mem_pages_of_selectUpTo hchoice)

/-- Two layers of one page each; the upper one has a group where the lower one has a token. -/
def replacedToken : Pipeline where
  vars := []
  layers := [⟨⟨"layer-base"⟩, "Base", 0, [], false⟩, ⟨⟨"layer-theme"⟩, "Theme", 1, [], false⟩]
  pages :=
    [⟨⟨"page-base"⟩, ⟨"layer-base"⟩, "Base", .empty,
        .ofTree { children := [("color", .token {}), ("size", .token {})] }⟩,
      ⟨⟨"page-theme"⟩, ⟨"layer-theme"⟩, "Theme", .empty,
        .ofTree { children := [("color", .group {} [("red", .token {})])] }⟩]

theorem layersInOrder_replacedToken : replacedToken.layersInOrder = replacedToken.layers :=
  List.mergeSort_of_pairwise (by decide +kernel)

/-- What was on record for the token has gone with it. -/
theorem isExact_effective_replacedToken :
    ∃ view, replacedToken.effective ⟨"layer-theme"⟩ .empty = .ok view ∧
      view.provenance? "color" = some ⟨⟨"layer-theme"⟩, "Theme", false, .group⟩ ∧
      view.IsExact (replacedToken.selectUpTo .empty ⟨"layer-theme"⟩).pages := by
  refine ⟨_, rfl, ?_, ?_⟩
  · rw [selectUpTo, layersInOrder_replacedToken]
    decide +kernel
  · exact (isExact_effective (by decide +kernel) rfl).2.2

end Pipeline
end DesignTokens
