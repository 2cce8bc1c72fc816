import DesignTokens.Proofs.Store.Frame
import DesignTokens.Proofs.Store.Inverse
import DesignTokens.Proofs.Token.Planting

/-!
# Setting a token in a store and in its tree

A store checks everything before it creates the first group, a tree creates groups while it walks.
The outcome is the same: both accept a token at the same paths, leave everything as it was when they
refuse one, and otherwise come to the same tree. In the store the groups are added one by one and
then the token is, each of which plants a node in the tree; a group that is planted on the way makes
no difference for what is planted below it.
-/

namespace DesignTokens
namespace Store

variable {store after : Store} {path parent walked name : String}

/-! ## Nodes of a store in its tree -/

theorem tokenAt_node?_iff : Node.TokenAt (store.node? path) [] ↔ store.isToken path = true := by
  rw [isToken_iff]
  cases hget : store.get? path with
  | none =>
      simp [Node.TokenAt, Node.follow, node?, hget]
  | some node =>
      cases node with
      | token t =>
          simp [Node.TokenAt, Node.follow, node?, hget, StoredNode.withEntries]
      | group attributes =>
          simp [Node.TokenAt, Node.follow, node?, hget, StoredNode.withEntries]

theorem groupAt_node?_iff : Node.GroupAt (store.node? path) [] ↔ store.isGroup path = true := by
  rw [isGroup_iff]
  cases hget : store.get? path with
  | none =>
      simp [Node.GroupAt, Node.follow, node?, hget]
  | some node =>
      cases node with
      | token t =>
          simp [Node.GroupAt, Node.follow, node?, hget, StoredNode.withEntries]
      | group attributes =>
          simp [Node.GroupAt, Node.follow, node?, hget, StoredNode.withEntries]

namespace WellFormed

variable (h : store.WellFormed)

include h

/-- A tree has a group at a valid path exactly when its store has one. -/
theorem groupAt_toTree_iff (hpath : Path.Valid path) :
    store.toTree.GroupAt (Path.segments path) ↔ store.isGroup path = true := by
  rw [← groupAt_node?_iff, ← h.at?_toTree hpath]
  rfl

/-- The search for a token on the way finds none exactly when the tree has none there. -/
theorem tokenOnWay?_eq_none_iff {names : List String} (hwalked : store.isToken walked = false)
    (hnames : ∀ name ∈ names, Path.ValidName name) (last : String) :
    store.tokenOnWay? walked names = none ↔
      ¬ Node.TokenAbove (store.node? walked) (names ++ [last]) := by
  have hhere : ¬ Node.TokenAt (store.node? walked) [] := by simp [tokenAt_node?_iff, hwalked]
  induction names generalizing walked with
  | nil =>
      simp [tokenOnWay?, Node.tokenAbove_cons_iff, hhere, Node.not_tokenAbove_nil]
  | cons name rest ih =>
      rcases List.forall_mem_cons.1 hnames with ⟨hname, hrest⟩
      rw [List.cons_append, Node.tokenAbove_cons_iff, or_iff_right hhere, h.entriesOf_node?,
        h.get?_below_of_validName hname, tokenOnWay?]
      cases htoken : store.isToken (Path.child walked name) with
      | true =>
          -- At least the last name is below this token.
          have habove : Node.TokenAbove (store.node? (Path.child walked name)) (rest ++ [last]) :=
            ⟨[], List.nil_prefix .., by simp, tokenAt_node?_iff.2 htoken⟩
          simp [habove]
      | false =>
          simpa using ih htoken hrest (by simp [tokenAt_node?_iff, htoken])

/-! ## Steps in the tree -/

/-- A change of one entry of a group plants a node in the tree. -/
theorem toTree_eq_plant {planted : Node} (hafter : after.WellFormed)
    (hbelow : ChangesBelow store after parent [name]) (hname : Path.ValidName name)
    (hgroup : store.isGroup parent = true)
    (hput : after.below parent = Entries.put (store.below parent) name planted) :
    after.toTree = store.toTree.plant planted (Path.segments (Path.child parent name)) := by
  have hparent : Path.Valid parent := h.valid (contains_of_isGroup hgroup)
  rw [Path.segments_child hname,
    ← Tree.changeGroup_put ((h.groupAt_toTree_iff hparent).2 hgroup) planted name]
  exact hbelow.toTree_eq h hafter hgroup hput

/-- Adding a child to the store plants a node in its tree. -/
theorem toTree_addChild (hgroup : store.isGroup parent = true) (hname : Path.ValidName name)
    (hfree : store.contains (Path.child parent name) = false) (node : StoredNode) :
    (store.addChild parent name node).toTree =
      store.toTree.plant (node.withEntries []) (Path.segments (Path.child parent name)) := by
  have hafter := h.addChild hgroup hname hfree node
  have hbelow : ChangesBelow store (store.addChild parent name node) parent [name] := by
    refine ⟨by simpa using hname, ?_, ?_⟩
    · intro other hout
      have hne : other ≠ Path.child parent name := by
        rintro rfl
        simpa using hout name (by simp)
      rw [get?_addChild, if_neg hne]
    · intro other _ hne
      rw [children_addChild, if_neg hne]
  have hnew : (store.addChild parent name node).node? (Path.child parent name) =
      some (node.withEntries []) := by
    -- Nothing was there, and so nothing is below.
    have hnone : store.children (Path.child parent name) = [] := children_eq_nil_of_names
      (h.names_eq_none_of_not_isGroup (by simp [isGroup, contains_eq_false_iff.1 hfree]))
    have hentries : (store.addChild parent name node).below (Path.child parent name) = [] := by
      rw [hafter.below_eq, children_addChild, if_neg (Path.child_ne_self hname), hnone]
      rfl
    simp [node?, get?_addChild, hentries]
  have hnotMem : name ∉ store.children parent := h.not_mem_children hfree
  refine h.toTree_eq_plant hafter hbelow hname hgroup ?_
  calc
    (store.addChild parent name node).below parent
        = Entries.ofNames
            (fun other => (store.addChild parent name node).node? (Path.child parent other))
            (store.children parent) ++ [(name, node.withEntries [])] := by
        rw [hafter.below_eq, children_addChild, if_pos rfl]
        exact Entries.ofNames_append_singleton hnew
    _ = store.below parent ++ [(name, node.withEntries [])] := by
        rw [h.below_eq]
        congr 1
        apply Entries.ofNames_congr
        intro other hmem
        have hne : other ≠ name := by
          rintro rfl
          exact hnotMem hmem
        exact hbelow.node?_sibling h hafter (h.listed hmem).1 (by simpa using hne)
    _ = Entries.put (store.below parent) name (node.withEntries []) :=
        (Entries.put_eq_append (by rwa [h.keys_below]) _).symm

/-- Replacing a token in the store plants it in the tree. -/
theorem toTree_replaceToken (hname : Path.ValidName name)
    (htoken : store.isToken (Path.child parent name) = true) (token : Token) :
    (store.withNode (Path.child parent name) (.token token)).toTree =
      store.toTree.plant (.token token) (Path.segments (Path.child parent name)) := by
  have hafter := h.replaceToken htoken token
  rcases isToken_iff.1 htoken with ⟨old, hold⟩
  have hc : store.contains (Path.child parent name) = true := contains_iff.2 ⟨_, hold⟩
  have hgroup := (h.linked_child hname hc).1
  have hbelow : ChangesBelow store (store.withNode (Path.child parent name) (.token token)) parent
      [name] := by
    refine ⟨by simpa using hname, ?_, fun _ _ => rfl⟩
    intro other hout
    have hne : other ≠ Path.child parent name := by
      rintro rfl
      simpa using hout name (by simp)
    rw [get?_withNode, if_neg hne]
  refine h.toTree_eq_plant hafter hbelow hname hgroup ?_
  rw [hafter.below_eq, h.below_eq]
  refine (Entries.put_ofNames (h.nodup_children parent) (h.mem_children_iff.2 ⟨hname, hc⟩) ?_ ?_
    ?_).symm
  · simp [node?, hold]
  · simp [node?, get?_withNode, StoredNode.withEntries]
  · intro other hmem hne
    exact hbelow.node?_sibling h hafter (h.listed hmem).1 (by simpa using hne)

/-- A token put where no group is, is planted in the tree. -/
theorem toTree_putToken (hgroup : store.isGroup parent = true) (hname : Path.ValidName name)
    (hend : store.isGroup (Path.child parent name) = false) (token : Token) :
    (store.putToken (Path.child parent name) token).toTree =
      store.toTree.plant (.token token) (Path.segments (Path.child parent name)) := by
  by_cases hc : store.contains (Path.child parent name) = true
  · have htoken : store.isToken (Path.child parent name) = true :=
      (isGroup_or_isToken hc).resolve_left (by simp [hend])
    rw [putToken_of_contains hc]
    exact h.toTree_replaceToken hname htoken token
  · have hfree : store.contains (Path.child parent name) = false := by simpa using hc
    rw [putToken_of_free hname hfree]
    exact h.toTree_addChild hgroup hname hfree (.token token)

/-- Groups that are created on the way make no difference for what is planted at the end. -/
theorem plant_createGroups {names rest : List String} (hgroup : store.isGroup walked = true)
    (hnames : ∀ name ∈ names, Path.ValidName name)
    (hway : store.tokenOnWay? walked names = none) (hrest : rest ≠ []) (planted : Node) :
    (store.createGroups walked names).toTree.plant planted
        (Path.segments walked ++ (names ++ rest)) =
      store.toTree.plant planted (Path.segments walked ++ (names ++ rest)) := by
  refine h.createGroups_induction
    (motive := fun store walked names =>
      (store.createGroups walked names).toTree.plant planted
          (Path.segments walked ++ (names ++ rest)) =
        store.toTree.plant planted (Path.segments walked ++ (names ++ rest)))
    ?done ?present ?missing hgroup hnames hway
  case done =>
    intro store walked _ _
    rfl
  case present =>
    intro store walked name more _ hname hc ih
    rw [createGroups_cons_of_contains hc]
    simpa [Path.segments_child hname] using ih
  case missing =>
    intro store walked name more h hgroup hname hfree ih
    have hnone : store.toTree.at? (Path.segments (Path.child walked name)) = none := by
      rw [h.at?_toTree ((h.valid (contains_of_isGroup hgroup)).child hname), node?,
        contains_eq_false_iff.1 hfree, Option.map_none]
    have hnonempty : Path.segments (Path.child walked name) ≠ [] :=
      mt Path.segments_eq_nil_iff.1 (Path.child_ne_empty hname)
    have hmore : more ++ rest ≠ [] := List.append_ne_nil_of_right_ne_nil more hrest
    have hsplit : Path.segments walked ++ (name :: more ++ rest) =
        Path.segments (Path.child walked name) ++ (more ++ rest) := by
      simp [Path.segments_child hname]
    -- The new group is planted first, and the rest of the way goes below it.
    rw [createGroups_cons_of_free hfree, hsplit, ih, h.toTree_addChild hgroup hname hfree]
    exact Tree.plant_plant hnonempty hmore store.toTree planted hnone

end WellFormed

/-! ## Accepted paths -/

/-- A token is set below a parent when that is valid, no group is there and no token on the way. -/
theorem run_setToken_child_eq_ok {token : Token} {u : Unit} (hname : Path.ValidName name) :
    (setToken (Path.child parent name) token).run store = .ok u after ↔
      Path.Valid parent ∧ store.isGroup (Path.child parent name) = false ∧
        store.tokenOnWay? "" (Path.segments parent) = none ∧
        after = (store.createGroups "" (Path.segments parent)).putToken (Path.child parent name)
          token := by
  rw [run_setToken_eq_ok, Path.parent?_child hname, Path.last_child hname]
  constructor
  · rintro ⟨_, grown, hparent, -, hend, hensure, rfl⟩
    cases hparent
    rcases run_ensureGroup_eq_ok.1 hensure with ⟨hvalid, hway, rfl⟩
    exact ⟨hvalid, hend, hway, rfl⟩
  · rintro ⟨hvalid, hend, hway, rfl⟩
    exact ⟨parent, _, rfl, hname, hend, run_ensureGroup_eq_ok.2 ⟨hvalid, hway, rfl⟩, rfl⟩

/-- Without empty names a store accepts a token at valid paths only. -/
theorem exists_child_of_run_setToken {token : Token} {u : Unit}
    (hsegments : ∀ name ∈ Path.segments path, name ≠ "")
    (hrun : (setToken path token).run store = .ok u after) :
    ∃ parent name, Path.ValidName name ∧ path = Path.child parent name := by
  rcases run_setToken_eq_ok.1 hrun with ⟨parent, grown, hparent, hname, -⟩
  rcases Path.eq_child_or_dot hparent with hpath | ⟨-, hdot⟩
  · exact ⟨parent, Path.last path, hname, hpath⟩
  · exact absurd rfl (hsegments "" (hdot ▸ empty_mem_segments_dot (Path.last path)))

namespace WellFormed

variable (h : store.WellFormed)

include h

/-- A token can be set in the tree exactly when it can be set in the store. -/
theorem settable_child_iff (hname : Path.ValidName name) :
    store.toTree.Settable (Path.child parent name) ↔
      Path.Valid parent ∧ store.isGroup (Path.child parent name) = false ∧
        store.tokenOnWay? "" (Path.segments parent) = none := by
  -- The root is a group, so that no token is on the way at its start.
  have hroot : store.isToken "" = false := by
    cases htoken : store.isToken "" with
    | false =>
        rfl
    | true =>
        cases h.root.symm.trans (not_isGroup_of_isToken htoken)
  -- For a valid parent the conditions on the tree are those on the store.
  have hgroupAt : Path.Valid parent →
      (store.toTree.GroupAt (Path.segments (Path.child parent name)) ↔
        store.isGroup (Path.child parent name) = true) :=
    fun hparent => h.groupAt_toTree_iff (hparent.child hname)
  have habove : Path.Valid parent →
      (store.tokenOnWay? "" (Path.segments parent) = none ↔
        ¬ store.toTree.TokenAbove (Path.segments (Path.child parent name))) := by
    intro hparent
    rw [h.tokenOnWay?_eq_none_iff hroot hparent name, h.node?_root, ← Path.segments_child hname]
  constructor
  · intro hsettable
    have hparent : Path.Valid parent := by
      intro other hmem
      apply hsettable.valid other
      rw [Path.segments_child hname]
      exact List.mem_append_left _ hmem
    exact ⟨hparent, by simpa using mt (hgroupAt hparent).2 hsettable.vacant,
      (habove hparent).2 hsettable.reachable⟩
  · rintro ⟨hparent, hend, hway⟩
    refine ⟨Path.child_ne_empty hname, hparent.child hname, (habove hparent).1 hway, ?_⟩
    rw [hgroupAt hparent, hend]
    simp

/-- The groups that are created on the way and the token together plant the token. -/
theorem toTree_setToken_child (hname : Path.ValidName name) (hparent : Path.Valid parent)
    (hend : store.isGroup (Path.child parent name) = false)
    (hway : store.tokenOnWay? "" (Path.segments parent) = none) (token : Token) :
    ((store.createGroups "" (Path.segments parent)).putToken (Path.child parent name)
        token).toTree =
      store.toTree.plant (.token token) (Path.segments (Path.child parent name)) := by
  rcases h.createGroups h.root hparent hway with ⟨hgrown, hgroup, hframe⟩
  rw [Path.foldl_child_segments hparent] at hgroup hframe
  -- The end of the path is not on the way to its parent, and still no group.
  have hend' : (store.createGroups "" (Path.segments parent)).isGroup (Path.child parent name) =
      false := by
    have hsame := hframe _ (Path.isWithin_parent_eq_false hname rfl)
    simpa [isGroup, hsame] using hend
  rw [hgrown.toTree_putToken hgroup hname hend' token, Path.segments_child hname]
  exact h.plant_createGroups h.root hparent hway (List.cons_ne_nil name []) (.token token)

/-- A store and its tree accept a token at the same paths, keep everything when they refuse it, and
otherwise come to the same tree, where the token is at its path and only the missing groups on the
way are new. -/
theorem setToken_agrees (hsegments : ∀ name ∈ Path.segments path, name ≠ "") (token : Token) :
    (store.toTree.Settable path →
      ∃ tree after, (Tree.setToken path token).run store.toTree = .ok () tree ∧
        (setToken path token).run store = .ok () after ∧ after.WellFormed ∧ after.toTree = tree ∧
        store.toTree.SetsToken tree (Path.segments path) token) ∧
    (¬ store.toTree.Settable path →
      (∃ e, (Tree.setToken path token).run store.toTree = .error e store.toTree) ∧
        ∃ e, (setToken path token).run store = .error e store) := by
  constructor
  · intro hsettable
    rcases hsettable.valid.eq_child hsettable.nonempty with ⟨parent, name, hparent, hname, rfl⟩
    rcases (h.settable_child_iff hname).1 hsettable with ⟨-, hend, hway⟩
    have hrun := (@run_setToken_child_eq_ok store _ parent name token () hname).2
      ⟨hparent, hend, hway, rfl⟩
    refine ⟨_, _, Tree.run_setToken_eq_ok hsettable token, hrun,
      (h.setToken_iff hrun).2 hsettable.valid,
      h.toTree_setToken_child hname hparent hend hway token, ?_⟩
    exact Tree.setsToken_plant (mt Path.segments_eq_nil_iff.1 hsettable.nonempty)
      hsettable.reachable hsettable.vacant
  · intro hnot
    refine ⟨Tree.run_setToken_eq_error hnot token, ?_⟩
    cases hrun : (setToken path token).run store with
    | ok u after =>
        -- Had the store accepted the token, so would its tree.
        rcases exists_child_of_run_setToken hsegments hrun with ⟨parent, name, hname, rfl⟩
        rcases (run_setToken_child_eq_ok hname).1 hrun with ⟨hparent, hend, hway, -⟩
        exact absurd ((h.settable_child_iff hname).2 ⟨hparent, hend, hway⟩) hnot
    | error e after =>
        have hsame : after = store := atomic_setToken path token store after e hrun
        exact ⟨e, by rw [hsame]⟩

end WellFormed

/-- Two groups are missing on the way to the first path, and a token stands on the way to the second
one. -/
theorem setToken_agrees_palette :
    (ofTree paletteTree).WellFormed ∧
      (∀ name ∈ Path.segments "color.dark.warm.red", name ≠ "") ∧
      (ofTree paletteTree).toTree.Settable "color.dark.warm.red" ∧
      (∃ tree after,
        (Tree.setToken "color.dark.warm.red" {}).run (ofTree paletteTree).toTree = .ok () tree ∧
          (setToken "color.dark.warm.red" {}).run (ofTree paletteTree) = .ok () after ∧
          after.WellFormed ∧ after.toTree = tree ∧
          (ofTree paletteTree).toTree.SetsToken tree (Path.segments "color.dark.warm.red") {}) ∧
      (∀ name ∈ Path.segments "color.red.dark", name ≠ "") ∧
      ¬ (ofTree paletteTree).toTree.Settable "color.red.dark" ∧
      (∃ e, (Tree.setToken "color.red.dark" {}).run (ofTree paletteTree).toTree =
        .error e (ofTree paletteTree).toTree) ∧
      ∃ e, (setToken "color.red.dark" {}).run (ofTree paletteTree) =
        .error e (ofTree paletteTree) := by
  have hwell := wellFormed_paletteTree
  have htree : (ofTree paletteTree).toTree = paletteTree := toTree_ofTree (by decide +kernel)
  have hnames : ∀ name ∈ Path.segments "color.dark.warm.red", name ≠ "" := by decide +kernel
  have hnames' : ∀ name ∈ Path.segments "color.red.dark", name ≠ "" := by decide +kernel
  have hsettable : (ofTree paletteTree).toTree.Settable "color.dark.warm.red" := by
    rw [htree]
    have hnone : paletteTree.at? (Path.segments "color.dark.warm.red") = none := by
      decide +kernel
    refine ⟨by decide, by decide +kernel, by decide +kernel, ?_⟩
    rintro ⟨attributes, children, hfollow⟩
    cases hnone.symm.trans hfollow
  have hnot : ¬ (ofTree paletteTree).toTree.Settable "color.red.dark" := by
    rw [htree]
    exact fun hsettable => hsettable.reachable (by decide +kernel)
  exact ⟨hwell, hnames, hsettable, (WellFormed.setToken_agrees hwell hnames {}).1 hsettable,
    hnames', hnot, (WellFormed.setToken_agrees hwell hnames' {}).2 hnot⟩

end Store
end DesignTokens
