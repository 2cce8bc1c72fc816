import DesignTokens.Pipeline.Document
import DesignTokens.Proofs.Store.Inverse
import DesignTokens.Proofs.Store.Runs
import DesignTokens.Proofs.Token.Values

/-!
# Stores and their documents

A store is written as the document of its tree, and it is read back from that document when every
node in it is one that a document can tell. Stores start with such nodes, as long as the documents
and the tokens that they are given are made of proper JSON values, and no edit makes any other.
-/

namespace DesignTokens

namespace StoredNode

def Proper : StoredNode → Prop
  | .token t => t.Proper
  | .group attributes => attributes.Proper

/-- The metadata of a group at the path are its reserved keys without a meaning of their own, once
each. Below the root `$value` has one: it would make a token of the group. -/
def Labelled (path : String) : StoredNode → Prop
  | .token _ => True
  | .group attributes =>
      attributes.Named IsMetadataKey ∧ (path ≠ "" → attributes.Named IsInnerKey)

/-- What is kept at a path is what a document can tell of it. -/
def Told (path : String) (node : StoredNode) : Prop :=
  node.Proper ∧ node.Labelled path

/-- The place of a node matters only in that the root is one. -/
theorem Told.elsewhere {node : StoredNode} {path other : String} (h : node.Told path)
    (hpath : path ≠ "") : node.Told other := by
  cases node with
  | token t =>
      exact h
  | group attributes =>
      exact ⟨h.1, h.2.1, fun _ => h.2.2 hpath⟩

theorem told_emptyGroup (path : String) : (StoredNode.group {}).Told path :=
  ⟨Attributes.proper_empty, Attributes.named_empty, fun _ => Attributes.named_empty⟩

end StoredNode

namespace Store

variable {store after : Store} {path : String} {node : StoredNode}

def Proper (store : Store) : Prop :=
  ∀ path node, store.get? path = some node → node.Proper

/-- Every group has the metadata that a group can have where it is. -/
def Labelled (store : Store) : Prop :=
  ∀ path node, store.get? path = some node → node.Labelled path

/-- Every node of the store is one that a document can tell. -/
structure Documented (store : Store) : Prop where
  told : ∀ {path node}, store.get? path = some node → node.Told path

/-- A store is documented when its values are proper and no group is labelled as a token. -/
theorem documented_iff : store.Documented ↔ store.Proper ∧ store.Labelled := by
  constructor
  · intro h
    exact ⟨fun _ _ hget => (h.told hget).1, fun _ _ hget => (h.told hget).2⟩
  · rintro ⟨hproper, hlabelled⟩
    exact ⟨fun hget => ⟨hproper _ _ hget, hlabelled _ _ hget⟩⟩

/-! ## Reading back -/

section

variable (h : store.WellFormed) (hdocumented : store.Documented)

include h hdocumented

/-- A documented store has a tree that its own document tells. -/
theorem Documented.toTree : store.toTree.Legible ∧ store.toTree.Proper := by
  have hroot : store.toTree.root.EachProper ∧ Node.EachEntryNamed store.toTree.children := by
    have hall := @WellFormed.node?_induction _ h (fun path node => node.EachProper ∧
      Node.EachEntryNamed (Node.entriesOf (some node)) ∧ (path ≠ "" → node.EachNamed))
      ?token ?group _ _ h.node?_root
    case token =>
      intro path t hget
      exact ⟨Node.eachProper_token_iff.2 (hdocumented.told hget).1, Node.eachEntryNamed_nil,
        fun _ => Node.eachNamed_token t⟩
    case group =>
      intro path attributes hget hentries
      rcases hdocumented.told hget with ⟨hproper, -, hinner⟩
      have hnamed : Node.EachEntryNamed (store.below path) := by
        refine Node.eachEntryNamed_iff.2 fun entry hmem => (hentries entry hmem).2.2 ?_
        -- Entries are not at the root.
        have hname : entry.1 ∈ Entries.keys (store.below path) := List.mem_map_of_mem hmem
        rw [h.keys_below] at hname
        exact Path.child_ne_empty (h.listed hname).1
      exact ⟨Node.eachProper_group_iff.2 ⟨hproper, Node.eachEntryProper_iff.2
        fun entry hmem => (hentries entry hmem).1⟩, hnamed,
        fun hpath => Node.eachNamed_group_iff.2 ⟨hinner hpath, hnamed⟩⟩
    exact ⟨hall.1, hall.2.1⟩
  rcases isGroup_iff.1 h.root with ⟨attributes, hget⟩
  have hattributes : store.toTree.attributes.Named IsMetadataKey := by
    simpa [Store.toTree, Store.attributes, hget] using (hdocumented.told hget).2.1
  rcases Node.eachProper_group_iff.1 hroot.1 with ⟨hproper, hchildren⟩
  exact ⟨⟨h.properNames_toTree, hattributes, hroot.2⟩, ⟨hproper, hchildren⟩⟩

/-- Writing a store and reading it again gives the same nodes and the same order of entries. -/
theorem Documented.storeOfJson_toJson : storeOfJson store.toJson = .ok store := by
  rcases hdocumented.toTree h with ⟨hlegible, hproper⟩
  have hread : Store.ofJson store.toJson = .ok store := by
    rw [Store.ofJson, Store.toJson, hlegible.ofJson_toJson]
    exact congrArg Except.ok h.ofTree_toTree
  have hcollapse : store.toJson.collapse = store.toJson :=
    (hlegible.proper_toJson hproper).collapse_eq_self
  rw [storeOfJson, hcollapse, hread]

end

/-! ## Loading -/

theorem documented_empty : empty.Documented := by
  constructor
  intro path node hget
  rw [get?_empty] at hget
  split at hget
  · cases hget
    exact StoredNode.told_emptyGroup path
  · cases hget

/-- How entries are listed does not matter. -/
theorem Documented.congr (h : store.Documented)
    (hsame : ∀ path, after.get? path = store.get? path) : after.Documented :=
  ⟨fun {path _} hget => h.told ((hsame path).symm.trans hget)⟩

theorem Documented.withNode (h : store.Documented) (hnode : node.Told path) :
    (store.withNode path node).Documented := by
  constructor
  intro other found hget
  rw [get?_withNode] at hget
  split at hget
  · rename_i hother
    cases hget
    exact hother ▸ hnode
  · exact h.told hget

mutual

/-- A documented store stays so with a node and all that is below it. -/
theorem Documented.putNode {node : Node} {store : Store} {path : String} (h : store.Documented)
    (hproper : node.EachProper) (hnamed : node.EachNamed) :
    (store.putNode path node).Documented := by
  cases node with
  | token t =>
      have htold : (StoredNode.token t).Told path :=
        ⟨Node.eachProper_token_iff.1 hproper, trivial⟩
      exact h.withNode htold
  | group attributes entries =>
      rcases Node.eachProper_group_iff.1 hproper with ⟨hattributes, hvalues⟩
      rcases Node.eachNamed_group_iff.1 hnamed with ⟨hinner, hbelow⟩
      have htold : (StoredNode.group attributes).Told path :=
        ⟨hattributes, hinner.anywhere, fun _ => hinner⟩
      rw [putNode_group]
      exact ((h.withNode htold).putEntries hvalues hbelow).congr (get?_withNames _)

/-- A documented store stays so with the entries of a group. -/
theorem Documented.putEntries {entries : List (String × Node)} {store : Store} {path : String}
    (h : store.Documented) (hproper : Node.EachEntryProper entries)
    (hnamed : Node.EachEntryNamed entries) : (store.putEntries path entries).Documented := by
  cases entries with
  | nil =>
      rw [Store.putEntries]
      exact h
  | cons entry rest =>
      rcases entry with ⟨name, node⟩
      rcases hproper with ⟨hvalues, hrest⟩
      rcases Node.eachEntryNamed_cons_iff.1 hnamed with ⟨hmetadata, hlater⟩
      rw [Store.putEntries]
      exact (h.putNode hvalues hmetadata).putEntries hrest hlater

end

theorem documented_ofTree {tree : Tree} (h : tree.Legible) (hproper : tree.Proper) :
    (ofTree tree).Documented := by
  have hroot : (StoredNode.group tree.attributes).Told "" :=
    ⟨hproper.attributes, h.attributes, fun hpath => absurd rfl hpath⟩
  rw [ofTree, putNode_group]
  exact ((documented_empty.withNode hroot).putEntries hproper.children h.children).congr
    (get?_withNames _)

/-- The store of a document of proper values. -/
theorem documented_ofJson {value : Json} (hvalue : value.Proper)
    (h : Store.ofJson value = .ok store) : store.Documented := by
  rcases Except.exists_of_map_eq_ok h with ⟨tree, htree, rfl⟩
  exact documented_ofTree (Tree.legible_ofJson htree) (Tree.proper_ofJson hvalue htree)

/-- The metadata in the store of a tree are those in the tree. -/
theorem labelled_ofTree {tree : Tree} (h : tree.Legible) : (ofTree tree).Labelled := by
  intro path node hget
  cases node with
  | token t =>
      exact trivial
  | group attributes =>
      have hagrees := ((wellFormed_ofTree h.names).agreesAt_toTree path).get
      rw [toTree_ofTree h.names, hget] at hagrees
      rcases Option.map_eq_some_iff.1 hagrees.symm with ⟨found, hfound, hstored⟩
      cases found with
      | token t =>
          cases hstored
      | group attributes' children =>
          cases hstored
          by_cases hpath : path = ""
          · -- The metadata of the root are those of the tree.
            subst hpath
            have hroot : attributes = tree.attributes := by
              cases hfound
              rfl
            exact ⟨hroot ▸ h.attributes, fun hne => absurd rfl hne⟩
          · -- Below the root they are those of an entry, and named as such.
            rw [Tree.node?_eq_at?] at hfound
            have hsegments : Path.segments path ≠ [] := mt Path.segments_eq_nil_iff.1 hpath
            have hbelow : Node.EachEntryNamed (Node.entriesOf (some tree.root)) := h.children
            have hnamed := hbelow.eachNamed_of_follow hsegments hfound
            have hinner := (Node.eachNamed_group_iff.1 hnamed).1
            exact ⟨hinner.anywhere, fun _ => hinner⟩

/-- Whatever is read is labelled, of whatever values the document is made. -/
theorem labelled_of_storeOfJson {value : Json} (h : storeOfJson value = .ok store) :
    store.Labelled := by
  unfold storeOfJson at h
  split at h
  · rename_i read hread
    cases h
    rcases Except.exists_of_map_eq_ok hread with ⟨tree, htree, rfl⟩
    exact labelled_ofTree (Tree.legible_ofJson htree)
  · cases h

/-! ## Edits -/

/-- New groups can be told, so that a documented store stays so. -/
theorem Documented.createGroups (h : store.Documented) (walked : String) (segments : List String) :
    (store.createGroups walked segments).Documented := by
  induction segments generalizing store walked with
  | nil =>
      exact h
  | cons name rest ih =>
      simp only [Store.createGroups]
      split
      · exact ih h (Path.child walked name)
      · have hgrown := h.withNode (StoredNode.told_emptyGroup (Path.child walked name))
        exact ih (hgrown.congr get?_link) (Path.child walked name)

/-- A token whose value is proper keeps a store documented. -/
theorem Documented.putToken {token : Token} (h : store.Documented) (htoken : token.Proper)
    (path : String) : (store.putToken path token).Documented := by
  have htold : (StoredNode.token token).Told path := ⟨htoken, trivial⟩
  unfold Store.putToken
  dsimp only
  split
  · exact h.withNode htold
  · exact (h.withNode htold).congr get?_link

/-- Turning a reference keeps a store documented. -/
theorem Documented.redirect (h : store.Documented) (path source target : String) :
    (store.redirect path source target).Documented := by
  unfold Store.redirect
  split
  · rename_i turned hturned
    simp only [redirected?, Option.bind_eq_bind, Option.bind_eq_some_iff] at hturned
    rcases hturned with ⟨token, htoken, reference, -, moved, -, hturned⟩
    have hold : token.Proper := (h.told (token?_eq_some_iff.1 htoken)).1
    have htold : (StoredNode.token turned).Told path := by
      rw [← Option.some.inj hturned]
      exact ⟨⟨Json.proper_string _, hold.extensions⟩, trivial⟩
    exact h.withNode htold
  · exact h

/-- Removing a node keeps a store documented. -/
theorem Documented.remove (hdocumented : store.Documented) (h : store.WellFormed)
    (hrun : (Store.remove path).run store = .ok node after) : after.Documented := by
  rcases run_remove_eq_ok.1 hrun with ⟨parent, -, hnode, rfl⟩
  have hc : store.contains path = true := contains_iff.2 ⟨node, hnode⟩
  constructor
  intro other found hget
  have hpruned : (store.pruned path).get? other = some found := by rwa [get?_unlink] at hget
  rw [h.get?_pruned hc] at hpruned
  split at hpruned
  · cases hpruned
  · exact hdocumented.told hpruned

/-- A subtree that moves can be told at its new place, so that the store stays documented. -/
theorem Documented.relocated {target : String} (h : store.Documented)
    (hrelocated : Relocated store after path target) : after.Documented := by
  rcases hrelocated with ⟨-, rfl⟩ | ⟨hmovable, hrelocates, -⟩
  · exact h
  · constructor
    intro other node hget
    -- What is found is what was there, or what was carried there from below the root.
    rcases hmovable.cases other with ⟨old, hmoved⟩ | hleft | ⟨hsource, htarget⟩
    · have hold : old ≠ "" := by
        rintro rfl
        exact hmovable.source_ne (Path.isWithin_empty_iff.1 (Path.isWithin_of_rebase? hmoved))
      rw [hrelocates.moved hmoved] at hget
      exact (h.told hget).elsewhere hold
    · rw [hrelocates.left hleft] at hget
      cases hget
    · rw [hrelocates.kept hsource htarget] at hget
      exact h.told hget

/-- The edit stores no token but one of proper JSON values. -/
def Operation.Proper : Operation → Prop
  | .setToken _ token => token.Proper
  | _ => True

/-- Every operation on proper values keeps a store documented. -/
theorem Documented.after_of_proper (hdocumented : store.Documented) (h : store.WellFormed)
    {operation : Operation} (hproper : operation.Proper) :
    (operation.after store).Documented := by
  cases operation with
  | ensureGroup path =>
      refine (atomic_ensureGroup path).holds_stateAfter hdocumented fun hrun => ?_
      rw [(run_ensureGroup_eq_ok.1 hrun).2.2]
      -- A new group has no metadata.
      exact hdocumented.createGroups "" (Path.segments path)
  | setToken path token =>
      refine (atomic_setToken path token).holds_stateAfter hdocumented fun hrun => ?_
      rcases run_setToken_eq_ok.1 hrun with ⟨parent, grown, -, -, -, hensure, rfl⟩
      rw [(run_ensureGroup_eq_ok.1 hensure).2.2]
      exact (hdocumented.createGroups "" (Path.segments parent)).putToken hproper path
  | remove path =>
      exact (atomic_remove path).holds_stateAfter hdocumented (hdocumented.remove h)
  | rename path name =>
      exact (atomic_rename path name).holds_stateAfter hdocumented fun hrun =>
        hdocumented.relocated (h.rename hrun)
  | move path parent =>
      exact (atomic_move path parent).holds_stateAfter hdocumented fun hrun =>
        hdocumented.relocated (h.move hrun)
  | redirect path source target =>
      refine (atomic_redirectReference path source target).holds_stateAfter hdocumented
        fun hrun => ?_
      rw [(run_redirectReference_eq_ok.1 hrun).2]
      exact hdocumented.redirect path source target

/-- All edits of a run leave a well-formed store that documents tell, unless a token is set at a
name with a dot before it or has values that are not proper. -/
theorem Documented.run (hdocumented : store.Documented) (h : store.WellFormed)
    {operations : List Operation} (hplain : ∀ operation ∈ operations, ¬ operation.IsDotted)
    (hproper : ∀ operation ∈ operations, operation.Proper) :
    (run store operations).WellFormed ∧ (run store operations).Documented := by
  induction operations generalizing store with
  | nil =>
      exact ⟨h, hdocumented⟩
  | cons operation rest ih =>
      rcases List.forall_mem_cons.1 hplain with ⟨hfirst, hrest⟩
      rcases List.forall_mem_cons.1 hproper with ⟨hvalues, hothers⟩
      exact ih (hdocumented.after_of_proper h hvalues) ((h.after_iff operation).2 hfirst) hrest
        hothers

end Store
end DesignTokens
