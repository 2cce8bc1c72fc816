import DesignTokens.Proofs.Store.Frame
import DesignTokens.Proofs.Store.Loading
import DesignTokens.Proofs.Store.References

/-!
# Edits of stores are edits of trees

Renaming, moving and removing work on the two maps of a store. Read off as trees, they change the
entries of one group each: a renaming gives one entry another name in its place, a removal erases
one entry, and a move erases an entry of one group and adds it at the end of another.
-/

namespace DesignTokens
namespace Store

variable {store after : Store} {source target path parent name last : String}

/-! ## Undoing a renaming -/

/-- Replacing a name and replacing it back gives the names again. -/
theorem replaceFirst_replaceFirst {old new : String} {names : List String} (h : new ∉ names) :
    replaceFirst new old (replaceFirst old new names) = names := by
  induction names with
  | nil =>
      rfl
  | cons first rest ih =>
      rcases not_or.1 (mt List.mem_cons.2 h) with ⟨hne, hrest⟩
      by_cases heq : first = old
      · simp [replaceFirst, heq]
      · simp [replaceFirst, heq, Ne.symm hne, ih hrest]

/-- A change at a path outside of both places does not interfere with the move. -/
theorem Relocates.changeAt {α : Type} {before after : String → Option α}
    (h : Relocates before after source target) (hsource : Path.isWithin parent source = false)
    (hsourceTarget : Path.isWithin parent target = false) (hs : source ≠ "") (ht : target ≠ "")
    (change : α → α) :
    Relocates (fun path => if path = parent then (before parent).map change else before path)
      (fun path => if path = parent then (after parent).map change else after path)
      source target := by
  constructor
  case moved =>
    intro old new hmoved
    have hold := Path.ne_of_isWithin (Path.isWithin_of_rebase? hmoved) hsource
    have hnew := Path.ne_of_isWithin (Path.isWithin_rebase? hs ht hmoved) hsourceTarget
    simpa [hold, hnew] using h.moved hmoved
  case left =>
    intro path hin
    have hne := Path.ne_of_isWithin hin hsource
    simpa [hne] using h.left hin
  case kept =>
    intro path hout hout'
    by_cases hpath : path = parent
    · simp [hpath, h.kept hsource hsourceTarget]
    · simpa [hpath] using h.kept hout hout'

/-- Moving there and back gives what there was, as long as the new place was free. -/
theorem Relocates.undo {α : Type} {before between back : String → Option α}
    (hm : store.Movable source target) (h : Relocates before between source target)
    (hback : Relocates between back target source)
    (hfree : ∀ {path}, Path.isWithin path target = true → before path = none) (path : String) :
    back path = before path := by
  rcases hm.cases path with ⟨old, hold⟩ | hsource | ⟨hsource, htarget⟩
  · -- The new place is vacant again, as it was.
    have htarget := Path.isWithin_rebase? hm.source_ne hm.target_ne hold
    exact (hback.left htarget).trans (hfree htarget).symm
  · -- What was at the old place has gone there and come back.
    rcases Path.exists_rebase? hm.target_ne hm.source_ne hsource with ⟨new, hnew⟩
    have hmoved := (Path.rebase?_symm hm.target_ne hm.source_ne).1 hnew
    exact (hback.moved hnew).trans (h.moved hmoved)
  · exact (hback.kept htarget hsource).trans (h.kept hsource htarget)

/-- Two stores with the same nodes and names are the same. -/
theorem ext_lookup {other : Store} (hnodes : ∀ path, other.get? path = store.get? path)
    (hnames : ∀ path : String, other.names[path]? = store.names[path]?) : other = store := by
  cases other with
  | mk otherNodes otherNames =>
      cases store with
      | mk nodes names =>
          have hsame : otherNodes = nodes := Std.ExtTreeMap.ext_getElem? hnodes
          have hsame' : otherNames = names := Std.ExtTreeMap.ext_getElem? hnames
          rw [hsame, hsame']

namespace WellFormed

variable (h : store.WellFormed) (hm : store.Movable source target)

include h hm

/-- What has been relocated can be moved back. -/
theorem movable_back (hnodes : Relocates store.get? after.get? source target) :
    after.Movable target source where
  source_ne := hm.target_ne
  target_ne := hm.source_ne
  present := (hnodes.contains_moved (Path.rebase?_self hm.source_ne)).trans hm.present
  free := hnodes.contains_left (Path.isWithin_self source)
  outside := h.not_isWithin_both hm (Path.isWithin_self source)

/-- A rename relocates the nodes of the subtree. -/
theorem relocates_relink :
    Relocates store.get? ((store.rekey source target).relink parent last name).get? source
      target := by
  have hsame : ((store.rekey source target).relink parent last name).get? =
      (store.rekey source target).get? := funext get?_relink
  rw [hsame]
  exact h.relocates_nodes hm

/-- A move relocates the nodes of the subtree. -/
theorem relocates_link {oldParent : String} :
    Relocates store.get?
      (((store.rekey source target).unlink oldParent last).link parent name).get? source
      target := by
  have hsame : (((store.rekey source target).unlink oldParent last).link parent name).get? =
      (store.rekey source target).get? := by
    funext other
    rw [get?_link, get?_unlink]
  rw [hsame]
  exact h.relocates_nodes hm

/-- The lists of names are moved, and the one of the parent has the new name in place of the old
one. -/
theorem relocates_names_relink (hparentSource : Path.isWithin parent source = false)
    (hparentTarget : Path.isWithin parent target = false) :
    Relocates (fun path => if path = parent then (store.names[parent]?).map (replaceFirst last name)
        else store.names[path]?)
      (((store.rekey source target).relink parent last name).names[·]?) source target := by
  have hchanged := (h.relocates_names hm).changeAt hparentSource hparentTarget hm.source_ne
    hm.target_ne (replaceFirst last name)
  have hsame : (((store.rekey source target).relink parent last name).names[·]?) = fun path =>
      if path = parent then ((store.rekey source target).names[parent]?).map
        (replaceFirst last name) else (store.rekey source target).names[path]? :=
    funext getElem?_names_relink
  rw [hsame]
  exact hchanged

/-- A renaming back restores the nodes, the lists of names and the order of the siblings. -/
theorem relink_relink (hlast : Path.ValidName last) (hname : Path.ValidName name)
    (hsource : source = Path.child parent last) (htarget : target = Path.child parent name)
    (hafter : after.WellFormed)
    (heq : after = (store.rekey source target).relink parent last name) :
    (after.rekey target source).relink parent name last = store := by
  have hback : after.Movable target source :=
    h.movable_back hm (heq ▸ h.relocates_relink hm)
  have hparentSource := Path.isWithin_parent_eq_false hlast hsource
  have hparentTarget := Path.isWithin_parent_eq_false hname htarget
  have hvacant : ∀ {path}, Path.isWithin path target = true → store.contains path = false :=
    h.not_contains_target hm
  apply ext_lookup
  · intro path
    apply Relocates.undo hm (heq ▸ h.relocates_relink hm) (hafter.relocates_relink hback)
    intro path hin
    exact contains_eq_false_iff.1 (hvacant hin)
  · intro path
    -- The list of `parent` is changed on both ways, and the second change undoes the first.
    have hundone := Relocates.undo hm
      (heq ▸ h.relocates_names_relink hm hparentSource hparentTarget)
      (hafter.relocates_names hback) (by
        intro path hin
        have hnone : store.names[path]? = none := h.names_eq_none_of_not_isGroup
          (by simpa using mt contains_of_isGroup (by simp [hvacant hin]))
        simp [Path.ne_of_isWithin hin hparentTarget, hnone])
    rw [getElem?_names_relink, hundone, hundone]
    by_cases hpath : path = parent
    · subst hpath
      cases hnames : store.names[path]? with
      | none =>
          simp
      | some names =>
          have hnotMem : name ∉ names := by
            simpa [children, hnames] using h.not_mem_children_target hm htarget
          simp [replaceFirst_replaceFirst hnotMem]
    · simp [hpath]

end WellFormed

/-! ## Trees after an edit -/

theorem exists_node? (hc : store.contains path = true) : ∃ node, store.node? path = some node := by
  rcases contains_iff.1 hc with ⟨node, hget⟩
  exact ⟨node.withEntries (store.below path), by simp [node?, hget]⟩

/-- The subtree is found unchanged at its new place. -/
theorem WellFormed.node?_target (h : store.WellFormed) (hm : store.Movable source target)
    (hnodes : Relocates store.get? after.get? source target)
    (hlinks : Relinked store after source target) (hafter : after.WellFormed) :
    after.node? target = store.node? source := by
  have hcarries : Carries store after source target :=
    ⟨hm.source_ne, hm.target_ne, hnodes.moved, hlinks.moved⟩
  exact hcarries.node? h hafter

namespace WellFormed

variable (h : store.WellFormed)

include h

/-- A removal erases one entry of the group around it. -/
theorem toTree_without (hname : Path.ValidName name)
    (hc : store.contains (Path.child parent name) = true) :
    (store.without parent name).toTree =
      store.toTree.changeGroup parent (Entries.erase · name) := by
  have hafter := h.without hname hc
  have hbelow : ChangesBelow store (store.without parent name) parent [name] := by
    refine ⟨by simpa using hname, ?_, ?_⟩
    · intro path hout
      rw [get?_without h hc, hout name (by simp)]
      rfl
    · intro path hout hne
      rw [children_without h hname hc, hout name (by simp), if_neg hne]
      rfl
  -- The entries that stay are the siblings, each with the subtree that it had.
  have hsiblings : (store.without parent name).children parent = store.siblings parent name := by
    rw [children_without h hname hc, Path.isWithin_parent_eq_false hname rfl, if_pos rfl]
    rfl
  refine hbelow.toTree_eq h hafter (h.linked_child hname hc).1 ?_
  calc
    (store.without parent name).below parent
        = Entries.ofNames (fun other => (store.without parent name).node? (Path.child parent other))
            (store.siblings parent name) := by rw [hafter.below_eq, hsiblings]
    _ = Entries.ofNames (fun other => store.node? (Path.child parent other))
          (store.siblings parent name) := by
        apply Entries.ofNames_congr
        intro other hother
        rcases mem_siblings.1 hother with ⟨hmem, hne⟩
        exact hbelow.node?_sibling h hafter (h.listed hmem).1 (by simpa using hne)
    _ = Entries.erase (store.below parent) name := by
        rw [h.below_eq, Entries.erase_ofNames (h.nodup_children parent)]
        rfl

variable (hm : store.Movable source target)

include hm

/-- A renaming gives one entry of the group around it another name, in its place. -/
theorem toTree_relink (hlast : Path.ValidName last) (hname : Path.ValidName name)
    (hsource : source = Path.child parent last) (htarget : target = Path.child parent name)
    (hafter : after.WellFormed)
    (heq : after = (store.rekey source target).relink parent last name) :
    after.toTree = store.toTree.changeGroup parent (Entries.rename · last name) := by
  have hnodes : Relocates store.get? after.get? source target := heq ▸ h.relocates_relink hm
  have hlinks : Relinked store after source target :=
    heq ▸ h.relinked_relink hm hlast hname hsource htarget
  have hparentSource := Path.isWithin_parent_eq_false hlast hsource
  have hparentTarget := Path.isWithin_parent_eq_false hname htarget
  have hlisted : after.children parent = replaceFirst last name (store.children parent) := by
    rw [heq, children_relink, if_pos rfl,
      h.children_rekey_of_outside hm hparentSource hparentTarget]
  have hbelow : ChangesBelow store after parent [last, name] := by
    refine ⟨by simp [hlast, hname], ?_, ?_⟩
    · intro path hout
      exact hnodes.kept (hsource ▸ hout last (by simp)) (htarget ▸ hout name (by simp))
    · intro path hout hne
      rw [heq, children_relink, if_neg hne, h.children_rekey_of_outside hm
        (hsource ▸ hout last (by simp)) (htarget ▸ hout name (by simp))]
  refine hbelow.toTree_eq h hafter (h.linked_child hlast (hsource ▸ hm.present)).1 ?_
  -- The renamed entry has the subtree that it had, and so have its siblings.
  rcases exists_node? hm.present with ⟨node, hnode⟩
  have hmoved := h.node?_target hm hnodes hlinks hafter
  rw [hafter.below_eq, h.below_eq, hlisted]
  refine (Entries.rename_ofNames (h.nodup_children parent) (hsource ▸ hnode)
    (htarget ▸ hmoved.trans hnode) ?_).symm
  intro other hother hne
  -- The new name was free, so that no other entry has it.
  have hfree : other ≠ name := by
    rintro rfl
    exact h.not_mem_children_target hm htarget hother
  exact hbelow.node?_sibling h hafter (h.listed hother).1 (by simp [hne, hfree])

/-- A move erases an entry of one group and adds it at the end of another. -/
theorem toTree_link {oldParent : String} {node : Node} (hname : Path.ValidName name)
    (hne : oldParent ≠ parent) (hgroup : store.isGroup parent = true)
    (hparentSource : Path.isWithin parent source = false)
    (hsource : source = Path.child oldParent name) (htarget : target = Path.child parent name)
    (hafter : after.WellFormed)
    (heq : after = ((store.rekey source target).unlink oldParent name).link parent name)
    (hnode : store.node? source = some node) :
    after.toTree =
      (store.toTree.changeGroup oldParent (Entries.erase · name)).changeGroup parent
        (· ++ [(name, node)]) := by
  have hnodes : Relocates store.get? after.get? source target := heq ▸ h.relocates_link hm
  have hlinks : Relinked store after source target :=
    heq ▸ h.relinked_link hm hname hne hparentSource hsource htarget
  have hchildren : ∀ other, after.children other =
      if other = parent then store.children parent ++ [name]
      else if other = oldParent then store.siblings oldParent name
      else (store.rekey source target).children other :=
    heq ▸ h.children_link_unlink hm hname hne hparentSource hsource htarget
  -- The move is seen as a removal first, which leaves the new parent where it is.
  have hc : store.contains (Path.child oldParent name) = true := hsource ▸ hm.present
  have hremoved := h.without hname hc
  have hlisted : (store.without oldParent name).children parent = store.children parent := by
    rw [children_without h hname hc, ← hsource, hparentSource, if_neg (Ne.symm hne)]
    rfl
  have hbelow : ChangesBelow (store.without oldParent name) after parent [name] := by
    refine ⟨by simpa using hname, ?_, ?_⟩
    · intro path hout
      have htargetOut : Path.isWithin path target = false := htarget ▸ hout name (by simp)
      rw [get?_without h hc, ← hsource]
      by_cases hin : Path.isWithin path source = true
      · simp [hin, hnodes.left hin]
      · simp [hin, hnodes.kept (by simpa using hin) htargetOut]
    · intro path hout hneParent
      have htargetOut : Path.isWithin path target = false := htarget ▸ hout name (by simp)
      rw [hchildren, if_neg hneParent, children_without h hname hc, ← hsource]
      by_cases hin : Path.isWithin path source = true
      · have hneOld := Path.ne_of_isWithin hin (h.isWithin_oldParent_eq_false hm hname hsource).1
        simp [hin, hneOld, h.children_rekey_source hm hin]
      · simp [hin, h.children_rekey_of_outside hm (by simpa using hin) htargetOut]
  have hmoved := (h.node?_target hm hnodes hlinks hafter).trans hnode
  rw [← h.toTree_without hname hc]
  have hgroup' : (store.without oldParent name).isGroup parent = true :=
    isGroup_without h hc (hsource ▸ hparentSource) hgroup
  refine hbelow.toTree_eq hremoved hafter hgroup' ?_
  have hlist : after.children parent = store.children parent ++ [name] := by
    rw [hchildren, if_pos rfl]
  rw [hafter.below_eq, hremoved.below_eq, hlist, hlisted,
    Entries.ofNames_append_singleton (htarget ▸ hmoved)]
  congr 1
  apply Entries.ofNames_congr
  intro other hother
  have hfree : other ≠ name := by
    rintro rfl
    exact h.not_mem_children_target hm htarget hother
  exact hbelow.node?_sibling hremoved hafter (h.listed hother).1 (by simpa using hfree)

end WellFormed

/-! ## Accepted edits -/

/-- The entry at `path` has another name in its place, and what it was called before is enough to
get the store back. -/
structure RenamesEntry (store after : Store) (path newPath parent name : String) (node : Node) :
    Prop where
  parent? : Path.parent? path = some parent
  newPath_eq : newPath = Path.child parent name
  found : store.toTree.lookup path = some node
  kept : after.toTree.lookup newPath = some node
  tree : after.toTree = store.toTree.changeGroup parent (Entries.rename · (Path.last path) name)
  back : (rename newPath (Path.last path)).run after = .ok path store
  nodes : Relocated store after path newPath
  wellFormed : after.WellFormed

structure MovesEntry (store after : Store) (path newPath oldParent parent : String) (node : Node) :
    Prop where
  parent? : Path.parent? path = some oldParent
  newPath_eq : newPath = Path.child parent (Path.last path)
  found : store.toTree.lookup path = some node
  kept : after.toTree.lookup newPath = some node
  tree : after.toTree =
    (store.toTree.changeGroup oldParent (Entries.erase · (Path.last path))).changeGroup parent
      (· ++ [(Path.last path, node)])
  nodes : Relocated store after path newPath
  wellFormed : after.WellFormed

structure RemovesEntry (store after : Store) (path parent : String) (node : Node) : Prop where
  parent? : Path.parent? path = some parent
  found : store.toTree.lookup path = some node
  tree : after.toTree = store.toTree.changeGroup parent (Entries.erase · (Path.last path))
  nodes : ∀ other, after.get? other =
    if Path.isWithin other path then none else store.get? other
  wellFormed : after.WellFormed

namespace WellFormed

variable {newPath : String} (h : store.WellFormed)

include h

/-- The node that moves is found at its old place before and at its new one after. -/
theorem exists_lookup_moved (hm : store.Movable source target)
    (hnodes : Relocates store.get? after.get? source target)
    (hlinks : Relinked store after source target) (hafter : after.WellFormed) :
    ∃ node, store.node? source = some node ∧ store.toTree.lookup source = some node ∧
      after.toTree.lookup target = some node := by
  rcases exists_node? hm.present with ⟨node, hnode⟩
  refine ⟨node, hnode, ?_, ?_⟩
  · rw [h.lookup_toTree hm.present hm.source_ne, hnode]
  · have hthere := (h.movable_back hm hnodes).present
    rw [hafter.lookup_toTree hthere hm.target_ne, h.node?_target hm hnodes hlinks hafter, hnode]

/-- A renaming to the name that the entry has. -/
theorem renamesEntry_self (hparent : Path.parent? path = some parent)
    (hc : store.contains path = true) :
    ∃ node, RenamesEntry store store path path parent (Path.last path) node := by
  rcases h.eq_child hc hparent with ⟨hlast, hpath⟩
  rcases exists_node? hc with ⟨node, hnode⟩
  have hfound : store.toTree.lookup path = some node :=
    (h.lookup_toTree hc (hpath ▸ Path.child_ne_empty hlast)).trans hnode
  have hsame : ChangesBelow store store parent [] :=
    ⟨by simp, fun _ => rfl, fun _ _ => rfl⟩
  have htree : store.toTree =
      store.toTree.changeGroup parent (Entries.rename · (Path.last path) (Path.last path)) :=
    hsame.toTree_eq h h (h.linked hc hparent).1 (Entries.rename_self _ _).symm
  have hback : (Store.rename path (Path.last path)).run store = .ok path store :=
    run_rename_eq_ok.2 ⟨parent, hparent, hlast, hc, Or.inl ⟨rfl, rfl, rfl⟩⟩
  exact ⟨node, hparent, hpath, hfound, hfound, htree, hback, Or.inl ⟨rfl, rfl⟩, h⟩

/-- An accepted rename renames an entry of the tree. -/
theorem renamesEntry (hrun : (Store.rename path name).run store = .ok newPath after) :
    ∃ parent node, RenamesEntry store after path newPath parent name node := by
  rcases run_rename_eq_ok.1 hrun with ⟨parent, hparent, hname, hc, hcase⟩
  rcases hcase with ⟨rfl, rfl, rfl⟩ | ⟨hne, htarget, hfree, hafter⟩
  · exact ⟨parent, h.renamesEntry_self hparent hc⟩
  · -- The name has changed, so that the subtree has moved.
    rcases h.eq_child hc hparent with ⟨hlast, hpath⟩
    have hm : store.Movable path newPath := Movable.of_child hlast hpath hname htarget hc hfree
      (Path.isWithin_parent_eq_false hlast hpath)
    have hmoved := h.rename hrun
    have hwell := h.of_relocated hmoved
    have hnodes : Relocates store.get? after.get? path newPath := hafter ▸ h.relocates_relink hm
    have hlinks : Relinked store after path newPath :=
      hafter ▸ h.relinked_relink hm hlast hname hpath htarget
    rcases h.exists_lookup_moved hm hnodes hlinks hwell with ⟨node, -, hfound, hkept⟩
    have htree := h.toTree_relink hm hlast hname hpath htarget hwell hafter
    -- The old name is free again, and takes the place of the new one.
    have hback : (Store.rename newPath (Path.last path)).run after = .ok path store := by
      have hthere := h.movable_back hm hnodes
      have hparent' : Path.parent? newPath = some parent := htarget ▸ Path.parent?_child hname
      have hlast' : Path.last newPath = name := htarget ▸ Path.last_child hname
      have hrestored := h.relink_relink hm hlast hname hpath htarget hwell hafter
      refine run_rename_eq_ok.2 ⟨parent, hparent', hlast, hthere.present, Or.inr ?_⟩
      rw [hlast']
      exact ⟨Ne.symm hne, hpath, hthere.free, hrestored.symm⟩
    exact ⟨parent, node, hparent, htarget, hfound, hkept, htree, hback, hmoved, hwell⟩

/-- An accepted move to another parent moves an entry of the tree. -/
theorem movesEntry (hrun : (Store.move path parent).run store = .ok newPath after)
    (hnew : newPath ≠ path) :
    ∃ oldParent node, MovesEntry store after path newPath oldParent parent node := by
  rcases run_move_eq_ok.1 hrun with ⟨oldParent, hparent, hc, hgroup, hout, hcase⟩
  rcases hcase with ⟨-, hsame, -⟩ | ⟨hne, htarget, hfree, hafter⟩
  · exact absurd hsame hnew
  · rcases h.eq_child hc hparent with ⟨hlast, hpath⟩
    have hm : store.Movable path newPath :=
      Movable.of_child hlast hpath hlast htarget hc hfree hout
    have hmoved := h.move hrun
    have hwell := h.of_relocated hmoved
    have hnodes : Relocates store.get? after.get? path newPath :=
      hafter ▸ h.relocates_link hm
    have hlinks : Relinked store after path newPath :=
      hafter ▸ h.relinked_link hm hlast hne hout hpath htarget
    rcases h.exists_lookup_moved hm hnodes hlinks hwell with ⟨node, hnode, hfound, hkept⟩
    have htree := h.toTree_link hm hlast hne hgroup hout hpath htarget hwell hafter hnode
    exact ⟨oldParent, node, hparent, htarget, hfound, hkept, htree, hmoved, hwell⟩

/-- An accepted removal removes an entry of the tree. -/
theorem removesEntry {removed : StoredNode}
    (hrun : (Store.remove path).run store = .ok removed after) :
    ∃ parent node, RemovesEntry store after path parent node := by
  rcases run_remove_eq_ok.1 hrun with ⟨parent, hparent, hremoved, hafter⟩
  have hc : store.contains path = true := contains_iff.2 ⟨removed, hremoved⟩
  rcases h.eq_child hc hparent with ⟨hlast, hpath⟩
  rcases exists_node? hc with ⟨node, hnode⟩
  have hwithout : after = store.without parent (Path.last path) := by
    rw [hafter, Store.without, ← hpath]
    rfl
  have hchild : store.contains (Path.child parent (Path.last path)) = true := hpath ▸ hc
  refine ⟨parent, node, hparent, ?_, ?_, ?_, h.remove hrun⟩
  · rw [h.lookup_toTree hc (hpath ▸ Path.child_ne_empty hlast), hnode]
  · rw [hwithout]
    exact h.toTree_without hlast hchild
  · intro other
    rw [hwithout, get?_without h hchild, ← hpath]

end WellFormed

/-- Accepted edits of a well-formed store are edits of its tree: a renaming changes the name of one
entry in its place and can be taken back, a move carries one entry to the end of another group, and
a removal erases one entry. No other node is lost, doubled or changed. -/
theorem WellFormed.edits_toTree (h : store.WellFormed) :
    (∀ {path name newPath after}, (Store.rename path name).run store = .ok newPath after →
        ∃ parent node, RenamesEntry store after path newPath parent name node) ∧
      (∀ {path parent newPath after}, (Store.move path parent).run store = .ok newPath after →
        newPath ≠ path →
          ∃ oldParent node, MovesEntry store after path newPath oldParent parent node) ∧
      (∀ {path removed after}, (Store.remove path).run store = .ok removed after →
        ∃ parent node, RemovesEntry store after path parent node) := by
  refine ⟨?_, ?_, ?_⟩
  · intro path name newPath after hrun
    exact h.renamesEntry hrun
  · intro path parent newPath after hrun hnew
    exact h.movesEntry hrun hnew
  · intro path removed after hrun
    exact h.removesEntry hrun

/-- Two groups, one of them with two names that begin alike. -/
def paletteTree : Tree where
  children :=
    [("color", .group {}
        [("red", .token { value := .string "#f00" }),
          ("reddish", .token { value := .string "#e22" })]),
      ("brand", .group {} [("blue", .token { value := .string "#00f" })])]

theorem wellFormed_paletteTree : (ofTree paletteTree).WellFormed :=
  wellFormed_ofTree (by decide +kernel)

/-- One of the two names is moved, the other one stays. -/
theorem edits_toTree_palette :
    (move "color.red" "brand").run (ofTree paletteTree) =
        .ok "brand.red" ((move "color.red" "brand").stateAfter (ofTree paletteTree)) ∧
      ∃ oldParent node, MovesEntry (ofTree paletteTree)
        ((move "color.red" "brand").stateAfter (ofTree paletteTree)) "color.red" "brand.red"
        oldParent "brand" node := by
  have hrun := @Edit.run_eq_ok_of_result _ _ _ (ofTree paletteTree) "brand.red"
    (move "color.red" "brand") (by decide +kernel)
  have hedits := WellFormed.edits_toTree wellFormed_paletteTree
  exact ⟨hrun, hedits.2.1 hrun (by decide)⟩

end Store
end DesignTokens
