import DesignTokens.Proofs.Store.Growth
import DesignTokens.Proofs.Store.Rekeying
import DesignTokens.Proofs.Store.Removal

/-!
# Renaming and moving

After its subtree has new keys, a renamed or moved node is still listed under its old name. A rename
replaces that name in its place; a move takes it out of one list and adds it to the end of another.
Both then lead to the node again, and both leave every other name alone.
-/

namespace DesignTokens
namespace Store

variable {store after : Store} {path parent name source target : String}

/-! ## Links after a move -/

/-- The lists of names after a subtree has moved: those within it have moved with it, and outside of
it the name that led to `source` is gone and one that leads to `target` is there. -/
structure Relinked (store after : Store) (source target : String) : Prop where
  moved : ∀ {old new}, Path.rebase? source target old = some new →
    after.children new = store.children old
  left : ∀ {path}, Path.isWithin path source = true → after.children path = []
  nodup : ∀ {path}, Path.isWithin path source = false → Path.isWithin path target = false →
    (after.children path).Nodup
  mem : ∀ {path name}, Path.isWithin path source = false → Path.isWithin path target = false →
    (name ∈ after.children path ↔
      (name ∈ store.children path ∧ Path.child path name ≠ source) ∨
        (Path.ValidName name ∧ Path.child path name = target))
  nonempty : ∀ path : String, after.names[path]? ≠ some []

section Moved

variable {other otherName : String} (h : store.WellFormed) (hm : store.Movable source target)
  (hnodes : Relocates store.get? after.get? source target)
  (hlinks : Relinked store after source target)

include h hm hnodes

theorem valid_of_relocates (hvalid : Path.Valid target) (hc : after.contains path = true) :
    Path.Valid path := by
  -- Moved, left or kept: every question about the store after the move is split like this.
  rcases hm.cases path with ⟨old, hold⟩ | hsource | ⟨hsource, htarget⟩
  · rw [hnodes.contains_moved hold] at hc
    exact (h.valid hc).rebase? hm.source_ne hvalid hm.target_ne hold
  · rw [hnodes.contains_left hsource] at hc
    cases hc
  · rw [hnodes.contains_kept hsource htarget] at hc
    exact h.valid hc

include hlinks

omit hnodes in
theorem nodup_of_relocates (path : String) : (after.children path).Nodup := by
  rcases hm.cases path with ⟨old, hold⟩ | hsource | ⟨hsource, htarget⟩
  · rw [hlinks.moved hold]
    exact h.nodup_children old
  · rw [hlinks.left hsource]
    exact List.nodup_nil
  · exact hlinks.nodup hsource htarget

/-- The children after a relocation are there, and have valid names. -/
theorem listed_of_relocates (hmem : otherName ∈ after.children other) :
    Path.ValidName otherName ∧ after.contains (Path.child other otherName) = true := by
  rcases hm.cases other with ⟨old, hold⟩ | hsource | ⟨hsource, htarget⟩
  · rw [hlinks.moved hold] at hmem
    rcases h.listed hmem with ⟨hother, hc⟩
    have hchild : Path.rebase? source target (Path.child old otherName) =
        some (Path.child other otherName) :=
      Path.rebase?_child hm.source_ne hm.target_ne hold
    exact ⟨hother, (hnodes.contains_moved hchild).trans hc⟩
  · rw [hlinks.left hsource] at hmem
    cases hmem
  · rcases (hlinks.mem hsource htarget).1 hmem with ⟨hold, hne⟩ | ⟨hother, heq⟩
    · rcases h.listed hold with ⟨hother, hc⟩
      have hsourceChild := Path.isWithin_child_eq_false hother hsource hne
      have htargetChild := h.not_isWithin_target hm hc
      exact ⟨hother, (hnodes.contains_kept hsourceChild htargetChild).trans hc⟩
    · -- This is the one new name, and the subtree itself has moved there.
      rw [heq, hnodes.contains_moved (Path.rebase?_self hm.source_ne)]
      exact ⟨hother, hm.present⟩

/-- What is there after a relocation is linked to the group above it. -/
theorem linked_of_relocates (hgroup : store.isGroup parent = true)
    (hparent : Path.isWithin parent source = false) (hname : Path.ValidName name)
    (htarget : target = Path.child parent name) (hother : Path.ValidName otherName)
    (hc : after.contains (Path.child other otherName) = true) :
    after.isGroup other = true ∧ otherName ∈ after.children other := by
  rcases hm.cases (Path.child other otherName) with ⟨old, hold⟩ | hsource | ⟨hsource, houtside⟩
  · have hwithin := Path.isWithin_rebase? hm.source_ne hm.target_ne hold
    rcases (Path.isWithin_child_iff hother).1 hwithin with heq | hbelow
    · -- The root of the subtree hangs under the new parent.
      rcases (Path.child_inj hother hname).1 (heq.trans htarget) with ⟨rfl, rfl⟩
      have hparentTarget := Path.isWithin_parent_eq_false hname htarget
      rw [hnodes.isGroup_kept hparent hparentTarget, hlinks.mem hparent hparentTarget]
      exact ⟨hgroup, Or.inr ⟨hname, heq⟩⟩
    · -- What hangs below it hangs there as it did before.
      rcases Path.exists_rebase? hm.source_ne hm.target_ne hbelow with ⟨oldOther, holdOther⟩
      rw [hnodes.contains_moved (Path.rebase?_child hm.source_ne hm.target_ne holdOther)] at hc
      rw [hnodes.isGroup_moved holdOther, hlinks.moved holdOther]
      exact ⟨(h.linked_child hother hc).1, h.mem_children_iff.2 ⟨hother, hc⟩⟩
  · -- Nothing hangs where the subtree was.
    rw [hnodes.contains_left hsource] at hc
    cases hc
  · -- What is outside hangs where it did, unless it is the subtree itself.
    have hup := Path.isWithin_child other otherName
    have hsourceUp := Path.isWithin_eq_false_of_isWithin hup hsource
    have htargetUp := Path.isWithin_eq_false_of_isWithin hup houtside
    have hne : Path.child other otherName ≠ source := by
      intro heq
      simp [heq] at hsource
    rw [hnodes.contains_kept hsource houtside] at hc
    rw [hnodes.isGroup_kept hsourceUp htargetUp, hlinks.mem hsourceUp htargetUp]
    exact ⟨(h.linked_child hother hc).1, Or.inl ⟨h.mem_children_iff.2 ⟨hother, hc⟩, hne⟩⟩

/-- A relocation within one group keeps a store well-formed. -/
theorem WellFormed.of_relocates (hgroup : store.isGroup parent = true)
    (hparent : Path.isWithin parent source = false) (hname : Path.ValidName name)
    (htarget : target = Path.child parent name) : after.WellFormed := by
  have hvalid : Path.Valid target := by
    rw [htarget]
    exact (h.valid (contains_of_isGroup hgroup)).child hname
  refine WellFormed.of_children ?root ?valid ?linked ?nodup ?listed hlinks.nonempty
  case root =>
    rw [hnodes.isGroup_kept (Path.isWithin_empty_eq_false hm.source_ne)
      (Path.isWithin_empty_eq_false hm.target_ne)]
    exact h.root
  case valid =>
    intro path hc
    exact valid_of_relocates h hm hnodes hvalid hc
  case linked =>
    intro other otherName hother hc
    exact linked_of_relocates h hm hnodes hlinks hgroup hparent hname htarget hother hc
  case nodup =>
    exact nodup_of_relocates h hm hlinks
  case listed =>
    intro other otherName hmem
    exact listed_of_relocates h hm hnodes hlinks hmem

end Moved

/-! ## Renaming -/

/-- Replacing a name takes it out and puts the other one in. -/
theorem mem_replaceFirst {old new : String} {names : List String} (h : names.Nodup) :
    name ∈ replaceFirst old new names ↔
      (name ∈ names ∧ name ≠ old) ∨ (old ∈ names ∧ name = new) := by
  induction names with
  | nil =>
      simp [replaceFirst]
  | cons first rest ih =>
      rcases List.nodup_cons.1 h with ⟨hfirst, hrest⟩
      by_cases heq : first = old
      · -- The first name is replaced, and it does not come again.
        subst heq
        have hne : name ∈ rest → name ≠ first := by
          rintro hmem rfl
          exact hfirst hmem
        simp only [replaceFirst, if_true, List.mem_cons, true_or, true_and]
        constructor
        · rintro (hnew | hmem)
          · exact Or.inr hnew
          · exact Or.inl ⟨Or.inr hmem, hne hmem⟩
        · rintro (⟨hself | hmem, hne⟩ | hnew)
          · exact absurd hself hne
          · exact Or.inr hmem
          · exact Or.inl hnew
      · -- The first name stays.
        simp only [replaceFirst, heq, if_false, List.mem_cons, ih hrest, Ne.symm heq, false_or]
        constructor
        · rintro (rfl | ⟨hmem, hne⟩ | hnew)
          · exact Or.inl ⟨Or.inl rfl, heq⟩
          · exact Or.inl ⟨Or.inr hmem, hne⟩
          · exact Or.inr hnew
        · rintro (⟨hself | hmem, hne⟩ | hnew)
          · exact Or.inl hself
          · exact Or.inr (Or.inl ⟨hmem, hne⟩)
          · exact Or.inr (Or.inr hnew)

theorem replaceFirst_self (name : String) (names : List String) :
    replaceFirst name name names = names := by
  induction names with
  | nil =>
      rfl
  | cons first rest ih =>
      by_cases heq : first = name
      · simp [replaceFirst, heq]
      · simp [replaceFirst, heq, ih]

/-- Replacing a name by one that is not there keeps names distinct. -/
theorem nodup_replaceFirst {old new : String} {names : List String} (h : names.Nodup)
    (hnew : new ∉ names) : (replaceFirst old new names).Nodup := by
  induction names with
  | nil =>
      simp [replaceFirst]
  | cons first rest ih =>
      rcases List.nodup_cons.1 h with ⟨hfirst, hrest⟩
      rcases not_or.1 (mt List.mem_cons.2 hnew) with ⟨hne, hnotMem⟩
      by_cases heq : first = old
      · simpa [replaceFirst, heq] using ⟨hnotMem, hrest⟩
      · have hnot : first ∉ replaceFirst old new rest := by
          intro hmem
          rcases (mem_replaceFirst hrest).1 hmem with ⟨hold, -⟩ | ⟨-, hsame⟩
          · exact hfirst hold
          · exact hne hsame.symm
        simpa [replaceFirst, heq] using ⟨hnot, ih hrest hnotMem⟩

/-- Relinking replaces a name among those of its parent. -/
theorem getElem?_names_relink {old new : String} (other : String) :
    (store.relink parent old new).names[other]? =
      if other = parent then store.names[parent]?.map (replaceFirst old new)
      else store.names[other]? := by
  unfold relink
  cases hnames : store.names[parent]? with
  | none =>
      by_cases hother : other = parent
      · simp [hother, hnames]
      · simp [hother]
  | some names =>
      by_cases hother : other = parent
      · simp [hother]
      · have hne : parent ≠ other := Ne.symm hother
        simp [hother, Std.ExtTreeMap.getElem?_insert, hne]

theorem get?_relink {old new : String} (other : String) :
    (store.relink parent old new).get? other = store.get? other := by
  unfold relink
  split
  · rfl
  · rfl

/-- Relinking replaces the child of one group alone. -/
theorem children_relink {old new : String} (other : String) :
    (store.relink parent old new).children other =
      if other = parent then replaceFirst old new (store.children parent)
      else store.children other := by
  unfold children
  rw [getElem?_names_relink]
  by_cases hother : other = parent
  · cases hnames : store.names[parent]? with
    | none =>
        simp [hother, replaceFirst]
    | some names =>
        simp [hother]
  · simp [hother]

theorem replaceFirst_ne_nil {old new : String} {names : List String} (h : names ≠ []) :
    replaceFirst old new names ≠ [] := by
  cases names with
  | nil =>
      exact absurd rfl h
  | cons first rest =>
      unfold replaceFirst
      split
      · exact List.cons_ne_nil _ _
      · exact List.cons_ne_nil _ _

namespace WellFormed

variable (h : store.WellFormed) (hm : store.Movable source target)

include h hm

theorem not_mem_children_target (htarget : target = Path.child parent name) :
    name ∉ store.children parent := by
  intro hmem
  have hfree := hm.free
  rw [htarget, (h.listed hmem).2] at hfree
  cases hfree

/-- The name of the new path takes the place of the old name in the one list that had it. -/
theorem relinked_relink {last : String} (hlast : Path.ValidName last) (hname : Path.ValidName name)
    (hsource : source = Path.child parent last) (htarget : target = Path.child parent name) :
    Relinked store ((store.rekey source target).relink parent last name) source target := by
  have hparentSource := Path.isWithin_parent_eq_false hlast hsource
  have hparentTarget := Path.isWithin_parent_eq_false hname htarget
  have hnotMem := h.not_mem_children_target hm htarget
  have hmem : last ∈ store.children parent :=
    h.mem_children_iff.2 ⟨hlast, hsource ▸ hm.present⟩
  have hkept := h.children_rekey_of_outside hm hparentSource hparentTarget
  -- Only the list of `parent` differs from what moving the keys has left.
  constructor
  case moved =>
    intro old new hmoved
    have hwithin := Path.isWithin_rebase? hm.source_ne hm.target_ne hmoved
    have hnew := Path.ne_of_isWithin hwithin hparentTarget
    rw [children_relink, if_neg hnew, h.children_rekey hm hmoved]
  case left =>
    intro other hin
    have hne := Path.ne_of_isWithin hin hparentSource
    rw [children_relink, if_neg hne, h.children_rekey_source hm hin]
  case nodup =>
    intro other hin hout
    rw [children_relink, hkept]
    split
    · exact nodup_replaceFirst (h.nodup_children parent) hnotMem
    · rw [h.children_rekey_of_outside hm hin hout]
      exact h.nodup_children other
  case mem =>
    intro other otherName hin hout
    rw [children_relink, hkept]
    by_cases hother : other = parent
    · subst hother
      rw [if_pos rfl, mem_replaceFirst (h.nodup_children other)]
      constructor
      · rintro (⟨hold, hneLast⟩ | ⟨-, rfl⟩)
        · -- Of the names in this list only the replaced one leads to the source.
          refine Or.inl ⟨hold, fun heq => hneLast ?_⟩
          exact ((Path.child_inj (h.listed hold).1 hlast).1 (heq.trans hsource)).2
        · exact Or.inr ⟨hname, htarget.symm⟩
      · rintro (⟨hold, hneSource⟩ | ⟨hotherName, heq⟩)
        · refine Or.inl ⟨hold, ?_⟩
          rintro rfl
          exact hneSource hsource.symm
        · exact Or.inr ⟨hmem, ((Path.child_inj hotherName hname).1 (heq.trans htarget)).2⟩
    · rw [if_neg hother, h.children_rekey_of_outside hm hin hout]
      constructor
      · intro hold
        refine Or.inl ⟨hold, fun heq => hother ?_⟩
        exact ((Path.child_inj (h.listed hold).1 hlast).1 (heq.trans hsource)).1
      · rintro (⟨hold, -⟩ | ⟨hotherName, heq⟩)
        · exact hold
        · exact absurd ((Path.child_inj hotherName hname).1 (heq.trans htarget)).1 hother
  case nonempty =>
    intro other hnil
    rw [getElem?_names_relink] at hnil
    split at hnil
    · rcases Option.map_eq_some_iff.1 hnil with ⟨names, hnames, hempty⟩
      refine replaceFirst_ne_nil ?_ hempty
      rintro rfl
      exact h.names_rekey_ne_nil hm parent hnames
    · exact h.names_rekey_ne_nil hm other hnil

/-- The old parent of a moved subtree stays where it is. -/
theorem isWithin_oldParent_eq_false {oldParent : String} (hname : Path.ValidName name)
    (hsource : source = Path.child oldParent name) :
    Path.isWithin oldParent source = false ∧ Path.isWithin oldParent target = false := by
  have hgroup := (h.linked_child hname (hsource ▸ hm.present)).1
  exact ⟨Path.isWithin_parent_eq_false hname hsource,
    h.not_isWithin_target hm (contains_of_isGroup hgroup)⟩

/-- Two lists differ after a move: the new parent has the name at its end, and the old one does not
have it any more. -/
theorem children_link_unlink {oldParent : String} (hname : Path.ValidName name)
    (hne : oldParent ≠ parent) (hparentSource : Path.isWithin parent source = false)
    (hsource : source = Path.child oldParent name) (htarget : target = Path.child parent name)
    (other : String) :
    (((store.rekey source target).unlink oldParent name).link parent name).children other =
      if other = parent then store.children parent ++ [name]
      else if other = oldParent then store.siblings oldParent name
      else (store.rekey source target).children other := by
  have hparentTarget := Path.isWithin_parent_eq_false hname htarget
  rcases h.isWithin_oldParent_eq_false hm hname hsource with ⟨holdSource, holdTarget⟩
  have hkept := h.children_rekey_of_outside hm hparentSource hparentTarget
  have hkeptOld := h.children_rekey_of_outside hm holdSource holdTarget
  rw [children_link, children_unlink, children_unlink, if_neg (Ne.symm hne), hkept, siblings,
    siblings, hkeptOld]

/-- The name leaves the list of the old parent and is added at the end of that of the new one. -/
theorem relinked_link {oldParent : String} (hname : Path.ValidName name) (hne : oldParent ≠ parent)
    (hparentSource : Path.isWithin parent source = false)
    (hsource : source = Path.child oldParent name) (htarget : target = Path.child parent name) :
    Relinked store (((store.rekey source target).unlink oldParent name).link parent name)
      source target := by
  have hparentTarget := Path.isWithin_parent_eq_false hname htarget
  rcases h.isWithin_oldParent_eq_false hm hname hsource with ⟨holdSource, holdTarget⟩
  have hnotMem := h.not_mem_children_target hm htarget
  have hchildren := h.children_link_unlink hm hname hne hparentSource hsource htarget
  constructor
  case moved =>
    intro old new hmoved
    have hnew := Path.isWithin_rebase? hm.source_ne hm.target_ne hmoved
    have hneParent := Path.ne_of_isWithin hnew hparentTarget
    have hneOld := Path.ne_of_isWithin hnew holdTarget
    rw [hchildren, if_neg hneParent, if_neg hneOld, h.children_rekey hm hmoved]
  case left =>
    intro other hin
    have hneParent := Path.ne_of_isWithin hin hparentSource
    have hneOld := Path.ne_of_isWithin hin holdSource
    rw [hchildren, if_neg hneParent, if_neg hneOld, h.children_rekey_source hm hin]
  case nodup =>
    intro other hin hout
    rw [hchildren]
    split
    · exact Sequence.nodup_append_singleton (h.nodup_children parent) hnotMem
    · split
      · exact (h.nodup_children oldParent).filter _
      · rw [h.children_rekey_of_outside hm hin hout]
        exact h.nodup_children other
  case mem =>
    intro other otherName hin hout
    rw [hchildren]
    by_cases hother : other = parent
    · subst hother
      rw [if_pos rfl, List.mem_append, List.mem_singleton]
      constructor
      · rintro (hold | rfl)
        · -- The source is listed in the other group, so none of these names leads to it.
          refine Or.inl ⟨hold, fun heq => hne ?_⟩
          exact ((Path.child_inj (h.listed hold).1 hname).1 (heq.trans hsource)).1.symm
        · exact Or.inr ⟨hname, htarget.symm⟩
      · rintro (⟨hold, -⟩ | ⟨hotherName, heq⟩)
        · exact Or.inl hold
        · exact Or.inr ((Path.child_inj hotherName hname).1 (heq.trans htarget)).2
    · have hnotTarget : ¬ (Path.ValidName otherName ∧ Path.child other otherName = target) :=
        fun ⟨hotherName, heq⟩ =>
          hother ((Path.child_inj hotherName hname).1 (heq.trans htarget)).1
      rw [if_neg hother, or_iff_left hnotTarget]
      by_cases hold : other = oldParent
      · subst hold
        rw [if_pos rfl, mem_siblings]
        refine and_congr_right fun hlisted => not_congr ?_
        rw [hsource, Path.child_inj (h.listed hlisted).1 hname]
        simp
      · rw [if_neg hold, h.children_rekey_of_outside hm hin hout]
        refine ⟨fun hlisted => ⟨hlisted, fun heq => hold ?_⟩, And.left⟩
        exact ((Path.child_inj (h.listed hlisted).1 hname).1 (heq.trans hsource)).1
  case nonempty =>
    -- A name is added to one list, and an emptied list is dropped.
    intro other hnil
    rw [getElem?_names_link] at hnil
    split at hnil
    · simp at hnil
    · exact names_unlink_ne_nil (h.names_rekey_ne_nil hm) other hnil

end WellFormed

/-! ## Accepted moves -/

/-- What a subtree that gets new paths leaves behind: either nothing has moved, or the nodes within
`source` are found within `target` and the store is well formed again. -/
def Relocated (store after : Store) (source target : String) : Prop :=
  (target = source ∧ after = store) ∨
    (store.Movable source target ∧ Relocates store.get? after.get? source target ∧ after.WellFormed)

/-- A subtree can be carried to a free child of any group outside of it. -/
theorem Movable.of_child {oldParent last : String} (hlast : Path.ValidName last)
    (hsource : source = Path.child oldParent last) (hname : Path.ValidName name)
    (htarget : target = Path.child parent name) (hc : store.contains source = true)
    (hfree : store.contains target = false) (hparent : Path.isWithin parent source = false) :
    store.Movable source target := by
  have hne : Path.child parent name ≠ source := by
    intro heq
    rw [htarget, heq, hc] at hfree
    cases hfree
  refine ⟨hsource ▸ Path.child_ne_empty hlast, htarget ▸ Path.child_ne_empty hname, hc, hfree, ?_⟩
  rw [htarget]
  exact Path.isWithin_child_eq_false hname hparent hne

/-- Both edits only differ in how the names are linked again. -/
theorem WellFormed.relocated {oldParent last : String} (h : store.WellFormed)
    (hlast : Path.ValidName last) (hsource : source = Path.child oldParent last)
    (hname : Path.ValidName name) (htarget : target = Path.child parent name)
    (hc : store.contains source = true) (hfree : store.contains target = false)
    (hgroup : store.isGroup parent = true) (hparent : Path.isWithin parent source = false)
    (hget : ∀ other, after.get? other = (store.rekey source target).get? other)
    (hlinks : store.Movable source target → Relinked store after source target) :
    Relocated store after source target := by
  have hm : store.Movable source target :=
    Movable.of_child hlast hsource hname htarget hc hfree hparent
  have hnodes : Relocates store.get? after.get? source target := by
    have hsame : after.get? = (store.rekey source target).get? := funext hget
    rw [hsame]
    exact h.relocates_nodes hm
  have hafter := WellFormed.of_relocates h hm hnodes (hlinks hm) hgroup hparent hname htarget
  exact Or.inr ⟨hm, hnodes, hafter⟩

/-- An accepted rename has relocated the subtree. -/
theorem WellFormed.rename {newPath : String} (h : store.WellFormed)
    (hrun : (rename path name).run store = .ok newPath after) :
    Relocated store after path newPath := by
  rcases run_rename_eq_ok.1 hrun with ⟨parent, hparent, hname, hc, hcase⟩
  -- A renaming to the same name is accepted and does nothing.
  rcases hcase with ⟨-, hsame, hafter⟩ | ⟨-, htarget, hfree, hafter⟩
  · exact Or.inl ⟨hsame, hafter⟩
  · rcases h.eq_child hc hparent with ⟨hlast, hpath⟩
    -- `path` is written as a child below, and its last name must not change with it.
    generalize Path.last path = last at hafter hlast hpath
    have hgroup : store.isGroup parent = true := (h.linked_child hlast (hpath ▸ hc)).1
    have hout := Path.isWithin_parent_eq_false hlast hpath
    refine h.relocated hlast hpath hname htarget hc hfree hgroup hout ?_ ?_
    · intro other
      rw [hafter, get?_relink]
    · intro hm
      exact hafter ▸ h.relinked_relink hm hlast hname hpath htarget

/-- An accepted move has relocated the subtree. -/
theorem WellFormed.move {newPath : String} (h : store.WellFormed)
    (hrun : (move path parent).run store = .ok newPath after) :
    Relocated store after path newPath := by
  rcases run_move_eq_ok.1 hrun with ⟨oldParent, hparent, hc, hgroup, hout, hcase⟩
  rcases hcase with ⟨-, hsame, hafter⟩ | ⟨hne, htarget, hfree, hafter⟩
  · exact Or.inl ⟨hsame, hafter⟩
  · rcases h.eq_child hc hparent with ⟨hname, hpath⟩
    generalize Path.last path = name at hafter hname hpath htarget
    refine h.relocated hname hpath hname htarget hc hfree hgroup hout ?_ ?_
    · intro other
      rw [hafter, get?_link, get?_unlink]
    · intro hm
      exact hafter ▸ h.relinked_link hm hname hne hout hpath htarget

/-- A relocation leaves a well-formed store. -/
theorem WellFormed.of_relocated (h : store.WellFormed)
    (hmoved : Relocated store after source target) : after.WellFormed := by
  rcases hmoved with ⟨-, rfl⟩ | ⟨-, -, hafter⟩
  · exact h
  · exact hafter

end Store
end DesignTokens
