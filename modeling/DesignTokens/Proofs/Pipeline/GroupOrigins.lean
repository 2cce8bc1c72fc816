import DesignTokens.Proofs.Pipeline.Provenance
import Mathlib.Order.Nat

/-!
# Which layer a group comes from

A group of a merged tree comes from the first layer after which it has been there all the time. The
record keeps the first layer with a group at the path after the last one with a token there. The two
differ when a later layer takes the group away by a token above it: the tree loses everything below
that token, the record only what stands at its path. What is left on record is dropped at the end
unless the group has come back by then, and then it names a layer whose group has been gone.
-/

namespace DesignTokens

namespace Tree

variable {trees : List Tree} {tree : Tree} {names : List String} {i k : Nat}

/-- A group has been at the end of the path from the merge of the tree at this position on. -/
def GroupFrom (trees : List Tree) (names : List String) (k : Nat) : Prop :=
  k < trees.length ∧ ∀ n, k < n → n ≤ trees.length →
    ((trees.take n).foldl merge empty).GroupAt names

/-- The tree at this position has a group at the end of the path, and no later one a token there. -/
abbrev RecordedFrom (trees : List Tree) (names : List String) (i : Nat) : Prop :=
  Sequence.HoldsFrom (GroupAt · names) (fun tree => ¬ tree.TokenAt names) trees i

/-- The tree at this position has a group at the end of the path, and no later one covers it. -/
abbrev SettledFrom (trees : List Tree) (names : List String) (i : Nat) : Prop :=
  Sequence.HoldsFrom (GroupAt · names) (fun tree => ¬ tree.Covers names) trees i

instance (tree : Tree) (names : List String) : Decidable (tree.GroupAt names) :=
  match h : tree.at? names with
  | some (.group attributes children) => isTrue ⟨attributes, children, h⟩
  | some (.token _) => isFalse fun ⟨_, _, hgroup⟩ => by cases h.symm.trans hgroup
  | none => isFalse fun ⟨_, _, hgroup⟩ => by cases h.symm.trans hgroup

theorem not_covers_of_groupAt (h : tree.GroupAt names) : ¬ tree.Covers names := by
  rcases h with ⟨attributes, children, hgroup⟩
  rintro (⟨t, htoken⟩ | habove)
  · cases hgroup.symm.trans htoken
  · cases hgroup.symm.trans (Node.follow_eq_none_of_tokenAbove habove)

/-- A group has been there since a tree when it is there in the end, and that tree is the last one
or the group had been there since. -/
theorem groupFrom_append_singleton_iff :
    GroupFrom (trees ++ [tree]) names k ↔
      ((trees ++ [tree]).foldl merge empty).GroupAt names ∧
        (GroupFrom trees names k ∨ k = trees.length) := by
  -- The last tree is beyond every shorter beginning of the list.
  have htake : ∀ {n}, n ≤ trees.length → (trees ++ [tree]).take n = trees.take n := fun hn =>
    List.take_append_of_le_length hn
  have hall : (trees ++ [tree]).take (trees.length + 1) = trees ++ [tree] :=
    List.take_of_length_le (by simp)
  constructor
  · rintro ⟨hk, hgroup⟩
    rw [List.length_append, List.length_singleton] at hk hgroup
    refine ⟨hall ▸ hgroup _ hk (Nat.le_refl _), ?_⟩
    rcases Nat.lt_succ_iff_lt_or_eq.1 hk with hbefore | rfl
    · exact Or.inl ⟨hbefore, fun n hn hle => htake hle ▸ hgroup n hn (Nat.le_succ_of_le hle)⟩
    · exact Or.inr rfl
  · rintro ⟨hlast, hcase⟩
    have hk : k ≤ trees.length := by
      rcases hcase with hbefore | rfl
      · exact hbefore.1.le
      · exact Nat.le_refl _
    refine ⟨by simpa using Nat.lt_succ_of_le hk, ?_⟩
    intro n hn hle
    rw [List.length_append, List.length_singleton] at hle
    rcases Nat.le_succ_iff.1 hle with hold | rfl
    · rcases hcase with hbefore | rfl
      · rw [htake hold]
        exact hbefore.2 n hn hold
      · omega
    · rw [hall]
      exact hlast

/-- A group has been there from a position on when it has settled there or before. -/
theorem groupFrom_iff (h : ∀ tree ∈ trees, tree.EachGroup List.Nodup) (hne : names ≠ []) :
    GroupFrom trees names k ↔ k < trees.length ∧ ∃ i ≤ k, SettledFrom trees names i := by
  induction trees using List.reverseRecOn generalizing k with
  | nil =>
      simp [GroupFrom]
  | append_singleton trees tree ih =>
      have hbefore := @ih k fun other hmem => h other (List.mem_append_left _ hmem)
      have hmerged : ((trees ++ [tree]).foldl merge empty).GroupAt names ↔
          ∃ i, SettledFrom (trees ++ [tree]) names i := by
        rw [(isMergeOf_foldl h).group_iff names hne, Sequence.lastWith_iff_exists]
      rw [groupFrom_append_singleton_iff, hmerged]
      constructor
      · rintro ⟨⟨i, hi⟩, hcase⟩
        rcases hcase with hold | rfl
        · rcases hbefore.1 hold with ⟨hk, first, hfirst, hsettled⟩
          -- The last tree does not cover the path, so the group is still there.
          have hspared : ¬ tree.Covers names := by
            rcases Sequence.holdsFrom_append_singleton_iff.1 hi with ⟨-, hspared⟩ | ⟨-, hgroup⟩
            · exact hspared
            · exact not_covers_of_groupAt hgroup
          refine ⟨by simpa using Nat.lt_succ_of_lt hk, first, hfirst, ?_⟩
          exact Sequence.holdsFrom_append_singleton_iff.2 (Or.inl ⟨hsettled, hspared⟩)
        · have hlast := hi.lt_length
          rw [List.length_append, List.length_singleton] at hlast
          exact ⟨by simp, i, Nat.le_of_lt_succ hlast, hi⟩
      · rintro ⟨hk, i, hi, hsettled⟩
        rw [List.length_append, List.length_singleton] at hk
        refine ⟨⟨i, hsettled⟩, ?_⟩
        rcases Nat.lt_succ_iff_lt_or_eq.1 hk with hold | rfl
        · rcases Sequence.holdsFrom_append_singleton_iff.1 hsettled with ⟨hthere, -⟩ | ⟨rfl, -⟩
          · exact Or.inl (hbefore.2 ⟨hold, i, hi, hthere⟩)
          · omega
        · exact Or.inr rfl

theorem SettledFrom.recordedFrom (h : SettledFrom trees names i) : RecordedFrom trees names i := by
  rcases h with ⟨tree, htree, hgroup, hafter⟩
  exact ⟨tree, htree, hgroup, fun j later hj hlater htoken =>
    hafter j later hj hlater (Or.inl htoken)⟩

/-- A group on record has settled unless a later tree has a token above it. -/
theorem RecordedFrom.settledFrom_iff (h : RecordedFrom trees names i) :
    SettledFrom trees names i ↔
      ∀ j later, i < j → trees[j]? = some later → ¬ later.TokenAbove names := by
  rcases h with ⟨tree, htree, hgroup, hafter⟩
  constructor
  · rintro ⟨-, -, -, hspared⟩ j later hj hlater habove
    exact hspared j later hj hlater (Or.inr habove)
  · intro hopen
    refine ⟨tree, htree, hgroup, fun j later hj hlater => ?_⟩
    rintro (htoken | habove)
    · exact hafter j later hj hlater htoken
    · exact hopen j later hj hlater habove

/-- The first group on record is never a later one than the first group that has settled. -/
theorem isLeast_recordedFrom_eq_iff {j : Nat} (hj : IsLeast {i | RecordedFrom trees names i} j)
    (hk : IsLeast {i | SettledFrom trees names i} k) :
    j ≤ k ∧ (j = k ↔ ∀ i tree, j < i → trees[i]? = some tree → ¬ tree.TokenAbove names) := by
  have hle : j ≤ k := hj.2 (SettledFrom.recordedFrom hk.1)
  refine ⟨hle, ?_⟩
  rw [← RecordedFrom.settledFrom_iff hj.1]
  constructor
  · rintro rfl
    exact hk.1
  · intro hsettled
    exact Nat.le_antisymm hle (hk.2 hsettled)

/-- The first position from which a group has been there is that of the first one that settled. -/
theorem isLeast_groupFrom_iff (h : ∀ tree ∈ trees, tree.EachGroup List.Nodup) (hne : names ≠ []) :
    IsLeast {k | GroupFrom trees names k} k ↔ IsLeast {i | SettledFrom trees names i} k := by
  constructor
  · rintro ⟨hk, hleast⟩
    rcases (groupFrom_iff h hne).1 hk with ⟨-, i, hi, hsettled⟩
    have hki : k ≤ i :=
      hleast ((groupFrom_iff h hne).2 ⟨hsettled.lt_length, i, Nat.le_refl i, hsettled⟩)
    have hsame : i = k := Nat.le_antisymm hi hki
    subst hsame
    refine ⟨hsettled, fun j hj => hleast ?_⟩
    exact (groupFrom_iff h hne).2 ⟨hj.lt_length, j, Nat.le_refl j, hj⟩
  · rintro ⟨hk, hleast⟩
    refine ⟨(groupFrom_iff h hne).2 ⟨hk.lt_length, k, Nat.le_refl k, hk⟩, fun j hj => ?_⟩
    rcases (groupFrom_iff h hne).1 hj with ⟨-, i, hi, hsettled⟩
    exact (hleast hsettled).trans hi

/-! ### One more tree -/

/-- No layer is recorded for what is a token in the last tree. -/
theorem not_recordedFrom_append_of_tokenAt (h : tree.TokenAt names) (i : Nat) :
    ¬ RecordedFrom (trees ++ [tree]) names i := by
  intro hi
  rcases Sequence.holdsFrom_append_singleton_iff.1 hi with ⟨-, hspared⟩ | ⟨-, hgroup⟩
  · exact hspared h
  · exact not_covers_of_groupAt hgroup (Or.inl h)

/-- The first group that is left stays the first one. -/
theorem isLeast_recordedFrom_append (h : IsLeast {i | RecordedFrom trees names i} k)
    (hspared : ¬ tree.TokenAt names) : IsLeast {i | RecordedFrom (trees ++ [tree]) names i} k := by
  refine ⟨Sequence.holdsFrom_append_singleton_iff.2 (Or.inl ⟨h.1, hspared⟩), fun i hi => ?_⟩
  rcases Sequence.holdsFrom_append_singleton_iff.1 hi with ⟨hold, -⟩ | ⟨rfl, -⟩
  · exact h.2 hold
  · exact h.1.lt_length.le

/-- A group that had no record before is recorded for the layer that brings it. -/
theorem isLeast_recordedFrom_append_length (h : ∀ i, ¬ RecordedFrom trees names i)
    (hgroup : tree.GroupAt names) :
    IsLeast {i | RecordedFrom (trees ++ [tree]) names i} trees.length := by
  refine ⟨Sequence.holdsFrom_append_singleton_iff.2 (Or.inr ⟨rfl, hgroup⟩), fun i hi => ?_⟩
  rcases Sequence.holdsFrom_append_singleton_iff.1 hi with ⟨hold, -⟩ | ⟨rfl, -⟩
  · exact absurd hold (h i)
  · exact Nat.le_refl _

end Tree

namespace Provenance

def ofGroup (layer : Layer) (active : LayerId) : Provenance :=
  ⟨layer.id, layer.name, layer.id ≠ active, .group⟩

end Provenance

namespace Origins

variable {pages : List (Layer × Page)} {path : String}

/-- The record of a group names the first layer that is left with a group at its path when only
tokens at the path itself take groups away. -/
theorem getElem?_ofSelection_group (active : LayerId) (h : ∀ choice ∈ pages,
      choice.2.tokens.toTree.EachGroup Node.ProperNames) (hpath : path ≠ "") :
    (∃ j choice, IsLeast {i | Tree.RecordedFrom
          (pages.map fun (_, page) => page.tokens.toTree) (Path.segments path) i} j ∧
        pages[j]? = some choice ∧
        (ofSelection active pages)[path]? = some (.ofGroup choice.1 active)) ∨
      (∀ i, ¬ Tree.RecordedFrom
          (pages.map fun (_, page) => page.tokens.toTree) (Path.segments path) i) ∧
        ((ofSelection active pages)[path]?).any (·.kind = .group) = false := by
  induction pages using List.reverseRecOn with
  | nil =>
      refine Or.inr ⟨fun i hi => ?_, by simp [ofSelection]⟩
      exact absurd hi.lt_length (Nat.not_lt_zero i)
  | append_singleton pages choice ih =>
      have hbefore := ih fun other hmem => h other (List.mem_append_left _ hmem)
      have hsegments : Path.segments path ≠ [] := mt Path.segments_eq_nil_iff.1 hpath
      have hrecord : (ofSelection active (pages ++ [choice]))[path]? =
          Provenance.after choice.1 active (ofSelection active pages)[path]?
            (choice.2.tokens.toTree.at? (Path.segments path)) := by
        rw [← Tree.lookup_eq_at? _ hsegments, ← getElem?_recordTree _ (h choice (by simp))]
        simp [ofSelection]
      rw [hrecord, List.map_append, List.map_singleton]
      cases hnode : choice.2.tokens.toTree.at? (Path.segments path) with
      | none =>
          -- Neither the record nor the groups that are left change.
          have hspared : ¬ choice.2.tokens.toTree.TokenAt (Path.segments path) := by
            rintro ⟨t, htoken⟩
            cases hnode.symm.trans htoken
          rcases hbefore with ⟨j, first, hleast, hfirst, hknown⟩ | ⟨hnone, hknown⟩
          · refine Or.inl ⟨j, first, Tree.isLeast_recordedFrom_append hleast hspared, ?_, hknown⟩
            rw [List.getElem?_append_left (List.getElem?_eq_some_iff.1 hfirst).1]
            exact hfirst
          · refine Or.inr ⟨fun i hi => ?_, hknown⟩
            rcases Sequence.holdsFrom_append_singleton_iff.1 hi with ⟨hold, -⟩ | ⟨-, hgroup⟩
            · exact hnone i hold
            · rcases hgroup with ⟨attributes, children, hgroup⟩
              cases hnode.symm.trans hgroup
      | some node =>
          cases node with
          | token t =>
              have htoken : choice.2.tokens.toTree.TokenAt (Path.segments path) := ⟨t, hnode⟩
              refine Or.inr ⟨Tree.not_recordedFrom_append_of_tokenAt htoken, ?_⟩
              simp [Provenance.after]
          | group attributes children =>
              have hgroup : choice.2.tokens.toTree.GroupAt (Path.segments path) :=
                ⟨attributes, children, hnode⟩
              have hspared : ¬ choice.2.tokens.toTree.TokenAt (Path.segments path) := fun htoken =>
                Tree.not_covers_of_groupAt hgroup (Or.inl htoken)
              rcases hbefore with ⟨j, first, hleast, hfirst, hknown⟩ | ⟨hnone, hknown⟩
              · refine Or.inl ⟨j, first, Tree.isLeast_recordedFrom_append hleast hspared, ?_, ?_⟩
                · rw [List.getElem?_append_left (List.getElem?_eq_some_iff.1 hfirst).1]
                  exact hfirst
                · simp [Provenance.after, hknown, Provenance.ofGroup]
              · refine Or.inl ⟨pages.length, choice, ?_, by simp, ?_⟩
                · have hlast := Tree.isLeast_recordedFrom_append_length hnone hgroup
                  simpa using hlast
                · simp [Provenance.after, hknown, Provenance.ofGroup]

end Origins

namespace Pipeline

variable {p : Pipeline} {active : LayerId} {config : BuildConfig} {view : EffectiveTokens}

/-- The trees that a view merges have proper names when those of the pages do. -/
theorem properNames_of_selectUpTo
    (hnames : ∀ page ∈ p.pages, page.tokens.toTree.EachGroup Node.ValidNames)
    {choice : Layer × Page} (hchoice : choice ∈ (p.selectUpTo config active).pages) :
    choice.2.tokens.toTree.EachGroup Node.ProperNames := by
  have hvalid := hnames choice.2 (mem_pages_of_selectUpTo hchoice)
  have hdistinct := choice.2.tokens.eachGroup_toTree
  exact ⟨⟨hdistinct.1, hvalid.1⟩, hdistinct.2.and hvalid.2⟩

/-- The record of a group in a view names the first layer with a group at its path that no later
layer replaces by a token at the path itself. This is the first layer from which the group has been
there in every merge, or one before it; it is an earlier one exactly if some later layer takes that
group away by a token above it. -/
theorem ofGroup_effective
    (hnames : ∀ page ∈ p.pages, page.tokens.toTree.EachGroup Node.ValidNames)
    (hview : p.effective active config = .ok view) {path : String} (hpath : path ≠ "")
    (hgroup : view.tree.GroupAt (Path.segments path)) :
    ∃ j k choice,
      IsLeast {i | Tree.RecordedFrom (p.selectUpTo config active).trees (Path.segments path) i} j ∧
      IsLeast {i | Tree.GroupFrom (p.selectUpTo config active).trees (Path.segments path) i} k ∧
      j ≤ k ∧
      (j = k ↔ ∀ i tree, j < i → (p.selectUpTo config active).trees[i]? = some tree →
        ¬ tree.TokenAbove (Path.segments path)) ∧
      (p.selectUpTo config active).pages[j]? = some choice ∧
      view.provenance? path = some (.ofGroup choice.1 active) := by
  have hsegments : Path.segments path ≠ [] := mt Path.segments_eq_nil_iff.1 hpath
  have hdistinct : ∀ tree ∈ (p.selectUpTo config active).trees, tree.EachGroup List.Nodup := by
    intro tree hmem
    rcases List.mem_map.1 hmem with ⟨choice, -, rfl⟩
    exact choice.2.tokens.eachGroup_toTree
  classical
  unfold effective at hview
  split at hview
  · cases hview
  · cases hview
    -- The group of the view has settled somewhere, and so it is on record.
    have hsettled := (Tree.isMergeOf_foldl hdistinct).group_iff _ hsegments
    rcases Sequence.lastWith_iff_exists.1 (hsettled.1 hgroup) with ⟨i, hi⟩
    have hfirst := Nat.isLeast_find ⟨i, hi⟩
    have hproper : ∀ choice ∈ (p.selectUpTo config active).pages,
        choice.2.tokens.toTree.EachGroup Node.ProperNames := fun choice hchoice =>
      properNames_of_selectUpTo hnames hchoice
    rcases Origins.getElem?_ofSelection_group active hproper hpath with
      ⟨j, choice, hleast, hchoice, hrecord⟩ | ⟨hnone, -⟩
    · rcases Tree.isLeast_recordedFrom_eq_iff hleast hfirst with ⟨hle, hsame⟩
      refine ⟨j, _, choice, hleast, (Tree.isLeast_groupFrom_iff hdistinct hsegments).2 hfirst, hle,
        hsame, hchoice, ?_⟩
      rcases hgroup with ⟨attributes, children, hnode⟩
      refine Origins.getElem?_within_eq_some_iff.2 ⟨hrecord, .group attributes children, ?_, rfl⟩
      rw [Tree.lookup_eq_at? _ hsegments]
      exact hnode
    · exact absurd (Tree.SettledFrom.recordedFrom hi) (hnone i)

/-- Three layers of one page each: the middle one has a token where the others have groups. -/
def restoredGroup : Pipeline where
  vars := []
  layers :=
    [⟨⟨"layer-base"⟩, "Base", 0, [], false⟩, ⟨⟨"layer-mid"⟩, "Mid", 1, [], false⟩,
      ⟨⟨"layer-top"⟩, "Top", 2, [], false⟩]
  pages :=
    [⟨⟨"page-base"⟩, ⟨"layer-base"⟩, "Base", .empty,
        .ofTree { children := [("a", .group {} [("b", .group {} [("x", .token {})])])] }⟩,
      ⟨⟨"page-mid"⟩, ⟨"layer-mid"⟩, "Mid", .empty, .ofTree { children := [("a", .token {})] }⟩,
      ⟨⟨"page-top"⟩, ⟨"layer-top"⟩, "Top", .empty,
        .ofTree { children := [("a", .group {} [("b", .group {} [("y", .token {})])])] }⟩]

theorem layersInOrder_restoredGroup : restoredGroup.layersInOrder = restoredGroup.layers :=
  List.mergeSort_of_pairwise (by decide +kernel)

theorem pages_restoredGroup : (restoredGroup.selectUpTo .empty ⟨"layer-top"⟩).pages =
    restoredGroup.layers.zip restoredGroup.pages := by
  rw [selectUpTo, layersInOrder_restoredGroup]
  decide +kernel

theorem groupFrom_restoredGroup :
    IsLeast {k | Tree.GroupFrom (restoredGroup.selectUpTo .empty ⟨"layer-top"⟩).trees ["a", "b"] k}
      2 := by
  rw [Selection.trees, pages_restoredGroup]
  refine ⟨⟨by decide, fun n hn hle => ?_⟩, fun k hk => ?_⟩
  · have hall : n = 3 := Nat.le_antisymm hle hn
    subst hall
    decide +kernel
  · by_contra hbefore
    -- After two layers the token stands above, and there is no group.
    have hgroup := hk.2 2 (Nat.lt_of_not_le hbefore) (by decide)
    revert hgroup
    decide +kernel

/-- No token can stand above the group `a`, whose record is right. -/
theorem ofGroup_effective_restoredGroup :
    ∃ view, restoredGroup.effective ⟨"layer-top"⟩ .empty = .ok view ∧
      view.tree.GroupAt (Path.segments "a") ∧
      ∃ k choice,
        IsLeast {i | Tree.GroupFrom (restoredGroup.selectUpTo .empty ⟨"layer-top"⟩).trees
          (Path.segments "a") i} k ∧
        (restoredGroup.selectUpTo .empty ⟨"layer-top"⟩).pages[k]? = some choice ∧
        view.provenance? "a" = some (.ofGroup choice.1 ⟨"layer-top"⟩) := by
  have hnames : ∀ page ∈ restoredGroup.pages, page.tokens.toTree.EachGroup Node.ValidNames := by
    decide +kernel
  have hgroup : (restoredGroup.selectUpTo .empty ⟨"layer-top"⟩).build.tree.GroupAt
      (Path.segments "a") := by
    rw [Selection.build, Selection.trees, pages_restoredGroup]
    decide +kernel
  have hopen : ∀ tree : Tree, ¬ tree.TokenAbove (Path.segments "a") := by
    intro tree habove
    rcases Node.tokenAbove_cons_iff.1 habove with ⟨t, htoken⟩ | hbelow
    · cases htoken
    · exact Node.not_tokenAbove_nil hbelow
  have hpath : "a" ≠ "" := by decide
  have hview : restoredGroup.effective ⟨"layer-top"⟩ .empty =
      .ok ⟨_, (restoredGroup.selectUpTo .empty ⟨"layer-top"⟩).build.tree, _, _⟩ := rfl
  rcases ofGroup_effective hnames hview hpath hgroup with
    ⟨j, k, choice, -, hfrom, -, hsame, hchoice, hrecord⟩
  have hjk : j = k := hsame.2 fun _ tree _ _ => hopen tree
  subst hjk
  exact ⟨_, hview, hgroup, j, choice, hfrom, hchoice, hrecord⟩

/-- The token is above the group `a.b`, whose record is of the layer that had it before. -/
theorem stale_ofGroup_effective :
    ∃ view, restoredGroup.effective ⟨"layer-top"⟩ .empty = .ok view ∧
      view.tree.GroupAt ["a", "b"] ∧
      IsLeast {k | Tree.GroupFrom (restoredGroup.selectUpTo .empty ⟨"layer-top"⟩).trees
        ["a", "b"] k} 2 ∧
      (restoredGroup.selectUpTo .empty ⟨"layer-top"⟩).pages[2]?.map (·.1.id) =
        some ⟨"layer-top"⟩ ∧
      view.provenance? "a.b" = some ⟨⟨"layer-base"⟩, "Base", true, .group⟩ := by
  refine ⟨_, rfl, ?_, groupFrom_restoredGroup, ?_, ?_⟩
  · rw [Selection.build, Selection.trees, pages_restoredGroup]
    decide +kernel
  · rw [pages_restoredGroup]
    rfl
  · rw [Selection.build, Selection.trees, pages_restoredGroup]
    decide +kernel

end Pipeline
end DesignTokens
