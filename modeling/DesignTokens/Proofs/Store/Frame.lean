import DesignTokens.Proofs.Store.Reading

/-!
# What a change below one group leaves alone

An edit moves whole subtrees or changes the entries of one group. The tree of the store afterwards
is found without following the edit through the tree: a subtree that was carried elsewhere has the
same tree there, and when all that differs is below some entries of one group, the tree differs in
the entries of that group.
-/

namespace DesignTokens
namespace Store

variable {store after : Store} {source target path parent name : String} {touched : List String}

/-! ## Carried subtrees -/

/-- Whatever is within `source` in one store is within `target` in the other, under the same
names. -/
structure Carries (store after : Store) (source target : String) : Prop where
  source_ne : source ≠ ""
  target_ne : target ≠ ""
  get : ∀ {old new}, Path.rebase? source target old = some new → after.get? new = store.get? old
  children : ∀ {old new}, Path.rebase? source target old = some new →
    after.children new = store.children old

namespace Carries

variable (hc : Carries store after source target) (h : store.WellFormed) (hafter : after.WellFormed)

include hc h hafter

/-- What is below a moved path is what was below the old one. -/
theorem below {old new : String} (hmoved : Path.rebase? source target old = some new) :
    after.below new = store.below old := by
  induction old using h.below_induction generalizing new with
  | step old ih =>
      rw [hafter.below_eq, h.below_eq, hc.children hmoved]
      apply Entries.ofNames_congr
      intro name hmem
      -- The child is carried along with its group.
      have hchild : Path.rebase? source target (Path.child old name) =
          some (Path.child new name) :=
        Path.rebase?_child hc.source_ne hc.target_ne hmoved
      simp only [node?, hc.get hchild, ih name hmem hchild]

theorem node? : after.node? target = store.node? source := by
  have hself := @Path.rebase?_self source target hc.source_ne
  simp only [Store.node?, hc.get hself, hc.below h hafter hself]

end Carries

/-! ## Entries of one group -/

/-- The path is not within any of the entries of the group that may differ. -/
def Untouched (parent : String) (touched : List String) (path : String) : Prop :=
  ∀ name ∈ touched, Path.isWithin path (Path.child parent name) = false

/-- The stores differ only within the entries of `parent` under the touched names, and in how the
entries of `parent` are listed. -/
structure ChangesBelow (store after : Store) (parent : String) (touched : List String) : Prop where
  valid : ∀ name ∈ touched, Path.ValidName name
  get : ∀ {path}, Untouched parent touched path → after.get? path = store.get? path
  children : ∀ {path}, Untouched parent touched path → path ≠ parent →
    after.children path = store.children path

namespace ChangesBelow

variable (hc : ChangesBelow store after parent touched) (h : store.WellFormed)
  (hafter : after.WellFormed)

include hc

/-- Nothing on the way to the group is touched. -/
theorem untouched_above (hwithin : Path.isWithin parent path = true) :
    Untouched parent touched path := by
  intro name hmem
  have hparent := @Path.isWithin_parent_eq_false _ parent name (hc.valid name hmem) rfl
  exact Path.isWithin_eq_false_of_isWithin hwithin hparent

include h hafter

/-- A subtree that the group does not lie in is the same, unless it is within a touched entry. -/
theorem node?_apart (hne : path ≠ "") (hparent : Path.isWithin parent path = false)
    (hout : Untouched parent touched path) : after.node? path = store.node? path := by
  have hwithin : ∀ {old}, Path.isWithin old path = true →
      Untouched parent touched old ∧ old ≠ parent := by
    intro old hold
    refine ⟨?_, Path.ne_of_isWithin hold hparent⟩
    intro name hmem
    by_contra hin
    rcases Path.isWithin_or_isWithin hold (by simpa using hin) with hup | hdown
    · rw [hout name hmem] at hup
      cases hup
    · -- The subtree would be that of a touched entry, or the group would be in it.
      rcases (Path.isWithin_child_iff (hc.valid name hmem)).1 hdown with heq | hbelow
      · have hself := hout name hmem
        rw [heq, Path.isWithin_self] at hself
        cases hself
      · rw [hparent] at hbelow
        cases hbelow
  -- The subtree is carried to where it was.
  have hcarries : Carries store after path path := by
    refine ⟨hne, hne, ?_, ?_⟩
    · intro old new hmoved
      rcases (Path.rebase?_same_iff hne).1 hmoved with ⟨rfl, hold⟩
      exact hc.get (hwithin hold).1
    · intro old new hmoved
      rcases (Path.rebase?_same_iff hne).1 hmoved with ⟨rfl, hold⟩
      exact hc.children (hwithin hold).1 (hwithin hold).2
  exact hcarries.node? h hafter

/-- The other entries of the group are the same. -/
theorem node?_sibling (hname : Path.ValidName name) (hmem : name ∉ touched) :
    after.node? (Path.child parent name) = store.node? (Path.child parent name) := by
  have hparent := @Path.isWithin_parent_eq_false _ parent name hname rfl
  refine hc.node?_apart h hafter (Path.child_ne_empty hname) hparent ?_
  intro other hother
  have hup := @Path.isWithin_parent_eq_false _ parent other (hc.valid other hother) rfl
  apply Path.isWithin_child_eq_false hname hup
  intro heq
  rw [((Path.child_inj hname (hc.valid other hother)).1 heq).2] at hmem
  exact hmem hother

/-- The groups on the way to the group keep all their entries but the one that leads there. -/
theorem node?_beside {other : String} (hname : Path.ValidName name) (hother : Path.ValidName other)
    (hne : other ≠ name) (hin : Path.isWithin parent (Path.child path name) = true) :
    after.node? (Path.child path other) = store.node? (Path.child path other) := by
  -- No place is within two entries of one group.
  have hapart : ∀ {place}, Path.isWithin place (Path.child path name) = true →
      Path.isWithin place (Path.child path other) = false := by
    intro place hplace
    simpa using fun hplace' => hne (Path.name_eq_of_isWithin_child hother hname hplace' hplace)
  refine hc.node?_apart h hafter (Path.child_ne_empty hother) (hapart hin) ?_
  intro touchedName hmem
  by_contra hbelow
  have hdeep : Path.isWithin (Path.child path other) (Path.child path name) = true :=
    Path.isWithin_trans (by simpa using hbelow)
      (Path.isWithin_trans (Path.isWithin_child parent touchedName) hin)
  have hself := hapart hdeep
  rw [Path.isWithin_self] at hself
  cases hself

/-- Along the way to the group, each group has the entries it had, but for the one on the way. -/
theorem below_eq_changeEntries {change : Entries Node → Entries Node}
    (hgroup : store.isGroup parent = true)
    (hchange : after.below parent = change (store.below parent)) (names : List String)
    (walked : String) (hnames : ∀ name ∈ names, Path.ValidName name)
    (hway : names.foldl Path.child walked = parent) :
    after.below walked = Node.changeEntries change names (store.below walked) := by
  induction names generalizing walked with
  | nil =>
      have hhere : walked = parent := hway
      simpa [Node.changeEntries, hhere] using hchange
  | cons name rest ih =>
      rcases List.forall_mem_cons.1 hnames with ⟨hname, hrest⟩
      have hin : Path.isWithin parent (Path.child walked name) = true :=
        hway ▸ Path.isWithin_foldl_child rest (Path.child walked name)
      have hup : Path.isWithin parent walked = true :=
        Path.isWithin_trans hin (Path.isWithin_child walked name)
      have hnot : walked ≠ parent := by
        intro heq
        exact Path.not_isWithin_child hname (heq.symm ▸ hin)
      -- What is stored on the way is a group, before and after.
      rcases isGroup_iff.1 (h.isGroup_above hgroup hin) with ⟨attributes, hget⟩
      have hget' := (hc.get (hc.untouched_above hin)).trans hget
      have hmem : name ∈ store.children walked :=
        h.mem_children_iff.2 ⟨hname, contains_iff.2 ⟨_, hget⟩⟩
      have hfound : store.node? (Path.child walked name) =
          some (.group attributes (store.below (Path.child walked name))) := by
        simp [Store.node?, hget, StoredNode.withEntries]
      have hput : after.node? (Path.child walked name) =
          some (.group attributes
            (Node.changeEntries change rest (store.below (Path.child walked name)))) := by
        rw [← ih (Path.child walked name) hrest hway]
        simp [Store.node?, hget', StoredNode.withEntries]
      have hkept : ∀ other ∈ store.children walked, other ≠ name →
          after.node? (Path.child walked other) = store.node? (Path.child walked other) := by
        intro other hother hne
        exact hc.node?_beside h hafter hname (h.listed hother).1 hne hin
      calc
        after.below walked
            = Entries.ofNames (fun other => after.node? (Path.child walked other))
                (store.children walked) := by
            rw [hafter.below_eq, hc.children (hc.untouched_above hup) hnot]
        _ = Entries.put (store.below walked) name (.group attributes
              (Node.changeEntries change rest (store.below (Path.child walked name)))) := by
            rw [h.below_eq]
            exact (Entries.put_ofNames (h.nodup_children walked) hmem (by simp [hfound]) hput
              hkept).symm
        _ = Node.changeEntries change (name :: rest) (store.below walked) := by
            simp only [Node.changeEntries, h.get?_below, if_pos hmem, hfound]

/-- All that differs in the trees of the stores are the entries of the group. -/
theorem toTree_eq {change : Entries Node → Entries Node} (hgroup : store.isGroup parent = true)
    (hchange : after.below parent = change (store.below parent)) :
    after.toTree = store.toTree.changeGroup parent change := by
  have hparent : Path.Valid parent := h.valid (contains_of_isGroup hgroup)
  have hroot : after.get? "" = store.get? "" :=
    hc.get (hc.untouched_above (Path.isWithin_root parent))
  have hbelow := hc.below_eq_changeEntries h hafter hgroup hchange (Path.segments parent) ""
    hparent (Path.foldl_child_segments hparent)
  have hattributes : after.attributes "" = store.attributes "" := by simp only [attributes, hroot]
  show Tree.mk (after.attributes "") (after.below "") = _
  rw [hattributes, hbelow]
  rfl

end ChangesBelow

end Store
end DesignTokens
