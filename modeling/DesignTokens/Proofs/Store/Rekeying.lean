import DesignTokens.Proofs.Map
import DesignTokens.Proofs.Store.Subtree

/-!
# New keys for a subtree

Renaming and moving give new keys to everything within one path: a key `source ++ rest` becomes
`target ++ rest`. What is stored under a key is not looked at, and no other key changes. The keys
are moved one at a time; since `target` is free and lies outside of the subtree, no step meets the
result of another.
-/

namespace DesignTokens
namespace Store

open Map

variable {store : Store} {path source target : String}

/-! ## Keys of a store -/

theorem nodes_moveKey (old new : String) :
    (store.moveKey old new).nodes = moveEntry store.nodes old new := by
  unfold moveKey moveEntry
  cases store.nodes[old]? with
  | none =>
      rfl
  | some node =>
      rfl

theorem names_moveKey (old new : String) :
    (store.moveKey old new).names = moveEntry store.names old new := by
  unfold moveKey moveEntry
  cases store.names[old]? with
  | none =>
      rfl
  | some names =>
      rfl

/-- Moving keys one after the other moves their entries. -/
theorem nodes_foldl_moveKey (place : String → String) (paths : List String) (store : Store) :
    (paths.foldl (fun store old => store.moveKey old (place old)) store).nodes =
      moveEntries place paths store.nodes := by
  induction paths generalizing store with
  | nil =>
      rfl
  | cons first rest ih =>
      rw [List.foldl_cons, ih, nodes_moveKey]
      rfl

theorem names_foldl_moveKey (place : String → String) (paths : List String) (store : Store) :
    (paths.foldl (fun store old => store.moveKey old (place old)) store).names =
      moveEntries place paths store.names := by
  induction paths generalizing store with
  | nil =>
      rfl
  | cons first rest ih =>
      rw [List.foldl_cons, ih, names_moveKey]
      rfl

/-! ## Keys within a path -/

/-- What is looked up within `source` is found within `target` afterwards, and only there. -/
structure Relocates {α : Type} (before after : String → Option α) (source target : String) :
    Prop where
  moved : ∀ {old new}, Path.rebase? source target old = some new → after new = before old
  left : ∀ {path}, Path.isWithin path source = true → after path = none
  kept : ∀ {path}, Path.isWithin path source = false → Path.isWithin path target = false →
    after path = before path

namespace Relocates

variable {after : Store} {old new : String}
  (hnodes : Relocates store.get? after.get? source target)

include hnodes

theorem contains_moved (hmoved : Path.rebase? source target old = some new) :
    after.contains new = store.contains old := by
  simp only [contains, hnodes.moved hmoved]

theorem contains_left (hsource : Path.isWithin path source = true) :
    after.contains path = false := by
  simp [contains, hnodes.left hsource]

/-- A path outside of source and target is there when it was. -/
theorem contains_kept (hsource : Path.isWithin path source = false)
    (htarget : Path.isWithin path target = false) : after.contains path = store.contains path := by
  simp only [contains, hnodes.kept hsource htarget]

theorem isGroup_moved (hmoved : Path.rebase? source target old = some new) :
    after.isGroup new = store.isGroup old := by
  simp only [isGroup, hnodes.moved hmoved]

theorem isGroup_kept (hsource : Path.isWithin path source = false)
    (htarget : Path.isWithin path target = false) : after.isGroup path = store.isGroup path := by
  simp only [isGroup, hnodes.kept hsource htarget]

end Relocates

structure Movable (store : Store) (source target : String) : Prop where
  source_ne : source ≠ ""
  target_ne : target ≠ ""
  present : store.contains source = true
  free : store.contains target = false
  outside : Path.isWithin target source = false

/-- A path lies within the new place of the subtree, within its old place, or outside of both. -/
theorem Movable.cases (hm : store.Movable source target) (path : String) :
    (∃ old, Path.rebase? source target old = some path) ∨ Path.isWithin path source = true ∨
      (Path.isWithin path source = false ∧ Path.isWithin path target = false) := by
  by_cases htarget : Path.isWithin path target = true
  · exact Or.inl (Path.exists_rebase? hm.source_ne hm.target_ne htarget)
  · by_cases hsource : Path.isWithin path source = true
    · exact Or.inr (Or.inl hsource)
    · exact Or.inr (Or.inr ⟨by simpa using hsource, by simpa using htarget⟩)

namespace WellFormed

variable (h : store.WellFormed) (hm : store.Movable source target)

include h hm

theorem not_isWithin_both (hsource : Path.isWithin path source = true) :
    Path.isWithin path target = false := by
  by_contra htarget
  rcases Path.isWithin_or_isWithin hsource (by simpa using htarget) with hinner | hinner
  · -- The target would be on the way to the source, but nothing is stored there.
    have hc := h.contains_of_isWithin hm.present hinner
    rw [hm.free] at hc
    cases hc
  · rw [hm.outside] at hinner
    cases hinner

theorem not_isWithin_source (htarget : Path.isWithin path target = true) :
    Path.isWithin path source = false := by
  by_contra hsource
  have hout := h.not_isWithin_both hm (by simpa using hsource)
  rw [htarget] at hout
  cases hout

/-- Nothing stored lies within the new place yet. -/
theorem not_isWithin_target (hc : store.contains path = true) :
    Path.isWithin path target = false := by
  by_contra htarget
  have htaken := h.contains_of_isWithin hc (by simpa using htarget)
  rw [hm.free] at htaken
  cases htaken

theorem not_contains_target (htarget : Path.isWithin path target = true) :
    store.contains path = false := by
  by_contra hc
  have hout := h.not_isWithin_target hm (by simpa using hc)
  rw [htarget] at hout
  cases hout

/-- The keys within the path are those that the subtree lists. -/
theorem relocates_moveEntries {α : Type} {map : Std.ExtTreeMap String α compare}
    (hmap : ∀ {path value}, map[path]? = some value → store.contains path = true) :
    Relocates (fun path => map[path]?)
      (fun path => (moveEntries (fun old => (Path.rebase? source target old).getD old)
        (store.subtree source) map)[path]?) source target := by
  generalize hplace : (fun old => (Path.rebase? source target old).getD old) = place
  have hrebase : ∀ {old}, old ∈ store.subtree source →
      Path.rebase? source target old = some (place old) := by
    intro old hold
    cases hmoved : Path.rebase? source target old with
    | none =>
        have hout := Path.rebase?_eq_none_iff.1 hmoved
        rw [((h.mem_subtree_iff hm.present).1 hold).2] at hout
        cases hout
    | some new =>
        simp [← hplace, hmoved]
  have hnone : ∀ {path}, store.contains path = false → map[path]? = none := by
    intro path hc
    cases hvalue : map[path]? with
    | none =>
        rfl
    | some value =>
        rw [hmap hvalue] at hc
        cases hc
  -- No old key is a new one, which is all that moving the keys one by one needs.
  have houtside : ∀ {path}, Path.isWithin path target = true → path ∉ store.subtree source := by
    intro path htarget hmem
    have hout := h.not_isWithin_both hm ((h.mem_subtree_iff hm.present).1 hmem).2
    rw [htarget] at hout
    cases hout
  have hfresh : ∀ a ∈ store.subtree source, ∀ b ∈ store.subtree source, place a ≠ b := by
    intro a ha b hb heq
    exact houtside (Path.isWithin_rebase? hm.source_ne hm.target_ne (hrebase ha)) (heq ▸ hb)
  constructor
  case moved =>
    intro old new hmoved
    have htarget := Path.isWithin_rebase? hm.source_ne hm.target_ne hmoved
    have hnew : map[new]? = none := hnone (h.not_contains_target hm htarget)
    by_cases hmem : old ∈ store.subtree source
    · have hplaced : place old = new := Option.some.inj ((hrebase hmem).symm.trans hmoved)
      have hentries := getElem?_moveEntries_new hfresh
        (fun a ha b hb heq => Path.rebase?_inj hm.source_ne hm.target_ne (hrebase ha)
          (heq ▸ hrebase hb)) map hmem
      rw [hplaced, hnew, Option.or_none] at hentries
      exact hentries
    · -- A path within the subtree that is not listed is free, before and after.
      have hsource := Path.isWithin_of_rebase? hmoved
      have hfree : store.contains old = false := by
        simpa using fun hc => hmem ((h.mem_subtree_iff hm.present).2 ⟨hc, hsource⟩)
      have hentries := getElem?_moveEntries_of_ne hfresh map (houtside htarget) fun a ha heq =>
        hmem (Path.rebase?_inj hm.source_ne hm.target_ne (heq ▸ hrebase ha) hmoved ▸ ha)
      exact hentries.trans (hnew.trans (hnone hfree).symm)
  case left =>
    intro path hsource
    by_cases hmem : path ∈ store.subtree source
    · exact getElem?_moveEntries_old hfresh map hmem
    · have hfree : store.contains path = false := by
        simpa using fun hc => hmem ((h.mem_subtree_iff hm.present).2 ⟨hc, hsource⟩)
      have hentries := getElem?_moveEntries_of_ne hfresh map hmem fun a ha heq => by
        have hout := h.not_isWithin_both hm hsource
        rw [← heq, Path.isWithin_rebase? hm.source_ne hm.target_ne (hrebase ha)] at hout
        cases hout
      exact hentries.trans (hnone hfree)
  case kept =>
    intro path hsource htarget
    refine getElem?_moveEntries_of_ne hfresh map ?_ ?_
    · intro hmem
      exact Path.ne_of_isWithin ((h.mem_subtree_iff hm.present).1 hmem).2 hsource rfl
    · intro a ha
      exact Path.ne_of_isWithin (Path.isWithin_rebase? hm.source_ne hm.target_ne (hrebase ha))
        htarget

theorem relocates_nodes : Relocates store.get? (store.rekey source target).get? source target := by
  have hmap : ∀ {path node}, store.nodes[path]? = some node → store.contains path = true :=
    fun hnode => contains_iff.2 ⟨_, hnode⟩
  have hentries := h.relocates_moveEntries hm hmap
  rw [← nodes_foldl_moveKey] at hentries
  exact hentries

/-- Rekeying relocates the names. -/
theorem relocates_names :
    Relocates (fun path => store.names[path]?)
      (fun path => (store.rekey source target).names[path]?) source target := by
  have hmap : ∀ {path names}, store.names[path]? = some names → store.contains path = true :=
    fun hnames => contains_of_isGroup (h.owned hnames).1
  have hentries := h.relocates_moveEntries hm hmap
  rw [← names_foldl_moveKey] at hentries
  exact hentries

/-- The children move along with their parent. -/
theorem children_rekey {old new : String} (hmoved : Path.rebase? source target old = some new) :
    (store.rekey source target).children new = store.children old := by
  simp only [children, (h.relocates_names hm).moved hmoved]

/-- No children are left in the source. -/
theorem children_rekey_source (hsource : Path.isWithin path source = true) :
    (store.rekey source target).children path = [] := by
  simp only [children, (h.relocates_names hm).left hsource, Option.getD_none]

/-- Children outside of source and target stay. -/
theorem children_rekey_of_outside (hsource : Path.isWithin path source = false)
    (htarget : Path.isWithin path target = false) :
    (store.rekey source target).children path = store.children path := by
  simp only [children, (h.relocates_names hm).kept hsource htarget]

theorem names_rekey_ne_nil (path : String) :
    (store.rekey source target).names[path]? ≠ some [] := by
  have hnames := h.relocates_names hm
  rcases hm.cases path with ⟨old, hold⟩ | hsource | ⟨hsource, htarget⟩
  · rw [hnames.moved hold]
    exact h.names_ne_nil old
  · simp [hnames.left hsource]
  · rw [hnames.kept hsource htarget]
    exact h.names_ne_nil path

end WellFormed

end Store
end DesignTokens
