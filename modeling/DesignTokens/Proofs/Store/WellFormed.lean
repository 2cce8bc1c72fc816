import DesignTokens.Proofs.Token.Path
import DesignTokens.Token.Store
import Mathlib.Data.List.Nodup

/-!
# Well-formed stores

A store keeps its nodes in one map and the order of the entries of its groups in another. It is
well formed when the two tell the same tree: every node but the root stands under a group that
lists its name once, and every name that a group lists is the name of a node under it.
-/

namespace DesignTokens
namespace Store

variable {store : Store} {path parent name : String}

/-- The nodes and the lists of names of the store describe one tree. -/
structure WellFormed (store : Store) : Prop where
  root : store.isGroup "" = true
  valid : ∀ {path}, store.contains path = true → Path.Valid path
  linked : ∀ {path parent}, store.contains path = true → Path.parent? path = some parent →
    store.isGroup parent = true ∧ (store.children parent).count (Path.last path) = 1
  listed : ∀ {parent name}, name ∈ store.children parent →
    Path.ValidName name ∧ store.contains (Path.child parent name) = true
  owned : ∀ {parent names}, store.names[parent]? = some names →
    store.isGroup parent = true ∧ names ≠ []

/-! ## Reading -/

theorem contains_iff : store.contains path = true ↔ ∃ node, store.get? path = some node := by
  simp [contains, Option.isSome_iff_exists]

theorem contains_eq_false_iff : store.contains path = false ↔ store.get? path = none := by
  simp [contains]

theorem isGroup_iff :
    store.isGroup path = true ↔ ∃ attributes, store.get? path = some (.group attributes) := by
  unfold isGroup
  cases store.get? path with
  | none =>
      simp
  | some node =>
      cases node <;> simp [StoredNode.isGroup]

theorem token?_eq_some_iff {token : Token} :
    store.token? path = some token ↔ store.get? path = some (.token token) := by
  unfold token?
  cases store.get? path with
  | none =>
      simp
  | some node =>
      cases node <;> simp [StoredNode.token?]

theorem isToken_iff :
    store.isToken path = true ↔ ∃ token, store.get? path = some (.token token) := by
  simp [isToken, Option.isSome_iff_exists, token?_eq_some_iff]

theorem contains_of_isGroup (h : store.isGroup path = true) : store.contains path = true := by
  rcases isGroup_iff.1 h with ⟨attributes, hget⟩
  exact contains_iff.2 ⟨_, hget⟩

theorem isGroup_or_isToken (h : store.contains path = true) :
    store.isGroup path = true ∨ store.isToken path = true := by
  rcases contains_iff.1 h with ⟨node, hnode⟩
  cases node with
  | token token =>
      exact Or.inr (isToken_iff.2 ⟨token, hnode⟩)
  | group attributes =>
      exact Or.inl (isGroup_iff.2 ⟨attributes, hnode⟩)

theorem not_isGroup_of_isToken (h : store.isToken path = true) : store.isGroup path = false := by
  rcases isToken_iff.1 h with ⟨token, hget⟩
  simp [isGroup, hget, StoredNode.isGroup]

theorem children_eq_nil_of_names (h : store.names[path]? = none) : store.children path = [] := by
  simp [children, h]

/-! ## Links -/

namespace WellFormed

/-- A child that is there is listed once by its group. -/
theorem linked_child (h : store.WellFormed) (hname : Path.ValidName name)
    (hc : store.contains (Path.child parent name) = true) :
    store.isGroup parent = true ∧ (store.children parent).count name = 1 := by
  have := h.linked hc (Path.parent?_child hname)
  rwa [Path.last_child hname] at this

/-- The children of a path are the valid names with something at them. -/
theorem mem_children_iff (h : store.WellFormed) :
    name ∈ store.children parent ↔
      Path.ValidName name ∧ store.contains (Path.child parent name) = true := by
  constructor
  · exact h.listed
  · rintro ⟨hname, hc⟩
    exact List.count_pos_iff.1 (by rw [(h.linked_child hname hc).2]; exact Nat.one_pos)

theorem nodup_children (h : store.WellFormed) (parent : String) :
    (store.children parent).Nodup := by
  refine List.nodup_iff_count_eq_one.2 fun name hmem => ?_
  rcases h.listed hmem with ⟨hname, hc⟩
  exact (h.linked_child hname hc).2

theorem names_ne_nil (h : store.WellFormed) (parent : String) :
    store.names[parent]? ≠ some ([] : List String) := by
  intro hnil
  exact (h.owned hnil).2 rfl

/-- Only groups have names. -/
theorem names_eq_none_of_not_isGroup (h : store.WellFormed) (hgroup : store.isGroup path = false) :
    store.names[path]? = none := by
  apply Option.eq_none_iff_forall_ne_some.2
  intro names hnames
  rw [(h.owned hnames).1] at hgroup
  cases hgroup

/-- A path of the store and its parent, for every path but the root. -/
theorem eq_child (h : store.WellFormed) (hc : store.contains path = true)
    (hparent : Path.parent? path = some parent) :
    Path.ValidName (Path.last path) ∧ path = Path.child parent (Path.last path) := by
  have hne : path ≠ "" := by
    rintro rfl
    simp [Path.parent?] at hparent
  rcases (h.valid hc).eq_child hne with ⟨other, name, -, hname, rfl⟩
  rw [Path.parent?_child hname] at hparent
  rw [Path.last_child hname, Option.some.inj hparent]
  exact ⟨hname, rfl⟩

/-- Whatever a node of the store lies strictly within is a group of the store. -/
theorem isGroup_of_isWithin (h : store.WellFormed) {ancestor : String}
    (hc : store.contains path = true) (hwithin : Path.isWithin path ancestor = true)
    (hne : path ≠ ancestor) : store.isGroup ancestor = true := by
  have hvalid := h.valid hc
  induction hvalid using Path.Valid.induction with
  | root =>
      exact absurd (Path.isWithin_empty_iff.1 hwithin).symm hne
  | child parent name _ hname ih =>
      have hgroup := (h.linked_child hname hc).1
      rcases (Path.isWithin_child_iff hname).1 hwithin with heq | hparent
      · exact absurd heq hne
      · by_cases hself : parent = ancestor
        · exact hself ▸ hgroup
        · exact ih (contains_of_isGroup hgroup) hparent hself

/-- Whatever a group of the store lies within is a group of the store. -/
theorem isGroup_above (h : store.WellFormed) (hgroup : store.isGroup parent = true)
    (hwithin : Path.isWithin parent path = true) : store.isGroup path = true := by
  by_cases hne : parent = path
  · exact hne ▸ hgroup
  · exact h.isGroup_of_isWithin (contains_of_isGroup hgroup) hwithin hne

/-- With a path all that is above it is there. -/
theorem contains_of_isWithin (h : store.WellFormed) {ancestor : String}
    (hc : store.contains path = true) (hwithin : Path.isWithin path ancestor = true) :
    store.contains ancestor = true := by
  by_cases hne : path = ancestor
  · exact hne ▸ hc
  · exact contains_of_isGroup (h.isGroup_of_isWithin hc hwithin hne)

/-- The same demands in terms of children: each valid child of a path stands under a group that
lists it, no list repeats a name, and no list is empty. -/
theorem of_children (root : store.isGroup "" = true)
    (valid : ∀ {path}, store.contains path = true → Path.Valid path)
    (linked : ∀ {parent name}, Path.ValidName name →
      store.contains (Path.child parent name) = true →
      store.isGroup parent = true ∧ name ∈ store.children parent)
    (nodup : ∀ parent, (store.children parent).Nodup)
    (listed : ∀ {parent name}, name ∈ store.children parent →
      Path.ValidName name ∧ store.contains (Path.child parent name) = true)
    (nonempty : ∀ parent : String, store.names[parent]? ≠ some []) : store.WellFormed where
  root := root
  valid := valid
  linked := by
    -- A path that is not the root is the child of its parent, by its last segment.
    intro path parent hc hparent
    have hne : path ≠ "" := by
      rintro rfl
      simp [Path.parent?] at hparent
    rcases (valid hc).eq_child hne with ⟨other, name, -, hname, rfl⟩
    rw [Path.parent?_child hname, Option.some.injEq] at hparent
    subst hparent
    rcases linked hname hc with ⟨hgroup, hmem⟩
    rw [Path.last_child hname]
    exact ⟨hgroup, List.count_eq_one_of_mem (nodup other) hmem⟩
  listed := listed
  owned := by
    intro parent names hnames
    have hchildren : store.children parent = names := by simp [children, hnames]
    cases names with
    | nil =>
        exact absurd hnames (nonempty parent)
    | cons name rest =>
        have hmem : name ∈ store.children parent := by simp [hchildren]
        exact ⟨(linked (listed hmem).1 (listed hmem).2).1, List.cons_ne_nil name rest⟩

end WellFormed

/-! ## The empty store -/

theorem get?_empty : (empty : Store).get? path = if path = "" then some (.group {}) else none := by
  by_cases h : path = ""
  · simp [get?, empty, h]
  · simp [get?, empty, h, Ne.symm h]

theorem children_empty : (empty : Store).children path = [] := by
  simp [children, empty]

theorem wellFormed_empty : (empty : Store).WellFormed := by
  -- Nothing but the root is there.
  have hcontains : ∀ {path}, (empty : Store).contains path = true → path = "" := by
    intro path hc
    rcases contains_iff.1 hc with ⟨node, hnode⟩
    rw [get?_empty] at hnode
    by_cases hne : path = ""
    · exact hne
    · simp [hne] at hnode
  refine WellFormed.of_children ?root ?valid ?linked ?nodup ?listed ?nonempty
  case root =>
    exact isGroup_iff.2 ⟨{}, by simp [get?_empty]⟩
  case valid =>
    intro path hc
    rw [hcontains hc]
    exact Path.valid_empty
  case linked =>
    intro parent name hname hc
    exact absurd (hcontains hc) (Path.child_ne_empty hname)
  case nodup =>
    intro parent
    simp [children_empty]
  case listed =>
    intro parent name hmem
    simp [children_empty] at hmem
  case nonempty =>
    intro parent
    simp [empty]

end Store
end DesignTokens
