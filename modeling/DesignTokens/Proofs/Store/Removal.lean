import DesignTokens.Proofs.Map
import DesignTokens.Proofs.Store.Outcome
import DesignTokens.Proofs.Store.Subtree

/-!
# Removing nodes

Removing a node drops everything stored within its path, and then the one name that led to it.
-/

namespace DesignTokens
namespace Store

variable {store : Store} {path parent name : String}

/-! ## Dropping paths -/

/-- Dropping paths erases their nodes. -/
theorem nodes_foldl_drop (paths : List String) (store : Store) :
    (paths.foldl drop store).nodes = paths.foldl (fun map path => map.erase path) store.nodes := by
  induction paths generalizing store with
  | nil =>
      rfl
  | cons first rest ih =>
      exact ih (store.drop first)

theorem names_foldl_drop (paths : List String) (store : Store) :
    (paths.foldl drop store).names = paths.foldl (fun map path => map.erase path) store.names := by
  induction paths generalizing store with
  | nil =>
      rfl
  | cons first rest ih =>
      exact ih (store.drop first)

/-- The store without a node and everything below it, with the name of the node still listed. -/
def pruned (store : Store) (path : String) : Store :=
  (store.subtree path).foldl drop store

/-- A map whose keys are all paths of the store loses exactly what lies within the path. -/
theorem WellFormed.getElem?_pruned {α : Type} (h : store.WellFormed)
    (hc : store.contains path = true) {map : Std.ExtTreeMap String α compare}
    (hmap : ∀ {other value}, map[other]? = some value → store.contains other = true)
    (other : String) :
    ((store.subtree path).foldl (fun map path => map.erase path) map)[other]? =
      if Path.isWithin other path then none else map[other]? := by
  rw [Map.getElem?_foldl_erase]
  by_cases hwithin : Path.isWithin other path = true
  · by_cases hmem : other ∈ store.subtree path
    · simp [hmem, hwithin]
    · -- What lies within the path without being dropped has never been in the map.
      have hnone : map[other]? = none := by
        cases hvalue : map[other]? with
        | none =>
            rfl
        | some value =>
            exact absurd ((h.mem_subtree_iff hc).2 ⟨hmap hvalue, hwithin⟩) hmem
      simp [hmem, hwithin, hnone]
  · have hmem : other ∉ store.subtree path :=
      fun hmem => hwithin ((h.mem_subtree_iff hc).1 hmem).2
    simp [hmem, hwithin]

/-- Pruning takes the nodes at and below a path. -/
theorem WellFormed.get?_pruned (h : store.WellFormed) (hc : store.contains path = true)
    (other : String) :
    (store.pruned path).get? other =
      if Path.isWithin other path then none else store.get? other := by
  unfold get? pruned
  rw [nodes_foldl_drop]
  exact h.getElem?_pruned hc (fun hvalue => contains_iff.2 ⟨_, hvalue⟩) other

/-- Pruning takes the names at and below a path. -/
theorem WellFormed.getElem?_names_pruned (h : store.WellFormed) (hc : store.contains path = true)
    (other : String) :
    (store.pruned path).names[other]? =
      if Path.isWithin other path then none else store.names[other]? := by
  unfold pruned
  rw [names_foldl_drop]
  exact h.getElem?_pruned hc (fun hvalue => contains_of_isGroup (h.owned hvalue).1) other

/-- Pruning takes the children at and below a path. -/
theorem WellFormed.children_pruned (h : store.WellFormed) (hc : store.contains path = true)
    (other : String) :
    (store.pruned path).children other =
      if Path.isWithin other path then [] else store.children other := by
  show ((store.pruned path).names[other]?).getD [] = _
  rw [h.getElem?_names_pruned hc]
  split
  · rfl
  · rfl

/-! ## Unlinking -/

theorem get?_unlink (other : String) :
    (store.unlink parent name).get? other = store.get? other := by
  unfold unlink
  split <;> rfl

/-- The names of the entries of a group other than the given one. -/
def siblings (store : Store) (parent name : String) : List String :=
  (store.children parent).filter (· ≠ name)

theorem mem_siblings {other : String} :
    other ∈ store.siblings parent name ↔ other ∈ store.children parent ∧ other ≠ name := by
  simp [siblings]

/-- Unlinking takes a name out, and the whole list of names when it was the last one. -/
theorem getElem?_names_unlink (other : String) :
    (store.unlink parent name).names[other]? =
      if other ≠ parent then store.names[other]?
      else if store.siblings parent name = [] then none
      else some (store.siblings parent name) := by
  unfold unlink
  cases hnames : store.names[parent]? with
  | none =>
      have hsiblings : store.siblings parent name = [] := by
        simp [siblings, children_eq_nil_of_names hnames]
      by_cases hother : other = parent
      · simp [hother, hnames, hsiblings]
      · simp [hother]
  | some names =>
      have hsiblings : names.filter (· ≠ name) = store.siblings parent name := by
        simp [siblings, children, hnames]
      simp only [hsiblings]
      by_cases hother : other = parent
      · -- A list that would be empty is taken out of the map.
        by_cases hnil : store.siblings parent name = []
        · simp [hother, hnil]
        · simp [hother, hnil]
      · have hne : parent ≠ other := Ne.symm hother
        by_cases hnil : store.siblings parent name = []
        · simp [hother, hnil, Std.ExtTreeMap.getElem?_erase, hne]
        · simp [hother, hnil, Std.ExtTreeMap.getElem?_insert, hne]

/-- Unlinking takes one child of its parent. -/
theorem children_unlink (other : String) :
    (store.unlink parent name).children other =
      if other = parent then store.siblings parent name else store.children other := by
  show ((store.unlink parent name).names[other]?).getD [] = _
  rw [getElem?_names_unlink]
  by_cases hother : other = parent
  · by_cases hnil : store.siblings parent name = []
    · simp [hother, hnil]
    · simp [hother, hnil]
  · simp [hother, children]

/-- Unlinking leaves no empty list of names. -/
theorem names_unlink_ne_nil (h : ∀ path : String, store.names[path]? ≠ some [])
    (other : String) : (store.unlink parent name).names[other]? ≠ some [] := by
  rw [getElem?_names_unlink]
  by_cases hother : other = parent
  · by_cases hnil : store.siblings parent name = []
    · simp [hother, hnil]
    · simp [hother, hnil]
  · simpa [hother] using h other

/-! ## Removing -/

/-- The store without a node and everything below it, and without the name that led to the node. -/
def without (store : Store) (parent name : String) : Store :=
  (store.pruned (Path.child parent name)).unlink parent name

section Without

variable {other : String} (h : store.WellFormed) (hname : Path.ValidName name)
  (hc : store.contains (Path.child parent name) = true)

include h hc

/-- A removal takes the nodes at and below the path. -/
theorem get?_without (other : String) :
    (store.without parent name).get? other =
      if Path.isWithin other (Path.child parent name) then none else store.get? other := by
  rw [without, get?_unlink, h.get?_pruned hc]

/-- What is there after a removal was there and is outside of what was removed. -/
theorem contains_without_iff :
    (store.without parent name).contains other = true ↔
      Path.isWithin other (Path.child parent name) = false ∧ store.contains other = true := by
  by_cases hwithin : Path.isWithin other (Path.child parent name) = true
  · simp [contains, get?_without h hc, hwithin]
  · simp [contains, get?_without h hc, hwithin]

theorem isGroup_without (hout : Path.isWithin other (Path.child parent name) = false)
    (hgroup : store.isGroup other = true) : (store.without parent name).isGroup other = true := by
  rcases isGroup_iff.1 hgroup with ⟨attributes, hattributes⟩
  exact isGroup_iff.2 ⟨attributes, by simp [get?_without h hc, hout, hattributes]⟩

theorem names_without_ne_nil (other : String) :
    (store.without parent name).names[other]? ≠ some [] := by
  refine names_unlink_ne_nil (fun path => ?_) other
  rw [h.getElem?_names_pruned hc]
  split
  · simp
  · exact h.names_ne_nil path

include hname

/-- A removal takes the children at and below the path, and the path from its siblings. -/
theorem children_without (other : String) :
    (store.without parent name).children other =
      if Path.isWithin other (Path.child parent name) then []
      else if other = parent then store.siblings parent name
      else store.children other := by
  have hparent : Path.isWithin parent (Path.child parent name) = false :=
    Path.isWithin_parent_eq_false hname rfl
  rw [without, children_unlink, h.children_pruned hc]
  by_cases hother : other = parent
  · simp [hother, hparent, siblings, h.children_pruned hc]
  · simp [hother]

/-- Exactly the names that lead to what is left are still listed. -/
theorem mem_children_without_iff {otherName : String} :
    otherName ∈ (store.without parent name).children other ↔
      Path.ValidName otherName ∧
        (store.without parent name).contains (Path.child other otherName) = true := by
  rw [contains_without_iff h hc, children_without h hname hc]
  by_cases hwithin : Path.isWithin other (Path.child parent name) = true
  · -- Nothing is left below the removed node, on either side.
    have hbelow := Path.isWithin_trans (Path.isWithin_child other otherName) hwithin
    simp [hwithin, hbelow]
  · have hout : Path.isWithin other (Path.child parent name) = false := by simpa using hwithin
    by_cases hother : other = parent
    · -- Here one name is gone, and it is the one that led to the removed node.
      subst hother
      simp only [hout, Bool.false_eq_true, if_false, if_true, mem_siblings, h.mem_children_iff]
      constructor
      · intro hmem
        rcases hmem with ⟨⟨hvalid, hold⟩, hne⟩
        refine ⟨hvalid, Path.isWithin_child_eq_false hvalid hout ?_, hold⟩
        intro heq
        exact hne ((Path.child_inj hvalid hname).1 heq).2
      · intro hmem
        rcases hmem with ⟨hvalid, hkept, hold⟩
        refine ⟨⟨hvalid, hold⟩, ?_⟩
        intro heq
        rw [heq, Path.isWithin_self] at hkept
        cases hkept
    · -- Elsewhere the names are what they were.
      simp only [hout, Bool.false_eq_true, if_false, hother, h.mem_children_iff]
      constructor
      · intro hmem
        rcases hmem with ⟨hvalid, hold⟩
        refine ⟨hvalid, Path.isWithin_child_eq_false hvalid hout ?_, hold⟩
        intro heq
        exact hother ((Path.child_inj hvalid hname).1 heq).1
      · intro hmem
        rcases hmem with ⟨hvalid, -, hold⟩
        exact ⟨hvalid, hold⟩

/-- A store without one of its subtrees is well-formed. -/
theorem WellFormed.without : (store.without parent name).WellFormed := by
  refine WellFormed.of_children ?root ?valid ?linked ?nodup ?listed (names_without_ne_nil h hc)
  case root =>
    have hne : Path.child parent name ≠ "" := Path.child_ne_empty hname
    exact isGroup_without h hc (Path.isWithin_empty_eq_false hne) h.root
  case valid =>
    intro other hother
    exact h.valid ((contains_without_iff h hc).1 hother).2
  case linked =>
    intro other otherName hother hmem
    rcases (contains_without_iff h hc).1 hmem with ⟨hout, hold⟩
    have hup : Path.isWithin other (Path.child parent name) = false :=
      Path.isWithin_eq_false_of_isWithin (Path.isWithin_child other otherName) hout
    exact ⟨isGroup_without h hc hup (h.linked_child hother hold).1,
      (mem_children_without_iff h hname hc).2 ⟨hother, hmem⟩⟩
  case nodup =>
    intro other
    rw [children_without h hname hc]
    split
    · exact List.nodup_nil
    · split
      · exact (h.nodup_children parent).filter _
      · exact h.nodup_children other
  case listed =>
    intro other otherName hmem
    exact (mem_children_without_iff h hname hc).1 hmem

end Without

/-- An accepted removal leaves a well-formed store. -/
theorem WellFormed.remove {after : Store} {node : StoredNode} (h : store.WellFormed)
    (hrun : (remove path).run store = .ok node after) : after.WellFormed := by
  rcases run_remove_eq_ok.1 hrun with ⟨parent, hparent, hnode, rfl⟩
  have hc : store.contains path = true := contains_iff.2 ⟨node, hnode⟩
  rcases h.eq_child hc hparent with ⟨hname, hpath⟩
  generalize Path.last path = name at hname hpath ⊢
  subst hpath
  exact h.without hname hc

end Store
end DesignTokens
