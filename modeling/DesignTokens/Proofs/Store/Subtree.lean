import DesignTokens.Proofs.Store.WellFormed

/-!
# Subtrees

`Store.subtree` lists a path and what the names below it lead to, as many levels down as the longest
path has characters. In a well-formed store this is exactly what is stored within the path.
-/

namespace DesignTokens
namespace Store

variable {store : Store} {path other : String}

/-! ## The bound on the number of levels -/

/-- The maximum of the lengths is at least each of them, and at least what it started with. -/
theorem le_foldl_max_length (paths : List String) (most : Nat) :
    most ≤ paths.foldl (fun most path => max most path.length) most ∧
      ∀ path ∈ paths, path.length ≤ paths.foldl (fun most path => max most path.length) most := by
  induction paths generalizing most with
  | nil =>
      simp
  | cons first rest ih =>
      rcases ih (max most first.length) with ⟨hmost, hrest⟩
      refine ⟨Nat.le_trans (Nat.le_max_left _ _) hmost, ?_⟩
      intro path hpath
      rcases List.mem_cons.1 hpath with rfl | hmem
      · exact Nat.le_trans (Nat.le_max_right _ _) hmost
      · exact hrest path hmem

/-- Every path of the store is shorter than its depth. -/
theorem length_lt_depth (h : store.contains path = true) : path.length < store.depth := by
  have hmem : path ∈ store.nodes.keys := by
    rcases contains_iff.1 h with ⟨node, hnode⟩
    rw [Std.ExtTreeMap.mem_keys, Std.ExtTreeMap.mem_iff_isSome_getElem?]
    simp only [get?] at hnode
    simp [hnode]
  exact Nat.lt_succ_of_le ((le_foldl_max_length store.nodes.keys 0).2 path hmem)

/-! ## Members -/

/-- A subtree down to a level is its path and those of the children, a level less. -/
theorem mem_subtreeAt_succ {level : Nat} :
    other ∈ store.subtreeAt (level + 1) path ↔
      other = path ∨
        ∃ name ∈ store.children path, other ∈ store.subtreeAt level (Path.child path name) := by
  simp [subtreeAt]

namespace WellFormed

/-- What is in a subtree is in the store, within the path. -/
theorem within_of_mem_subtreeAt (h : store.WellFormed) {level : Nat}
    (hc : store.contains path = true) (hmem : other ∈ store.subtreeAt level path) :
    store.contains other = true ∧ Path.isWithin other path = true := by
  -- Each level goes one child down, so the path takes part in the induction.
  induction level generalizing path with
  | zero =>
      have heq : other = path := by simpa [subtreeAt] using hmem
      subst heq
      exact ⟨hc, Path.isWithin_self other⟩
  | succ level ih =>
      rcases mem_subtreeAt_succ.1 hmem with rfl | ⟨name, hname, hbelow⟩
      · exact ⟨hc, Path.isWithin_self other⟩
      · rcases ih (h.listed hname).2 hbelow with ⟨hother, hwithin⟩
        exact ⟨hother, Path.isWithin_trans hwithin (Path.isWithin_child path name)⟩

/-- Every step down makes the path longer, so that as many levels as there are characters left are
enough. -/
theorem mem_subtreeAt_of_within (h : store.WellFormed) {level : Nat}
    (hc : store.contains other = true) (hwithin : Path.isWithin other path = true)
    (hlevel : other.length ≤ path.length + level) : other ∈ store.subtreeAt level path := by
  induction level generalizing path with
  | zero =>
      by_cases hself : other = path
      · simp [subtreeAt, hself]
      · -- With no level left, a child on the way would be longer than `other` itself.
        rcases (h.valid hc).exists_child hwithin hself with ⟨name, hname, hbelow⟩
        have hshort := @Path.length_lt_child path name hname
        have hlong := Path.length_le_of_isWithin hbelow
        omega
  | succ level ih =>
      rw [mem_subtreeAt_succ]
      by_cases hself : other = path
      · exact Or.inl hself
      · rcases (h.valid hc).exists_child hwithin hself with ⟨name, hname, hbelow⟩
        have hshort := @Path.length_lt_child path name hname
        refine Or.inr ⟨name, ?_, ih hbelow (by omega)⟩
        exact h.mem_children_iff.2 ⟨hname, h.contains_of_isWithin hc hbelow⟩

/-- A subtree is what the store holds within its path. -/
theorem mem_subtree_iff (h : store.WellFormed) (hc : store.contains path = true) :
    other ∈ store.subtree path ↔
      store.contains other = true ∧ Path.isWithin other path = true := by
  constructor
  · exact h.within_of_mem_subtreeAt hc
  · rintro ⟨hother, hwithin⟩
    have hlength := length_lt_depth hother
    exact h.mem_subtreeAt_of_within hother hwithin (by omega)

end WellFormed

end Store
end DesignTokens
