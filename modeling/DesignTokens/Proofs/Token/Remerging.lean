import DesignTokens.Proofs.Token.Writing

/-!
# Merges that change nothing

A tree that is laid over another one for the second time finds everything that it brings at its
place. A tree without anything brings nothing, and over it every tree stays what it is. Both go
through the groups of the upper tree: the entries and metadata that it has are told apart by their
names, so that what is laid over a name does not reach the other ones.
-/

namespace DesignTokens

universe u

/-! ## Entries -/

namespace Entries

variable {α : Type u} {target source : Entries α}

/-- Pairs that are there already. -/
theorem extend_eq_self (h : ∀ pair ∈ source, get? target pair.1 = some pair.2) :
    extend target source = target := by
  induction source with
  | nil =>
      rfl
  | cons pair rest ih =>
      rcases List.forall_mem_cons.1 h with ⟨hpair, hrest⟩
      calc
        extend target (pair :: rest)
            = extend (put target pair.1 pair.2) rest := rfl
        _ = extend target rest := by rw [put_eq_self hpair]
        _ = target := ih hrest

/-- Adding the same entries twice is adding them once. -/
theorem extend_extend (target : Entries α) (h : (keys source).Nodup) :
    extend (extend target source) source = extend target source := by
  refine extend_eq_self fun pair hmem => ?_
  have hvalue : get? source pair.1 = some pair.2 := get?_of_mem h hmem
  rw [get?_extend, ofPairs_eq_self h, hvalue, Option.some_or]

end Entries

/-! ## Attributes -/

namespace Attributes

variable {upper : Attributes}

/-- Laying the same metadata over others twice is doing so once. -/
theorem overlay_overlay (lower : Attributes) (h : (Entries.keys upper.metadata).Nodup) :
    (lower.overlay upper).overlay upper = lower.overlay upper := by
  simp only [overlay, Option.orElse_eq_orElse, Option.orElse_eq_or, ← Option.or_assoc,
    Option.or_self, Entries.extend_extend _ h]

theorem empty_overlay (h : (Entries.keys upper.metadata).Nodup) : overlay {} upper = upper := by
  have hmetadata : Entries.extend [] upper.metadata = upper.metadata := Entries.ofPairs_eq_self h
  simp [overlay, hmetadata]

end Attributes

/-! ## Nodes -/

namespace Node

variable {below upper : Entries Node}

/-- Each entry is laid over one that it does not change. -/
theorem overlayEntries_eq_self
    (h : ∀ entry ∈ upper, ∃ found, Entries.get? below entry.1 = some found ∧
      overlay (some found) entry.2 = found) : overlayEntries below upper = below := by
  induction upper with
  | nil =>
      rw [overlayEntries]
  | cons entry rest ih =>
      rcases List.forall_mem_cons.1 h with ⟨⟨found, hfound, hsame⟩, hrest⟩
      rw [overlayEntries, hfound, hsame, Entries.put_eq_self hfound]
      exact ih hrest

/-- Entries with new names, none of which changes when nothing is below it. -/
theorem overlayEntries_eq_append (hnames : (Entries.keys (below ++ upper)).Nodup)
    (h : ∀ entry ∈ upper, overlay none entry.2 = entry.2) :
    overlayEntries below upper = below ++ upper := by
  induction upper generalizing below with
  | nil =>
      rw [overlayEntries, List.append_nil]
  | cons entry rest ih =>
      rcases List.forall_mem_cons.1 h with ⟨hentry, hrest⟩
      have hassoc : below ++ entry :: rest = below ++ [entry] ++ rest := by simp
      have hfresh : entry.1 ∉ Entries.keys below := by
        intro hmem
        rw [Entries.keys, List.map_append, List.map_cons] at hnames
        exact (List.nodup_append.1 hnames).2.2 entry.1 hmem entry.1 List.mem_cons_self rfl
      rw [overlayEntries, Entries.get?_eq_none_iff.2 hfresh, hentry, Entries.put_eq_append hfresh,
        hassoc]
      exact ih (hassoc ▸ hnames) hrest

/-- Laying the same entries over others twice is doing so once, if it is so for each of them. -/
theorem overlayEntries_overlayEntries (below : Entries Node) (hnames : (Entries.keys upper).Nodup)
    (h : ∀ entry ∈ upper, ∀ lower,
      overlay (some (overlay lower entry.2)) entry.2 = overlay lower entry.2) :
    overlayEntries (overlayEntries below upper) upper = overlayEntries below upper := by
  refine overlayEntries_eq_self fun entry hmem => ?_
  refine ⟨overlay (Entries.get? below entry.1) entry.2, ?_, h entry hmem _⟩
  have hentry : Entries.get? upper entry.1 = some entry.2 := Entries.get?_of_mem hnames hmem
  rw [get?_overlayEntries hnames, hentry, Option.map_some, Option.some_or]

mutual

/-- Laying the same node over another twice is doing so once. -/
theorem overlay_overlay {node : Node} (lower : Option Node) (hnames : node.EachGroup ProperNames)
    (hnamed : node.EachNamed) : overlay (some (overlay lower node)) node = overlay lower node := by
  cases node with
  | token t =>
      rw [overlay_token, overlay_token]
  | group attributes children =>
      rcases eachGroup_group_iff.1 hnames with ⟨hproper, hentries⟩
      rcases eachNamed_group_iff.1 hnamed with ⟨hattributes, hchildren⟩
      rw [overlay_group, overlay_group, attributesOf_group, entriesOf_group,
        Attributes.overlay_overlay _ hattributes.nodup,
        overlayEntries_overlayEntries _ hproper.1 (overlay_overlay_of_mem hentries hchildren)]

/-- The same for each entry of a group. -/
theorem overlay_overlay_of_mem {entries : Entries Node} (hnames : EachEntry ProperNames entries)
    (hnamed : EachEntryNamed entries) :
    ∀ entry ∈ entries, ∀ lower,
      overlay (some (overlay lower entry.2)) entry.2 = overlay lower entry.2 := by
  cases entries with
  | nil =>
      intro entry hmem
      cases hmem
  | cons entry rest =>
      rcases entry with ⟨name, first⟩
      rcases eachEntry_cons_iff.1 hnames with ⟨hfirst, hrest⟩
      rcases eachEntryNamed_cons_iff.1 hnamed with ⟨hfirst', hrest'⟩
      refine List.forall_mem_cons.2 ⟨fun lower => ?_, overlay_overlay_of_mem hrest hrest'⟩
      exact overlay_overlay lower hfirst hfirst'

end

mutual

/-- A node laid over nothing is itself. -/
theorem overlay_none {node : Node} (hnames : node.EachGroup ProperNames) (hnamed : node.EachNamed) :
    overlay none node = node := by
  cases node with
  | token t =>
      rw [overlay_token]
  | group attributes children =>
      rcases eachGroup_group_iff.1 hnames with ⟨hproper, hentries⟩
      rcases eachNamed_group_iff.1 hnamed with ⟨hattributes, hchildren⟩
      have hover := @overlayEntries_eq_append [] children hproper.1
        (overlay_none_of_mem hentries hchildren)
      rw [overlay_group, attributesOf_none, entriesOf_none,
        Attributes.empty_overlay hattributes.nodup, hover, List.nil_append]

/-- The same for each entry of a group. -/
theorem overlay_none_of_mem {entries : Entries Node} (hnames : EachEntry ProperNames entries)
    (hnamed : EachEntryNamed entries) : ∀ entry ∈ entries, overlay none entry.2 = entry.2 := by
  cases entries with
  | nil =>
      intro entry hmem
      cases hmem
  | cons entry rest =>
      rcases entry with ⟨name, first⟩
      rcases eachEntry_cons_iff.1 hnames with ⟨hfirst, hrest⟩
      rcases eachEntryNamed_cons_iff.1 hnamed with ⟨hfirst', hrest'⟩
      exact List.forall_mem_cons.2 ⟨overlay_none hfirst hfirst', overlay_none_of_mem hrest hrest'⟩

end

end Node

/-! ## Trees -/

namespace Tree

variable {tree upper : Tree}

/-- Merging the same tree twice is merging it once. -/
theorem Legible.merge_merge (h : upper.Legible) (lower : Tree) :
    (lower.merge upper).merge upper = lower.merge upper := by
  have hattributes := Attributes.overlay_overlay lower.attributes h.attributes.nodup
  have hchildren := Node.overlayEntries_overlayEntries lower.children h.names.1.1
    (Node.overlay_overlay_of_mem h.names.2 h.children)
  exact congrArg₂ Tree.mk hattributes hchildren

theorem Legible.empty_merge (h : tree.Legible) : empty.merge tree = tree := by
  have hattributes := Attributes.empty_overlay h.attributes.nodup
  have hchildren := @Node.overlayEntries_eq_append [] tree.children h.names.1.1
    (Node.overlay_none_of_mem h.names.2 h.children)
  exact congrArg₂ Tree.mk hattributes hchildren

theorem merge_empty (tree : Tree) : tree.merge empty = tree := by
  simp [merge, empty, Node.overlayEntries]

/-- A tree is what it makes of the empty one, and there it is laid over for the second time. -/
theorem Legible.merge_self (h : tree.Legible) : tree.merge tree = tree := by
  have hagain := h.merge_merge empty
  rwa [h.empty_merge] at hagain

/-- Laying the tree of a document over another for the second time changes nothing, not even the
order of entries and metadata at any level. The empty tree is neutral on both sides, and a tree over
itself is itself. -/
theorem merge_idempotent_of_documents {document upperDocument : Json} {tree upper : Tree}
    (htree : ofJson document = .ok tree) (hupper : ofJson upperDocument = .ok upper) :
    (tree.merge upper).merge upper = tree.merge upper ∧ empty.merge upper = upper ∧
      tree.merge empty = tree ∧ tree.merge tree = tree := by
  have hlegible := legible_ofJson hupper
  exact ⟨hlegible.merge_merge tree, hlegible.empty_merge, merge_empty tree,
    (legible_ofJson htree).merge_self⟩

/-- A token that becomes a group, and a group that becomes a token. -/
def sizesDocument : Json :=
  .object [("$name", .string "Sizes"), ("$base", .null), ("size", .string "4px"),
    ("space", .object [("$type", .string "dimension"), ("sm", .string "2px"),
      ("lg", .string "8px")]),
    ("ink", .string "#000")]

def scalesDocument : Json :=
  .object [("$base", .bool true), ("space", .string "1px"),
    ("size", .object [("$scale", .null), ("sm", .string "2px")]), ("$name", .string "Scales")]

theorem merge_idempotent_of_documents_sizes :
    ∃ tree upper, ofJson sizesDocument = .ok tree ∧ ofJson scalesDocument = .ok upper ∧
      tree.merge upper ≠ upper.merge tree ∧
      ((tree.merge upper).merge upper = tree.merge upper ∧ empty.merge upper = upper ∧
        tree.merge empty = tree ∧ tree.merge tree = tree) := by
  refine ⟨_, _, rfl, rfl, by decide, ?_⟩
  exact @merge_idempotent_of_documents sizesDocument scalesDocument _ _ rfl rfl

end Tree
end DesignTokens
