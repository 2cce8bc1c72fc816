import DesignTokens.Proofs.Store.Growth
import DesignTokens.Proofs.Token.Names

/-!
# Loading trees

The store of a tree is filled from the top: a group is stored before its entries, and the list of
their names after them. Half filled, a store is not well formed. What is complete at any time is
what lies within the path of a node that has been stored with everything below it, and nothing that
is stored later lies there again, since the names of a group are distinct.
-/

namespace DesignTokens
namespace Store

variable {store after : Store} {path parent name : String}

/-! ## Parts of a store -/

/-- What the store holds within a path is a tree with its root there. -/
structure WellFormedWithin (store : Store) (path : String) : Prop where
  present : store.contains path = true
  valid : ∀ {other}, Path.isWithin other path = true → store.contains other = true →
    Path.Valid other
  linked : ∀ {parent name}, Path.isWithin parent path = true → Path.ValidName name →
    store.contains (Path.child parent name) = true →
    store.isGroup parent = true ∧ name ∈ store.children parent
  nodup : ∀ {parent}, Path.isWithin parent path = true → (store.children parent).Nodup
  listed : ∀ {parent name}, Path.isWithin parent path = true → name ∈ store.children parent →
    Path.ValidName name ∧ store.contains (Path.child parent name) = true
  nonempty : ∀ {parent}, Path.isWithin parent path = true → store.names[parent]? ≠ some []

def SameAt (store after : Store) (path : String) : Prop :=
  after.get? path = store.get? path ∧ after.names[path]? = store.names[path]?

/-- Nothing is stored below a path, and no names are listed for it. -/
def Vacant (store : Store) (path : String) : Prop :=
  ∀ {other}, Path.isWithin other path = true →
    (other ≠ path → store.get? other = none) ∧ store.names[other]? = none

theorem SameAt.contains (h : SameAt store after path) :
    after.contains path = store.contains path := by
  simp [Store.contains, h.1]

theorem SameAt.isGroup (h : SameAt store after path) : after.isGroup path = store.isGroup path := by
  simp [Store.isGroup, h.1]

theorem SameAt.children (h : SameAt store after path) :
    after.children path = store.children path := by
  simp [Store.children, h.2]

/-- Three stores that agree at a path two by two agree all. -/
theorem SameAt.trans {middle : Store} (h : SameAt store middle path)
    (h' : SameAt middle after path) : SameAt store after path :=
  ⟨h'.1.trans h.1, h'.2.trans h.2⟩

/-- Whether a store is well-formed below a path depends on that part of it alone. -/
theorem WellFormedWithin.congr (h : store.WellFormedWithin path)
    (hsame : ∀ {other}, Path.isWithin other path = true → SameAt store after other) :
    after.WellFormedWithin path := by
  -- A child of a path within is within as well.
  have hchild : ∀ {parent name}, Path.isWithin parent path = true →
      SameAt store after (Path.child parent name) := fun hparent =>
    hsame (Path.isWithin_trans (Path.isWithin_child _ _) hparent)
  constructor
  case present =>
    rw [(hsame (Path.isWithin_self path)).contains]
    exact h.present
  case valid =>
    intro other hother hc
    rw [(hsame hother).contains] at hc
    exact h.valid hother hc
  case linked =>
    intro parent name hparent hname hc
    rw [(hchild hparent).contains] at hc
    rw [(hsame hparent).isGroup, (hsame hparent).children]
    exact h.linked hparent hname hc
  case nodup =>
    intro parent hparent
    rw [(hsame hparent).children]
    exact h.nodup hparent
  case listed =>
    intro parent name hparent hmem
    rw [(hsame hparent).children] at hmem
    rw [(hchild hparent).contains]
    exact h.listed hparent hmem
  case nonempty =>
    intro parent hparent
    rw [(hsame hparent).2]
    exact h.nonempty hparent

/-- A store that is well-formed below the root is well-formed, if the root is a group. -/
theorem WellFormedWithin.wellFormed (h : store.WellFormedWithin "")
    (hroot : store.isGroup "" = true) : store.WellFormed := by
  refine WellFormed.of_children hroot ?valid ?linked ?nodup ?listed ?nonempty
  case valid =>
    intro path hc
    exact h.valid (Path.isWithin_root path) hc
  case linked =>
    intro parent name hname hc
    exact h.linked (Path.isWithin_root parent) hname hc
  case nodup =>
    intro parent
    exact h.nodup (Path.isWithin_root parent)
  case listed =>
    intro parent name hmem
    exact h.listed (Path.isWithin_root parent) hmem
  case nonempty =>
    intro parent
    exact h.nonempty (Path.isWithin_root parent)

/-! ## One group -/

/-- The store with the names of the entries of a group listed, if there are any. -/
def withNames (store : Store) (path : String) (names : List String) : Store :=
  if names.isEmpty then store else { store with names := store.names.insert path names }

theorem get?_withNames (names : List String) (other : String) :
    (store.withNames path names).get? other = store.get? other := by
  unfold withNames
  split
  · rfl
  · rfl

/-- What names a store has after those of a path are set; no names are not kept. -/
theorem getElem?_names_withNames (names : List String) (other : String) :
    (store.withNames path names).names[other]? =
      if other = path ∧ names ≠ [] then some names else store.names[other]? := by
  unfold withNames
  by_cases hnil : names = []
  · simp [hnil]
  · by_cases hother : other = path
    · simp [hnil, hother]
    · have hne : path ≠ other := Ne.symm hother
      simp [hnil, hother, Std.ExtTreeMap.getElem?_insert, hne]

/-- Listing names changes nothing at other paths. -/
theorem sameAt_withNames (names : List String) {other : String} (hne : other ≠ path) :
    SameAt store (store.withNames path names) other := by
  refine ⟨get?_withNames names other, ?_⟩
  rw [getElem?_names_withNames, if_neg fun h => hne h.1]

/-- The children of a path that had no names are the names that are listed. -/
theorem children_withNames (names : List String) (hnone : store.names[path]? = none) :
    (store.withNames path names).children path = names := by
  unfold children
  rw [getElem?_names_withNames, hnone]
  by_cases hnil : names = []
  · simp [hnil]
  · simp [hnil]

/-- A group is complete once everything below it is complete and its names are listed. -/
theorem wellFormedWithin_withNames {names : List String} (hvalid : Path.Valid path)
    (hgroup : store.isGroup path = true) (hnames : Node.ProperNames names)
    (hbelow : ∀ name ∈ names, store.WellFormedWithin (Path.child path name))
    (helse : ∀ {other}, Path.isWithin other path = true →
      (∀ name ∈ names, Path.isWithin other (Path.child path name) = false) →
      (other ≠ path → store.get? other = none) ∧ store.names[other]? = none) :
    (store.withNames path names).WellFormedWithin path := by
  generalize hafter : store.withNames path names = after
  have hself : ∀ name ∈ names, Path.isWithin path (Path.child path name) = false := by
    intro name hmem
    exact Path.isWithin_parent_eq_false (hnames.2 name hmem) rfl
  have hget : ∀ other, after.get? other = store.get? other := by
    intro other
    rw [← hafter, get?_withNames]
  have hsame : ∀ {other}, other ≠ path → SameAt store after other := fun hne =>
    hafter ▸ sameAt_withNames names hne
  have hchildren : after.children path = names :=
    hafter ▸ children_withNames names (helse (Path.isWithin_self path) hself).2
  have hcomplete : ∀ name ∈ names, after.WellFormedWithin (Path.child path name) := by
    intro name hmem
    refine (hbelow name hmem).congr fun {other} hother => hsame ?_
    exact Path.ne_of_isWithin hother (hself name hmem)
  -- Within the path there is the group itself, what is complete below it, and otherwise nothing.
  have hcases : ∀ {other}, Path.isWithin other path = true → other = path ∨
      (∃ name ∈ names, Path.isWithin other (Path.child path name) = true) ∨
      (after.contains other = false ∧ after.children other = [] ∧ after.names[other]? = none) := by
    intro other hother
    by_cases heq : other = path
    · exact Or.inl heq
    · by_cases hbelow : ∃ name ∈ names, Path.isWithin other (Path.child path name) = true
      · exact Or.inr (Or.inl hbelow)
      · have hout : ∀ name ∈ names, Path.isWithin other (Path.child path name) = false := by
          intro name hmem
          simpa using fun hin => hbelow ⟨name, hmem, hin⟩
        rcases helse hother hout with ⟨hnone, hnoNames⟩
        have hnoNames' : after.names[other]? = none := (hsame heq).2.trans hnoNames
        refine Or.inr (Or.inr ⟨?_, children_eq_nil_of_names hnoNames', hnoNames'⟩)
        rw [(hsame heq).contains, contains_eq_false_iff]
        exact hnone heq
  -- Each demand is now one about the group, one below an entry, or one about nothing.
  constructor
  case present =>
    rw [Store.contains, hget]
    exact contains_of_isGroup hgroup
  case valid =>
    intro other hother hc
    rcases hcases hother with rfl | ⟨name, hmem, hin⟩ | ⟨hnone, -, -⟩
    · exact hvalid
    · exact (hcomplete name hmem).valid hin hc
    · rw [hc] at hnone
      cases hnone
  case linked =>
    intro parent name hparent hname hc
    have hchild := Path.isWithin_trans (Path.isWithin_child parent name) hparent
    rcases hcases hchild with heq | ⟨first, hmem, hin⟩ | ⟨hnone, -, -⟩
    · rw [← heq] at hparent
      exact absurd hparent (Path.not_isWithin_child hname)
    · rcases (Path.isWithin_child_iff hname).1 hin with heq | hbelow
      · -- An entry of the group: its name is among the listed ones.
        rcases (Path.child_inj hname (hnames.2 first hmem)).1 heq with ⟨rfl, rfl⟩
        rw [hchildren, Store.isGroup, hget]
        exact ⟨hgroup, hmem⟩
      · exact (hcomplete first hmem).linked hbelow hname hc
    · rw [hc] at hnone
      cases hnone
  case nodup =>
    intro parent hparent
    rcases hcases hparent with rfl | ⟨first, hmem, hin⟩ | ⟨-, hnil, -⟩
    · rw [hchildren]
      exact hnames.1
    · exact (hcomplete first hmem).nodup hin
    · rw [hnil]
      exact List.nodup_nil
  case listed =>
    intro parent name hparent hmem
    rcases hcases hparent with rfl | ⟨first, hfirst, hin⟩ | ⟨-, hnil, -⟩
    · rw [hchildren] at hmem
      exact ⟨hnames.2 name hmem, (hcomplete name hmem).present⟩
    · exact (hcomplete first hfirst).listed hin hmem
    · rw [hnil] at hmem
      cases hmem
  case nonempty =>
    intro parent hparent
    rcases hcases hparent with rfl | ⟨first, hfirst, hin⟩ | ⟨-, -, hnone⟩
    · intro hnil
      have hempty : names = [] := by simpa [children, hnil] using hchildren.symm
      rw [← hafter, getElem?_names_withNames, hempty, (helse hparent hself).2] at hnil
      simp at hnil
    · exact (hcomplete first hfirst).nonempty hin
    · simp [hnone]

/-! ## Whole trees -/

def stored : Node → StoredNode
  | .token token => .token token
  | .group attributes _ => .group attributes

/-- A group is put into a store by its metadata, its entries and then its names. -/
theorem putNode_group (attributes : Attributes) (entries : List (String × Node)) :
    store.putNode path (.group attributes entries) =
      ((store.withNode path (.group attributes)).putEntries path entries).withNames path
        (Entries.keys entries) := by
  cases entries with
  | nil =>
      simp [putNode, withNames, withNode, Entries.keys]
  | cons entry rest =>
      simp [putNode, withNames, withNode, Entries.keys]

theorem sameAt_withNode {other : String} (node : StoredNode) (h : other ≠ path) :
    SameAt store (store.withNode path node) other :=
  ⟨by simp [get?_withNode, h], rfl⟩

/-- A token is complete at once. -/
theorem wellFormedWithin_withNode_token (hvalid : Path.Valid path) (hvacant : store.Vacant path)
    (token : Token) : (store.withNode path (.token token)).WellFormedWithin path := by
  have hself : (store.withNode path (.token token)).get? path = some (.token token) := by
    simp [get?_withNode]
  have hnone : ∀ {other}, Path.isWithin other path = true → other ≠ path →
      (store.withNode path (.token token)).contains other = false := by
    intro other hother hne
    rw [(sameAt_withNode _ hne).contains, contains_eq_false_iff]
    exact (hvacant hother).1 hne
  have hnoNames : ∀ {other}, Path.isWithin other path = true →
      (store.withNode path (.token token)).names[other]? = none :=
    fun hother => (hvacant hother).2
  refine ⟨contains_iff.2 ⟨_, hself⟩, ?_, ?_, ?_, ?_, ?_⟩
  · intro other hother hc
    by_cases heq : other = path
    · exact heq ▸ hvalid
    · rw [hnone hother heq] at hc
      cases hc
  · intro parent name hparent hname hc
    have hchild := Path.isWithin_trans (Path.isWithin_child parent name) hparent
    -- A child of what lies within the path is not the path itself, so nothing is stored there.
    rw [hnone hchild] at hc
    · cases hc
    · rintro rfl
      exact Path.not_isWithin_child hname hparent
  · intro parent hparent
    rw [children_eq_nil_of_names (hnoNames hparent)]
    exact List.nodup_nil
  · intro parent name hparent hmem
    rw [children_eq_nil_of_names (hnoNames hparent)] at hmem
    cases hmem
  · intro parent hparent
    simp [hnoNames hparent]

/-- Below a node that has just been stored there is nothing yet. -/
theorem Vacant.child (h : store.Vacant path) (hname : Path.ValidName name) (node : StoredNode) :
    (store.withNode path node).Vacant (Path.child path name) := by
  intro other hother
  have hne : other ≠ path :=
    Path.ne_of_isWithin hother (Path.isWithin_parent_eq_false hname rfl)
  have hold := h (Path.isWithin_trans hother (Path.isWithin_child path name))
  rw [(sameAt_withNode node hne).1, (sameAt_withNode node hne).2]
  exact ⟨fun _ => hold.1 hne, hold.2⟩

/-- What lies within one entry of a group does not lie within another. -/
theorem isWithin_sibling_eq_false {first other : String} (hfirst : Path.ValidName first)
    (hname : Path.ValidName name) (hne : name ≠ first)
    (hin : Path.isWithin other (Path.child path first) = true) :
    Path.isWithin other (Path.child path name) = false := by
  by_cases hin' : Path.isWithin other (Path.child path name) = true
  · exact absurd (Path.name_eq_of_isWithin_child hfirst hname hin hin').symm hne
  · simpa using hin'

/-- What is stored within one entry of a group leaves the place of another vacant. -/
theorem Vacant.sibling {first : String} (h : store.Vacant (Path.child path name))
    (hfirst : Path.ValidName first) (hname : Path.ValidName name) (hne : name ≠ first)
    (hframe : ∀ {other}, Path.isWithin other (Path.child path first) = false →
      SameAt store after other) : after.Vacant (Path.child path name) := by
  intro other hother
  have hout := isWithin_sibling_eq_false hname hfirst (Ne.symm hne) hother
  rw [(hframe hout).1, (hframe hout).2]
  exact h hother

mutual

/-- A node of a tree fills the part of the store within its path and touches nothing else. -/
theorem putNode_wellFormedWithin {node : Node} {store : Store} {path : String}
    (hvalid : Path.Valid path) (hnames : node.EachGroup Node.ProperNames)
    (hvacant : store.Vacant path) :
    (store.putNode path node).WellFormedWithin path ∧
      (store.putNode path node).get? path = some (stored node) ∧
      ∀ {other}, Path.isWithin other path = false →
        SameAt store (store.putNode path node) other := by
  cases node with
  | token token =>
      change (store.withNode path (.token token)).WellFormedWithin path ∧ _
      refine ⟨wellFormedWithin_withNode_token hvalid hvacant token, ?_, ?_⟩
      · exact (get?_withNode _ path).trans (by simp [stored])
      · intro other hother
        exact sameAt_withNode _ (Path.ne_of_isWithin (Path.isWithin_self path) hother).symm
  | group attributes entries =>
      rcases Node.eachGroup_group_iff.1 hnames with ⟨hkeys, hentries⟩
      have hself : ∀ name ∈ Entries.keys entries,
          Path.isWithin path (Path.child path name) = false := by
        intro name hmem
        exact Path.isWithin_parent_eq_false (hkeys.2 name hmem) rfl
      have hgroup : ∀ {other}, other ≠ path →
          SameAt store (store.withNode path (.group attributes)) other :=
        sameAt_withNode (.group attributes)
      have hvacantBelow : ∀ name ∈ Entries.keys entries,
          (store.withNode path (.group attributes)).Vacant (Path.child path name) :=
        fun name hmem => hvacant.child (hkeys.2 name hmem) (.group attributes)
      -- The group is stored by now, and the entries do not touch it.
      rcases putEntries_wellFormedWithin hvalid hkeys hentries hvacantBelow with ⟨hbelow, hframe⟩
      have hhere : ((store.withNode path (.group attributes)).putEntries path entries).get? path =
          some (.group attributes) := by
        rw [(hframe hself).1]
        simp [get?_withNode]
      rw [putNode_group]
      refine ⟨wellFormedWithin_withNames hvalid ?_ hkeys hbelow ?_, ?_, ?_⟩
      · exact isGroup_iff.2 ⟨attributes, hhere⟩
      · intro other hother hout
        rw [(hframe hout).1, (hframe hout).2]
        refine ⟨fun hne => ?_, (hvacant hother).2⟩
        rw [(hgroup hne).1]
        exact (hvacant hother).1 hne
      · exact (get?_withNames _ path).trans hhere
      · intro other hother
        have hne : other ≠ path :=
          (Path.ne_of_isWithin (Path.isWithin_self path) hother).symm
        have hout : ∀ name ∈ Entries.keys entries,
            Path.isWithin other (Path.child path name) = false := by
          intro name _
          exact Path.isWithin_eq_false_of_outside (Path.isWithin_child path name) hother
        refine ((hgroup hne).trans (hframe hout)).trans ⟨get?_withNames _ other, ?_⟩
        rw [getElem?_names_withNames, if_neg fun h => hne h.1]

/-- The entries of a group fill the parts of the store within their own paths. -/
theorem putEntries_wellFormedWithin {entries : List (String × Node)} {store : Store} {path : String}
    (hvalid : Path.Valid path) (hkeys : Node.ProperNames (Entries.keys entries))
    (hentries : Node.EachEntry Node.ProperNames entries)
    (hvacant : ∀ name ∈ Entries.keys entries, store.Vacant (Path.child path name)) :
    (∀ name ∈ Entries.keys entries,
        (store.putEntries path entries).WellFormedWithin (Path.child path name)) ∧
      ∀ {other}, (∀ name ∈ Entries.keys entries,
        Path.isWithin other (Path.child path name) = false) →
          SameAt store (store.putEntries path entries) other := by
  cases entries with
  | nil =>
      refine ⟨?_, fun _ => ⟨rfl, rfl⟩⟩
      intro name hmem
      cases hmem
  | cons entry rest =>
      rcases entry with ⟨name, node⟩
      rcases Node.eachEntry_cons_iff.1 hentries with ⟨hnode, hrest⟩
      have hname : Path.ValidName name := hkeys.2 name (List.mem_cons_self ..)
      have hrestKeys : Node.ProperNames (Entries.keys rest) :=
        ⟨(List.nodup_cons.1 hkeys.1).2,
          fun other hmem => hkeys.2 other (List.mem_cons_of_mem _ hmem)⟩
      -- Siblings have different names, so that they do not come near each other.
      have hne : ∀ sibling ∈ Entries.keys rest, sibling ≠ name := by
        rintro sibling hmem rfl
        exact (List.nodup_cons.1 hkeys.1).1 hmem
      have hapart : ∀ {other}, ∀ sibling ∈ Entries.keys rest,
          Path.isWithin other (Path.child path name) = true →
          Path.isWithin other (Path.child path sibling) = false :=
        fun sibling hmem =>
          isWithin_sibling_eq_false hname (hrestKeys.2 sibling hmem) (hne sibling hmem)
      rcases putNode_wellFormedWithin (hvalid.child hname) hnode
        (hvacant name (List.mem_cons_self ..)) with ⟨hfirst, -, hframe⟩
      have hvacantRest : ∀ sibling ∈ Entries.keys rest,
          (store.putNode (Path.child path name) node).Vacant (Path.child path sibling) :=
        fun sibling hmem => Vacant.sibling (hvacant sibling (List.mem_cons_of_mem _ hmem)) hname
          (hrestKeys.2 sibling hmem) (hne sibling hmem) hframe
      rcases putEntries_wellFormedWithin hvalid hrestKeys hrest hvacantRest with
        ⟨hothers, hframeRest⟩
      rw [putEntries]
      refine ⟨?_, ?_⟩
      · intro other hmem
        rcases List.mem_cons.1 hmem with rfl | hmem'
        · -- The first entry is complete, and the others do not come near it.
          exact hfirst.congr fun hin =>
            hframeRest fun sibling hsibling => hapart sibling hsibling hin
        · exact hothers other hmem'
      · intro other hout
        exact (hframe (hout name (List.mem_cons_self ..))).trans
          (hframeRest fun sibling hmem => hout sibling (List.mem_cons_of_mem _ hmem))

end

/-- The store of a tree with proper names is well formed. -/
theorem wellFormed_ofTree {tree : Tree} (h : tree.EachGroup Node.ProperNames) :
    (ofTree tree).WellFormed := by
  have hvacant : empty.Vacant "" := by
    intro other _
    refine ⟨fun hne => ?_, by simp [empty]⟩
    simp [get?_empty, hne]
  have hnode : (Node.group tree.attributes tree.children).EachGroup Node.ProperNames :=
    Node.eachGroup_group_iff.2 h
  rcases putNode_wellFormedWithin Path.valid_empty hnode hvacant with ⟨hwithin, hroot, -⟩
  exact hwithin.wellFormed (isGroup_iff.2 ⟨tree.attributes, hroot⟩)

end Store
end DesignTokens
